import DeltaStream.Session

/-!
# A publisher session and a subscriber session

Model of `SubscriberSession::run` of `src/session.rs` without an intentional drop, of
`src/control.rs` and of the broadcast channel of `src/transport/local.rs`: a message is
appended to the stream of every receiver subscribed to its topic, in the order of publishing.
The control loop is subscribed from the start, the subscriber from some later moment on.

* `SessionConfig.step` — one action of one of the tasks;
* `SessionConfig.step_sound` — the things an action can do;
* `SessionConfig.Run` — the reachable configurations.
-/

set_option autoImplicit false

namespace DeltaStream

inductive ControlMessage where
  | hello (clientId : String) (minVersion maxVersion : UInt8) (replyChannel : String)
  | helloAck (clientId : String) (selectedVersion : UInt8)
  | ack (clientId : String) (sequence : UInt64)
  | resyncRequest (request : ResyncRequest)
  deriving DecidableEq

/-- What travels: the JSON text of a control message, or the bytes of a packet.  Neither parses
    as the other: a packet starts with the magic bytes. -/
inductive Payload where
  | control (message : ControlMessage)
  | packet (bytes : Bytes)
  deriving DecidableEq

structure TransportMessage where
  topic : String
  payload : Payload
  deriving DecidableEq

/-! ## The subscriber -/

structure SubscriberSession where
  topics : SessionTopics
  clientId : String
  replyTopic : String
  decoder : Decoder
  awaitingSnapshot : Bool
  /-- the control message still to be published for the message in hand -/
  outgoing : Option ControlMessage
  /-- `run` has returned with an error -/
  stopped : Bool
  /-- a data packet has been received -/
  received : Bool
  deriving DecidableEq

namespace SubscriberSession

/-- `new`, and the start of `run` up to the greeting. -/
def start (topics : SessionTopics) (clientId : String) : SubscriberSession where
  topics := topics
  clientId := clientId
  replyTopic := topics.replyFor clientId
  decoder := .default
  awaitingSnapshot := false
  outgoing := some (.hello clientId MIN_WIRE_VERSION WIRE_VERSION (topics.replyFor clientId))
  stopped := false
  received := false

/-- A decoded packet; the acknowledgement or request is published in a step of its own. -/
def accept (X : Crates) (s : SubscriberSession) (onData : Bool) (packet : Packet) :
    SubscriberSession :=
  let s := { s with received := s.received || onData }
  match Decoder.applyPacket X s.decoder packet with
  | (.error _, decoder) => { s with decoder := decoder, stopped := true }
  | (.ok (.applied sequence _), decoder) =>
    { s with
      decoder := decoder
      awaitingSnapshot := false
      outgoing := some (.ack s.clientId sequence) }
  | (.ok (.duplicate _), decoder) => { s with decoder := decoder }
  | (.ok (.needSnapshot localSequence requiredSequence), decoder) =>
    if s.awaitingSnapshot then { s with decoder := decoder }
    else
      { s with
        decoder := decoder
        awaitingSnapshot := true
        outgoing := some
          (.resyncRequest ⟨s.clientId, localSequence, requiredSequence, s.replyTopic⟩) }

/-- One message of the stream: a `HelloAck`, like anything else that is not a packet, changes
    nothing. -/
def handle (X : Crates) (s : SubscriberSession) (m : TransportMessage) : SubscriberSession :=
  match m.payload with
  | .control _ => s
  | .packet bytes =>
    match Packet.decode X bytes with
    | .error _ => s
    | .ok packet => s.accept X (decide (m.topic = s.topics.data)) packet

end SubscriberSession

/-! ## Both sessions and the channel -/

structure SessionConfig where
  publisher : PublisherSession
  /-- the stream of `control_loop` -/
  inbox : List TransportMessage
  subscriber : Option SubscriberSession
  /-- the stream of the subscriber -/
  stream : List TransportMessage
  deriving DecidableEq

inductive SessionAction where
  /-- a publisher action other than taking up a message -/
  | publisher (a : PublisherAction)
  /-- `control_loop` takes up its next message -/
  | control
  | subscribe (clientId : String)
  /-- the subscriber handles its next message -/
  | receive
  /-- the subscriber publishes its control message -/
  | send
  deriving DecidableEq

/-- `LocalTransport::publish` never fails, and requests come from the inbox only. -/
def PublisherAction.onLocal : PublisherAction → Bool
  | .copy _ => false
  | .encode _ delivered => delivered
  | .reply delivered => delivered
  | _ => true

def Published.message (topics : SessionTopics) : Published → TransportMessage
  | .data _ bytes => ⟨topics.data, .packet bytes⟩
  | .reply channel _ bytes => ⟨channel, .packet bytes⟩

namespace SessionConfig

def new (topics : SessionTopics) (initial : AgentState) : SessionConfig :=
  ⟨.new topics initial, [], none, []⟩

/-- `LocalTransport::publish`. -/
def publish (c : SessionConfig) (m : TransportMessage) : SessionConfig :=
  { c with
    inbox := if m.topic = c.publisher.topics.control then c.inbox ++ [m] else c.inbox
    stream :=
      match c.subscriber with
      | none => c.stream
      | some s =>
        if m.topic = s.topics.data ∨ m.topic = s.replyTopic then c.stream ++ [m] else c.stream }

def publishAll (c : SessionConfig) (out : List Published) : SessionConfig :=
  out.foldl (fun c o => c.publish (o.message c.publisher.topics)) c

/-- `control_loop` with its next message in hand. -/
def handleControl (X : Crates) (c : SessionConfig) (m : TransportMessage) : Option SessionConfig :=
  match m.payload with
  | .packet _ => some c
  | .control (.resyncRequest request) =>
    match c.publisher.step X (.copy request) with
    | none => none
    | some (t, _) => some { c with publisher := t }
  | .control (.ack _ _) => some c
  | .control (.hello clientId minVersion maxVersion replyChannel) =>
    if WIRE_VERSION < minVersion ∨ WIRE_VERSION > maxVersion then some c
    else some (c.publish ⟨replyChannel, .control (.helloAck clientId WIRE_VERSION)⟩)
  | .control (.helloAck _ _) => some c

def step (X : Crates) (c : SessionConfig) : SessionAction → Option SessionConfig
  | .publisher a =>
    if a.onLocal then
      match c.publisher.step X a with
      | none => none
      | some (t, out) => some (publishAll { c with publisher := t } out)
    else none
  | .control =>
    match c.publisher.control, c.inbox with
    | .waiting, m :: inbox => handleControl X { c with inbox := inbox } m
    | _, _ => none
  | .subscribe clientId =>
    match c.subscriber with
    | none => some { c with subscriber := some (.start c.publisher.topics clientId), stream := [] }
    | some _ => none
  | .receive =>
    match c.subscriber, c.stream with
    | some s, m :: stream =>
      if s.outgoing.isNone && !s.stopped then
        some { c with subscriber := some (s.handle X m), stream := stream }
      else none
    | _, _ => none
  | .send =>
    match c.subscriber with
    | none => none
    | some s =>
      match s.outgoing with
      | none => none
      | some message =>
        some (publish { c with subscriber := some { s with outgoing := none } }
          ⟨s.topics.control, .control message⟩)

/-- Nothing undelivered, and no task in the middle of handling a message. -/
structure Quiescent (c : SessionConfig) : Prop where
  inbox : c.inbox = []
  stream : c.stream = []
  control : c.publisher.control = .waiting ∨ c.publisher.control = .stopped
  outgoing : ∀ s ∈ c.subscriber, s.outgoing = none

instance (c : SessionConfig) : Decidable c.Quiescent :=
  decidable_of_iff
    (c.inbox = [] ∧ c.stream = [] ∧
      (c.publisher.control = .waiting ∨ c.publisher.control = .stopped) ∧
      ∀ s ∈ c.subscriber, s.outgoing = none)
    ⟨fun ⟨hinbox, hstream, hcontrol, hout⟩ => ⟨hinbox, hstream, hcontrol, hout⟩,
      fun h => ⟨h.inbox, h.stream, h.control, h.outgoing⟩⟩

/-! ## What an action can do -/

inductive Stepped (X : Crates) (c : SessionConfig) : SessionAction → SessionConfig → Prop where
  | publisher {a : PublisherAction} {t : PublisherSession} {out : List Published}
      (hlocal : a.onLocal = true) (hs : PublisherSession.Stepped X c.publisher a t out) :
      Stepped X c (.publisher a) (publishAll { c with publisher := t } out)
  /-- a message `control_loop` does nothing about -/
  | ignored {m : TransportMessage} {inbox : List TransportMessage} (hinbox : c.inbox = m :: inbox)
      (hm : ∀ request, m.payload ≠ .control (.resyncRequest request)) :
      Stepped X c .control { c with inbox := inbox }
  | greeted {m : TransportMessage} {inbox : List TransportMessage} {channel clientId : String}
      {version : UInt8} (hinbox : c.inbox = m :: inbox)
      (hm : ∀ request, m.payload ≠ .control (.resyncRequest request)) :
      Stepped X c .control
        (publish { c with inbox := inbox } ⟨channel, .control (.helloAck clientId version)⟩)
  | requested {m : TransportMessage} {inbox : List TransportMessage} {request : ResyncRequest}
      (hwaiting : c.publisher.control = .waiting) (hinbox : c.inbox = m :: inbox)
      (hm : m.payload = .control (.resyncRequest request)) :
      Stepped X c .control
        { c with
          publisher := { c.publisher with
            control := .copied request c.publisher.state c.publisher.writer }
          inbox := inbox }
  | subscribe (clientId : String) (habsent : c.subscriber = none) :
      Stepped X c (.subscribe clientId)
        { c with subscriber := some (.start c.publisher.topics clientId), stream := [] }
  | receive {s : SubscriberSession} {m : TransportMessage} {stream : List TransportMessage}
      (hs : c.subscriber = some s) (hstream : c.stream = m :: stream) (hidle : s.outgoing = none)
      (hrunning : s.stopped = false) :
      Stepped X c .receive { c with subscriber := some (s.handle X m), stream := stream }
  | send {s : SubscriberSession} {message : ControlMessage} (hs : c.subscriber = some s)
      (hout : s.outgoing = some message) :
      Stepped X c .send (publish { c with subscriber := some { s with outgoing := none } }
        ⟨s.topics.control, .control message⟩)

theorem handleControl_sound {X : Crates} {c c' : SessionConfig} {m : TransportMessage}
    {inbox : List TransportMessage} (hwaiting : c.publisher.control = .waiting)
    (hinbox : c.inbox = m :: inbox) (h : handleControl X { c with inbox := inbox } m = some c') :
    Stepped X c .control c' := by
  unfold handleControl at h
  split at h
  · rename_i hm
    cases h
    exact .ignored hinbox (by simp [hm])
  · rename_i request hm
    unfold PublisherSession.step at h
    simp only [hwaiting] at h
    cases h
    exact .requested hwaiting hinbox hm
  · rename_i hm
    cases h
    exact .ignored hinbox (by simp [hm])
  · rename_i hm
    split at h
    · cases h
      exact .ignored hinbox (by simp [hm])
    · cases h
      exact .greeted hinbox (by simp [hm])
  · rename_i hm
    cases h
    exact .ignored hinbox (by simp [hm])

/-- **Every action** is one of these. -/
theorem step_sound {X : Crates} {c c' : SessionConfig} {a : SessionAction}
    (h : c.step X a = some c') : Stepped X c a c' := by
  cases a with
  | publisher a =>
    unfold step at h
    simp only at h
    split at h
    · rename_i hlocal
      split at h
      · cases h
      · rename_i t out hs
        cases h
        exact .publisher hlocal (PublisherSession.step_sound hs)
    · cases h
  | control =>
    unfold step at h
    simp only at h
    split at h
    · rename_i m inbox hwaiting hinbox
      exact handleControl_sound hwaiting hinbox h
    · cases h
  | subscribe clientId =>
    unfold step at h
    simp only at h
    split at h
    · rename_i habsent
      cases h
      exact .subscribe clientId habsent
    · cases h
  | receive =>
    unfold step at h
    simp only at h
    split at h
    · rename_i s m stream hs hstream
      split at h
      · rename_i hguard
        cases h
        simp only [Bool.and_eq_true, Option.isNone_iff_eq_none, Bool.not_eq_true'] at hguard
        exact .receive hs hstream hguard.1 hguard.2
      · cases h
    · cases h
  | send =>
    unfold step at h
    simp only at h
    split at h
    · cases h
    · rename_i s hs
      split at h
      · cases h
      · rename_i message hout
        cases h
        exact .send hs hout

/-! ## Runs -/

/-- Runs whose every action is allowed where it is taken. -/
inductive Run (X : Crates) (allowed : SessionConfig → SessionAction → Prop) :
    SessionConfig → Prop where
  | start (base : String) (initial : AgentState) : Run X allowed (new (.new base) initial)
  | step {c c' : SessionConfig} {a : SessionAction} (h : Run X allowed c) (ha : allowed c a)
      (hs : c.step X a = some c') : Run X allowed c'

end SessionConfig

end DeltaStream
