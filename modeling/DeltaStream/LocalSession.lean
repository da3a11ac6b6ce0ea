import DeltaStream.Agreement
import DeltaStream.Lib.Broadcast
import DeltaStream.Lib.Run

/-!
# Both sessions over the broadcast channel

Model of `src/transport/local.rs` with the capacity of its channel, and of the two loops of
`src/session.rs` that read from it: a receiver that falls behind what the channel holds yields an
error, and its loop returns with it.

* `LocalConfig.queued` — the queues of `SessionConfig` a configuration stands for: what the
  channel has carried for a loop since its receiver's position;
* `LocalConfig.Placed.step` — an action does to them what it does in `SessionConfig`, or nothing;
* `local_sessions` — so what is known of the sessions over a transport without losses is known of
  them over this one, and only a loop that was too slow is lost.
-/

set_option autoImplicit false

namespace DeltaStream

open Broadcast Replica Runs

/-! ## The transport -/

/-- The capacity of the channel of `LocalTransport::default`. -/
def CHANNEL_CAPACITY : Nat := 1024

/-- What `LocalTransport::subscribe` returns. -/
structure LocalStream where
  topics : List String
  /-- of the receiver -/
  position : Nat
  deriving DecidableEq

namespace LocalStream

def wants (s : LocalStream) (m : TransportMessage) : Bool := s.topics.contains m.topic

/-- One item of the receiver, if there is one, and what `filter_map` makes of it. -/
def poll (sent : List TransportMessage) (s : LocalStream) :
    Option (Option (Except DeltaError TransportMessage) × LocalStream) :=
  match Broadcast.poll CHANNEL_CAPACITY sent s.position with
  | .pending => none
  | .lagged position =>
    some (some (.error (.transport ("channel lagged by " ++ toString (position - s.position)))),
      { s with position })
  | .message m =>
    some (if s.wants m then some (.ok m) else none, { s with position := s.position + 1 })

/-- What the channel has carried for it and it has not yielded. -/
def rest (sent : List TransportMessage) (s : LocalStream) : List TransportMessage :=
  (sent.drop s.position).filter s.wants

end LocalStream

/-! ## The sessions -/

/-- `SubscriberSession::run`. -/
structure LocalSubscriber where
  session : SubscriberSession
  stream : LocalStream
  /-- what the stream has made it return with -/
  error : Option DeltaError
  deriving DecidableEq

/-- The stream is on what is sent from now on. -/
def LocalSubscriber.start (topics : SessionTopics) (clientId : String) (length : Nat) :
    LocalSubscriber where
  session := .start topics clientId
  stream := ⟨[topics.data, topics.replyFor clientId], length⟩
  error := none

structure LocalConfig where
  publisher : PublisherSession
  subscriber : Option LocalSubscriber
  /-- everything ever sent on the channel -/
  sent : List TransportMessage
  /-- the stream of `control_loop` -/
  control : LocalStream
  /-- what it has made `control_loop` return with -/
  controlError : Option DeltaError
  deriving DecidableEq

namespace LocalConfig

def new (topics : SessionTopics) (initial : AgentState) : LocalConfig :=
  ⟨.new topics initial, none, [], ⟨[topics.control], 0⟩, none⟩

/-- `LocalTransport::publish`. -/
def publish (c : LocalConfig) (m : TransportMessage) : LocalConfig :=
  { c with sent := c.sent ++ [m] }

def publishAll (c : LocalConfig) (out : List Published) : LocalConfig :=
  out.foldl (fun c o => c.publish (o.message c.publisher.topics)) c

/-- `control_loop` with its next message in hand. -/
def handleControl (X : Crates) (c : LocalConfig) (m : TransportMessage) : Option LocalConfig :=
  match m.payload with
  | .packet _ => some c
  | .control (.resyncRequest request) =>
    match c.publisher.step X (.copy request) with
    | none => none
    | some (t, _) => some { c with publisher := t }
  | .control (.ack _ _) => some c
  | .control (.hello clientId minVersion maxVersion replyChannel) =>
    if WIRE_VERSION < minVersion ∨ WIRE_VERSION > maxVersion then some c
    else some (c.publish ⟨replyChannel, .control (.helloAck clientId WIRE_VERSION)⟩)
  | .control (.helloAck _ _) => some c

def step (X : Crates) (c : LocalConfig) : SessionAction → Option LocalConfig
  | .publisher a =>
    if a.onLocal then
      match c.publisher.step X a with
      | none => none
      | some (t, out) => some (publishAll { c with publisher := t } out)
    else none
  | .control =>
    match c.publisher.control, c.controlError, c.control.poll c.sent with
    | .waiting, none, some (none, control) => some { c with control }
    | .waiting, none, some (some (.ok m), control) => handleControl X { c with control } m
    -- `message?`; the stream is dropped
    | .waiting, none, some (some (.error e), _) => some { c with controlError := some e }
    | _, _, _ => none
  | .subscribe clientId =>
    match c.subscriber with
    | none => some { c with subscriber := some (.start c.publisher.topics clientId c.sent.length) }
    | some _ => none
  | .receive =>
    match c.subscriber with
    | none => none
    | some s =>
      if s.session.outgoing.isNone && !s.session.stopped && s.error.isNone then
        match s.stream.poll c.sent with
        | none => none
        | some (none, stream) => some { c with subscriber := some { s with stream } }
        | some (some (.ok m), stream) =>
          some { c with subscriber := some { s with session := s.session.handle X m, stream } }
        | some (some (.error e), _) => some { c with subscriber := some { s with error := some e } }
      else none
  | .send =>
    match c.subscriber with
    | none => none
    | some s =>
      match s.session.outgoing with
      | none => none
      | some message =>
        let session := { s.session with outgoing := none }
        some (publish { c with subscriber := some { s with session } }
          ⟨s.session.topics.control, .control message⟩)

/-- Runs whose every action is allowed where it is taken. -/
inductive Run (X : Crates) (allowed : LocalConfig → SessionAction → Prop) : LocalConfig → Prop where
  | start (base : String) (initial : AgentState) : Run X allowed (new (.new base) initial)
  | step {c c' : LocalConfig} {a : SessionAction} (h : Run X allowed c) (ha : allowed c a)
      (hs : c.step X a = some c') : Run X allowed c'

/-- The queues it stands for. -/
def queued (c : LocalConfig) : SessionConfig where
  publisher := c.publisher
  inbox := c.control.rest c.sent
  subscriber := c.subscriber.map LocalSubscriber.session
  stream :=
    match c.subscriber with
    | none => []
    | some s => s.stream.rest c.sent

end LocalConfig

/-! ## What a stream can yield -/

namespace LocalStream

/-- An unwanted message is passed over, a wanted one is the first of the rest, and an error comes
    when the channel no longer holds the rest. -/
inductive Polled (sent : List TransportMessage) (s : LocalStream) :
    Option (Except DeltaError TransportMessage) → LocalStream → Prop where
  | skipped {s' : LocalStream} (htopics : s'.topics = s.topics) (hle : s'.position ≤ sent.length)
      (hrest : s'.rest sent = s.rest sent) : Polled sent s none s'
  | message {s' : LocalStream} {m : TransportMessage} (htopics : s'.topics = s.topics)
      (hle : s'.position ≤ sent.length) (hrest : s.rest sent = m :: s'.rest sent) :
      Polled sent s (some (.ok m)) s'
  | lagged {s' : LocalStream} {e : DeltaError}
      (hbehind : s.position + CHANNEL_CAPACITY < sent.length) : Polled sent s (some (.error e)) s'

theorem poll_sound {sent : List TransportMessage} {s s' : LocalStream}
    {item : Option (Except DeltaError TransportMessage)} (h : s.poll sent = some (item, s')) :
    Polled sent s item s' := by
  unfold poll at h
  split at h
  · cases h
  · rename_i position hpoll
    cases h
    exact .lagged (behind_of_lagged hpoll)
  · rename_i m hpoll
    obtain ⟨hle, hdrop⟩ := drop_message hpoll
    cases h
    by_cases hm : s.wants m = true
    · rw [if_pos hm]
      refine .message rfl hle ?_
      unfold rest
      rw [hdrop, List.filter_cons_of_pos hm]
      rfl
    · rw [if_neg hm]
      refine .skipped rfl hle ?_
      unfold rest
      rw [hdrop, List.filter_cons_of_neg hm]
      rfl

theorem rest_append {sent : List TransportMessage} {s : LocalStream}
    (hle : s.position ≤ sent.length) (m : TransportMessage) :
    s.rest (sent ++ [m]) = if s.wants m then s.rest sent ++ [m] else s.rest sent := by
  unfold rest
  rw [List.drop_append_of_le_length hle, List.filter_append]
  by_cases hm : s.wants m = true
  · rw [if_pos hm, List.filter_cons_of_pos hm, List.filter_nil]
  · rw [if_neg hm, List.filter_cons_of_neg hm, List.filter_nil, List.append_nil]

theorem rest_length (topics : List String) (sent : List TransportMessage) :
    rest sent ⟨topics, sent.length⟩ = [] := by
  unfold rest
  rw [List.drop_length]
  rfl

end LocalStream

/-! ## The queues -/

theorem PublisherSession.Stepped.topics {X : Crates} {t t' : PublisherSession}
    {a : PublisherAction} {out : List Published} (h : Stepped X t a t' out) :
    t'.topics = t.topics := by
  cases h <;> rfl

theorem SubscriberSession.accept_topics (X : Crates) (s : SubscriberSession) (onData : Bool)
    (p : Packet) :
    (s.accept X onData p).topics = s.topics ∧ (s.accept X onData p).replyTopic = s.replyTopic := by
  unfold accept
  simp only
  split
  · exact ⟨rfl, rfl⟩
  · exact ⟨rfl, rfl⟩
  · exact ⟨rfl, rfl⟩
  · split <;> exact ⟨rfl, rfl⟩

theorem SubscriberSession.handle_topics (X : Crates) (s : SubscriberSession)
    (m : TransportMessage) :
    (s.handle X m).topics = s.topics ∧ (s.handle X m).replyTopic = s.replyTopic := by
  unfold handle
  split
  · exact ⟨rfl, rfl⟩
  split
  · exact ⟨rfl, rfl⟩
  · exact s.accept_topics X _ _

namespace LocalConfig

/-- The streams are where they can be, on the topics they were made with, and an error is one of a
    stream too far behind. -/
structure Placed (c : LocalConfig) : Prop where
  controlTopics : c.control.topics = [c.publisher.topics.control]
  control_le : c.control.position ≤ c.sent.length
  controlError : c.controlError ≠ none → c.control.position + CHANNEL_CAPACITY < c.sent.length
  topics : ∀ s, c.subscriber = some s →
    s.stream.topics = [s.session.topics.data, s.session.replyTopic]
  stream_le : ∀ s, c.subscriber = some s → s.stream.position ≤ c.sent.length
  error : ∀ s, c.subscriber = some s → s.error ≠ none →
    s.stream.position + CHANNEL_CAPACITY < c.sent.length

variable {X : Crates} {c c' : LocalConfig}

theorem Placed.publish (h : c.Placed) (m : TransportMessage) :
    (c.publish m).Placed ∧ (c.publish m).queued = c.queued.publish m := by
  have hmore : c.sent.length ≤ (c.sent ++ [m]).length := by
    rw [List.length_append]
    exact Nat.le_add_right _ _
  refine ⟨⟨h.controlTopics, Nat.le_trans h.control_le hmore,
    fun he => Nat.lt_of_lt_of_le (h.controlError he) hmore, h.topics,
    fun s hs => Nat.le_trans (h.stream_le s hs) hmore,
    fun s hs he => Nat.lt_of_lt_of_le (h.error s hs he) hmore⟩, ?_⟩
  have hinbox : c.control.rest (c.sent ++ [m]) =
      if m.topic = c.publisher.topics.control then c.control.rest c.sent ++ [m]
      else c.control.rest c.sent := by
    rw [LocalStream.rest_append h.control_le]
    simp [LocalStream.wants, h.controlTopics]
  cases hsub : c.subscriber with
  | none => simp [queued, LocalConfig.publish, SessionConfig.publish, hinbox, hsub]
  | some s =>
    have hstream : s.stream.rest (c.sent ++ [m]) =
        if m.topic = s.session.topics.data ∨ m.topic = s.session.replyTopic then
          s.stream.rest c.sent ++ [m]
        else s.stream.rest c.sent := by
      rw [LocalStream.rest_append (h.stream_le s hsub)]
      simp [LocalStream.wants, h.topics s hsub]
    simp [queued, LocalConfig.publish, SessionConfig.publish, hinbox, hstream, hsub]

theorem Placed.publishAll : ∀ (out : List Published) {c : LocalConfig}, c.Placed →
    (c.publishAll out).Placed ∧ (c.publishAll out).queued = c.queued.publishAll out
  | [], _, h => ⟨h, rfl⟩
  | o :: out, c, h => by
    obtain ⟨hplaced, hqueued⟩ := h.publish (o.message c.publisher.topics)
    obtain ⟨hall, hqueuedAll⟩ := hplaced.publishAll out
    refine ⟨hall, hqueuedAll.trans ?_⟩
    rw [hqueued]
    rfl

theorem Placed.withPublisher (h : c.Placed) {t : PublisherSession}
    (ht : t.topics = c.publisher.topics) : Placed { c with publisher := t } :=
  ⟨by rw [h.controlTopics, ht], h.control_le, h.controlError, h.topics, h.stream_le, h.error⟩

theorem Placed.withSession (h : c.Placed) {s : LocalSubscriber} (hs : c.subscriber = some s)
    {session : SubscriberSession} (htopics : session.topics = s.session.topics)
    (hreply : session.replyTopic = s.session.replyTopic) :
    Placed { c with subscriber := some { s with session } } := by
  refine ⟨h.controlTopics, h.control_le, h.controlError, ?_, ?_, ?_⟩
  · intro s' hs'
    cases hs'
    rw [htopics, hreply]
    exact h.topics s hs
  · intro s' hs'
    cases hs'
    exact h.stream_le s hs
  · intro s' hs'
    cases hs'
    exact h.error s hs

theorem Placed.withStream (h : c.Placed) {s : LocalSubscriber} (hs : c.subscriber = some s)
    (hrunning : s.error = none) {stream : LocalStream} (htopics : stream.topics = s.stream.topics)
    (hle : stream.position ≤ c.sent.length) :
    Placed { c with subscriber := some { s with stream } } := by
  refine ⟨h.controlTopics, h.control_le, h.controlError, ?_, ?_, ?_⟩
  · intro s' hs'
    cases hs'
    rw [htopics]
    exact h.topics s hs
  · intro s' hs'
    cases hs'
    exact hle
  · intro s' hs' he
    cases hs'
    exact absurd hrunning he

theorem Placed.withControl (h : c.Placed) (hrunning : c.controlError = none)
    {control : LocalStream} (htopics : control.topics = c.control.topics)
    (hle : control.position ≤ c.sent.length) : Placed { c with control } :=
  ⟨htopics.trans h.controlTopics, hle, (fun he => absurd hrunning he), h.topics, h.stream_le,
    h.error⟩

/-! ## What an action does to them -/

theorem Placed.handleControl (h : c.Placed) {m : TransportMessage}
    (hs : c.handleControl X m = some c') :
    c'.Placed ∧ c.queued.handleControl X m = some c'.queued := by
  unfold LocalConfig.handleControl at hs
  unfold SessionConfig.handleControl
  cases hm : m.payload with
  | packet bytes =>
    rw [hm] at hs
    cases hs
    exact ⟨h, rfl⟩
  | control message =>
    rw [hm] at hs
    cases message with
    | hello clientId minVersion maxVersion replyChannel =>
      simp only at hs ⊢
      by_cases hversion : WIRE_VERSION < minVersion ∨ WIRE_VERSION > maxVersion
      · rw [if_pos hversion] at hs ⊢
        cases hs
        exact ⟨h, rfl⟩
      · rw [if_neg hversion] at hs ⊢
        cases hs
        obtain ⟨hplaced, hqueued⟩ :=
          h.publish ⟨replyChannel, .control (.helloAck clientId WIRE_VERSION)⟩
        exact ⟨hplaced, congrArg some hqueued.symm⟩
    | helloAck clientId version =>
      cases hs
      exact ⟨h, rfl⟩
    | ack clientId sequence =>
      cases hs
      exact ⟨h, rfl⟩
    | resyncRequest request =>
      have hpublisher : c.queued.publisher = c.publisher := rfl
      simp only [hpublisher] at hs ⊢
      cases hcopy : c.publisher.step X (.copy request) with
      | none =>
        rw [hcopy] at hs
        cases hs
      | some out =>
        obtain ⟨t, out⟩ := out
        rw [hcopy] at hs
        cases hs
        exact ⟨h.withPublisher (PublisherSession.step_sound hcopy).topics, rfl⟩

theorem Placed.controlStep (h : c.Placed) (hs : c.step X .control = some c') :
    c'.Placed ∧ (c'.queued = c.queued ∨ c.queued.step X .control = some c'.queued) := by
  unfold LocalConfig.step at hs
  simp only at hs
  split at hs
  · rename_i control hwaiting hrunning hpoll
    cases hs
    cases LocalStream.poll_sound hpoll with
    | skipped htopics hle hrest =>
      refine ⟨h.withControl hrunning htopics hle, .inl ?_⟩
      simp only [queued, hrest]
  · rename_i m control hwaiting hrunning hpoll
    cases LocalStream.poll_sound hpoll with
    | message htopics hle hrest =>
      obtain ⟨hplaced, hqueued⟩ := (h.withControl hrunning htopics hle).handleControl hs
      refine ⟨hplaced, .inr (Eq.trans ?_ hqueued)⟩
      have hwaiting : c.queued.publisher.control = .waiting := hwaiting
      have hinbox : c.queued.inbox = m :: control.rest c.sent := hrest
      unfold SessionConfig.step
      simp only [hwaiting, hinbox]
      rfl
  · rename_i e stream hwaiting hrunning hpoll
    cases hs
    cases LocalStream.poll_sound hpoll with
    | lagged hbehind =>
      exact ⟨⟨h.controlTopics, h.control_le, fun _ => hbehind, h.topics, h.stream_le, h.error⟩,
        .inl rfl⟩
  · cases hs

theorem Placed.receiveStep (h : c.Placed) (hs : c.step X .receive = some c') :
    c'.Placed ∧ (c'.queued = c.queued ∨ c.queued.step X .receive = some c'.queued) := by
  unfold LocalConfig.step at hs
  simp only at hs
  split at hs
  · cases hs
  rename_i s hsub
  split at hs
  · rename_i hguard
    simp only [Bool.and_eq_true, Option.isNone_iff_eq_none] at hguard
    obtain ⟨hidle, hrunning⟩ := hguard
    split at hs
    · cases hs
    · rename_i stream hpoll
      cases hs
      cases LocalStream.poll_sound hpoll with
      | skipped htopics hle hrest =>
        refine ⟨h.withStream hsub hrunning htopics hle, .inl ?_⟩
        simp only [queued, hsub, hrest, Option.map_some]
    · rename_i m stream hpoll
      cases hs
      cases LocalStream.poll_sound hpoll with
      | message htopics hle hrest =>
        obtain ⟨hkeeps, hkeepsReply⟩ := s.session.handle_topics X m
        refine ⟨(h.withStream hsub hrunning htopics hle).withSession rfl hkeeps hkeepsReply,
          .inr ?_⟩
        have hsession : c.queued.subscriber = some s.session := by
          simp only [queued, hsub, Option.map_some]
        have hstream : c.queued.stream = m :: stream.rest c.sent := by
          simp only [queued, hsub, hrest]
        unfold SessionConfig.step
        simp only [hsession, hstream]
        simp [hidle, queued]
    · rename_i e stream hpoll
      cases hs
      cases LocalStream.poll_sound hpoll with
      | lagged hbehind =>
        refine ⟨⟨h.controlTopics, h.control_le, h.controlError, ?_, ?_, ?_⟩, .inl ?_⟩
        · intro s' hs'
          cases hs'
          exact h.topics s hsub
        · intro s' hs'
          cases hs'
          exact h.stream_le s hsub
        · intro s' hs' _
          cases hs'
          exact hbehind
        · simp only [queued, hsub, Option.map_some]
  · cases hs

theorem Placed.subscribe (h : c.Placed) (X : Crates) (clientId : String)
    (hnone : c.subscriber = none) {s : LocalSubscriber}
    (hs : s = .start c.publisher.topics clientId c.sent.length) :
    Placed { c with subscriber := some s } ∧
      c.queued.step X (.subscribe clientId) = some (queued { c with subscriber := some s }) := by
  subst hs
  refine ⟨⟨h.controlTopics, h.control_le, h.controlError, ?_, ?_, ?_⟩, ?_⟩
  · intro s hs
    cases hs
    rfl
  · intro s hs
    cases hs
    exact Nat.le_refl _
  · intro s hs he
    cases hs
    exact absurd rfl he
  · unfold SessionConfig.step
    simp only [queued, hnone, LocalSubscriber.start, Option.map_none, Option.map_some,
      LocalStream.rest_length]

/-- **One action** does to the queues what it does to the sessions over a transport without
    losses, or it changes nothing about them. -/
theorem Placed.step (h : c.Placed) {a : SessionAction} (hs : c.step X a = some c') :
    c'.Placed ∧ (c'.queued = c.queued ∨ c.queued.step X a = some c'.queued) := by
  cases a with
  | control => exact h.controlStep hs
  | receive => exact h.receiveStep hs
  | publisher a =>
    unfold LocalConfig.step at hs
    simp only at hs
    split at hs
    · rename_i hlocal
      cases hstep : c.publisher.step X a with
      | none =>
        rw [hstep] at hs
        cases hs
      | some next =>
        obtain ⟨t, out⟩ := next
        rw [hstep] at hs
        cases hs
        have htopics := (PublisherSession.step_sound hstep).topics
        obtain ⟨hplaced, hqueued⟩ := (h.withPublisher htopics).publishAll out
        refine ⟨hplaced, .inr ?_⟩
        have hstep : c.queued.publisher.step X a = some (t, out) := hstep
        unfold SessionConfig.step
        simp only [hlocal, if_true, hstep, hqueued]
        rfl
    · cases hs
  | subscribe clientId =>
    unfold LocalConfig.step at hs
    simp only at hs
    split at hs
    · rename_i hnone
      cases hs
      obtain ⟨hplaced, hqueued⟩ := h.subscribe X clientId hnone rfl
      exact ⟨hplaced, .inr hqueued⟩
    · cases hs
  | send =>
    unfold LocalConfig.step at hs
    simp only at hs
    split at hs
    · cases hs
    rename_i s hsub
    split at hs
    · cases hs
    · rename_i message hout
      cases hs
      have hplaced : Placed { c with
          subscriber := some { s with session := { s.session with outgoing := none } } } :=
        h.withSession hsub rfl rfl
      obtain ⟨hplaced, hqueued⟩ :=
        hplaced.publish ⟨s.session.topics.control, .control message⟩
      refine ⟨hplaced, .inr ?_⟩
      have hsession : c.queued.subscriber = some s.session := by
        simp only [queued, hsub, Option.map_some]
      unfold SessionConfig.step
      simp only [hsession, hout, hqueued]
      simp only [queued, hsub, Option.map_some]

/-- **Every run** stands for a run of the sessions over a transport without losses. -/
theorem Run.queued {allowed : SessionConfig → SessionAction → Prop}
    (h : Run X (fun c a => allowed c.queued a) c) :
    c.Placed ∧ SessionConfig.Run X allowed c.queued := by
  induction h with
  | start base initial =>
    refine ⟨⟨rfl, Nat.le_refl _, fun he => absurd rfl he, ?_, ?_, ?_⟩, .start base initial⟩
    all_goals
      intro s hs
      cases hs
  | step _ ha hs ih =>
    obtain ⟨hplaced, hrun⟩ := ih
    obtain ⟨hplaced, hsame | hstep⟩ := hplaced.step hs
    · rw [hsame]
      exact ⟨hplaced, hrun⟩
    · exact ⟨hplaced, hrun.step ha hstep⟩

end LocalConfig

/-- **Both sessions over the broadcast channel**, in every run whose actions are orderly, however
    far a loop falls behind.  The configuration stands for one that the sessions reach over a
    transport without losses; a loop returns with an error of the transport only when more than
    the capacity of the channel is left for it to go past; the subscriber, running or returned,
    holds the state encoded under its sequence; and once it has received data, nothing is left
    for it and it awaits no snapshot, that is the publisher's latest state. -/
theorem local_sessions {X : Crates} (hX : X.CompressTotal) (hd : X.ZstdExact) {c : LocalConfig}
    (h : LocalConfig.Run X (fun c a => c.queued.Orderly a) c) :
    SessionConfig.Run X SessionConfig.Orderly c.queued ∧
    (c.controlError ≠ none → c.control.position + CHANNEL_CAPACITY < c.sent.length) ∧
    ∀ s, c.subscriber = some s →
      (s.error ≠ none → s.stream.position + CHANNEL_CAPACITY < c.sent.length) ∧
      (∀ k, s.session.decoder.sequence = some k →
        ∃ state, nth c.publisher.run.log k.toNat = some state ∧
          s.session.decoder.state = some state) ∧
      (s.session.received = true → s.stream.rest c.sent = [] → s.session.awaitingSnapshot = false →
        s.session.decoder.sequence = some c.publisher.encoder.sequence ∧
          ∃ state, s.session.decoder.state = some state ∧
            c.publisher.encoder.lastState = some state) := by
  obtain ⟨hplaced, hrun⟩ := h.queued
  refine ⟨hrun, hplaced.controlError, fun s hs => ⟨hplaced.error s hs, ?_⟩⟩
  have hagree := hrun.agreeing hX hd
  have hsession : c.queued.subscriber = some s.session := by
    simp only [LocalConfig.queued, hs, Option.map_some]
  have hsub := hagree.subscribed _ hsession
  obtain ⟨n, hfollows, hsync⟩ := hsub.position
  constructor
  · intro k hk
    obtain ⟨state, hstate, hview⟩ := hsub.valid.view_of_sequence hk
    rcases hsync with ⟨held, hheld, hnth⟩ | ⟨hnone, -⟩
    · rw [hview] at hheld
      cases hheld
      exact ⟨state, hnth, hstate⟩
    · rw [hview] at hnone
      cases hnone
  · intro hreceived hrest hawaiting
    have hstream : c.queued.stream = [] := by
      simp only [LocalConfig.queued, hs, hrest]
    rw [hstream] at hfollows
    have hn : n = c.publisher.run.log.length := hfollows
    rcases hsync with ⟨state, hview, hnth⟩ | ⟨-, hasked, -⟩
    · have hnth : nth c.publisher.run.log n = some state := hnth
      have hlength : c.publisher.encoder.sequence.toNat = c.publisher.run.log.length :=
        hagree.run.sequence
      rw [hn, nth_length] at hnth
      rw [hn, ← hlength] at hview
      obtain ⟨hseq, hstate⟩ := TypedDecoder.sequence_of_view hview
      exact ⟨hseq, state, hstate, hagree.run.lastState.trans hnth⟩
    · rw [hasked hreceived] at hawaiting
      cases hawaiting

/-- `joined` and `answered` with what each stream passes over. -/
def joinedLocal : List SessionAction :=
  [.publisher (.write (idleAgent 0)), .publisher (.encode 0 true), .publisher .record,
    .subscribe "client", .send, .control, .control, .receive, .receive,
    .publisher (.write busyAgent), .publisher (.encode 1 true), .publisher .record,
    .receive, .send, .control, .control, .control, .publisher .build,
    .publisher .plan, .publisher (.reply true), .receive, .receive, .send, .control, .control]

/-- A late subscriber holds the second update. -/
theorem local_sessions_joined : ∃ c s,
    LocalConfig.Run .stored (fun c a => c.queued.Orderly a) c ∧ c.subscriber = some s ∧
      s.session.decoder.sequence = some 2 ∧
      ∃ state, s.session.decoder.state = some state ∧
        c.publisher.encoder.lastState = some state := by
  have hdone : (perform (LocalConfig.step .stored) (fun c a => decide (c.queued.Orderly a))
      joinedLocal (.new (.new "agent") (idleAgent 0))).map (fun c => c.subscriber.map fun s =>
        (s.session.received, s.stream.rest c.sent, s.session.awaitingSnapshot,
          s.session.decoder.sequence)) = some (some (true, [], false, some 2)) := by
    decide +kernel
  obtain ⟨c, hp, hc⟩ := Option.map_eq_some_iff.mp hdone
  have hrun : LocalConfig.Run .stored (fun c a => c.queued.Orderly a) c :=
    perform_keeps (fun _ _ _ hrun ha hs => hrun.step (of_decide_eq_true ha) hs) hp
      (.start "agent" (idleAgent 0))
  obtain ⟨s, hs, hview⟩ := Option.map_eq_some_iff.mp hc
  obtain ⟨hreceived, hview⟩ := Prod.mk.inj hview
  obtain ⟨hrest, hview⟩ := Prod.mk.inj hview
  obtain ⟨hawaiting, hsequence⟩ := Prod.mk.inj hview
  obtain ⟨-, -, hsub⟩ := local_sessions Crates.stored_total Crates.stored_exact hrun
  exact ⟨c, s, hrun, hs, hsequence, ((hsub s hs).2.2 hreceived hrest hawaiting).2⟩

end DeltaStream
