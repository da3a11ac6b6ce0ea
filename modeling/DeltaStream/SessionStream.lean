import DeltaStream.Lib.Ordered
import DeltaStream.SessionPair

/-!
# The subscriber's stream of updates

What the messages of a session bring to its subscriber, as an ordered stream of updates
(`Lib/Ordered`), and the invariant of both sessions: what is still to come leads the subscriber
to the publisher's position, and a subscriber without state has a recovery pending once it has
received data.

* `Agreeing` — the invariant;
* `SessionConfig.Orderly` — the actions that keep it;
* `Current.wire`, `Sendable.published` — what the packets of such actions bring;
* `accept_applied`, `accept_duplicate`, `accept_need` — what the subscriber does with them.
-/

set_option autoImplicit false

namespace DeltaStream

open Replica

/-! ## The streams -/

/-- The update an agent packet carries. -/
def readAgent (X : Crates) (p : Packet) : Update AgentState :=
  TypedDecoder.read X agentCodec .default p

/-- The update a message of the subscriber's stream brings. -/
def TransportMessage.item (X : Crates) (data : String) (m : TransportMessage) :
    Option (Item AgentState) :=
  match m.payload with
  | .control _ => none
  | .packet bytes =>
    match Packet.decode X bytes with
    | .error _ => none
    | .ok p => some (if m.topic = data then .next (readAgent X p) else .again (readAgent X p))

def items (X : Crates) (data : String) (stream : List TransportMessage) : List (Item AgentState) :=
  stream.filterMap (TransportMessage.item X data)

/-- The encoder and the states it has encoded. -/
def PublisherSession.run (t : PublisherSession) : TypedRun AgentState :=
  ⟨t.encoder, t.updates.map Prod.snd⟩

/-- A reply topic is not the data topic. -/
theorem SessionTopics.replyFor_ne (topics : SessionTopics) (clientId : String) :
    topics.replyFor clientId ≠ topics.data := by
  intro h
  have hlen := congrArg String.length h
  unfold replyFor at hlen
  rw [String.length_append, String.length_append] at hlen
  have hreply : ".reply.".length = 7 := by decide
  omega

/-! ## The invariant -/

/-- A request of a subscriber without state, to be answered on its reply topic. -/
def ResyncRequest.Ours (r : ResyncRequest) (s : SubscriberSession) : Prop :=
  r.localSequence = none ∧ r.replyChannel = s.replyTopic

/-- A recovery snapshot of what was encoded last. -/
def Current (X : Crates) (e : Encoder) (p : Packet) : Prop :=
  ∃ s, e.lastState = some s ∧ SnapshotOf X agentCodec e.sequence s p ∧
    p.encodedLen ≤ HEADER_LEN + (encodeAgentState s).length

/-- What `control_loop` holds while it answers. -/
def ControlPhase.Answering (X : Crates) (e : Encoder) : ControlPhase → Prop
  | .waiting => True
  | .copied _ _ _ => True
  | .built _ p => Current X e p
  | .replying _ ps => ∃ p, ps = [p] ∧ Current X e p
  | .stopped => False

/-- The request `control_loop` is answering. -/
def ControlPhase.request? : ControlPhase → Option ResyncRequest
  | .copied r _ _ => some r
  | .built r _ => some r
  | .replying r _ => some r
  | _ => none

/-- A recovery is on its way to the subscriber. -/
inductive Pending (X : Crates) (c : SessionConfig) (s : SubscriberSession) : Prop where
  | unsent {r : ResyncRequest} (h : s.outgoing = some (.resyncRequest r))
  | sent {r : ResyncRequest} {m : TransportMessage} (hm : m ∈ c.inbox)
      (h : m.payload = .control (.resyncRequest r))
  | answering (h : c.publisher.control ≠ .waiting)
  | published {u : Update AgentState} (h : .again u ∈ items X s.topics.data c.stream)

/-- The subscriber is in sync with a position of the stream, or has no state and a recovery
    pending once it has received data. -/
def Positioned (X : Crates) (c : SessionConfig) (s : SubscriberSession) : Prop :=
  ∃ n, Follows c.publisher.run.log n (items X s.topics.data c.stream) ∧
    (Synced c.publisher.run.log n s.decoder.view ∨
      s.decoder.view = none ∧ (s.received = true → s.awaitingSnapshot = true) ∧
        (s.awaitingSnapshot = true → Pending X c s))

structure Subscribed (X : Crates) (c : SessionConfig) (s : SubscriberSession) : Prop where
  topics : s.topics = c.publisher.topics
  replyTopic : s.replyTopic = s.topics.replyFor s.clientId
  valid : s.decoder.Valid
  running : s.stopped = false
  outgoing : ∀ r, s.outgoing = some (.resyncRequest r) → r.Ours s
  inbox : ∀ m ∈ c.inbox, ∀ r, m.payload = .control (.resyncRequest r) → r.Ours s
  request : ∀ r, c.publisher.control.request? = some r → r.Ours s
  position : Positioned X c s

structure Agreeing (X : Crates) (c : SessionConfig) : Prop where
  tracked : c.publisher.Tracked X
  run : c.publisher.run.Tracks
  room : c.publisher.run.log.length < U64_MAX
  small : ∀ s, c.publisher.encoder.lastState = some s →
    (encodeAgentState s).length ≤ MAX_LOGICAL_PAYLOAD
  answering : c.publisher.control.Answering X c.publisher.encoder
  absent : c.subscriber = none → c.publisher.control = .waiting ∧
    ∀ m ∈ c.inbox, ∀ r, m.payload ≠ .control (.resyncRequest r)
  subscribed : ∀ s, c.subscriber = some s → Subscribed X c s

/-! ## Orderly actions -/

namespace SessionConfig

/-- `control_loop` holds a recovery snapshot it has not published yet. -/
def holdsSnapshot (c : SessionConfig) : Bool :=
  match c.publisher.control with
  | .built _ _ => true
  | .replying _ _ => true
  | _ => false

/-- The state a call passes can be sent and rebuilt: it fits the receiver's limit,
    `cpu_percent` does not go from one zero to the other, and a number is left for it. -/
structure Sendable (t : PublisherSession) (state : AgentState) : Prop where
  fits : (encodeAgentState state).length ≤ MAX_LOGICAL_PAYLOAD
  zeros : ∀ previous ∈ t.encoder.lastState,
    ¬OppositeZeros previous.cpuPercent state.cpuPercent
  room : t.encoder.sequence.toNat + 1 < U64_MAX

instance (t : PublisherSession) (state : AgentState) : Decidable (Sendable t state) :=
  decidable_of_iff
    ((encodeAgentState state).length ≤ MAX_LOGICAL_PAYLOAD ∧
      (∀ previous ∈ t.encoder.lastState, ¬OppositeZeros previous.cpuPercent state.cpuPercent) ∧
      t.encoder.sequence.toNat + 1 < U64_MAX)
    ⟨fun ⟨hfits, hzeros, hroom⟩ => ⟨hfits, hzeros, hroom⟩, fun h => ⟨h.fits, h.zeros, h.room⟩⟩

/-- Recovery snapshots are built in order, packets do not overtake them, and the states passed
    are sendable. -/
def Orderly (c : SessionConfig) : SessionAction → Prop
  | .publisher (.encode call _) => c.holdsSnapshot = false ∧
      ∀ state ∈ c.publisher.calls[call]?, Sendable c.publisher state
  | .publisher .build => c.publisher.copiedLast = true
  | _ => True

instance (c : SessionConfig) : (a : SessionAction) → Decidable (c.Orderly a)
  | .publisher (.encode call _) =>
    inferInstanceAs (Decidable (c.holdsSnapshot = false ∧
      ∀ state ∈ c.publisher.calls[call]?, Sendable c.publisher state))
  | .publisher .build => inferInstanceAs (Decidable (c.publisher.copiedLast = true))
  | .publisher (.write _) | .publisher .record | .publisher (.copy _) | .publisher .plan
  | .publisher (.reply _) | .control | .subscribe _ | .receive | .send => .isTrue trivial

end SessionConfig

/-! ## What packets bring -/

section Packets

variable {X : Crates} {t : PublisherSession}

theorem wire_limit : HEADER_LEN + MAX_LOGICAL_PAYLOAD < U64_MAX := by decide

/-- A current snapshot travels and brings the current state. -/
theorem Current.wire {e : Encoder} {p : Packet} (hd : X.ZstdExact)
    (hsmall : ∀ s, e.lastState = some s → (encodeAgentState s).length ≤ MAX_LOGICAL_PAYLOAD)
    (h : Current X e p) :
    ∃ s bytes, e.lastState = some s ∧ p.encode X = .ok bytes ∧
      Packet.decode X bytes = .ok p ∧ readAgent X p = .full e.sequence.toNat s := by
  obtain ⟨s, hlast, hof, hlen⟩ := h
  have hfits := hsmall s hlast
  have hread : readAgent X p = .full e.sequence.toNat s := by
    refine hof.read_fits agentCodec_lawful hd ?_
    intro bytes hbytes
    cases hbytes
    exact hfits
  obtain ⟨raw, -, hcopy⟩ := hof
  have hmax : MAX_LOGICAL_PAYLOAD = MAX_WIRE_PAYLOAD := rfl
  obtain ⟨bytes, henc, hdec⟩ := hcopy.wire rfl (by omega)
  exact ⟨s, bytes, hlast, henc, hdec, hread⟩

/-- A sendable state is published: its packet travels, and delivers the state. -/
theorem SessionConfig.Sendable.published {state : AgentState} {p : Packet} {encoder' : Encoder}
    (hd : X.ZstdExact) (hrun : t.run.Tracks) (hsend : SessionConfig.Sendable t state)
    (hp : TypedEncoder.Published X agentCodec t.encoder state p encoder') :
    (∃ bytes, p.encode X = .ok bytes ∧ Packet.decode X bytes = .ok p) ∧
      Delivers (t.run.log ++ [state]) (t.run.log.length + 1) (readAgent X p) := by
  have hfits := hsend.fits
  have hroom := hsend.room
  have hmax : MAX_LOGICAL_PAYLOAD = MAX_WIRE_PAYLOAD := rfl
  have hlimit := wire_limit
  have hseq : t.encoder.sequence.toNat = t.run.log.length := hrun.sequence
  constructor
  · have hlen := hp.length _ rfl (by omega)
    exact hp.emits.wire (by omega)
  · refine hrun.delivers agentCodec_lawful hd ?_ (by omega) hp.emits ?_
    · intro previous hprevious
      exact agentCodec_exact ((cpu_kept_iff previous state).mpr (hsend.zeros previous hprevious))
    · intro bytes hbytes
      cases hbytes
      exact ⟨hfits, by omega⟩

end Packets

/-! ## What the subscriber does with them -/

namespace SubscriberSession

variable {X : Crates} {s : SubscriberSession} {p : Packet}

/-- The decoder takes the packet as the replica takes the update. -/
theorem applyPacket_of_receive (hvalid : s.decoder.Valid) {v : Verdict AgentState}
    {r : Option (Nat × AgentState)} (h : receive s.decoder.view (readAgent X p) = (v, r)) :
    ∃ result d, Decoder.applyPacket X s.decoder p = (result, d) ∧
      TypedDecoder.verdict result = v ∧ d.Valid ∧ d.view = r := by
  have hreceive : receive s.decoder.view (readAgent X p) =
      (TypedDecoder.verdict (Decoder.applyPacket X s.decoder p).1,
        (Decoder.applyPacket X s.decoder p).2.view) := TypedDecoder.apply_receive hvalid p
  obtain ⟨hverdict, hview⟩ := Prod.mk.inj (hreceive.symm.trans h)
  exact ⟨_, _, rfl, hverdict, TypedDecoder.apply_valid hvalid p, hview⟩

theorem accept_applied (onData : Bool) (hvalid : s.decoder.Valid) {n : Nat} {t : AgentState}
    {r : Option (Nat × AgentState)}
    (h : receive s.decoder.view (readAgent X p) = (.applied n t, r)) :
    ∃ d k, s.accept X onData p = { s with
        received := s.received || onData
        decoder := d
        awaitingSnapshot := false
        outgoing := some (.ack s.clientId k) } ∧ d.Valid ∧ d.view = r := by
  obtain ⟨result, d, hres, hverdict, hvalid', hview⟩ := applyPacket_of_receive hvalid h
  obtain ⟨k, rfl, -⟩ := TypedDecoder.verdict_applied hverdict
  unfold accept
  exact ⟨d, k, by simp only [hres], hvalid', hview⟩

theorem accept_duplicate (onData : Bool) (hvalid : s.decoder.Valid) {r : Option (Nat × AgentState)}
    (h : receive s.decoder.view (readAgent X p) = (.duplicate, r)) :
    ∃ d, s.accept X onData p = { s with received := s.received || onData, decoder := d } ∧
      d.Valid ∧ d.view = r := by
  obtain ⟨result, d, hres, hverdict, hvalid', hview⟩ := applyPacket_of_receive hvalid h
  obtain ⟨k, rfl⟩ := TypedDecoder.verdict_duplicate hverdict
  unfold accept
  exact ⟨d, by simp only [hres], hvalid', hview⟩

/-- A packet that cannot be used is answered by a request, unless one is under way. -/
theorem accept_need (onData : Bool) (hvalid : s.decoder.Valid) {r : Option (Nat × AgentState)}
    (h : receive s.decoder.view (readAgent X p) = (.need, r)) :
    s.accept X onData p =
      if s.awaitingSnapshot then { s with received := s.received || onData }
      else
        { s with
          received := s.received || onData
          awaitingSnapshot := true
          outgoing := some
            (.resyncRequest ⟨s.clientId, s.decoder.sequence, p.baseSequence, s.replyTopic⟩) } := by
  obtain ⟨result, d, hres, hverdict, -, -⟩ := applyPacket_of_receive hvalid h
  obtain ⟨last, need, rfl⟩ := TypedDecoder.verdict_need hverdict
  have hneed : (Decoder.applyPacket X s.decoder p).1 = .ok (.needSnapshot last need) := by rw [hres]
  obtain ⟨hsame, rfl, rfl⟩ := TypedDecoder.apply_need hneed
  have hd : d = s.decoder := by
    rw [← hsame]
    exact (congrArg Prod.snd hres).symm
  unfold accept
  simp only [hres, hd]

end SubscriberSession

/-! ## What publishing adds -/

namespace SessionConfig

variable {X : Crates} {c : SessionConfig} {s : SubscriberSession} {m : TransportMessage}

theorem mem_publish_inbox {m' : TransportMessage} (h : m' ∈ (c.publish m).inbox) :
    m' ∈ c.inbox ∨ m' = m := by
  unfold publish at h
  simp only at h
  split at h
  · rcases List.mem_append.mp h with h | h
    · exact .inl h
    · exact .inr (List.mem_singleton.mp h)
  · exact .inl h

theorem subset_publish_inbox {m' : TransportMessage} (h : m' ∈ c.inbox) :
    m' ∈ (c.publish m).inbox := by
  unfold publish
  simp only
  split
  · exact List.mem_append_left _ h
  · exact h

/-- A control message adds nothing to the updates. -/
theorem publish_control_items {data topic : String} {message : ControlMessage} :
    items X data (c.publish ⟨topic, .control message⟩).stream = items X data c.stream := by
  unfold publish items
  simp only
  split
  · rfl
  split
  · rw [List.filterMap_append]
    simp [TransportMessage.item]
  · rfl

/-- A packet for the subscriber is the last of its updates. -/
theorem publish_packet_items {data topic : String} {p : Packet} {bytes : Bytes}
    (hs : c.subscriber = some s) (htopic : topic = s.topics.data ∨ topic = s.replyTopic)
    (hbytes : Packet.decode X bytes = .ok p) :
    items X data (c.publish ⟨topic, .packet bytes⟩).stream = items X data c.stream ++
      [if topic = data then .next (readAgent X p) else .again (readAgent X p)] := by
  unfold publish items
  simp only [hs]
  rw [if_pos htopic, List.filterMap_append]
  simp [TransportMessage.item, hbytes]

end SessionConfig

/-! ## Keeping a position -/

section Positions

variable {X : Crates} {c c' : SessionConfig} {s s' : SubscriberSession}

/-- A recovery under way stays so while what makes it so is still there. -/
theorem Pending.mono (h : Pending X c s) (hout : s'.outgoing = s.outgoing)
    (hinbox : ∀ m ∈ c.inbox, ∀ r, m.payload = .control (.resyncRequest r) → m ∈ c'.inbox)
    (hcontrol : c'.publisher.control = .waiting → c.publisher.control = .waiting)
    (hitems : ∀ u, .again u ∈ items X s.topics.data c.stream →
      .again u ∈ items X s'.topics.data c'.stream) : Pending X c' s' := by
  cases h with
  | unsent hreq => exact .unsent (hout.trans hreq)
  | sent hm hreq => exact .sent (hinbox _ hm _ hreq) hreq
  | answering hbusy => exact .answering fun hidle => hbusy (hcontrol hidle)
  | published hu => exact .published (hitems _ hu)

/-- Where only what is in flight changes, a subscriber keeps its position. -/
theorem Positioned.frame (h : Positioned X c s) (hrun : c'.publisher.run = c.publisher.run)
    (hitems : items X s'.topics.data c'.stream = items X s.topics.data c.stream)
    (hdecoder : s'.decoder = s.decoder) (hreceived : s'.received = s.received)
    (hawaiting : s'.awaitingSnapshot = s.awaitingSnapshot)
    (hpending : Pending X c s → Pending X c' s') : Positioned X c' s' := by
  obtain ⟨n, hfollows, hsync⟩ := h
  refine ⟨n, ?_, ?_⟩
  · rw [hrun, hitems]
    exact hfollows
  · rw [hrun, hdecoder, hreceived, hawaiting]
    rcases hsync with hsync | ⟨hnone, hrec, hwait⟩
    · exact .inl hsync
    · exact .inr ⟨hnone, hrec, fun h => hpending (hwait h)⟩

/-- Only a subscriber is answered, and the answer is for it. -/
theorem Agreeing.request_ours (h : Agreeing X c) {request : ResyncRequest}
    (hrequest : c.publisher.control.request? = some request) :
    ∃ s, c.subscriber = some s ∧ request.Ours s := by
  cases hs : c.subscriber with
  | none =>
    rw [(h.absent hs).1] at hrequest
    cases hrequest
  | some s => exact ⟨s, rfl, (h.subscribed s hs).request request hrequest⟩

/-- It has no local sequence, so the plan is the snapshot. -/
theorem Agreeing.plan_eq (h : Agreeing X c) {request : ResyncRequest} {snapshot : Packet}
    (hcontrol : c.publisher.control = .built request snapshot) :
    c.publisher.history.plan request.localSequence snapshot = .ok (.snapshot snapshot) := by
  have hrequest : c.publisher.control.request? = some request := by
    rw [hcontrol]
    rfl
  obtain ⟨s, -, hlocal, -⟩ := h.request_ours hrequest
  rw [hlocal]
  rfl

/-- The packets left to publish are one snapshot. -/
theorem Agreeing.replying_current (h : Agreeing X c) {request : ResyncRequest} {p : Packet}
    {ps : List Packet} (hcontrol : c.publisher.control = .replying request (p :: ps)) :
    ps = [] ∧ Current X c.publisher.encoder p := by
  have hanswering := h.answering
  rw [hcontrol] at hanswering
  obtain ⟨q, hq, hcurrent⟩ := hanswering
  obtain ⟨rfl, rfl⟩ := List.cons_eq_cons.mp hq
  exact ⟨rfl, hcurrent⟩

end Positions

end DeltaStream
