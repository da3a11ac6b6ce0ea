import DeltaStream.SessionPair
import DeltaStream.StaleSuppression

/-!
# The subscriber's loop over arbitrary bytes

Model of the loop of `SubscriberSession::run` of `src/session.rs` over messages of arbitrary bytes,
with the packet it is asked to drop once; publishing always succeeds.

* `Decoder.rejected_iff` — the packets a decoder rejects with an error;
* `SubscriberRun.run_withoutBad` — while none of them is taken up, messages that are not packets
  make no difference;
* `subscriber_keeps_running_iff` — and the loop keeps running exactly that long.
-/

set_option autoImplicit false

namespace DeltaStream

/-! ## Rejected packets -/

namespace Decoder

variable (X : Crates)

/-- What `f` makes of the packet's payload is an error, or the payload cannot be read. -/
def Unreadable {α : Type} (p : Packet) (f : Bytes → Except DeltaError α) : Prop :=
  ∀ payload, p.logicalPayloadWithConfig X .default = .ok payload → ∃ e, f payload = .error e

/-- A packet of another schema, or a newer one that does not open: a snapshot, or a delta for the
    sequence and the state held. -/
def Unusable (d : Decoder) (p : Packet) : Prop :=
  p.schemaHash ≠ agentSchemaHash ∨
    ¬Passed d.sequence p.sequence ∧
      (p.kind = .snapshot ∧ Unreadable X p (agentCodec.openSnapshot p.baseHash) ∨
        p.kind = .delta ∧ d.sequence = some p.baseSequence ∧
          ∃ s, d.state = some s ∧ stateHash s = p.baseHash ∧
            Unreadable X p (agentCodec.applyDelta s))

def rejects (d : Decoder) (p : Packet) : Bool :=
  match (Decoder.applyPacket X d p).1 with
  | .error _ => true
  | .ok _ => false

variable {X}

/-- The branches of `apply_packet` that read the payload. -/
def opened (X : Crates) (p : Packet) (f : Bytes → Except DeltaError AgentState) :
    Except DeltaError (AgentState ⊕ ApplyResult AgentState) :=
  match p.logicalPayloadWithConfig X .default with
  | .error e => .error e
  | .ok payload =>
    match f payload with
    | .error e => .error e
    | .ok state => .ok (.inl state)

theorem opened_error_iff {p : Packet} {f : Bytes → Except DeltaError AgentState} :
    (∃ e, opened X p f = .error e) ↔ Unreadable X p f := by
  unfold opened Unreadable
  cases p.logicalPayloadWithConfig X .default with
  | error e =>
    refine ⟨fun _ payload h => ?_, fun _ => ⟨e, rfl⟩⟩
    cases h
  | ok payload =>
    simp only
    cases hf : f payload with
    | error e =>
      refine ⟨fun _ payload' h => ?_, fun _ => ⟨e, rfl⟩⟩
      cases h
      exact ⟨e, hf⟩
    | ok state =>
      constructor
      · rintro ⟨e, he⟩
        cases he
      · intro h
        obtain ⟨e, he⟩ := h payload rfl
        rw [hf] at he
        cases he

theorem nextState_snapshot (d : Decoder) {p : Packet} (hkind : p.kind = .snapshot) :
    d.nextState X agentCodec .default p = opened X p (agentCodec.openSnapshot p.baseHash) := by
  unfold TypedDecoder.nextState opened
  simp only [hkind]
  cases p.logicalPayloadWithConfig X .default with
  | error e => rfl
  | ok payload =>
    simp only
    cases agentCodec.openSnapshot p.baseHash payload <;> rfl

theorem nextState_base {d : Decoder} {p : Packet} {s : AgentState} (hkind : p.kind = .delta)
    (hbase : d.sequence = some p.baseSequence) (hs : d.state = some s)
    (hhash : stateHash s = p.baseHash) :
    d.nextState X agentCodec .default p = opened X p (agentCodec.applyDelta s) := by
  have hencode : agentCodec.encodeState s = .ok (encodeAgentState s) := rfl
  have hfnv : fnv1a64 (encodeAgentState s) = p.baseHash := hhash
  unfold TypedDecoder.nextState opened
  simp only [hkind, hs, hencode]
  rw [if_neg (not_not_intro hbase), if_neg (not_not_intro hfnv)]
  cases p.logicalPayloadWithConfig X .default with
  | error e => rfl
  | ok payload =>
    simp only
    cases agentCodec.applyDelta s payload <;> rfl

theorem nextState_other_state {d : Decoder} {p : Packet} {s : AgentState} (hkind : p.kind = .delta)
    (hbase : d.sequence = some p.baseSequence) (hs : d.state = some s)
    (hhash : stateHash s ≠ p.baseHash) : d.nextState X agentCodec .default p =
      .ok (.inr (.needSnapshot d.sequence p.baseSequence)) := by
  have hencode : agentCodec.encodeState s = .ok (encodeAgentState s) := rfl
  have hfnv : fnv1a64 (encodeAgentState s) ≠ p.baseHash := hhash
  unfold TypedDecoder.nextState
  simp only [hkind, hs, hencode]
  rw [if_neg (not_not_intro hbase), if_pos hfnv]

theorem nextState_error_iff {d : Decoder} (hd : d.Valid) (p : Packet) :
    (∃ e, d.nextState X agentCodec .default p = .error e) ↔
      p.kind = .snapshot ∧ Unreadable X p (agentCodec.openSnapshot p.baseHash) ∨
        p.kind = .delta ∧ d.sequence = some p.baseSequence ∧
          ∃ s, d.state = some s ∧ stateHash s = p.baseHash ∧
            Unreadable X p (agentCodec.applyDelta s) := by
  cases hkind : p.kind with
  | snapshot =>
    rw [nextState_snapshot d hkind, opened_error_iff]
    simp
  | delta =>
    by_cases hbase : d.sequence = some p.baseSequence
    · rcases hd.cases with ⟨hnone, -, -⟩ | ⟨k, s, -, hs, -⟩
      · rw [hnone] at hbase
        cases hbase
      by_cases hhash : stateHash s = p.baseHash
      · rw [nextState_base hkind hbase hs hhash, opened_error_iff]
        simp [hbase, hs, hhash]
      · rw [nextState_other_state hkind hbase hs hhash]
        simp [hs, hhash]
    · rw [TypedDecoder.nextState_other_base hkind hbase]
      simp [hbase]

/-- **The packets a decoder rejects** with an error. -/
theorem rejected_iff {d : Decoder} (hd : d.Valid) (p : Packet) :
    d.rejects X p = true ↔ d.Unusable X p := by
  unfold rejects Unusable
  rw [← nextState_error_iff hd p]
  have hcodec : agentCodec.schemaHash = agentSchemaHash := rfl
  by_cases hschema : p.schemaHash = agentSchemaHash
  · by_cases hpassed : Passed d.sequence p.sequence
    · have hcall : d.applyPacket X p = (.ok (.duplicate p.sequence), d) :=
        (TypedDecoder.apply_suppresses hd hschema).unchanged hpassed
      rw [hcall]
      simp [hschema, hpassed]
    · have hfresh := mt (hd.passed_iff p.sequence).mp hpassed
      unfold Decoder.applyPacket TypedDecoder.applyPacket
      rw [hcodec, if_neg (not_not_intro hschema), if_neg fun h => hfresh (.inl h),
        if_neg fun h => hfresh (.inr h)]
      cases hnext : d.nextState X agentCodec .default p with
      | error e => simp [hpassed]
      | ok outcome => cases outcome <;> simp [hschema]
  · unfold Decoder.applyPacket TypedDecoder.applyPacket
    rw [hcodec, if_pos hschema]
    simp [hschema]

end Decoder

/-! ## The loop -/

/-- A message of the transport. -/
structure WireMessage where
  topic : String
  payload : Bytes
  deriving DecidableEq

/-- The session and the local variables of `run`. -/
structure SubscriberRun where
  session : SubscriberSession
  dropped : Bool
  /-- what has been published on the control topic -/
  published : List ControlMessage
  deriving DecidableEq

/-- What the loop makes of a message before the decoder sees it. -/
inductive Received where
  | ignored
  /-- the intentional drop -/
  | drop
  | packet (p : Packet)
  deriving DecidableEq

namespace SubscriberRun

/-- The control message of the session is published. -/
def publish (r : SubscriberRun) : SubscriberRun :=
  { r with
    session := { r.session with outgoing := none }
    published := r.published ++ r.session.outgoing.toList }

/-- `new`, and `run` up to the loop. -/
def start (topics : SessionTopics) (clientId : String) : SubscriberRun :=
  publish ⟨.start topics clientId, false, []⟩

/-- `parse` is `serde_json::from_slice::<ControlMessage>`. -/
def negotiated (parse : Bytes → Option ControlMessage) (s : SubscriberSession) (m : WireMessage) :
    Bool :=
  if m.topic = s.replyTopic then
    match parse m.payload with
    | some (.helloAck _ _) => true
    | _ => false
  else false

variable (X : Crates) (parse : Bytes → Option ControlMessage) (dropOnce : Option UInt64)

def receive (r : SubscriberRun) (m : WireMessage) : Received :=
  if negotiated parse r.session m then .ignored
  else
    match Packet.decode X m.payload with
    | .error _ => .ignored
    | .ok packet =>
      if !r.dropped ∧ dropOnce = some packet.sequence ∧ packet.kind = .delta then .drop
      else .packet packet

/-- The body of the loop. -/
def step (r : SubscriberRun) (m : WireMessage) : SubscriberRun :=
  match receive X parse dropOnce r m with
  | .ignored => r
  | .drop => { r with dropped := true }
  | .packet p =>
    publish { r with session := r.session.accept X (decide (m.topic = r.session.topics.data)) p }

/-- The loop ends with the first error. -/
def run (r : SubscriberRun) : List WireMessage → SubscriberRun
  | [] => r
  | m :: ms => if r.session.stopped then r else run (step X parse dropOnce r m) ms

/-- Not a valid packet, or a packet that reaches the decoder and is rejected. -/
def bad (r : SubscriberRun) (m : WireMessage) : Bool :=
  match receive X parse dropOnce r m with
  | .packet p => r.session.decoder.rejects X p
  | _ =>
    match Packet.decode X m.payload with
    | .error _ => true
    | .ok _ => false

/-- The messages without the bad ones; a bad one would have changed nothing. -/
def withoutBad (r : SubscriberRun) : List WireMessage → List WireMessage
  | [] => []
  | m :: ms =>
    if bad X parse dropOnce r m then withoutBad r ms
    else m :: withoutBad (step X parse dropOnce r m) ms

/-- No message that reaches the decoder is one it cannot use. -/
def Usable (r : SubscriberRun) : List WireMessage → Prop
  | [] => True
  | m :: ms =>
    (∀ p, receive X parse dropOnce r m = .packet p → ¬r.session.decoder.Unusable X p) ∧
      Usable (step X parse dropOnce r m) ms

variable {X parse dropOnce}

end SubscriberRun

/-! ## The loop and the session -/

/-- What a packet makes of the decoder, and whether the loop goes on. -/
theorem SubscriberSession.accept_effect (X : Crates) (s : SubscriberSession) (onData : Bool)
    (p : Packet) : (s.accept X onData p).decoder = (s.decoder.applyPacket X p).2 ∧
      (s.accept X onData p).stopped = (s.stopped || s.decoder.rejects X p) := by
  unfold accept Decoder.rejects
  cases hcall : s.decoder.applyPacket X p with
  | mk result decoder =>
    cases result with
    | error e => simp only [hcall, Bool.or_true, and_self]
    | ok outcome =>
      cases outcome with
      | applied n state => simp only [hcall, Bool.or_false, and_self]
      | duplicate n => simp only [hcall, Bool.or_false, and_self]
      | needSnapshot l r =>
        simp only [hcall, Bool.or_false]
        split <;> exact ⟨rfl, rfl⟩

namespace SubscriberRun

variable {X : Crates} {parse : Bytes → Option ControlMessage} {dropOnce : Option UInt64}
  {r : SubscriberRun} {m : WireMessage}

/-- Without a drop, the step is the session's on the same bytes, and the publishing of its control
    message. -/
theorem step_handle (hidle : r.session.outgoing = none)
    (hack : negotiated parse r.session m = false) : (step X parse none r m).session =
      { r.session.handle X ⟨m.topic, .packet m.payload⟩ with outgoing := none } := by
  have hself : { r.session with outgoing := none } = r.session := by
    rw [← hidle]
  unfold step receive SubscriberSession.handle
  rw [hack]
  simp only [Bool.false_eq_true, if_false]
  cases Packet.decode X m.payload with
  | error e => exact hself.symm
  | ok p =>
    simp only
    rw [if_neg]
    · rfl
    · rintro ⟨-, hnone, -⟩
      cases hnone

theorem step_ignored (h : receive X parse dropOnce r m = .ignored) :
    step X parse dropOnce r m = r := by
  unfold step
  rw [h]

theorem step_valid (hd : r.session.decoder.Valid) (m : WireMessage) :
    (step X parse dropOnce r m).session.decoder.Valid := by
  unfold step
  split
  · exact hd
  · exact hd
  · rename_i p _
    show (r.session.accept X _ p).decoder.Valid
    rw [(r.session.accept_effect X _ p).1]
    exact TypedDecoder.apply_valid hd p

/-- The loop goes on after a message unless it is a packet the decoder cannot use. -/
theorem step_stopped (hd : r.session.decoder.Valid) (hrunning : r.session.stopped = false) :
    (step X parse dropOnce r m).session.stopped = false ↔
      ∀ p, receive X parse dropOnce r m = .packet p → ¬r.session.decoder.Unusable X p := by
  unfold step
  split
  · rename_i h
    refine ⟨fun _ p hp => ?_, fun _ => hrunning⟩
    rw [h] at hp
    cases hp
  · rename_i h
    refine ⟨fun _ p hp => ?_, fun _ => hrunning⟩
    rw [h] at hp
    cases hp
  · rename_i p h
    show (r.session.accept X _ p).stopped = false ↔ _
    rw [(r.session.accept_effect X _ p).2, hrunning, Bool.false_or]
    constructor
    · intro hkept q hq hunusable
      rw [h] at hq
      cases hq
      rw [(Decoder.rejected_iff hd p).mpr hunusable] at hkept
      cases hkept
    · intro husable
      refine Bool.eq_false_iff.mpr fun hrejects => ?_
      exact husable p h ((Decoder.rejected_iff hd p).mp hrejects)

theorem run_stopped (h : r.session.stopped = true) (ms : List WireMessage) :
    run X parse dropOnce r ms = r := by
  cases ms with
  | nil => rfl
  | cons m ms => exact if_pos h

theorem run_running (h : r.session.stopped = false) (m : WireMessage) (ms : List WireMessage) :
    run X parse dropOnce r (m :: ms) = run X parse dropOnce (step X parse dropOnce r m) ms :=
  if_neg (Bool.eq_false_iff.mp h)

/-- **The loop keeps running** exactly while every packet can be used. -/
theorem run_stopped_iff : ∀ {ms : List WireMessage} {r : SubscriberRun},
    r.session.decoder.Valid → r.session.stopped = false →
      ((run X parse dropOnce r ms).session.stopped = false ↔ Usable X parse dropOnce r ms)
  | [], r, _, hrunning => ⟨fun _ => trivial, fun _ => hrunning⟩
  | m :: ms, r, hd, hrunning => by
    have hstep : (step X parse dropOnce r m).session.stopped = false ↔ _ :=
      step_stopped hd hrunning
    rw [run_running hrunning]
    cases hstopped : (step X parse dropOnce r m).session.stopped with
    | false =>
      rw [run_stopped_iff (step_valid hd m) hstopped]
      exact ⟨fun h => ⟨hstep.mp hstopped, h⟩, fun h => h.2⟩
    | true =>
      rw [run_stopped hstopped, hstopped]
      constructor
      · intro h
        cases h
      · rintro ⟨husable, -⟩
        rw [hstep.mpr husable] at hstopped
        cases hstopped

/-- A bad message that could be used was not a packet. -/
theorem receive_of_bad (hd : r.session.decoder.Valid) (hbad : bad X parse dropOnce r m = true)
    (husable : ∀ p, receive X parse dropOnce r m = .packet p → ¬r.session.decoder.Unusable X p) :
    receive X parse dropOnce r m = .ignored := by
  unfold bad at hbad
  cases hreceive : receive X parse dropOnce r m with
  | ignored => rfl
  | packet p =>
    rw [hreceive] at hbad
    exact absurd ((Decoder.rejected_iff hd p).mp hbad) (husable p hreceive)
  | drop =>
    rw [hreceive] at hbad
    unfold receive at hreceive
    split at hreceive
    · cases hreceive
    split at hreceive
    · cases hreceive
    · rename_i packet hdecode
      rw [hdecode] at hbad
      cases hbad

/-- **Messages that are not packets** make no difference. -/
theorem run_withoutBad : ∀ {ms : List WireMessage} {r : SubscriberRun},
    r.session.decoder.Valid → r.session.stopped = false → Usable X parse dropOnce r ms →
      run X parse dropOnce r (withoutBad X parse dropOnce r ms) = run X parse dropOnce r ms
  | [], _, _, _, _ => rfl
  | m :: ms, r, hd, hrunning, ⟨husable, hrest⟩ => by
    have hnext := (step_stopped hd hrunning).mpr husable
    rw [run_running hrunning]
    unfold withoutBad
    split
    · rename_i hbad
      have hsame := step_ignored (receive_of_bad hd hbad husable)
      rw [hsame] at hrest ⊢
      exact run_withoutBad hd hrunning hrest
    · rw [run_running hrunning]
      exact run_withoutBad (step_valid hd m) hnext hrest

end SubscriberRun

open SubscriberRun in
/-- **A subscriber's loop and bad messages.**  For every sequence of messages of arbitrary bytes,
    the loop keeps running and ends with the decoder and the flag it would have without the bad
    messages, exactly when no packet that reaches the decoder is of another schema, or a newer
    snapshot or fitting delta that does not open. -/
theorem subscriber_keeps_running_iff (X : Crates) (parse : Bytes → Option ControlMessage)
    (dropOnce : Option UInt64) (topics : SessionTopics) (clientId : String)
    (ms : List WireMessage) :
    ((run X parse dropOnce (start topics clientId) ms).session.stopped = false ∧
      (run X parse dropOnce (start topics clientId) ms).session.decoder =
        (run X parse dropOnce (start topics clientId)
          (withoutBad X parse dropOnce (start topics clientId) ms)).session.decoder ∧
      (run X parse dropOnce (start topics clientId) ms).session.awaitingSnapshot =
        (run X parse dropOnce (start topics clientId)
          (withoutBad X parse dropOnce (start topics clientId) ms)).session.awaitingSnapshot) ↔
      Usable X parse dropOnce (start topics clientId) ms := by
  have hvalid : (start topics clientId).session.decoder.Valid := TypedDecoder.default_valid
  have hrunning : (run X parse dropOnce (start topics clientId) ms).session.stopped = false ↔
      Usable X parse dropOnce (start topics clientId) ms := run_stopped_iff hvalid rfl
  constructor
  · intro h
    exact hrunning.mp h.1
  · intro husable
    rw [run_withoutBad hvalid rfl husable]
    exact ⟨hrunning.mpr husable, rfl, rfl⟩

open SubscriberRun in
/-- A delta of another schema ends the loop. -/
theorem subscriber_stopped_by_schema : ∃ m : WireMessage,
    bad .stored (fun _ => none) none (start (.new "agent") "client") m = true ∧
      (run .stored (fun _ => none) none (start (.new "agent") "client") [m]).session.stopped =
        true := by
  refine ⟨⟨"agent", (Packet.encode .stored (.delta 2 1 0 7 [])).toOption.getD []⟩, ?_, ?_⟩
  · decide +kernel
  · decide +kernel

end DeltaStream
