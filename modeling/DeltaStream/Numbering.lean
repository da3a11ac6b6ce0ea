import DeltaStream.ByteReplica
import DeltaStream.Lib.Run
import DeltaStream.Recovery

/-!
# Sequence numbers of the encoders

The byte encoders refuse to publish once the 64-bit sequence is exhausted.  The typed encoders
add with saturation and go on publishing under the last number.

* `BytePublisher.encode_nextNumber` — a byte encoder always numbers an update one above its
  sequence, or returns an error;
* `TypedEncoder.choose_error_iff` — a typed encoder cannot build an update exactly where a state or
  the delta is not serialised, or compressing one of them fails;
* `TypedEncoder.encode_nextNumber_iff`, `forceSnapshot_nextNumber_iff` — it numbers an update one
  above its sequence if and only if a number is left or the update cannot be built;
* `sequence_never_reused_iff` — both, and along every run.
-/

set_option autoImplicit false

namespace DeltaStream

open Runs

/-- The result of a call on an encoder at `sequence`: one more, and none after the last. -/
structure NextNumber (sequence : UInt64) (result : Except DeltaError Packet) : Prop where
  next : ∀ p, result = .ok p → p.sequence.toNat = sequence.toNat + 1
  exhausted : sequence.toNat = U64_MAX → ∃ err, result = .error err

/-- The number of the update a call emitted. -/
def emittedNumber : Except DeltaError Packet → List Nat
  | .ok p => [p.sequence.toNat]
  | .error _ => []

/-- What a call on an encoder may do to its sequence for `Run.increasing` to apply. -/
theorem emittedNumber_step {sequence sequence' : UInt64} {result : Except DeltaError Packet}
    (hgrow : sequence.toNat ≤ sequence'.toNat)
    (hok : ∀ p, result = .ok p → p.sequence = sequence' ∧ sequence.toNat < sequence'.toNat) :
    sequence.toNat ≤ sequence'.toNat ∧ (emittedNumber result).Pairwise (· < ·) ∧
      ∀ n ∈ emittedNumber result, sequence.toNat < n ∧ n ≤ sequence'.toNat := by
  refine ⟨hgrow, ?_, ?_⟩
  · cases result with
    | error err => exact List.Pairwise.nil
    | ok p => exact List.pairwise_singleton _ _
  · intro n hn
    cases result with
    | error err => exact absurd hn List.not_mem_nil
    | ok p =>
      obtain ⟨hseq, hlt⟩ := hok p rfl
      rw [List.mem_singleton.mp hn, hseq]
      exact ⟨hlt, Nat.le_refl _⟩

/-! ## Byte encoders -/

namespace BytePublisher

variable {X : Crates}

theorem Encodes.packet_sequence {pub pub' : BytePublisher} {current : Slice} {p : Packet}
    (h : Encodes X pub current p pub') : p.sequence = pub'.sequence := by
  obtain ⟨raw, hraw, hcopy⟩ := h.raw
  rw [hcopy.header.sequence, hraw.sequence, h.sequence]

/-- **A byte encoder never reuses a number.** -/
theorem encode_nextNumber (pub : BytePublisher) (current : Slice) :
    NextNumber pub.sequence (pub.encode X current).1 where
  next := by
    intro p hp
    have hencodes : Encodes X pub current p (pub.encode X current).2 := encode_ok (Prod.ext hp rfl)
    rw [hencodes.packet_sequence, hencodes.sequence, hencodes.toNat_sequence]
  exhausted := by
    intro hmax
    cases hres : (pub.encode X current).1 with
    | error err => exact ⟨err, rfl⟩
    | ok p =>
      have hencodes : Encodes X pub current p (pub.encode X current).2 :=
        encode_ok (Prod.ext hres rfl)
      have hleft := hencodes.notExhausted
      omega

/-- One call. -/
inductive Update (X : Crates) : BytePublisher → Except DeltaError Packet → BytePublisher → Prop
    where
  | encode {pub pub' : BytePublisher} {result : Except DeltaError Packet} (current : Slice)
      (h : pub.encode X current = (result, pub')) : Update X pub result pub'

theorem Update.numbers {pub pub' : BytePublisher} {result : Except DeltaError Packet}
    (h : Update X pub result pub') :
    pub.sequence.toNat ≤ pub'.sequence.toNat ∧ (emittedNumber result).Pairwise (· < ·) ∧
      ∀ n ∈ emittedNumber result, pub.sequence.toNat < n ∧ n ≤ pub'.sequence.toNat := by
  obtain ⟨current, h⟩ := h
  cases result with
  | error err =>
    refine emittedNumber_step ?_ (by intro p hp; cases hp)
    obtain ⟨-, -, ⟨-, rfl⟩ | ⟨hleft, hseq, -⟩⟩ := encode_error h
    · exact Nat.le_refl _
    · rw [hseq, UInt64.toNat_add]
      have hmax : U64_MAX = 2 ^ 64 - 1 := rfl
      have hone : (1 : UInt64).toNat = 1 := rfl
      omega
  | ok p =>
    have hencodes := encode_ok h
    have hgrow : pub'.sequence.toNat = pub.sequence.toNat + 1 := by
      rw [hencodes.sequence, hencodes.toNat_sequence]
    refine emittedNumber_step (by omega) ?_
    intro q hq
    cases hq
    exact ⟨hencodes.packet_sequence, by omega⟩

end BytePublisher

/-! ## Typed encoders -/

namespace TypedEncoder

variable {S : Type} {X : Crates} {C : StateCodec S}

/-- Why no update of the state can be built, whatever its number. -/
inductive CannotBuild (X : Crates) (C : StateCodec S) (e : TypedEncoder S) (s : S) : Prop where
  | state {err : DeltaError} (h : C.encodeState s = .error err)
  | snapshot {bytes : Bytes} (hs : C.encodeState s = .ok bytes)
      (h : e.policy.CannotCompress X bytes)
  | previous {previous : S} {err : DeltaError} (hlast : e.lastState = some previous)
      (h : C.encodeState previous = .error err)
  | difference {previous : S} {err : DeltaError} (hlast : e.lastState = some previous)
      (h : C.encodeDelta previous s = .error err)
  | delta {previous : S} {payload : Bytes} (hlast : e.lastState = some previous)
      (hs : C.encodeDelta previous s = .ok payload) (h : e.policy.CannotCompress X payload)

/-- A number is left for an update of the state, or the update cannot be built. -/
def NumberLeft (X : Crates) (C : StateCodec S) (e : TypedEncoder S) (s : S) : Prop :=
  e.sequence.toNat < U64_MAX ∨ e.CannotBuild X C s

/-- The selection fails for one of these reasons. -/
theorem choose_error {e : TypedEncoder S} {sequence : UInt64} {s : S} {err : DeltaError}
    (h : e.choose X C sequence s = .error err) : e.CannotBuild X C s := by
  unfold choose rawSnapshot at h
  cases hs : C.encodeState s with
  | error cause => exact .state hs
  | ok bytes =>
    simp only [hs] at h
    split at h
    · exact .snapshot hs ((AdaptivePolicy.selectInitial_error_iff
        (Packet.snapshot_isCompressed _ _ _ _)).mp ⟨err, h⟩)
    rename_i previous hlast
    split at h
    · rename_i cause hold
      exact .previous hlast hold
    split at h
    · rename_i cause hpayload
      exact .difference hlast hpayload
    rename_i payload hpayload
    rcases (AdaptivePolicy.select_error_iff (Packet.snapshot_isCompressed _ _ _ _)
      (Packet.delta_isCompressed _ _ _ _ _)).mp ⟨err, h⟩ with hfail | hfail
    · exact .snapshot hs hfail
    · exact .delta hlast hpayload hfail

/-- What a successful selection has built. -/
theorem choose_builds {e : TypedEncoder S} {sequence : UInt64} {s : S}
    {selected : Packet × EncodeDecision} (h : e.choose X C sequence s = .ok selected) :
    (∃ bytes, C.encodeState s = .ok bytes ∧ ¬e.policy.CannotCompress X bytes) ∧
      ∀ previous, e.lastState = some previous →
        (∃ old, C.encodeState previous = .ok old) ∧
          ∃ payload, C.encodeDelta previous s = .ok payload ∧
            ¬e.policy.CannotCompress X payload := by
  unfold choose at h
  split at h
  · cases h
  rename_i snapshot hsnapshot
  obtain ⟨bytes, hs, rfl⟩ := rawSnapshot_ok hsnapshot
  split at h
  · rename_i hlast
    refine ⟨⟨bytes, hs, fun hbad => ?_⟩, fun previous hprevious => ?_⟩
    · obtain ⟨err, herr⟩ := (AdaptivePolicy.selectInitial_error_iff
        (Packet.snapshot_isCompressed sequence (fnv1a64 bytes) C.schemaHash bytes)).mpr hbad
      rw [h] at herr
      cases herr
    · rw [hlast] at hprevious
      cases hprevious
  rename_i previous hlast
  split at h
  · cases h
  rename_i old hold
  split at h
  · cases h
  rename_i payload hpayload
  have hgood : ¬(e.policy.CannotCompress X bytes ∨ e.policy.CannotCompress X payload) := by
    intro hbad
    obtain ⟨err, herr⟩ := (AdaptivePolicy.select_error_iff
      (Packet.snapshot_isCompressed sequence (fnv1a64 bytes) C.schemaHash bytes)
      (Packet.delta_isCompressed sequence (sequence - 1) (fnv1a64 old) C.schemaHash
        payload)).mpr hbad
    rw [h] at herr
    cases herr
  refine ⟨⟨bytes, hs, fun hbad => hgood (.inl hbad)⟩, fun previous' hprevious => ?_⟩
  rw [hlast] at hprevious
  cases hprevious
  exact ⟨⟨old, hold⟩, payload, hpayload, fun hbad => hgood (.inr hbad)⟩

/-- **When nothing is selected**: the number of the call has no part in it. -/
theorem choose_error_iff (e : TypedEncoder S) (sequence : UInt64) (s : S) :
    (∃ err, e.choose X C sequence s = .error err) ↔ e.CannotBuild X C s := by
  refine ⟨fun ⟨_, h⟩ => choose_error h, fun h => ?_⟩
  cases hchoose : e.choose X C sequence s with
  | error err => exact ⟨err, rfl⟩
  | ok selected =>
    obtain ⟨⟨bytes, hbytes, hgood⟩, hdelta⟩ := choose_builds hchoose
    exfalso
    cases h with
    | state hs =>
      rw [hbytes] at hs
      cases hs
    | snapshot hs hbad =>
      rw [hbytes] at hs
      cases hs
      exact hgood hbad
    | previous hlast hold =>
      obtain ⟨old, hok⟩ := (hdelta _ hlast).1
      rw [hok] at hold
      cases hold
    | difference hlast hs =>
      obtain ⟨payload, hok, -⟩ := (hdelta _ hlast).2
      rw [hok] at hs
      cases hs
    | delta hlast hs hbad =>
      obtain ⟨payload, hok, hsmall⟩ := (hdelta _ hlast).2
      rw [hok] at hs
      cases hs
      exact hsmall hbad

theorem encode_result (e : TypedEncoder S) (s : S) :
    (e.encode X C s).1 = (e.choose X C (nextSequence e.sequence) s).map Prod.fst := by
  unfold encode
  simp only
  have hchoose : ({ e with sequence := nextSequence e.sequence } : TypedEncoder S).choose X C
      (nextSequence e.sequence) s = e.choose X C (nextSequence e.sequence) s := rfl
  rw [hchoose]
  cases e.choose X C (nextSequence e.sequence) s <;> rfl

theorem encode_sequence (e : TypedEncoder S) (s : S) :
    (e.encode X C s).2.sequence = nextSequence e.sequence := by
  unfold encode
  simp only
  split <;> rfl

/-- A forced snapshot is what `encode` emits when nothing has been published. -/
theorem forceSnapshot_result (e : TypedEncoder S) (s : S) :
    (e.forceSnapshot X C s).1 =
      (({ e with lastState := none } : TypedEncoder S).encode X C s).1 := by
  rw [encode_result]
  unfold forceSnapshot choose
  simp only
  cases rawSnapshot C (nextSequence e.sequence) s with
  | error err => rfl
  | ok snapshot =>
    simp only
    cases e.policy.selectInitial X snapshot <;> rfl

/-- Below the last number a packet is numbered one above the sequence. -/
theorem encode_nextNumber {e : TypedEncoder S} (hleft : e.sequence.toNat < U64_MAX) (s : S) :
    NextNumber e.sequence (e.encode X C s).1 where
  next := by
    intro p hp
    rw [(encode_ok (Prod.ext hp rfl)).emits.sequence, toNat_nextSequence hleft]
  exhausted hlast := absurd hleft (by omega)

/-- **When a typed encoder does not reuse a number.** -/
theorem encode_nextNumber_iff (e : TypedEncoder S) (s : S) :
    NextNumber e.sequence (e.encode X C s).1 ↔ e.NumberLeft X C s := by
  by_cases hlast : e.sequence.toNat = U64_MAX
  · -- the sequence stays where it is, so only a failed call is right
    have hres : (e.encode X C s).1 = (e.choose X C e.sequence s).map Prod.fst := by
      rw [encode_result, nextSequence_max hlast]
    rw [hres]
    constructor
    · intro h
      obtain ⟨err, herr⟩ := h.exhausted hlast
      right
      rw [← choose_error_iff e e.sequence]
      cases hchoose : e.choose X C e.sequence s with
      | error err => exact ⟨err, rfl⟩
      | ok selected =>
        rw [hchoose] at herr
        cases herr
    · rintro (hleft | hfail)
      · omega
      · obtain ⟨err, herr⟩ := (choose_error_iff e e.sequence s).mpr hfail
        rw [herr]
        refine ⟨?_, fun _ => ⟨err, rfl⟩⟩
        intro p hp
        cases hp
  · have hleft : e.sequence.toNat < U64_MAX :=
      Nat.lt_of_le_of_ne (toNat_le_max _) hlast
    exact ⟨fun _ => .inl hleft, fun _ => encode_nextNumber hleft s⟩

theorem forceSnapshot_nextNumber_iff (e : TypedEncoder S) (s : S) :
    NextNumber e.sequence (e.forceSnapshot X C s).1 ↔
      ({ e with lastState := none } : TypedEncoder S).NumberLeft X C s := by
  rw [forceSnapshot_result]
  exact encode_nextNumber_iff { e with lastState := none } s

/-- One call that finds a number left. -/
inductive Update (X : Crates) (C : StateCodec S) :
    TypedEncoder S → Except DeltaError Packet → TypedEncoder S → Prop where
  | encode {e e' : TypedEncoder S} {result : Except DeltaError Packet} (s : S)
      (hleft : e.NumberLeft X C s) (h : e.encode X C s = (result, e')) : Update X C e result e'
  | forceSnapshot {e e' : TypedEncoder S} {result : Except DeltaError Packet} (s : S)
      (hleft : ({ e with lastState := none } : TypedEncoder S).NumberLeft X C s)
      (h : e.forceSnapshot X C s = (result, e')) : Update X C e result e'

theorem Update.numbers {e e' : TypedEncoder S} {result : Except DeltaError Packet}
    (h : Update X C e result e') :
    e.sequence.toNat ≤ e'.sequence.toNat ∧ (emittedNumber result).Pairwise (· < ·) ∧
      ∀ n ∈ emittedNumber result, e.sequence.toNat < n ∧ n ≤ e'.sequence.toNat := by
  obtain ⟨hseq, hnext, hsame⟩ : e'.sequence = nextSequence e.sequence ∧
      NextNumber e.sequence result ∧
      ∀ p, result = .ok p → p.sequence = nextSequence e.sequence := by
    cases h with
    | encode s hleft h =>
      have hseq := encode_sequence (X := X) (C := C) e s
      have hnext := (encode_nextNumber_iff e s).mpr hleft
      rw [h] at hseq hnext
      refine ⟨hseq, hnext, ?_⟩
      rintro p rfl
      exact (encode_ok h).emits.sequence
    | forceSnapshot s hleft h =>
      have hseq := forceSnapshot_sequence (X := X) (C := C) e s
      have hnext := (forceSnapshot_nextNumber_iff e s).mpr hleft
      rw [h] at hseq hnext
      refine ⟨hseq, hnext, ?_⟩
      rintro p rfl
      exact (forceSnapshot_ok h).1.emits.sequence
  refine emittedNumber_step (by rw [hseq]; exact le_nextSequence e.sequence) ?_
  intro p hp
  have hone := hnext.next p hp
  rw [hseq, ← hsame p hp]
  exact ⟨rfl, by omega⟩

end TypedEncoder

/-! ## All encoders -/

/-- The results of a run number its updates in strictly increasing order. -/
def Increasing (results : List (Except DeltaError Packet)) : Prop :=
  (results.flatMap emittedNumber).Pairwise (· < ·)

/-- **Sequence numbers are never reused** by the byte encoders, and by the typed encoders exactly
    while a number is left: each update is numbered one above the sequence before the call, none
    is emitted once the sequence is exhausted, and along a run the numbers strictly increase. -/
theorem sequence_never_reused_iff (X : Crates) :
    ((∀ (pub : BytePublisher) (current : Slice),
        NextNumber pub.sequence (pub.encode X current).1) ∧
      ∀ (pub pub' : BytePublisher) results,
        Run (BytePublisher.Update X) pub results pub' → Increasing results) ∧
    ((∀ (e : Encoder) (state : AgentState),
        (NextNumber e.sequence (Encoder.encode X e state).1 ↔ e.NumberLeft X agentCodec state) ∧
        (NextNumber e.sequence (Encoder.forceSnapshot X e state).1 ↔
          TypedEncoder.NumberLeft X agentCodec { e with lastState := none } state)) ∧
      ∀ (e e' : Encoder) results,
        Run (TypedEncoder.Update X agentCodec) e results e' → Increasing results) ∧
    ∀ (T : Type) (S : Serde T),
      (∀ (e : GenericEncoder T) (state : T),
        (NextNumber e.sequence (GenericEncoder.encode X S e state).1 ↔
          e.NumberLeft X (serdeCodec S) state) ∧
        (NextNumber e.sequence (GenericEncoder.forceSnapshot X S e state).1 ↔
          TypedEncoder.NumberLeft X (serdeCodec S) { e with lastState := none } state)) ∧
      ∀ (e e' : GenericEncoder T) results,
        Run (TypedEncoder.Update X (serdeCodec S)) e results e' → Increasing results := by
  refine ⟨⟨BytePublisher.encode_nextNumber, ?_⟩, ⟨?_, ?_⟩, fun T S => ⟨?_, ?_⟩⟩
  · intro pub pub' results h
    exact (h.increasing fun _ _ _ hcall => hcall.numbers).1
  · intro e state
    refine ⟨TypedEncoder.encode_nextNumber_iff e state, ?_⟩
    rw [Encoder.forceSnapshot_eq]
    exact TypedEncoder.forceSnapshot_nextNumber_iff e state
  · intro e e' results h
    exact (h.increasing fun _ _ _ hcall => hcall.numbers).1
  · intro e state
    exact ⟨TypedEncoder.encode_nextNumber_iff e state,
      TypedEncoder.forceSnapshot_nextNumber_iff e state⟩
  · intro e e' results h
    exact (h.increasing fun _ _ _ hcall => hcall.numbers).1

/-- An idle and then a busy update of an agent are numbered in order. -/
theorem sequence_never_reused_iff_two_updates : Increasing [.ok idlePacket, .ok busyPacket] := by
  have hidle : TypedEncoder.Update .stored agentCodec .default (.ok idlePacket) idleEncoder :=
    .encode _ (.inl (by decide)) idleEncoder_encode
  have hbusy : TypedEncoder.Update .stored agentCodec idleEncoder (.ok busyPacket) busyEncoder :=
    .encode _ (.inl (by decide +kernel)) busyEncoder_encode
  exact (sequence_never_reused_iff .stored).2.1.2 _ _ _ ((Run.start.step hidle).step hbusy)

/-- An encoder that has used every number. -/
def exhaustedEncoder : Encoder := ⟨0xFFFFFFFFFFFFFFFF, some (idleAgent 0), .default, none⟩

/-- It publishes the next update under the last number again, where the call should fail. -/
theorem sequence_reused :
    (∃ p, (Encoder.encode .stored exhaustedEncoder busyAgent).1 = .ok p ∧
      p.sequence = exhaustedEncoder.sequence) ∧
    ¬NextNumber exhaustedEncoder.sequence
      (Encoder.encode .stored exhaustedEncoder busyAgent).1 := by
  have hres : (Encoder.encode .stored exhaustedEncoder busyAgent).1 = .ok
      (.delta 0xFFFFFFFFFFFFFFFF 0xFFFFFFFFFFFFFFFE (stateHash (idleAgent 0)) agentSchemaHash
        [16, 0, 2]) := by decide +kernel
  rw [hres]
  refine ⟨⟨_, rfl, rfl⟩, fun h => ?_⟩
  obtain ⟨err, herr⟩ := h.exhausted (by decide)
  cases herr

end DeltaStream
