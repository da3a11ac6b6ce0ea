import DeltaStream.Recovery
import DeltaStream.Reorder

/-!
# When a failed call of the reorder decoder changes nothing

The buffer takes packets without looking into them, so an error may only come to light while the
buffer is drained, after the packet of the call has been committed.

* `ReorderDecoder.CommitsThenFails` — the packet is applied and a packet drained after it is not;
* `ReorderDecoder.apply_atomic_iff` — a failed call changes nothing if and only if it is not one of
  these.
-/

set_option autoImplicit false

namespace DeltaStream

open Runs SortedMap

namespace ReorderDecoder

variable {X : Crates}

/-- The caller sees no difference. -/
structure Unchanged (r r' : ReorderDecoder) : Prop where
  sequence : r'.sequence = r.sequence
  state : r'.state = r.state
  pending : r'.pending = r.pending

/-- The packet is applied, and of the packets then drained from the buffer, one after the other,
    one is rejected with an error. -/
def CommitsThenFails (X : Crates) (r : ReorderDecoder) (p : Packet) : Prop :=
  r.ahead p = none ∧ ∃ n s d, Decoder.applyPacket X r.decoder p = (.ok (.applied n s), d) ∧
    ∃ qs rm, Run (Turn X) { r with decoder := d } qs rm ∧ DueRejected X rm

theorem drain_run {r rm : ReorderDecoder} {qs : List Packet} (h : Run (Turn X) r qs rm) (n : UInt64)
    (s : AgentState) (drained : Nat) :
    ∃ s' drained', drain X n r s drained = drain X n rm s' drained' := by
  induction h with
  | start => exact ⟨s, drained, rfl⟩
  | step _ hturn ih =>
    obtain ⟨s', drained', heq⟩ := ih
    obtain ⟨s'', drained'', heq'⟩ := hturn.drain n s' drained'
    exact ⟨s'', drained'', heq.trans heq'⟩

/-- A call whose packet is applied leaves the decoder beyond where it was. -/
theorem apply_advances {r r' : ReorderDecoder} {p : Packet} {n : UInt64} {s : AgentState}
    {d : Decoder} {result : Except DeltaError ReorderApplyResult} (hr : r.decoder.Valid)
    (hahead : r.ahead p = none)
    (hcall : Decoder.applyPacket X r.decoder p = (.ok (.applied n s), d))
    (h : r.apply X p = (result, r')) : r'.sequence ≠ r.sequence := by
  have hsafe : SafeCall TypedDecoder.sequence TypedDecoder.state (TypedDecoder.HasHash agentCodec)
      ApplyResult.applied? r.decoder p (Decoder.applyPacket X r.decoder p) :=
    TypedDecoder.apply_safe hr p
  have hvalid : (Decoder.applyPacket X r.decoder p).2.Valid := TypedDecoder.apply_valid hr p
  rw [hcall] at hsafe hvalid
  obtain ⟨-, hseq, -, hgrow⟩ := hsafe.newer _ n s rfl rfl
  have hstart : ∃ k, ({ r with decoder := d } : ReorderDecoder).sequence = some k ∧ n ≤ k :=
    ⟨n, hseq, UInt64.le_refl n⟩
  rw [apply_of_applied hahead hcall] at h
  obtain ⟨k, hk, hle⟩ := drain_grows hvalid hstart h
  intro heq
  rw [heq] at hk
  exact UInt64.not_le.mpr (hgrow k hk) hle

/-- **A failed call changes nothing** if and only if it has not applied its packet. -/
theorem apply_atomic_iff {r : ReorderDecoder} (h : Reached X r) (p : Packet) :
    (∀ e r', r.apply X p = (.error e, r') → Unchanged r r') ↔ ¬r.CommitsThenFails X p := by
  constructor
  · rintro hatomic ⟨hahead, n, s, d, hcall, qs, rm, hrun, hdue⟩
    obtain ⟨s', drained', heq⟩ := drain_run hrun n s 0
    obtain ⟨e, r', herr⟩ := hdue.drain n s' drained'
    have happly : r.apply X p = (.error e, r') := by
      rw [apply_of_applied hahead hcall, heq, herr]
    exact apply_advances h.valid hahead hcall happly (hatomic e r' happly).sequence
  · intro hnot e r' happly
    cases apply_cases happly with
    | rejected hahead hcall =>
      rw [TypedDecoder.apply_refused hcall (by intro n s hr; cases hr)]
      exact ⟨rfl, rfl, rfl⟩
    | @applied n s d result r' hahead hcall hdrain =>
      exfalso
      obtain ⟨qs, rm, hrun, hstop⟩ := drain_turns hdrain
      refine hnot ⟨hahead, n, s, d, hcall, qs, rm, hrun, ?_⟩
      cases hstop with
      | rejected hdue hq => exact ⟨_, _, e, hdue, by rw [hq]⟩

/-- A snapshot of another schema is rejected by a fresh decoder, which stays fresh. -/
theorem apply_atomic_iff_foreign :
    ((new 8 64).apply .stored (.snapshot 1 0 0 [])).1 =
        .error (.schemaMismatch agentSchemaHash 0) ∧
      Unchanged (new 8 64) ((new 8 64).apply .stored (.snapshot 1 0 0 [])).2 := by
  have hres : ((new 8 64).apply .stored (.snapshot 1 0 0 [])).1 =
      .error (.schemaMismatch agentSchemaHash 0) := by decide +kernel
  refine ⟨hres, (apply_atomic_iff (.new 8 64) _).mpr ?_ _ _ (Prod.ext hres rfl)⟩
  rintro ⟨-, n, s, d, hcall, -⟩
  have hrejected : (Decoder.applyPacket .stored (new 8 64).decoder (.snapshot 1 0 0 [])).1 =
      .error (.schemaMismatch agentSchemaHash 0) := by decide +kernel
  rw [hcall] at hrejected
  cases hrejected

/-- A delta of another schema, made for sequence 2. -/
def foreignDelta : Packet := .delta 3 2 0 0 []

/-- A decoder at sequence 1 that holds it. -/
def holding : ReorderDecoder :=
  (((new 8 64).apply .stored idlePacket).2.apply .stored foreignDelta).2

/-- The delta in between is committed, the foreign one is thrown away, and the call fails. -/
theorem apply_not_atomic :
    Reached .stored holding ∧ holding.sequence = some 1 ∧ holding.pendingLen = 1 ∧
      ∃ r', holding.apply .stored busyPacket =
          (.error (.schemaMismatch agentSchemaHash 0), r') ∧
        r'.sequence = some 2 ∧ r'.pendingLen = 0 ∧ ¬Unchanged holding r' := by
  have hseq : holding.sequence = some 1 := by decide +kernel
  have hmoved : (holding.apply .stored busyPacket).2.sequence = some 2 := by decide +kernel
  refine ⟨.applied (.applied (.new 8 64) _) _, hseq, by decide +kernel, _,
    Prod.ext (by decide +kernel) rfl, hmoved, by decide +kernel, fun h => ?_⟩
  rw [h.sequence, hseq] at hmoved
  cases hmoved

end ReorderDecoder

end DeltaStream
