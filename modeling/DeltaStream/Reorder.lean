import DeltaStream.Lib.Run
import DeltaStream.Rejection

/-!
# The reorder buffer

Model of `src/reorder.rs`: a decoder of agent states that holds deltas made for a later sequence
until the packets before them have been applied.

* `ReorderDecoder` — the buffer is in key order, keyed by the packets' own numbers, holds deltas
  only and never more than `max_pending`;
* `ReorderDecoder.apply_cases` — what a call can do;
* `ReorderDecoder.drain_turns` — the drain loop takes the entry numbered one above the sequence,
  turn after turn, until there is none or one is refused.
-/

set_option autoImplicit false

namespace DeltaStream

open Runs SortedMap

inductive ReorderApplyResult where
  | applied (sequence : UInt64) (state : AgentState) (drained : Nat)
  | buffered (sequence : UInt64)
  | needRecovery (localSequence : Option UInt64) (requiredSequence : UInt64)
  | duplicate (sequence : UInt64)
  deriving DecidableEq

/-- `pending` is the B-tree map, as its entries in key order. -/
structure ReorderDecoder where
  decoder : Decoder
  pending : List (UInt64 × Packet)
  maxGap : UInt64
  maxPending : Usize
  sorted : Sorted pending
  keyed : ∀ e ∈ pending, e.2.sequence = e.1 ∧ e.2.kind = .delta
  bounded : pending.length ≤ maxPending.toNat
  deriving DecidableEq

namespace ReorderDecoder

def new (maxGap : UInt64) (maxPending : Usize) : ReorderDecoder where
  decoder := .default
  pending := []
  maxGap := max maxGap 1
  maxPending := max maxPending 1
  sorted := sorted_nil
  keyed _ he := absurd he List.not_mem_nil
  bounded := Nat.zero_le _

def sequence (r : ReorderDecoder) : Option UInt64 := r.decoder.sequence

def state (r : ReorderDecoder) : Option AgentState := r.decoder.state

def pendingLen (r : ReorderDecoder) : Nat := r.pending.length

def clearPending (r : ReorderDecoder) : ReorderDecoder :=
  { r with
    pending := []
    sorted := sorted_nil
    keyed := fun _ he => absurd he List.not_mem_nil
    bounded := Nat.zero_le _ }

def reset (r : ReorderDecoder) : ReorderDecoder :=
  { r.clearPending with decoder := r.decoder.reset }

/-- `self.pending.entry(packet.sequence).or_insert(packet)`, where there is room for it. -/
def hold (r : ReorderDecoder) (packet : Packet) (hkind : packet.kind = .delta)
    (hroom : r.pending.length < r.maxPending.toNat) : ReorderDecoder :=
  { r with
    pending := orInsert r.pending packet.sequence packet
    sorted := orInsert_sorted r.sorted _ _
    keyed := by
      intro e he
      rcases mem_orInsert he with rfl | he
      · exact ⟨rfl, hkind⟩
      · exact r.keyed e he
    bounded := Nat.le_trans (length_orInsert_le _ _ _) hroom }

/-- `self.pending.remove(&sequence)`, with the decoder after the removed packet. -/
def take (r : ReorderDecoder) (sequence : UInt64) (decoder : Decoder) : ReorderDecoder :=
  { r with
    decoder := decoder
    pending := erase r.pending sequence
    sorted := erase_sorted r.sorted _
    keyed := fun e he => r.keyed e (mem_erase.mp he).1
    bounded := Nat.le_trans (length_erase_le _ _) r.bounded }

/-- The local sequence a delta is ahead of. -/
def ahead (r : ReorderDecoder) (packet : Packet) : Option UInt64 :=
  match packet.kind, r.decoder.sequence with
  | .delta, some localSeq => if localSeq < packet.baseSequence then some localSeq else none
  | _, _ => none

theorem ahead_eq_some {r : ReorderDecoder} {packet : Packet} {localSeq : UInt64}
    (h : r.ahead packet = some localSeq) :
    packet.kind = .delta ∧ r.decoder.sequence = some localSeq ∧
      localSeq < packet.baseSequence := by
  unfold ahead at h
  split at h
  · rename_i hkind hseq
    split at h
    · rename_i hlt
      cases h
      exact ⟨hkind, hseq, hlt⟩
    · cases h
  · cases h

/-- The local sequence and the entry numbered one above it. -/
def due (r : ReorderDecoder) : Option (UInt64 × Packet) :=
  match r.decoder.sequence with
  | none => none
  | some localSeq => (get? r.pending (nextSequence localSeq)).map fun next => (localSeq, next)

theorem due_eq_some {r : ReorderDecoder} {localSeq : UInt64} {q : Packet}
    (h : r.due = some (localSeq, q)) :
    r.decoder.sequence = some localSeq ∧ get? r.pending (nextSequence localSeq) = some q := by
  unfold due at h
  split at h
  · cases h
  · rename_i k hk
    obtain ⟨p, hp, heq⟩ := Option.map_eq_some_iff.mp h
    cases heq
    exact ⟨hk, hp⟩

/-- With nothing due, no entry has the next number. -/
theorem due_eq_none {r : ReorderDecoder} {k : UInt64} (h : r.due = none)
    (hk : r.sequence = some k) : ∀ e ∈ r.pending, e.1 ≠ nextSequence k := by
  intro e he hkey
  have hget := get?_of_mem r.sorted he
  have hk : r.decoder.sequence = some k := hk
  rw [hkey] at hget
  simp [due, hk, hget] at h

/-- The `while let` loop; `sequence` is the number of the packet that started it. -/
def drain (X : Crates) (sequence : UInt64) (r : ReorderDecoder) (state : AgentState)
    (drained : Nat) : Except DeltaError ReorderApplyResult × ReorderDecoder :=
  match _hdue : r.due with
  | none => (.ok (.applied (r.decoder.sequence.getD sequence) state drained), r)
  | some (localSeq, next) =>
    match Decoder.applyPacket X r.decoder next with
    | (.error e, d) => (.error e, r.take (nextSequence localSeq) d)
    | (.ok (.applied _ nextState), d) =>
      drain X sequence (r.take (nextSequence localSeq) d) nextState (drained + 1)
    | (.ok (.duplicate _), d) =>
      drain X sequence (r.take (nextSequence localSeq) d) state drained
    | (.ok (.needSnapshot localSequence requiredSequence), d) =>
      (.ok (.needRecovery localSequence requiredSequence), r.take (nextSequence localSeq) d)
termination_by r.pending.length
decreasing_by
  · exact length_erase_lt (due_eq_some _hdue).2
  · exact length_erase_lt (due_eq_some _hdue).2

def apply (X : Crates) (r : ReorderDecoder) (packet : Packet) :
    Except DeltaError ReorderApplyResult × ReorderDecoder :=
  match hahead : r.ahead packet with
  | some localSeq =>
    if h : packet.baseSequence - localSeq ≤ r.maxGap ∧
        r.pending.length < r.maxPending.toNat then
      (.ok (.buffered packet.sequence), r.hold packet (ahead_eq_some hahead).1 h.2)
    else (.ok (.needRecovery (some localSeq) packet.baseSequence), r)
  | none =>
    match Decoder.applyPacket X r.decoder packet with
    | (.error e, d) => (.error e, { r with decoder := d })
    | (.ok (.applied sequence state), d) => drain X sequence { r with decoder := d } state 0
    | (.ok (.duplicate sequence), d) => (.ok (.duplicate sequence), { r with decoder := d })
    | (.ok (.needSnapshot localSequence requiredSequence), d) =>
      (.ok (.needRecovery localSequence requiredSequence), { r with decoder := d })

/-! ## The drain loop, turn by turn -/

/-- One turn that goes on: the entry that is due is taken out and applied, or is a duplicate. -/
inductive Turn (X : Crates) : ReorderDecoder → Packet → ReorderDecoder → Prop where
  | applied {r : ReorderDecoder} {localSeq n : UInt64} {q : Packet} {s : AgentState} {d : Decoder}
      (hdue : r.due = some (localSeq, q))
      (h : Decoder.applyPacket X r.decoder q = (.ok (.applied n s), d)) :
      Turn X r q (r.take (nextSequence localSeq) d)
  | duplicate {r : ReorderDecoder} {localSeq n : UInt64} {q : Packet} {d : Decoder}
      (hdue : r.due = some (localSeq, q))
      (h : Decoder.applyPacket X r.decoder q = (.ok (.duplicate n), d)) :
      Turn X r q (r.take (nextSequence localSeq) d)

/-- How the loop ends: nothing is due, or the entry that is due is refused. -/
inductive Stops (X : Crates) :
    ReorderDecoder → Except DeltaError ReorderApplyResult → ReorderDecoder → Prop where
  | done {r : ReorderDecoder} {n : UInt64} {s : AgentState} {drained : Nat}
      (hdue : r.due = none) (hn : ∀ k, r.decoder.sequence = some k → n = k) :
      Stops X r (.ok (.applied n s drained)) r
  | rejected {r : ReorderDecoder} {localSeq : UInt64} {q : Packet} {e : DeltaError} {d : Decoder}
      (hdue : r.due = some (localSeq, q))
      (h : Decoder.applyPacket X r.decoder q = (.error e, d)) :
      Stops X r (.error e) (r.take (nextSequence localSeq) d)
  | unusable {r : ReorderDecoder} {localSeq m : UInt64} {l : Option UInt64} {q : Packet}
      {d : Decoder} (hdue : r.due = some (localSeq, q))
      (h : Decoder.applyPacket X r.decoder q = (.ok (.needSnapshot l m), d)) :
      Stops X r (.ok (.needRecovery l m)) (r.take (nextSequence localSeq) d)

/-- **The loop** is a run of turns that stops. -/
theorem drain_turns {X : Crates} {n : UInt64} {r r' : ReorderDecoder} {s : AgentState}
    {drained : Nat} {result : Except DeltaError ReorderApplyResult}
    (h : drain X n r s drained = (result, r')) :
    ∃ qs rm, Run (Turn X) r qs rm ∧ Stops X rm result r' := by
  fun_induction drain X n r s drained with
  | case1 r s drained hdue =>
    cases h
    refine ⟨[], _, .start, .done hdue ?_⟩
    intro k hk
    rw [hk]
    rfl
  | case2 r s drained localSeq q hdue e d hcall =>
    cases h
    exact ⟨[], r, .start, .rejected hdue hcall⟩
  | case3 r s drained localSeq q hdue m t d hcall ih =>
    obtain ⟨qs, rm, hrun, hstop⟩ := ih h
    exact ⟨q :: qs, rm, hrun.cons (.applied hdue hcall), hstop⟩
  | case4 r s drained localSeq q hdue m d hcall ih =>
    obtain ⟨qs, rm, hrun, hstop⟩ := ih h
    exact ⟨q :: qs, rm, hrun.cons (.duplicate hdue hcall), hstop⟩
  | case5 r s drained localSeq q hdue l m d hcall =>
    cases h
    exact ⟨[], r, .start, .unusable hdue hcall⟩

/-- A turn is a step of the loop. -/
theorem Turn.drain {X : Crates} {r r' : ReorderDecoder} {q : Packet} (h : Turn X r q r')
    (n : UInt64) (s : AgentState) (drained : Nat) :
    ∃ s' drained', drain X n r s drained = drain X n r' s' drained' := by
  rw [ReorderDecoder.drain]
  cases h with
  | applied hdue hcall =>
    split
    · simp_all
    · rename_i hdue'
      cases hdue.symm.trans hdue'
      rw [hcall]
      exact ⟨_, _, rfl⟩
  | duplicate hdue hcall =>
    split
    · simp_all
    · rename_i hdue'
      cases hdue.symm.trans hdue'
      rw [hcall]
      exact ⟨_, _, rfl⟩

/-- The entry that is due is refused with an error. -/
def DueRejected (X : Crates) (r : ReorderDecoder) : Prop :=
  ∃ localSeq q e, r.due = some (localSeq, q) ∧
    (Decoder.applyPacket X r.decoder q).1 = .error e

theorem DueRejected.drain {X : Crates} {r : ReorderDecoder} (h : DueRejected X r) (n : UInt64)
    (s : AgentState) (drained : Nat) : ∃ e r', drain X n r s drained = (.error e, r') := by
  obtain ⟨localSeq, q, e, hdue, he⟩ := h
  have hcall : Decoder.applyPacket X r.decoder q = (.error e, _) := Prod.ext he rfl
  rw [ReorderDecoder.drain]
  split
  · simp_all
  · rename_i hdue'
    cases hdue.symm.trans hdue'
    rw [hcall]
    exact ⟨_, _, rfl⟩

/-! ## What a call can do -/

/-- `Calls X r p result r'`: the ways in which a call on `p` takes `r` to `r'`. -/
inductive Calls (X : Crates) (r : ReorderDecoder) (p : Packet) :
    Except DeltaError ReorderApplyResult → ReorderDecoder → Prop where
  /-- a delta ahead of the sequence, within the window -/
  | buffered {localSeq : UInt64} (hahead : r.ahead p = some localSeq)
      (hgap : p.baseSequence - localSeq ≤ r.maxGap) (hkind : p.kind = .delta)
      (hroom : r.pending.length < r.maxPending.toNat) :
      Calls X r p (.ok (.buffered p.sequence)) (r.hold p hkind hroom)
  /-- too far ahead, or no room -/
  | refused {localSeq : UInt64} (hahead : r.ahead p = some localSeq)
      (hfull : r.maxGap < p.baseSequence - localSeq ∨ r.maxPending.toNat ≤ r.pending.length) :
      Calls X r p (.ok (.needRecovery (some localSeq) p.baseSequence)) r
  /-- the decoder does not apply it -/
  | rejected {e : DeltaError} {d : Decoder} (hahead : r.ahead p = none)
      (hcall : Decoder.applyPacket X r.decoder p = (.error e, d)) :
      Calls X r p (.error e) { r with decoder := d }
  | duplicate {n : UInt64} {d : Decoder} (hahead : r.ahead p = none)
      (hcall : Decoder.applyPacket X r.decoder p = (.ok (.duplicate n), d)) :
      Calls X r p (.ok (.duplicate n)) { r with decoder := d }
  | unusable {l : Option UInt64} {m : UInt64} {d : Decoder} (hahead : r.ahead p = none)
      (hcall : Decoder.applyPacket X r.decoder p = (.ok (.needSnapshot l m), d)) :
      Calls X r p (.ok (.needRecovery l m)) { r with decoder := d }
  /-- the decoder applies it, and the buffer is drained -/
  | applied {n : UInt64} {s : AgentState} {d : Decoder}
      {result : Except DeltaError ReorderApplyResult} {r' : ReorderDecoder}
      (hahead : r.ahead p = none)
      (hcall : Decoder.applyPacket X r.decoder p = (.ok (.applied n s), d))
      (hdrain : drain X n { r with decoder := d } s 0 = (result, r')) : Calls X r p result r'

/-- **Every call** is one of these. -/
theorem apply_cases {X : Crates} {r r' : ReorderDecoder} {p : Packet}
    {result : Except DeltaError ReorderApplyResult} (h : r.apply X p = (result, r')) :
    Calls X r p result r' := by
  unfold apply at h
  split at h
  · rename_i localSeq hahead
    split at h
    · rename_i hroom
      cases h
      exact .buffered hahead hroom.1 (ahead_eq_some hahead).1 hroom.2
    · rename_i hroom
      cases h
      refine .refused hahead ?_
      rcases not_and_or.mp hroom with hgap | hroom
      · exact .inl (UInt64.not_le.mp hgap)
      · exact .inr (Nat.not_lt.mp hroom)
  · rename_i hahead
    split at h
    · rename_i hcall
      cases h
      exact .rejected hahead hcall
    · rename_i hcall
      exact .applied hahead hcall h
    · rename_i hcall
      cases h
      exact .duplicate hahead hcall
    · rename_i hcall
      cases h
      exact .unusable hahead hcall

theorem apply_of_applied {X : Crates} {r : ReorderDecoder} {p : Packet} {n : UInt64}
    {s : AgentState} {d : Decoder} (hahead : r.ahead p = none)
    (hcall : Decoder.applyPacket X r.decoder p = (.ok (.applied n s), d)) :
    r.apply X p = drain X n { r with decoder := d } s 0 := by
  unfold apply
  split
  · simp_all
  · rw [hcall]

/-! ## What calls keep -/

theorem Turn.takes {X : Crates} {r r' : ReorderDecoder} {q : Packet} (h : Turn X r q r') :
    ∃ localSeq, r.due = some (localSeq, q) ∧
      r' = r.take (nextSequence localSeq) (Decoder.applyPacket X r.decoder q).2 := by
  cases h with
  | applied hdue hcall => exact ⟨_, hdue, by rw [hcall]⟩
  | duplicate hdue hcall => exact ⟨_, hdue, by rw [hcall]⟩

theorem Stops.takes {X : Crates} {r r' : ReorderDecoder}
    {result : Except DeltaError ReorderApplyResult} (h : Stops X r result r') :
    r' = r ∨ ∃ localSeq q, r.due = some (localSeq, q) ∧
      r' = r.take (nextSequence localSeq) (Decoder.applyPacket X r.decoder q).2 := by
  cases h with
  | done _ _ => exact .inl rfl
  | rejected hdue hcall => exact .inr ⟨_, _, hdue, by rw [hcall]⟩
  | unusable hdue hcall => exact .inr ⟨_, _, hdue, by rw [hcall]⟩

/-- **The rule for the loop**: what is kept when the entry that is due is taken out. -/
theorem drain_keeps {X : Crates} {I : ReorderDecoder → Prop}
    (hI : ∀ r k q, I r → r.due = some (k, q) →
      I (r.take (nextSequence k) (Decoder.applyPacket X r.decoder q).2))
    {r r' : ReorderDecoder} {n : UInt64} {s : AgentState} {drained : Nat}
    {result : Except DeltaError ReorderApplyResult} (hr : I r)
    (h : drain X n r s drained = (result, r')) : I r' := by
  obtain ⟨qs, rm, hrun, hstop⟩ := drain_turns h
  have hrm : I rm := by
    refine hrun.keeps ?_ hr
    intro b q c hb hturn
    obtain ⟨k, hdue, rfl⟩ := hturn.takes
    exact hI b k q hb hdue
  rcases hstop.takes with rfl | ⟨k, q, hdue, rfl⟩
  · exact hrm
  · exact hI rm k q hrm hdue

theorem apply_maxPending {X : Crates} {r r' : ReorderDecoder} {p : Packet}
    {result : Except DeltaError ReorderApplyResult} (h : r.apply X p = (result, r')) :
    r'.maxPending = r.maxPending := by
  cases apply_cases h with
  | buffered _ _ _ _ => rfl
  | refused _ _ => rfl
  | rejected _ _ => rfl
  | duplicate _ _ => rfl
  | unusable _ _ => rfl
  | applied _ _ hdrain =>
    refine drain_keeps (I := fun b => b.maxPending = r.maxPending) ?_ ?_ hdrain
    · exact fun _ _ _ hb _ => hb
    · rfl

/-- `I` of the decoder and `P` of every packet in the buffer. -/
def Holds (I : Decoder → Prop) (P : Packet → Prop) (r : ReorderDecoder) : Prop :=
  I r.decoder ∧ ∀ e ∈ r.pending, P e.2

section Keeps

variable {X : Crates} {I : Decoder → Prop} {P : Packet → Prop}

theorem Holds.drain {r r' : ReorderDecoder} {n : UInt64} {s : AgentState} {drained : Nat}
    {result : Except DeltaError ReorderApplyResult} (hr : r.Holds I P)
    (hkeep : ∀ d q, P q → I d → I (Decoder.applyPacket X d q).2)
    (h : drain X n r s drained = (result, r')) : r'.Holds I P := by
  refine drain_keeps ?_ hr h
  intro b k q hb hdue
  exact ⟨hkeep _ _ (hb.2 _ (get?_mem (due_eq_some hdue).2)) hb.1,
    fun e he => hb.2 e (mem_erase.mp he).1⟩

/-- **The rule for calls**: what the decoder keeps on every packet fed to it. -/
theorem Holds.apply {r r' : ReorderDecoder} {p : Packet}
    {result : Except DeltaError ReorderApplyResult} (hr : r.Holds I P) (hp : P p)
    (hkeep : ∀ d q, P q → I d → I (Decoder.applyPacket X d q).2)
    (h : r.apply X p = (result, r')) : r'.Holds I P := by
  have hfed : ∀ {d result}, Decoder.applyPacket X r.decoder p = (result, d) →
      ({ r with decoder := d } : ReorderDecoder).Holds I P := by
    intro d result hcall
    have hnext := hkeep r.decoder p hp hr.1
    rw [hcall] at hnext
    exact ⟨hnext, hr.2⟩
  cases apply_cases h with
  | buffered hahead hgap hkind hroom =>
    refine ⟨hr.1, fun e he => ?_⟩
    rcases mem_orInsert he with rfl | he
    · exact hp
    · exact hr.2 e he
  | refused hahead hfull => exact hr
  | rejected hahead hcall => exact hfed hcall
  | duplicate hahead hcall => exact hfed hcall
  | unusable hahead hcall => exact hfed hcall
  | applied hahead hcall hdrain => exact (hfed hcall).drain hkeep hdrain

/-- Draining never takes the sequence back. -/
theorem drain_grows {r r' : ReorderDecoder} {n m : UInt64} {s : AgentState} {drained : Nat}
    {result : Except DeltaError ReorderApplyResult} (hr : r.decoder.Valid)
    (hm : ∃ k, r.sequence = some k ∧ m ≤ k) (h : drain X n r s drained = (result, r')) :
    ∃ k, r'.sequence = some k ∧ m ≤ k := by
  have hholds : r.Holds (fun d => d.Valid ∧ ∃ k, d.sequence = some k ∧ m ≤ k) fun _ => True :=
    ⟨⟨hr, hm⟩, fun _ _ => trivial⟩
  refine (hholds.drain ?_ h).1.2
  rintro d q - ⟨hd, hk⟩
  exact ⟨TypedDecoder.apply_valid hd q, TypedDecoder.apply_grows hd q hk⟩

end Keeps

/-- One call, observed as the packet and the result. -/
def Delivers (X : Crates) (r : ReorderDecoder) (o : Packet × Except DeltaError ReorderApplyResult)
    (r' : ReorderDecoder) : Prop := r.apply X o.1 = (o.2, r')

/-- The calls with the given packets, each with its result, and the decoder after them. -/
def deliver (X : Crates) (r : ReorderDecoder) :
    List Packet → List (Packet × Except DeltaError ReorderApplyResult) × ReorderDecoder
  | [] => ([], r)
  | p :: ps =>
    let rest := deliver X (r.apply X p).2 ps
    ((p, (r.apply X p).1) :: rest.1, rest.2)

theorem deliver_run (X : Crates) : ∀ (ps : List Packet) (r : ReorderDecoder),
    Run (Delivers X) r (deliver X r ps).1 (deliver X r ps).2
  | [], _ => .start
  | p :: ps, r => Run.cons (show Delivers X r (p, (r.apply X p).1) (r.apply X p).2 from rfl)
    (deliver_run X ps _)

theorem deliver_mem {X : Crates} {o : Packet × Except DeltaError ReorderApplyResult} :
    ∀ {ps : List Packet} {r : ReorderDecoder}, o ∈ (deliver X r ps).1 → o.1 ∈ ps
  | [], _, h => absurd h List.not_mem_nil
  | p :: ps, r, h => by
    rcases List.mem_cons.mp h with rfl | h
    · exact List.mem_cons_self
    · exact List.mem_cons_of_mem _ (deliver_mem h)

theorem apply_valid {X : Crates} {r r' : ReorderDecoder} {p : Packet}
    {result : Except DeltaError ReorderApplyResult} (hr : r.decoder.Valid)
    (h : r.apply X p = (result, r')) : r'.decoder.Valid := by
  have hholds : r.Holds TypedDecoder.Valid fun _ => True := ⟨hr, fun _ _ => trivial⟩
  exact (hholds.apply trivial (fun d q _ hd => TypedDecoder.apply_valid hd q) h).1

/-- A reorder decoder that has been fed packets, cleared and reset. -/
inductive Reached (X : Crates) : ReorderDecoder → Prop where
  | new (maxGap : UInt64) (maxPending : Usize) : Reached X (new maxGap maxPending)
  | applied {r : ReorderDecoder} (h : Reached X r) (p : Packet) : Reached X (r.apply X p).2
  | cleared {r : ReorderDecoder} (h : Reached X r) : Reached X r.clearPending
  | reset {r : ReorderDecoder} (h : Reached X r) : Reached X r.reset

theorem Reached.valid {X : Crates} {r : ReorderDecoder} (h : Reached X r) : r.decoder.Valid := by
  induction h with
  | new maxGap maxPending => exact TypedDecoder.default_valid
  | applied _ p ih => exact apply_valid ih rfl
  | cleared _ ih => exact ih
  | reset _ _ => exact TypedDecoder.reset_valid _

end ReorderDecoder

end DeltaStream
