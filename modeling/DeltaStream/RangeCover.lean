import DeltaStream.Lib.GapCover
import DeltaStream.SmartDeltaExact

/-!
# The ranges of a range delta

`encode_ranges` looks for changed regions with two nested loops over one index, which the end of a
range moves back to just behind its last change.

* `RangeLoop.step`, `RangeLoop.computes_ranges` — the loops step by step, and that they end with
  `changedRanges`;
* `changedRanges_isCover` — these are the gap-bridged cover of the changed bytes;
* `writtenRanges_encodeRanges` — and what the payload says;
* `ranges_canonical` — all of it about one list.
-/

set_option autoImplicit false

namespace DeltaStream

open ByteReader GapCover

/-- The two states differ at this index. -/
def Changed (previous current : Bytes) (i : Nat) : Prop := previous[i]? ≠ current[i]?

/-! ## The loops -/

/-- Variables of the loops: the index, start and last change of the range the inner loop is in,
    and the ranges pushed so far. -/
structure RangeLoop where
  i : Nat
  underWay : Option (Nat × Nat)
  ranges : List (Nat × Nat)
  deriving DecidableEq

namespace RangeLoop

def init : RangeLoop := ⟨0, none, []⟩

/-- `ranges.push((start, last_changed + 1)); i = last_changed + 1`. -/
def close (s : RangeLoop) (start lastChanged : Nat) : RangeLoop :=
  ⟨lastChanged + 1, none, s.ranges ++ [(start, lastChanged + 1)]⟩

/-- One turn of the loop that runs; `none` behind the outer loop. -/
def step (previous current : Bytes) (maxGap : Nat) (s : RangeLoop) : Option RangeLoop :=
  match s.underWay with
  | none =>
    if s.i < current.length then
      if previous[s.i]? = current[s.i]? then some { s with i := s.i + 1 }
      else some { s with i := s.i + 1, underWay := some (s.i, s.i) }
    else none
  | some (start, lastChanged) =>
    if s.i < current.length then
      if previous[s.i]? ≠ current[s.i]? then
        some { s with i := s.i + 1, underWay := some (start, s.i) }
      else if maxGap < s.i - lastChanged then some (s.close start lastChanged)
      else some { s with i := s.i + 1 }
    else some (s.close start lastChanged)

/-- Up to `fuel` turns; `none` if the loops are still running then. -/
def run (previous current : Bytes) (maxGap : Nat) : Nat → RangeLoop → Option RangeLoop
  | 0, _ => none
  | fuel + 1, s =>
    match s.step previous current maxGap with
    | none => some s
    | some next => run previous current maxGap fuel next

/-- The loops end, with these ranges. -/
def Computes (previous current : Bytes) (maxGap : Nat) (s : RangeLoop)
    (ranges : List (Nat × Nat)) : Prop :=
  ∃ fuel final, run previous current maxGap fuel s = some final ∧ final.ranges = ranges

variable {previous current : Bytes} {maxGap : Nat} {s t : RangeLoop}
  {ranges : List (Nat × Nat)}

theorem Computes.stop (h : s.step previous current maxGap = none) :
    Computes previous current maxGap s s.ranges :=
  ⟨1, s, by simp [run, h], rfl⟩

theorem Computes.turn (h : s.step previous current maxGap = some t)
    (hn : Computes previous current maxGap t ranges) :
    Computes previous current maxGap s ranges := by
  obtain ⟨fuel, final, hrun, hranges⟩ := hn
  exact ⟨fuel + 1, final, by simp [run, h, hrun], hranges⟩

/-- The inner loop leaves with the last change that `rangeScan` finds. -/
theorem computes_inner {start i lastChanged : Nat} {pushed : List (Nat × Nat)}
    (h : Computes previous current maxGap
      ⟨rangeScan previous current maxGap i lastChanged + 1, none,
        pushed ++ [(start, rangeScan previous current maxGap i lastChanged + 1)]⟩ ranges) :
    Computes previous current maxGap ⟨i, some (start, lastChanged), pushed⟩ ranges := by
  fun_induction rangeScan previous current maxGap i lastChanged with
  | case1 i lastChanged hlt hne ih =>
    exact .turn (by simp only [step, if_pos hlt, if_pos hne]) (ih h)
  | case2 i lastChanged hlt heq hgap =>
    exact .turn (by simp only [step, if_pos hlt, if_neg heq, if_pos hgap, close]) h
  | case3 i lastChanged hlt heq hgap ih =>
    exact .turn (by simp only [step, if_pos hlt, if_neg heq, if_neg hgap]) (ih h)
  | case4 i lastChanged hge => exact .turn (by simp only [step, if_neg hge, close]) h

/-- **Termination**: from any index on the loops end, having pushed `changedRanges`. -/
theorem computes_outer (i : Nat) (pushed : List (Nat × Nat)) :
    Computes previous current maxGap ⟨i, none, pushed⟩
      (pushed ++ changedRanges previous current maxGap i) := by
  fun_induction changedRanges previous current maxGap i generalizing pushed with
  | case1 i hlt heq ih => exact .turn (by simp only [step, if_pos hlt, if_pos heq]) (ih pushed)
  | case2 i hlt hne ih =>
    have hrest := ih (pushed ++ [(i, rangeScan previous current maxGap (i + 1) i + 1)])
    rw [List.append_assoc, List.singleton_append] at hrest
    exact .turn (by simp only [step, if_pos hlt, if_neg hne]) (computes_inner hrest)
  | case3 i hge =>
    rw [List.append_nil]
    exact .stop (by simp only [step, if_neg hge])

end RangeLoop

/-! ## The cover -/

/-- The inner loop at `i`: it is behind the last change and has not passed more than `maxGap`
    unchanged bytes since. -/
structure InRange (previous current : Bytes) (maxGap i lastChanged : Nat) : Prop where
  changed : Changed previous current lastChanged
  behind : lastChanged < i
  near : i ≤ lastChanged + maxGap + 1
  unchanged : ∀ j, lastChanged < j → j < i → ¬Changed previous current j

theorem not_changed_of_ge {previous current : Bytes} (hlen : previous.length = current.length)
    {i : Nat} (h : ¬i < current.length) : ¬Changed previous current i := by
  unfold Changed
  rw [List.getElem?_eq_none (by omega), List.getElem?_eq_none (by omega)]
  exact not_not_intro rfl

/-- The last change found ends the range: more than `maxGap` unchanged bytes, or the end of the
    state, are behind it. -/
theorem InRange.rangeScan_stop {previous current : Bytes} {maxGap i lastChanged : Nat}
    (hlen : previous.length = current.length) (h : InRange previous current maxGap i lastChanged) :
    let last := rangeScan previous current maxGap i lastChanged
    Changed previous current last ∧
      ∀ j, last < j → j ≤ last + 1 + maxGap → ¬Changed previous current j := by
  fun_induction rangeScan previous current maxGap i lastChanged with
  | case1 i lastChanged hlt hne ih =>
    exact ih ⟨hne, Nat.lt_succ_self i, by omega, fun j h1 h2 => by omega⟩
  | case2 i lastChanged hlt heq hgap =>
    refine ⟨h.changed, fun j h1 h2 => ?_⟩
    rcases Nat.lt_or_ge j i with hj | hj
    · exact h.unchanged j h1 hj
    · have hji : j = i := by
        have hnear := h.near
        omega
      exact hji ▸ heq
  | case3 i lastChanged hlt heq hgap ih =>
    refine ih ⟨h.changed, Nat.lt_succ_of_lt h.behind, by omega, fun j h1 h2 => ?_⟩
    rcases Nat.lt_or_ge j i with hj | hj
    · exact h.unchanged j h1 hj
    · have hji : j = i := by omega
      exact hji ▸ heq
  | case4 i lastChanged hge =>
    refine ⟨h.changed, fun j h1 h2 => ?_⟩
    rcases Nat.lt_or_ge j i with hj | hj
    · exact h.unchanged j h1 hj
    · exact not_changed_of_ge hlen (by omega)

/-- No more than `maxGap` unchanged bytes in a row are between the last change before the scan and
    the one it finds. -/
theorem InRange.rangeScan_bridged {previous current : Bytes} {maxGap i lastChanged : Nat}
    (h : InRange previous current maxGap i lastChanged) {k : Nat} (hk : lastChanged ≤ k)
    (hend : k + maxGap ≤ rangeScan previous current maxGap i lastChanged) :
    ∃ j, k ≤ j ∧ j ≤ k + maxGap ∧ Changed previous current j := by
  fun_induction rangeScan previous current maxGap i lastChanged with
  | case1 i lastChanged hlt hne ih =>
    have hnear := h.near
    rcases Nat.eq_or_lt_of_le hk with rfl | hk
    · exact ⟨lastChanged, Nat.le_refl _, Nat.le_add_right _ _, h.changed⟩
    rcases Nat.lt_or_ge i k with hik | hik
    · exact ih ⟨hne, Nat.lt_succ_self i, by omega, fun j h1 h2 => by omega⟩ (by omega) hend
    · exact ⟨i, hik, by omega, hne⟩
  | case2 i lastChanged hlt heq hgap =>
    have hkl : k = lastChanged := by omega
    exact ⟨lastChanged, by omega, by omega, h.changed⟩
  | case3 i lastChanged hlt heq hgap ih =>
    refine ih ⟨h.changed, Nat.lt_succ_of_lt h.behind, by omega, fun j h1 h2 => ?_⟩ hk hend
    rcases Nat.lt_or_ge j i with hj | hj
    · exact h.unchanged j h1 hj
    · have hji : j = i := by omega
      exact hji ▸ heq
  | case4 i lastChanged hge =>
    have hkl : k = lastChanged := by omega
    exact ⟨lastChanged, by omega, by omega, h.changed⟩

/-- **The ranges found are the gap-bridged cover of the changed bytes.** -/
theorem changedRanges_isCover {previous current : Bytes} (maxGap i : Nat)
    (hlen : previous.length = current.length) :
    IsCover (Changed previous current) maxGap i (changedRanges previous current maxGap i) := by
  fun_induction changedRanges previous current maxGap i with
  | case1 i hlt heq ih => exact .skip (not_not_intro heq) ih
  | case2 i hlt hne ih =>
    have hin : InRange previous current maxGap (i + 1) i :=
      ⟨hne, Nat.lt_succ_self i, by omega, fun j h1 h2 => by omega⟩
    have hbounds := rangeScan_bounds previous current maxGap (i + 1) i (Nat.lt_succ_self i) hlt
    obtain ⟨hend, hafter⟩ := hin.rangeScan_stop hlen
    refine .cons (by omega) hne hend ?_ ?_ ih
    · intro k hk hle
      exact hin.rangeScan_bridged hk (Nat.le_of_lt_succ hle)
    · intro j h1 h2
      exact hafter j h1 h2
  | case3 i hge => exact .nil fun j hj => not_changed_of_ge hlen (by omega)

/-! ## What the payload says -/

/-- The ranges of a range delta with `remaining` of them to go, their bytes passed over. -/
def readRanges : (remaining previousEnd : Nat) → ByteReader DeltaError (List (Nat × Nat))
  | 0, _ => pure []
  | remaining + 1, previousEnd => do
    let gap ← readVarU64
    let len ← readVarU64
    let _ ← take USIZE_MAX len (.invalidPacket "range payload overflow")
      (.invalidPacket "truncated range bytes")
    let rest ← readRanges remaining (previousEnd + gap + len)
    pure ((previousEnd + gap, previousEnd + gap + len) :: rest)

/-- The ranges written in a range delta, as the loop of `apply_ranges` finds them. -/
def writtenRanges (payload : Bytes) : Except DeltaError (List (Nat × Nat)) :=
  ByteReader.run (do
    let _tag ← byte (.invalidPacket "empty smart delta")
    let _len ← readVarU64
    let count ← readVarU64
    readRanges count 0) payload

theorem readRanges_reads {current : Bytes} (hmax : current.length < 2 ^ 64) :
    ∀ (ranges : List (Nat × Nat)) (previousEnd : Nat),
      ranges.Pairwise (fun r q => r.2 ≤ q.1) →
      (∀ r ∈ ranges, previousEnd ≤ r.1 ∧ r.1 < r.2 ∧ r.2 ≤ current.length) →
      Reads (readRanges ranges.length previousEnd) (putRanges current previousEnd ranges)
        ranges := by
  intro ranges
  induction ranges with
  | nil => intro previousEnd _ _; exact Reads.pure []
  | cons r rest ih =>
    obtain ⟨start, stop⟩ := r
    intro previousEnd hsorted hin
    obtain ⟨hhead, htail⟩ := List.pairwise_cons.mp hsorted
    obtain ⟨hge, hlt, hle⟩ := hin (start, stop) List.mem_cons_self
    simp only at hge hlt hle
    have hstart : previousEnd + (start - previousEnd) = start := by omega
    have hstop : start + (stop - start) = stop := by omega
    have hrest := ih stop htail
      (fun q hq => ⟨hhead q hq, (hin q (List.mem_cons_of_mem _ hq)).2⟩)
    refine (readVarU64_reads (by omega)).bind ((readVarU64_reads (by omega)).bind ?_)
    rw [hstart, hstop]
    exact (Reads.take _ (Overlay.slice_length_of_le hle)).bind
      (hrest.map fun rest => (start, stop) :: rest)

theorem writtenRanges_encodeRanges {previous current : Bytes} (maxGap : Nat)
    (hmax : current.length < 2 ^ 64) :
    writtenRanges (encodeRanges previous current maxGap) =
      .ok (changedRanges previous current maxGap 0) := by
  have hcount := changedRanges_length_le previous current maxGap 0
  have hread := readRanges_reads hmax (changedRanges previous current maxGap 0) 0
    (changedRanges_sorted previous current maxGap 0)
    (fun r hr => ⟨Nat.zero_le _, (changedRanges_mem hr).2⟩)
  unfold writtenRanges
  refine ReadsAll.run (Reads.all ?_)
  exact (Reads.byte TAG_RANGES _).bind
    ((readVarU64_reads hmax).bind ((readVarU64_reads (by omega)).bind hread))

/-- **The canonical cover.**  For states of equal length and every gap the loops of `encode_ranges`
    end, the ranges they push are the ones the payload has, and these are the gap-bridged cover of
    the changed bytes, of which there is only one. -/
theorem ranges_canonical (previous current : Slice) (maxGap : Usize)
    (hlen : previous.bytes.length = current.bytes.length) :
    ∃ ranges,
      RangeLoop.Computes previous.bytes current.bytes maxGap.toNat .init ranges ∧
        writtenRanges (encodeRanges previous.bytes current.bytes maxGap.toNat) = .ok ranges ∧
        IsCover (Changed previous.bytes current.bytes) maxGap.toNat 0 ranges ∧
        ∀ other, IsCover (Changed previous.bytes current.bytes) maxGap.toNat 0 other →
          other = ranges := by
  have hcover := changedRanges_isCover maxGap.toNat 0 hlen
  have hloop := @RangeLoop.computes_outer previous.bytes current.bytes maxGap.toNat 0 []
  exact ⟨_, hloop, writtenRanges_encodeRanges maxGap.toNat current.length_lt, hcover,
    fun other ho => ho.unique hcover⟩

/-- One unchanged byte is bridged, three are not. -/
theorem ranges_canonical_bridges :
    IsCover (Changed (List.replicate 7 0) [1, 0, 1, 0, 0, 0, 1]) 1 0 [(0, 3), (6, 7)] := by
  obtain ⟨ranges, -, hwritten, hcover, -⟩ := ranges_canonical ⟨List.replicate 7 0, by decide⟩
    ⟨[1, 0, 1, 0, 0, 0, 1], by decide⟩ 1 rfl
  have hranges : writtenRanges (encodeRanges (List.replicate 7 0) [1, 0, 1, 0, 0, 0, 1] 1) =
      .ok [(0, 3), (6, 7)] := by decide +kernel
  cases hwritten.symm.trans hranges
  exact hcover

end DeltaStream
