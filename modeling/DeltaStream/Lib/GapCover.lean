import Mathlib.Data.List.Chain

/-!
# Gap-bridged covers

Some positions are marked.  A cover of the marked positions from `lo` on is a list of half-open
ranges that start and end at marked positions; ranges are as long as the marked positions in them
are close together: no more than `gap` unmarked positions in a row lie inside a range, and more
than that lie between two ranges.

* `IsCover.skip`, `IsCover.cons` — the two ways in which a scan from left to right finds a cover;
* `IsCover.unique` — there is only one.
-/

set_option autoImplicit false

namespace GapCover

structure IsCover (marked : Nat → Prop) (gap lo : Nat) (ranges : List (Nat × Nat)) : Prop where
  within : ∀ r ∈ ranges, lo ≤ r.1 ∧ r.1 < r.2
  ordered : ranges.Pairwise fun r q => r.2 ≤ q.1
  starts : ∀ r ∈ ranges, marked r.1
  ends : ∀ r ∈ ranges, marked (r.2 - 1)
  covers : ∀ i, lo ≤ i → marked i → ∃ r ∈ ranges, r.1 ≤ i ∧ i < r.2
  separated : ranges.IsChain fun r q => gap < q.1 - r.2 ∧ ∀ i, r.2 ≤ i → i < q.1 → ¬marked i
  bridged : ∀ r ∈ ranges, ∀ i, r.1 ≤ i → i + gap < r.2 → ∃ j, i ≤ j ∧ j ≤ i + gap ∧ marked j

variable {marked : Nat → Prop} {gap lo start stop : Nat} {r : Nat × Nat}
  {ranges rest : List (Nat × Nat)}

theorem IsCover.nil (h : ∀ i, lo ≤ i → ¬marked i) : IsCover marked gap lo [] where
  within := by simp
  ordered := List.Pairwise.nil
  starts := by simp
  ends := by simp
  covers i hi hm := absurd hm (h i hi)
  separated := .nil
  bridged := by simp

/-- An unmarked first position is in no range. -/
theorem IsCover.skip (h : ¬marked lo) (hc : IsCover marked gap (lo + 1) ranges) :
    IsCover marked gap lo ranges where
  within r hr := ⟨Nat.le_of_succ_le (hc.within r hr).1, (hc.within r hr).2⟩
  ordered := hc.ordered
  starts := hc.starts
  ends := hc.ends
  covers i hi hm := by
    have hne : lo ≠ i := fun heq => h (heq ▸ hm)
    exact hc.covers i (by omega) hm
  separated := hc.separated
  bridged := hc.bridged

/-- Between the end of a range and the first range of a cover from there on nothing is marked. -/
theorem IsCover.unmarked_before (h : IsCover marked gap lo (r :: rest)) {i : Nat} (hlo : lo ≤ i)
    (hi : i < r.1) : ¬marked i := by
  intro hm
  obtain ⟨q, hq, hle, hlt⟩ := h.covers i hlo hm
  rcases List.mem_cons.mp hq with rfl | hq
  · omega
  · have hord := (List.pairwise_cons.mp h.ordered).1 q hq
    have hr := h.within r List.mem_cons_self
    omega

/-- A marked first position opens a range, which goes on to a marked position with more than `gap`
    unmarked ones behind it. -/
theorem IsCover.cons (hlt : start < stop) (hstart : marked start) (hend : marked (stop - 1))
    (hbridged : ∀ i, start ≤ i → i + gap < stop → ∃ j, i ≤ j ∧ j ≤ i + gap ∧ marked j)
    (hafter : ∀ i, stop ≤ i → i ≤ stop + gap → ¬marked i)
    (hc : IsCover marked gap stop rest) : IsCover marked gap start ((start, stop) :: rest) where
  within := by
    intro q hq
    rcases List.mem_cons.mp hq with rfl | hq
    · exact ⟨Nat.le_refl _, hlt⟩
    · have hw := hc.within q hq
      omega
  ordered := List.pairwise_cons.mpr ⟨fun q hq => (hc.within q hq).1, hc.ordered⟩
  starts := by
    intro q hq
    rcases List.mem_cons.mp hq with rfl | hq
    · exact hstart
    · exact hc.starts q hq
  ends := by
    intro q hq
    rcases List.mem_cons.mp hq with rfl | hq
    · exact hend
    · exact hc.ends q hq
  covers := by
    intro i hi hm
    by_cases hin : i < stop
    · exact ⟨_, List.mem_cons_self, hi, hin⟩
    · obtain ⟨q, hq, hcov⟩ := hc.covers i (Nat.le_of_not_lt hin) hm
      exact ⟨q, List.mem_cons_of_mem _ hq, hcov⟩
  separated := by
    cases rest with
    | nil => exact List.isChain_singleton _
    | cons q rest =>
      refine List.isChain_cons_cons.mpr ⟨⟨?_, ?_⟩, hc.separated⟩
      · -- the next range starts at a marked position, which is not among the unmarked ones
        have hge := (hc.within q List.mem_cons_self).1
        have hfar : ¬q.1 ≤ stop + gap := fun hle =>
          hafter q.1 hge hle (hc.starts q List.mem_cons_self)
        simp only
        omega
      · intro i hi hlt
        exact hc.unmarked_before hi hlt
  bridged := by
    intro q hq
    rcases List.mem_cons.mp hq with rfl | hq
    · exact hbridged
    · exact hc.bridged q hq

/-! ## Only one cover -/

theorem IsCover.tail (h : IsCover marked gap lo (r :: rest)) : IsCover marked gap r.2 rest where
  within q hq := ⟨(List.pairwise_cons.mp h.ordered).1 q hq,
    (h.within q (List.mem_cons_of_mem _ hq)).2⟩
  ordered := (List.pairwise_cons.mp h.ordered).2
  starts q hq := h.starts q (List.mem_cons_of_mem _ hq)
  ends q hq := h.ends q (List.mem_cons_of_mem _ hq)
  covers := by
    intro i hi hm
    have hr := h.within r List.mem_cons_self
    obtain ⟨q, hq, hle, hlt⟩ := h.covers i (by omega) hm
    rcases List.mem_cons.mp hq with rfl | hq
    · omega
    · exact ⟨q, hq, hle, hlt⟩
  separated := h.separated.tail
  bridged q hq := h.bridged q (List.mem_cons_of_mem _ hq)

/-- Behind a range there are more than `gap` unmarked positions. -/
theorem IsCover.unmarked_after (h : IsCover marked gap lo (r :: rest)) {i : Nat} (hi : r.2 ≤ i)
    (hle : i ≤ r.2 + gap) : ¬marked i := by
  cases rest with
  | nil =>
    intro hm
    obtain ⟨q, hq, -⟩ := h.tail.covers i hi hm
    cases hq
  | cons q rest =>
    have hsep := (List.isChain_cons_cons.mp h.separated).1
    exact hsep.2 i hi (by omega)

/-- A range of one cover does not end behind that of another that starts with it. -/
theorem IsCover.stop_le {other : List (Nat × Nat)} {q : Nat × Nat}
    (h : IsCover marked gap lo (r :: rest)) (hq : IsCover marked gap lo (q :: other))
    (hstart : r.1 = q.1) : r.2 ≤ q.2 := by
  by_contra hlt
  have hr := h.within r List.mem_cons_self
  have hqw := hq.within q List.mem_cons_self
  have hend := h.ends r List.mem_cons_self
  -- the last position of the longer range is marked, so it is not in the gap behind the shorter
  have hfar : ¬r.2 - 1 ≤ q.2 + gap := fun hle => hq.unmarked_after (by omega) hle hend
  obtain ⟨j, hge, hle, hm⟩ := h.bridged r List.mem_cons_self q.2 (by omega) (by omega)
  exact hq.unmarked_after hge hle hm

theorem IsCover.start_le {other : List (Nat × Nat)} {q : Nat × Nat}
    (h : IsCover marked gap lo (r :: rest)) (hq : IsCover marked gap lo (q :: other)) :
    r.1 ≤ q.1 := by
  by_contra hlt
  exact h.unmarked_before (hq.within q List.mem_cons_self).1 (by omega)
    (hq.starts q List.mem_cons_self)

/-- **The cover is canonical**: marked positions and gap determine it. -/
theorem IsCover.unique {other : List (Nat × Nat)} (h : IsCover marked gap lo ranges)
    (ho : IsCover marked gap lo other) : ranges = other := by
  induction ranges generalizing lo other with
  | nil =>
    cases other with
    | nil => rfl
    | cons q other =>
      obtain ⟨r, hr, -⟩ := h.covers q.1 (ho.within q List.mem_cons_self).1
        (ho.starts q List.mem_cons_self)
      cases hr
  | cons r ranges ih =>
    cases other with
    | nil =>
      obtain ⟨q, hq, -⟩ := ho.covers r.1 (h.within r List.mem_cons_self).1
        (h.starts r List.mem_cons_self)
      cases hq
    | cons q other =>
      have hstart : r.1 = q.1 := Nat.le_antisymm (h.start_le ho) (ho.start_le h)
      have hstop : r.2 = q.2 :=
        Nat.le_antisymm (h.stop_le ho hstart) (ho.stop_le h hstart.symm)
      have htail := ho.tail
      rw [← hstop] at htail
      rw [ih h.tail htail, Prod.ext hstart hstop]

end GapCover
