/-!
# Writing patches into a list

`overlay out start src` replaces the elements of `out` from position `start` on by `src`, as
`out[start..start + src.len()].copy_from_slice(src)` does.  A *patch* is a start together with
the elements to write there.

* `foldl_overlay_eq` — patches that all quote the target, written in any order into a base of
  the target's length, produce the target as soon as they cover every position where base and
  target differ;
* `slice` — the elements of a half-open index range, and how neighbouring slices join.
-/

set_option autoImplicit false

namespace Overlay

variable {α : Type}

/-- Elements `start, …, stop - 1`. -/
def slice (xs : List α) (start stop : Nat) : List α := (xs.drop start).take (stop - start)

/-- Write `src` into `out` from position `start` on. -/
def overlay (out : List α) (start : Nat) (src : List α) : List α :=
  out.take start ++ (src ++ out.drop (start + src.length))

@[simp] theorem slice_length (xs : List α) (start stop : Nat) :
    (slice xs start stop).length = min stop xs.length - start := by
  simp only [slice, List.length_take, List.length_drop]
  omega

theorem slice_length_of_le {xs : List α} {start stop : Nat} (h : stop ≤ xs.length) :
    (slice xs start stop).length = stop - start := by
  rw [slice_length]
  omega

theorem slice_getElem? (xs : List α) (start stop i : Nat) (hi : start + i < stop) :
    (slice xs start stop)[i]? = xs[start + i]? := by
  rw [slice, List.getElem?_take_of_lt (by omega), List.getElem?_drop]

/-- A list is its start, a middle slice and its rest. -/
theorem take_slice_drop (xs : List α) {start stop : Nat} (h : start ≤ stop) :
    xs.take start ++ (slice xs start stop ++ xs.drop stop) = xs := by
  have hd : xs.drop stop = (xs.drop start).drop (stop - start) := by
    rw [List.drop_drop, Nat.add_sub_cancel' h]
  rw [slice, hd, List.take_append_drop, List.take_append_drop]

theorem overlay_length {out src : List α} {start : Nat}
    (h : start + src.length ≤ out.length) : (overlay out start src).length = out.length := by
  simp only [overlay, List.length_append, List.length_take, List.length_drop]
  omega

theorem overlay_getElem? {out src : List α} {start : Nat} (h : start + src.length ≤ out.length)
    (i : Nat) :
    (overlay out start src)[i]? =
      if start ≤ i ∧ i < start + src.length then src[i - start]? else out[i]? := by
  have htake : (out.take start).length = start := by
    rw [List.length_take]
    omega
  unfold overlay
  by_cases h1 : i < start
  · rw [List.getElem?_append_left (by omega), List.getElem?_take_of_lt h1, if_neg (by omega)]
  · rw [List.getElem?_append_right (by omega), htake]
    by_cases h2 : i < start + src.length
    · rw [List.getElem?_append_left (by omega), if_pos (by omega)]
    · rw [List.getElem?_append_right (by omega), List.getElem?_drop, if_neg (by omega)]
      congr 1
      omega

theorem set_eq_overlay {out : List α} {i : Nat} (h : i < out.length) (a : α) :
    out.set i a = overlay out i [a] := by
  rw [List.set_eq_take_append_cons_drop, if_pos h]
  rfl

/-! ## Patches that quote a target -/

/-- The patch lies inside the target and writes what the target has there. -/
def Quotes (target : List α) (p : Nat × List α) : Prop :=
  p.1 + p.2.length ≤ target.length ∧ ∀ i, p.1 ≤ i → i < p.1 + p.2.length →
    p.2[i - p.1]? = target[i]?

/-- The patch writes position `i`. -/
def Covers (p : Nat × List α) (i : Nat) : Prop := p.1 ≤ i ∧ i < p.1 + p.2.length

theorem quotes_slice {target : List α} {start stop : Nat} (h : start ≤ stop)
    (hs : stop ≤ target.length) : Quotes target (start, slice target start stop) := by
  refine ⟨?_, fun i h1 h2 => ?_⟩
  · simp only [slice_length]
    omega
  · simp only [slice_length] at h1 h2 ⊢
    rw [slice_getElem? _ _ _ _ (by omega)]
    congr 1
    omega

/-- All patches of a list, written one after the other. -/
def overlayAll (base : List α) (patches : List (Nat × List α)) : List α :=
  patches.foldl (fun out p => overlay out p.1 p.2) base

/-- After the patches, a position holds the target's element if some patch covers it or the
    base had it already. -/
theorem overlayAll_getElem? {target : List α} :
    ∀ (patches : List (Nat × List α)) (base : List α),
      (∀ p ∈ patches, Quotes target p) → base.length = target.length →
      ∀ i, (base[i]? = target[i]? ∨ ∃ p ∈ patches, Covers p i) →
        (overlayAll base patches)[i]? = target[i]?
  | [], _, _, _, i, h => by
    rcases h with h | ⟨p, hm, _⟩
    · exact h
    · cases hm
  | p :: ps, base, hq, hlen, i, h => by
    have hp := hq p List.mem_cons_self
    have hin : p.1 + p.2.length ≤ base.length := by rw [hlen]; exact hp.1
    refine overlayAll_getElem? ps _ (fun q hm => hq q (List.mem_cons_of_mem _ hm))
      (by rw [overlay_length hin, hlen]) i ?_
    rw [overlay_getElem? hin]
    split
    · rename_i hc
      exact .inl (hp.2 i hc.1 hc.2)
    · rename_i hc
      rcases h with h | ⟨q, hm, hcov⟩
      · exact .inl h
      · rcases List.mem_cons.mp hm with rfl | hm
        · exact absurd hcov hc
        · exact .inr ⟨q, hm, hcov⟩

/-- **Quoting patches that cover every difference rebuild the target.** -/
theorem foldl_overlay_eq {target base : List α} {patches : List (Nat × List α)}
    (hq : ∀ p ∈ patches, Quotes target p) (hlen : base.length = target.length)
    (hcov : ∀ i, base[i]? ≠ target[i]? → ∃ p ∈ patches, Covers p i) :
    overlayAll base patches = target := by
  apply List.ext_getElem?
  intro i
  refine overlayAll_getElem? patches base hq hlen i ?_
  by_cases h : base[i]? = target[i]?
  · exact .inl h
  · exact .inr (hcov i h)

end Overlay
