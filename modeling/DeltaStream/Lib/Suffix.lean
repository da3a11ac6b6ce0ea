import Mathlib.Data.List.Basic
import Mathlib.Data.List.Infix

/-!
# The longest suffix that fits

A queue that drops elements from the front until what is left fits.

* `trim_isLongest` — dropping from the front leaves the longest suffix that fits;
* `IsLongest.snoc` — appending an element and trimming again leaves the longest suffix of
  everything appended so far, when whatever fits still does after elements are taken out.
-/

set_option autoImplicit false

namespace Suffix

variable {α : Type} {fits : List α → Prop}

def trim (fits : List α → Prop) [DecidablePred fits] : List α → List α
  | [] => []
  | x :: xs => if fits (x :: xs) then x :: xs else trim fits xs

/-- `s` is the longest suffix of `l` that fits. -/
structure IsLongest (fits : List α → Prop) (l s : List α) : Prop where
  suffix : s <:+ l
  within : fits s
  longest : ∀ t, t <:+ l → fits t → t.length ≤ s.length

/-- Of two suffixes of one list the shorter is a suffix of the longer. -/
theorem IsLongest.contains {l s t : List α} (h : IsLongest fits l s) (ht : t <:+ l)
    (hfits : fits t) : t <:+ s :=
  List.suffix_of_suffix_length_le ht h.suffix (h.longest t ht hfits)

theorem trim_isLongest [DecidablePred fits] (hnil : fits []) : ∀ l : List α,
    IsLongest fits l (trim fits l)
  | [] => ⟨List.suffix_refl _, hnil, fun t ht _ => ht.length_le⟩
  | x :: xs => by
    unfold trim
    split
    · rename_i hfits
      exact ⟨List.suffix_refl _, hfits, fun t ht _ => ht.length_le⟩
    · rename_i hnot
      have ih := trim_isLongest hnil xs
      refine ⟨ih.suffix.trans (List.suffix_cons x xs), ih.within, fun t ht hfits => ?_⟩
      rcases List.suffix_cons_iff.mp ht with rfl | ht
      · exact absurd hfits hnot
      · exact ih.longest t ht hfits

/-- **Trimming after every append** finds the longest suffix of the whole history. -/
theorem IsLongest.snoc (hsub : ∀ s t, s.Sublist t → fits t → fits s) {l s s' : List α} {x : α}
    (h : IsLongest fits l s) (h' : IsLongest fits (s ++ [x]) s') :
    IsLongest fits (l ++ [x]) s' := by
  have hinner : s ++ [x] <:+ l ++ [x] := by
    obtain ⟨before, hbefore⟩ := h.suffix
    exact ⟨before, by rw [← List.append_assoc, hbefore]⟩
  refine ⟨h'.suffix.trans hinner, h'.within, fun t ht hfits => ?_⟩
  rcases List.eq_nil_or_concat t with rfl | ⟨u, y, rfl⟩
  · exact Nat.zero_le _
  rw [List.concat_eq_append] at ht hfits ⊢
  -- without its last element `t` is a suffix that fitted before the append
  obtain ⟨before, hbefore⟩ := ht
  rw [← List.append_assoc] at hbefore
  obtain ⟨hu, hy⟩ := List.append_inj' hbefore rfl
  have hufits : fits u := hsub u _ (List.sublist_append_left u [y]) hfits
  obtain ⟨more, hmore⟩ := h.contains ⟨before, hu⟩ hufits
  refine h'.longest _ ⟨more, ?_⟩ hfits
  rw [← hy, ← List.append_assoc, hmore]

end Suffix
