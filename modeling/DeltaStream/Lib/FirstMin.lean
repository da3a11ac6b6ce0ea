import Mathlib.Order.Lattice

/-!
# The first cheapest element of a list

`pick cost best xs` is the running-minimum loop: an element replaces the best one so far when
it is strictly cheaper.  `IsFirstMin cost xs x` says what the loop computes without running
it: `x` occurs in `xs`, everything before it is strictly more expensive and nothing behind it
is cheaper.

* `pick_isFirstMin`, `IsFirstMin.unique` — the loop finds the first cheapest element, and
  there is only one.
-/

set_option autoImplicit false

namespace FirstMin

variable {α κ : Type} [LinearOrder κ]

def pick (cost : α → κ) (best : α) : List α → α
  | [] => best
  | x :: xs => if cost x < cost best then pick cost x xs else pick cost best xs

/-- `x` is the first cheapest element of `xs`. -/
def IsFirstMin (cost : α → κ) (xs : List α) (x : α) : Prop :=
  ∃ before after, xs = before ++ x :: after ∧ (∀ y ∈ before, cost x < cost y) ∧
    ∀ y ∈ after, cost x ≤ cost y

theorem pick_append (cost : α → κ) : ∀ (best : α) (xs ys : List α),
    pick cost best (xs ++ ys) = pick cost (pick cost best xs) ys
  | _, [], _ => rfl
  | best, x :: xs, ys => by
    simp only [List.cons_append, pick]
    split
    · exact pick_append cost x xs ys
    · exact pick_append cost best xs ys

theorem pick_le_best (cost : α → κ) : ∀ (best : α) (xs : List α),
    cost (pick cost best xs) ≤ cost best
  | _, [] => le_refl _
  | best, x :: xs => by
    simp only [pick]
    split
    · rename_i h
      exact le_trans (pick_le_best cost x xs) (le_of_lt h)
    · exact pick_le_best cost best xs

theorem pick_isFirstMin (cost : α → κ) : ∀ (best : α) (xs : List α),
    IsFirstMin cost (best :: xs) (pick cost best xs)
  | best, [] => ⟨[], [], rfl, (fun _ h => absurd h List.not_mem_nil),
    (fun _ h => absurd h List.not_mem_nil)⟩
  | best, x :: xs => by
    simp only [pick]
    split
    · rename_i hlt
      obtain ⟨before, after, heq, hbefore, hafter⟩ := pick_isFirstMin cost x xs
      refine ⟨best :: before, after, by rw [List.cons_append, heq], ?_, hafter⟩
      intro y hy
      rcases List.mem_cons.mp hy with rfl | hy
      · exact lt_of_le_of_lt (pick_le_best cost x xs) hlt
      · exact hbefore y hy
    · rename_i hge
      obtain ⟨before, after, heq, hbefore, hafter⟩ := pick_isFirstMin cost best xs
      have hx : cost best ≤ cost x := not_lt.mp hge
      cases before with
      | nil =>
        obtain ⟨hb, hxs⟩ := List.cons.inj heq
        refine ⟨[], x :: xs, by rw [List.nil_append, ← hb],
          (fun _ h => absurd h List.not_mem_nil), ?_⟩
        intro y hy
        rw [← hb]
        rcases List.mem_cons.mp hy with rfl | hy
        · exact hx
        · rw [hb]
          exact hafter y (hxs ▸ hy)
      | cons b before =>
        obtain ⟨hb, hxs⟩ := List.cons.inj heq
        have hbest := hbefore b List.mem_cons_self
        rw [← hb] at hbest
        refine ⟨best :: x :: before, after, congrArg (fun l => best :: x :: l) hxs, ?_, hafter⟩
        intro y hy
        rcases List.mem_cons.mp hy with rfl | hy
        · exact hbest
        rcases List.mem_cons.mp hy with rfl | hy
        · exact lt_of_lt_of_le hbest hx
        · exact hbefore y (List.mem_cons_of_mem _ hy)

/-- The loop keeps what it started with or finds something strictly cheaper. -/
theorem pick_eq_or_lt (cost : α → κ) (best : α) (xs : List α) :
    pick cost best xs = best ∨ cost (pick cost best xs) < cost best := by
  obtain ⟨before, after, heq, hbefore, -⟩ := pick_isFirstMin cost best xs
  cases before with
  | nil => exact .inl (List.cons.inj heq).1.symm
  | cons b before =>
    have hb : best = b := (List.cons.inj heq).1
    exact .inr (hb ▸ hbefore b List.mem_cons_self)

theorem IsFirstMin.mem {cost : α → κ} {xs : List α} {x : α} (h : IsFirstMin cost xs x) :
    x ∈ xs := by
  obtain ⟨before, after, rfl, _, _⟩ := h
  exact List.mem_append_right _ List.mem_cons_self

theorem IsFirstMin.le {cost : α → κ} {xs : List α} {x y : α} (h : IsFirstMin cost xs x)
    (hy : y ∈ xs) : cost x ≤ cost y := by
  obtain ⟨before, after, rfl, hb, ha⟩ := h
  rcases List.mem_append.mp hy with hy | hy
  · exact le_of_lt (hb y hy)
  rcases List.mem_cons.mp hy with rfl | hy
  · exact le_refl _
  · exact ha y hy

/-- An element behind the first one is strictly cheaper than it. -/
theorem IsFirstMin.eq_or_lt_head {cost : α → κ} {x y : α} {xs : List α}
    (h : IsFirstMin cost (y :: xs) x) : x = y ∨ cost x < cost y := by
  obtain ⟨before, after, heq, hb, -⟩ := h
  cases before with
  | nil => exact .inl (List.cons.inj heq).1.symm
  | cons z before =>
    obtain ⟨rfl, -⟩ := List.cons.inj heq
    exact .inr (hb y List.mem_cons_self)

theorem IsFirstMin.unique {cost : α → κ} {xs : List α} {x y : α} (hx : IsFirstMin cost xs x)
    (hy : IsFirstMin cost xs y) : x = y := by
  obtain ⟨bx, ax, ex, hbx, hax⟩ := hx
  obtain ⟨by', ay, ey, hby, hay⟩ := hy
  rw [ex] at ey
  rcases List.append_eq_append_iff.mp ey with ⟨c, hc, hr⟩ | ⟨c, hc, hr⟩
  · cases c with
    | nil => exact (List.cons.inj (by simpa using hr)).1
    | cons d c =>
      obtain ⟨rfl, hrest⟩ := List.cons.inj hr
      have h1 : cost y < cost x := hby x (by rw [hc]; simp)
      have h2 : cost x ≤ cost y := hax y (by rw [hrest]; simp)
      exact absurd h1 (not_lt.mpr h2)
  · cases c with
    | nil => exact (List.cons.inj (by simpa using hr)).1.symm
    | cons d c =>
      obtain ⟨rfl, hrest⟩ := List.cons.inj hr
      have h1 : cost x < cost y := hbx y (by rw [hc]; simp)
      have h2 : cost y ≤ cost x := hay x (by rw [hrest]; simp)
      exact absurd h1 (not_lt.mpr h2)

/-- An element strictly cheaper than all others is the first cheapest. -/
theorem isFirstMin_of_lt {cost : α → κ} {xs : List α} {x : α} (hx : x ∈ xs)
    (h : ∀ y ∈ xs, y = x ∨ cost x < cost y) : IsFirstMin cost xs x := by
  obtain ⟨before, after, rfl, hnot⟩ := List.eq_append_cons_of_mem hx
  refine ⟨before, after, rfl, ?_, ?_⟩
  · intro y hy
    rcases h y (List.mem_append_left _ hy) with rfl | hlt
    · exact absurd hy hnot
    · exact hlt
  · intro y hy
    rcases h y (List.mem_append_right _ (List.mem_cons_of_mem _ hy)) with rfl | hlt
    · exact le_refl _
    · exact le_of_lt hlt

theorem eq_pick_iff {cost : α → κ} {best x : α} {xs : List α} :
    x = pick cost best xs ↔ IsFirstMin cost (best :: xs) x :=
  ⟨fun h => h ▸ pick_isFirstMin cost best xs,
    fun h => h.unique (pick_isFirstMin cost best xs)⟩

end FirstMin
