import Mathlib.Data.List.Basic

/-!
# Outcomes of computations that may fail

Rules for `Except` programs: `Ends Q E x` says that `x` gives a value with `Q` or fails with an
error with `E`.

* `Ends.bind`, `Ends.mono` — composition and consequence;
* `forRange_ends` — a counted loop keeps an invariant that each round keeps;
* `forEach_ends` — a pass over a list that updates the elements in place and threads an
  accumulator establishes for each element what the body establishes, and keeps the invariant of
  the accumulator;
* `foldlM_ends` — a fold keeps an invariant of what is left to do and the accumulator.
-/

set_option autoImplicit false

namespace Fallible

variable {ε α β σ κ : Type}

/-- A value with one property, or an error with another. -/
def Ends (Q : α → Prop) (E : ε → Prop) : Except ε α → Prop
  | .ok a => Q a
  | .error e => E e

variable {Q : α → Prop} {E : ε → Prop}

@[simp] theorem ends_ok {a : α} : Ends Q E (.ok a) ↔ Q a := Iff.rfl

@[simp] theorem ends_error {e : ε} : Ends Q E (.error e : Except ε α) ↔ E e := Iff.rfl

@[simp] theorem ends_pure {a : α} : Ends Q E (pure a) ↔ Q a := Iff.rfl

theorem Ends.mono {Q' : α → Prop} {E' : ε → Prop} {x : Except ε α} (h : Ends Q E x)
    (hQ : ∀ a, Q a → Q' a) (hE : ∀ e, E e → E' e) : Ends Q' E' x := by
  cases x with
  | ok a => exact hQ a h
  | error e => exact hE e h

theorem Ends.value {Q' : α → Prop} {x : Except ε α} (h : Ends Q E x) (hQ : ∀ a, Q a → Q' a) :
    Ends Q' E x :=
  h.mono hQ fun _ he => he

theorem Ends.any (x : Except ε α) : Ends (fun _ => True) (fun _ => True) x := by
  cases x <;> trivial

/-- What also holds of every value. -/
theorem Ends.and {Q' : α → Prop} {x : Except ε α} (h : Ends Q E x)
    (h' : Ends Q' (fun _ => True) x) : Ends (fun a => Q a ∧ Q' a) E x := by
  cases x with
  | ok a => exact ⟨h, h'⟩
  | error e => exact h

theorem Ends.bind {Q' : β → Prop} {x : Except ε α} {f : α → Except ε β} (hx : Ends Q E x)
    (hf : ∀ a, Q a → Ends Q' E (f a)) : Ends Q' E (x >>= f) := by
  cases x with
  | ok a => exact hf a hx
  | error e => exact hx

/-- What holds of a value given. -/
theorem Ends.of_ok {x : Except ε α} {a : α} (h : Ends Q E x) (hx : x = .ok a) : Q a := by
  subst hx
  exact h

/-- A computation whose errors are excluded gives a value. -/
theorem Ends.total {x : Except ε α} (h : Ends Q E x) (hE : ∀ e, ¬E e) : ∃ a, x = .ok a ∧ Q a := by
  cases x with
  | ok a => exact ⟨a, rfl, h⟩
  | error e => exact absurd h (hE e)

/-! ## Loops -/

/-- `for i in first..first + rounds`. -/
def forRange (body : Nat → σ → Except ε σ) : Nat → Nat → σ → Except ε σ
  | _, 0, acc => .ok acc
  | i, rounds + 1, acc => body i acc >>= forRange body (i + 1) rounds

theorem forRange_from {body : Nat → σ → Except ε σ} (I : Nat → σ → Prop) :
    ∀ {first rounds : Nat} {acc : σ}, I first acc →
      (∀ i acc, first ≤ i → i < first + rounds → I i acc → Ends (I (i + 1)) E (body i acc)) →
      Ends (I (first + rounds)) E (forRange body first rounds acc)
  | _, 0, _, h, _ => h
  | first, rounds + 1, acc, h, hbody => by
    have hrest : Ends (I (first + 1 + rounds)) E (forRange body first (rounds + 1) acc) := by
      refine (hbody first acc (Nat.le_refl _) (by omega) h).bind fun acc' h' => ?_
      exact forRange_from I h' fun i a hi hlt => hbody i a (by omega) (by omega)
    rwa [show first + 1 + rounds = first + (rounds + 1) by omega] at hrest

/-- A counted loop keeps an invariant that each round keeps. -/
theorem forRange_ends {body : Nat → σ → Except ε σ} (I : Nat → σ → Prop) {rounds : Nat} {acc : σ}
    (h : I 0 acc)
    (hbody : ∀ i acc, i < rounds → I i acc → Ends (I (i + 1)) E (body i acc)) :
    Ends (I rounds) E (forRange body 0 rounds acc) := by
  have hrun : Ends (I (0 + rounds)) E (forRange body 0 rounds acc) :=
    forRange_from I h fun i acc _ hi => hbody i acc (by omega)
  rwa [Nat.zero_add] at hrun

/-- `for (i, x) in xs.iter_mut().enumerate()`, counting from `i`. -/
def forEach (body : Nat → κ → σ → Except ε (κ × σ)) : Nat → List κ → σ → Except ε (List κ × σ)
  | _, [], acc => .ok ([], acc)
  | i, x :: xs, acc => do
    let r ← body i x acc
    let rest ← forEach body (i + 1) xs r.2
    pure (r.1 :: rest.1, rest.2)

theorem forEach_from {body : Nat → κ → σ → Except ε (κ × σ)} {P : κ → Prop}
    (le : σ → σ → Prop) (hrefl : ∀ a, le a a) (htrans : ∀ {a b c}, le a b → le b c → le a c)
    (P' : Nat → κ → σ → Prop) (hgrow : ∀ {i x a b}, P' i x a → le a b → P' i x b)
    (I : Nat → σ → Prop)
    (hbody : ∀ i x acc, P x → I i acc →
      Ends (fun r => P' i r.1 r.2 ∧ I (i + 1) r.2 ∧ le acc r.2) E (body i x acc)) :
    ∀ {i : Nat} {xs : List κ} {acc : σ}, (∀ x ∈ xs, P x) → I i acc →
      Ends (fun r => r.1.length = xs.length ∧ (∀ j x, r.1[j]? = some x → P' (i + j) x r.2) ∧
        I (i + xs.length) r.2 ∧ le acc r.2) E (forEach body i xs acc)
  | _, [], _, _, h => ⟨rfl, fun j x hx => (nomatch hx), h, hrefl _⟩
  | i, x :: xs, acc, hxs, h => by
    obtain ⟨hx, hxs⟩ := List.forall_mem_cons.mp hxs
    refine (hbody i x acc hx h).bind fun r hr => ?_
    obtain ⟨hfirst, hacc, hle⟩ := hr
    refine (forEach_from le hrefl htrans P' hgrow I hbody hxs hacc).bind fun rest hrest => ?_
    obtain ⟨hlength, hall, hacc, hle'⟩ := hrest
    refine ⟨by simp [hlength], ?_, ?_, htrans hle hle'⟩
    · intro j y hy
      cases j with
      | zero =>
        cases hy
        exact hgrow hfirst hle'
      | succ j =>
        have := hall j y hy
        rwa [show i + 1 + j = i + (j + 1) by omega] at this
    · rwa [List.length_cons, show i + (xs.length + 1) = i + 1 + xs.length by omega]

/-- A pass over a list whose accumulator grows: what the body establishes for each element, by its
    index, it keeps under a larger accumulator. -/
theorem forEach_grows {body : Nat → κ → σ → Except ε (κ × σ)} {P : κ → Prop}
    (le : σ → σ → Prop) (hrefl : ∀ a, le a a) (htrans : ∀ {a b c}, le a b → le b c → le a c)
    (P' : Nat → κ → σ → Prop) (hgrow : ∀ {i x a b}, P' i x a → le a b → P' i x b)
    (I : Nat → σ → Prop) {xs : List κ} {acc : σ} (hxs : ∀ x ∈ xs, P x) (hacc : I 0 acc)
    (hbody : ∀ i x acc, P x → I i acc →
      Ends (fun r => P' i r.1 r.2 ∧ I (i + 1) r.2 ∧ le acc r.2) E (body i x acc)) :
    Ends (fun r => r.1.length = xs.length ∧ (∀ j x, r.1[j]? = some x → P' j x r.2) ∧
      I xs.length r.2) E (forEach body 0 xs acc) := by
  have hall := forEach_from le hrefl htrans P' hgrow I hbody hxs hacc
  simp only [Nat.zero_add] at hall
  exact hall.value fun r ⟨hlength, heach, hacc, _⟩ => ⟨hlength, heach, hacc⟩

/-- A pass over a list: what the body establishes for each element, by its index, and what it
    keeps of the accumulator. -/
theorem forEach_ends {body : Nat → κ → σ → Except ε (κ × σ)} {P : κ → Prop}
    (P' : Nat → κ → Prop) (I : Nat → σ → Prop) {xs : List κ} {acc : σ} (hxs : ∀ x ∈ xs, P x)
    (hacc : I 0 acc)
    (hbody : ∀ i x acc, P x → I i acc →
      Ends (fun r => P' i r.1 ∧ I (i + 1) r.2) E (body i x acc)) :
    Ends (fun r => r.1.length = xs.length ∧ (∀ j x, r.1[j]? = some x → P' j x) ∧
      I xs.length r.2) E (forEach body 0 xs acc) :=
  forEach_grows (fun _ _ => True) (fun _ => trivial) (fun _ _ => trivial)
    (fun i x _ => P' i x) (fun h _ => h) I hxs hacc fun i x acc hx h =>
      (hbody i x acc hx h).value fun _ ⟨hx', h'⟩ => ⟨hx', h', trivial⟩

/-- A fold keeps an invariant of what is left and the accumulator. -/
theorem foldlM_ends {body : σ → κ → Except ε σ} (I : List κ → σ → Prop) :
    ∀ {xs : List κ} {acc : σ}, I xs acc →
      (∀ x rest acc, I (x :: rest) acc → Ends (I rest) E (body acc x)) →
      Ends (I []) E (xs.foldlM body acc)
  | [], _, h, _ => h
  | x :: xs, acc, h, hbody => by
    rw [List.foldlM_cons]
    exact (hbody x xs acc h).bind fun acc' h' => foldlM_ends I h' hbody

/-- Of all elements, whatever their index. -/
theorem forall_mem_of_getElem? {P : κ → Prop} {xs : List κ}
    (h : ∀ (j : Nat) x, xs[j]? = some x → P x) : ∀ x ∈ xs, P x := by
  intro x hx
  obtain ⟨j, hj⟩ := List.mem_iff_getElem?.mp hx
  exact h j x hj

end Fallible
