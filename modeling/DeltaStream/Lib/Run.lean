import Mathlib.Data.List.Flatten

/-!
# Runs of calls

A component is called again and again; each call is observed and takes it to its next state.

* `Run.keeps` — the induction rule: what every call keeps holds at the end of every run;
* `Run.convert` — a run of one kind of call is a run of another, where an invariant makes them
  agree;
* `Run.holds_iff` — what only some calls break holds at the end of the runs without these;
* `Run.increasing` — numbers that every call takes from above a counter, and moves the counter
  up to, strictly increase along a run;
* `perform_keeps` — the induction rule for a list of actions that can be refused.
-/

set_option autoImplicit false

namespace Runs

variable {σ ω : Type}

/-- `Run call a os b`: calls observed as `os` lead from `a` to `b`. -/
inductive Run (call : σ → ω → σ → Prop) (a : σ) : List ω → σ → Prop where
  | start : Run call a [] a
  | step {os : List ω} {b c : σ} {o : ω} (h : Run call a os b) (hcall : call b o c) :
      Run call a (os ++ [o]) c

variable {call call' : σ → ω → σ → Prop} {a b : σ} {os : List ω}

theorem Run.cons {c : σ} {o : ω} (hcall : call c o a) (h : Run call a os b) :
    Run call c (o :: os) b := by
  induction h with
  | start => exact Run.step .start hcall
  | step _ hc ih => exact ih.step hc

theorem Run.keeps {I : σ → Prop} (hcall : ∀ b o c, I b → call b o c → I c)
    (h : Run call a os b) (ha : I a) : I b := by
  induction h with
  | start => exact ha
  | step _ hc ih => exact hcall _ _ _ ih hc

/-- One kind of call for another, where an invariant of the run makes them agree. -/
theorem Run.convert {I : σ → Prop} (h : Run call a os b) (ha : I a)
    (hcall : ∀ b c, ∀ o ∈ os, I b → call b o c → call' b o c ∧ I c) : Run call' a os b ∧ I b := by
  induction h with
  | start => exact ⟨.start, ha⟩
  | @step os b c o _ hc ih =>
    obtain ⟨hrun, hb⟩ := ih fun b c o ho => hcall b c o (List.mem_append_left _ ho)
    obtain ⟨hc', hc⟩ := hcall b c o (List.mem_append_right _ List.mem_cons_self) hb hc
    exact ⟨hrun.step hc', hc⟩

/-- What only some calls break holds at the end of exactly the runs without such calls. -/
theorem Run.holds_iff {I : σ → Prop} {breaks : ω → Prop}
    (hcall : ∀ b o c, call b o c → (I c ↔ I b ∧ ¬breaks o)) (h : Run call a os b) (ha : I a) :
    I b ↔ ∀ o ∈ os, ¬breaks o := by
  induction h with
  | start => simp [ha]
  | @step os b c o _ hc ih =>
    rw [hcall b o c hc, ih]
    simp [or_imp, forall_and]

/-- **Numbers taken above a counter** strictly increase. -/
theorem Run.increasing {count : σ → Nat} {numbers : ω → List Nat}
    (hcall : ∀ b o c, call b o c → count b ≤ count c ∧ (numbers o).Pairwise (· < ·) ∧
      ∀ n ∈ numbers o, count b < n ∧ n ≤ count c)
    (h : Run call a os b) :
    (os.flatMap numbers).Pairwise (· < ·) ∧ ∀ n ∈ os.flatMap numbers, n ≤ count b := by
  induction h with
  | start => exact ⟨List.Pairwise.nil, fun n hn => absurd hn List.not_mem_nil⟩
  | @step os b c o _ hc ih =>
    obtain ⟨hsorted, hle⟩ := ih
    obtain ⟨hgrow, hown, hnew⟩ := hcall b o c hc
    have happend : (os ++ [o]).flatMap numbers = os.flatMap numbers ++ numbers o := by simp
    rw [happend]
    refine ⟨List.pairwise_append.mpr ⟨hsorted, hown, ?_⟩, ?_⟩
    · -- what was taken before is at most the counter the new numbers lie above
      intro n hn m hm
      exact Nat.lt_of_le_of_lt (hle n hn) (hnew m hm).1
    · intro n hn
      rcases List.mem_append.mp hn with hn | hn
      · exact Nat.le_trans (hle n hn) hgrow
      · exact (hnew n hn).2

/-! ## Actions one after the other -/

/-- Actions taken as far as they are allowed and possible. -/
def perform {α : Type} (step : σ → α → Option σ) (allowed : σ → α → Bool) :
    List α → σ → Option σ
  | [], b => some b
  | o :: os, b =>
    if allowed b o then
      match step b o with
      | none => none
      | some c => perform step allowed os c
    else none

/-- What every allowed action keeps holds after them. -/
theorem perform_keeps {α : Type} {step : σ → α → Option σ} {allowed : σ → α → Bool}
    {I : σ → Prop} (hstep : ∀ b o c, I b → allowed b o = true → step b o = some c → I c) :
    ∀ {os : List α} {b c : σ}, perform step allowed os b = some c → I b → I c
  | [], b, c, h, hb => by
    cases h
    exact hb
  | o :: os, b, c, h, hb => by
    unfold perform at h
    split at h
    · rename_i ho
      split at h
      · cases h
      · rename_i next hs
        exact perform_keeps hstep h (hstep b o next hb ho hs)
    · cases h

end Runs
