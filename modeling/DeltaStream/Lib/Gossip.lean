import Mathlib.Algebra.BigOperators.Group.List.Basic
import Mathlib.Algebra.Order.Monoid.Canonical.Defs
import Mathlib.Logic.Relation
import Mathlib.Order.Lattice

/-!
# States that merge by joins

Replicas hold states and exchange copies of them.  A state is read key by key, and merging two
states joins what is read at each key.

* `mergeAll_congr` — merging states one by one depends only on the set of the states;
* `System.Reachable.accounts` — where every replica adds to its own key only, its own reading is the
  sum of what it added, and every copy reads at most that, whatever the channel loses, repeats,
  delays or reorders;
* `Accounts.complete` — a replica that merged a last copy of each other replica reads all sums.
-/

set_option autoImplicit false

namespace Gossip

variable {σ κ ν : Type}

/-! ## Merging one by one -/

/-- Merging joins what is read at each key. -/
def Joins [SemilatticeSup ν] (view : σ → κ → ν) (merge : σ → σ → σ) : Prop :=
  ∀ a b k, view (merge a b) k = view a k ⊔ view b k

section Merging

variable [SemilatticeSup ν] {view : σ → κ → ν} {merge : σ → σ → σ}

theorem foldl_le_iff (hjoin : Joins view merge) {k : κ} {n : ν} : ∀ {l : List σ} {a : σ},
    view (l.foldl merge a) k ≤ n ↔ view a k ≤ n ∧ ∀ b ∈ l, view b k ≤ n
  | [], a => by simp
  | b :: l, a => by
    rw [List.foldl_cons, foldl_le_iff hjoin, hjoin, sup_le_iff, and_assoc]
    simp

/-- **Merging one by one** depends only on the set of the merged states. -/
theorem mergeAll_congr (hjoin : Joins view merge) (hinj : Function.Injective view) {l l' : List σ}
    (h : ∀ b, b ∈ l ↔ b ∈ l') (a : σ) : l.foldl merge a = l'.foldl merge a := by
  have hbound : ∀ k n, view (l.foldl merge a) k ≤ n ↔ view (l'.foldl merge a) k ≤ n := by
    intro k n
    rw [foldl_le_iff hjoin, foldl_le_iff hjoin]
    simp only [h]
  refine hinj (funext fun k => le_antisymm ?_ ?_)
  · exact (hbound k _).mpr (le_refl _)
  · exact (hbound k _).mp (le_refl _)

theorem merge_comm (hjoin : Joins view merge) (hinj : Function.Injective view) (a b : σ) :
    merge a b = merge b a :=
  hinj (funext fun k => by rw [hjoin, hjoin, sup_comm])

theorem merge_assoc (hjoin : Joins view merge) (hinj : Function.Injective view) (a b c : σ) :
    merge (merge a b) c = merge a (merge b c) :=
  hinj (funext fun k => by rw [hjoin, hjoin, hjoin, hjoin, sup_assoc])

theorem merge_self (hjoin : Joins view merge) (hinj : Function.Injective view) (a : σ) :
    merge a a = a :=
  hinj (funext fun k => by rw [hjoin, sup_idem])

end Merging

/-! ## Replicas over a faulty channel -/

variable {ι υ : Type}

/-- An update says whether it succeeded. -/
structure System (ι σ υ : Type) where
  member : ι → Prop
  initial : σ
  update : ι → σ → υ → Bool × σ
  merge : σ → σ → σ

/-- A copy of a state, with its sender and how many updates the sender had made. -/
structure Copy (ι σ : Type) where
  sender : ι
  made : Nat
  state : σ

/-- `sent` is never emptied: a copy in it may be merged at any time, again, or never. -/
structure Config (ι σ υ : Type) where
  states : ι → σ
  /-- the successful updates of each replica -/
  made : ι → List υ
  sent : List (Copy ι σ)
  merged : ι → List (Copy ι σ)

namespace System

def start (S : System ι σ υ) : Config ι σ υ := ⟨fun _ => S.initial, fun _ => [], [], fun _ => []⟩

inductive Step [DecidableEq ι] (S : System ι σ υ) (c : Config ι σ υ) : Config ι σ υ → Prop where
  | made {i : ι} {u : υ} {s : σ} (hi : S.member i) (h : S.update i (c.states i) u = (true, s)) :
      Step S c { c with
        states := Function.update c.states i s
        made := Function.update c.made i (c.made i ++ [u]) }
  | failed {i : ι} {u : υ} {s : σ} (hi : S.member i)
      (h : S.update i (c.states i) u = (false, s)) :
      Step S c { c with states := Function.update c.states i s }
  | send {i : ι} (hi : S.member i) :
      Step S c { c with sent := ⟨i, (c.made i).length, c.states i⟩ :: c.sent }
  | receive {j : ι} {m : Copy ι σ} (hj : S.member j) (hm : m ∈ c.sent) :
      Step S c { c with
        states := Function.update c.states j (S.merge (c.states j) m.state)
        merged := Function.update c.merged j (m :: c.merged j) }

def Reachable [DecidableEq ι] (S : System ι σ υ) : Config ι σ υ → Prop :=
  Relation.ReflTransGen S.Step S.start

/-- Every replica adds to its own key only. -/
structure Adds [SemilatticeSup ν] [AddCommMonoid ν] (S : System ι σ υ) (view : σ → ι → ν)
    (weight : υ → ν) : Prop where
  initial : ∀ k, view S.initial k = 0
  update : ∀ i s u,
    (∃ t, S.update i s u = (true, t) ∧ view t i = view s i + weight u ∧
      ∀ k, k ≠ i → view t k = view s k) ∨
    ∃ t, S.update i s u = (false, t) ∧ ∀ k, view t k = view s k
  joins : Joins view S.merge

section Adds

variable [SemilatticeSup ν] [AddCommMonoid ν] {S : System ι σ υ} {view : σ → ι → ν}
  {weight : υ → ν} {i : ι} {s t : σ} {u : υ}

theorem Adds.made (hS : S.Adds view weight) (h : S.update i s u = (true, t)) :
    view t i = view s i + weight u ∧ ∀ k, k ≠ i → view t k = view s k := by
  rcases hS.update i s u with ⟨t', ht, hown, hothers⟩ | ⟨t', ht, -⟩
  · cases ht.symm.trans h
    exact ⟨hown, hothers⟩
  · cases ht.symm.trans h

theorem Adds.failed (hS : S.Adds view weight) (h : S.update i s u = (false, t)) (k : ι) :
    view t k = view s k := by
  rcases hS.update i s u with ⟨t', ht, -⟩ | ⟨t', ht, hsame⟩
  · cases ht.symm.trans h
  · cases ht.symm.trans h
    exact hsame k

end Adds

end System

/-- What a list of updates adds. -/
def added [AddCommMonoid ν] (weight : υ → ν) (us : List υ) : ν := (us.map weight).sum

theorem added_append [AddCommMonoid ν] {weight : υ → ν} (us : List υ) (u : υ) :
    added weight (us ++ [u]) = added weight us + weight u := by
  simp [added]

section Accounts

variable [SemilatticeSup ν] [AddCommMonoid ν]

/-- What every reachable configuration satisfies. -/
structure Accounts (S : System ι σ υ) (view : σ → ι → ν) (weight : υ → ν) (c : Config ι σ υ) :
    Prop where
  own : ∀ i, view (c.states i) i = added weight (c.made i)
  held : ∀ i j, view (c.states j) i ≤ added weight (c.made i)
  outside : ∀ i, ¬S.member i → c.made i = []
  copied : ∀ m ∈ c.sent, ∀ i, view m.state i ≤ added weight (c.made i)
  last : ∀ m ∈ c.sent, m.made ≤ (c.made m.sender).length ∧
    (m.made = (c.made m.sender).length → view m.state m.sender = added weight (c.made m.sender))
  merged : ∀ j, ∀ m ∈ c.merged j, m ∈ c.sent ∧ ∀ i, view m.state i ≤ view (c.states j) i

variable {S : System ι σ υ} {view : σ → ι → ν} {weight : υ → ν} {c : Config ι σ υ}

theorem Accounts.start (hS : S.Adds view weight) : Accounts S view weight S.start where
  own := hS.initial
  held := fun i _ => le_of_eq (hS.initial i)
  outside := fun _ _ => rfl
  copied := fun _ hm => absurd hm List.not_mem_nil
  last := fun _ hm => absurd hm List.not_mem_nil
  merged := fun _ _ hm => absurd hm List.not_mem_nil

theorem Accounts.send (hc : Accounts S view weight c) (i : ι) :
    Accounts S view weight { c with sent := ⟨i, (c.made i).length, c.states i⟩ :: c.sent } := by
  refine ⟨hc.own, hc.held, hc.outside, fun m hm k => ?_, fun m hm => ?_, fun j m hm => ?_⟩
  · rcases List.mem_cons.mp hm with rfl | hm
    · exact hc.held k i
    · exact hc.copied m hm k
  · rcases List.mem_cons.mp hm with rfl | hm
    · exact ⟨le_refl _, fun _ => hc.own i⟩
    · exact hc.last m hm
  · exact ⟨List.mem_cons_of_mem _ (hc.merged j m hm).1, (hc.merged j m hm).2⟩

variable [DecidableEq ι]

/-- An update that fails changes nothing that is read. -/
theorem Accounts.failed (hS : S.Adds view weight) (hc : Accounts S view weight c) {i : ι} {u : υ}
    {s : σ} (h : S.update i (c.states i) u = (false, s)) :
    Accounts S view weight { c with states := Function.update c.states i s } := by
  have hsame : ∀ j k, view (Function.update c.states i s j) k = view (c.states j) k := by
    intro j k
    by_cases hj : j = i
    · subst hj
      rw [Function.update_self]
      exact hS.failed h k
    · rw [Function.update_of_ne hj]
  refine ⟨fun k => ?_, fun k j => ?_, hc.outside, hc.copied, hc.last, fun j m hm => ?_⟩
  · rw [hsame]
    exact hc.own k
  · rw [hsame]
    exact hc.held k j
  · refine ⟨(hc.merged j m hm).1, fun k => ?_⟩
    rw [hsame]
    exact (hc.merged j m hm).2 k

theorem Accounts.receive (hS : S.Adds view weight) (hc : Accounts S view weight c) (j : ι)
    {m : Copy ι σ} (hm : m ∈ c.sent) : Accounts S view weight { c with
      states := Function.update c.states j (S.merge (c.states j) m.state)
      merged := Function.update c.merged j (m :: c.merged j) } := by
  have hview : ∀ k, view (S.merge (c.states j) m.state) k = view (c.states j) k ⊔ view m.state k :=
    hS.joins _ _
  refine ⟨fun k => ?_, fun k i => ?_, hc.outside, hc.copied, hc.last, fun i n hn => ?_⟩
  · by_cases hk : k = j
    · -- a copy never knows more of a replica than the replica itself
      subst hk
      have hcopy : view m.state k ≤ view (c.states k) k := hc.own k ▸ hc.copied m hm k
      simp only [Function.update_self]
      rw [hview, sup_eq_left.mpr hcopy]
      exact hc.own k
    · simp only [Function.update_of_ne hk]
      exact hc.own k
  · by_cases hi : i = j
    · subst hi
      simp only [Function.update_self]
      rw [hview]
      exact sup_le (hc.held k i) (hc.copied m hm k)
    · simp only [Function.update_of_ne hi]
      exact hc.held k i
  · by_cases hi : i = j
    · subst hi
      simp only [Function.update_self] at hn ⊢
      rcases List.mem_cons.mp hn with rfl | hn
      · exact ⟨hm, fun k => hview k ▸ le_sup_right⟩
      · obtain ⟨hsent, hle⟩ := hc.merged i n hn
        exact ⟨hsent, fun k => hview k ▸ le_sup_of_le_left (hle k)⟩
    · simp only [Function.update_of_ne hi] at hn ⊢
      exact hc.merged i n hn

variable [CanonicallyOrderedAdd ν]

theorem Accounts.made (hS : S.Adds view weight) (hc : Accounts S view weight c) {i : ι} {u : υ}
    {s : σ} (hi : S.member i) (h : S.update i (c.states i) u = (true, s)) :
    Accounts S view weight { c with
      states := Function.update c.states i s
      made := Function.update c.made i (c.made i ++ [u]) } := by
  have hgrow : ∀ k, added weight (c.made k) ≤
      added weight (Function.update c.made i (c.made i ++ [u]) k) := by
    intro k
    by_cases hk : k = i
    · subst hk
      rw [Function.update_self, added_append]
      exact le_self_add
    · rw [Function.update_of_ne hk]
  obtain ⟨hadd, hothers⟩ := hS.made h
  have hown : view s i = added weight (c.made i ++ [u]) := by
    rw [hadd, hc.own, added_append]
  refine ⟨fun k => ?_, fun k j => ?_, fun k hk => ?_, fun m hm k => ?_, fun m hm => ?_,
    fun j m hm => ?_⟩
  · by_cases hk : k = i
    · subst hk
      simp only [Function.update_self]
      exact hown
    · simp only [Function.update_of_ne hk]
      exact hc.own k
  · by_cases hj : j = i
    · subst hj
      by_cases hk : k = j
      · subst hk
        simp only [Function.update_self]
        exact le_of_eq hown
      · simp only [Function.update_self, Function.update_of_ne hk]
        rw [hothers k hk]
        exact hc.held k j
    · simp only [Function.update_of_ne hj]
      exact le_trans (hc.held k j) (hgrow k)
  · have hne : k ≠ i := fun heq => hk (heq ▸ hi)
    simp only [Function.update_of_ne hne]
    exact hc.outside k hk
  · exact le_trans (hc.copied m hm k) (hgrow k)
  · obtain ⟨hle, heq⟩ := hc.last m hm
    by_cases hk : m.sender = i
    · -- the sender has now made an update the copy does not know of
      subst hk
      simp only [Function.update_self, List.length_append, List.length_singleton]
      exact ⟨by omega, fun habs => by omega⟩
    · simp only [Function.update_of_ne hk]
      exact ⟨hle, heq⟩
  · obtain ⟨hsent, hle⟩ := hc.merged j m hm
    refine ⟨hsent, fun k => le_trans (hle k) ?_⟩
    by_cases hj : j = i
    · subst hj
      simp only [Function.update_self]
      by_cases hk : k = j
      · subst hk
        rw [hadd]
        exact le_self_add
      · rw [hothers k hk]
    · simp only [Function.update_of_ne hj]
      exact le_refl _

theorem Accounts.step {c' : Config ι σ υ} (hS : S.Adds view weight) (hc : Accounts S view weight c)
    (h : S.Step c c') : Accounts S view weight c' := by
  cases h with
  | made hi h => exact hc.made hS hi h
  | failed _ h => exact hc.failed hS h
  | send _ => exact hc.send _
  | receive _ hm => exact hc.receive hS _ hm

/-- **No update is lost or counted twice**, in any run. -/
theorem System.Reachable.accounts (hS : S.Adds view weight) (h : S.Reachable c) :
    Accounts S view weight c := by
  induction h with
  | refl => exact .start hS
  | tail _ hstep ih => exact ih.step hS hstep

end Accounts

/-- Of every other replica, `r` merged a copy taken after the replica's last update. -/
def CaughtUp (S : System ι σ υ) (c : Config ι σ υ) (r : ι) : Prop :=
  ∀ i, S.member i → i = r ∨ ∃ m ∈ c.merged r, m.sender = i ∧ m.made = (c.made i).length

/-- **A replica that is caught up** reads what every replica added. -/
theorem Accounts.complete [SemilatticeSup ν] [AddCommMonoid ν] {S : System ι σ υ}
    {view : σ → ι → ν} {weight : υ → ν} {c : Config ι σ υ} (hc : Accounts S view weight c) {r : ι}
    (h : CaughtUp S c r) {i : ι} (hi : S.member i) :
    view (c.states r) i = added weight (c.made i) := by
  rcases h i hi with rfl | ⟨m, hm, hsender, hmade⟩
  · exact hc.own i
  · subst hsender
    obtain ⟨hsent, hle⟩ := hc.merged r m hm
    refine le_antisymm (hc.held _ r) ?_
    rw [← (hc.last m hsent).2 hmade]
    exact hle _

end Gossip
