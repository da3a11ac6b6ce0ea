import DeltaStream.Crdt
import DeltaStream.CrdtMerge
import DeltaStream.Lib.Gossip
import Mathlib.Algebra.BigOperators.Group.Finset.Piecewise
import Mathlib.Algebra.Order.Monoid.Prod

/-!
# Replicas of a counter

Any number of replicas, each incrementing its own component and merging copies of the others'
counters, over a channel that loses, repeats, delays and reorders the copies.

* `gcounterReplicas_adds`, `pncounterReplicas_adds` — the counters are states that merge by joins,
  and a replica adds to its own component only;
* `counter_replicas` — no increment is lost or counted twice, and a replica that is caught up has
  the exact value, or an overflow.
-/

set_option autoImplicit false

namespace DeltaStream

open Gossip

/-! ## Grow-only counters -/

namespace GCounter

/-- A component as a number. -/
def amount (c : GCounter) (k : ReplicaId) : ℕ := (c.component k).toNat

theorem joins_amount : Joins amount merged := by
  intro a b k
  have hlevel := joins_level a b k
  unfold amount
  rcases (merged a b).level_cases k with ⟨hm, hmc⟩ | hm
  · -- no component on either side
    rw [hm] at hlevel
    obtain ⟨ha, hb⟩ := sup_eq_bot_iff.mp hlevel.symm
    rcases a.level_cases k with ⟨-, hac⟩ | ha'
    · rcases b.level_cases k with ⟨-, hbc⟩ | hb'
      · rw [hmc, hac, hbc]
        rfl
      · exact absurd (hb'.symm.trans hb) WithBot.coe_ne_bot
    · exact absurd (ha'.symm.trans ha) WithBot.coe_ne_bot
  · rw [hm] at hlevel
    rcases a.level_cases k with ⟨ha, hac⟩ | ha
    · rcases b.level_cases k with ⟨hb, hbc⟩ | hb
      · rw [ha, hb] at hlevel
        exact absurd hlevel WithBot.coe_ne_bot
      · rw [ha, hb, bot_sup_eq] at hlevel
        rw [WithBot.coe_injective hlevel, hac]
        exact (Nat.zero_max _).symm
    · rcases b.level_cases k with ⟨hb, hbc⟩ | hb
      · rw [ha, hb, sup_bot_eq] at hlevel
        rw [WithBot.coe_injective hlevel, hbc]
        exact (Nat.max_zero _).symm
      · rw [ha, hb, ← WithBot.coe_sup] at hlevel
        exact WithBot.coe_injective hlevel

/-- What a list of entries has for a key. -/
theorem total_eq_sum : ∀ {es : List (ReplicaId × UInt64)} {ids : Finset ReplicaId},
    SortedMap.Sorted es → (∀ k, k ∉ ids → ((SortedMap.get? es k).getD 0).toNat = 0) →
      total es = ∑ k ∈ ids, ((SortedMap.get? es k).getD 0).toNat
  | [], _, _, _ => by simp [total, SortedMap.get?]
  | e :: es, ids, hs, hzero => by
    obtain ⟨hlt, hrest⟩ := SortedMap.sorted_cons.mp hs
    have hnone := SortedMap.get?_none_of_lt hlt
    have hsplit : ∀ k, ((SortedMap.get? (e :: es) k).getD 0).toNat =
        ((SortedMap.get? es k).getD 0).toNat + if k = e.1 then e.2.toNat else 0 := by
      intro k
      rw [SortedMap.get?_cons]
      split
      · rename_i hk
        rw [hk, hnone]
        simp
      · simp
    simp only [hsplit] at hzero ⊢
    have htail : total es = ∑ k ∈ ids, ((SortedMap.get? es k).getD 0).toNat :=
      total_eq_sum hrest fun k hk => Nat.eq_zero_of_add_eq_zero_right (hzero k hk)
    rw [Finset.sum_add_distrib, Finset.sum_ite_eq', ← htail]
    have htotal : total (e :: es) = e.2.toNat + total es := by simp [total]
    split
    · omega
    · rename_i hout
      have hout := hzero e.1 hout
      simp only [if_true] at hout
      omega

end GCounter

/-- Replicas of a counter: `increment` on the own component, and `merge`. -/
def gcounterReplicas (ids : Finset ReplicaId) : System ReplicaId GCounter UInt64 where
  member i := i ∈ ids
  initial := .new
  update i s amount := ((s.increment i amount).1.isOk, (s.increment i amount).2)
  merge := merged

theorem gcounterReplicas_adds (ids : Finset ReplicaId) :
    (gcounterReplicas ids).Adds GCounter.amount UInt64.toNat where
  initial := fun _ => rfl
  update := by
    intro i s u
    rcases s.increment_cases i u with ⟨c, hc, hadd, hsame⟩ | ⟨c, hc, -, hsame⟩
    · refine .inl ⟨c, ?_, hadd, fun k hk => congrArg UInt64.toNat (hsame k hk)⟩
      simp only [gcounterReplicas, hc, Except.isOk, Except.toBool]
    · refine .inr ⟨c, ?_, fun k => congrArg UInt64.toNat (hsame k)⟩
      simp only [gcounterReplicas, hc, Except.isOk, Except.toBool]
  joins := GCounter.joins_amount

/-! ## Positive-negative counters -/

inductive PNUpdate where
  | increment (amount : UInt64)
  | decrement (amount : UInt64)

/-- What an update adds to the positive and to the negative side. -/
def PNUpdate.weight : PNUpdate → ℕ × ℕ
  | .increment amount => (amount.toNat, 0)
  | .decrement amount => (0, amount.toNat)

def PNCounter.update (c : PNCounter) (replica : ReplicaId) :
    PNUpdate → Except CrdtError Unit × PNCounter
  | .increment amount => c.increment replica amount
  | .decrement amount => c.decrement replica amount

/-- The components of both sides. -/
def PNCounter.amount (c : PNCounter) (k : ReplicaId) : ℕ × ℕ :=
  (c.positive.amount k, c.negative.amount k)

/-- Replicas of a counter: `increment` and `decrement` on the own component, and `merge`. -/
def pncounterReplicas (ids : Finset ReplicaId) : System ReplicaId PNCounter PNUpdate where
  member i := i ∈ ids
  initial := .new
  update i s u := ((s.update i u).1.isOk, (s.update i u).2)
  merge := merged

theorem pncounterReplicas_adds (ids : Finset ReplicaId) :
    (pncounterReplicas ids).Adds PNCounter.amount PNUpdate.weight where
  initial := fun _ => rfl
  update := by
    intro i s u
    cases u with
    | increment n =>
      rcases s.positive.increment_cases i n with ⟨g, hg, hadd, hsame⟩ | ⟨g, hg, -, hsame⟩
      · refine .inl ⟨{ s with positive := g }, ?_, Prod.ext hadd rfl, fun k hk => ?_⟩
        · simp only [pncounterReplicas, PNCounter.update, PNCounter.increment, hg, Except.isOk,
            Except.toBool]
        · exact Prod.ext (congrArg UInt64.toNat (hsame k hk)) rfl
      · refine .inr ⟨{ s with positive := g }, ?_, fun k => ?_⟩
        · simp only [pncounterReplicas, PNCounter.update, PNCounter.increment, hg, Except.isOk,
            Except.toBool]
        · exact Prod.ext (congrArg UInt64.toNat (hsame k)) rfl
    | decrement n =>
      rcases s.negative.increment_cases i n with ⟨g, hg, hadd, hsame⟩ | ⟨g, hg, -, hsame⟩
      · refine .inl ⟨{ s with negative := g }, ?_, Prod.ext rfl hadd, fun k hk => ?_⟩
        · simp only [pncounterReplicas, PNCounter.update, PNCounter.decrement, hg, Except.isOk,
            Except.toBool]
        · exact Prod.ext rfl (congrArg UInt64.toNat (hsame k hk))
      · refine .inr ⟨{ s with negative := g }, ?_, fun k => ?_⟩
        · simp only [pncounterReplicas, PNCounter.update, PNCounter.decrement, hg, Except.isOk,
            Except.toBool]
        · exact Prod.ext rfl (congrArg UInt64.toNat (hsame k))
  joins := fun a b k => Prod.ext (GCounter.joins_amount a.positive b.positive k)
    (GCounter.joins_amount a.negative b.negative k)

/-! ## Runs -/

/-- No update is lost or counted twice: a replica's own component is the sum of what it added, and
    no replica and no copy has more for it. -/
structure Kept {σ υ ν : Type} [SemilatticeSup ν] [AddCommMonoid ν] (ids : Finset ReplicaId)
    (amount : σ → ReplicaId → ν) (weight : υ → ν) (c : Config ReplicaId σ υ) : Prop where
  own : ∀ i ∈ ids, amount (c.states i) i = added weight (c.made i)
  held : ∀ i ∈ ids, ∀ j ∈ ids, amount (c.states j) i ≤ added weight (c.made i)
  copied : ∀ i ∈ ids, ∀ m ∈ c.sent, amount m.state i ≤ added weight (c.made i)

theorem Kept.of_accounts {σ υ ν : Type} [SemilatticeSup ν] [AddCommMonoid ν]
    {ids : Finset ReplicaId} {S : System ReplicaId σ υ} {amount : σ → ReplicaId → ν}
    {weight : υ → ν} {c : Config ReplicaId σ υ} (h : Accounts S amount weight c) :
    Kept ids amount weight c where
  own := fun i _ => h.own i
  held := fun i _ j _ => h.held i j
  copied := fun i _ m hm => h.copied m hm i

/-- The sum of the components is the sum over the replicas. -/
theorem GCounter.total_of_amounts {c : GCounter} {ids : Finset ReplicaId} {f : ReplicaId → ℕ}
    (hin : ∀ i ∈ ids, c.amount i = f i) (hout : ∀ i, i ∉ ids → c.amount i = 0) :
    total c.components = ∑ i ∈ ids, f i := by
  rw [total_eq_sum c.sorted hout]
  exact Finset.sum_congr rfl hin

/-- **Counters neither lose nor repeat updates.**  In every run of any number of replicas the
    accounts are kept; and a replica that merged a last copy of every other one has the sum of all
    successful increments, less all decrements, or an overflow when a sum does not fit. -/
theorem counter_replicas (ids : Finset ReplicaId) :
    (∀ c, (gcounterReplicas ids).Reachable c →
      Kept ids GCounter.amount UInt64.toNat c ∧
      ∀ r ∈ ids, CaughtUp (gcounterReplicas ids) c r → (c.states r).value =
        if ∑ i ∈ ids, added UInt64.toNat (c.made i) ≤ U64_MAX then
          .ok (UInt64.ofNat (∑ i ∈ ids, added UInt64.toNat (c.made i)))
        else .error .valueOverflow) ∧
    ∀ c, (pncounterReplicas ids).Reachable c →
      Kept ids PNCounter.amount PNUpdate.weight c ∧
      ∀ r ∈ ids, CaughtUp (pncounterReplicas ids) c r → (c.states r).value =
        if ∑ i ∈ ids, (added PNUpdate.weight (c.made i)).1 ≤ U64_MAX ∧
            ∑ i ∈ ids, (added PNUpdate.weight (c.made i)).2 ≤ U64_MAX then
          .ok ((∑ i ∈ ids, (added PNUpdate.weight (c.made i)).1 : ℕ) -
            (∑ i ∈ ids, (added PNUpdate.weight (c.made i)).2 : ℕ) : Int)
        else .error .valueOverflow := by
  refine ⟨fun c hc => ?_, fun c hc => ?_⟩
  · have haccounts := hc.accounts (gcounterReplicas_adds ids)
    refine ⟨.of_accounts haccounts, fun r _ hr => ?_⟩
    have hin : ∀ i ∈ ids, (c.states r).amount i = added UInt64.toNat (c.made i) :=
      fun i hi => haccounts.complete hr hi
    have hout : ∀ i, i ∉ ids → (c.states r).amount i = 0 := by
      intro i hi
      have hle := haccounts.held i r
      rw [haccounts.outside i hi] at hle
      exact Nat.le_zero.mp hle
    rw [GCounter.value_eq, GCounter.total_of_amounts hin hout]
  · have haccounts := hc.accounts (pncounterReplicas_adds ids)
    refine ⟨.of_accounts haccounts, fun r _ hr => ?_⟩
    have hin : ∀ i ∈ ids, (c.states r).amount i = added PNUpdate.weight (c.made i) :=
      fun i hi => haccounts.complete hr hi
    have hout : ∀ i, i ∉ ids → (c.states r).amount i = 0 := by
      intro i hi
      have hle := haccounts.held i r
      rw [haccounts.outside i hi] at hle
      exact le_antisymm hle zero_le
    have hpos := GCounter.total_of_amounts (fun i hi => congrArg Prod.fst (hin i hi))
      fun i hi => congrArg Prod.fst (hout i hi)
    have hneg := GCounter.total_of_amounts (fun i hi => congrArg Prod.snd (hin i hi))
      fun i hi => congrArg Prod.snd (hout i hi)
    rw [PNCounter.value_eq, hpos, hneg]

/-- Two replicas increment; the second merges the copy of the first. -/
theorem counter_replicas_exchange : ∃ c : Config ReplicaId GCounter UInt64,
    (gcounterReplicas {⟨"a"⟩, ⟨"b"⟩}).Reachable c ∧ (c.states ⟨"b"⟩).value = .ok 5 := by
  have ha : (gcounterReplicas {⟨"a"⟩, ⟨"b"⟩}).member ⟨"a"⟩ := Finset.mem_insert_self _ _
  have hb : (gcounterReplicas {⟨"a"⟩, ⟨"b"⟩}).member ⟨"b"⟩ :=
    Finset.mem_insert_of_mem (Finset.mem_singleton_self _)
  have hfirst := Relation.ReflTransGen.refl.tail (System.Step.made (u := 2)
    (c := (gcounterReplicas {⟨"a"⟩, ⟨"b"⟩}).start) ha rfl)
  have hsecond := (hfirst.tail (.send ha)).tail (.made (u := 3) hb rfl)
  have hmerged := hsecond.tail (.receive hb List.mem_cons_self)
  refine ⟨_, hmerged, ?_⟩
  rw [((counter_replicas _).1 _ hmerged).2 ⟨"b"⟩ hb ?_]
  · decide
  · intro i hi
    rcases Finset.mem_insert.mp hi with rfl | hi
    · exact .inr ⟨_, List.mem_cons_self, rfl, rfl⟩
    · exact .inl (Finset.mem_singleton.mp hi)

end DeltaStream
