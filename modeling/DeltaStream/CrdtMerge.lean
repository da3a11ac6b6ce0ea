import DeltaStream.Crdt
import DeltaStream.Lib.FirstMin
import DeltaStream.Lib.Gossip

/-!
# The laws of merging

What the trait asks of `merge`, and when the counters and the register satisfy it.

* `counter_merge_set` — merging counters one by one depends only on the set of the counters
  merged, explicit zeros included;
* `lww_lawful_iff` — registers merge in either order to one register unless two of them carry
  one stamp and different values;
* `merge_flag_iff` — a merge reports a change exactly when it made one, but for explicit zeros.
-/

set_option autoImplicit false

namespace DeltaStream

/-- The laws in the trait's documentation. -/
structure Lawful (S : Type) [Crdt S] : Prop where
  commutative : ∀ a b : S, merged a b = merged b a
  associative : ∀ a b c : S, merged (merged a b) c = merged a (merged b c)
  idempotent : ∀ a : S, merged a a = a

theorem Lawful.of_joins {S κ ν : Type} [Crdt S] [SemilatticeSup ν] {view : S → κ → ν}
    (hjoin : Gossip.Joins view merged) (hinj : Function.Injective view) : Lawful S where
  commutative := Gossip.merge_comm hjoin hinj
  associative := Gossip.merge_assoc hjoin hinj
  idempotent := Gossip.merge_self hjoin hinj

/-! ## Counters -/

theorem GCounter.joins_level : Gossip.Joins GCounter.level merged := GCounter.level_merge

/-- The levels of both sides. -/
def PNCounter.level (c : PNCounter) (k : ReplicaId) : WithBot ℕ × WithBot ℕ :=
  (c.positive.level k, c.negative.level k)

theorem PNCounter.level_injective : Function.Injective PNCounter.level := by
  rintro ⟨p, n⟩ ⟨p', n'⟩ h
  have hk := fun k => Prod.ext_iff.mp (congrFun h k)
  have hp : p = p' := GCounter.level_injective (funext fun k => (hk k).1)
  have hn : n = n' := GCounter.level_injective (funext fun k => (hk k).2)
  rw [hp, hn]

theorem PNCounter.joins_level : Gossip.Joins PNCounter.level merged :=
  fun a b k => Prod.ext (GCounter.level_merge a.positive b.positive k)
    (GCounter.level_merge a.negative b.negative k)

/-- **Merging counters** depends only on the set of the counters merged, whatever their order and
    repetitions; so the counters satisfy the laws. -/
theorem counter_merge_set :
    (∀ (a : GCounter) (l l' : List GCounter), (∀ s, s ∈ l ↔ s ∈ l') →
      mergeAll a l = mergeAll a l') ∧
    (∀ (a : PNCounter) (l l' : List PNCounter), (∀ s, s ∈ l ↔ s ∈ l') →
      mergeAll a l = mergeAll a l') ∧
    Lawful GCounter ∧ Lawful PNCounter := by
  refine ⟨fun a l l' h => ?_, fun a l l' h => ?_, ?_, ?_⟩
  · exact Gossip.mergeAll_congr GCounter.joins_level GCounter.level_injective h a
  · exact Gossip.mergeAll_congr PNCounter.joins_level PNCounter.level_injective h a
  · exact .of_joins GCounter.joins_level GCounter.level_injective
  · exact .of_joins PNCounter.joins_level PNCounter.level_injective

/-! ## The register -/

namespace LwwRegister

variable {T : Type}

theorem merged_of_lt {a b : LwwRegister T} (h : a.stamp < b.stamp) : merged a b = b :=
  congrArg Prod.snd ((merge_eq a b).trans (if_pos h))

theorem merged_of_le {a b : LwwRegister T} (h : b.stamp ≤ a.stamp) : merged a b = a :=
  congrArg Prod.snd ((merge_eq a b).trans (if_neg (not_lt.mpr h)))

theorem merged_self (a : LwwRegister T) : merged a a = a := merged_of_le (le_refl _)

/-- Equal stamps and equal values are equal registers. -/
theorem eq_of_stamp {a b : LwwRegister T} (hstamp : a.stamp = b.stamp)
    (hvalue : a.value = b.value) : a = b := by
  cases a
  cases b
  cases hstamp
  cases hvalue
  rfl

theorem merged_comm_iff (a b : LwwRegister T) :
    merged a b = merged b a ↔ (a.stamp = b.stamp → a.value = b.value) := by
  rcases lt_trichotomy a.stamp b.stamp with hlt | heq | hlt
  · rw [merged_of_lt hlt, merged_of_le (le_of_lt hlt)]
    exact ⟨fun _ heq => absurd heq (ne_of_lt hlt), fun _ => rfl⟩
  · -- each side keeps its own register
    rw [merged_of_le (le_of_eq heq.symm), merged_of_le (le_of_eq heq)]
    exact ⟨fun h _ => congrArg value h, fun h => eq_of_stamp heq (h heq)⟩
  · rw [merged_of_le (le_of_lt hlt), merged_of_lt hlt]
    exact ⟨fun _ heq => absurd heq (ne_of_gt hlt), fun _ => rfl⟩

theorem merged_assoc (a b c : LwwRegister T) :
    merged (merged a b) c = merged a (merged b c) := by
  rcases lt_or_ge a.stamp b.stamp with hab | hab
  · rcases lt_or_ge b.stamp c.stamp with hbc | hbc
    · rw [merged_of_lt hab, merged_of_lt hbc, merged_of_lt (lt_trans hab hbc)]
    · rw [merged_of_lt hab, merged_of_le hbc, merged_of_lt hab]
  · rcases lt_or_ge b.stamp c.stamp with hbc | hbc
    · rw [merged_of_le hab, merged_of_lt hbc]
    · rw [merged_of_le hab, merged_of_le hbc, merged_of_le (le_trans hbc hab), merged_of_le hab]

/-- Merging one by one keeps the first register with the greatest stamp. -/
theorem mergeAll_eq_pick : ∀ (a : LwwRegister T) (l : List (LwwRegister T)),
    mergeAll a l = FirstMin.pick (fun r => OrderDual.toDual r.stamp) a l
  | _, [] => rfl
  | a, b :: l => by
    unfold FirstMin.pick
    split
    · rename_i hlt
      have hb : merged a b = b := merged_of_lt (OrderDual.toDual_lt_toDual.mp hlt)
      rw [← mergeAll_eq_pick b l]
      unfold mergeAll
      rw [List.foldl_cons, hb]
    · rename_i hge
      have hle : b.stamp ≤ a.stamp := not_lt.mp fun h => hge (OrderDual.toDual_lt_toDual.mpr h)
      rw [← mergeAll_eq_pick a l]
      unfold mergeAll
      rw [List.foldl_cons, merged_of_le hle]

/-- No register of `rs` has a greater stamp. -/
def Greatest (rs : List (LwwRegister T)) (r : LwwRegister T) : Prop :=
  r ∈ rs ∧ ∀ s ∈ rs, s.stamp ≤ r.stamp

theorem mergeAll_greatest {rs l : List (LwwRegister T)} {a : LwwRegister T}
    (h : ∀ r, r ∈ a :: l ↔ r ∈ rs) : Greatest rs (mergeAll a l) := by
  have hpick := FirstMin.pick_isFirstMin (fun r => OrderDual.toDual r.stamp) a l
  rw [← mergeAll_eq_pick] at hpick
  exact ⟨(h _).mp hpick.mem, fun s hs => OrderDual.toDual_le_toDual.mp (hpick.le ((h s).mpr hs))⟩

theorem mergeAll_of_greatest {rs : List (LwwRegister T)} {r : LwwRegister T}
    (h : Greatest rs r) : mergeAll r rs = r := by
  obtain ⟨-, hle⟩ := h
  induction rs with
  | nil => rfl
  | cons s rs ih =>
    obtain ⟨hs, hrest⟩ := List.forall_mem_cons.mp hle
    unfold mergeAll at ih ⊢
    rw [List.foldl_cons, merged_of_le hs]
    exact ih hrest

end LwwRegister

open LwwRegister in
/-- **The register's laws.**  Merging is associative and idempotent; two registers merge to one in
    either order exactly when they do not carry one stamp and different values; and replicas that
    heard the same registers, each starting from one of them, hold one value exactly when those
    with the greatest stamp carry one. -/
theorem lww_lawful_iff (T : Type) :
    (∀ a b c : LwwRegister T, merged (merged a b) c = merged a (merged b c)) ∧
    (∀ a : LwwRegister T, merged a a = a) ∧
    (∀ a b : LwwRegister T,
      merged a b = merged b a ↔ (a.stamp = b.stamp → a.value = b.value)) ∧
    ∀ rs : List (LwwRegister T),
      (∀ a l b l', (∀ r, r ∈ a :: l ↔ r ∈ rs) → (∀ r, r ∈ b :: l' ↔ r ∈ rs) →
        (mergeAll a l).value = (mergeAll b l').value) ↔
      ∀ r s, Greatest rs r → Greatest rs s → r.value = s.value := by
  refine ⟨merged_assoc, merged_self, merged_comm_iff, fun rs => ⟨fun h r s hr hs => ?_, ?_⟩⟩
  · -- start from either of the two and hear everything
    have hsame : ∀ {r}, Greatest rs r → ∀ q, q ∈ r :: rs ↔ q ∈ rs := fun hr q =>
      ⟨fun hq => (List.mem_cons.mp hq).elim (fun heq => heq ▸ hr.1) id, List.mem_cons_of_mem _⟩
    have hvalue := h r rs s rs (hsame hr) (hsame hs)
    rwa [mergeAll_of_greatest hr, mergeAll_of_greatest hs] at hvalue
  · intro h a l b l' hl hl'
    exact h _ _ (mergeAll_greatest hl) (mergeAll_greatest hl')

/-- Two registers of one replica and one timestamp: each side keeps its own value. -/
theorem lww_merge_order : ¬∀ a b : LwwRegister Bool, merged a b = merged b a :=
  fun h => absurd (h (.new false 1 ⟨"a"⟩) (.new true 1 ⟨"a"⟩)) (by decide)

/-! ## The flag -/

/-- Every entry has a component in `c`, maybe an explicit zero. -/
def GCounter.Covers (c : GCounter) (es : List (ReplicaId × UInt64)) : Prop :=
  ∀ e ∈ es, SortedMap.contains c.components e.1 = true

theorem GCounter.merge_eq_self_iff (a b : GCounter) :
    merged a b = a ↔ ¬a.Exceeded b.components ∧ a.Covers b.components := by
  have hlevels : merged a b = a ↔ ∀ k, b.level k ≤ a.level k := by
    constructor
    · intro h k
      have hk := GCounter.joins_level a b k
      rw [h] at hk
      exact sup_eq_left.mp hk.symm
    · intro h
      refine GCounter.level_injective (funext fun k => ?_)
      rw [GCounter.joins_level]
      exact sup_eq_left.mpr (h k)
  rw [hlevels]
  constructor
  · intro h
    -- an entry of `b` has a level, so `a` has one there that is no smaller
    have hentry : ∀ e ∈ b.components, ∃ v, SortedMap.get? a.components e.1 = some v ∧ e.2 ≤ v := by
      intro e he
      have hk := h e.1
      unfold GCounter.level at hk
      rw [GCounter.levelIn_eq_some (SortedMap.get?_of_mem b.sorted he)] at hk
      cases ha : SortedMap.get? a.components e.1 with
      | none =>
        rw [GCounter.levelIn_eq_none ha] at hk
        exact absurd hk (WithBot.not_coe_le_bot _)
      | some v =>
        rw [GCounter.levelIn_eq_some ha] at hk
        exact ⟨v, rfl, UInt64.le_iff_toNat_le.mpr (WithBot.coe_le_coe.mp hk)⟩
    refine ⟨?_, fun e he => ?_⟩
    · rintro ⟨e, he, hlt⟩
      obtain ⟨v, hv, hle⟩ := hentry e he
      unfold GCounter.component at hlt
      rw [hv] at hlt
      exact absurd hlt (not_lt.mpr hle)
    · obtain ⟨v, hv, -⟩ := hentry e he
      simp [SortedMap.contains, hv]
  · rintro ⟨hnot, hcovers⟩ k
    unfold GCounter.level
    cases hb : SortedMap.get? b.components k with
    | none =>
      rw [GCounter.levelIn_eq_none hb]
      exact bot_le
    | some w =>
      have he := SortedMap.get?_mem hb
      obtain ⟨v, hv⟩ := Option.isSome_iff_exists.mp (hcovers _ he)
      have hle : w ≤ v := by
        refine not_lt.mp fun hlt => hnot ⟨_, he, ?_⟩
        unfold GCounter.component
        rw [hv]
        exact hlt
      rw [GCounter.levelIn_eq_some hb, GCounter.levelIn_eq_some hv]
      exact WithBot.coe_le_coe.mpr (UInt64.le_iff_toNat_le.mp hle)

theorem PNCounter.merge_eq_self_iff (a b : PNCounter) :
    merged a b = a ↔ merged a.positive b.positive = a.positive ∧
      merged a.negative b.negative = a.negative := by
  cases a
  exact iff_of_eq (PNCounter.mk.injEq ..)

theorem LwwRegister.merge_flag {T : Type} (a b : LwwRegister T) :
    (Crdt.merge a b).1 = true ↔ merged a b ≠ a := by
  rcases lt_or_ge a.stamp b.stamp with hlt | hle
  · have hflag : (Crdt.merge a b).1 = true := congrArg Prod.fst ((merge_eq a b).trans (if_pos hlt))
    rw [merged_of_lt hlt]
    exact ⟨fun _ heq => absurd (congrArg stamp heq) (ne_of_gt hlt), fun _ => hflag⟩
  · have hflag : (Crdt.merge a b).1 = false :=
      congrArg Prod.fst ((merge_eq a b).trans (if_neg (not_lt.mpr hle)))
    rw [merged_of_le hle, hflag]
    exact ⟨fun h => absurd h Bool.false_ne_true, fun h => absurd rfl h⟩

/-- **The flag of a merge** tells whether the state changed: for counters exactly when a component
    of the other side is larger, or none of them is new to this side; for registers always. -/
theorem merge_flag_iff (T : Type) :
    (∀ a b : GCounter, ((Crdt.merge a b).1 = true ↔ merged a b ≠ a) ↔
      a.Exceeded b.components ∨ a.Covers b.components) ∧
    (∀ a b : PNCounter, ((Crdt.merge a b).1 = true ↔ merged a b ≠ a) ↔
      a.positive.Exceeded b.positive.components ∨ a.negative.Exceeded b.negative.components ∨
        a.positive.Covers b.positive.components ∧ a.negative.Covers b.negative.components) ∧
    ∀ a b : LwwRegister T, (Crdt.merge a b).1 = true ↔ merged a b ≠ a := by
  refine ⟨fun a b => ?_, fun a b => ?_, LwwRegister.merge_flag⟩
  · have hflag : (Crdt.merge a b).1 = true ↔ a.Exceeded b.components := GCounter.merge_flag a b
    rw [hflag, Ne, GCounter.merge_eq_self_iff]
    tauto
  · have hflag : (Crdt.merge a b).1 = true ↔ a.positive.Exceeded b.positive.components ∨
        a.negative.Exceeded b.negative.components := by
      rw [← GCounter.merge_flag, ← GCounter.merge_flag]
      exact Bool.or_eq_true_iff
    rw [hflag, Ne, PNCounter.merge_eq_self_iff, GCounter.merge_eq_self_iff,
      GCounter.merge_eq_self_iff]
    tauto

/-- Incrementing by zero makes an entry that another replica takes over without noticing. -/
theorem merge_flag_zero_increment :
    ¬((Crdt.merge GCounter.new (GCounter.new.increment ⟨"a"⟩ 0).2).1 = true ↔
      merged GCounter.new (GCounter.new.increment ⟨"a"⟩ 0).2 ≠ GCounter.new) := by
  decide

end DeltaStream
