import DeltaStream.Basic
import DeltaStream.Lib.SortedMap
import Mathlib.Algebra.Ring.Int.Defs
import Mathlib.Data.Prod.Lex
import Mathlib.Data.String.Basic
import Mathlib.Order.Lattice.Nat
import Mathlib.Order.WithBot

/-!
# Counters and registers that merge

Model of `src/crdt`: grow-only and positive-negative counters as ordered maps of components, the
last-write-wins register, and their merges.

* `GCounter.level` — a component as merging sees it: absent lies below an explicit zero;
* `GCounter.level_merge` — merging takes the larger level of each component;
* `GCounter.merge_flag` — merging reports a change when a component of the other side is larger,
  absent counted as zero;
* `GCounter.value_eq` — the value is the sum of the components, or an overflow.
-/

set_option autoImplicit false

namespace DeltaStream

open SortedMap

/-- `deserialization` is without the error of `serde_json`, and nothing here serialises. -/
inductive CrdtError where
  | emptyReplicaId
  | counterOverflow
  | valueOverflow
  | encodedValueTooLarge (limit actual : Nat)
  | deserialization
  deriving DecidableEq

/-- Strings compare by code points, which is the order of their UTF-8 bytes.  (Deserialising does
    not check that the identifier is not empty.) -/
structure ReplicaId where
  value : String
  deriving DecidableEq

def ReplicaId.new (value : String) : Except CrdtError ReplicaId :=
  if value = "" then .error .emptyReplicaId else .ok ⟨value⟩

theorem ReplicaId.value_injective : Function.Injective ReplicaId.value := by
  rintro ⟨a⟩ ⟨b⟩ h
  cases h
  rfl

instance replicaIdOrder : LinearOrder ReplicaId :=
  LinearOrder.lift' ReplicaId.value ReplicaId.value_injective

/-- The trait: whether the state changed, and the state after the merge. -/
class Crdt (S : Type) where
  merge : S → S → Bool × S

/-- `a` after `a.merge(&b)`. -/
def merged {S : Type} [Crdt S] (a b : S) : S := (Crdt.merge a b).2

/-- `a` after merging states one by one. -/
def mergeAll {S : Type} [Crdt S] (a : S) (l : List S) : S := l.foldl merged a

/-- `u64::checked_add`. -/
def checkedAdd (a b : UInt64) : Option UInt64 :=
  if a.toNat + b.toNat ≤ U64_MAX then some (a + b) else none

theorem checkedAdd_eq_some {a b c : UInt64} (h : checkedAdd a b = some c) :
    c.toNat = a.toNat + b.toNat := by
  have hmax : U64_MAX = 2 ^ 64 - 1 := rfl
  unfold checkedAdd at h
  split at h
  · cases h
    rw [UInt64.toNat_add]
    omega
  · cases h

theorem checkedAdd_eq_none {a b : UInt64} (h : checkedAdd a b = none) :
    U64_MAX < a.toNat + b.toNat := by
  unfold checkedAdd at h
  split at h
  · cases h
  · omega

/-! ## Grow-only counters -/

/-- `components` is the B-tree map, as its entries in key order. -/
structure GCounter where
  components : List (ReplicaId × UInt64)
  sorted : Sorted components
  deriving DecidableEq

namespace GCounter

def new : GCounter := ⟨[], sorted_nil⟩

/-- `self.components.get(replica).copied().unwrap_or(0)`. -/
def component (c : GCounter) (replica : ReplicaId) : UInt64 := (get? c.components replica).getD 0

/-- `self.components.entry(replica.clone()).or_insert(0)`. -/
def entry (c : GCounter) (replica : ReplicaId) : GCounter :=
  ⟨orInsert c.components replica 0, orInsert_sorted c.sorted _ _⟩

/-- `*entry = amount`. -/
def set (c : GCounter) (replica : ReplicaId) (amount : UInt64) : GCounter :=
  ⟨insert c.components replica amount, insert_sorted c.sorted _ _⟩

def increment (c : GCounter) (replica : ReplicaId) (amount : UInt64) :
    Except CrdtError Unit × GCounter :=
  match checkedAdd ((c.entry replica).component replica) amount with
  | none => (.error .counterOverflow, c.entry replica)
  | some sum => (.ok (), (c.entry replica).set replica sum)

/-- `try_fold` over the components, from a running total. -/
def sumFrom (total : UInt64) : List (ReplicaId × UInt64) → Except CrdtError UInt64
  | [] => .ok total
  | e :: rest =>
    match checkedAdd total e.2 with
    | none => .error .valueOverflow
    | some total => sumFrom total rest

def value (c : GCounter) : Except CrdtError UInt64 := sumFrom 0 c.components

/-- The body of the loop of `merge`, with `changed`. -/
def mergeEntry (s : Bool × GCounter) (e : ReplicaId × UInt64) : Bool × GCounter :=
  if (s.2.entry e.1).component e.1 < e.2 then (true, (s.2.entry e.1).set e.1 e.2)
  else (s.1, s.2.entry e.1)

def merge (c other : GCounter) : Bool × GCounter := other.components.foldl mergeEntry (false, c)

/-! ### One component -/

theorem component_entry (c : GCounter) (replica k : ReplicaId) :
    (c.entry replica).component k = c.component k := by
  unfold component entry
  rw [get?_orInsert]
  split
  · rename_i hk
    subst hk
    rfl
  · rfl

theorem component_set (c : GCounter) (replica k : ReplicaId) (amount : UInt64) :
    (c.set replica amount).component k = if k = replica then amount else c.component k := by
  unfold component set
  rw [get?_insert]
  split <;> rfl

/-- **An increment** adds to one component, or fails and changes none. -/
theorem increment_cases (c : GCounter) (replica : ReplicaId) (amount : UInt64) :
    (∃ c', c.increment replica amount = (.ok (), c') ∧
        (c'.component replica).toNat = (c.component replica).toNat + amount.toNat ∧
        ∀ k, k ≠ replica → c'.component k = c.component k) ∨
      ∃ c', c.increment replica amount = (.error .counterOverflow, c') ∧
        U64_MAX < (c.component replica).toNat + amount.toNat ∧
        ∀ k, c'.component k = c.component k := by
  unfold increment
  cases hsum : checkedAdd ((c.entry replica).component replica) amount with
  | none =>
    have hover := checkedAdd_eq_none hsum
    rw [component_entry] at hover
    exact .inr ⟨_, rfl, hover, fun k => component_entry c replica k⟩
  | some sum =>
    have hadd := checkedAdd_eq_some hsum
    rw [component_entry] at hadd
    refine .inl ⟨_, rfl, ?_, fun k hk => ?_⟩
    · rw [component_set, if_pos rfl]
      exact hadd
    · rw [component_set, if_neg hk, component_entry]

/-! ### Levels -/

/-- A component as merging sees it, in a list of entries. -/
def levelIn (es : List (ReplicaId × UInt64)) (k : ReplicaId) : WithBot ℕ :=
  match get? es k with
  | none => ⊥
  | some v => WithBot.some v.toNat

def level (c : GCounter) (k : ReplicaId) : WithBot ℕ := levelIn c.components k

theorem levelIn_eq_none {es : List (ReplicaId × UInt64)} {k : ReplicaId} (h : get? es k = none) :
    levelIn es k = ⊥ := by
  simp [levelIn, h]

theorem levelIn_eq_some {es : List (ReplicaId × UInt64)} {k : ReplicaId} {v : UInt64}
    (h : get? es k = some v) : levelIn es k = WithBot.some v.toNat := by
  simp [levelIn, h]

theorem levelIn_congr {es fs : List (ReplicaId × UInt64)} {k : ReplicaId}
    (h : get? es k = get? fs k) : levelIn es k = levelIn fs k := by
  simp only [levelIn, h]

/-- A component is its level, or zero where there is none. -/
theorem level_cases (c : GCounter) (k : ReplicaId) :
    (c.level k = ⊥ ∧ c.component k = 0) ∨
      c.level k = WithBot.some (c.component k).toNat := by
  unfold level component
  cases h : get? c.components k with
  | none => exact .inl ⟨levelIn_eq_none h, rfl⟩
  | some v => exact .inr (levelIn_eq_some h)

/-- The levels determine the counter, explicit zeros included. -/
theorem level_injective : Function.Injective level := by
  rintro ⟨xs, hxs⟩ ⟨ys, hys⟩ h
  have hget : ∀ k, get? xs k = get? ys k := by
    intro k
    have hk : levelIn xs k = levelIn ys k := congrFun h k
    cases ha : get? xs k with
    | none =>
      cases hb : get? ys k with
      | none => rfl
      | some v =>
        rw [levelIn_eq_none ha, levelIn_eq_some hb] at hk
        exact absurd hk.symm WithBot.coe_ne_bot
    | some v =>
      cases hb : get? ys k with
      | none =>
        rw [levelIn_eq_some ha, levelIn_eq_none hb] at hk
        exact absurd hk WithBot.coe_ne_bot
      | some w =>
        rw [levelIn_eq_some ha, levelIn_eq_some hb] at hk
        rw [UInt64.toNat_inj.mp (WithBot.coe_injective hk)]
  have heq : xs = ys := SortedMap.ext hxs hys hget
  subst heq
  rfl

theorem level_entry (c : GCounter) (replica k : ReplicaId) :
    (c.entry replica).level k =
      if k = replica then WithBot.some (c.component replica).toNat else c.level k := by
  have hget := get?_orInsert c.components replica 0 k
  split
  · rename_i hk
    subst hk
    rw [if_pos rfl] at hget
    exact levelIn_eq_some hget
  · rename_i hk
    rw [if_neg hk] at hget
    exact levelIn_congr hget

theorem level_set (c : GCounter) (replica k : ReplicaId) (amount : UInt64) :
    (c.set replica amount).level k =
      if k = replica then WithBot.some amount.toNat else c.level k := by
  have hget := get?_insert c.components replica amount k
  split
  · rename_i hk
    subst hk
    rw [if_pos rfl] at hget
    exact levelIn_eq_some hget
  · rename_i hk
    rw [if_neg hk] at hget
    exact levelIn_congr hget

/-! ### Merging -/

/-- One entry of the other side raises one level. -/
theorem level_mergeEntry (s : Bool × GCounter) (e : ReplicaId × UInt64) (k : ReplicaId) :
    (mergeEntry s e).2.level k =
      if k = e.1 then s.2.level k ⊔ WithBot.some e.2.toNat else s.2.level k := by
  unfold mergeEntry
  rw [component_entry]
  split
  · rename_i hlt
    rw [level_set, level_entry]
    split
    · rename_i hk
      subst hk
      have hlt := UInt64.lt_iff_toNat_lt.mp hlt
      rcases s.2.level_cases e.1 with ⟨hbot, -⟩ | hlevel
      · rw [hbot, bot_sup_eq]
      · rw [hlevel, sup_eq_right.mpr (WithBot.coe_le_coe.mpr (Nat.le_of_lt hlt))]
    · rfl
  · rename_i hge
    rw [level_entry]
    split
    · rename_i hk
      subst hk
      have hge := UInt64.le_iff_toNat_le.mp (UInt64.not_lt.mp hge)
      rcases s.2.level_cases e.1 with ⟨hbot, hzero⟩ | hlevel
      · -- an entry that was absent becomes an explicit zero
        rw [hzero] at hge ⊢
        have hremote : e.2.toNat = 0 := Nat.le_zero.mp hge
        rw [hbot, bot_sup_eq, hremote]
        rfl
      · rw [hlevel, sup_eq_left.mpr (WithBot.coe_le_coe.mpr hge)]
    · rfl

theorem level_foldl : ∀ {es : List (ReplicaId × UInt64)}, Sorted es → ∀ (s : Bool × GCounter)
    (k : ReplicaId), (es.foldl mergeEntry s).2.level k = s.2.level k ⊔ levelIn es k
  | [], _, s, k => (sup_bot_eq _).symm
  | e :: es, hs, s, k => by
    obtain ⟨hlt, hrest⟩ := sorted_cons.mp hs
    rw [List.foldl_cons, level_foldl hrest, level_mergeEntry]
    split
    · rename_i hk
      subst hk
      have hnone : get? es e.1 = none := get?_none_of_lt hlt
      have hsome : get? (e :: es) e.1 = some e.2 := if_pos rfl
      rw [levelIn_eq_none hnone, levelIn_eq_some hsome, sup_bot_eq]
    · rename_i hk
      have hsame : get? (e :: es) k = get? es k := if_neg hk
      rw [levelIn_congr hsame]

/-- **Merging** takes the larger level of each component. -/
theorem level_merge (c other : GCounter) (k : ReplicaId) :
    (c.merge other).2.level k = c.level k ⊔ other.level k :=
  level_foldl other.sorted (false, c) k

theorem component_mergeEntry {s : Bool × GCounter} {e : ReplicaId × UInt64} {k : ReplicaId}
    (hk : k ≠ e.1) : (mergeEntry s e).2.component k = s.2.component k := by
  unfold mergeEntry
  split
  · rw [component_set, if_neg hk, component_entry]
  · exact component_entry _ _ _

/-- A component of the other side is larger. -/
def Exceeded (c : GCounter) (es : List (ReplicaId × UInt64)) : Prop :=
  ∃ e ∈ es, c.component e.1 < e.2

instance decidableExceeded (c : GCounter) (es : List (ReplicaId × UInt64)) :
    Decidable (c.Exceeded es) :=
  inferInstanceAs (Decidable (∃ e ∈ es, _))

theorem foldl_flag : ∀ {es : List (ReplicaId × UInt64)}, Sorted es → ∀ (s : Bool × GCounter),
    (es.foldl mergeEntry s).1 = true ↔ s.1 = true ∨ s.2.Exceeded es
  | [], _, s => by simp [Exceeded]
  | e :: es, hs, s => by
    obtain ⟨hlt, hrest⟩ := sorted_cons.mp hs
    rw [List.foldl_cons, foldl_flag hrest]
    -- the entries behind `e` have other keys
    have htail : (mergeEntry s e).2.Exceeded es ↔ s.2.Exceeded es := by
      unfold Exceeded
      constructor
      · rintro ⟨e', he', hless⟩
        rw [component_mergeEntry (ne_of_gt (hlt e' he'))] at hless
        exact ⟨e', he', hless⟩
      · rintro ⟨e', he', hless⟩
        rw [← component_mergeEntry (s := s) (e := e) (ne_of_gt (hlt e' he'))] at hless
        exact ⟨e', he', hless⟩
    have hhead : (mergeEntry s e).1 = true ↔ s.1 = true ∨ s.2.component e.1 < e.2 := by
      unfold mergeEntry
      rw [component_entry]
      split
      · rename_i hless
        exact ⟨fun _ => .inr hless, fun _ => rfl⟩
      · rename_i hge
        simp [hge]
    rw [hhead, htail, or_assoc]
    simp [Exceeded]

/-- **The flag** of a merge. -/
theorem merge_flag (c other : GCounter) :
    (c.merge other).1 = true ↔ c.Exceeded other.components := by
  unfold merge
  rw [foldl_flag other.sorted]
  simp

/-! ### The value -/

def total (es : List (ReplicaId × UInt64)) : Nat := (es.map fun e => e.2.toNat).sum

theorem sumFrom_eq : ∀ (es : List (ReplicaId × UInt64)) (start : UInt64), sumFrom start es =
    if start.toNat + total es ≤ U64_MAX then .ok (UInt64.ofNat (start.toNat + total es))
    else .error .valueOverflow
  | [], start => by
    have hle := toNat_le_max start
    simp [sumFrom, total, hle]
  | e :: es, start => by
    have htotal : total (e :: es) = e.2.toNat + total es := by simp [total]
    unfold sumFrom
    cases hsum : checkedAdd start e.2 with
    | none =>
      have hover := checkedAdd_eq_none hsum
      rw [htotal, if_neg (by omega)]
    | some next =>
      have hadd := checkedAdd_eq_some hsum
      simp only
      rw [sumFrom_eq es next, htotal, hadd, Nat.add_assoc]

/-- **The value** is the sum of the components, if it fits. -/
theorem value_eq (c : GCounter) : c.value =
    if total c.components ≤ U64_MAX then .ok (UInt64.ofNat (total c.components))
    else .error .valueOverflow := by
  unfold value
  rw [sumFrom_eq]
  simp

end GCounter

instance gcounterCrdt : Crdt GCounter := ⟨GCounter.merge⟩

/-! ## Positive-negative counters -/

structure PNCounter where
  positive : GCounter
  negative : GCounter
  deriving DecidableEq

namespace PNCounter

def new : PNCounter := ⟨.new, .new⟩

def increment (c : PNCounter) (replica : ReplicaId) (amount : UInt64) :
    Except CrdtError Unit × PNCounter :=
  ((c.positive.increment replica amount).1,
    { c with positive := (c.positive.increment replica amount).2 })

def decrement (c : PNCounter) (replica : ReplicaId) (amount : UInt64) :
    Except CrdtError Unit × PNCounter :=
  ((c.negative.increment replica amount).1,
    { c with negative := (c.negative.increment replica amount).2 })

/-- `i128::checked_sub`. -/
def checkedSub (a b : Int) : Option Int :=
  if -2 ^ 127 ≤ a - b ∧ a - b < 2 ^ 127 then some (a - b) else none

def value (c : PNCounter) : Except CrdtError Int := do
  let positive ← c.positive.value
  let negative ← c.negative.value
  match checkedSub positive.toNat negative.toNat with
  | none => .error .valueOverflow
  | some value => pure value

def merge (c other : PNCounter) : Bool × PNCounter :=
  let positive := c.positive.merge other.positive
  let negative := c.negative.merge other.negative
  (positive.1 || negative.1, ⟨positive.2, negative.2⟩)

/-- **The value** is the difference of the sums, if both fit. -/
theorem value_eq (c : PNCounter) : c.value =
    if GCounter.total c.positive.components ≤ U64_MAX ∧
        GCounter.total c.negative.components ≤ U64_MAX then
      .ok ((GCounter.total c.positive.components : Int) - GCounter.total c.negative.components)
    else .error .valueOverflow := by
  have hmax : U64_MAX = 2 ^ 64 - 1 := rfl
  unfold value
  rw [GCounter.value_eq, GCounter.value_eq]
  by_cases hpos : GCounter.total c.positive.components ≤ U64_MAX
  · by_cases hneg : GCounter.total c.negative.components ≤ U64_MAX
    · have hp : (UInt64.ofNat (GCounter.total c.positive.components)).toNat =
          GCounter.total c.positive.components := by
        rw [UInt64.toNat_ofNat']
        omega
      have hn : (UInt64.ofNat (GCounter.total c.negative.components)).toNat =
          GCounter.total c.negative.components := by
        rw [UInt64.toNat_ofNat']
        omega
      -- two sums of 64 bits never overflow the difference
      have hsub : checkedSub (GCounter.total c.positive.components)
          (GCounter.total c.negative.components) =
            some ((GCounter.total c.positive.components : Int) -
              GCounter.total c.negative.components) := if_pos (by omega)
      rw [if_pos hpos, if_pos hneg, if_pos ⟨hpos, hneg⟩]
      simp only [bind, Except.bind, hp, hn, hsub]
      rfl
    · have hnot : ¬(GCounter.total c.positive.components ≤ U64_MAX ∧
          GCounter.total c.negative.components ≤ U64_MAX) := fun h => hneg h.2
      rw [if_neg hnot, if_pos hpos, if_neg hneg]
      rfl
  · have hnot : ¬(GCounter.total c.positive.components ≤ U64_MAX ∧
        GCounter.total c.negative.components ≤ U64_MAX) := fun h => hpos h.1
    rw [if_neg hnot, if_neg hpos]
    rfl

end PNCounter

instance pncounterCrdt : Crdt PNCounter := ⟨PNCounter.merge⟩

/-! ## Last-write-wins registers -/

structure LwwRegister (T : Type) where
  value : T
  timestamp : UInt64
  replica : ReplicaId
  deriving DecidableEq

namespace LwwRegister

variable {T : Type}

def new (value : T) (timestamp : UInt64) (replica : ReplicaId) : LwwRegister T :=
  ⟨value, timestamp, replica⟩

/-- `(timestamp, &replica)`, in the order of tuples. -/
def stamp (r : LwwRegister T) : UInt64 ×ₗ ReplicaId := toLex (r.timestamp, r.replica)

def assign (r : LwwRegister T) (value : T) (timestamp : UInt64) (replica : ReplicaId) :
    Bool × LwwRegister T :=
  if r.stamp < toLex (timestamp, replica) then (true, ⟨value, timestamp, replica⟩)
  else (false, r)

def merge (r other : LwwRegister T) : Bool × LwwRegister T :=
  r.assign other.value other.timestamp other.replica

theorem merge_eq (r other : LwwRegister T) :
    r.merge other = if r.stamp < other.stamp then (true, other) else (false, r) := rfl

end LwwRegister

instance lwwRegisterCrdt (T : Type) : Crdt (LwwRegister T) := ⟨LwwRegister.merge⟩

end DeltaStream
