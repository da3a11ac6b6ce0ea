import Mathlib.Order.Lattice

/-!
# Maps as lists of entries in key order

An ordered map (a B-tree map, say) is the list of its entries by strictly increasing key.

* `ext` — two such lists with the same lookups are equal;
* `get?_insert`, `get?_orInsert`, `get?_erase` and the folds `get?_insertAll`, `get?_eraseAll`.
-/

set_option autoImplicit false

namespace SortedMap

variable {κ ν : Type} [LinearOrder κ]

/-- Entries by strictly increasing key. -/
def Sorted (m : List (κ × ν)) : Prop := m.Pairwise fun a b => a.1 < b.1

/-- The value of a key. -/
def get? (m : List (κ × ν)) (k : κ) : Option ν :=
  match m with
  | [] => none
  | (k', v) :: rest => if k = k' then some v else get? rest k

def contains (m : List (κ × ν)) (k : κ) : Bool := (get? m k).isSome

def insert (m : List (κ × ν)) (k : κ) (v : ν) : List (κ × ν) :=
  match m with
  | [] => [(k, v)]
  | (k', v') :: rest =>
    if k < k' then (k, v) :: (k', v') :: rest
    else if k = k' then (k, v) :: rest
    else (k', v') :: insert rest k v

/-- Keep what is there. -/
def orInsert (m : List (κ × ν)) (k : κ) (v : ν) : List (κ × ν) :=
  if contains m k then m else insert m k v

def erase (m : List (κ × ν)) (k : κ) : List (κ × ν) := m.filter fun e => decide (e.1 ≠ k)

def insertAll (m es : List (κ × ν)) : List (κ × ν) := es.foldl (fun m e => insert m e.1 e.2) m

def eraseAll (m : List (κ × ν)) (ks : List κ) : List (κ × ν) := ks.foldl erase m

theorem sorted_cons {k : κ} {v : ν} {m : List (κ × ν)} :
    Sorted ((k, v) :: m) ↔ (∀ e ∈ m, k < e.1) ∧ Sorted m :=
  List.pairwise_cons

theorem sorted_nil : Sorted ([] : List (κ × ν)) := List.Pairwise.nil

/-! ## Lookup -/

theorem get?_cons (k : κ) (v : ν) (m : List (κ × ν)) (q : κ) :
    get? ((k, v) :: m) q = if q = k then some v else get? m q := rfl

theorem get?_mem {m : List (κ × ν)} {k : κ} {v : ν} (h : get? m k = some v) : (k, v) ∈ m := by
  induction m with
  | nil => cases h
  | cons e rest ih =>
    obtain ⟨k', v'⟩ := e
    unfold get? at h
    split at h
    · rename_i hk
      cases h
      rw [hk]
      exact List.mem_cons_self
    · exact List.mem_cons_of_mem _ (ih h)

theorem get?_of_mem {m : List (κ × ν)} (hs : Sorted m) {k : κ} {v : ν} (h : (k, v) ∈ m) :
    get? m k = some v := by
  induction m with
  | nil => cases h
  | cons e rest ih =>
    obtain ⟨k', v'⟩ := e
    obtain ⟨hlt, hrest⟩ := sorted_cons.mp hs
    unfold get?
    rcases List.mem_cons.mp h with heq | hm
    · cases heq
      exact if_pos rfl
    · rw [if_neg (ne_of_gt (hlt _ hm))]
      exact ih hrest hm

theorem get?_isSome {m : List (κ × ν)} {k : κ} :
    (get? m k).isSome = true ↔ k ∈ m.map Prod.fst := by
  induction m with
  | nil => simp [get?]
  | cons e rest ih =>
    obtain ⟨k', v'⟩ := e
    unfold get?
    split
    · rename_i hk
      simp [hk]
    · rename_i hk
      rw [ih, List.map_cons, List.mem_cons]
      simp [hk]

/-- Nothing below the first key. -/
theorem get?_none_of_lt {m : List (κ × ν)} {k : κ} (h : ∀ e ∈ m, k < e.1) : get? m k = none := by
  cases hg : get? m k with
  | none => rfl
  | some v => exact absurd (h _ (get?_mem hg)) (lt_irrefl k)

/-- **Extensionality**: lookups determine the map. -/
theorem ext {m m' : List (κ × ν)} (hs : Sorted m) (hs' : Sorted m')
    (h : ∀ k, get? m k = get? m' k) : m = m' := by
  induction m generalizing m' with
  | nil =>
    cases m' with
    | nil => rfl
    | cons e rest =>
      have := h e.1
      rw [get?_of_mem hs' List.mem_cons_self] at this
      cases this
  | cons e rest ih =>
    cases m' with
    | nil =>
      have := h e.1
      rw [get?_of_mem hs List.mem_cons_self] at this
      cases this
    | cons e' rest' =>
      obtain ⟨k, v⟩ := e
      obtain ⟨k', v'⟩ := e'
      obtain ⟨hlt, hrest⟩ := sorted_cons.mp hs
      obtain ⟨hlt', hrest'⟩ := sorted_cons.mp hs'
      have hk : k = k' := by
        rcases lt_trichotomy k k' with hlt1 | heq | hgt
        · -- the smaller key is missing on the other side
          have hnone : get? ((k', v') :: rest') k = none := by
            refine get?_none_of_lt fun e he => ?_
            rcases List.mem_cons.mp he with rfl | he
            · exact hlt1
            · exact lt_trans hlt1 (hlt' e he)
          rw [← h k, get?_of_mem hs List.mem_cons_self] at hnone
          cases hnone
        · exact heq
        · have hnone : get? ((k, v) :: rest) k' = none := by
            refine get?_none_of_lt fun e he => ?_
            rcases List.mem_cons.mp he with rfl | he
            · exact hgt
            · exact lt_trans hgt (hlt e he)
          rw [h k', get?_of_mem hs' List.mem_cons_self] at hnone
          cases hnone
      subst hk
      have hv := h k
      rw [get?_of_mem hs List.mem_cons_self, get?_of_mem hs' List.mem_cons_self] at hv
      cases hv
      rw [ih hrest hrest' fun q => ?_]
      by_cases hq : q = k
      · rw [hq, get?_none_of_lt hlt, get?_none_of_lt hlt']
      · have hq' := h q
        unfold get? at hq'
        rwa [if_neg hq, if_neg hq] at hq'

/-! ## Insertion -/

theorem get?_insert (m : List (κ × ν)) (k : κ) (v : ν) (q : κ) :
    get? (insert m k v) q = if q = k then some v else get? m q := by
  induction m with
  | nil => rfl
  | cons e rest ih =>
    obtain ⟨k', v'⟩ := e
    unfold insert
    split
    · rfl
    split
    · rename_i hk
      subst hk
      unfold get?
      split <;> rfl
    · rename_i hk
      unfold get?
      rw [ih]
      split
      · rename_i hq
        rw [if_neg]
        rw [hq]
        exact fun h => hk h.symm
      · rfl

theorem mem_insert {m : List (κ × ν)} {k : κ} {v : ν} {e : κ × ν} (h : e ∈ insert m k v) :
    e = (k, v) ∨ e ∈ m := by
  induction m with
  | nil => exact .inl (List.mem_singleton.mp h)
  | cons e' rest ih =>
    obtain ⟨k', v'⟩ := e'
    unfold insert at h
    split at h
    · exact List.mem_cons.mp h
    split at h
    · rcases List.mem_cons.mp h with h | h
      · exact .inl h
      · exact .inr (List.mem_cons_of_mem _ h)
    · rcases List.mem_cons.mp h with h | h
      · exact .inr (List.mem_cons.mpr (.inl h))
      · exact (ih h).imp_right (List.mem_cons_of_mem _)

theorem keys_insert (m : List (κ × ν)) (k : κ) (v : ν) (q : κ) :
    q ∈ (insert m k v).map Prod.fst ↔ q = k ∨ q ∈ m.map Prod.fst := by
  rw [← get?_isSome, get?_insert, ← get?_isSome]
  by_cases hq : q = k
  · simp [hq]
  · simp [hq]

theorem insert_sorted {m : List (κ × ν)} (hs : Sorted m) (k : κ) (v : ν) :
    Sorted (insert m k v) := by
  induction m with
  | nil => exact List.pairwise_singleton _ _
  | cons e rest ih =>
    obtain ⟨k', v'⟩ := e
    obtain ⟨hlt, hrest⟩ := sorted_cons.mp hs
    unfold insert
    split
    · rename_i hk
      refine sorted_cons.mpr ⟨fun e he => ?_, hs⟩
      rcases List.mem_cons.mp he with rfl | he
      · exact hk
      · exact lt_trans hk (hlt e he)
    split
    · rename_i hk
      subst hk
      exact sorted_cons.mpr ⟨hlt, hrest⟩
    · rename_i hnlt hne
      refine sorted_cons.mpr ⟨fun e he => ?_, ih hrest⟩
      rcases mem_insert he with rfl | he
      · exact lt_of_le_of_ne (not_lt.mp hnlt) (Ne.symm hne)
      · exact hlt e he

/-- A key above all others goes to the end. -/
theorem insert_last {k : κ} {v : ν} : ∀ {m : List (κ × ν)}, (∀ e ∈ m, e.1 < k) →
    insert m k v = m ++ [(k, v)]
  | [], _ => rfl
  | (k', v') :: m, h => by
    have hlt : k' < k := h (k', v') List.mem_cons_self
    have ih : insert m k v = m ++ [(k, v)] :=
      insert_last fun e he => h e (List.mem_cons_of_mem _ he)
    simp [insert, not_lt_of_gt hlt, ne_of_gt hlt, ih]

theorem length_insert_le (m : List (κ × ν)) (k : κ) (v : ν) :
    (insert m k v).length ≤ m.length + 1 := by
  induction m with
  | nil => exact Nat.le_refl _
  | cons e rest ih =>
    obtain ⟨k', v'⟩ := e
    unfold insert
    split
    · exact Nat.le_refl _
    split
    · simp only [List.length_cons]
      omega
    · simp only [List.length_cons]
      omega

/-! ## Insertion where nothing is -/

theorem get?_orInsert (m : List (κ × ν)) (k : κ) (v : ν) (q : κ) :
    get? (orInsert m k v) q = if q = k then some ((get? m k).getD v) else get? m q := by
  unfold orInsert contains
  cases hk : get? m k with
  | none =>
    rw [Option.isSome_none, if_neg (by decide), get?_insert]
    rfl
  | some held =>
    rw [Option.isSome_some, if_pos rfl]
    split
    · rename_i hq
      rw [hq, hk]
      rfl
    · rfl

theorem mem_orInsert {m : List (κ × ν)} {k : κ} {v : ν} {e : κ × ν} (h : e ∈ orInsert m k v) :
    e = (k, v) ∨ e ∈ m := by
  unfold orInsert at h
  split at h
  · exact .inr h
  · exact mem_insert h

theorem mem_orInsert_of_mem {m : List (κ × ν)} (hs : Sorted m) (k : κ) (v : ν) {e : κ × ν}
    (h : e ∈ m) : e ∈ orInsert m k v := by
  have hget := get?_of_mem hs h
  refine get?_mem ((get?_orInsert m k v e.1).trans ?_)
  split
  · rename_i hk
    rw [← hk, hget]
    rfl
  · exact hget

theorem orInsert_sorted {m : List (κ × ν)} (hs : Sorted m) (k : κ) (v : ν) :
    Sorted (orInsert m k v) := by
  unfold orInsert
  split
  · exact hs
  · exact insert_sorted hs k v

theorem length_orInsert_le (m : List (κ × ν)) (k : κ) (v : ν) :
    (orInsert m k v).length ≤ m.length + 1 := by
  unfold orInsert
  split
  · exact Nat.le_succ _
  · exact length_insert_le m k v

/-- Inserting the entries of a map: its keys win. -/
theorem get?_insertAll {es : List (κ × ν)} (hs : Sorted es) (m : List (κ × ν)) (q : κ) :
    get? (insertAll m es) q = (get? es q).or (get? m q) := by
  induction es generalizing m with
  | nil => rfl
  | cons e rest ih =>
    obtain ⟨k, v⟩ := e
    obtain ⟨hlt, hrest⟩ := sorted_cons.mp hs
    have hstep : insertAll m ((k, v) :: rest) = insertAll (insert m k v) rest := rfl
    rw [hstep, ih hrest, get?_insert]
    by_cases hq : q = k
    · subst hq
      rw [get?_none_of_lt hlt, if_pos rfl, get?_cons, if_pos rfl]
      rfl
    · rw [if_neg hq, get?_cons, if_neg hq]

theorem insertAll_sorted {m : List (κ × ν)} (hs : Sorted m) :
    ∀ (es : List (κ × ν)), Sorted (insertAll m es)
  | [] => hs
  | e :: es => insertAll_sorted (insert_sorted hs e.1 e.2) es

/-! ## Removal -/

theorem get?_erase (m : List (κ × ν)) (k q : κ) :
    get? (erase m k) q = if q = k then none else get? m q := by
  induction m with
  | nil =>
    unfold erase
    simp [get?]
  | cons e rest ih =>
    obtain ⟨k', v'⟩ := e
    have hcons : erase ((k', v') :: rest) k =
        if k' ≠ k then (k', v') :: erase rest k else erase rest k := by
      unfold erase
      rw [List.filter_cons]
      simp
    rw [hcons]
    by_cases hk : k' = k
    · subst hk
      rw [if_neg (by simp), ih, get?_cons]
      split
      · rfl
      · rfl
    · rw [if_pos hk, get?_cons, get?_cons, ih]
      by_cases hq : q = k'
      · rw [if_pos hq, if_pos hq, if_neg (by rw [hq]; exact hk)]
      · rw [if_neg hq, if_neg hq]

theorem erase_sorted {m : List (κ × ν)} (hs : Sorted m) (k : κ) : Sorted (erase m k) :=
  List.Pairwise.filter _ hs

theorem mem_erase {m : List (κ × ν)} {k : κ} {e : κ × ν} : e ∈ erase m k ↔ e ∈ m ∧ e.1 ≠ k := by
  unfold erase
  rw [List.mem_filter, decide_eq_true_eq]

theorem length_erase_le (m : List (κ × ν)) (k : κ) : (erase m k).length ≤ m.length :=
  List.length_filter_le _ _

/-- Removing an entry makes the map smaller. -/
theorem length_erase_lt {m : List (κ × ν)} {k : κ} {v : ν} (h : get? m k = some v) :
    (erase m k).length < m.length := by
  unfold erase
  refine List.length_filter_lt_length_iff_exists.mpr ⟨(k, v), get?_mem h, ?_⟩
  simp

theorem get?_eraseAll (ks : List κ) (m : List (κ × ν)) (q : κ) :
    get? (eraseAll m ks) q = if q ∈ ks then none else get? m q := by
  induction ks generalizing m with
  | nil => rw [if_neg List.not_mem_nil]; rfl
  | cons k ks ih =>
    have hstep : eraseAll m (k :: ks) = eraseAll (erase m k) ks := rfl
    rw [hstep, ih, get?_erase]
    by_cases hq : q = k
    · simp [hq]
    · simp [hq]

theorem eraseAll_sorted {m : List (κ × ν)} (hs : Sorted m) :
    ∀ (ks : List κ), Sorted (eraseAll m ks)
  | [] => hs
  | k :: ks => eraseAll_sorted (erase_sorted hs k) ks

end SortedMap
