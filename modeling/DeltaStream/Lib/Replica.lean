import DeltaStream.Lib.Soup

/-!
# Replicas of a numbered stream of states

What a receiver of snapshots and deltas is for.  A publisher's states form a history, the
`n`-th update being its `n`-th state; a replica holds one state with its number, or nothing.
An update either brings a whole state (`full`), or patches the state with one particular
number (`patch`), or cannot be read (`broken`, `foreign`).

* `receive_consistent` — a replica whose state is the history's state of its number stays so
  under genuine updates, in any order and any multiplicity;
* `receive_consistentUpTo` — and likewise up to a relation between the states held and published;
* `need_behind`, `receive_full_behind` — a replica that asks for recovery is behind the publisher,
  and a whole state numbered with the publisher's position is then applied;
* `replay_delivers` — consecutive delivering updates are applied one after the other;
* `Advances.resolves` — in any reachable configuration of a channel whose publisher never goes
  back, recovery at the publisher's position ends a desync;
* `Refines.consistent` — a receiver that does to packets what a replica does to the updates
  they carry is consistent in every reachable configuration of the channel.
-/

set_option autoImplicit false

namespace Replica

variable {S : Type}

/-- The outcome of patching a state. -/
inductive Patched (S : Type) where
  | next (state : S)
  /-- the patch was made for another state -/
  | mismatch
  | broken

inductive Update (S : Type) where
  | full (number : Nat) (state : S)
  | patch (number base : Nat) (next : S → Patched S)
  | broken (number : Nat)
  /-- not an update of this stream -/
  | foreign

inductive Verdict (S : Type) where
  | applied (number : Nat) (state : S)
  | need
  | duplicate
  | rejected

/-- Not newer than what the replica holds. -/
def Stale (r : Option (Nat × S)) (n : Nat) : Prop := ∃ m s, r = some (m, s) ∧ n ≤ m

instance (r : Option (Nat × S)) (n : Nat) : Decidable (Stale r n) :=
  match r with
  | none => isFalse fun ⟨_, _, h, _⟩ => by cases h
  | some (m, s) =>
    if h : n ≤ m then isTrue ⟨m, s, rfl, h⟩
    else isFalse fun ⟨_, _, he, hle⟩ => h (by cases he; exact hle)

/-- The number of an update, if it can be read. -/
def Update.number? : Update S → Option Nat
  | .full n _ => some n
  | .patch n _ _ => some n
  | .broken n => some n
  | .foreign => none

/-- What an update makes of a replica it is not too old for: a patch only fits its base. -/
def Update.outcome (r : Option (Nat × S)) : Update S → Patched S
  | .full _ s => .next s
  | .patch _ base next =>
    match r with
    | none => .mismatch
    | some (m, s) => if m = base then next s else .mismatch
  | .broken _ => .broken
  | .foreign => .broken

/-- Take over the next state, or keep the held one. -/
def settle (r : Option (Nat × S)) (n : Nat) : Patched S → Verdict S × Option (Nat × S)
  | .next t => (.applied n t, some (n, t))
  | .mismatch => (.need, r)
  | .broken => (.rejected, r)

def receive (r : Option (Nat × S)) (u : Update S) : Verdict S × Option (Nat × S) :=
  match u.number? with
  | none => (.rejected, r)
  | some n => if Stale r n then (.duplicate, r) else settle r n (u.outcome r)

@[simp] theorem not_stale_none (n : Nat) : ¬Stale (none : Option (Nat × S)) n := by
  rintro ⟨m, s, h, -⟩
  cases h

@[simp] theorem stale_some {m n : Nat} {s : S} : Stale (some (m, s)) n ↔ n ≤ m := by
  constructor
  · rintro ⟨m', s', h, hle⟩
    cases h
    exact hle
  · intro h
    exact ⟨m, s, rfl, h⟩

theorem receive_of_number {u : Update S} {n : Nat} (h : u.number? = some n)
    (r : Option (Nat × S)) :
    receive r u = if Stale r n then (.duplicate, r) else settle r n (u.outcome r) := by
  unfold receive
  rw [h]

theorem receive_stale {u : Update S} {n : Nat} {r : Option (Nat × S)} (h : u.number? = some n)
    (hs : Stale r n) : receive r u = (.duplicate, r) := by
  rw [receive_of_number h, if_pos hs]

theorem receive_fresh {u : Update S} {n : Nat} {r : Option (Nat × S)} (h : u.number? = some n)
    (hs : ¬Stale r n) : receive r u = settle r n (u.outcome r) := by
  rw [receive_of_number h, if_neg hs]

/-- A patch has an outcome other than a mismatch only on its base. -/
theorem outcome_patch {r : Option (Nat × S)} {n base : Nat} {next : S → Patched S} {t : S}
    (h : (Update.patch n base next).outcome r = .next t) :
    ∃ s, r = some (base, s) ∧ next s = .next t := by
  unfold Update.outcome at h
  cases r with
  | none => cases h
  | some held =>
    obtain ⟨m, s⟩ := held
    simp only at h
    split at h
    · rename_i hm
      exact ⟨s, by rw [hm], h⟩
    · cases h

theorem outcome_patch_base (n base : Nat) (s : S) (next : S → Patched S) :
    (Update.patch n base next).outcome (some (base, s)) = next s := if_pos rfl

/-! ## What receiving can do -/

/-- The things an update can do: bring a whole state, patch its base, fail to fit, or
    nothing. -/
inductive Effect (r : Option (Nat × S)) : Update S → Verdict S × Option (Nat × S) → Prop where
  | full {n : Nat} {s : S} (fresh : ¬Stale r n) :
      Effect r (.full n s) (.applied n s, some (n, s))
  | patch {n base : Nat} {next : S → Patched S} {s t : S} (fresh : ¬Stale r n)
      (held : r = some (base, s)) (hnext : next s = .next t) :
      Effect r (.patch n base next) (.applied n t, some (n, t))
  | need {n base : Nat} {next : S → Patched S} (fresh : ¬Stale r n) :
      Effect r (.patch n base next) (.need, r)
  | keep {u : Update S} {v : Verdict S} (hv : v = .duplicate ∨ v = .rejected) : Effect r u (v, r)

theorem receive_effect (r : Option (Nat × S)) (u : Update S) : Effect r u (receive r u) := by
  cases hn : u.number? with
  | none =>
    unfold receive
    rw [hn]
    exact .keep (.inr rfl)
  | some n =>
    rw [receive_of_number hn]
    split
    · exact .keep (.inl rfl)
    rename_i fresh
    cases u with
    | foreign => cases hn
    | broken m => exact .keep (.inr rfl)
    | full m s =>
      cases hn
      exact .full fresh
    | patch m base next =>
      cases hn
      cases hout : (Update.patch n base next).outcome r with
      | next t =>
        obtain ⟨s, held, hnext⟩ := outcome_patch hout
        exact .patch fresh held hnext
      | mismatch => exact .need fresh
      | broken => exact .keep (.inr rfl)

/-! ## Consistency with a history -/

/-- The `n`-th state of a history, counting from one. -/
def nth (h : List S) (n : Nat) : Option S := if n = 0 then none else h[n - 1]?

theorem nth_append {h h' : List S} {n : Nat} {s : S} (hn : nth h n = some s) :
    nth (h ++ h') n = some s := by
  unfold nth at hn ⊢
  split at hn
  · cases hn
  · rename_i hpos
    rw [if_neg hpos]
    exact List.getElem?_append_left (List.getElem?_eq_some_iff.mp hn).1 ▸ hn

theorem nth_length_append (h : List S) (s : S) : nth (h ++ [s]) (h.length + 1) = some s := by
  simp [nth]

theorem nth_snoc {h : List S} {s t : S} {n : Nat} (hn : nth (h ++ [s]) n = some t) :
    nth h n = some t ∨ n = h.length + 1 ∧ t = s := by
  unfold nth at hn ⊢
  split at hn
  · cases hn
  rename_i hpos
  rw [if_neg hpos]
  rcases Nat.lt_or_ge (n - 1) h.length with hlt | hge
  · rw [List.getElem?_append_left hlt] at hn
    exact .inl hn
  · rw [List.getElem?_append_right hge] at hn
    right
    obtain ⟨hlt, rfl⟩ := List.getElem?_eq_some_iff.mp hn
    rw [List.length_singleton] at hlt
    exact ⟨by omega, by simp⟩

theorem nth_length (h : List S) : nth h h.length = h.getLast? := by
  cases h with
  | nil => rfl
  | cons s h => rw [List.getLast?_eq_getElem?]; rfl

theorem nth_of_mem {h : List S} {s : S} (hs : s ∈ h) : ∃ n, nth h n = some s := by
  obtain ⟨i, hi⟩ := List.mem_iff_getElem?.mp hs
  exact ⟨i + 1, (if_neg (Nat.succ_ne_zero i)).trans hi⟩

theorem nth_mem {h : List S} {n : Nat} {s : S} (hn : nth h n = some s) : s ∈ h := by
  unfold nth at hn
  split at hn
  · cases hn
  · exact List.mem_of_getElem? hn

/-- Every number from one to the length is taken. -/
theorem nth_of_le {h : List S} {n : Nat} (hpos : 1 ≤ n) (hle : n ≤ h.length) :
    ∃ s, nth h n = some s := by
  have hlt : n - 1 < h.length := by omega
  exact ⟨h[n - 1], (if_neg (by omega)).trans (List.getElem?_eq_getElem hlt)⟩

theorem nth_lt {h : List S} {n : Nat} {s : S} (hn : nth h n = some s) :
    1 ≤ n ∧ n ≤ h.length := by
  unfold nth at hn
  split at hn
  · cases hn
  · have := (List.getElem?_eq_some_iff.mp hn).1
    omega

/-- An update that says nothing false about the history. -/
def Genuine (h : List S) : Update S → Prop
  | .full n s => nth h n = some s
  | .patch n base next =>
    n = base + 1 ∧ ∃ s, nth h base = some s ∧ ∀ t, next s = .next t → nth h n = some t
  | .broken _ => True
  | .foreign => True

/-- The replica's state is the history's state of its number. -/
def Consistent (h : List S) (r : Option (Nat × S)) : Prop :=
  ∀ n s, r = some (n, s) → nth h n = some s

theorem Genuine.mono {h h' : List S} : ∀ {u : Update S}, Genuine h u → Genuine (h ++ h') u
  | .full _ _, hu => nth_append hu
  | .patch _ _ _, ⟨hn, s, hs, hnext⟩ =>
    ⟨hn, s, nth_append hs, fun t ht => nth_append (hnext t ht)⟩
  | .broken _, _ => trivial
  | .foreign, _ => trivial

theorem Consistent.mono {h h' : List S} {r : Option (Nat × S)} (hr : Consistent h r) :
    Consistent (h ++ h') r :=
  fun n s hs => nth_append (hr n s hs)

theorem consistent_none (h : List S) : Consistent h none := by
  intro n s hs
  cases hs

/-- **Consistency is kept** by a genuine update. -/
theorem receive_consistent {h : List S} {r : Option (Nat × S)} {u : Update S}
    (hu : Genuine h u) (hr : Consistent h r) : Consistent h (receive r u).2 := by
  have heffect := receive_effect r u
  generalize receive r u = res at heffect
  cases heffect with
  | full fresh =>
    intro n' s' heq
    cases heq
    exact hu
  | patch fresh held hnext =>
    obtain ⟨-, s', hs', hok⟩ := hu
    have hbase := hr _ _ held
    rw [hs'] at hbase
    cases hbase
    intro n' t' heq
    cases heq
    exact hok _ hnext
  | need fresh => exact hr
  | keep hv => exact hr

/-! ## Consistency up to a relation -/

/-- An update that says nothing false about the history, on any state that stands for its base. -/
def GenuineUpTo (R : S → S → Prop) (h : List S) : Update S → Prop
  | .full n s => ∃ t, nth h n = some t ∧ R s t
  | .patch n base next =>
    n = base + 1 ∧ ∃ t, nth h base = some t ∧
      ∀ s, R s t → ∀ s', next s = .next s' → ∃ t', nth h n = some t' ∧ R s' t'
  | .broken _ => True
  | .foreign => True

/-- The replica's state stands for the history's state of its number. -/
def ConsistentUpTo (R : S → S → Prop) (h : List S) (r : Option (Nat × S)) : Prop :=
  ∀ n s, r = some (n, s) → ∃ t, nth h n = some t ∧ R s t

theorem GenuineUpTo.mono {R : S → S → Prop} {h h' : List S} :
    ∀ {u : Update S}, GenuineUpTo R h u → GenuineUpTo R (h ++ h') u
  | .full _ _, ⟨t, ht, hR⟩ => ⟨t, nth_append ht, hR⟩
  | .patch _ _ _, ⟨hn, t, ht, hnext⟩ => by
    refine ⟨hn, t, nth_append ht, fun s hs s' hs' => ?_⟩
    obtain ⟨t', ht', hR⟩ := hnext s hs s' hs'
    exact ⟨t', nth_append ht', hR⟩
  | .broken _, _ => trivial
  | .foreign, _ => trivial

theorem consistentUpTo_none (R : S → S → Prop) (h : List S) : ConsistentUpTo R h none := by
  intro n s hs
  cases hs

theorem receive_consistentUpTo {R : S → S → Prop} {h : List S} {r : Option (Nat × S)} {u : Update S}
    (hu : GenuineUpTo R h u) (hr : ConsistentUpTo R h r) :
    ConsistentUpTo R h (receive r u).2 := by
  have heffect := receive_effect r u
  generalize receive r u = res at heffect
  cases heffect with
  | full fresh =>
    intro n' s' heq
    cases heq
    exact hu
  | @patch n base next s t fresh held hnext =>
    obtain ⟨-, b, hb, hok⟩ := hu
    obtain ⟨b', hb', hsb⟩ := hr _ _ held
    rw [hb] at hb'
    cases hb'
    intro n' t' heq
    cases heq
    exact hok s hsb t hnext
  | need fresh => exact hr
  | keep hv => exact hr

/-! ## Positions -/

/-- Not numbered beyond a position. -/
def Update.UpTo (u : Update S) (position : Nat) : Prop :=
  ∀ n, u.number? = some n → n ≤ position

def UpTo (r : Option (Nat × S)) (position : Nat) : Prop :=
  ∀ n s, r = some (n, s) → n ≤ position

/-- Strictly before a position, or empty. -/
def Behind (r : Option (Nat × S)) (position : Nat) : Prop :=
  ∀ n s, r = some (n, s) → n < position

/-- A replica never goes beyond the position its updates stay within. -/
theorem receive_upTo {r : Option (Nat × S)} {u : Update S} {position : Nat}
    (hu : u.UpTo position) (hr : UpTo r position) : UpTo (receive r u).2 position := by
  have heffect := receive_effect r u
  generalize receive r u = res at heffect
  cases heffect with
  | full fresh =>
    intro n' t' heq
    cases heq
    exact hu _ rfl
  | patch fresh held hnext =>
    intro n' t' heq
    cases heq
    exact hu _ rfl
  | need fresh => exact hr
  | keep hv => exact hr

/-- **A replica that asks for recovery is behind**: the update it could not use is newer than
    its state. -/
theorem need_behind {r : Option (Nat × S)} {u : Update S} {position : Nat}
    (hu : u.UpTo position) (hneed : (receive r u).1 = .need) :
    (receive r u).2 = r ∧ Behind r position := by
  have heffect := receive_effect r u
  generalize receive r u = res at hneed heffect
  cases heffect with
  | full fresh => cases hneed
  | patch fresh held hnext => cases hneed
  | need fresh =>
    refine ⟨rfl, ?_⟩
    rintro m s rfl
    rw [stale_some, Nat.not_le] at fresh
    exact Nat.lt_of_lt_of_le fresh (hu _ rfl)
  | keep hv =>
    rcases hv with rfl | rfl
    · cases hneed
    · cases hneed

theorem Behind.mono {r : Option (Nat × S)} {p q : Nat} (h : Behind r p) (hpq : p ≤ q) :
    Behind r q :=
  fun n s hs => Nat.lt_of_lt_of_le (h n s hs) hpq

/-- A whole state at a position the replica is behind of is applied. -/
theorem receive_full_behind {r : Option (Nat × S)} {position : Nat} (h : Behind r position)
    (t : S) : receive r (.full position t) = (.applied position t, some (position, t)) := by
  have hstale : ¬Stale r position := by
    rintro ⟨m, s, hr, hle⟩
    have := h m s hr
    omega
  exact receive_fresh rfl hstale

theorem receive_full_applied_iff {r : Option (Nat × S)} {position : Nat} {t : S} :
    (receive r (.full position t)).1 = .applied position t ↔ Behind r position := by
  constructor
  · intro happlied n s hr
    refine Nat.lt_of_not_le fun hle => ?_
    have hstale : Stale r position := ⟨n, s, hr, hle⟩
    rw [receive_stale rfl hstale] at happlied
    cases happlied
  · intro hbehind
    rw [receive_full_behind hbehind]

/-- What a replica holds never gets older. -/
theorem Stale.receive {r : Option (Nat × S)} {n : Nat} (h : Stale r n) (u : Update S) :
    Stale (Replica.receive r u).2 n := by
  obtain ⟨m, s, rfl, hle⟩ := h
  have heffect := receive_effect (some (m, s)) u
  generalize Replica.receive (some (m, s)) u = res at heffect
  cases heffect with
  | @full k t fresh =>
    rw [stale_some, Nat.not_le] at fresh
    exact stale_some.mpr (Nat.le_trans hle (Nat.le_of_lt fresh))
  | @patch k base next s t fresh held hnext =>
    rw [stale_some, Nat.not_le] at fresh
    exact stale_some.mpr (Nat.le_trans hle (Nat.le_of_lt fresh))
  | need fresh => exact stale_some.mpr hle
  | keep hv => exact stale_some.mpr hle

theorem stale_receive_full (r : Option (Nat × S)) (n : Nat) (s : S) :
    Stale (Replica.receive r (.full n s)).2 n := by
  by_cases hstale : Stale r n
  · exact hstale.receive _
  · rw [receive_fresh (u := .full n s) rfl hstale]
    exact stale_some.mpr (Nat.le_refl n)

/-- A consistent replica that holds nothing older than the last state holds the last state. -/
theorem Consistent.last {h : List S} {r : Option (Nat × S)} (hr : Consistent h r)
    (hstale : Stale r h.length) : ∃ s, r = some (h.length, s) ∧ h.getLast? = some s := by
  obtain ⟨m, s, rfl, hle⟩ := hstale
  have hm := hr m s rfl
  have heq : m = h.length := Nat.le_antisymm (nth_lt hm).2 hle
  subst heq
  rw [nth_length] at hm
  exact ⟨s, rfl, hm⟩

/-- A replica already at the position ignores it. -/
theorem receive_full_duplicate (position : Nat) (s t : S) :
    receive (some (position, s)) (.full position t) = (.duplicate, some (position, s)) :=
  receive_stale rfl (stale_some.mpr (Nat.le_refl position))

/-! ## Updates that are certain to be applied -/

/-- An update that brings the history's `n`-th state to any consistent replica one behind. -/
def Delivers (h : List S) (n : Nat) : Update S → Prop
  | .full m s => m = n ∧ nth h n = some s
  | .patch m base next =>
    m = n ∧ n = base + 1 ∧ ∃ s t, nth h base = some s ∧ next s = .next t ∧ nth h n = some t
  | .broken _ => False
  | .foreign => False

theorem Delivers.genuine {h : List S} {n : Nat} : ∀ {u : Update S}, Delivers h n u → Genuine h u
  | .full _ _, ⟨hm, hs⟩ => by subst hm; exact hs
  | .patch _ _ _, ⟨hm, hb, s, t, hs, hnext, ht⟩ => by
    subst hm
    refine ⟨hb, s, hs, ?_⟩
    intro t' ht'
    rw [hnext] at ht'
    cases ht'
    exact ht

theorem Delivers.mono {h h' : List S} {n : Nat} :
    ∀ {u : Update S}, Delivers h n u → Delivers (h ++ h') n u
  | .full _ _, ⟨hm, hs⟩ => ⟨hm, nth_append hs⟩
  | .patch _ _ _, ⟨hm, hb, s, t, hs, hnext, ht⟩ =>
    ⟨hm, hb, s, t, nth_append hs, hnext, nth_append ht⟩

/-- One behind, with the history's state unless the replica is at zero or empty. -/
def Ready (h : List S) (n : Nat) (r : Option (Nat × S)) : Prop :=
  r = none ∧ n = 0 ∨ ∃ s, r = some (n, s) ∧ (n = 0 ∨ nth h n = some s)

theorem Ready.not_stale {h : List S} {n : Nat} {r : Option (Nat × S)} (hr : Ready h n r) :
    ¬Stale r (n + 1) := by
  rcases hr with ⟨rfl, -⟩ | ⟨s, rfl, -⟩
  · exact not_stale_none _
  · rw [stale_some]
    omega

theorem Ready.mono {h h' : List S} {n : Nat} {r : Option (Nat × S)} (hr : Ready h n r) :
    Ready (h ++ h') n r := by
  rcases hr with hnone | ⟨s, hs, h0 | hn⟩
  · exact .inl hnone
  · exact .inr ⟨s, hs, .inl h0⟩
  · exact .inr ⟨s, hs, .inr (nth_append hn)⟩

theorem receive_delivers {h : List S} {n : Nat} {r : Option (Nat × S)} {u : Update S}
    (hu : Delivers h (n + 1) u) (hr : Ready h n r) :
    ∃ t, nth h (n + 1) = some t ∧
      receive r u = (.applied (n + 1) t, some (n + 1, t)) := by
  have hfresh := hr.not_stale
  cases u with
  | foreign => exact absurd hu id
  | broken m => exact absurd hu id
  | full m t =>
    obtain ⟨rfl, ht⟩ := hu
    exact ⟨t, ht, receive_fresh rfl hfresh⟩
  | patch m base next =>
    obtain ⟨rfl, hb, s', t, hs', hnext, ht⟩ := hu
    have hbn : n = base := Nat.succ.inj hb
    subst hbn
    have hpos := (nth_lt hs').1
    have hheld : r = some (n, s') := by
      rcases hr with ⟨-, h0⟩ | ⟨s, rfl, h0 | hs⟩
      · omega
      · omega
      · rw [hs'] at hs
        cases hs
        rfl
    subst hheld
    refine ⟨t, ht, ?_⟩
    rw [receive_fresh rfl hfresh, outcome_patch_base, hnext]
    rfl

/-- Verdicts of a sequence of updates and the replica they leave. -/
def receiveAll : Option (Nat × S) → List (Update S) → List (Verdict S) × Option (Nat × S)
  | r, [] => ([], r)
  | r, u :: us => ((receive r u).1 :: (receiveAll (receive r u).2 us).1,
      (receiveAll (receive r u).2 us).2)

/-- **Replay**: consecutive delivering updates are all applied and lead to the last of them. -/
theorem replay_delivers {h : List S} : ∀ {us : List (Update S)} {n : Nat}
    {r : Option (Nat × S)}, Ready h n r →
    (∀ i u, us[i]? = some u → Delivers h (n + i + 1) u) →
    (∀ i v, (receiveAll r us).1[i]? = some v →
      ∃ t, v = .applied (n + i + 1) t ∧ nth h (n + i + 1) = some t) ∧
    Ready h (n + us.length) (receiveAll r us).2
  | [], n, r, hr, _ => ⟨(fun _ _ hv => absurd hv (by simp [receiveAll])), hr⟩
  | u :: us, n, r, hr, hus => by
    obtain ⟨t, ht, hrec⟩ := receive_delivers (hus 0 u rfl) hr
    have hready : Ready h (n + 1) (receive r u).2 := by
      rw [hrec]
      exact .inr ⟨t, rfl, .inr ht⟩
    obtain ⟨hverdicts, hlast⟩ := @replay_delivers h us _ _ hready (by
      intro i u' hi
      have := hus (i + 1) u' hi
      rwa [show n + (i + 1) + 1 = n + 1 + i + 1 by omega] at this)
    constructor
    · intro i v hv
      cases i with
      | zero =>
        have hv' : (receive r u).1 = v := Option.some.inj hv
        exact ⟨t, by rw [← hv', hrec], ht⟩
      | succ i =>
        obtain ⟨t', hv', ht'⟩ := hverdicts i v hv
        rw [show n + 1 + i + 1 = n + (i + 1) + 1 by omega] at hv' ht'
        exact ⟨t', hv', ht'⟩
    · rwa [List.length_cons, show n + (us.length + 1) = n + 1 + us.length by omega]

/-! ## Receivers on a lossy channel -/

section Channel

open Soup

variable {P M R : Type}

/-- The receiver does to messages what a replica does to the updates they carry; the publisher
    extends its history and only sends genuine updates. -/
structure Refines (sys : System P M R) (I : P → Prop) (V : R → Prop) (log : P → List S)
    (read : M → Update S) (view : R → Option (Nat × S)) : Prop where
  initial : ∀ {p r}, sys.initial p r → I p ∧ V r ∧ view r = none
  publish : ∀ {p ms p'}, I p → sys.publish p ms p' →
    I p' ∧ (∃ more, log p' = log p ++ more) ∧ ∀ m ∈ ms, Genuine (log p') (read m)
  receive : ∀ {r m}, V r → V (sys.receive r m) ∧
    view (sys.receive r m) = (Replica.receive (view r) (read m)).2
  internal : ∀ {r r'}, V r → sys.internal r r' → V r' ∧ (view r' = view r ∨ view r' = none)

variable {sys : System P M R} {I : P → Prop} {V : R → Prop} {log : P → List S}
  {read : M → Update S} {view : R → Option (Nat × S)}

theorem Refines.invariant (h : Refines sys I V log read view) :
    Invariant sys I (fun p m => Genuine (log p) (read m))
      (fun p r => V r ∧ Consistent (log p) (view r)) where
  initial hi := by
    obtain ⟨hI, hV, hnone⟩ := h.initial hi
    exact ⟨hI, hV, hnone ▸ consistent_none _⟩
  publish hI hp := by
    obtain ⟨hI', -, hnew⟩ := h.publish hI hp
    exact ⟨hI', hnew⟩
  message hI hp hm := by
    obtain ⟨-, ⟨more, hlog⟩, -⟩ := h.publish hI hp
    rw [hlog]
    exact hm.mono
  receiver hI hp hr := by
    obtain ⟨-, ⟨more, hlog⟩, -⟩ := h.publish hI hp
    rw [hlog]
    exact ⟨hr.1, hr.2.mono⟩
  receive _ hm hr := by
    obtain ⟨hV, hview⟩ := h.receive hr.1
    exact ⟨hV, hview ▸ receive_consistent hm hr.2⟩
  internal hr hi := by
    obtain ⟨hV, hview | hview⟩ := h.internal hr.1 hi
    · exact ⟨hV, hview ▸ hr.2⟩
    · exact ⟨hV, hview ▸ consistent_none _⟩

/-- **Safety**: in every reachable configuration the receiver's state is the history's state
    of its number. -/
theorem Refines.consistent (h : Refines sys I V log read view) {c : Config P M R}
    (hc : Reachable sys c) : Consistent (log c.pub) (view c.rcv) :=
  (h.invariant.reachable hc).rcv.2

theorem Refines.valid_foldl (h : Refines sys I V log read view) (ms : List M) :
    ∀ {r : R}, V r → V (ms.foldl sys.receive r) := by
  induction ms with
  | nil => exact fun hV => hV
  | cons m ms ih => exact fun hV => ih (h.receive hV).1

theorem Refines.stale_foldl (h : Refines sys I V log read view) {n : Nat} (ms : List M) :
    ∀ {r : R}, V r → Stale (view r) n → Stale (view (ms.foldl sys.receive r)) n := by
  induction ms with
  | nil => exact fun _ hstale => hstale
  | cons m ms ih =>
    intro r hV hstale
    obtain ⟨hV', hview⟩ := h.receive (m := m) hV
    exact ih hV' (hview ▸ hstale.receive (read m))

/-- **Up to date**: once the state at the publisher's position has been delivered as a whole, the
    receiver holds it, whatever came before and comes after. -/
theorem Refines.current (h : Refines sys I V log read view) {c : Config P M R}
    (hc : Reachable sys c) {ms : List M} (hms : ∀ m ∈ ms, m ∈ c.sent) {m : M} (hm : m ∈ ms) {s : S}
    (hread : read m = .full (log c.pub).length s) :
    ∃ t, view (ms.foldl sys.receive c.rcv) = some ((log c.pub).length, t) ∧
      (log c.pub).getLast? = some t := by
  obtain ⟨before, after, rfl⟩ := List.append_of_mem hm
  have hV := h.valid_foldl before (h.invariant.reachable hc).rcv.1
  obtain ⟨hV', hview⟩ := h.receive (m := m) hV
  have hstale : Stale (view ((before ++ m :: after).foldl sys.receive c.rcv))
      (log c.pub).length := by
    rw [List.foldl_append, List.foldl_cons]
    refine h.stale_foldl after hV' ?_
    rw [hview, hread]
    exact stale_receive_full _ _ _
  exact (h.consistent (hc.deliverAll hms)).last hstale

/-- The receiver does to messages what a replica does to the updates they carry; the publisher's
    position never goes back, and it sends nothing beyond it. -/
structure Advances (sys : System P M R) (I : P → Prop) (V : R → Prop) (position : P → Nat)
    (read : M → Update S) (view : R → Option (Nat × S)) : Prop where
  initial : ∀ {p r}, sys.initial p r → I p ∧ V r ∧ view r = none
  publish : ∀ {p ms p'}, I p → sys.publish p ms p' →
    I p' ∧ position p ≤ position p' ∧ ∀ m ∈ ms, (read m).UpTo (position p')
  receive : ∀ {r m}, V r → V (sys.receive r m) ∧
    view (sys.receive r m) = (Replica.receive (view r) (read m)).2
  internal : ∀ {r r'}, V r → sys.internal r r' → V r' ∧ (view r' = view r ∨ view r' = none)

theorem Update.UpTo.mono {u : Update S} {p q : Nat} (h : u.UpTo p) (hpq : p ≤ q) : u.UpTo q :=
  fun n hn => Nat.le_trans (h n hn) hpq

theorem UpTo.mono {r : Option (Nat × S)} {p q : Nat} (h : UpTo r p) (hpq : p ≤ q) : UpTo r q :=
  fun n s hs => Nat.le_trans (h n s hs) hpq

theorem upTo_none (position : Nat) : UpTo (none : Option (Nat × S)) position := by
  intro n s hs
  cases hs

variable {position : P → Nat}

theorem Advances.invariant (h : Advances sys I V position read view) :
    Invariant sys I (fun p m => (read m).UpTo (position p))
      (fun p r => V r ∧ UpTo (view r) (position p)) where
  initial hi := by
    obtain ⟨hI, hV, hnone⟩ := h.initial hi
    exact ⟨hI, hV, hnone ▸ upTo_none _⟩
  publish hI hp := by
    obtain ⟨hI', -, hnew⟩ := h.publish hI hp
    exact ⟨hI', hnew⟩
  message hI hp hm := hm.mono (h.publish hI hp).2.1
  receiver hI hp hr := ⟨hr.1, hr.2.mono (h.publish hI hp).2.1⟩
  receive _ hm hr := by
    obtain ⟨hV, hview⟩ := h.receive hr.1
    exact ⟨hV, hview ▸ receive_upTo hm hr.2⟩
  internal hr hi := by
    obtain ⟨hV, hview | hview⟩ := h.internal hr.1 hi
    · exact ⟨hV, hview ▸ hr.2⟩
    · exact ⟨hV, hview ▸ upTo_none _⟩

/-- The publisher never goes back. -/
theorem Advances.publishes (h : Advances sys I V position read view) {p p' : P}
    (hp : Publishes sys p p') (hI : I p) : I p' ∧ position p ≤ position p' := by
  induction hp with
  | refl => exact ⟨hI, Nat.le_refl _⟩
  | step _ hq ih =>
    obtain ⟨hIq, hle⟩ := ih
    obtain ⟨hI', hstep, -⟩ := h.publish hIq hq
    exact ⟨hI', Nat.le_trans hle hstep⟩

/-- **Recovery ends a desync**: a receiver that could not use a message applies a whole state at
    the publisher's position, then or after any further updates. -/
theorem Advances.resolves (h : Advances sys I V position read view) {c : Config P M R}
    (hc : Reachable sys c) {m : M} (hm : m ∈ c.sent)
    (hneed : (Replica.receive (view c.rcv) (read m)).1 = .need) {p' : P}
    (hp : Publishes sys c.pub p') (t : S) :
    Replica.receive (view (sys.receive c.rcv m)) (.full (position p') t) =
      (.applied (position p') t, some (position p', t)) := by
  have hinv := h.invariant.reachable hc
  obtain ⟨hsame, hbehind⟩ := need_behind (hinv.sent m hm) hneed
  obtain ⟨-, hle⟩ := h.publishes hp hinv.pub
  rw [(h.receive hinv.rcv.1).2, hsame]
  exact receive_full_behind (hbehind.mono hle) t

end Channel

end Replica
