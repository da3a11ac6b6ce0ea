import DeltaStream.Lib.Replica

/-!
# Replicas fed by a publisher they can ask for its state

A publisher numbers its states from one and is at the position of the last of them.  A replica
that cannot use an update asks for the whole state.

* `Usable` — an update that brings the history's state of its number, up to a relation, or does
  not fit; `receive_usable` — a consistent replica stays consistent under it, never rejects it,
  and is behind the publisher when it asks for recovery;
* `receive_whole` — the whole state at the publisher's position brings any consistent replica up
  to date;
* `receive_current` — so does the newest update, unless it does not fit;
* `AtPosition.receive` — a replica that is up to date ignores everything published before.
-/

set_option autoImplicit false

namespace Replica

variable {S : Type} {R : S → S → Prop} {h : List S} {r : Option (Nat × S)}

theorem ConsistentUpTo.mono {h' : List S} (hr : ConsistentUpTo R h r) :
    ConsistentUpTo R (h ++ h') r := by
  intro n s hs
  obtain ⟨t, ht, hR⟩ := hr n s hs
  exact ⟨t, nth_append ht, hR⟩

/-- An update that on any state standing for its base does not fit, or brings a state that
    stands for the history's state of its number. -/
def Usable (R : S → S → Prop) (h : List S) : Update S → Prop
  | .full n s => ∃ t, nth h n = some t ∧ R s t
  | .patch n base next =>
    n = base + 1 ∧ ∃ t, nth h base = some t ∧ ∃ t', nth h n = some t' ∧
      ∀ s, R s t → next s = .mismatch ∨ ∃ s', next s = .next s' ∧ R s' t'
  | .broken _ => False
  | .foreign => False

theorem Usable.mono {h' : List S} : ∀ {u : Update S}, Usable R h u → Usable R (h ++ h') u
  | .full _ _, ⟨t, ht, hR⟩ => ⟨t, nth_append ht, hR⟩
  | .patch _ _ _, ⟨hn, t, ht, t', ht', hnext⟩ =>
    ⟨hn, t, nth_append ht, t', nth_append ht', hnext⟩

theorem Delivers.usable {n : Nat} : ∀ {u : Update S}, Delivers h n u → Usable Eq h u
  | .full _ _, ⟨hm, hs⟩ => ⟨_, hm ▸ hs, rfl⟩
  | .patch _ _ _, ⟨hm, hn, s, t, hs, hnext, ht⟩ => by
    subst hm
    refine ⟨hn, s, hs, t, ht, ?_⟩
    rintro _ rfl
    exact .inr ⟨t, hnext, rfl⟩

theorem Delivers.number {n : Nat} : ∀ {u : Update S}, Delivers h n u → u.number? = some n
  | .full _ _, ⟨hm, _⟩ => congrArg some hm
  | .patch _ _ _, ⟨hm, _⟩ => congrArg some hm

theorem Usable.number : ∀ {u : Update S}, Usable R h u →
    ∃ n t, u.number? = some n ∧ nth h n = some t
  | .full n _, ⟨t, ht, _⟩ => ⟨n, t, rfl, ht⟩
  | .patch n _ _, ⟨_, _, _, t', ht', _⟩ => ⟨n, t', rfl, ht'⟩

theorem Usable.upTo {u : Update S} (hu : Usable R h u) : u.UpTo h.length := by
  obtain ⟨n, t, hn, ht⟩ := hu.number
  intro m hm
  rw [hn] at hm
  cases hm
  exact (nth_lt ht).2

theorem Usable.genuineUpTo : ∀ {u : Update S}, Usable R h u → GenuineUpTo R h u
  | .full _ _, hu => hu
  | .patch _ _ _, ⟨hn, t, ht, t', ht', hnext⟩ => by
    refine ⟨hn, t, ht, fun s hs s' hs' => ?_⟩
    rcases hnext s hs with hmis | ⟨s'', hs'', hR⟩
    · rw [hmis] at hs'
      cases hs'
    · rw [hs''] at hs'
      cases hs'
      exact ⟨t', ht', hR⟩

/-- A patch that can be used is not broken on a consistent replica. -/
theorem Usable.outcome_ne_broken {u : Update S} (hu : Usable R h u) (hr : ConsistentUpTo R h r) :
    u.outcome r ≠ .broken := by
  cases u with
  | foreign => exact absurd hu id
  | broken n => exact absurd hu id
  | full n s => exact nofun
  | patch n base next =>
    obtain ⟨-, t, ht, t', -, hnext⟩ := hu
    cases r with
    | none => exact nofun
    | some held =>
      obtain ⟨m, s⟩ := held
      unfold Update.outcome
      simp only
      split
      · rename_i hm
        obtain ⟨t₀, ht₀, hs⟩ := hr m s rfl
        rw [hm, ht] at ht₀
        cases ht₀
        rcases hnext s hs with hmis | ⟨s', hs', -⟩
        · rw [hmis]
          exact nofun
        · rw [hs']
          exact nofun
      · exact nofun

/-- **One update**: the replica stays consistent and accepts the update or asks for recovery,
    and then it is behind the publisher. -/
theorem receive_usable {u : Update S} (hu : Usable R h u) (hr : ConsistentUpTo R h r) :
    ConsistentUpTo R h (receive r u).2 ∧ (receive r u).1 ≠ .rejected ∧
      ((receive r u).1 = .need → (receive r u).2 = r ∧ Behind r h.length) := by
  refine ⟨receive_consistentUpTo hu.genuineUpTo hr, ?_, need_behind hu.upTo⟩
  obtain ⟨n, t, hn, -⟩ := hu.number
  rw [receive_of_number hn]
  split
  · exact nofun
  · have hout := hu.outcome_ne_broken hr
    cases hcase : u.outcome r with
    | next s => exact nofun
    | mismatch => exact nofun
    | broken => exact absurd hcase hout

/-! ## Up to date -/

/-- At the publisher's position, with a state that stands for `s`. -/
def AtPosition (R : S → S → Prop) (position : Nat) (s : S) (r : Option (Nat × S)) : Prop :=
  ∃ s', r = some (position, s') ∧ R s' s

theorem last_only {s : S} (hlast : h.getLast? = some s) : ∀ t, h.getLast? = some t → t = s := by
  intro t ht
  rw [hlast] at ht
  exact (Option.some.inj ht).symm

/-- **The whole state** at the publisher's position brings a consistent replica up to date. -/
theorem receive_whole {s : S} (hrefl : R s s) (hr : ConsistentUpTo R h r)
    (hlast : ∀ t, h.getLast? = some t → t = s) :
    AtPosition R h.length s (receive r (.full h.length s)).2 ∧
      ((receive r (.full h.length s)).1 = .applied h.length s ∨
        (receive r (.full h.length s)).1 = .duplicate) := by
  by_cases hbehind : Behind r h.length
  · rw [receive_full_behind hbehind s]
    exact ⟨⟨s, rfl, hrefl⟩, .inl rfl⟩
  · -- a consistent replica is never ahead, so it is at the position already
    obtain ⟨n, s', rfl, hn⟩ : ∃ n s', r = some (n, s') ∧ h.length ≤ n := by
      cases r with
      | none => exact absurd (fun n s' heq => nomatch heq) hbehind
      | some held =>
        obtain ⟨n, s'⟩ := held
        refine ⟨n, s', rfl, Nat.le_of_not_lt fun hlt => hbehind ?_⟩
        intro m t heq
        cases heq
        exact hlt
    obtain ⟨t, ht, hR⟩ := hr n s' rfl
    have hle := (nth_lt ht).2
    have hn : n = h.length := Nat.le_antisymm hle hn
    subst hn
    rw [receive_full_duplicate]
    rw [nth_length] at ht
    rw [hlast t ht] at hR
    exact ⟨⟨s', rfl, hR⟩, .inr rfl⟩

theorem AtPosition.consistent {position : Nat} {s : S} (hr : AtPosition R position s r)
    (hs : nth h position = some s) : ConsistentUpTo R h r := by
  obtain ⟨s', rfl, hR⟩ := hr
  intro n t heq
  cases heq
  exact ⟨s, hs, hR⟩

/-- Only a stale update is a duplicate. -/
theorem receive_duplicate {u : Update S} {n : Nat} (hn : u.number? = some n)
    (hdup : (receive r u).1 = .duplicate) : Stale r n := by
  rw [receive_of_number hn] at hdup
  split at hdup
  · assumption
  · cases hout : u.outcome r <;> rw [hout] at hdup <;> cases hdup

/-- **The newest update** brings a consistent replica up to date, or does not fit. -/
theorem receive_current {s : S} {u : Update S} (hr : ConsistentUpTo R h r) (hu : Usable R h u)
    (hn : u.number? = some h.length) (hlast : h.getLast? = some s) :
    AtPosition R h.length s (receive r u).2 ∨ (receive r u).1 = .need := by
  obtain ⟨hnext, hok, -⟩ := receive_usable hu hr
  -- what is consistent and at the position stands for the last state
  have hat : ∀ {r' : Option (Nat × S)}, ConsistentUpTo R h r' →
      (∃ s', r' = some (h.length, s')) → AtPosition R h.length s r' := by
    rintro r' hr' ⟨s', rfl⟩
    obtain ⟨t, ht, hR⟩ := hr' _ s' rfl
    rw [nth_length, hlast] at ht
    cases ht
    exact ⟨s', rfl, hR⟩
  have heffect := receive_effect r u
  have hdup := receive_duplicate (r := r) hn
  generalize receive r u = res at heffect hnext hok hdup
  cases heffect with
  | full fresh =>
    cases hn
    exact .inl (hat hnext ⟨_, rfl⟩)
  | patch fresh held hpatch =>
    cases hn
    exact .inl (hat hnext ⟨_, rfl⟩)
  | need fresh => exact .inr rfl
  | keep hv =>
    rcases hv with rfl | rfl
    · -- a replica that is not behind the newest update is at it
      obtain ⟨m, s', rfl, hm⟩ := hdup rfl
      obtain ⟨t, ht, -⟩ := hr m s' rfl
      have hm : m = h.length := Nat.le_antisymm (nth_lt ht).2 hm
      exact .inl (hat hnext ⟨s', by rw [hm]⟩)
    · exact absurd rfl hok

/-- A patch of a state further on does not fit. -/
theorem receive_patch_behind {n base : Nat} {next : S → Patched S} (hn : base < n)
    (hr : Behind r base) : receive r (.patch n base next) = (.need, r) := by
  have hfresh : ¬Stale r n := by
    rintro ⟨m, s, rfl, hm⟩
    have := hr m s rfl
    omega
  rw [receive_fresh (u := .patch n base next) rfl hfresh]
  cases r with
  | none => rfl
  | some held =>
    obtain ⟨m, s⟩ := held
    have hne : m ≠ base := Nat.ne_of_lt (hr m s rfl)
    simp [Update.outcome, hne, settle]

/-- **No update takes back** a replica that is up to date. -/
theorem AtPosition.receive {s : S} {u : Update S} (hr : AtPosition R h.length s r)
    (hu : Usable R h u) : Replica.receive r u = (.duplicate, r) := by
  obtain ⟨s', rfl, -⟩ := hr
  obtain ⟨n, t, hn, ht⟩ := hu.number
  exact receive_stale hn (stale_some.mpr (nth_lt ht).2)

end Replica
