import DeltaStream.Lib.Replica

/-!
# Replicas on an ordered stream

A stream that keeps every update, in the order they were made, and repeats the current state
now and then for replicas that joined late.

* `Follows.next`, `Follows.again` — publishing the next state, or the current one once more,
  keeps the stream in order;
* `Synced.next`, `Synced.again` — a replica in sync stays in sync;
* `lost_next`, `lost_again` — an empty replica gets in sync with a whole state, and asks for
  one otherwise.
-/

set_option autoImplicit false

namespace Replica

variable {S : Type}

inductive Item (S : Type) where
  /-- the next state of the history -/
  | next (u : Update S)
  /-- the current state once more -/
  | again (u : Update S)

/-- What is still to come, from a position in the history to its end. -/
def Follows (h : List S) : Nat → List (Item S) → Prop
  | n, [] => n = h.length
  | n, .next u :: items => Delivers h (n + 1) u ∧ Follows h (n + 1) items
  | n, .again u :: items => (∃ s, nth h n = some s ∧ u = .full n s) ∧ Follows h n items

theorem Follows.next {h : List S} {s : S} {u : Update S}
    (hu : Delivers (h ++ [s]) (h.length + 1) u) : ∀ {items : List (Item S)} {n : Nat},
    Follows h n items → Follows (h ++ [s]) n (items ++ [.next u])
  | [], n, hf => by
    have hn : n = h.length := hf
    subst hn
    have hend : h.length + 1 = (h ++ [s]).length := by simp
    exact ⟨hu, hend⟩
  | .next _ :: _, _, ⟨hv, hrest⟩ => ⟨hv.mono, hrest.next hu⟩
  | .again _ :: _, _, ⟨⟨t, ht, hv⟩, hrest⟩ => ⟨⟨t, nth_append ht, hv⟩, hrest.next hu⟩

theorem Follows.again {h : List S} {s : S} (hs : nth h h.length = some s) :
    ∀ {items : List (Item S)} {n : Nat}, Follows h n items →
      Follows h n (items ++ [.again (.full h.length s)])
  | [], n, hf => by
    have hn : n = h.length := hf
    subst hn
    exact ⟨⟨s, hs, rfl⟩, rfl⟩
  | .next _ :: _, _, ⟨hv, hrest⟩ => ⟨hv, hrest.again hs⟩
  | .again _ :: _, _, ⟨hv, hrest⟩ => ⟨hv, hrest.again hs⟩

/-- The replica holds the state at the position. -/
def Synced (h : List S) (n : Nat) (r : Option (Nat × S)) : Prop :=
  ∃ s, r = some (n, s) ∧ nth h n = some s

theorem Synced.mono {h h' : List S} {n : Nat} {r : Option (Nat × S)} (hr : Synced h n r) :
    Synced (h ++ h') n r := by
  obtain ⟨s, hs, hn⟩ := hr
  exact ⟨s, hs, nth_append hn⟩

theorem Synced.next {h : List S} {n : Nat} {r : Option (Nat × S)} {u : Update S}
    (hr : Synced h n r) (hu : Delivers h (n + 1) u) :
    ∃ t, receive r u = (.applied (n + 1) t, some (n + 1, t)) ∧ nth h (n + 1) = some t := by
  obtain ⟨s, hs, hn⟩ := hr
  obtain ⟨t, ht, hrec⟩ := receive_delivers hu (.inr ⟨s, hs, .inr hn⟩)
  exact ⟨t, hrec, ht⟩

theorem Synced.again {h : List S} {n : Nat} {r : Option (Nat × S)} (hr : Synced h n r) (t : S) :
    receive r (.full n t) = (.duplicate, r) := by
  obtain ⟨s, rfl, -⟩ := hr
  exact receive_full_duplicate n s t

theorem lost_next {h : List S} {n : Nat} {u : Update S} (hu : Delivers h (n + 1) u) :
    (∃ t, receive none u = (.applied (n + 1) t, some (n + 1, t)) ∧ nth h (n + 1) = some t) ∨
      receive none u = (.need, none) := by
  cases u with
  | full m t =>
    obtain ⟨rfl, ht⟩ := hu
    exact .inl ⟨t, receive_fresh rfl (not_stale_none _), ht⟩
  | patch m base next => exact .inr (receive_fresh rfl (not_stale_none _))
  | broken m => exact absurd hu id
  | foreign => exact absurd hu id

theorem lost_again (n : Nat) (s : S) :
    receive none (.full n s) = (.applied n s, some (n, s)) :=
  receive_fresh rfl (not_stale_none _)

end Replica
