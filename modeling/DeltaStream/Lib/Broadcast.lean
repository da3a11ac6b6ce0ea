/-!
# Broadcast buses

A bus holds on to the last messages sent on it, as many as its capacity.  A receiver is a
position: it takes what was sent since it subscribed, one after the other, and one that has
fallen behind what the bus holds is moved to the oldest message there.

* `between_message`, `between_lagged` — what one poll adds to what a receiver has gone past;
* `drop_message`, `behind_of_lagged` — what it takes from what is left for it, and when it cannot;
* `between_append` — sending takes nothing from what it has gone past.
-/

set_option autoImplicit false

namespace Broadcast

variable {M : Type}

/-- What a receiver finds. -/
inductive Poll (M : Type) where
  | pending
  /-- the position it is moved to -/
  | lagged (position : Nat)
  | message (m : M)

/-- `sent` is everything ever sent on the bus. -/
def poll (capacity : Nat) (sent : List M) (position : Nat) : Poll M :=
  if position < sent.length - capacity then .lagged (sent.length - capacity)
  else
    match sent[position]? with
    | none => .pending
    | some m => .message m

/-- What was sent between two positions. -/
def between (sent : List M) (start stop : Nat) : List M := (sent.take stop).drop start

theorem between_self (sent : List M) (n : Nat) : between sent n n = [] :=
  List.drop_eq_nil_of_le (List.length_take_le n sent)

theorem between_length (sent : List M) (start : Nat) :
    between sent start sent.length = sent.drop start := by
  unfold between
  rw [List.take_length]

theorem between_append {sent : List M} {stop : Nat} (h : stop ≤ sent.length) (more : List M)
    (start : Nat) : between (sent ++ more) start stop = between sent start stop := by
  unfold between
  rw [List.take_append_of_le_length h]

theorem between_sublist (sent : List M) {start stop later : Nat} (h : stop ≤ later) :
    (between sent start stop).Sublist (between sent start later) :=
  (List.take_sublist_take_left h).drop start

/-! ## Polls -/

variable {capacity position : Nat} {sent : List M}

theorem poll_message {m : M} (h : poll capacity sent position = .message m) :
    ∃ hlt : position < sent.length, sent[position] = m := by
  unfold poll at h
  split at h
  · cases h
  split at h
  · cases h
  rename_i next hnext
  cases h
  exact List.getElem?_eq_some_iff.mp hnext

theorem poll_lagged {later : Nat} (h : poll capacity sent position = .lagged later) :
    position < later ∧ later = sent.length - capacity := by
  unfold poll at h
  split at h
  · rename_i hlt
    cases h
    exact ⟨hlt, rfl⟩
  · split at h <;> cases h

/-- **A message taken** is the next one of the bus. -/
theorem between_message {start : Nat} {m : M} (h : poll capacity sent position = .message m)
    (hstart : start ≤ position) :
    position + 1 ≤ sent.length ∧
      between sent start (position + 1) = between sent start position ++ [m] := by
  obtain ⟨hlt, rfl⟩ := poll_message h
  refine ⟨hlt, ?_⟩
  unfold between
  rw [List.take_succ_eq_append_getElem hlt, List.drop_append_of_le_length]
  rw [List.length_take]
  omega

/-- It is the first of what is left for the receiver. -/
theorem drop_message {m : M} (h : poll capacity sent position = .message m) :
    position + 1 ≤ sent.length ∧ sent.drop position = m :: sent.drop (position + 1) := by
  obtain ⟨hlt, rfl⟩ := poll_message h
  exact ⟨hlt, List.drop_eq_getElem_cons hlt⟩

/-- A receiver that is moved goes forward, past messages it does not get. -/
theorem between_lagged {later : Nat} (h : poll capacity sent position = .lagged later) :
    position ≤ later ∧ later ≤ sent.length := by
  obtain ⟨hlt, rfl⟩ := poll_lagged h
  exact ⟨Nat.le_of_lt hlt, Nat.sub_le _ _⟩

/-- Only one that is behind everything the bus holds is moved. -/
theorem behind_of_lagged {later : Nat} (h : poll capacity sent position = .lagged later) :
    position + capacity < sent.length := by
  obtain ⟨hlt, rfl⟩ := poll_lagged h
  omega

end Broadcast
