import DeltaStream.Lib.Replica

/-!
# Several publishers for one replica

What a replica is fed may come from more than one publisher: one that was started again and
numbers its states from the beginning, or another one altogether, while messages of all of them
are in flight.  `P n s` says that some publisher published `s` under `n`.  What tells the
publishers apart is a key of the state a patch was made for.

* `receive_oneOf` — a replica that holds what was published under its number keeps doing so, where
  states of one number and one key are equal;
* `Keyed.oneOf` — so the receiver does in every reachable configuration of a channel;
* `Keyed.fleet` — also where any number of publishers feed it, each from its own beginning;
* `Keyed.restarting` — and where one publisher may start over at any time.
-/

set_option autoImplicit false

namespace Replica

variable {S K : Type} {P P' : Nat → S → Prop}

/-! ## Published states -/

/-- States published under one number are told apart by their keys. -/
def Separates (key : S → K) (P : Nat → S → Prop) : Prop :=
  ∀ n s t, P n s → P n t → key s = key t → s = t

/-- The replica's state was published under its number. -/
def OneOf (P : Nat → S → Prop) (r : Option (Nat × S)) : Prop := ∀ n s, r = some (n, s) → P n s

/-- A patch takes states of one key only. -/
def Update.Selective (key : S → K) : Update S → Prop
  | .full _ _ => True
  | .patch _ _ next => ∀ s s' t t', next s = .next t → next s' = .next t' → key s = key s'
  | .broken _ => True
  | .foreign => True

/-- A published state, a patch that makes one of another if it is of any use, or nothing
    readable. -/
def Sound (P : Nat → S → Prop) : Update S → Prop
  | .full n s => P n s
  | .patch n base next =>
    (∃ s t, next s = .next t) → ∃ s t, P base s ∧ next s = .next t ∧ P n t
  | .broken _ => True
  | .foreign => True

theorem Sound.mono (hP : ∀ n s, P n s → P' n s) : ∀ {u : Update S}, Sound P u → Sound P' u
  | .full n s, h => hP n s h
  | .patch n base _, h => fun hused => by
    obtain ⟨s, t, hs, hnext, ht⟩ := h hused
    exact ⟨s, t, hP base s hs, hnext, hP n t ht⟩
  | .broken _, _ => trivial
  | .foreign, _ => trivial

theorem Delivers.sound {h : List S} {n : Nat} (hP : ∀ m s, nth h m = some s → P m s) :
    ∀ {u : Update S}, Delivers h n u → Sound P u
  | .full _ _, ⟨hm, hs⟩ => hP _ _ (hm ▸ hs)
  | .patch _ _ _, ⟨hm, _, s, t, hs, hnext, ht⟩ => fun _ =>
    ⟨s, t, hP _ s hs, hnext, hP _ t (hm ▸ ht)⟩

theorem Separates.anti (hP : ∀ n s, P n s → P' n s) {key : S → K} (h : Separates key P') :
    Separates key P :=
  fun n s t hs ht => h n s t (hP n s hs) (hP n t ht)

theorem OneOf.mono (hP : ∀ n s, P n s → P' n s) {r : Option (Nat × S)} (h : OneOf P r) :
    OneOf P' r :=
  fun n s hs => hP n s (h n s hs)

theorem oneOf_none (P : Nat → S → Prop) : OneOf P none := by
  intro n s hs
  cases hs

/-- **Published states only**: a patch made for another publisher's state fits only where that
    publisher had the same state under the same number. -/
theorem receive_oneOf {key : S → K} (hsep : Separates key P) {r : Option (Nat × S)} {u : Update S}
    (hu : Sound P u) (hsel : u.Selective key) (hr : OneOf P r) : OneOf P (receive r u).2 := by
  have heffect := receive_effect r u
  generalize receive r u = res at heffect
  cases heffect with
  | need fresh => exact hr
  | keep hv => exact hr
  | full fresh =>
    intro n' s' heq
    cases heq
    exact hu
  | @patch n base next s t fresh held hnext =>
    obtain ⟨s₀, t₀, hs₀, hnext₀, ht₀⟩ := hu ⟨s, t, hnext⟩
    -- the state held and the patch's own base have one number and one key
    have hkey : key s = key s₀ := hsel _ _ _ _ hnext hnext₀
    have hsame : s = s₀ := hsep base s s₀ (hr _ _ held) hs₀ hkey
    subst hsame
    rw [hnext] at hnext₀
    cases hnext₀
    intro n' t' heq
    cases heq
    exact ht₀

/-! ## Channels -/

section Channel

open Soup

variable {Q M R : Type}

/-- The receiver does to messages what a replica does to the updates they carry; what the
    publisher sends is sound for what it has published, and selective. -/
structure Keyed (sys : System Q M R) (I : Q → Prop) (V : R → Prop)
    (published : Q → Nat → S → Prop) (read : M → Update S) (view : R → Option (Nat × S))
    (key : S → K) : Prop where
  initial : ∀ {q r}, sys.initial q r → I q ∧ V r ∧ view r = none
  publish : ∀ {q ms q'}, I q → sys.publish q ms q' →
    I q' ∧ (∀ n s, published q n s → published q' n s) ∧ ∀ m ∈ ms, Sound (published q') (read m)
  selective : ∀ m, (read m).Selective key
  receive : ∀ {r m}, V r → V (sys.receive r m) ∧
    view (sys.receive r m) = (Replica.receive (view r) (read m)).2
  internal : ∀ {r r'}, V r → sys.internal r r' → V r' ∧ (view r' = view r ∨ view r' = none)

variable {sys : System Q M R} {I : Q → Prop} {V : R → Prop} {published : Q → Nat → S → Prop}
  {read : M → Update S} {view : R → Option (Nat × S)} {key : S → K}

theorem Keyed.invariant (h : Keyed sys I V published read view key) :
    Invariant sys I (fun q m => Sound (published q) (read m))
      (fun q r => V r ∧ (Separates key (published q) → OneOf (published q) (view r))) where
  initial hi := by
    obtain ⟨hI, hV, hnone⟩ := h.initial hi
    exact ⟨hI, hV, fun _ => hnone ▸ oneOf_none _⟩
  publish hI hp := by
    obtain ⟨hI', -, hsound⟩ := h.publish hI hp
    exact ⟨hI', hsound⟩
  message hI hp hm := hm.mono (h.publish hI hp).2.1
  receiver hI hp hr := by
    have hmono := (h.publish hI hp).2.1
    exact ⟨hr.1, fun hsep => (hr.2 (hsep.anti hmono)).mono hmono⟩
  receive _ hm hr := by
    obtain ⟨hV, hview⟩ := h.receive hr.1
    exact ⟨hV, fun hsep => hview ▸ receive_oneOf hsep hm (h.selective _) (hr.2 hsep)⟩
  internal hr hi := by
    obtain ⟨hV, hview | hview⟩ := h.internal hr.1 hi
    · exact ⟨hV, fun hsep => hview ▸ hr.2 hsep⟩
    · exact ⟨hV, fun _ => hview ▸ oneOf_none _⟩

/-- **A published state**, whichever publisher the messages delivered are from. -/
theorem Keyed.oneOf (h : Keyed sys I V published read view key) {c : Config Q M R}
    (hc : Reachable sys c) (hsep : Separates key (published c.pub)) :
    OneOf (published c.pub) (view c.rcv) :=
  (h.invariant.reachable hc).rcv.2 hsep

/-! ## Any number of publishers -/

/-- What one of the publishers published. -/
def Fleet.Published (published : Q → Nat → S → Prop) (l : List Q) (n : Nat) (s : S) : Prop :=
  ∃ q ∈ l, published q n s

/-- A step of one of the publishers, or one more. -/
inductive Fleet.Publish (sys : System Q M R) : List Q → List M → List Q → Prop where
  | member {before after : List Q} {q q' : Q} {ms : List M} (h : sys.publish q ms q') :
      Publish sys (before ++ q :: after) ms (before ++ q' :: after)
  | join {l : List Q} {q : Q} {r : R} (h : sys.initial q r) : Publish sys l [] (q :: l)

theorem Fleet.Publish.head {sys : System Q M R} {l : List Q} {q q' : Q} {ms : List M}
    (h : sys.publish q ms q') : Publish sys (q :: l) ms (q' :: l) := by
  show Publish sys ([] ++ q :: l) ms ([] ++ q' :: l)
  exact .member h

/-- The channel with several publishers, which come at any time.  The receiver is not told. -/
def fleet (sys : System Q M R) : System (List Q) M R where
  initial l r := ∃ q, l = [q] ∧ sys.initial q r
  publish := Fleet.Publish sys
  receive := sys.receive
  internal := sys.internal

/-- **One step of one publisher** leaves what the others published as it is. -/
theorem Keyed.fleet_publish (h : Keyed sys I V published read view key) {l l' : List Q}
    {ms : List M} (hI : ∀ q ∈ l, I q) (hp : Fleet.Publish sys l ms l') :
    (∀ q ∈ l', I q) ∧
      (∀ n s, Fleet.Published published l n s → Fleet.Published published l' n s) ∧
      ∀ m ∈ ms, Sound (Fleet.Published published l') (read m) := by
  cases hp with
  | @member before after q q' _ hpub =>
    have hmem : q ∈ before ++ q :: after := List.mem_append_right _ List.mem_cons_self
    have hmem' : q' ∈ before ++ q' :: after := List.mem_append_right _ List.mem_cons_self
    obtain ⟨hI', hmono, hsound⟩ := h.publish (hI q hmem) hpub
    refine ⟨?_, ?_, fun m hm => (hsound m hm).mono fun n s hs => ⟨q', hmem', hs⟩⟩
    · intro p hp
      rcases List.mem_append.mp hp with hp | hp
      · exact hI p (List.mem_append_left _ hp)
      rcases List.mem_cons.mp hp with rfl | hp
      · exact hI'
      · exact hI p (List.mem_append_right _ (List.mem_cons_of_mem _ hp))
    · rintro n s ⟨p, hp, hs⟩
      rcases List.mem_append.mp hp with hp | hp
      · exact ⟨p, List.mem_append_left _ hp, hs⟩
      rcases List.mem_cons.mp hp with rfl | hp
      · exact ⟨q', hmem', hmono n s hs⟩
      · exact ⟨p, List.mem_append_right _ (List.mem_cons_of_mem _ hp), hs⟩
  | @join _ q r hinit =>
    refine ⟨?_, ?_, fun m hm => absurd hm List.not_mem_nil⟩
    · intro p hp
      rcases List.mem_cons.mp hp with rfl | hp
      · exact (h.initial hinit).1
      · exact hI p hp
    · rintro n s ⟨p, hp, hs⟩
      exact ⟨p, List.mem_cons_of_mem _ hp, hs⟩

/-- **More publishers** keep a channel keyed. -/
theorem Keyed.fleet (h : Keyed sys I V published read view key) :
    Keyed (fleet sys) (fun l => ∀ q ∈ l, I q) V (Fleet.Published published) read view key where
  initial := by
    rintro l r ⟨q, rfl, hinit⟩
    obtain ⟨hI, hV, hnone⟩ := h.initial hinit
    exact ⟨fun p hp => List.mem_singleton.mp hp ▸ hI, hV, hnone⟩
  publish := h.fleet_publish
  selective := h.selective
  receive := h.receive
  internal := h.internal

/-! ## A publisher with several lives -/

/-- The publishers that were, and the one that is. -/
structure Lives (Q : Type) where
  past : List Q
  current : Q

def Lives.all (l : Lives Q) : List Q := l.current :: l.past

/-- What some life published. -/
def Lives.Published (published : Q → Nat → S → Prop) (l : Lives Q) (n : Nat) (s : S) : Prop :=
  ∃ q ∈ l.all, published q n s

/-- A step of the current life, or a new one. -/
inductive Lives.Publish (sys : System Q M R) : Lives Q → List M → Lives Q → Prop where
  | current {past : List Q} {q q' : Q} {ms : List M} (h : sys.publish q ms q') :
      Publish sys ⟨past, q⟩ ms ⟨past, q'⟩
  | restart {past : List Q} {q q' : Q} {r : R} (h : sys.initial q' r) :
      Publish sys ⟨past, q⟩ [] ⟨q :: past, q'⟩

/-- The lives are a fleet of which only the last one goes on. -/
theorem Lives.Publish.fleet {l l' : Lives Q} {ms : List M} (h : Publish sys l ms l') :
    Fleet.Publish sys l.all ms l'.all := by
  cases h with
  | current h => exact .head h
  | restart h => exact .join h

/-- The channel with a publisher that may start over.  The receiver is not told. -/
def restarting (sys : System Q M R) : System (Lives Q) M R where
  initial l r := l.past = [] ∧ sys.initial l.current r
  publish := Lives.Publish sys
  receive := sys.receive
  internal := sys.internal

/-- **Starting over** keeps a channel keyed. -/
theorem Keyed.restarting (h : Keyed sys I V published read view key) :
    Keyed (restarting sys) (fun l => ∀ q ∈ l.all, I q) V (Lives.Published published) read view
      key where
  initial := by
    rintro ⟨past, q⟩ r ⟨hpast, hinit⟩
    subst hpast
    obtain ⟨hI, hV, hnone⟩ := h.initial hinit
    exact ⟨fun p hp => List.mem_singleton.mp hp ▸ hI, hV, hnone⟩
  publish hI hp := h.fleet_publish hI hp.fleet
  selective := h.selective
  receive := h.receive
  internal := h.internal

end Channel

end Replica
