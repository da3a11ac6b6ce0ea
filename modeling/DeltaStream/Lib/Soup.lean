/-!
# One publisher, one receiver and everything in flight

The channel between them keeps every message ever sent and may hand any of them to the
receiver at any time, so losing, duplicating, delaying and reordering messages are all runs
of the same system.

* `Invariant.reachable` — the induction rule: facts about the publisher, about each message
  relative to the publisher and about the receiver relative to the publisher hold in every
  reachable configuration, if each kind of step keeps them.
-/

set_option autoImplicit false

namespace Soup

/-- `publish p ms p'`: the publisher goes from `p` to `p'` and sends `ms`. -/
structure System (P M R : Type) where
  initial : P → R → Prop
  publish : P → List M → P → Prop
  receive : R → M → R
  /-- receiver steps without a message -/
  internal : R → R → Prop

structure Config (P M R : Type) where
  pub : P
  sent : List M
  rcv : R

variable {P M R : Type}

inductive Step (sys : System P M R) : Config P M R → Config P M R → Prop where
  | publish {p p' : P} {ms sent : List M} {r : R} (h : sys.publish p ms p') :
      Step sys ⟨p, sent, r⟩ ⟨p', ms ++ sent, r⟩
  | deliver {p : P} {sent : List M} {r : R} {m : M} (h : m ∈ sent) :
      Step sys ⟨p, sent, r⟩ ⟨p, sent, sys.receive r m⟩
  | internal {p : P} {sent : List M} {r r' : R} (h : sys.internal r r') :
      Step sys ⟨p, sent, r⟩ ⟨p, sent, r'⟩

inductive Reachable (sys : System P M R) : Config P M R → Prop where
  | initial {p : P} {r : R} (h : sys.initial p r) : Reachable sys ⟨p, [], r⟩
  | step {c c' : Config P M R} (hc : Reachable sys c) (h : Step sys c c') : Reachable sys c'

/-- Any of the messages sent may be delivered, one after the other. -/
theorem Reachable.deliverAll {sys : System P M R} {p : P} {sent : List M} : ∀ {ms : List M} {r : R},
    Reachable sys ⟨p, sent, r⟩ → (∀ m ∈ ms, m ∈ sent) →
      Reachable sys ⟨p, sent, ms.foldl sys.receive r⟩
  | [], _, h, _ => h
  | m :: _, _, h, hms =>
    (h.step (.deliver (hms m List.mem_cons_self))).deliverAll
      fun m' hm' => hms m' (List.mem_cons_of_mem m hm')

/-- Zero or more publisher steps, whatever they send. -/
inductive Publishes (sys : System P M R) : P → P → Prop where
  | refl (p : P) : Publishes sys p p
  | step {p q q' : P} {ms : List M} (h : Publishes sys p q) (hq : sys.publish q ms q') :
      Publishes sys p q'

/-- `I` of the publisher, `G` of each message in flight and `J` of the receiver, the last two
    relative to the publisher. -/
structure Invariant (sys : System P M R) (I : P → Prop) (G : P → M → Prop)
    (J : P → R → Prop) : Prop where
  initial : ∀ {p r}, sys.initial p r → I p ∧ J p r
  publish : ∀ {p ms p'}, I p → sys.publish p ms p' → I p' ∧ ∀ m ∈ ms, G p' m
  message : ∀ {p ms p' m}, I p → sys.publish p ms p' → G p m → G p' m
  receiver : ∀ {p ms p' r}, I p → sys.publish p ms p' → J p r → J p' r
  receive : ∀ {p m r}, I p → G p m → J p r → J p (sys.receive r m)
  internal : ∀ {p r r'}, J p r → sys.internal r r' → J p r'

/-- What holds in a configuration under an invariant. -/
structure Holds (I : P → Prop) (G : P → M → Prop) (J : P → R → Prop) (c : Config P M R) :
    Prop where
  pub : I c.pub
  sent : ∀ m ∈ c.sent, G c.pub m
  rcv : J c.pub c.rcv

variable {sys : System P M R} {I : P → Prop} {G : P → M → Prop} {J : P → R → Prop}

theorem Invariant.step (h : Invariant sys I G J) {c c' : Config P M R} (hc : Holds I G J c)
    (hs : Step sys c c') : Holds I G J c' := by
  obtain ⟨hI, hG, hJ⟩ := hc
  cases hs with
  | publish hp =>
    obtain ⟨hI', hnew⟩ := h.publish hI hp
    refine ⟨hI', ?_, h.receiver hI hp hJ⟩
    intro m hm
    rcases List.mem_append.mp hm with hm | hm
    · exact hnew m hm
    · exact h.message hI hp (hG m hm)
  | deliver hm => exact ⟨hI, hG, h.receive hI (hG _ hm) hJ⟩
  | internal hr => exact ⟨hI, hG, h.internal hJ hr⟩

/-- **The rule**: an invariant holds in every reachable configuration. -/
theorem Invariant.reachable (h : Invariant sys I G J) {c : Config P M R}
    (hc : Reachable sys c) : Holds I G J c := by
  induction hc with
  | initial hi =>
    obtain ⟨hI, hJ⟩ := h.initial hi
    exact ⟨hI, (fun _ hm => absurd hm List.not_mem_nil), hJ⟩
  | step _ hs ih => exact h.step ih hs

end Soup
