import DeltaStream.Lib.Gossip

/-!
# Copies that travel encoded

The replicas of a system exchange encodings of their states.  A state that does not encode is not
sent, and an encoding that is refused changes nothing.

* `System.WireReachable.carried` — where whatever is read back is what was written, every run over
  encodings is a run over states.
-/

set_option autoImplicit false

namespace Gossip

variable {ι σ υ β : Type}

/-- A copy as it travels. -/
structure Parcel (ι β : Type) where
  sender : ι
  made : Nat
  encoded : β

/-- `sent` is never emptied, as for states. -/
structure WireConfig (ι σ υ β : Type) where
  states : ι → σ
  made : ι → List υ
  sent : List (Parcel ι β)
  merged : ι → List (Parcel ι β)

namespace System

def wireStart (S : System ι σ υ) : WireConfig ι σ υ β :=
  ⟨fun _ => S.initial, fun _ => [], [], fun _ => []⟩

inductive WireStep [DecidableEq ι] (S : System ι σ υ) (encode : σ → Option β)
    (decode : β → Option σ) (w : WireConfig ι σ υ β) : WireConfig ι σ υ β → Prop where
  | made {i : ι} {u : υ} {s : σ} (hi : S.member i) (h : S.update i (w.states i) u = (true, s)) :
      WireStep S encode decode w { w with
        states := Function.update w.states i s
        made := Function.update w.made i (w.made i ++ [u]) }
  | failed {i : ι} {u : υ} {s : σ} (hi : S.member i)
      (h : S.update i (w.states i) u = (false, s)) :
      WireStep S encode decode w { w with states := Function.update w.states i s }
  | send {i : ι} {b : β} (hi : S.member i) (h : encode (w.states i) = some b) :
      WireStep S encode decode w { w with sent := ⟨i, (w.made i).length, b⟩ :: w.sent }
  | receive {j : ι} {p : Parcel ι β} {t : σ} (hj : S.member j) (hp : p ∈ w.sent)
      (h : decode p.encoded = some t) :
      WireStep S encode decode w { w with
        states := Function.update w.states j (S.merge (w.states j) t)
        merged := Function.update w.merged j (p :: w.merged j) }

def WireReachable [DecidableEq ι] (S : System ι σ υ) (encode : σ → Option β)
    (decode : β → Option σ) : WireConfig ι σ υ β → Prop :=
  Relation.ReflTransGen (S.WireStep encode decode) S.wireStart

end System

/-- What is read back of a state is the state. -/
def Faithful (encode : σ → Option β) (decode : β → Option σ) (s : σ) : Prop :=
  ∀ b t, encode s = some b → decode b = some t → t = s

/-- The parcel holds the copy. -/
def Parcel.Seals (encode : σ → Option β) (p : Parcel ι β) (m : Copy ι σ) : Prop :=
  m.sender = p.sender ∧ m.made = p.made ∧ encode m.state = some p.encoded

/-- The replicas are the same, and every parcel holds a copy. -/
structure Carries (encode : σ → Option β) (w : WireConfig ι σ υ β) (c : Config ι σ υ) : Prop where
  states : c.states = w.states
  made : c.made = w.made
  sent : ∀ p ∈ w.sent, ∃ m ∈ c.sent, p.Seals encode m
  merged : ∀ j, ∀ p ∈ w.merged j, ∃ m ∈ c.merged j, p.Seals encode m

section Simulation

variable [DecidableEq ι] {S : System ι σ υ} {encode : σ → Option β} {decode : β → Option σ}
  {w w' : WireConfig ι σ υ β} {c : Config ι σ υ}

/-- The updates of a replica stay made. -/
theorem System.WireStep.made_prefix (h : S.WireStep encode decode w w') (i : ι) :
    w.made i <+: w'.made i := by
  cases h with
  | @made j u s hj hu =>
    show w.made i <+: Function.update w.made j _ i
    by_cases hi : i = j
    · subst hi
      rw [Function.update_self]
      exact List.prefix_append _ _
    · simp [Function.update_of_ne hi]
  | failed _ _ => exact List.prefix_refl _
  | send _ _ => exact List.prefix_refl _
  | receive _ _ _ => exact List.prefix_refl _

/-- One step over encodings is one over states. -/
theorem Carries.step (hw : Carries encode w c) (h : S.WireStep encode decode w w')
    (hfaithful : ∀ m ∈ c.sent, Faithful encode decode m.state) :
    ∃ c', S.Step c c' ∧ Carries encode w' c' := by
  cases h with
  | made hi h =>
    refine ⟨_, .made hi (hw.states ▸ h), ⟨?_, ?_, hw.sent, hw.merged⟩⟩
    · rw [hw.states]
    · rw [hw.made]
  | failed hi h =>
    refine ⟨_, .failed hi (hw.states ▸ h), ⟨?_, hw.made, hw.sent, hw.merged⟩⟩
    rw [hw.states]
  | @send i b hi h =>
    refine ⟨_, .send hi, ⟨hw.states, hw.made, fun p hp => ?_, hw.merged⟩⟩
    rcases List.mem_cons.mp hp with rfl | hp
    · refine ⟨_, List.mem_cons_self, rfl, ?_, ?_⟩
      · rw [hw.made]
      · rw [hw.states]
        exact h
    · obtain ⟨m, hm, hseals⟩ := hw.sent p hp
      exact ⟨m, List.mem_cons_of_mem _ hm, hseals⟩
  | @receive j p t hj hp h =>
    obtain ⟨m, hm, hseals⟩ := hw.sent p hp
    obtain rfl := hfaithful m hm _ _ hseals.2.2 h
    refine ⟨_, .receive hj hm, ⟨?_, hw.made, hw.sent, fun k q hq => ?_⟩⟩
    · rw [hw.states]
    · by_cases hk : k = j
      · subst hk
        simp only [Function.update_self] at hq ⊢
        rcases List.mem_cons.mp hq with rfl | hq
        · exact ⟨m, List.mem_cons_self, hseals⟩
        · obtain ⟨n, hn, hn'⟩ := hw.merged k q hq
          exact ⟨n, List.mem_cons_of_mem _ hn, hn'⟩
      · simp only [Function.update_of_ne hk] at hq ⊢
        exact hw.merged k q hq

/-- **Every run over encodings is a run over states**, if the states sent in it are read back as
    they were. -/
theorem System.WireReachable.carried (h : S.WireReachable encode decode w)
    (hfaithful : ∀ c, S.Reachable c → (∀ i, c.made i <+: w.made i) →
      ∀ m ∈ c.sent, Faithful encode decode m.state) :
    ∃ c, S.Reachable c ∧ Carries encode w c := by
  induction h with
  | refl => exact ⟨S.start, .refl, ⟨rfl, rfl, nofun, nofun⟩⟩
  | tail _ hstep ih =>
    have hkept := hstep.made_prefix
    obtain ⟨c, hc, hcarries⟩ := ih fun c hc hmade =>
      hfaithful c hc fun i => (hmade i).trans (hkept i)
    obtain ⟨c', hc', hcarries'⟩ := hcarries.step hstep
      (hfaithful c hc fun i => hcarries.made ▸ hkept i)
    exact ⟨c', hc.tail hc', hcarries'⟩

end Simulation

end Gossip
