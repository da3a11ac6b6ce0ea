import DeltaStream.Recovery
import DeltaStream.Reorder

/-!
# What the reorder buffer holds

A snapshot takes the sequence past whatever is buffered, and the loop that follows only takes
out the entries numbered above it.

* `ReorderDecoder.Useful` — every buffered packet is numbered above the sequence;
* `ReorderDecoder.Overtakes` — a snapshot numbered at or beyond a buffered packet;
* `ReorderDecoder.apply_clear`, `apply_overtaken` — one call: the buffer stays useful if and only
  if the packet does not overtake it;
* `buffer_useful_iff` — so along every run, and the buffer never exceeds its bound.
-/

set_option autoImplicit false

namespace DeltaStream

open Runs SortedMap

/-- A delta is made on the number before its own. -/
def Packet.Chained (p : Packet) : Prop :=
  p.kind = .delta → p.sequence.toNat = p.baseSequence.toNat + 1

/-- What an encoder emits is chained. -/
theorem TypedEncoder.Call.chained {S : Type} {X : Crates} {C : StateCodec S}
    {e e' : TypedEncoder S} {ps : List Packet} (h : Call X C e ps e') : ∀ p ∈ ps, p.Chained := by
  intro p hp
  cases h with
  | encoded h =>
    rw [List.mem_singleton.mp hp]
    exact (encode_ok h).emits.base
  | failed h => exact absurd hp List.not_mem_nil
  | forced h =>
    rw [List.mem_singleton.mp hp]
    exact (forceSnapshot_ok h).1.emits.base
  | forceFailed h => exact absurd hp List.not_mem_nil
  | recovery h =>
    rw [List.mem_singleton.mp hp]
    intro hdelta
    exact absurd ((recoverySnapshot_ok h).kind_eq.symm.trans hdelta) (by decide)

theorem TypedEncoder.run_chained {S : Type} {X : Crates} {C : StateCodec S}
    {e e' : TypedEncoder S} {emitted : List (List Packet)} (h : Run (Call X C) e emitted e') :
    ∀ p ∈ emitted.flatten, p.Chained := by
  induction h with
  | start => exact fun p hp => absurd hp List.not_mem_nil
  | step _ hcall ih =>
    intro p hp
    rw [List.flatten_append] at hp
    rcases List.mem_append.mp hp with hp | hp
    · exact ih p hp
    · exact hcall.chained p (by simpa using hp)

namespace ReorderDecoder

variable {X : Crates}

/-- Every buffered packet can still be applied. -/
def Useful (r : ReorderDecoder) : Prop :=
  ∀ k, r.sequence = some k → ∀ e ∈ r.pending, k < e.1

/-- A snapshot that can be read, numbered at or beyond a buffered packet.  (A buffered packet
    with the very last number is taken out again, as a duplicate.) -/
def Overtakes (X : Crates) (r : ReorderDecoder) (p : Packet) : Prop :=
  ∃ n s, TypedDecoder.read X agentCodec .default p = .full n s ∧
    ∃ e ∈ r.pending, e.1.toNat ≤ n ∧ e.1.toNat < U64_MAX

/-- Between calls: nothing is buffered before the first packet is applied, and then only packets
    that are not next. -/
structure Clear (r : ReorderDecoder) : Prop where
  empty : r.sequence = none → r.pending = []
  beyond : ∀ k, r.sequence = some k → ∀ e ∈ r.pending, k.toNat + 1 < e.1.toNat

theorem Clear.useful {r : ReorderDecoder} (h : r.Clear) : r.Useful := by
  intro k hk e he
  have hlt := h.beyond k hk e he
  exact UInt64.lt_iff_toNat_lt.mpr (by omega)

theorem new_clear (maxGap : UInt64) (maxPending : Usize) : (new maxGap maxPending).Clear where
  empty _ := rfl
  beyond := by
    intro k hk
    cases hk

/-- Inside the loop: numbered above the sequence, or both at the very last number. -/
def Draining (r : ReorderDecoder) : Prop :=
  ∃ k, r.sequence = some k ∧ ∀ e ∈ r.pending, k.toNat < e.1.toNat ∨
    e.1.toNat = U64_MAX

/-- What is left of a draining buffer without the next number. -/
theorem Draining.beyond {r : ReorderDecoder} {k : UInt64} (h : r.Draining)
    (hk : r.sequence = some k) {e : UInt64 × Packet} (he : e ∈ r.pending)
    (hne : e.1 ≠ nextSequence k) : k.toNat + 1 < e.1.toNat := by
  obtain ⟨k', hk', hall⟩ := h
  rw [hk] at hk'
  cases hk'
  have hmax : k.toNat ≤ U64_MAX := toNat_le_max k
  by_cases hlast : k.toNat = U64_MAX
  · -- there is no next number, so nothing else is left
    rw [nextSequence_max hlast] at hne
    have hother : e.1.toNat ≠ k.toNat := fun heq => hne (UInt64.toNat_inj.mp heq)
    have hle : e.1.toNat ≤ U64_MAX := toNat_le_max e.1
    rcases hall e he with hlt | heq
    · omega
    · omega
  · have hnext := toNat_nextSequence (Nat.lt_of_le_of_ne hmax hlast)
    have hother : e.1.toNat ≠ (nextSequence k).toNat := fun heq => hne (UInt64.toNat_inj.mp heq)
    rcases hall e he with hlt | heq
    · omega
    · omega

theorem Turn.draining {r r' : ReorderDecoder} {q : Packet} (h : Turn X r q r')
    (hr : r.Draining) : r'.Draining := by
  cases h with
  | @applied k n _ s d hdue hcall =>
    obtain ⟨hseq, hnext⟩ := due_eq_some hdue
    obtain ⟨-, rfl, -, rfl⟩ := TypedDecoder.apply_applied hcall
    refine ⟨q.sequence, rfl, fun e he => .inl ?_⟩
    obtain ⟨he, hne⟩ := mem_erase.mp he
    have hbeyond := hr.beyond hseq he hne
    rw [(r.keyed _ (get?_mem hnext)).1]
    have hle := nextSequence_le k
    simp only
    omega
  | @duplicate k n _ d hdue hcall =>
    obtain ⟨hseq, hnext⟩ := due_eq_some hdue
    cases TypedDecoder.apply_refused hcall (by intro n s hr; cases hr)
    refine ⟨k, hseq, fun e he => .inl ?_⟩
    obtain ⟨he, hne⟩ := mem_erase.mp he
    have hbeyond := hr.beyond hseq he hne
    omega

theorem Stops.clear {r r' : ReorderDecoder} {result : Except DeltaError ReorderApplyResult}
    (h : Stops X r result r') (hr : r.Draining) : r'.Clear := by
  have hkept : ∀ {k q d}, r.due = some (k, q) → d = r.decoder →
      (r.take (nextSequence k) d).Clear := by
    rintro k q d hdue rfl
    obtain ⟨hseq, -⟩ := due_eq_some hdue
    refine ⟨fun hnone => absurd (hseq.symm.trans hnone) (by simp), ?_⟩
    intro k' hk' e he
    cases hseq.symm.trans hk'
    obtain ⟨he, hne⟩ := mem_erase.mp he
    exact hr.beyond hseq he hne
  cases h with
  | done hdue hn =>
    obtain ⟨k, hk, -⟩ := id hr
    refine ⟨fun hnone => absurd (hk.symm.trans hnone) (by simp), ?_⟩
    intro k' hk' e he
    exact hr.beyond hk' he (due_eq_none hdue hk' e he)
  | rejected hdue hcall =>
    exact hkept hdue (TypedDecoder.apply_refused hcall (by intro n s hr; cases hr))
  | unusable hdue hcall =>
    exact hkept hdue (TypedDecoder.apply_refused hcall (by intro n s hr; cases hr))

theorem drain_clear {r r' : ReorderDecoder} {n : UInt64} {s : AgentState} {drained : Nat}
    {result : Except DeltaError ReorderApplyResult} (hr : r.Draining)
    (h : drain X n r s drained = (result, r')) : r'.Clear := by
  obtain ⟨qs, rm, hrun, hstop⟩ := drain_turns h
  exact hstop.clear (hrun.keeps (fun _ _ _ hb hturn => hturn.draining hb) hr)

/-- **One call** that does not overtake the buffer. -/
theorem apply_clear {r r' : ReorderDecoder} {p : Packet}
    {result : Except DeltaError ReorderApplyResult} (hr : r.Clear) (hp : p.Chained)
    (hnot : ¬r.Overtakes X p) (h : r.apply X p = (result, r')) : r'.Clear := by
  have hsame : ∀ {d result}, Decoder.applyPacket X r.decoder p = (result, d) →
      (∀ n s, result ≠ .ok (.applied n s)) → ({ r with decoder := d } : ReorderDecoder).Clear := by
    intro d result hcall hresult
    cases TypedDecoder.apply_refused hcall hresult
    exact hr
  cases apply_cases h with
  | buffered hahead hgap hkind hroom =>
    obtain ⟨-, hseq, hlt⟩ := ahead_eq_some hahead
    refine ⟨fun hnone => absurd (hseq.symm.trans hnone) (by simp), ?_⟩
    intro k hk e he
    cases hseq.symm.trans hk
    rcases mem_orInsert he with rfl | he
    · have hone := hp hkind
      have hlt := UInt64.lt_iff_toNat_lt.mp hlt
      simp only
      omega
    · exact hr.beyond _ hseq e he
  | refused hahead hfull => exact hr
  | rejected hahead hcall => exact hsame hcall (by intro n s hr; cases hr)
  | duplicate hahead hcall => exact hsame hcall (by intro n s hr; cases hr)
  | unusable hahead hcall => exact hsame hcall (by intro n s hr; cases hr)
  | @applied n s d result r' hahead hcall hdrain =>
    refine drain_clear ?_ hdrain
    obtain ⟨-, hn, hnext, rfl⟩ := TypedDecoder.apply_applied hcall
    refine ⟨n, rfl, fun e he => ?_⟩
    cases hkind : p.kind with
    | snapshot =>
      have hread := TypedDecoder.read_of_applied hcall hkind
      have hle : e.1.toNat ≤ U64_MAX := toNat_le_max e.1
      by_contra hcon
      exact hnot ⟨_, s, hread, e, he, by omega, by omega⟩
    | delta =>
      have hbase := (TypedDecoder.nextState_delta hkind hnext).1
      have hbeyond := hr.beyond _ hbase e he
      have hone := hp hkind
      rw [hn]
      omega

/-- An entry the sequence has passed. -/
structure Passed (e : UInt64 × Packet) (r : ReorderDecoder) : Prop where
  valid : r.decoder.Valid
  held : e ∈ r.pending
  behind : ∃ k, r.sequence = some k ∧ e.1 ≤ k

theorem Passed.take {e : UInt64 × Packet} {r : ReorderDecoder} {k : UInt64} {q : Packet}
    (hr : Passed e r) (hlast : e.1.toNat < U64_MAX) (hdue : r.due = some (k, q)) :
    Passed e (r.take (nextSequence k) (Decoder.applyPacket X r.decoder q).2) where
  valid := TypedDecoder.apply_valid hr.valid q
  held := by
    obtain ⟨k', hk', hle⟩ := hr.behind
    cases (due_eq_some hdue).1.symm.trans hk'
    refine mem_erase.mpr ⟨hr.held, ?_⟩
    intro heq
    -- only the last number is not below the one after it
    have hle := UInt64.le_iff_toNat_le.mp hle
    have hnext := congrArg UInt64.toNat heq
    have hle' := toNat_le_max k
    by_cases hmax : k.toNat = U64_MAX
    · rw [nextSequence_max hmax] at hnext
      omega
    · rw [toNat_nextSequence (by omega)] at hnext
      omega
  behind := TypedDecoder.apply_grows hr.valid q hr.behind

/-- **One call** that overtakes the buffer leaves a packet in it that cannot be applied. -/
theorem apply_overtaken {r r' : ReorderDecoder} {p : Packet}
    {result : Except DeltaError ReorderApplyResult} (hvalid : r.decoder.Valid) (hr : r.Clear)
    (hover : r.Overtakes X p) (h : r.apply X p = (result, r')) : ¬r'.Useful := by
  obtain ⟨n, s, hread, e, he, hle, hlast⟩ := hover
  obtain ⟨hkind, rfl⟩ := TypedDecoder.read_full hread
  have hbehind : Replica.Behind r.decoder.view p.sequence.toNat := by
    rcases hvalid.cases with ⟨-, -, hview⟩ | ⟨k, t, hk, -, hview⟩
    · rw [hview]
      intro n s hs
      cases hs
    · rw [hview]
      intro n s hs
      cases hs
      have hbeyond := hr.beyond k hk e he
      omega
  obtain ⟨d, hcall, hseq, -⟩ :=
    TypedDecoder.apply_full hvalid hread (Replica.receive_full_behind hbehind s)
  have hahead : r.ahead p = none := by
    unfold ahead
    rw [hkind]
  have hd : d.Valid := by
    have hnext : (Decoder.applyPacket X r.decoder p).2.Valid := TypedDecoder.apply_valid hvalid p
    rw [Decoder.applyPacket, hcall] at hnext
    exact hnext
  have hpassed : Passed e { r with decoder := d } :=
    ⟨hd, he, p.sequence, hseq, UInt64.le_iff_toNat_le.mpr hle⟩
  have happly : r.apply X p = drain X p.sequence { r with decoder := d } s 0 :=
    apply_of_applied hahead hcall
  obtain ⟨-, held, k, hk, hek⟩ :=
    drain_keeps (fun b k q hb hdue => hb.take hlast hdue) hpassed (happly.symm.trans h)
  intro huseful
  exact UInt64.not_le.mpr (huseful k hk e held) hek

/-- One call on a clear buffer, in a run of chained packets. -/
theorem Delivers.useful_iff {r r' : ReorderDecoder}
    {o : Packet × Except DeltaError ReorderApplyResult} (h : Delivers X r o r') (hr : r.Clear)
    (hvalid : r.decoder.Valid) (hchained : o.1.Chained) :
    (r'.Useful ↔ ¬r.Overtakes X o.1) ∧ (¬r.Overtakes X o.1 → r'.Clear) :=
  ⟨⟨fun huseful hover => apply_overtaken hvalid hr hover h huseful,
      fun hnot => (apply_clear hr hchained hnot h).useful⟩,
    fun hnot => apply_clear hr hchained hnot h⟩

end ReorderDecoder

open ReorderDecoder

/-- **The buffer never exceeds its bound, and holds only useful packets** throughout a run of
    packets of one encoder if and only if none of them overtakes it. -/
theorem buffer_useful_iff {X : Crates} {policy : AdaptivePolicy} {e : Encoder}
    {emitted : List (List Packet)}
    (he : Run (TypedEncoder.Call X agentCodec) (.withPolicy policy) emitted e)
    (maxGap : UInt64) (maxPending : Usize)
    {os : List (Packet × Except DeltaError ReorderApplyResult)}
    (hos : ∀ o ∈ os, o.1 ∈ emitted.flatten) (r : ReorderDecoder) :
    (Run (Delivers X) (new maxGap maxPending) os r →
      r.pendingLen ≤ (max maxPending 1).toNat) ∧
    (Run (fun r o r' => Delivers X r o r' ∧ r'.Useful) (new maxGap maxPending) os r ↔
      Run (fun r o r' => Delivers X r o r' ∧ ¬r.Overtakes X o.1) (new maxGap maxPending) os r) := by
  have hchained := TypedEncoder.run_chained he
  constructor
  · intro h
    have hmax : r.maxPending = max maxPending 1 :=
      h.keeps (I := fun b => b.maxPending = max maxPending 1)
        (fun b o c hb hcall => (apply_maxPending hcall).trans hb) rfl
    exact hmax ▸ r.bounded
  · have hstart : (new maxGap maxPending).Clear ∧ (new maxGap maxPending).decoder.Valid :=
      ⟨new_clear maxGap maxPending, TypedDecoder.default_valid⟩
    constructor
    · intro h
      refine (h.convert (I := fun b => b.Clear ∧ b.decoder.Valid) hstart ?_).1
      rintro b c o ho ⟨hclear, hvalid⟩ ⟨hcall, huseful⟩
      obtain ⟨hiff, hnext⟩ := hcall.useful_iff hclear hvalid (hchained o.1 (hos o ho))
      have hnot := hiff.mp huseful
      exact ⟨⟨hcall, hnot⟩, hnext hnot, apply_valid hvalid hcall⟩
    · intro h
      refine (h.convert (I := fun b => b.Clear ∧ b.decoder.Valid) hstart ?_).1
      rintro b c o ho ⟨hclear, hvalid⟩ ⟨hcall, hnot⟩
      obtain ⟨hiff, hnext⟩ := hcall.useful_iff hclear hvalid (hchained o.1 (hos o ho))
      exact ⟨⟨hcall, hiff.mpr hnot⟩, hnext hnot, apply_valid hvalid hcall⟩

/-! ## An agent that goes back and forth -/

/-- The encoder after an idle and a busy update, and what it publishes next: idle again, a forced
    snapshot of that, busy and idle. -/
def thirdPacket : Packet := .delta 3 2 (stateHash busyAgent) agentSchemaHash [16, 0, 1]

def thirdEncoder : Encoder := (Encoder.encode .stored busyEncoder (idleAgent 0)).2

def forcedPacket : Packet :=
  .snapshot 4 (stateHash (idleAgent 0)) agentSchemaHash (encodeAgentState (idleAgent 0))

def forcedEncoder : Encoder := (Encoder.forceSnapshot .stored thirdEncoder (idleAgent 0)).2

def fifthPacket : Packet := .delta 5 4 (stateHash (idleAgent 0)) agentSchemaHash [16, 0, 2]

def fifthEncoder : Encoder := (Encoder.encode .stored forcedEncoder busyAgent).2

def sixthPacket : Packet := .delta 6 5 (stateHash busyAgent) agentSchemaHash [16, 0, 1]

def sixthEncoder : Encoder := (Encoder.encode .stored fifthEncoder (idleAgent 0)).2

def agentStream : List (List Packet) :=
  [[idlePacket], [busyPacket], [thirdPacket], [forcedPacket], [fifthPacket], [sixthPacket]]

theorem agentStream_run :
    Run (TypedEncoder.Call .stored agentCodec) (.withPolicy .default) agentStream sixthEncoder := by
  have h1 : TypedEncoder.Call .stored agentCodec (.withPolicy .default) [idlePacket] idleEncoder :=
    .encoded idleEncoder_encode
  have h2 : TypedEncoder.Call .stored agentCodec idleEncoder [busyPacket] busyEncoder :=
    .encoded busyEncoder_encode
  have h3 : TypedEncoder.Call .stored agentCodec busyEncoder [thirdPacket] thirdEncoder :=
    .encoded (s := idleAgent 0) (Prod.ext (by decide +kernel) rfl)
  have h4 : TypedEncoder.Call .stored agentCodec thirdEncoder [forcedPacket] forcedEncoder :=
    .forced (s := idleAgent 0) (Prod.ext (by decide +kernel) rfl)
  have h5 : TypedEncoder.Call .stored agentCodec forcedEncoder [fifthPacket] fifthEncoder :=
    .encoded (s := busyAgent) (Prod.ext (by decide +kernel) rfl)
  have h6 : TypedEncoder.Call .stored agentCodec fifthEncoder [sixthPacket] sixthEncoder :=
    .encoded (s := idleAgent 0) (Prod.ext (by decide +kernel) rfl)
  exact (((((Run.start.step h1).step h2).step h3).step h4).step h5).step h6

/-- The first update, the third and then the second: none overtakes the buffer. -/
theorem buffer_useful_iff_in_turn :
    Run (fun r o r' => Delivers .stored r o r' ∧ r'.Useful) (new 8 1)
      (deliver .stored (new 8 1) [idlePacket, thirdPacket, busyPacket]).1
      (deliver .stored (new 8 1) [idlePacket, thirdPacket, busyPacket]).2 := by
  have hsent : ∀ p ∈ [idlePacket, thirdPacket, busyPacket], p ∈ agentStream.flatten := by
    decide +kernel
  refine ((buffer_useful_iff agentStream_run 8 1 (fun o ho => hsent _ (deliver_mem ho)) _).2).mpr ?_
  -- only a snapshot can overtake, and only where something is buffered
  have hempty : ∀ {r : ReorderDecoder} {p}, r.pending = [] → ¬r.Overtakes .stored p := by
    rintro r p hr ⟨n, s, -, e, he, -⟩
    rw [hr] at he
    cases he
  have hdelta : ∀ {r : ReorderDecoder} {p : Packet}, p.kind = .delta → ¬r.Overtakes .stored p := by
    rintro r p hkind ⟨n, s, hread, -⟩
    rw [(TypedDecoder.read_full hread).1] at hkind
    cases hkind
  exact ((Run.start.step ⟨rfl, hempty rfl⟩).step ⟨rfl, hdelta rfl⟩).step ⟨rfl, hdelta rfl⟩

/-- A forced snapshot takes the sequence past the third update, which stays in the buffer for
    good: with room for one packet, no gap can be bridged any more. -/
theorem buffer_holds_dead_packet :
    Run (TypedEncoder.Call .stored agentCodec) (.withPolicy .default) agentStream sixthEncoder ∧
    ∃ os r, (∀ o ∈ os, o.1 ∈ agentStream.flatten) ∧ Run (Delivers .stored) (new 8 1) os r ∧
      r.sequence = some 4 ∧ r.pending = [(3, thirdPacket)] ∧ ¬r.Useful ∧
      (r.apply .stored sixthPacket).1 = .ok (.needRecovery (some 4) 5) := by
  have hsent : ∀ p ∈ [idlePacket, thirdPacket, forcedPacket], p ∈ agentStream.flatten := by
    decide +kernel
  have hseq : (deliver .stored (new 8 1) [idlePacket, thirdPacket, forcedPacket]).2.sequence =
      some 4 := by decide +kernel
  have hpending : (deliver .stored (new 8 1) [idlePacket, thirdPacket, forcedPacket]).2.pending =
      [(3, thirdPacket)] := by decide +kernel
  refine ⟨agentStream_run, _, _, fun o ho => hsent _ (deliver_mem ho), deliver_run _ _ _, hseq,
    hpending, ?_, by decide +kernel⟩
  intro huseful
  have hlt := huseful 4 hseq (3, thirdPacket) (by rw [hpending]; exact List.mem_cons_self)
  exact absurd hlt (by decide)

end DeltaStream
