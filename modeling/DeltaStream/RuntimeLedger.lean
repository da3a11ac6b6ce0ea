import DeltaStream.ByteChoice
import DeltaStream.Lib.Fallible
import DeltaStream.Lib.Run
import DeltaStream.Lib.Suffix

/-!
# The books of the fast encoder

What `FastByteStateEncoder` keeps about itself along a run of calls, some of which fail: the
counters of `RuntimeMetrics`, and what its advisor remembers.

* `StrategyAdvisor.Compressing` — what a search does to the advisor before a winner is known;
* `RuntimeLedger` — the books against the packets handed out;
* `RuntimeLedger.encoded`, `RuntimeLedger.failed` — one call;
* `runtime_ledger` — so they are after every run.
-/

set_option autoImplicit false

namespace DeltaStream

open FirstMin Fallible Runs Suffix

/-! ## What a search learns -/

section Learned

variable {σ : Type} {X : Crates} {pol : SearchPolicy σ} {I : σ → Prop}

/-- What every observation keeps is kept by a search, also by one that fails. -/
theorem Search.tryZstd_learns (hobserve : ∀ l raw c, I l → I (pol.observe l raw c))
    (raw : Packet) (mode : ByteEncodeMode) {s : Search σ} (h : I s.learned) :
    Ends (fun s' => I s'.learned) (fun e => I e.2.learned) (Search.tryZstd X pol raw mode s) := by
  unfold Search.tryZstd
  split
  · cases raw.zstdCandidate X pol.zstdLevel pol.minSavings with
    | error err => exact h
    | ok c =>
      have hc : I (pol.observe s.learned raw c) := hobserve _ _ _ h
      simp only [ends_ok]
      split <;> simpa using hc
  · exact h

theorem Search.tryDeltas_learns (hobserve : ∀ l raw c, I l → I (pol.observe l raw c))
    (raws : List (Packet × SmartDeltaKind)) {s : Search σ} (h : I s.learned) :
    Ends (fun s' => I s'.learned) (fun e => I e.2.learned) (Search.tryDeltas X pol raws s) :=
  foldlM_ends (fun _ (s' : Search σ) => I s'.learned) h
    fun (raw : Packet × SmartDeltaKind) _ _ hs' =>
      Search.tryZstd_learns hobserve raw.1 _ (by simpa using hs')

end Learned

namespace StrategyAdvisor

/-- No more wins than attempts, both in range. -/
structure Scored (a : StrategyAdvisor) : Prop where
  wins : a.compressionWins ≤ a.compressionAttempts
  range : a.compressionAttempts ≤ U64_MAX

theorem Scored.observe {a : StrategyAdvisor} (h : a.Scored) (won : Bool) :
    (a.observeCompression won).Scored := by
  obtain ⟨hwins, hrange⟩ := h
  constructor
  · show (if won then saturatingAdd a.compressionWins 1 else a.compressionWins) ≤
      saturatingAdd a.compressionAttempts 1
    unfold saturatingAdd
    split <;> omega
  · exact Nat.min_le_right _ _

/-- Nothing but compressions were observed between `a` and `b`. -/
structure Compressing (a b : StrategyAdvisor) : Prop where
  policy : b.policy = a.policy
  updates : b.updates = a.updates
  recentWinners : b.recentWinners = a.recentWinners
  scored : a.Scored → b.Scored

theorem Compressing.refl (a : StrategyAdvisor) : a.Compressing a := ⟨rfl, rfl, rfl, id⟩

theorem Compressing.observe {a b : StrategyAdvisor} (h : a.Compressing b) (won : Bool) :
    a.Compressing (b.observeCompression won) where
  policy := h.policy
  updates := h.updates
  recentWinners := h.recentWinners
  scored ha := (h.scored ha).observe won

/-- The winners remembered are the last ones, as many as the window has room for. -/
theorem observeWinner_isLongest {a : StrategyAdvisor} {kinds : List SmartDeltaKind}
    (h : IsLongest (·.length ≤ max a.policy.winnerWindow.toNat 1) kinds a.recentWinners)
    (kind : SmartDeltaKind) :
    IsLongest (·.length ≤ max a.policy.winnerWindow.toNat 1) (kinds ++ [kind])
      (a.observeWinner kind).recentWinners := by
  refine h.snoc (fun s t hst ht => Nat.le_trans hst.length_le ht) ?_
  have hwithin := h.within
  unfold observeWinner
  simp only
  split
  · -- the window is full: the oldest winner goes
    rename_i hfull
    refine ⟨?_, ?_, fun t _ ht => ?_⟩
    · exact List.suffix_append_self_iff.mpr (List.tail_suffix _)
    · simp only [List.length_append, List.length_tail, List.length_singleton]
      omega
    · simp only [List.length_append, List.length_tail, List.length_singleton]
      omega
  · refine ⟨List.suffix_refl _, ?_, fun t hsuffix _ => hsuffix.length_le⟩
    simp only [List.length_append, List.length_singleton]
    omega

end StrategyAdvisor

namespace FastByteStateEncoder

variable {X : Crates} {e : FastByteStateEncoder} {sequence : UInt64} {current : Bytes}

/-- The winner is learned last, and only where there was a state to compare with. -/
theorem search_learns (X : Crates) (e : FastByteStateEncoder) (sequence : UInt64)
    (current : Bytes) :
    Ends
      (fun s => ∃ a, e.advisor.Compressing a ∧
        s.learned = e.previous.elim a fun _ => learnMode s.mode a)
      (fun err => e.advisor.Compressing err.2.learned) (search X e sequence current) := by
  cases hprev : e.previous with
  | none =>
    rw [search_none hprev]
    refine Ends.value (Search.tryZstd_learns (fun _ _ _ h => h) _ _ (.refl e.advisor)) ?_
    exact fun s hs => ⟨s.learned, hs, rfl⟩
  | some previous =>
    rw [search_some hprev]
    have hlearns : Ends (fun s => e.advisor.Compressing s.learned)
        (fun err => e.advisor.Compressing err.2.learned)
        (Search.tryDeltas X (searchPolicy e.policy) (e.deltas sequence previous.bytes current)
          ⟨byteSnapshot sequence e.schemaHash current, .snapshot, 1, e.advisor⟩) :=
      Search.tryDeltas_learns (fun _ _ _ h => h.observe _) _ (.refl e.advisor)
    generalize Search.tryDeltas X (searchPolicy e.policy)
      (e.deltas sequence previous.bytes current) _ = result at hlearns
    cases result with
    | error err => exact hlearns
    | ok s => exact ⟨s.learned, hlearns, rfl⟩

/-- Without a state to compare with, the packet is a snapshot. -/
theorem search_first {s : Search StrategyAdvisor} (hprev : e.previous = none)
    (h : search X e sequence current = .ok s) : s.best.kind = .snapshot := by
  have hmem := (search_ok h).mem
  unfold offers at hmem
  rw [hprev] at hmem
  obtain ⟨raw, hraw, hcopy⟩ := offers_mem hmem
  rw [List.mem_singleton] at hraw
  subst hraw
  rcases hcopy with hraw | hcopy
  · rw [hraw]
    rfl
  · rw [hcopy.eq]
    rfl

end FastByteStateEncoder

/-! ## The books -/

theorem toNat_succ {n : UInt64} (h : n.toNat < U64_MAX) : (n + 1).toNat = n.toNat + 1 := by
  have hmax : U64_MAX = 2 ^ 64 - 1 := rfl
  have hone : (1 : UInt64).toNat = 1 := rfl
  rw [UInt64.toNat_add]
  omega

/-- The counters against the states given and the packets handed out. -/
structure RuntimeMetrics.Counts (sent : List (Slice × Packet)) (m : RuntimeMetrics) : Prop where
  encodedPackets : m.encodedPackets = sent.length
  snapshots : m.snapshots = sent.countP fun c => c.2.kind = .snapshot
  deltas : m.deltas = sent.countP fun c => c.2.kind = .delta
  compressedPackets : m.compressedPackets = sent.countP fun c => c.2.isCompressed
  inputBytes : m.inputBytes = min (sent.map fun c => c.1.bytes.length).sum U64_MAX
  outputBytes : m.outputBytes = min (sent.map fun c => c.2.encodedLen).sum U64_MAX
  candidates : sent.length ≤ m.selectorCandidates ∧ m.selectorCandidates ≤ 5 * sent.length

def deltasOf (sent : List (Slice × Packet)) : List Packet :=
  (sent.map fun c => c.2).filter fun p => p.kind = .delta

/-- What the advisor remembers of the packets handed out: the first one is no update, and the
    strategies of the last deltas are in the window. -/
structure StrategyAdvisor.Remembers (X : Crates) (selector : SelectorPolicy)
    (sent : List (Slice × Packet)) (a : StrategyAdvisor) : Prop where
  policy : a.policy = selector
  updates : a.updates = sent.length - 1
  scored : a.Scored
  winners : ∃ kinds : List SmartDeltaKind,
    List.Forall₂ (fun kind p => Packet.Tagged X kind p) kinds (deltasOf sent) ∧
      IsLongest (·.length ≤ max selector.winnerWindow.toNat 1) kinds a.recentWinners

structure RuntimeLedger (X : Crates) (chosen : V30Policy) (sent : List (Slice × Packet))
    (e : FastByteStateEncoder) : Prop where
  policy : e.policy = chosen
  started : e.previous = none ↔ sent = []
  number : sent.length ≤ e.sequence.toNat
  metrics : e.metrics.Counts sent
  advisor : e.advisor.Remembers X chosen.selector sent
  /-- no packet is longer than the snapshot of its state -/
  small : ∀ c ∈ sent, c.2.encodedLen ≤ HEADER_LEN + c.1.bytes.length

namespace RuntimeMetrics.Counts

variable {X : Crates} {sent : List (Slice × Packet)} {m : RuntimeMetrics}
  {s : Search StrategyAdvisor} {current : Slice}

/-- A sum cut off at the largest number, and one summand more. -/
theorem saturatingAdd_min (total n : Nat) :
    saturatingAdd (min total U64_MAX) n = min (total + n) U64_MAX := by
  unfold saturatingAdd
  generalize U64_MAX = top
  omega

/-- One packet more. -/
theorem encoded (h : m.Counts sent) (hroom : sent.length < U64_MAX)
    (hmode : s.mode.Describes X s.best) (hwork : 1 ≤ s.considered ∧ s.considered ≤ 5) :
    (FastByteStateEncoder.countPacket m current.bytes s).Counts (sent ++ [(current, s.best)]) := by
  obtain ⟨hpackets, hsnapshots, hdeltas, hcompressed, hin, hout, hlow, hhigh⟩ := h
  constructor
  · show saturatingAdd m.encodedPackets 1 = _
    rw [hpackets, List.length_append, List.length_singleton]
    exact Nat.min_eq_left hroom
  · cases hm : s.mode <;> simp only [hm, ByteEncodeMode.Describes] at hmode <;>
      simp [FastByteStateEncoder.countPacket, hm, hsnapshots, hmode]
  · cases hm : s.mode <;> simp only [hm, ByteEncodeMode.Describes] at hmode <;>
      simp [FastByteStateEncoder.countPacket, hm, hdeltas, hmode]
  · cases hm : s.mode <;> simp only [hm, ByteEncodeMode.Describes] at hmode <;>
      simp [FastByteStateEncoder.countPacket, hm, hcompressed, hmode]
  · show saturatingAdd m.inputBytes current.bytes.length = _
    rw [hin, saturatingAdd_min]
    simp
  · show saturatingAdd m.outputBytes s.best.encodedLen = _
    rw [hout, saturatingAdd_min]
    simp
  · rw [List.length_append, List.length_singleton]
    constructor
    · exact Nat.le_min.mpr ⟨Nat.add_le_add hlow hwork.1, hroom⟩
    · exact Nat.le_trans (Nat.min_le_left _ _) (Nat.add_le_add hhigh hwork.2)

/-- Every packet is a snapshot or a delta. -/
theorem balanced (h : m.Counts sent) : m.snapshots + m.deltas = m.encodedPackets := by
  have hkinds := List.length_eq_countP_add_countP (fun c : Slice × Packet => c.2.kind = .snapshot)
    (l := sent)
  have hdelta : ∀ c : Slice × Packet,
      (decide (c.2.kind = .delta)) = !decide (c.2.kind = .snapshot) := by
    intro c
    cases c.2.kind <;> rfl
  rw [h.snapshots, h.deltas, h.encodedPackets, hkinds]
  simp [hdelta]

end RuntimeMetrics.Counts

namespace StrategyAdvisor.Remembers

variable {X : Crates} {selector : SelectorPolicy} {sent : List (Slice × Packet)}
  {a b : StrategyAdvisor} {current : Slice} {p : Packet}

theorem deltasOf_snapshot (hp : p.kind = .snapshot) :
    deltasOf (sent ++ [(current, p)]) = deltasOf sent := by
  simp [deltasOf, hp]

theorem deltasOf_delta (hp : p.kind = .delta) :
    deltasOf (sent ++ [(current, p)]) = deltasOf sent ++ [p] := by
  simp [deltasOf, hp]

theorem compressing (h : a.Remembers X selector sent) (hab : a.Compressing b) :
    b.Remembers X selector sent where
  policy := hab.policy.trans h.policy
  updates := hab.updates.trans h.updates
  scored := hab.scored h.scored
  winners := by
    rw [hab.recentWinners]
    exact h.winners

/-- The first packet is not observed. -/
theorem first (h : a.Remembers X selector []) (hp : p.kind = .snapshot) :
    a.Remembers X selector [(current, p)] where
  policy := h.policy
  updates := h.updates
  scored := h.scored
  winners := by
    rw [← List.nil_append [(current, p)], deltasOf_snapshot hp]
    exact h.winners

/-- The count of the updates after one more. -/
theorem updates_succ (h : a.Remembers X selector sent) (hsent : sent ≠ [])
    (hroom : sent.length < U64_MAX) :
    saturatingAdd a.updates 1 = (sent ++ [(current, p)]).length - 1 := by
  have hpos : 1 ≤ sent.length := List.length_pos_of_ne_nil hsent
  rw [h.updates, List.length_append, List.length_singleton, Nat.add_sub_cancel,
    saturatingAdd, Nat.sub_add_cancel hpos]
  exact Nat.min_eq_left hroom.le

theorem noDelta (h : a.Remembers X selector sent) (hsent : sent ≠ [])
    (hroom : sent.length < U64_MAX) (hp : p.kind = .snapshot) :
    a.observeNoDelta.Remembers X selector (sent ++ [(current, p)]) where
  policy := h.policy
  updates := h.updates_succ hsent hroom
  scored := ⟨h.scored.wins, h.scored.range⟩
  winners := by
    rw [deltasOf_snapshot hp]
    exact h.winners

theorem winner (h : a.Remembers X selector sent) (hsent : sent ≠ [])
    (hroom : sent.length < U64_MAX) (hp : p.kind = .delta) {kind : SmartDeltaKind}
    (htag : p.Tagged X kind) :
    (a.observeWinner kind).Remembers X selector (sent ++ [(current, p)]) where
  policy := h.policy
  updates := h.updates_succ hsent hroom
  scored := ⟨h.scored.wins, h.scored.range⟩
  winners := by
    obtain ⟨kinds, htags, hlongest⟩ := h.winners
    rw [deltasOf_delta hp]
    refine ⟨kinds ++ [kind], List.rel_append htags (.cons htag .nil), ?_⟩
    rw [← h.policy] at hlongest ⊢
    exact observeWinner_isLongest hlongest kind

/-- What `encode` has the advisor learn of a packet after the first. -/
theorem learned (h : a.Remembers X selector sent) (hsent : sent ≠ [])
    (hroom : sent.length < U64_MAX) {mode : V30EncodeMode} (hmode : mode.Describes X p) :
    (FastByteStateEncoder.learnMode mode a).Remembers X selector (sent ++ [(current, p)]) := by
  cases mode with
  | snapshot => exact h.noDelta hsent hroom hmode.1
  | snapshotZstd => exact h.noDelta hsent hroom hmode.1
  | delta kind => exact h.winner hsent hroom hmode.1 hmode.2.2
  | deltaZstd kind => exact h.winner hsent hroom hmode.1 hmode.2.2

end StrategyAdvisor.Remembers

namespace RuntimeLedger

variable {X : Crates} {policy : V30Policy} {sent : List (Slice × Packet)}
  {e : FastByteStateEncoder}

theorem new (X : Crates) (schemaName : String) (policy : V30Policy) :
    RuntimeLedger X policy [] (.withPolicy schemaName policy) where
  policy := rfl
  started := by simp [FastByteStateEncoder.withPolicy]
  number := Nat.zero_le _
  metrics := ⟨rfl, rfl, rfl, rfl, rfl, rfl, Nat.le_refl _, Nat.le_refl _⟩
  advisor := ⟨rfl, rfl, ⟨Nat.le_refl _, Nat.zero_le _⟩, [], .nil, ⟨List.suffix_refl _,
    Nat.zero_le _, fun _ h _ => h.length_le⟩⟩
  small := by simp

/-- A packet handed out is entered, and learned unless it is the first. -/
theorem encoded (hX : X.ZstdExact) (h : RuntimeLedger X policy sent e) {current : Slice}
    {p : Packet} {e' : FastByteStateEncoder} (hcall : e.encode X current = (.ok p, e')) :
    RuntimeLedger X policy (sent ++ [(current, p)]) e' := by
  obtain ⟨decision, hdecision, hchoice⟩ := FastByteStateEncoder.encode_truthful hX hcall
  unfold FastByteStateEncoder.encode at hcall
  split at hcall
  · cases hcall
  rename_i hmax
  simp only at hcall
  split at hcall
  · cases hcall
  rename_i s hs
  cases hcall
  cases hdecision
  obtain ⟨hmem, -, hlength, hmode, -, -, hconsidered⟩ := hchoice
  simp only at hmode hconsidered
  have hwork : 1 ≤ s.considered ∧ s.considered ≤ 5 := by
    rw [hconsidered]
    exact ⟨List.length_pos_of_mem hmem, FastByteStateEncoder.candidates_length X e _ _⟩
  have hlt : e.sequence.toNat < U64_MAX := Nat.lt_of_le_of_ne (toNat_le_max e.sequence) hmax
  have hroom : sent.length < U64_MAX := Nat.lt_of_le_of_lt h.number hlt
  obtain ⟨a, ha, hlearned⟩ :=
    (FastByteStateEncoder.search_learns X e (e.sequence + 1) current.bytes).of_ok hs
  refine ⟨h.policy, by simp, ?_, h.metrics.encoded hroom hmode hwork, ?_, ?_⟩
  · have hnumber := h.number
    have hnext := toNat_succ hlt
    rw [List.length_append, List.length_singleton]
    show sent.length + 1 ≤ (e.sequence + 1).toNat
    omega
  · show s.learned.Remembers X policy.selector (sent ++ [(current, s.best)])
    rw [hlearned]
    cases hprev : e.previous with
    | none =>
      have hnil := h.started.mp hprev
      subst hnil
      exact (h.advisor.compressing ha).first (FastByteStateEncoder.search_first hprev hs)
    | some previous =>
      have hsent : sent ≠ [] := by
        intro hnil
        rw [h.started.mpr hnil] at hprev
        cases hprev
      exact (h.advisor.compressing ha).learned hsent hroom hmode
  · intro c hc
    rcases List.mem_append.mp hc with hc | hc
    · exact h.small c hc
    · rw [List.mem_singleton] at hc
      subst hc
      exact hlength

/-- A call that fails spends a number at most: nothing is entered. -/
theorem failed (h : RuntimeLedger X policy sent e) {current : Slice} {err : DeltaError}
    {e' : FastByteStateEncoder} (hcall : e.encode X current = (.error err, e')) :
    RuntimeLedger X policy sent e' := by
  unfold FastByteStateEncoder.encode at hcall
  split at hcall
  · cases hcall
    exact h
  rename_i hmax
  simp only at hcall
  have hlearns := FastByteStateEncoder.search_learns X e (e.sequence + 1) current.bytes
  split at hcall
  · rename_i err' s hs
    cases hcall
    rw [hs] at hlearns
    have hlt : e.sequence.toNat < U64_MAX := Nat.lt_of_le_of_ne (toNat_le_max e.sequence) hmax
    refine ⟨h.policy, h.started, ?_, h.metrics, h.advisor.compressing hlearns, h.small⟩
    show sent.length ≤ (e.sequence + 1).toNat
    have hnumber := h.number
    have hnext := toNat_succ hlt
    omega
  · cases hcall

/-- The packets take up no more than the states and a header each. -/
theorem output_le (h : RuntimeLedger X policy sent e) :
    e.metrics.outputBytes ≤ e.metrics.inputBytes + HEADER_LEN * e.metrics.encodedPackets := by
  have hsum : ∀ cs : List (Slice × Packet),
      (∀ c ∈ cs, c.2.encodedLen ≤ HEADER_LEN + c.1.bytes.length) →
        (cs.map fun c => c.2.encodedLen).sum ≤
          (cs.map fun c => c.1.bytes.length).sum + HEADER_LEN * cs.length := by
    intro cs hcs
    induction cs with
    | nil => exact Nat.zero_le _
    | cons c cs ih =>
      have hc := hcs c List.mem_cons_self
      have hrest := ih fun c' hc' => hcs c' (List.mem_cons_of_mem _ hc')
      simp only [List.map_cons, List.sum_cons, List.length_cons, Nat.mul_succ]
      omega
  have htotal := hsum sent h.small
  rw [h.metrics.outputBytes, h.metrics.inputBytes, h.metrics.encodedPackets]
  generalize U64_MAX = top
  omega

end RuntimeLedger

/-! ## Runs -/

/-- One call of `encode`: the state it is given and what it returns. -/
def FastByteStateEncoder.Encoding (X : Crates) (e : FastByteStateEncoder)
    (call : Slice × Except DeltaError Packet) (e' : FastByteStateEncoder) : Prop :=
  e.encode X call.1 = (call.2, e')

/-- The states encoded, each with its packet. -/
def sentBy (calls : List (Slice × Except DeltaError Packet)) : List (Slice × Packet) :=
  calls.filterMap fun call =>
    match call.2 with
    | .ok p => some (call.1, p)
    | .error _ => none

/-- **The books are right** after any calls, failed ones among them: the counters are those of the
    packets handed out, which exceed the states by a header each at most, and the advisor
    remembers the strategies of the last deltas. -/
theorem runtime_ledger (X : Crates) (hX : X.ZstdExact) (schemaName : String) (policy : V30Policy)
    {calls : List (Slice × Except DeltaError Packet)} {e : FastByteStateEncoder}
    (h : Run (FastByteStateEncoder.Encoding X) (.withPolicy schemaName policy) calls e) :
    RuntimeLedger X policy (sentBy calls) e ∧
      e.metrics.snapshots + e.metrics.deltas = e.metrics.encodedPackets ∧
      e.metrics.outputBytes ≤ e.metrics.inputBytes + HEADER_LEN * e.metrics.encodedPackets := by
  have hledger : RuntimeLedger X policy (sentBy calls) e := by
    induction h with
    | start => exact .new X schemaName policy
    | @step calls e e' call _ hcall ih =>
      obtain ⟨current, result⟩ := call
      unfold sentBy at ih ⊢
      rw [List.filterMap_append]
      cases result with
      | ok p => exact ih.encoded hX hcall
      | error err =>
        simp only [List.filterMap_cons, List.filterMap_nil, List.append_nil]
        exact ih.failed hcall
  exact ⟨hledger, hledger.metrics.balanced, hledger.output_le⟩

/-- Two calls, the second with one byte changed. -/
theorem runtime_ledger_one_byte :
    let zeros : Slice := ⟨List.replicate 30 0, by decide⟩
    let changed : Slice := ⟨List.replicate 29 0 ++ [1], by decide⟩
    let first := (FastByteStateEncoder.withPolicy "state" .default).encode .stored zeros
    let second := first.2.encode .stored changed
    RuntimeLedger .stored .default (sentBy [(zeros, first.1), (changed, second.1)]) second.2 ∧
      second.2.metrics.snapshots + second.2.metrics.deltas = second.2.metrics.encodedPackets ∧
      second.2.metrics.outputBytes ≤
        second.2.metrics.inputBytes + HEADER_LEN * second.2.metrics.encodedPackets := by
  intro zeros changed first second
  have hfirst : FastByteStateEncoder.Encoding .stored (.withPolicy "state" .default)
      (zeros, first.1) first.2 := rfl
  have hsecond : FastByteStateEncoder.Encoding .stored first.2 (changed, second.1) second.2 := rfl
  exact runtime_ledger .stored Crates.stored_exact "state" .default
    (.step (.step .start hfirst) hsecond)

end DeltaStream
