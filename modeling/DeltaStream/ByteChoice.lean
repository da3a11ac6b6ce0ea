import DeltaStream.ByteStream
import Mathlib.Order.Lattice.Nat

/-!
# What the byte encoders choose and report

One call of `encode` builds the raw snapshot, the deltas it tries and what compressing some of
them gives.

* `TruthfulChoice` — the packet returned costs no more than any of these and the decision recorded
  says what it is;
* `byte_choice` — so it is for both encoders, whatever they have learned;
* `fast_selection_bounded` — the fast encoder builds at most five and never proposes a strategy
  that refuses the states.
-/

set_option autoImplicit false

namespace DeltaStream

open FirstMin

/-! ## Modes -/

/-- The logical payload of a packet, where the limit admits it, is a delta of this kind. -/
def Packet.Tagged (X : Crates) (kind : SmartDeltaKind) (p : Packet) : Prop :=
  ∃ payload, deltaKind payload = .ok kind ∧ ∀ config,
    (p.logicalPayloadWithConfig X config).toOption =
      if payload.length ≤ config.maxDecompressedBytes then some payload else none

/-- The mode says what the packet is. -/
def ByteEncodeMode.Describes (X : Crates) (mode : ByteEncodeMode) (p : Packet) : Prop :=
  match mode with
  | .snapshot => p.kind = .snapshot ∧ p.isCompressed = false
  | .snapshotZstd => p.kind = .snapshot ∧ p.isCompressed = true
  | .delta kind => p.kind = .delta ∧ p.isCompressed = false ∧ p.Tagged X kind
  | .deltaZstd kind => p.kind = .delta ∧ p.isCompressed = true ∧ p.Tagged X kind

variable {X : Crates}

theorem Packet.CopyOf.tagged {raw p : Packet} {kind : SmartDeltaKind} (hX : X.ZstdExact)
    (hraw : raw.isCompressed = false) (h : CopyOf X raw p)
    (hkind : deltaKind raw.payload = .ok kind) : p.Tagged X kind :=
  ⟨raw.payload, hkind, fun _ => h.payload_toOption hX hraw⟩

theorem byteSnapshot_encodedLen_lt (sequence schemaHash : UInt64) (current : Slice) :
    (byteSnapshot sequence schemaHash current.bytes).encodedLen < U64_MAX := by
  have hlen := current.length_le
  have hmax : HEADER_LEN + ISIZE_MAX < U64_MAX := by decide
  exact Nat.lt_of_le_of_lt (Nat.add_le_add_left hlen _) hmax

theorem describes_snapshot (sequence schemaHash : UInt64) (current : Bytes) :
    ByteEncodeMode.snapshot.Describes X (byteSnapshot sequence schemaHash current) :=
  ⟨rfl, Packet.snapshot_isCompressed ..⟩

theorem describes_snapshotZstd {sequence schemaHash : UInt64} {current : Bytes} {level : Int}
    {q : Packet} (h : Packet.Compresses X level (byteSnapshot sequence schemaHash current) q) :
    ByteEncodeMode.snapshotZstd.Describes X q :=
  ⟨(Packet.CopyOf.header (.inr ⟨level, h⟩)).kind, h.isCompressed⟩

theorem describes_delta {sequence schemaHash : UInt64} {previous payload : Bytes}
    {kind : SmartDeltaKind} (hX : X.ZstdExact) (hkind : deltaKind payload = .ok kind) :
    (ByteEncodeMode.delta kind).Describes X (byteDelta sequence schemaHash previous payload) :=
  ⟨rfl, Packet.delta_isCompressed .., Packet.CopyOf.tagged hX (Packet.delta_isCompressed ..)
    (.inl rfl) hkind⟩

theorem describes_deltaZstd {sequence schemaHash : UInt64} {previous payload : Bytes} {level : Int}
    {kind : SmartDeltaKind} {q : Packet} (hX : X.ZstdExact) (hkind : deltaKind payload = .ok kind)
    (h : Packet.Compresses X level (byteDelta sequence schemaHash previous payload) q) :
    (ByteEncodeMode.deltaZstd kind).Describes X q := by
  have hcopy : Packet.CopyOf X (byteDelta sequence schemaHash previous payload) q :=
    .inr ⟨level, h⟩
  exact ⟨hcopy.header.kind, h.isCompressed,
    hcopy.tagged hX (Packet.delta_isCompressed ..) hkind⟩

/-- Deltas tried under their own kinds are found with the mode that describes them. -/
theorem Search.tryDeltas_describes {σ : Type} {pol : SearchPolicy σ} {sequence schemaHash : UInt64}
    {raws : List (Packet × SmartDeltaKind)} {s s' : Search σ} (hX : X.ZstdExact)
    (hraws : ∀ raw ∈ raws, ∃ previous payload, deltaKind payload = .ok raw.2 ∧
      raw.1 = byteDelta sequence schemaHash previous payload)
    (h : Search.tryDeltas X pol raws s = .ok s') (hs : s.mode.Describes X s.best) :
    s'.mode.Describes X s'.best := by
  apply Search.tryDeltas_keeps (ByteEncodeMode.Describes X) h ?_ ?_ ?_ hs
  · intro raw hraw
    obtain ⟨previous, payload, -, hpacket⟩ := hraws raw hraw
    rw [hpacket]
    exact Packet.delta_isCompressed ..
  · intro raw hraw
    obtain ⟨previous, payload, hkind, hpacket⟩ := hraws raw hraw
    rw [hpacket]
    exact describes_delta hX hkind
  · intro raw hraw q hq
    obtain ⟨previous, payload, hkind, hpacket⟩ := hraws raw hraw
    rw [hpacket] at hq
    exact describes_deltaZstd hX hkind hq

/-! ## The exhaustive encoder -/

/-- What a decision promises about the packet it was recorded with: `candidates` are the packets
    built in the call. -/
structure TruthfulChoice (X : Crates) (snapshot : Packet) (candidates : List Packet)
    (cost : Packet → Nat) (p : Packet) (decision : ByteEncodeDecision) : Prop where
  candidate : p ∈ candidates
  cheapest : ∀ q ∈ candidates, cost p ≤ cost q
  length : p.encodedLen ≤ snapshot.encodedLen
  mode : decision.mode.Describes X p
  selectedBytes : decision.selectedBytes = p.encodedLen
  snapshotBytes : decision.snapshotBytes = snapshot.encodedLen
  candidatesConsidered : decision.candidatesConsidered = candidates.length

/-- A sum that saturates does not decide: the snapshot, which has no penalty, is below it. -/
theorem IsFirstMin.unsaturated {cost full : Packet → Nat} {xs : List Packet} {snapshot p : Packet}
    (h : IsFirstMin cost xs p) (hsnapshot : snapshot ∈ xs)
    (hcost : ∀ q, cost q = min (full q) U64_MAX ∨ cost q = full q)
    (hfull : cost snapshot = snapshot.encodedLen) (hlen : snapshot.encodedLen < U64_MAX)
    (hpacket : ∀ q, q.encodedLen ≤ full q) :
    (∀ q ∈ xs, full p ≤ full q) ∧ p.encodedLen ≤ snapshot.encodedLen := by
  have hp : cost p = full p ∧ full p ≤ snapshot.encodedLen := by
    have hle := h.le hsnapshot
    rcases hcost p with hc | hc <;> omega
  refine ⟨?_, Nat.le_trans (hpacket p) hp.2⟩
  intro q hq
  have hle := h.le hq
  rcases hcost q with hc | hc <;> omega

namespace ByteStateEncoder

/-- The encoded length, and the penalty of a compressed packet. -/
def fullCost (policy : V25Policy) (p : Packet) : Nat :=
  p.encodedLen + if p.isCompressed then policy.compressionCpuPenaltyBytes.toNat else 0

/-- The packets built for the next state. -/
def candidates (X : Crates) (e : ByteStateEncoder) (sequence : UInt64) (current : Bytes) :
    List Packet :=
  generated X (searchPolicy e.policy)
    (byteSnapshot sequence e.schemaHash current :: (e.deltas sequence current).map (·.1)) e.tuner

theorem cost_full (policy : V25Policy) (p : Packet) :
    (searchPolicy policy).cost p = min (fullCost policy p) U64_MAX ∨
      (searchPolicy policy).cost p = fullCost policy p := by
  unfold SearchPolicy.cost fullCost
  cases p.isCompressed with
  | true => exact .inl rfl
  | false => exact .inr rfl

theorem mem_candidates {e : ByteStateEncoder} {sequence : UInt64} {current : Bytes}
    {p : Packet} : p ∈ e.candidates X sequence current ↔ p ∈ e.offers X sequence current :=
  mem_generated

theorem deltas_tagged {e : ByteStateEncoder} {sequence : UInt64} {current : Bytes}
    {raw : Packet × SmartDeltaKind} (h : raw ∈ e.deltas sequence current) :
    ∃ previous payload, deltaKind payload = .ok raw.2 ∧
      raw.1 = byteDelta sequence e.schemaHash previous payload := by
  unfold deltas at h
  split at h
  · cases h
  · rename_i previous hprev
    obtain ⟨c, hc, rfl⟩ := List.mem_map.mp h
    exact ⟨previous.bytes, c.payload, encodeCandidates_kind hc, rfl⟩

theorem search_describes (hX : X.ZstdExact) {e : ByteStateEncoder} {sequence : UInt64}
    {current : Bytes} {s : Search AdaptiveTuner} (h : search X e sequence current = .ok s) :
    s.mode.Describes X s.best := by
  unfold search at h
  simp only at h
  split at h
  · cases h
  · rename_i s1 h1
    apply Search.tryDeltas_describes hX (fun raw hraw => deltas_tagged hraw) h
    apply Search.tryZstd_keeps (ByteEncodeMode.Describes X) h1 (Packet.snapshot_isCompressed ..)
    · intro q hq
      exact describes_snapshotZstd hq
    · exact describes_snapshot ..

theorem search_considered {e : ByteStateEncoder} {sequence : UInt64} {current : Bytes}
    {s : Search AdaptiveTuner} (h : search X e sequence current = .ok s) :
    s.considered = (e.candidates X sequence current).length := by
  unfold search at h
  simp only at h
  split at h
  · cases h
  · rename_i s1 h1
    have hfirst := Search.tryZstd_considered h1
    have hrest := Search.tryDeltas_considered h
    simp only [(Search.tryZstd_ok h1).2] at hrest
    simp only [candidates, generated, List.length_cons, List.length_append] at hfirst ⊢
    omega

theorem encode_truthful (hX : X.ZstdExact) {e e' : ByteStateEncoder} {current : Slice}
    {p : Packet} (h : e.encode X current = (.ok p, e')) :
    ∃ decision, e'.lastDecision = some decision ∧
      TruthfulChoice X (byteSnapshot (e.sequence + 1) e.schemaHash current.bytes)
        (e.candidates X (e.sequence + 1) current.bytes) (fullCost e.policy) p decision := by
  unfold encode at h
  split at h
  · cases h
  simp only at h
  split at h
  · cases h
  rename_i s hs
  cases h
  have hfirst := search_ok hs
  have hsnapshot : byteSnapshot (e.sequence + 1) e.schemaHash current.bytes ∈
      e.offers X (e.sequence + 1) current.bytes := List.mem_cons_self
  obtain ⟨hcheapest, hlength⟩ := IsFirstMin.unsaturated hfirst hsnapshot (cost_full e.policy)
    (by simp [SearchPolicy.cost, byteSnapshot]) (byteSnapshot_encodedLen_lt _ _ current)
    (fun q => Nat.le_add_right _ _)
  exact ⟨_, rfl, mem_candidates.mpr hfirst.mem,
    fun q hq => hcheapest q (mem_candidates.mp hq), hlength, search_describes hX hs, rfl, rfl,
    search_considered hs⟩

end ByteStateEncoder

/-! ## The fast encoder -/

namespace FastByteStateEncoder

/-- The packets built for the next state. -/
def candidates (X : Crates) (e : FastByteStateEncoder) (sequence : UInt64) (current : Bytes) :
    List Packet :=
  let snapshot := byteSnapshot sequence e.schemaHash current
  match e.previous with
  | some previous =>
    snapshot :: generated X (searchPolicy e.policy)
      ((e.deltas sequence previous.bytes current).map (·.1)) e.advisor
  | none => generated X (initialPolicy e.policy) [snapshot] e.advisor

theorem mem_candidates {e : FastByteStateEncoder} {sequence : UInt64} {current : Bytes}
    {p : Packet} : p ∈ e.candidates X sequence current ↔ p ∈ e.offers X sequence current := by
  unfold candidates offers
  cases e.previous with
  | none => exact mem_generated
  | some previous => simp only [List.mem_cons, mem_generated]

theorem deltas_tagged {e : FastByteStateEncoder} {sequence : UInt64} {previous current : Bytes}
    {raw : Packet × SmartDeltaKind} (h : raw ∈ e.deltas sequence previous current) :
    ∃ previous payload, deltaKind payload = .ok raw.2 ∧
      raw.1 = byteDelta sequence e.schemaHash previous payload := by
  obtain ⟨kind, -, rfl⟩ := List.mem_map.mp h
  exact ⟨previous, _, deltaKind_encodePayload kind previous current _, rfl⟩

theorem search_describes (hX : X.ZstdExact) {e : FastByteStateEncoder} {sequence : UInt64}
    {current : Bytes} {s : Search StrategyAdvisor} (h : search X e sequence current = .ok s) :
    s.mode.Describes X s.best := by
  cases hprev : e.previous with
  | none =>
    rw [search_none hprev] at h
    apply Search.tryZstd_keeps (ByteEncodeMode.Describes X) h (Packet.snapshot_isCompressed ..)
    · intro q hq
      exact describes_snapshotZstd hq
    · exact describes_snapshot ..
  | some previous =>
    obtain ⟨s1, h1, rfl⟩ := search_some_ok hprev h
    apply Search.tryDeltas_describes hX (fun raw hraw => deltas_tagged hraw) h1
    exact describes_snapshot ..

theorem search_considered {e : FastByteStateEncoder} {sequence : UInt64} {current : Bytes}
    {s : Search StrategyAdvisor} (h : search X e sequence current = .ok s) :
    s.considered = (e.candidates X sequence current).length := by
  unfold candidates
  cases hprev : e.previous with
  | none =>
    rw [search_none hprev] at h
    have hone := Search.tryZstd_considered h
    simp only [generated, List.append_nil, List.length_cons] at hone ⊢
    omega
  | some previous =>
    obtain ⟨s1, h1, rfl⟩ := search_some_ok hprev h
    have hcount := Search.tryDeltas_considered h1
    simp only [List.length_cons] at hcount ⊢
    omega

theorem encode_truthful (hX : X.ZstdExact) {e e' : FastByteStateEncoder} {current : Slice}
    {p : Packet} (h : e.encode X current = (.ok p, e')) :
    ∃ decision : V30Decision, e'.lastDecision = some decision ∧
      TruthfulChoice X (byteSnapshot (e.sequence + 1) e.schemaHash current.bytes)
        (e.candidates X (e.sequence + 1) current.bytes) Packet.encodedLen p
        ⟨decision.mode, decision.selectedBytes, decision.snapshotBytes,
          decision.candidatesConsidered⟩ := by
  unfold encode at h
  split at h
  · cases h
  simp only at h
  split at h
  · cases h
  rename_i s hs
  cases h
  have hfirst := search_ok hs
  have hcost : (searchPolicy e.policy).cost = Packet.encodedLen := by
    funext q
    simp [SearchPolicy.cost, searchPolicy]
  rw [hcost] at hfirst
  have hsnapshot : byteSnapshot (e.sequence + 1) e.schemaHash current.bytes ∈
      e.offers X (e.sequence + 1) current.bytes := by
    unfold offers
    cases e.previous <;> exact List.mem_cons_self
  exact ⟨_, rfl, mem_candidates.mpr hfirst.mem,
    fun q hq => hfirst.le (mem_candidates.mp hq), hfirst.le hsnapshot, search_describes hX hs,
    rfl, rfl, search_considered hs⟩

end FastByteStateEncoder

/-- **What is chosen.**  A call that succeeds returns a packet that costs no more than any packet
    built in it, and the decision it leaves describes that packet; so for both encoders in every
    state. -/
theorem byte_choice (X : Crates) (hX : X.ZstdExact) (current : Slice) :
    (∀ (e e' : ByteStateEncoder) (p : Packet), e.encode X current = (.ok p, e') →
      ∃ decision, e'.lastDecision = some decision ∧
        TruthfulChoice X (byteSnapshot (e.sequence + 1) e.schemaHash current.bytes)
          (e.candidates X (e.sequence + 1) current.bytes) (ByteStateEncoder.fullCost e.policy) p
          decision) ∧
      ∀ (e e' : FastByteStateEncoder) (p : Packet), e.encode X current = (.ok p, e') →
        ∃ decision : V30Decision, e'.lastDecision = some decision ∧
          TruthfulChoice X (byteSnapshot (e.sequence + 1) e.schemaHash current.bytes)
            (e.candidates X (e.sequence + 1) current.bytes) Packet.encodedLen p
            ⟨decision.mode, decision.selectedBytes, decision.snapshotBytes,
              decision.candidatesConsidered⟩ :=
  ⟨fun _ _ _ h => ByteStateEncoder.encode_truthful hX h,
    fun _ _ _ h => FastByteStateEncoder.encode_truthful hX h⟩

/-- One byte of thirty changes: both encoders send a sparse delta. -/
theorem byte_choice_one_byte :
    let zeros : Slice := ⟨List.replicate 30 0, by decide⟩
    let changed : Slice := ⟨List.replicate 29 0 ++ [1], by decide⟩
    let e : ByteStateEncoder := ⟨4, some zeros, 7, .default, .new, none⟩
    let f : FastByteStateEncoder := ⟨4, some zeros, 7, .default, .new .default, .default, none⟩
    let p := byteDelta 5 7 zeros.bytes [1, 30, 1, 29, 1]
    (∃ decision, (e.encode .stored changed).2.lastDecision = some decision ∧
      TruthfulChoice .stored (byteSnapshot 5 7 changed.bytes)
        (e.candidates .stored 5 changed.bytes) (ByteStateEncoder.fullCost .default) p decision) ∧
      ∃ decision : V30Decision, (f.encode .stored changed).2.lastDecision = some decision ∧
        TruthfulChoice .stored (byteSnapshot 5 7 changed.bytes)
          (f.candidates .stored 5 changed.bytes) Packet.encodedLen p
          ⟨decision.mode, decision.selectedBytes, decision.snapshotBytes,
            decision.candidatesConsidered⟩ := by
  intro zeros changed e f p
  have he : (e.encode .stored changed).1 = .ok p := by decide +kernel
  have hf : (f.encode .stored changed).1 = .ok p := by decide +kernel
  have h := byte_choice .stored Crates.stored_exact changed
  exact ⟨h.1 e _ p (Prod.ext he rfl), h.2 f _ p (Prod.ext hf rfl)⟩

/-! ## The work of one fast call -/

namespace FastByteStateEncoder

/-- Candidates counted so far, in a search that ended or failed. -/
def consideredBy : Except (DeltaError × Search StrategyAdvisor) (Search StrategyAdvisor) → Nat
  | .ok s => s.considered
  | .error (_, s) => s.considered

/-- The ways in which a call can go: a strategy that refuses the states is not among them. -/
inductive Outcome (X : Crates) (e : FastByteStateEncoder) :
    Except DeltaError Packet × FastByteStateEncoder → Prop where
  | encoded {p : Packet} {e' : FastByteStateEncoder} {decision : V30Decision}
      (hdecision : e'.lastDecision = some decision) (hwork : decision.candidatesConsidered ≤ 5) :
      Outcome X e (.ok p, e')
  | exhausted (hmax : e.sequence.toNat = U64_MAX) :
      Outcome X e (.error (.invalidState "sequence exhausted"), e)
  | compression {payload : Bytes} {msg : String} {e' : FastByteStateEncoder}
      (hfail : X.compress payload e.policy.zstdLevel = .error msg) :
      Outcome X e (.error (.compression msg), e')

theorem deltas_length (e : FastByteStateEncoder) (sequence : UInt64) (previous current : Bytes) :
    (e.deltas sequence previous current).length ≤ 2 := by
  unfold deltas
  rw [List.length_map]
  exact StrategyAdvisor.shortlist_length _ _

/-- A snapshot and two strategies, each with its zstd copy. -/
theorem candidates_length (X : Crates) (e : FastByteStateEncoder) (sequence : UInt64)
    (current : Bytes) : (e.candidates X sequence current).length ≤ 5 := by
  unfold candidates
  cases e.previous with
  | none =>
    have hone := @generated_length _ X (initialPolicy e.policy)
      [byteSnapshot sequence e.schemaHash current] e.advisor
    simp only [List.length_singleton] at hone ⊢
    omega
  | some previous =>
    have htwo := e.deltas_length sequence previous.bytes current
    have hall := @generated_length _ X (searchPolicy e.policy)
      ((e.deltas sequence previous.bytes current).map (·.1)) e.advisor
    simp only [List.length_map, List.length_cons] at hall ⊢
    omega

theorem search_error {e : FastByteStateEncoder} {sequence : UInt64} {current : Bytes}
    {err : DeltaError} {s : Search StrategyAdvisor}
    (h : search X e sequence current = .error (err, s)) :
    s.considered ≤ 5 ∧ ∃ payload msg, X.compress payload e.policy.zstdLevel = .error msg ∧
      err = .compression msg := by
  cases hprev : e.previous with
  | none =>
    rw [search_none hprev] at h
    obtain ⟨rfl, msg, hfail, herr⟩ := Search.tryZstd_error h
    exact ⟨by simp, _, msg, hfail, herr⟩
  | some previous =>
    rw [search_some hprev] at h
    cases h1 : Search.tryDeltas X (searchPolicy e.policy)
        (e.deltas sequence previous.bytes current)
        ⟨byteSnapshot sequence e.schemaHash current, .snapshot, 1, e.advisor⟩ with
    | error failure =>
      rw [h1] at h
      cases h
      obtain ⟨hwork, raw, -, msg, hfail, herr⟩ := Search.tryDeltas_error h1
      have htwo := e.deltas_length sequence previous.bytes current
      simp only at hwork
      exact ⟨by omega, _, msg, hfail, herr⟩
    | ok s1 =>
      rw [h1] at h
      cases h

theorem search_considered_le (X : Crates) (e : FastByteStateEncoder) (sequence : UInt64)
    (current : Bytes) : consideredBy (search X e sequence current) ≤ 5 := by
  cases h : search X e sequence current with
  | ok s =>
    have hle := e.candidates_length X sequence current
    rw [← search_considered h] at hle
    exact hle
  | error failure => exact (search_error h).1

theorem encode_outcome (X : Crates) (e : FastByteStateEncoder) (next : Slice) :
    Outcome X e (e.encode X next) := by
  unfold encode
  by_cases hmax : e.sequence.toNat = U64_MAX
  · rw [if_pos hmax]
    exact .exhausted hmax
  rw [if_neg hmax]
  have hwork := search_considered_le X e (e.sequence + 1) next.bytes
  cases h : search X e (e.sequence + 1) next.bytes with
  | ok s =>
    rw [h] at hwork
    simp only [h]
    exact .encoded rfl hwork
  | error failure =>
    obtain ⟨-, payload, msg, hfail, herr⟩ := search_error h
    simp only [h, herr]
    exact .compression hfail

end FastByteStateEncoder

/-- One or two different strategies that accept the states. -/
structure Applicable (previous current : Bytes) (smartDelta : SmartDeltaPolicy)
    (kinds : List SmartDeltaKind) : Prop where
  nonempty : kinds ≠ []
  length : kinds.length ≤ 2
  nodup : kinds.Nodup
  accepts : ∀ k ∈ kinds, ∃ c, encodeCandidate k previous current smartDelta = .ok c ∧ c.kind = k

theorem shortlist_applicable (advisor : StrategyAdvisor) (previous current : Bytes)
    (smartDelta : SmartDeltaPolicy) :
    Applicable previous current smartDelta
      (advisor.shortlist (ChangeProfile.analyze previous current)) where
  nonempty := by
    obtain ⟨k, h⟩ | ⟨k, l, -, h⟩ :=
      advisor.shortlist_cases (ChangeProfile.analyze previous current) <;> simp [h]
  length := advisor.shortlist_length _
  nodup := by
    obtain ⟨k, h⟩ | ⟨k, l, hne, h⟩ :=
      advisor.shortlist_cases (ChangeProfile.analyze previous current)
    · simp [h]
    · simp [h, hne]
  accepts := by
    intro k hk
    obtain ⟨c, hc⟩ := StrategyAdvisor.shortlist_accepts _ _ _ smartDelta hk
    exact ⟨c, hc, (encodeCandidate_ok.mp hc).1⟩

/-- **Bounded work.**  Whatever the advisor has seen, it proposes one or two different strategies,
    which accept the states; so no call of the fast encoder considers more than five candidates or
    fails for another reason than exhausted numbers or compression. -/
theorem fast_selection_bounded (X : Crates) (advisor : StrategyAdvisor) (previous current : Bytes)
    (smartDelta : SmartDeltaPolicy) (e : FastByteStateEncoder) (next : Slice) :
    Applicable previous current smartDelta
        (advisor.shortlist (ChangeProfile.analyze previous current)) ∧
      FastByteStateEncoder.consideredBy
        (FastByteStateEncoder.search X e (e.sequence + 1) next.bytes) ≤ 5 ∧
      FastByteStateEncoder.Outcome X e (e.encode X next) :=
  ⟨shortlist_applicable .., FastByteStateEncoder.search_considered_le ..,
    FastByteStateEncoder.encode_outcome ..⟩

end DeltaStream
