import DeltaStream.Lib.Ieee
import DeltaStream.Packet

/-!
# Adaptive selection

Model of `src/adaptive.rs`: the policy of the typed encoders, which compares the raw snapshot,
its zstd copy, the raw delta and its zstd copy, the deltas only when they save enough.

* `selectInitial_copy`, `select_copy` — the packet selected is one of the packets given, raw or
  compressed;
* `select_score`, `select_length` — and it neither scores more than the raw snapshot nor is
  longer;
* `selectInitial_error_iff`, `select_error_iff` — selection fails exactly where compressing one
  of them does.
-/

set_option autoImplicit false

namespace DeltaStream

inductive EncodeMode where
  | snapshot
  | delta
  | snapshotZstd
  | deltaZstd
  deriving DecidableEq, Repr

structure EncodeDecision where
  mode : EncodeMode
  snapshotBytes : Nat
  deltaBytes : Option Nat
  snapshotZstdBytes : Option Nat
  deltaZstdBytes : Option Nat
  selectedBytes : Nat
  deriving DecidableEq

def EncodeDecision.initial (snapshotBytes : Nat) (snapshotZstdBytes : Option Nat)
    (mode : EncodeMode) (selectedBytes : Nat) : EncodeDecision :=
  ⟨mode, snapshotBytes, none, snapshotZstdBytes, none, selectedBytes⟩

/-- `max_delta_ratio` is its 64-bit pattern. -/
structure AdaptivePolicy where
  minDeltaSavingsBytes : Usize
  maxDeltaRatio : UInt64
  enableZstd : Bool
  zstdLevel : Int
  minCompressionSavingsBytes : Usize
  compressionCpuPenaltyBytes : Usize
  deriving DecidableEq

/-- The policy of a build with the `zstd-compression` feature, which is a default feature;
    the ratio is `0.98`. -/
def AdaptivePolicy.default : AdaptivePolicy := ⟨1, 0x3FEF5C28F5C28F5C, true, 1, 8, 0⟩

namespace AdaptivePolicy

variable (X : Crates) (policy : AdaptivePolicy)

def score (packet : Packet) : Nat :=
  saturatingAdd packet.encodedLen
    (if packet.isCompressed then policy.compressionCpuPenaltyBytes.toNat else 0)

/-- The zstd candidate of a packet, or the packet itself when compression is off. -/
def candidate (packet : Packet) : Except DeltaError Packet :=
  if policy.enableZstd then
    packet.zstdCandidate X policy.zstdLevel policy.minCompressionSavingsBytes.toNat
  else .ok packet

def selectInitial (snapshot : Packet) : Except DeltaError (Packet × EncodeDecision) :=
  match policy.candidate X snapshot with
  | .error e => .error e
  | .ok compressed =>
    if policy.enableZstd && compressed.isCompressed &&
        decide (policy.score compressed < policy.score snapshot) then
      .ok (compressed, .initial snapshot.encodedLen (some compressed.encodedLen) .snapshotZstd
        compressed.encodedLen)
    else
      .ok (snapshot, .initial snapshot.encodedLen (some compressed.encodedLen) .snapshot
        snapshot.encodedLen)

/-- The delta is small enough, by ratio and by bytes saved. -/
def deltaAllowed (snapshotBytes deltaBytes : Nat) : Bool :=
  decide (0 < snapshotBytes) &&
    Ieee.binary64.le (Ieee.divF64 deltaBytes snapshotBytes) policy.maxDeltaRatio.toNat &&
    decide (saturatingAdd deltaBytes policy.minDeltaSavingsBytes.toNat ≤ snapshotBytes)

/-- Replace the best packet so far by a strictly cheaper one that may be used. -/
def offer (allowed : Bool) (packet : Packet) (mode : EncodeMode) (best : Packet × EncodeMode) :
    Packet × EncodeMode :=
  if allowed && decide (policy.score packet < policy.score best.1) then (packet, mode) else best

def select (snapshot delta : Packet) : Except DeltaError (Packet × EncodeDecision) :=
  let deltaAllowed := policy.deltaAllowed snapshot.encodedLen delta.encodedLen
  match policy.candidate X snapshot with
  | .error e => .error e
  | .ok snapshotZstd =>
    match policy.candidate X delta with
    | .error e => .error e
    | .ok deltaZstd =>
      let best := policy.offer (policy.enableZstd && deltaAllowed && deltaZstd.isCompressed)
        deltaZstd .deltaZstd (policy.offer deltaAllowed delta .delta
          (policy.offer (policy.enableZstd && snapshotZstd.isCompressed) snapshotZstd
            .snapshotZstd (snapshot, .snapshot)))
      .ok (best.1, ⟨best.2, snapshot.encodedLen, some delta.encodedLen,
        some snapshotZstd.encodedLen, some deltaZstd.encodedLen, best.1.encodedLen⟩)

variable {X policy}

theorem candidate_copy {packet q : Packet} (h : policy.candidate X packet = .ok q) :
    Packet.CopyOf X packet q := by
  unfold candidate at h
  split at h
  · exact (Packet.zstdCandidate_cases h).imp_right fun hc => ⟨_, hc⟩
  · cases h
    exact .inl rfl

theorem candidate_total (hX : X.CompressTotal) (packet : Packet) :
    ∃ q, policy.candidate X packet = .ok q := by
  unfold candidate
  split
  · exact Packet.zstdCandidate_total hX _ _ _
  · exact ⟨packet, rfl⟩

/-- zstd is tried on the payload, which must have 64 bytes for that, and fails. -/
def CannotCompress (X : Crates) (policy : AdaptivePolicy) (payload : Bytes) : Prop :=
  policy.enableZstd = true ∧ 64 ≤ payload.length ∧
    ∃ msg, X.compress payload policy.zstdLevel = .error msg

theorem candidate_error_iff {packet : Packet} (hraw : packet.isCompressed = false) :
    (∃ err, policy.candidate X packet = .error err) ↔ policy.CannotCompress X packet.payload := by
  constructor
  · rintro ⟨err, h⟩
    unfold candidate at h
    split at h
    · rename_i henable
      obtain ⟨msg, hmsg, -⟩ := Packet.zstdCandidate_error h
      refine ⟨henable, ?_, msg, hmsg⟩
      by_contra hshort
      -- a short payload is not compressed
      simp [Packet.zstdCandidate, Nat.not_le.mp hshort] at h
    · cases h
  · rintro ⟨henable, hlong, msg, hmsg⟩
    refine ⟨.compression msg, ?_⟩
    simp [candidate, Packet.zstdCandidate, henable, hraw, Nat.not_lt.mpr hlong, hmsg]

/-- The first packet selected is the snapshot, raw or compressed. -/
theorem selectInitial_copy {snapshot p : Packet} {decision : EncodeDecision}
    (h : policy.selectInitial X snapshot = .ok (p, decision)) : Packet.CopyOf X snapshot p := by
  unfold selectInitial at h
  split at h
  · cases h
  rename_i compressed hc
  split at h
  · cases h
    exact candidate_copy hc
  · cases h
    exact .inl rfl

theorem selectInitial_total (hX : X.CompressTotal) (snapshot : Packet) :
    ∃ p decision, policy.selectInitial X snapshot = .ok (p, decision) := by
  obtain ⟨compressed, hc⟩ := @candidate_total X policy hX snapshot
  unfold selectInitial
  rw [hc]
  simp only
  split
  · exact ⟨_, _, rfl⟩
  · exact ⟨_, _, rfl⟩

theorem selectInitial_error_iff {snapshot : Packet} (hraw : snapshot.isCompressed = false) :
    (∃ err, policy.selectInitial X snapshot = .error err) ↔
      policy.CannotCompress X snapshot.payload := by
  rw [← candidate_error_iff hraw]
  unfold selectInitial
  cases policy.candidate X snapshot with
  | error err => simp
  | ok compressed =>
    simp only [reduceCtorEq, exists_false, iff_false]
    split <;> simp

/-- And no longer than it. -/
theorem selectInitial_length {snapshot p : Packet} {decision : EncodeDecision}
    (hlen : snapshot.payload.length ≤ U64_MAX)
    (h : policy.selectInitial X snapshot = .ok (p, decision)) :
    p.encodedLen ≤ snapshot.encodedLen := by
  unfold selectInitial at h
  split at h
  · cases h
  rename_i compressed hc
  split at h
  · cases h
    unfold candidate at hc
    split at hc
    · exact Packet.zstdCandidate_length hlen hc
    · cases hc
      exact Nat.le_refl _
  · cases h
    exact Nat.le_refl _

/-- A property of the best packet survives an offer that has it when it is allowed. -/
theorem offer_property (Good : Packet → Prop) {allowed : Bool} {packet : Packet}
    {mode : EncodeMode} {best : Packet × EncodeMode} (hpacket : allowed = true → Good packet)
    (hbest : Good best.1) : Good (policy.offer allowed packet mode best).1 := by
  unfold offer
  split
  · rename_i h
    exact hpacket (Bool.and_eq_true_iff.mp h).1
  · exact hbest

theorem offer_score (allowed : Bool) (packet : Packet) (mode : EncodeMode)
    (best : Packet × EncodeMode) :
    policy.score (policy.offer allowed packet mode best).1 ≤ policy.score best.1 := by
  unfold offer
  split
  · rename_i h
    rw [Bool.and_eq_true, decide_eq_true_eq] at h
    exact Nat.le_of_lt h.2
  · exact Nat.le_refl _

/-- The snapshot, or the delta if it is small enough, raw or compressed. -/
def Selectable (X : Crates) (policy : AdaptivePolicy) (snapshot delta q : Packet) : Prop :=
  Packet.CopyOf X snapshot q ∨
    (policy.deltaAllowed snapshot.encodedLen delta.encodedLen = true ∧ Packet.CopyOf X delta q)

/-- **What is selected** may be selected. -/
theorem select_copy {snapshot delta p : Packet} {decision : EncodeDecision}
    (h : policy.select X snapshot delta = .ok (p, decision)) :
    policy.Selectable X snapshot delta p := by
  unfold select at h
  simp only at h
  split at h
  · cases h
  rename_i snapshotZstd hs
  split at h
  · cases h
  rename_i deltaZstd hd
  cases h
  apply offer_property (policy.Selectable X snapshot delta)
  · intro ha
    simp only [Bool.and_eq_true] at ha
    exact .inr ⟨ha.1.2, candidate_copy hd⟩
  apply offer_property (policy.Selectable X snapshot delta)
  · intro ha
    exact .inr ⟨ha, .inl rfl⟩
  apply offer_property (policy.Selectable X snapshot delta)
  · intro _
    exact .inl (candidate_copy hs)
  · exact .inl (.inl rfl)

theorem select_total (hX : X.CompressTotal) (snapshot delta : Packet) :
    ∃ p decision, policy.select X snapshot delta = .ok (p, decision) := by
  obtain ⟨snapshotZstd, hs⟩ := @candidate_total X policy hX snapshot
  obtain ⟨deltaZstd, hd⟩ := @candidate_total X policy hX delta
  unfold select
  rw [hs, hd]
  exact ⟨_, _, rfl⟩

theorem select_error_iff {snapshot delta : Packet} (hsnapshot : snapshot.isCompressed = false)
    (hdelta : delta.isCompressed = false) :
    (∃ err, policy.select X snapshot delta = .error err) ↔
      policy.CannotCompress X snapshot.payload ∨ policy.CannotCompress X delta.payload := by
  rw [← candidate_error_iff hsnapshot, ← candidate_error_iff hdelta]
  unfold select
  cases policy.candidate X snapshot with
  | error err => simp
  | ok snapshotZstd =>
    cases policy.candidate X delta with
    | error err => simp
    | ok deltaZstd => simp

/-- It never scores more than the raw snapshot, and its size is the decision's. -/
theorem select_score {snapshot delta p : Packet} {decision : EncodeDecision}
    (h : policy.select X snapshot delta = .ok (p, decision)) :
    policy.score p ≤ policy.score snapshot ∧ decision.selectedBytes = p.encodedLen := by
  unfold select at h
  simp only at h
  split at h
  · cases h
  split at h
  · cases h
  cases h
  refine ⟨?_, rfl⟩
  exact Nat.le_trans (offer_score _ _ _ _)
    (Nat.le_trans (offer_score _ _ _ _) (offer_score _ _ _ _))

/-- A delta that is small enough is no longer than the snapshot. -/
theorem deltaAllowed_length {snapshotBytes deltaBytes : Nat} (hlen : snapshotBytes < U64_MAX)
    (h : policy.deltaAllowed snapshotBytes deltaBytes = true) : deltaBytes ≤ snapshotBytes := by
  unfold deltaAllowed at h
  simp only [Bool.and_eq_true, decide_eq_true_eq] at h
  have hsave := h.2
  unfold saturatingAdd at hsave
  omega

/-- What is selected is no longer than the raw snapshot. -/
theorem select_length {snapshot delta p : Packet} {decision : EncodeDecision}
    (hraw : snapshot.isCompressed = false) (hlen : snapshot.encodedLen < U64_MAX)
    (h : policy.select X snapshot delta = .ok (p, decision)) :
    p.encodedLen ≤ snapshot.encodedLen := by
  have hscore := (select_score h).1
  unfold score saturatingAdd at hscore
  rw [hraw] at hscore
  simp only [Bool.false_eq_true, if_false] at hscore
  omega

end AdaptivePolicy

end DeltaStream
