import DeltaStream.FastSelector
import DeltaStream.Selection

/-!
# Byte state encoders and decoder

Model of `src/byte_sync.rs` and `src/v30_sync.rs`: the exhaustive `ByteStateEncoder`, the
`FastByteStateEncoder` with its learned shortlist, and the `ByteStateDecoder` both feed.
Methods on `&mut self` return their result together with the new state; the state of a failed
call is what the source leaves behind.
-/

set_option autoImplicit false

namespace DeltaStream

/-! ## The exhaustive encoder -/

structure V25Policy where
  smartDelta : SmartDeltaPolicy
  enableZstd : Bool
  zstdLevel : Int
  minCompressionSavings : Usize
  compressionCpuPenaltyBytes : Usize
  deriving DecidableEq

def V25Policy.default : V25Policy := ⟨SmartDeltaPolicy.default, true, 1, 8, 0⟩

structure ByteEncodeDecision where
  mode : ByteEncodeMode
  selectedBytes : Nat
  snapshotBytes : Nat
  candidatesConsidered : Nat
  deriving DecidableEq

structure ByteStateEncoder where
  sequence : UInt64
  previous : Option Slice
  schemaHash : UInt64
  policy : V25Policy
  tuner : AdaptiveTuner
  lastDecision : Option ByteEncodeDecision

/-- A snapshot packet of a byte state. -/
def byteSnapshot (sequence schemaHash : UInt64) (current : Bytes) : Packet :=
  Packet.snapshot sequence (fnv1a64 current) schemaHash current

/-- A delta packet for one candidate payload. -/
def byteDelta (sequence schemaHash : UInt64) (previous payload : Bytes) : Packet :=
  Packet.delta sequence (sequence - 1) (fnv1a64 previous) schemaHash payload

namespace ByteStateEncoder

def withPolicy (schemaName : String) (policy : V25Policy) : ByteStateEncoder :=
  ⟨0, none, fnv1a64 (utf8 schemaName), policy, AdaptiveTuner.new, none⟩

def searchPolicy (policy : V25Policy) : SearchPolicy AdaptiveTuner where
  enableZstd := policy.enableZstd
  zstdLevel := policy.zstdLevel
  minSavings := policy.minCompressionSavings.toNat
  penalised len := saturatingAdd len policy.compressionCpuPenaltyBytes.toNat
  shouldTry tuner len := tuner.shouldTryZstd len
  observe tuner raw compressed := tuner.observeCompression raw.encodedLen compressed.encodedLen

/-- The delta packets offered for the next state, one per candidate. -/
def deltas (e : ByteStateEncoder) (sequence : UInt64) (current : Bytes) :
    List (Packet × SmartDeltaKind) :=
  match e.previous with
  | none => []
  | some previous =>
    (encodeCandidates previous.bytes current e.policy.smartDelta).map fun c =>
      (byteDelta sequence e.schemaHash previous.bytes c.payload, c.kind)

def search (X : Crates) (e : ByteStateEncoder) (sequence : UInt64) (current : Bytes) :
    Except (DeltaError × Search AdaptiveTuner) (Search AdaptiveTuner) :=
  let snapshot := byteSnapshot sequence e.schemaHash current
  match Search.tryZstd X (searchPolicy e.policy) snapshot .snapshotZstd
      ⟨snapshot, .snapshot, 1, e.tuner⟩ with
  | .error err => .error err
  | .ok s => Search.tryDeltas X (searchPolicy e.policy) (e.deltas sequence current) s

def encode (X : Crates) (e : ByteStateEncoder) (current : Slice) :
    Except DeltaError Packet × ByteStateEncoder :=
  if e.sequence.toNat = U64_MAX then (.error (.invalidState "sequence exhausted"), e)
  else
    let sequence := e.sequence + 1
    match search X e sequence current.bytes with
    | .error (err, s) => (.error err, { e with sequence := sequence, tuner := s.learned })
    | .ok s =>
      (.ok s.best,
        { e with
          sequence := sequence
          previous := some current
          tuner := s.learned
          lastDecision := some
            ⟨s.mode, s.best.encodedLen,
              (byteSnapshot sequence e.schemaHash current.bytes).encodedLen, s.considered⟩ })

def recoverySnapshot (X : Crates) (e : ByteStateEncoder) (current : Slice) :
    Except DeltaError Packet :=
  let snapshot := byteSnapshot e.sequence e.schemaHash current.bytes
  if e.policy.enableZstd && e.tuner.shouldTryZstd snapshot.payload.length then
    snapshot.zstdCandidate X e.policy.zstdLevel e.policy.minCompressionSavings.toNat
  else .ok snapshot

end ByteStateEncoder

/-! ## The fast encoder -/

structure V30Policy where
  smartDelta : SmartDeltaPolicy
  selector : SelectorPolicy
  enableZstd : Bool
  zstdLevel : Int
  minZstdPayload : Usize
  minCompressionSavings : Usize
  deriving DecidableEq

def V30Policy.default : V30Policy :=
  ⟨SmartDeltaPolicy.default, SelectorPolicy.default, true, 1, 256, 8⟩

structure V30Decision where
  mode : V30EncodeMode
  profile : Option ChangeProfile
  candidatesConsidered : Nat
  selectedBytes : Nat
  snapshotBytes : Nat
  deriving DecidableEq

/-- The counters of `src/runtime.rs` the encoder writes. -/
structure RuntimeMetrics where
  encodedPackets : Nat
  snapshots : Nat
  deltas : Nat
  compressedPackets : Nat
  inputBytes : Nat
  outputBytes : Nat
  selectorCandidates : Nat
  deriving DecidableEq

def RuntimeMetrics.default : RuntimeMetrics := ⟨0, 0, 0, 0, 0, 0, 0⟩

structure FastByteStateEncoder where
  sequence : UInt64
  previous : Option Slice
  schemaHash : UInt64
  policy : V30Policy
  advisor : StrategyAdvisor
  metrics : RuntimeMetrics
  lastDecision : Option V30Decision

namespace FastByteStateEncoder

def withPolicy (schemaName : String) (policy : V30Policy) : FastByteStateEncoder :=
  ⟨0, none, fnv1a64 (utf8 schemaName), policy, StrategyAdvisor.new policy.selector,
    RuntimeMetrics.default, none⟩

/-- Compression of delta candidates, steered by the advisor. -/
def searchPolicy (policy : V30Policy) : SearchPolicy StrategyAdvisor where
  enableZstd := policy.enableZstd
  zstdLevel := policy.zstdLevel
  minSavings := policy.minCompressionSavings.toNat
  penalised len := len
  shouldTry advisor len := advisor.shouldCompress len policy.minZstdPayload.toNat
  observe advisor raw compressed := advisor.observeCompression
    (compressed.isCompressed && decide (compressed.encodedLen < raw.encodedLen))

/-- Compression of the first snapshot, by its length only. -/
def initialPolicy (policy : V30Policy) : SearchPolicy StrategyAdvisor :=
  { searchPolicy policy with
    shouldTry := fun _ len => decide (policy.minZstdPayload.toNat ≤ len)
    observe := fun advisor _ _ => advisor }

/-- One turn of `for kind in shortlist`. -/
def tryKind (X : Crates) (e : FastByteStateEncoder) (sequence : UInt64)
    (previous current : Bytes) (s : Search StrategyAdvisor) (kind : SmartDeltaKind) :
    Except (DeltaError × Search StrategyAdvisor) (Search StrategyAdvisor) :=
  match encodeCandidate kind previous current e.policy.smartDelta with
  | .error err => .error (err, s)
  | .ok candidate =>
    Search.tryDelta X (searchPolicy e.policy)
      (byteDelta sequence e.schemaHash previous candidate.payload) kind s

/-- `observe_winner` for a delta mode, `observe_no_delta` for a snapshot. -/
def learnMode (mode : V30EncodeMode) (advisor : StrategyAdvisor) : StrategyAdvisor :=
  match mode with
  | .delta k | .deltaZstd k => advisor.observeWinner k
  | .snapshot | .snapshotZstd => advisor.observeNoDelta

def search (X : Crates) (e : FastByteStateEncoder) (sequence : UInt64) (current : Bytes) :
    Except (DeltaError × Search StrategyAdvisor) (Search StrategyAdvisor) :=
  let snapshot := byteSnapshot sequence e.schemaHash current
  let start : Search StrategyAdvisor := ⟨snapshot, .snapshot, 1, e.advisor⟩
  match e.previous with
  | some previous =>
    let shortlist := e.advisor.shortlist (ChangeProfile.analyze previous.bytes current)
    match shortlist.foldlM (tryKind X e sequence previous.bytes current) start with
    | .error err => .error err
    | .ok s => .ok { s with learned := learnMode s.mode s.learned }
  | none => Search.tryZstd X (initialPolicy e.policy) snapshot .snapshotZstd start

def countPacket (m : RuntimeMetrics) (current : Bytes) (s : Search StrategyAdvisor) :
    RuntimeMetrics where
  encodedPackets := saturatingAdd m.encodedPackets 1
  inputBytes := saturatingAdd m.inputBytes current.length
  outputBytes := saturatingAdd m.outputBytes s.best.encodedLen
  selectorCandidates := saturatingAdd m.selectorCandidates s.considered
  snapshots :=
    match s.mode with
    | .snapshot | .snapshotZstd => m.snapshots + 1
    | .delta _ | .deltaZstd _ => m.snapshots
  deltas :=
    match s.mode with
    | .snapshot | .snapshotZstd => m.deltas
    | .delta _ | .deltaZstd _ => m.deltas + 1
  compressedPackets :=
    match s.mode with
    | .snapshotZstd | .deltaZstd _ => m.compressedPackets + 1
    | .snapshot | .delta _ => m.compressedPackets

def encode (X : Crates) (e : FastByteStateEncoder) (current : Slice) :
    Except DeltaError Packet × FastByteStateEncoder :=
  if e.sequence.toNat = U64_MAX then (.error (.invalidState "sequence exhausted"), e)
  else
    let sequence := e.sequence + 1
    match search X e sequence current.bytes with
    | .error (err, s) => (.error err, { e with sequence := sequence, advisor := s.learned })
    | .ok s =>
      (.ok s.best,
        { e with
          sequence := sequence
          previous := some current
          advisor := s.learned
          metrics := countPacket e.metrics current.bytes s
          lastDecision := some
            ⟨s.mode, e.previous.map fun p => ChangeProfile.analyze p.bytes current.bytes,
              s.considered, s.best.encodedLen,
              (byteSnapshot sequence e.schemaHash current.bytes).encodedLen⟩ })

def recoverySnapshot (e : FastByteStateEncoder) (current : Slice) : Except DeltaError Packet :=
  .ok (byteSnapshot e.sequence e.schemaHash current.bytes)

end FastByteStateEncoder

/-! ## The decoder -/

inductive ByteApplyResult where
  | applied (sequence : UInt64) (state : Bytes)
  | needRecovery (localSequence : Option UInt64) (requiredSequence : UInt64)
  | duplicate (sequence : UInt64)
  deriving DecidableEq

structure ByteStateDecoder where
  sequence : Option UInt64
  state : Option Bytes
  schemaHash : UInt64
  deriving DecidableEq

namespace ByteStateDecoder

def new (schemaName : String) : ByteStateDecoder := ⟨none, none, fnv1a64 (utf8 schemaName)⟩

/-- `self.sequence.is_some_and(|seq| packet.sequence <= seq)`. -/
def stale (sequence : Option UInt64) (packetSequence : UInt64) : Bool :=
  match sequence with
  | none => false
  | some seq => decide (packetSequence ≤ seq)

/-- The `match packet.kind` of `apply`: the next state, or a result that leaves `self` alone. -/
def nextState (d : ByteStateDecoder) (packet : Packet) (payload : Bytes) :
    Except DeltaError (Bytes ⊕ ByteApplyResult) :=
  match packet.kind with
  | .snapshot =>
    if fnv1a64 payload ≠ packet.baseHash then
      .error (.invalidState "byte snapshot hash mismatch")
    else .ok (.inl payload)
  | .delta =>
    if d.sequence ≠ some packet.baseSequence then
      .ok (.inr (.needRecovery d.sequence packet.baseSequence))
    else
      match d.state with
      | none => .error (.invalidState "byte decoder has no base state")
      | some base =>
        if fnv1a64 base ≠ packet.baseHash then
          .ok (.inr (.needRecovery d.sequence packet.baseSequence))
        else
          match applyDelta base payload with
          | .error e => .error e
          | .ok next => .ok (.inl next)

def apply (X : Crates) (d : ByteStateDecoder) (packet : Packet) :
    Except DeltaError ByteApplyResult × ByteStateDecoder :=
  if packet.schemaHash ≠ d.schemaHash then
    (.error (.schemaMismatch d.schemaHash packet.schemaHash), d)
  else if stale d.sequence packet.sequence then (.ok (.duplicate packet.sequence), d)
  else
    match packet.logicalPayload X with
    | .error e => (.error e, d)
    | .ok payload =>
      match d.nextState packet payload with
      | .error e => (.error e, d)
      | .ok (.inr result) => (.ok result, d)
      | .ok (.inl next) =>
        (.ok (.applied packet.sequence next),
          { d with sequence := some packet.sequence, state := some next })

def reset (d : ByteStateDecoder) : ByteStateDecoder := { d with sequence := none, state := none }

end ByteStateDecoder

end DeltaStream
