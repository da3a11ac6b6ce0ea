import DeltaStream.Basic
import DeltaStream.Lib.Ieee
import DeltaStream.Lib.Leb128
import DeltaStream.Lib.Overlay

/-!
# Smart delta strategies

Model of `src/smart_delta.rs`: five encodings of the step from one byte state to the next.

* `encodeSparse`, `encodeRanges`, `encodeXor` (equal lengths), `encodeSplice`,
  `encodeChunks` and their readers `applySparse`, …, `applyChunks`;
* `encodeCandidates`, `encodeCandidate` — what the encoders offer;
* `applyDelta`, `deltaKind` — dispatch on the tag byte;
* `AdaptiveTuner` — the self-tuning compression threshold.

Loops over indices are recursive functions with the loop variables as arguments.  Index
arithmetic of the encoders stays below `2 * isize::MAX` and cannot overflow; the readers'
checked operations are written out.
-/

set_option autoImplicit false

namespace DeltaStream

open ByteReader Overlay

def TAG_SPARSE : UInt8 := 1
def TAG_RANGES : UInt8 := 2
def TAG_XOR : UInt8 := 3
def TAG_SPLICE : UInt8 := 4
def TAG_CHUNKS : UInt8 := 5

inductive SmartDeltaKind where
  | sparse
  | ranges
  | xor
  | splice
  | chunks
  deriving DecidableEq, Repr

structure SmartDeltaCandidate where
  kind : SmartDeltaKind
  payload : Bytes
  deriving DecidableEq

structure SmartDeltaPolicy where
  chunkSize : Usize
  maxRangeGap : Usize
  deriving DecidableEq

def SmartDeltaPolicy.default : SmartDeltaPolicy := ⟨1024, 0⟩

/-! ## The adaptive compression threshold -/

structure AdaptiveTuner where
  samples : Nat
  compressionAttempts : Nat
  compressionWins : Nat
  minZstdPayload : Nat
  deriving DecidableEq

namespace AdaptiveTuner

def new : AdaptiveTuner := ⟨0, 0, 0, 256⟩

def shouldTryZstd (t : AdaptiveTuner) (payloadLen : Nat) : Bool :=
  decide (max t.minZstdPayload 64 ≤ payloadLen)

def observeCompression (t : AdaptiveTuner) (before after : Nat) : AdaptiveTuner :=
  let samples := saturatingAdd t.samples 1
  let attempts := saturatingAdd t.compressionAttempts 1
  let wins := if after < before then saturatingAdd t.compressionWins 1 else t.compressionWins
  if 32 ≤ attempts then
    let winRate := Ieee.divF64 wins attempts
    let minZstdPayload :=
      if winRate < Ieee.toF64 (10 / 100) then
        max 64 (min (min (t.minZstdPayload * 2) USIZE_MAX) (64 * 1024))
      else if Ieee.toF64 (60 / 100) < winRate then max (t.minZstdPayload / 2) 64
      else t.minZstdPayload
    ⟨samples, 0, 0, minZstdPayload⟩
  else ⟨samples, attempts, wins, t.minZstdPayload⟩

end AdaptiveTuner

/-! ## Variable-length numbers -/

def putVarU64 (value : Nat) : Bytes := Leb128.encode value

def readVarU64 : ByteReader DeltaError Nat :=
  Leb128.decode 64 (.invalidPacket "truncated varint") (.invalidPacket "varint overflow")

def ensureConsumed : ByteReader DeltaError Unit :=
  finish (.invalidPacket "trailing smart delta bytes")

/-- The number written for the `n`-th index of an increasing sequence. -/
def indexDelta (n previous index : Nat) : Nat := if n = 0 then index else index - previous

/-- The index read back from it. -/
def addIndexDelta (n previous delta : Nat) (overflow : String) : ByteReader DeltaError Nat :=
  if n = 0 then pure delta
  else if previous + delta > USIZE_MAX then fail (.invalidPacket overflow)
  else pure (previous + delta)

/-! ## Sparse: single changed bytes -/

/-- Changed positions with their new bytes; positions count from `i`. -/
def sparseChanges (previous current : Bytes) (i : Nat) : List (Nat × UInt8) :=
  ((previous.zip current).zipIdx i).filterMap fun p =>
    if p.1.1 ≠ p.1.2 then some (p.2, p.1.2) else none

/-- The entries of a sparse delta; `n` counts the entries already written. -/
def putSparse (n previousIndex : Nat) : List (Nat × UInt8) → Bytes
  | [] => []
  | (index, value) :: rest =>
    putVarU64 (indexDelta n previousIndex index) ++
      (value :: putSparse (n + 1) index rest)

def encodeSparse (previous current : Bytes) : Bytes :=
  let changes := sparseChanges previous current 0
  TAG_SPARSE :: (putVarU64 current.length ++ (putVarU64 changes.length ++
    putSparse 0 0 changes))

/-- The loop `for n in 0..count` with `remaining` rounds to go. -/
def applySparseLoop : (remaining n previousIndex : Nat) → (out : Bytes) →
    ByteReader DeltaError Bytes
  | 0, _, _, out => pure out
  | remaining + 1, n, previousIndex, out => do
    let delta ← readVarU64
    let index ← addIndexDelta n previousIndex delta "sparse index overflow"
    let value ← byte (.invalidPacket "truncated sparse value")
    require (index < out.length) (.invalidPacket "sparse index out of range")
    applySparseLoop remaining (n + 1) index (out.set index value)

def applySparse (base bytes : Bytes) : Except DeltaError Bytes :=
  ByteReader.run (do
    let newLen ← readVarU64
    require (newLen = base.length) (.invalidPacket "sparse delta length mismatch")
    let count ← readVarU64
    let out ← applySparseLoop count 0 0 base
    ensureConsumed
    pure out) bytes

/-! ## Ranges: changed regions, bridging small gaps -/

/-- The inner `while` of `encode_ranges`: the last changed byte of the range under way. -/
def rangeScan (previous current : Bytes) (maxGap i lastChanged : Nat) : Nat :=
  if i < current.length then
    if previous[i]? ≠ current[i]? then rangeScan previous current maxGap (i + 1) i
    else if maxGap < i - lastChanged then lastChanged
    else rangeScan previous current maxGap (i + 1) lastChanged
  else lastChanged
termination_by current.length - i

theorem rangeScan_bounds (previous current : Bytes) (maxGap i lastChanged : Nat)
    (hi : lastChanged < i) (hlast : lastChanged < current.length) :
    lastChanged ≤ rangeScan previous current maxGap i lastChanged ∧
      rangeScan previous current maxGap i lastChanged < current.length := by
  fun_induction rangeScan previous current maxGap i lastChanged with
  | case1 i lastChanged hlt hne ih =>
    have := ih (by omega) hlt
    omega
  | case2 => omega
  | case3 i lastChanged hlt heq hgap ih => exact ih (by omega) hlast
  | case4 => omega

/-- The outer `while` of `encode_ranges` from index `i` on: half-open changed ranges. -/
def changedRanges (previous current : Bytes) (maxGap i : Nat) : List (Nat × Nat) :=
  if h : i < current.length then
    if previous[i]? = current[i]? then changedRanges previous current maxGap (i + 1)
    else
      (i, rangeScan previous current maxGap (i + 1) i + 1) ::
        changedRanges previous current maxGap (rangeScan previous current maxGap (i + 1) i + 1)
  else []
termination_by current.length - i
decreasing_by
  · omega
  · have := rangeScan_bounds previous current maxGap (i + 1) i (by omega) h
    omega

def putRanges (current : Bytes) (previousEnd : Nat) : List (Nat × Nat) → Bytes
  | [] => []
  | (start, stop) :: rest =>
    putVarU64 (start - previousEnd) ++ (putVarU64 (stop - start) ++
      (slice current start stop ++ putRanges current stop rest))

def encodeRanges (previous current : Bytes) (maxGap : Nat) : Bytes :=
  let ranges := changedRanges previous current maxGap 0
  TAG_RANGES :: (putVarU64 current.length ++ (putVarU64 ranges.length ++
    putRanges current 0 ranges))

def applyRangesLoop : (remaining previousEnd : Nat) → (out : Bytes) →
    ByteReader DeltaError Bytes
  | 0, _, out => pure out
  | remaining + 1, previousEnd, out => do
    let gap ← readVarU64
    let len ← readVarU64
    require (previousEnd + gap ≤ USIZE_MAX) (.invalidPacket "range index overflow")
    require (previousEnd + gap + len ≤ USIZE_MAX) (.invalidPacket "range length overflow")
    let src ← take USIZE_MAX len (.invalidPacket "range payload overflow")
      (.invalidPacket "truncated range bytes")
    require (previousEnd + gap + len ≤ out.length) (.invalidPacket "range out of bounds")
    applyRangesLoop remaining (previousEnd + gap + len) (overlay out (previousEnd + gap) src)

def applyRanges (base bytes : Bytes) : Except DeltaError Bytes :=
  ByteReader.run (do
    let newLen ← readVarU64
    require (newLen = base.length) (.invalidPacket "range delta length mismatch")
    let count ← readVarU64
    let out ← applyRangesLoop count 0 base
    ensureConsumed
    pure out) bytes

/-! ## Xor -/

def xorBytes (a b : Bytes) : Bytes := List.zipWith (fun x y => x ^^^ y) a b

def encodeXor (previous current : Bytes) : Bytes :=
  TAG_XOR :: (putVarU64 current.length ++ xorBytes previous current)

/-- The bytes from the cursor to the end, `&bytes[cursor..]`. -/
def readRest : ByteReader DeltaError Bytes := fun bytes pos => .ok (bytes.drop pos, bytes.length)

def applyXor (base bytes : Bytes) : Except DeltaError Bytes :=
  ByteReader.run (do
    let len ← readVarU64
    let left ← remaining
    require (len = base.length ∧ left = len) (.invalidPacket "xor delta length mismatch")
    let src ← readRest
    pure (xorBytes base src)) bytes

/-! ## Splice: common start, common end, new middle -/

/-- `while prefix < max_prefix && previous[prefix] == current[prefix]`. -/
def prefixLoop (previous current : Bytes) (maxPrefix k : Nat) : Nat :=
  if k < maxPrefix ∧ previous[k]? = current[k]? then
    prefixLoop previous current maxPrefix (k + 1)
  else k
termination_by maxPrefix - k

/-- The same from the end: `previous[previous.len() - 1 - suffix]`. -/
def suffixLoop (previous current : Bytes) (maxSuffix k : Nat) : Nat :=
  if k < maxSuffix ∧
      previous[previous.length - 1 - k]? = current[current.length - 1 - k]? then
    suffixLoop previous current maxSuffix (k + 1)
  else k
termination_by maxSuffix - k

def splicePrefix (previous current : Bytes) : Nat :=
  prefixLoop previous current (min previous.length current.length) 0

def spliceSuffix (previous current : Bytes) : Nat :=
  suffixLoop previous current
    (min (previous.length - splicePrefix previous current)
      (current.length - splicePrefix previous current)) 0

def encodeSplice (previous current : Bytes) : Bytes :=
  let pre := splicePrefix previous current
  let suf := spliceSuffix previous current
  let middle := slice current pre (current.length - suf)
  TAG_SPLICE :: (putVarU64 current.length ++ (putVarU64 pre ++ (putVarU64 suf ++
    (putVarU64 middle.length ++ middle))))

def applySplice (base bytes : Bytes) : Except DeltaError Bytes :=
  ByteReader.run (do
    let newLen ← readVarU64
    let pre ← readVarU64
    let suf ← readVarU64
    let middleLen ← readVarU64
    require (pre ≤ base.length ∧ suf ≤ base.length - pre)
      (.invalidPacket "splice base bounds invalid")
    let middle ← take USIZE_MAX middleLen (.invalidPacket "splice overflow")
      (.invalidPacket "truncated splice payload")
    ensureConsumed
    require (pre + middleLen ≤ USIZE_MAX ∧ pre + middleLen + suf ≤ USIZE_MAX)
      (.invalidPacket "splice length overflow")
    require (pre + middleLen + suf = newLen) (.invalidPacket "splice new length mismatch")
    pure (base.take pre ++ (middle ++ base.drop (base.length - suf)))) bytes

/-! ## Chunks: changed blocks of a fixed size -/

/-- `bytes.get(start..stop)`. -/
def getRange (bytes : Bytes) (start stop : Nat) : Option Bytes :=
  if start ≤ stop ∧ stop ≤ bytes.length then some (slice bytes start stop) else none

/-- `current.len().div_ceil(chunk_size)`. -/
def chunkCount (len chunkSize : Nat) : Nat := (len + chunkSize - 1) / chunkSize

/-- Bytes of chunk number `chunk`. -/
def chunkOf (current : Bytes) (chunkSize chunk : Nat) : Bytes :=
  slice current (chunk * chunkSize) (min (chunk * chunkSize + chunkSize) current.length)

def changedChunks (previous current : Bytes) (chunkSize : Nat) : List (Nat × Bytes) :=
  (List.range (chunkCount current.length chunkSize)).filterMap fun chunk =>
    if getRange previous (chunk * chunkSize)
        (min (chunk * chunkSize + chunkSize) current.length) ≠
        some (chunkOf current chunkSize chunk) then
      some (chunk, chunkOf current chunkSize chunk)
    else none

def putChunks (n previousChunk : Nat) : List (Nat × Bytes) → Bytes
  | [] => []
  | (chunk, data) :: rest =>
    putVarU64 (indexDelta n previousChunk chunk) ++
      (putVarU64 data.length ++ (data ++ putChunks (n + 1) chunk rest))

def encodeChunks (previous current : Bytes) (chunkSize : Nat) : Bytes :=
  let changed := changedChunks previous current chunkSize
  TAG_CHUNKS :: (putVarU64 current.length ++ (putVarU64 chunkSize ++
    (putVarU64 changed.length ++ putChunks 0 0 changed)))

/-- `Vec::resize(new_len, 0)`. -/
def resizeZero (bytes : Bytes) (newLen : Nat) : Bytes :=
  bytes.take newLen ++ List.replicate (newLen - bytes.length) 0

def applyChunksLoop (chunkSize : Nat) : (remaining n previousChunk : Nat) → (out : Bytes) →
    ByteReader DeltaError Bytes
  | 0, _, _, out => pure out
  | remaining + 1, n, previousChunk, out => do
    let delta ← readVarU64
    let chunk ← addIndexDelta n previousChunk delta "chunk index overflow"
    let len ← readVarU64
    require (chunk * chunkSize ≤ USIZE_MAX) (.invalidPacket "chunk offset overflow")
    require (chunk * chunkSize + len ≤ USIZE_MAX) (.invalidPacket "chunk length overflow")
    let src ← take USIZE_MAX len (.invalidPacket "chunk payload overflow")
      (.invalidPacket "truncated chunk payload")
    require (chunk * chunkSize + len ≤ out.length) (.invalidPacket "chunk out of bounds")
    applyChunksLoop chunkSize remaining (n + 1) chunk (overlay out (chunk * chunkSize) src)

def applyChunks (base bytes : Bytes) : Except DeltaError Bytes :=
  ByteReader.run (do
    let newLen ← readVarU64
    let chunkSize ← readVarU64
    require (chunkSize ≠ 0) (.invalidPacket "zero chunk size")
    let count ← readVarU64
    let out ← applyChunksLoop chunkSize count 0 0 (resizeZero base newLen)
    ensureConsumed
    pure out) bytes

/-! ## Candidates -/

def encodeCandidates (previous current : Bytes) (policy : SmartDeltaPolicy) :
    List SmartDeltaCandidate :=
  (if previous.length = current.length then
    [⟨.sparse, encodeSparse previous current⟩,
     ⟨.ranges, encodeRanges previous current policy.maxRangeGap.toNat⟩,
     ⟨.xor, encodeXor previous current⟩]
  else []) ++
    [⟨.splice, encodeSplice previous current⟩,
     ⟨.chunks, encodeChunks previous current (max policy.chunkSize.toNat 1)⟩]

def encodeCandidate (kind : SmartDeltaKind) (previous current : Bytes)
    (policy : SmartDeltaPolicy) : Except DeltaError SmartDeltaCandidate :=
  match kind with
  | .sparse =>
    if previous.length ≠ current.length then
      .error (.invalidState "sparse delta requires equal lengths")
    else .ok ⟨.sparse, encodeSparse previous current⟩
  | .ranges =>
    if previous.length ≠ current.length then
      .error (.invalidState "range delta requires equal lengths")
    else .ok ⟨.ranges, encodeRanges previous current policy.maxRangeGap.toNat⟩
  | .xor =>
    if previous.length ≠ current.length then
      .error (.invalidState "xor delta requires equal lengths")
    else .ok ⟨.xor, encodeXor previous current⟩
  | .splice => .ok ⟨.splice, encodeSplice previous current⟩
  | .chunks => .ok ⟨.chunks, encodeChunks previous current (max policy.chunkSize.toNat 1)⟩

/-- `smart_delta::apply`. -/
def applyDelta (base payload : Bytes) : Except DeltaError Bytes :=
  match payload with
  | [] => .error (.invalidPacket "empty smart delta")
  | tag :: bytes =>
    if tag = TAG_SPARSE then applySparse base bytes
    else if tag = TAG_RANGES then applyRanges base bytes
    else if tag = TAG_XOR then applyXor base bytes
    else if tag = TAG_SPLICE then applySplice base bytes
    else if tag = TAG_CHUNKS then applyChunks base bytes
    else .error (.invalidPacket ("unknown smart delta kind " ++ toString tag.toNat))

/-- `smart_delta::kind`. -/
def deltaKind (payload : Bytes) : Except DeltaError SmartDeltaKind :=
  match payload with
  | [] => .error (.invalidPacket "empty smart delta")
  | tag :: _ =>
    if tag = TAG_SPARSE then .ok .sparse
    else if tag = TAG_RANGES then .ok .ranges
    else if tag = TAG_XOR then .ok .xor
    else if tag = TAG_SPLICE then .ok .splice
    else if tag = TAG_CHUNKS then .ok .chunks
    else .error (.invalidPacket ("unknown smart delta kind " ++ toString tag.toNat))

end DeltaStream
