import DeltaStream.Basic
import DeltaStream.Lib.Ieee
import DeltaStream.Lib.Leb128
import Mathlib.Algebra.Ring.Int.Defs

/-!
# The binary agent codec

Model of `src/state.rs` and `src/binary.rs`: agent states, mask-driven field deltas between
them and the compact encodings of both.  `cpu_percent` is its 32-bit pattern, compared the
way the language compares floats.

* `encodeAgentState`, `decodeAgentState` — the compact encoding of a state;
* `AgentDelta.between`, `AgentDelta.apply` — the fields that differ, and putting them back;
* `encodeAgentDelta`, `decodeAgentDelta` — the encoding of a delta, led by the mask of the
  fields that follow.
-/

set_option autoImplicit false

namespace DeltaStream

open ByteReader

/-- A `String` of the language: never longer than `isize::MAX` bytes. -/
structure Text where
  value : String
  length_le : (utf8 value).length ≤ ISIZE_MAX
  deriving DecidableEq

def Text.empty : Text := ⟨"", Nat.zero_le _⟩

structure AgentState where
  agentId : Text
  model : Text
  status : Text
  task : Text
  progress : UInt8
  tokens : UInt64
  memoryMb : UInt64
  cpuPercent : UInt32
  filesProcessed : UInt64
  currentFile : Text
  deriving DecidableEq

def FIELD_AGENT_ID : UInt16 := (1 : UInt16) <<< 0
def FIELD_MODEL : UInt16 := (1 : UInt16) <<< 1
def FIELD_STATUS : UInt16 := (1 : UInt16) <<< 2
def FIELD_TASK : UInt16 := (1 : UInt16) <<< 3
def FIELD_PROGRESS : UInt16 := (1 : UInt16) <<< 4
def FIELD_TOKENS : UInt16 := (1 : UInt16) <<< 5
def FIELD_MEMORY_MB : UInt16 := (1 : UInt16) <<< 6
def FIELD_CPU_PERCENT : UInt16 := (1 : UInt16) <<< 7
def FIELD_FILES_PROCESSED : UInt16 := (1 : UInt16) <<< 8
def FIELD_CURRENT_FILE : UInt16 := (1 : UInt16) <<< 9

/-- `i128`, wrapping. -/
abbrev I128 := BitVec 128

structure AgentDelta where
  mask : UInt16
  agentId : Option Text
  model : Option Text
  status : Option Text
  task : Option Text
  progressDelta : Option I128
  tokensDelta : Option I128
  memoryMbDelta : Option I128
  cpuPercent : Option UInt32
  filesProcessedDelta : Option I128
  currentFile : Option Text
  deriving DecidableEq

/-! ## Numbers and strings -/

/-- `put_var_u128`. -/
def putVarU128 (value : Nat) : Bytes := Leb128.encode value

/-- The zigzag word `((value << 1) ^ (value >> 127)) as u128`. -/
def zigzag (value : I128) : BitVec 128 := (value <<< 1) ^^^ value.sshiftRight 127

def putVarI128 (value : I128) : Bytes := putVarU128 (zigzag value).toNat

def putString (value : Text) : Bytes :=
  putVarU128 (utf8 value.value).length ++ utf8 value.value

def lengthOverflow : DeltaError := .invalidPacket "length overflow"
def truncatedPayload : DeltaError := .invalidPacket "truncated payload"
def varintOverflow : DeltaError := .invalidPacket "varint overflow"

namespace Reader

/-- `self.take(n)`. -/
def takeBytes (n : Nat) : ByteReader DeltaError Bytes :=
  take USIZE_MAX n lengthOverflow truncatedPayload

def u16 : ByteReader DeltaError UInt16 := do
  let b ← takeBytes 2
  pure (UInt16.ofNat (leValue b))

/-- A float's bit pattern. -/
def f32 : ByteReader DeltaError UInt32 := do
  let b ← takeBytes 4
  pure (UInt32.ofNat (leValue b))

/-- The loop of `var_u128`, with its check for bits beyond the word. -/
def varU128From (value shift : Nat) : ByteReader DeltaError Nat := fun bytes pos =>
  match bytes[pos]? with
  | none => .error truncatedPayload
  | some b =>
    if 128 ≤ shift ∧ b &&& 0x7f ≠ 0 then .error varintOverflow
    else
      let value := value ||| ((b &&& 0x7f).toNat <<< shift) % 2 ^ 128
      if b &&& 0x80 = 0 then .ok (value, pos + 1)
      else if 127 < shift + 7 then .error varintOverflow
      else varU128From value (shift + 7) bytes (pos + 1)
termination_by 128 - shift

def varU128 : ByteReader DeltaError Nat := varU128From 0 0

/-- `((value >> 1) as i128) ^ (-((value & 1) as i128))`. -/
def unzigzag (word : BitVec 128) : I128 := (word >>> 1) ^^^ -(word &&& 1)

def varI128 : ByteReader DeltaError I128 := do
  let value ← varU128
  pure (unzigzag (BitVec.ofNat 128 value))

/-- `String::from_utf8`; a string read from a byte slice is no longer than the slice. -/
def fromUtf8 (bytes : Bytes) : ByteReader DeltaError Text :=
  match String.fromUTF8? ⟨bytes.toArray⟩ with
  | none => fail (.invalidPacket "invalid UTF-8")
  | some s =>
    if h : (utf8 s).length ≤ ISIZE_MAX then pure ⟨s, h⟩
    else fail (.invalidPacket "string length overflow")

def string : ByteReader DeltaError Text := do
  let len ← varU128
  require (len ≤ USIZE_MAX) (.invalidPacket "string length overflow")
  let b ← takeBytes len
  fromUtf8 b

def finish : ByteReader DeltaError Unit :=
  ByteReader.finish (.invalidPacket "trailing payload bytes")

/-- `u8::try_from(r.var_u128()?)` and the like for a word of `bits` bits. -/
def narrow (bits : Nat) (overflow : String) : ByteReader DeltaError Nat := do
  let value ← varU128
  require (value < 2 ^ bits) (.invalidPacket overflow)
  pure value

end Reader

/-! ## States -/

/-- It never fails, so the `Result` of the source is left out. -/
def encodeAgentState (state : AgentState) : Bytes :=
  putString state.agentId ++ (putString state.model ++ (putString state.status ++
    (putString state.task ++ (putVarU128 state.progress.toNat ++
      (putVarU128 state.tokens.toNat ++ (putVarU128 state.memoryMb.toNat ++
        (leBytes 4 state.cpuPercent.toNat ++ (putVarU128 state.filesProcessed.toNat ++
          putString state.currentFile))))))))

/-- `state_hash` of `src/sync.rs`. -/
def stateHash (state : AgentState) : UInt64 := fnv1a64 (encodeAgentState state)

def readAgentState : ByteReader DeltaError AgentState := do
  let agentId ← Reader.string
  let model ← Reader.string
  let status ← Reader.string
  let task ← Reader.string
  let progress ← Reader.narrow 8 "progress overflow"
  let tokens ← Reader.narrow 64 "tokens overflow"
  let memoryMb ← Reader.narrow 64 "memory overflow"
  let cpuPercent ← Reader.f32
  let filesProcessed ← Reader.narrow 64 "files overflow"
  let currentFile ← Reader.string
  Reader.finish
  pure ⟨agentId, model, status, task, UInt8.ofNat progress, UInt64.ofNat tokens,
    UInt64.ofNat memoryMb, cpuPercent, UInt64.ofNat filesProcessed, currentFile⟩

def decodeAgentState (bytes : Bytes) : Except DeltaError AgentState := readAgentState.run bytes

/-! ## Deltas -/

/-- The mask bit and the value of a field that differs. -/
def changed {α : Type} (differs : Bool) (bit : UInt16) (value : α) : UInt16 × Option α :=
  if differs then (bit, some value) else (0, none)

/-- `new as i128 - old as i128`. -/
def difference (new old : Nat) : I128 := BitVec.ofNat 128 new - BitVec.ofNat 128 old

namespace AgentDelta

/-- `old.cpu_percent != new.cpu_percent`. -/
def cpuDiffers (old new : AgentState) : Bool :=
  !Ieee.binary32.eq old.cpuPercent.toNat new.cpuPercent.toNat

def between (old new : AgentState) : AgentDelta :=
  let agentId := changed (old.agentId ≠ new.agentId) FIELD_AGENT_ID new.agentId
  let model := changed (old.model ≠ new.model) FIELD_MODEL new.model
  let status := changed (old.status ≠ new.status) FIELD_STATUS new.status
  let task := changed (old.task ≠ new.task) FIELD_TASK new.task
  let progress := changed (old.progress ≠ new.progress) FIELD_PROGRESS
    (difference new.progress.toNat old.progress.toNat)
  let tokens := changed (old.tokens ≠ new.tokens) FIELD_TOKENS
    (difference new.tokens.toNat old.tokens.toNat)
  let memoryMb := changed (old.memoryMb ≠ new.memoryMb) FIELD_MEMORY_MB
    (difference new.memoryMb.toNat old.memoryMb.toNat)
  let cpuPercent := changed (cpuDiffers old new) FIELD_CPU_PERCENT new.cpuPercent
  let filesProcessed := changed (old.filesProcessed ≠ new.filesProcessed) FIELD_FILES_PROCESSED
    (difference new.filesProcessed.toNat old.filesProcessed.toNat)
  let currentFile := changed (old.currentFile ≠ new.currentFile) FIELD_CURRENT_FILE
    new.currentFile
  ⟨agentId.1 ||| model.1 ||| status.1 ||| task.1 ||| progress.1 ||| tokens.1 ||| memoryMb.1 |||
      cpuPercent.1 ||| filesProcessed.1 ||| currentFile.1,
    agentId.2, model.2, status.2, task.2, progress.2, tokens.2, memoryMb.2, cpuPercent.2,
    filesProcessed.2, currentFile.2⟩

end AgentDelta

/-- `apply_u64_delta` and `apply_u8_delta`: `base as i128 + delta`, narrowed to `bits` bits. -/
def applyNumberDelta (bits base : Nat) (delta : Option I128) (overflow : String) :
    Except DeltaError Nat :=
  match delta with
  | none => .ok base
  | some delta =>
    let value := (BitVec.ofNat 128 base + delta).toInt
    if 0 ≤ value ∧ value < 2 ^ bits then .ok value.toNat
    else .error (.invalidPacket overflow)

def AgentDelta.apply (d : AgentDelta) (base : AgentState) : Except DeltaError AgentState := do
  let progress ← applyNumberDelta 8 base.progress.toNat d.progressDelta "u8 delta overflow"
  let tokens ← applyNumberDelta 64 base.tokens.toNat d.tokensDelta "u64 delta overflow"
  let memoryMb ← applyNumberDelta 64 base.memoryMb.toNat d.memoryMbDelta "u64 delta overflow"
  let filesProcessed ←
    applyNumberDelta 64 base.filesProcessed.toNat d.filesProcessedDelta "u64 delta overflow"
  pure ⟨d.agentId.getD base.agentId, d.model.getD base.model, d.status.getD base.status,
    d.task.getD base.task, UInt8.ofNat progress, UInt64.ofNat tokens, UInt64.ofNat memoryMb,
    d.cpuPercent.getD base.cpuPercent, UInt64.ofNat filesProcessed,
    d.currentFile.getD base.currentFile⟩

/-- One field of an encoded delta: present when its mask bit is. -/
def putField {α : Type} (mask bit : UInt16) (value : Option α) (put : α → Bytes) :
    Except DeltaError Bytes :=
  if mask &&& bit ≠ 0 then
    match value with
    | none => .error (.invalidState "delta mask/value mismatch")
    | some v => .ok (put v)
  else .ok []

def putF32 (bits : UInt32) : Bytes := leBytes 4 bits.toNat

def encodeAgentDelta (d : AgentDelta) : Except DeltaError Bytes := do
  let agentId ← putField d.mask FIELD_AGENT_ID d.agentId putString
  let model ← putField d.mask FIELD_MODEL d.model putString
  let status ← putField d.mask FIELD_STATUS d.status putString
  let task ← putField d.mask FIELD_TASK d.task putString
  let progress ← putField d.mask FIELD_PROGRESS d.progressDelta putVarI128
  let tokens ← putField d.mask FIELD_TOKENS d.tokensDelta putVarI128
  let memoryMb ← putField d.mask FIELD_MEMORY_MB d.memoryMbDelta putVarI128
  let cpuPercent ← putField d.mask FIELD_CPU_PERCENT d.cpuPercent putF32
  let filesProcessed ← putField d.mask FIELD_FILES_PROCESSED d.filesProcessedDelta putVarI128
  let currentFile ← putField d.mask FIELD_CURRENT_FILE d.currentFile putString
  pure (leBytes 2 d.mask.toNat ++ (agentId ++ (model ++ (status ++ (task ++ (progress ++
    (tokens ++ (memoryMb ++ (cpuPercent ++ (filesProcessed ++ currentFile))))))))))

def readField {α : Type} (mask bit : UInt16) (r : ByteReader DeltaError α) :
    ByteReader DeltaError (Option α) :=
  if mask &&& bit ≠ 0 then do
    let v ← r
    pure (some v)
  else pure none

def readAgentDelta : ByteReader DeltaError AgentDelta := do
  let mask ← Reader.u16
  let agentId ← readField mask FIELD_AGENT_ID Reader.string
  let model ← readField mask FIELD_MODEL Reader.string
  let status ← readField mask FIELD_STATUS Reader.string
  let task ← readField mask FIELD_TASK Reader.string
  let progress ← readField mask FIELD_PROGRESS Reader.varI128
  let tokens ← readField mask FIELD_TOKENS Reader.varI128
  let memoryMb ← readField mask FIELD_MEMORY_MB Reader.varI128
  let cpuPercent ← readField mask FIELD_CPU_PERCENT Reader.f32
  let filesProcessed ← readField mask FIELD_FILES_PROCESSED Reader.varI128
  let currentFile ← readField mask FIELD_CURRENT_FILE Reader.string
  Reader.finish
  pure ⟨mask, agentId, model, status, task, progress, tokens, memoryMb, cpuPercent,
    filesProcessed, currentFile⟩

def decodeAgentDelta (bytes : Bytes) : Except DeltaError AgentDelta := readAgentDelta.run bytes

end DeltaStream
