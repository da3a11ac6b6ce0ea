import DeltaStream.Adaptive
import DeltaStream.BinaryExact
import DeltaStream.Lib.Replica
import DeltaStream.Schema

/-!
# Typed encoders and decoders

Model of `src/sync.rs`, `src/replay.rs` and the byte API of `src/api.rs`.  `Encoder` and
`GenericEncoder` (and the decoders) run the same state machine over different serialisations;
the machine is modelled once over a `StateCodec`, and `agentCodec` and `serdeCodec` are the two
it is used with.

* `ReplayWindow` — the numbers seen last, never empty after a packet is recorded;
* `TypedDecoder.Valid` — sequence, state and window of a decoder fit together;
* `TypedDecoder.apply_receive` — a valid decoder does to a packet what a replica does to the
  update the packet carries.
-/

set_option autoImplicit false

namespace DeltaStream

open Replica

/-! ## The replay window -/

structure ReplayWindow where
  capacity : Nat
  seen : List UInt64
  capacity_pos : 0 < capacity
  length_le : seen.length ≤ capacity
  deriving DecidableEq

namespace ReplayWindow

def new (capacity : Nat) : ReplayWindow where
  capacity := max capacity 1
  seen := []
  capacity_pos := Nat.lt_of_lt_of_le Nat.zero_lt_one (Nat.le_max_right _ _)
  length_le := Nat.zero_le _

def default : ReplayWindow := new 256

def contains (w : ReplayWindow) (sequence : UInt64) : Bool := w.seen.contains sequence

def clear (w : ReplayWindow) : ReplayWindow := { w with seen := [], length_le := Nat.zero_le _ }

/-- The loop of `record`: drop from the front down to the capacity. -/
def trim (capacity : Nat) : List UInt64 → List UInt64
  | [] => []
  | n :: rest => if rest.length + 1 > capacity then trim capacity rest else n :: rest

theorem trim_length (capacity : Nat) : ∀ seen, (trim capacity seen).length ≤ capacity
  | [] => Nat.zero_le _
  | n :: rest => by
    unfold trim
    split
    · exact trim_length capacity rest
    · rename_i h
      rw [List.length_cons]
      omega

def record (w : ReplayWindow) (sequence : UInt64) : ReplayWindow :=
  if w.contains sequence then w
  else
    { w with
      seen := trim w.capacity (w.seen ++ [sequence])
      length_le := trim_length _ _ }

theorem trim_subset (capacity : Nat) : ∀ (seen : List UInt64), ∀ n ∈ trim capacity seen, n ∈ seen
  | [], _, h => h
  | m :: rest, n, h => by
    unfold trim at h
    split at h
    · exact List.mem_cons_of_mem _ (trim_subset capacity rest n h)
    · exact h

/-- The last number is never dropped. -/
theorem trim_last {capacity : Nat} (hpos : 0 < capacity) (n : UInt64) :
    ∀ (seen : List UInt64), n ∈ trim capacity (seen ++ [n])
  | [] => by
    rw [List.nil_append, trim, if_neg (by simp; omega)]
    exact List.mem_singleton_self n
  | m :: rest => by
    rw [List.cons_append, trim]
    split
    · exact trim_last hpos n rest
    · exact List.mem_cons_of_mem _ (List.mem_append_right _ (List.mem_singleton_self n))

theorem contains_iff {w : ReplayWindow} {n : UInt64} : w.contains n = true ↔ n ∈ w.seen := by
  unfold contains
  exact List.contains_iff_mem

theorem record_self (w : ReplayWindow) (n : UInt64) : n ∈ (w.record n).seen := by
  unfold record
  split
  · rename_i h
    exact contains_iff.mp h
  · exact trim_last w.capacity_pos n w.seen

theorem record_subset {w : ReplayWindow} {n m : UInt64} (h : m ∈ (w.record n).seen) :
    m ∈ w.seen ∨ m = n := by
  unfold record at h
  split at h
  · exact .inl h
  · rcases List.mem_append.mp (trim_subset _ _ m h) with h | h
    · exact .inl h
    · exact .inr (List.mem_singleton.mp h)

end ReplayWindow

/-! ## Serialisations -/

/-- What the two typed streams do differently. -/
structure StateCodec (S : Type) where
  schemaHash : UInt64
  encodeState : S → Except DeltaError Bytes
  /-- the encoded delta from one state to another -/
  encodeDelta : S → S → Except DeltaError Bytes
  /-- the state of a snapshot payload, checked against the hash of the packet -/
  openSnapshot : UInt64 → Bytes → Except DeltaError S
  /-- a delta payload applied to a state -/
  applyDelta : S → Bytes → Except DeltaError S

def AGENT_SCHEMA_NAME : String := "delta-stream/AgentState/v2"

def agentSchemaHash : UInt64 := fnv1a64 (utf8 AGENT_SCHEMA_NAME)

def snapshotHashMismatch : DeltaError := .invalidState "snapshot hash mismatch"

/-- What `Encoder` and `Decoder` do with `AgentState`. -/
def agentCodec : StateCodec AgentState where
  schemaHash := agentSchemaHash
  encodeState state := .ok (encodeAgentState state)
  encodeDelta previous state := encodeAgentDelta (.between previous state)
  openSnapshot baseHash payload :=
    match decodeAgentState payload with
    | .error e => .error e
    | .ok state => if stateHash state ≠ baseHash then .error snapshotHashMismatch else .ok state
  applyDelta current payload :=
    match decodeAgentDelta payload with
    | .error e => .error e
    | .ok delta => delta.apply current

/-- What `GenericEncoder` and `GenericDecoder` do with a `DeltaState`. -/
def serdeCodec {T : Type} (S : Serde T) : StateCodec T where
  schemaHash := S.schemaHash
  encodeState state := encodeGenericSnapshot S state
  encodeDelta previous state :=
    match JsonFieldDelta.between S previous state with
    | .error e => .error e
    | .ok delta => encodeGenericDelta S delta
  openSnapshot baseHash payload :=
    if fnv1a64 payload ≠ baseHash then .error snapshotHashMismatch
    else decodeGenericSnapshot S payload
  applyDelta current payload :=
    match decodeGenericDelta S payload with
    | .error e => .error e
    | .ok delta => delta.apply S current

/-! ## Encoders -/

structure TypedEncoder (S : Type) where
  sequence : UInt64
  lastState : Option S
  policy : AdaptivePolicy
  lastDecision : Option EncodeDecision
  deriving DecidableEq

abbrev Encoder := TypedEncoder AgentState

abbrev GenericEncoder (T : Type) := TypedEncoder T

namespace TypedEncoder

variable {S : Type} (X : Crates) (C : StateCodec S)

def withPolicy (policy : AdaptivePolicy) : TypedEncoder S := ⟨0, none, policy, none⟩

def default : TypedEncoder S := withPolicy .default

/-- `raw_snapshot`. -/
def rawSnapshot (sequence : UInt64) (state : S) : Except DeltaError Packet :=
  match C.encodeState state with
  | .error e => .error e
  | .ok bytes => .ok (.snapshot sequence (fnv1a64 bytes) C.schemaHash bytes)

/-- The selection of `encode`; there is nothing before the first sequence, so `sequence - 1`
    does not wrap. -/
def choose (e : TypedEncoder S) (sequence : UInt64) (state : S) :
    Except DeltaError (Packet × EncodeDecision) :=
  match rawSnapshot C sequence state with
  | .error err => .error err
  | .ok snapshot =>
    match e.lastState with
    | none => e.policy.selectInitial X snapshot
    | some previous =>
      match C.encodeState previous with
      | .error err => .error err
      | .ok old =>
        match C.encodeDelta previous state with
        | .error err => .error err
        | .ok payload =>
          e.policy.select X snapshot
            (.delta sequence (sequence - 1) (fnv1a64 old) C.schemaHash payload)

/-- A failed call has advanced the sequence. -/
def encode (e : TypedEncoder S) (state : S) : Except DeltaError Packet × TypedEncoder S :=
  let e := { e with sequence := nextSequence e.sequence }
  match e.choose X C e.sequence state with
  | .error err => (.error err, e)
  | .ok (packet, decision) =>
    (.ok packet, { e with lastState := some state, lastDecision := some decision })

/-- The state is kept once it is serialised, before a packet is selected. -/
def forceSnapshot (e : TypedEncoder S) (state : S) :
    Except DeltaError Packet × TypedEncoder S :=
  let e := { e with sequence := nextSequence e.sequence }
  match rawSnapshot C e.sequence state with
  | .error err => (.error err, e)
  | .ok snapshot =>
    let e := { e with lastState := some state }
    match e.policy.selectInitial X snapshot with
    | .error err => (.error err, e)
    | .ok (packet, decision) => (.ok packet, { e with lastDecision := some decision })

def recoverySnapshot (e : TypedEncoder S) (state : S) : Except DeltaError Packet :=
  match rawSnapshot C e.sequence state with
  | .error err => .error err
  | .ok snapshot =>
    match e.policy.selectInitial X snapshot with
    | .error err => .error err
    | .ok (packet, _) => .ok packet

end TypedEncoder

namespace Encoder

variable (X : Crates)

def encode (e : Encoder) (state : AgentState) : Except DeltaError Packet × Encoder :=
  TypedEncoder.encode X agentCodec e state

/-- The state is kept before it is serialised. -/
def forceSnapshot (e : Encoder) (state : AgentState) : Except DeltaError Packet × Encoder :=
  let e := { e with sequence := nextSequence e.sequence, lastState := some state }
  match TypedEncoder.rawSnapshot agentCodec e.sequence state with
  | .error err => (.error err, e)
  | .ok snapshot =>
    match e.policy.selectInitial X snapshot with
    | .error err => (.error err, e)
    | .ok (packet, decision) => (.ok packet, { e with lastDecision := some decision })

def recoverySnapshot (e : Encoder) (state : AgentState) : Except DeltaError Packet :=
  TypedEncoder.recoverySnapshot X agentCodec e state

/-- Agent states always serialise, so keeping the state earlier makes no difference. -/
theorem forceSnapshot_eq (e : Encoder) (state : AgentState) :
    forceSnapshot X e state = TypedEncoder.forceSnapshot X agentCodec e state := rfl

end Encoder

namespace GenericEncoder

variable {T : Type} (X : Crates) (S : Serde T)

def encode (e : GenericEncoder T) (state : T) : Except DeltaError Packet × GenericEncoder T :=
  TypedEncoder.encode X (serdeCodec S) e state

def forceSnapshot (e : GenericEncoder T) (state : T) :
    Except DeltaError Packet × GenericEncoder T :=
  TypedEncoder.forceSnapshot X (serdeCodec S) e state

def recoverySnapshot (e : GenericEncoder T) (state : T) : Except DeltaError Packet :=
  TypedEncoder.recoverySnapshot X (serdeCodec S) e state

end GenericEncoder

/-! ## Decoders -/

/-- `ApplyResult` and `GenericApplyResult`. -/
inductive ApplyResult (S : Type) where
  | applied (sequence : UInt64) (state : S)
  | needSnapshot (localSequence : Option UInt64) (requiredSequence : UInt64)
  | duplicate (sequence : UInt64)
  deriving DecidableEq

structure TypedDecoder (S : Type) where
  sequence : Option UInt64
  state : Option S
  replay : ReplayWindow
  deriving DecidableEq

namespace TypedDecoder

variable {S : Type}

def default : TypedDecoder S := ⟨none, none, .default⟩

/-- `self.sequence.is_some_and(|local| packet.sequence < local)`. -/
def older (sequence : Option UInt64) (packetSequence : UInt64) : Bool :=
  match sequence with
  | none => false
  | some localSeq => decide (packetSequence < localSeq)

/-- The `match packet.kind` of `apply_packet`: the next state, or a result that leaves `self`
    alone. -/
def nextState (X : Crates) (C : StateCodec S) (config : DecodeConfig) (d : TypedDecoder S)
    (packet : Packet) : Except DeltaError (S ⊕ ApplyResult S) :=
  match packet.kind with
  | .snapshot =>
    match packet.logicalPayloadWithConfig X config with
    | .error e => .error e
    | .ok payload =>
      match C.openSnapshot packet.baseHash payload with
      | .error e => .error e
      | .ok state => .ok (.inl state)
  | .delta =>
    if d.sequence ≠ some packet.baseSequence then
      .ok (.inr (.needSnapshot d.sequence packet.baseSequence))
    else
      match d.state with
      | none => .error (.invalidState "decoder has no base state")
      | some current =>
        match C.encodeState current with
        | .error e => .error e
        | .ok bytes =>
          if fnv1a64 bytes ≠ packet.baseHash then
            .ok (.inr (.needSnapshot d.sequence packet.baseSequence))
          else
            match packet.logicalPayloadWithConfig X config with
            | .error e => .error e
            | .ok payload =>
              match C.applyDelta current payload with
              | .error e => .error e
              | .ok next => .ok (.inl next)

def applyPacket (X : Crates) (C : StateCodec S) (config : DecodeConfig) (d : TypedDecoder S)
    (packet : Packet) : Except DeltaError (ApplyResult S) × TypedDecoder S :=
  if packet.schemaHash ≠ C.schemaHash then
    (.error (.schemaMismatch C.schemaHash packet.schemaHash), d)
  else if d.replay.contains packet.sequence then (.ok (.duplicate packet.sequence), d)
  else if older d.sequence packet.sequence then (.ok (.duplicate packet.sequence), d)
  else
    match d.nextState X C config packet with
    | .error e => (.error e, d)
    | .ok (.inr result) => (.ok result, d)
    | .ok (.inl state) =>
      (.ok (.applied packet.sequence state),
        ⟨some packet.sequence, some state, d.replay.record packet.sequence⟩)

def reset (d : TypedDecoder S) : TypedDecoder S := ⟨none, none, d.replay.clear⟩

end TypedDecoder

abbrev Decoder := TypedDecoder AgentState

/-- It reads payloads with the default limits. -/
def Decoder.applyPacket (X : Crates) (d : Decoder) (packet : Packet) :
    Except DeltaError (ApplyResult AgentState) × Decoder :=
  TypedDecoder.applyPacket X agentCodec .default d packet

structure GenericDecoder (T : Type) where
  stream : TypedDecoder T
  decodeConfig : DecodeConfig
  deriving DecidableEq

namespace GenericDecoder

variable {T : Type}

def withDecodeConfig (decodeConfig : DecodeConfig) : GenericDecoder T := ⟨.default, decodeConfig⟩

def applyPacket (X : Crates) (S : Serde T) (d : GenericDecoder T) (packet : Packet) :
    Except DeltaError (ApplyResult T) × GenericDecoder T :=
  let r := d.stream.applyPacket X (serdeCodec S) d.decodeConfig packet
  (r.1, { d with stream := r.2 })

def reset (d : GenericDecoder T) : GenericDecoder T := { d with stream := d.stream.reset }

end GenericDecoder

/-! ## The byte API -/

/-- `StatePublisher`. -/
structure Publisher (T : Type) where
  encoder : GenericEncoder T
  deriving DecidableEq

namespace Publisher

variable {T : Type} (X : Crates) (S : Serde T)

def withPolicy (policy : AdaptivePolicy) : Publisher T := ⟨.withPolicy policy⟩

def new : Publisher T := ⟨.default⟩

def update (p : Publisher T) (state : T) : Except DeltaError Packet × Publisher T :=
  let r := p.encoder.encode X S state
  (r.1, ⟨r.2⟩)

def forceSnapshot (p : Publisher T) (state : T) : Except DeltaError Packet × Publisher T :=
  let r := p.encoder.forceSnapshot X S state
  (r.1, ⟨r.2⟩)

def recoverySnapshot (p : Publisher T) (state : T) : Except DeltaError Packet :=
  p.encoder.recoverySnapshot X S state

/-- The packet of `update` as bytes. -/
def encode (p : Publisher T) (state : T) : Except DeltaError Bytes × Publisher T :=
  match p.update X S state with
  | (.error err, p) => (.error err, p)
  | (.ok packet, p) => (packet.encode X, p)

def sequence (p : Publisher T) : UInt64 := p.encoder.sequence

end Publisher

/-- `StateSubscriber`. -/
structure Subscriber (T : Type) where
  decoder : GenericDecoder T
  decodeConfig : DecodeConfig
  deriving DecidableEq

namespace Subscriber

variable {T : Type} (X : Crates) (S : Serde T)

def withDecodeConfig (decodeConfig : DecodeConfig) : Subscriber T :=
  ⟨.withDecodeConfig decodeConfig, decodeConfig⟩

def new : Subscriber T := withDecodeConfig .default

def apply (s : Subscriber T) (packet : Packet) :
    Except DeltaError (ApplyResult T) × Subscriber T :=
  let r := s.decoder.applyPacket X S packet
  (r.1, { s with decoder := r.2 })

def receive (s : Subscriber T) (bytes : Bytes) :
    Except DeltaError (ApplyResult T) × Subscriber T :=
  match Packet.decodeWithConfig X bytes s.decodeConfig with
  | .error e => (.error e, s)
  | .ok packet => s.apply X S packet

def state (s : Subscriber T) : Option T := s.decoder.stream.state

def sequence (s : Subscriber T) : Option UInt64 := s.decoder.stream.sequence

def reset (s : Subscriber T) : Subscriber T :=
  { s with decoder := .withDecodeConfig s.decodeConfig }

end Subscriber

/-! ## A valid decoder is a replica -/

namespace TypedDecoder

variable {S : Type}

/-- Sequence and state are set together; the window holds the sequence and nothing newer. -/
structure Valid (d : TypedDecoder S) : Prop where
  paired : d.sequence.isSome = d.state.isSome
  held : ∀ k, d.sequence = some k → k ∈ d.replay.seen
  seen : ∀ n ∈ d.replay.seen, ∃ k, d.sequence = some k ∧ n ≤ k

/-- What the decoder holds. -/
def view (d : TypedDecoder S) : Option (Nat × S) :=
  match d.sequence, d.state with
  | some n, some s => some (n.toNat, s)
  | _, _ => none

/-- A delta packet as a patch of the states with the right hash. -/
def patchState (X : Crates) (C : StateCodec S) (config : DecodeConfig) (p : Packet)
    (base : S) : Patched S :=
  match C.encodeState base with
  | .error _ => .broken
  | .ok bytes =>
    if fnv1a64 bytes ≠ p.baseHash then .mismatch
    else
      match p.logicalPayloadWithConfig X config with
      | .error _ => .broken
      | .ok payload =>
        match C.applyDelta base payload with
        | .error _ => .broken
        | .ok next => .next next

/-- The update a packet carries. -/
def read (X : Crates) (C : StateCodec S) (config : DecodeConfig) (p : Packet) : Update S :=
  if p.schemaHash ≠ C.schemaHash then .foreign
  else
    match p.kind with
    | .snapshot =>
      match p.logicalPayloadWithConfig X config with
      | .error _ => .broken p.sequence.toNat
      | .ok payload =>
        match C.openSnapshot p.baseHash payload with
        | .error _ => .broken p.sequence.toNat
        | .ok state => .full p.sequence.toNat state
    | .delta => .patch p.sequence.toNat p.baseSequence.toNat (patchState X C config p)

def verdict : Except DeltaError (ApplyResult S) → Verdict S
  | .error _ => .rejected
  | .ok (.applied n s) => .applied n.toNat s
  | .ok (.needSnapshot _ _) => .need
  | .ok (.duplicate _) => .duplicate

theorem verdict_applied {result : Except DeltaError (ApplyResult S)} {n : Nat} {s : S}
    (h : verdict result = .applied n s) : ∃ m, result = .ok (.applied m s) ∧ m.toNat = n := by
  unfold verdict at h
  split at h
  · cases h
  · rename_i m t
    cases h
    exact ⟨m, rfl, rfl⟩
  · cases h
  · cases h

theorem verdict_need {result : Except DeltaError (ApplyResult S)} (h : verdict result = .need) :
    ∃ l r, result = .ok (.needSnapshot l r) := by
  unfold verdict at h
  split at h
  · cases h
  · cases h
  · exact ⟨_, _, rfl⟩
  · cases h

theorem verdict_duplicate {result : Except DeltaError (ApplyResult S)}
    (h : verdict result = .duplicate) : ∃ k, result = .ok (.duplicate k) := by
  unfold verdict at h
  split at h
  · cases h
  · cases h
  · cases h
  · exact ⟨_, rfl⟩

theorem default_valid : (default : TypedDecoder S).Valid where
  paired := rfl
  held := by
    intro k hk
    cases hk
  seen n hn := absurd hn List.not_mem_nil

theorem reset_valid (d : TypedDecoder S) : d.reset.Valid where
  paired := rfl
  held := by
    intro k hk
    cases hk
  seen n hn := absurd hn List.not_mem_nil

theorem Valid.cases {d : TypedDecoder S} (h : d.Valid) :
    (d.sequence = none ∧ d.state = none ∧ d.view = none) ∨
      ∃ n s, d.sequence = some n ∧ d.state = some s ∧ d.view = some (n.toNat, s) := by
  obtain ⟨sequence, state, replay⟩ := d
  have hpaired := h.paired
  cases sequence <;> cases state <;> simp_all [view]

theorem Valid.view_of_sequence {d : TypedDecoder S} (h : d.Valid) {k : UInt64}
    (hk : d.sequence = some k) : ∃ s, d.state = some s ∧ d.view = some (k.toNat, s) := by
  rcases h.cases with ⟨hs, -, -⟩ | ⟨n, s, hs, hst, hv⟩
  · rw [hs] at hk
    cases hk
  · rw [hs] at hk
    cases hk
    exact ⟨s, hst, hv⟩

theorem sequence_of_view {d : TypedDecoder S} {n : UInt64} {s : S}
    (h : d.view = some (n.toNat, s)) : d.sequence = some n ∧ d.state = some s := by
  unfold view at h
  split at h
  · rename_i m t hseq hst
    obtain ⟨hm, rfl⟩ := Prod.mk.inj (Option.some.inj h)
    rw [UInt64.toNat_inj.mp hm] at hseq
    exact ⟨hseq, hst⟩
  · cases h

/-- The window and the age test together are the replica's staleness test. -/
theorem Valid.stale_iff {d : TypedDecoder S} (h : d.Valid) (n : UInt64) :
    (d.replay.contains n = true ∨ older d.sequence n = true) ↔ Stale d.view n.toNat := by
  rcases h.cases with ⟨hs, -, hv⟩ | ⟨k, s, hs, -, hv⟩
  · rw [hs, hv]
    constructor
    · rintro (hseen | hold)
      · obtain ⟨k, hk, -⟩ := h.seen n (ReplayWindow.contains_iff.mp hseen)
        rw [hs] at hk
        cases hk
      · cases hold
    · intro hstale
      exact absurd hstale (not_stale_none _)
  · rw [hv, stale_some, ← UInt64.le_iff_toNat_le]
    constructor
    · rintro (hseen | hold)
      · obtain ⟨k', hk', hle⟩ := h.seen n (ReplayWindow.contains_iff.mp hseen)
        rw [hs] at hk'
        cases hk'
        exact hle
      · rw [hs] at hold
        exact UInt64.le_of_lt (of_decide_eq_true hold)
    · intro hle
      by_cases heq : n = k
      · left
        rw [heq]
        exact ReplayWindow.contains_iff.mpr (h.held k hs)
      · right
        rw [hs]
        exact decide_eq_true (UInt64.lt_of_le_of_ne hle heq)

/-- What a packet makes of the decoder, as the outcome of an update. -/
def outcome : Except DeltaError (S ⊕ ApplyResult S) → Patched S
  | .error _ => .broken
  | .ok (.inl next) => .next next
  | .ok (.inr _) => .mismatch

variable {X : Crates} {C : StateCodec S} {config : DecodeConfig}

theorem read_number {p : Packet} (h : p.schemaHash = C.schemaHash) :
    (read X C config p).number? = some p.sequence.toNat := by
  unfold read
  rw [if_neg (not_not_intro h)]
  split
  · split
    · rfl
    split
    · rfl
    · rfl
  · rfl

theorem read_outcome {d : TypedDecoder S} {p : Packet} (h : d.Valid)
    (hschema : p.schemaHash = C.schemaHash) :
    (read X C config p).outcome d.view = outcome (d.nextState X C config p) := by
  unfold read nextState
  rw [if_neg (not_not_intro hschema)]
  cases hkind : p.kind with
  | snapshot =>
    simp only
    cases p.logicalPayloadWithConfig X config with
    | error e => rfl
    | ok payload =>
      simp only
      cases C.openSnapshot p.baseHash payload with
      | error e => rfl
      | ok state => rfl
  | delta =>
    simp only
    rcases h.cases with ⟨hs, -, hv⟩ | ⟨m, s, hs, hst, hv⟩
    · rw [hs, hv]
      rfl
    simp only [hs, hst, hv]
    by_cases hm : m = p.baseSequence
    · subst hm
      rw [if_neg (by simp), outcome_patch_base]
      unfold patchState
      cases C.encodeState s with
      | error e => rfl
      | ok bytes =>
        simp only
        split
        · rfl
        · cases p.logicalPayloadWithConfig X config with
          | error e => rfl
          | ok payload =>
            simp only
            cases C.applyDelta s payload <;> rfl
    · have hne : m.toNat ≠ p.baseSequence.toNat := fun h => hm (UInt64.toNat_inj.mp h)
      rw [if_pos (by simpa using hm)]
      exact if_neg hne

/-- The only result of `nextState` that is not a state. -/
theorem nextState_needSnapshot {d : TypedDecoder S} {p : Packet} {result : ApplyResult S}
    (h : d.nextState X C config p = .ok (.inr result)) :
    p.kind = .delta ∧ result = .needSnapshot d.sequence p.baseSequence := by
  unfold nextState at h
  split at h
  · split at h
    · cases h
    split at h
    · cases h
    · cases h
  · rename_i hkind
    refine ⟨hkind, ?_⟩
    split at h
    · cases h
      rfl
    split at h
    · cases h
    split at h
    · cases h
    split at h
    · cases h
      rfl
    split at h
    · cases h
    split at h
    · cases h
    · cases h

/-- **The decoder refines the replica**: verdict and held state. -/
theorem apply_receive {d : TypedDecoder S} (h : d.Valid) (p : Packet) :
    receive d.view (read X C config p) =
      (verdict (d.applyPacket X C config p).1, (d.applyPacket X C config p).2.view) := by
  unfold applyPacket
  split
  · rename_i hschema
    unfold read
    rw [if_pos hschema]
    rfl
  rename_i hschema
  have hschema := Decidable.not_not.mp hschema
  have hnumber : (read X C config p).number? = some p.sequence.toNat := read_number hschema
  have hstale := h.stale_iff p.sequence
  split
  · rename_i hseen
    exact receive_stale hnumber (hstale.mp (.inl hseen))
  rename_i hseen
  split
  · rename_i hold
    exact receive_stale hnumber (hstale.mp (.inr hold))
  rename_i hold
  have hfresh : ¬Stale d.view p.sequence.toNat := by
    intro hs
    rcases hstale.mpr hs with hs | hs
    · exact hseen hs
    · exact hold hs
  rw [receive_fresh hnumber hfresh, read_outcome h hschema]
  split
  · rename_i e hres
    rw [hres]
    rfl
  · rename_i result hres
    rw [hres, (nextState_needSnapshot hres).2]
    rfl
  · rename_i next hres
    rw [hres]
    rfl

/-- A packet that passes both tests is newer than what is held. -/
theorem Valid.grows {d : TypedDecoder S} (h : d.Valid) {n k : UInt64}
    (hseen : ¬d.replay.contains n = true) (hold : ¬older d.sequence n = true)
    (hk : d.sequence = some k) : k < n := by
  rw [hk] at hold
  have hle : k ≤ n := UInt64.not_lt.mp fun hlt => hold (decide_eq_true hlt)
  refine UInt64.lt_of_le_of_ne hle ?_
  rintro rfl
  exact hseen (ReplayWindow.contains_iff.mpr (h.held k hk))

/-- Committing a packet that is not older. -/
theorem Valid.commit {d : TypedDecoder S} (h : d.Valid) {n : UInt64} (s : S)
    (hold : ¬older d.sequence n = true) :
    (⟨some n, some s, d.replay.record n⟩ : TypedDecoder S).Valid where
  paired := rfl
  held := by
    intro k hk
    cases hk
    exact ReplayWindow.record_self _ _
  seen := by
    intro m hm
    refine ⟨n, rfl, ?_⟩
    rcases ReplayWindow.record_subset hm with hm | rfl
    · -- what was seen before is not newer than the old sequence
      obtain ⟨k, hk, hle⟩ := h.seen m hm
      rw [hk] at hold
      have hlt : ¬n < k := fun hlt => hold (decide_eq_true hlt)
      exact UInt64.le_trans hle (UInt64.not_lt.mp hlt)
    · exact UInt64.le_refl _

theorem apply_valid {d : TypedDecoder S} (h : d.Valid) (p : Packet) :
    (d.applyPacket X C config p).2.Valid := by
  unfold applyPacket
  split
  · exact h
  split
  · exact h
  split
  · exact h
  rename_i hold
  split
  · exact h
  · exact h
  · exact h.commit _ hold

/-- A decoder that has only been fed packets and reset. -/
inductive Reached (X : Crates) (C : StateCodec S) (config : DecodeConfig) :
    TypedDecoder S → Prop where
  | default : Reached X C config .default
  | applied {d : TypedDecoder S} (h : Reached X C config d) (p : Packet) :
      Reached X C config (d.applyPacket X C config p).2
  | reset {d : TypedDecoder S} (h : Reached X C config d) : Reached X C config d.reset

/-- Every decoder in use is valid. -/
theorem Reached.valid {d : TypedDecoder S} (h : Reached X C config d) : d.Valid := by
  induction h with
  | default => exact default_valid
  | applied _ p ih => exact apply_valid ih p
  | reset _ _ => exact reset_valid _

/-- A packet that cannot be used changes nothing; the sequence held and the base missed are
    reported. -/
theorem apply_need {d : TypedDecoder S} {p : Packet} {l : Option UInt64} {r : UInt64}
    (h : (d.applyPacket X C config p).1 = .ok (.needSnapshot l r)) :
    (d.applyPacket X C config p).2 = d ∧ l = d.sequence ∧ r = p.baseSequence := by
  unfold applyPacket at h ⊢
  split at h
  · cases h
  rename_i hschema
  split at h
  · cases h
  rename_i hseen
  split at h
  · cases h
  rename_i hold
  rw [if_neg hschema, if_neg hseen, if_neg hold]
  split at h
  · cases h
  · rename_i result hres
    cases h
    cases (nextState_needSnapshot hres).2
    exact ⟨rfl, rfl, rfl⟩
  · cases h

/-- Only a packet that is applied changes the decoder. -/
theorem apply_refused {d d' : TypedDecoder S} {p : Packet}
    {result : Except DeltaError (ApplyResult S)} (h : d.applyPacket X C config p = (result, d'))
    (hnot : ∀ n s, result ≠ .ok (.applied n s)) : d' = d := by
  unfold applyPacket at h
  split at h
  · cases h
    rfl
  split at h
  · cases h
    rfl
  split at h
  · cases h
    rfl
  split at h
  · cases h
    rfl
  · cases h
    rfl
  · cases h
    exact absurd rfl (hnot _ _)

/-- A duplicate is not newer than what is held. -/
theorem apply_duplicate {d d' : TypedDecoder S} {p : Packet} {n : UInt64} (h : d.Valid)
    (hcall : d.applyPacket X C config p = (.ok (.duplicate n), d')) :
    Stale d.view p.sequence.toNat := by
  have hstale := h.stale_iff p.sequence
  unfold applyPacket at hcall
  split at hcall
  · cases hcall
  split at hcall
  · rename_i hseen
    exact hstale.mp (.inl hseen)
  split at hcall
  · rename_i hold
    exact hstale.mp (.inr hold)
  split at hcall
  · cases hcall
  · rename_i result hres
    rw [(nextState_needSnapshot hres).2] at hcall
    cases hcall
  · cases hcall

/-- A packet that is applied: its number and the next state are committed. -/
theorem apply_applied {d d' : TypedDecoder S} {p : Packet} {n : UInt64} {s : S}
    (h : d.applyPacket X C config p = (.ok (.applied n s), d')) :
    p.schemaHash = C.schemaHash ∧ n = p.sequence ∧ d.nextState X C config p = .ok (.inl s) ∧
      d' = ⟨some n, some s, d.replay.record n⟩ := by
  unfold applyPacket at h
  split at h
  · cases h
  rename_i hschema
  split at h
  · cases h
  split at h
  · cases h
  split at h
  · cases h
  · rename_i result hres
    rw [(nextState_needSnapshot hres).2] at h
    cases h
  · rename_i next hres
    cases h
    exact ⟨Decidable.not_not.mp hschema, rfl, hres, rfl⟩

/-- A snapshot that is applied is a whole state. -/
theorem read_of_applied {d d' : TypedDecoder S} {p : Packet} {n : UInt64} {s : S}
    (h : d.applyPacket X C config p = (.ok (.applied n s), d')) (hkind : p.kind = .snapshot) :
    read X C config p = .full n.toNat s := by
  obtain ⟨hschema, rfl, hnext, -⟩ := apply_applied h
  unfold nextState at hnext
  simp only [hkind] at hnext
  unfold read
  rw [if_neg (not_not_intro hschema)]
  simp only [hkind]
  cases hpayload : p.logicalPayloadWithConfig X config with
  | error e =>
    rw [hpayload] at hnext
    cases hnext
  | ok payload =>
    simp only [hpayload] at hnext ⊢
    cases hopen : C.openSnapshot p.baseHash payload with
    | error e =>
      rw [hopen] at hnext
      cases hnext
    | ok state =>
      rw [hopen] at hnext
      cases hnext
      rfl

/-- And only a snapshot brings one. -/
theorem read_full {p : Packet} {n : Nat} {s : S} (h : read X C config p = .full n s) :
    p.kind = .snapshot ∧ n = p.sequence.toNat := by
  unfold read at h
  split at h
  · cases h
  split at h
  · rename_i hkind
    split at h
    · cases h
    split at h
    · cases h
    · cases h
      exact ⟨hkind, rfl⟩
  · cases h

/-- A packet that is not newer changes nothing and is reported as a duplicate. -/
theorem apply_stale {d : TypedDecoder S} (h : d.Valid) {p : Packet}
    (hschema : p.schemaHash = C.schemaHash) (hs : Stale d.view p.sequence.toNat) :
    d.applyPacket X C config p = (.ok (.duplicate p.sequence), d) := by
  unfold applyPacket
  rw [if_neg (not_not_intro hschema)]
  split
  · rfl
  rename_i hseen
  rcases (h.stale_iff p.sequence).mpr hs with hcon | hold
  · exact absurd hcon hseen
  · rw [if_pos hold]

/-- A delta is made for the sequence held. -/
theorem nextState_other_base {d : TypedDecoder S} {p : Packet} (hkind : p.kind = .delta)
    (hbase : d.sequence ≠ some p.baseSequence) :
    d.nextState X C config p = .ok (.inr (.needSnapshot d.sequence p.baseSequence)) := by
  unfold nextState
  simp only [hkind]
  rw [if_pos hbase]

/-- A newer delta for another base asks for a snapshot. -/
theorem apply_other_base {d : TypedDecoder S} (h : d.Valid) {p : Packet}
    (hschema : p.schemaHash = C.schemaHash) (hfresh : ¬Stale d.view p.sequence.toNat)
    (hkind : p.kind = .delta) (hbase : d.sequence ≠ some p.baseSequence) :
    d.applyPacket X C config p = (.ok (.needSnapshot d.sequence p.baseSequence), d) := by
  have hstale := h.stale_iff p.sequence
  unfold applyPacket
  rw [if_neg (not_not_intro hschema), if_neg fun hseen => hfresh (hstale.mp (.inl hseen)),
    if_neg fun hold => hfresh (hstale.mp (.inr hold)), nextState_other_base hkind hbase]

end TypedDecoder

/-! ## An agent that becomes busy -/

def busyAgent : AgentState := { idleAgent 0 with progress := 1 }

/-- The packets of an idle and then busy agent. -/
def idlePacket : Packet :=
  .snapshot 1 (stateHash (idleAgent 0)) agentSchemaHash (encodeAgentState (idleAgent 0))

def busyPacket : Packet := .delta 2 1 (stateHash (idleAgent 0)) agentSchemaHash [16, 0, 2]

end DeltaStream
