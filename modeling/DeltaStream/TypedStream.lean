import DeltaStream.Sync

/-!
# The typed stream is a replica of the published states

What typed encoders emit, read by the decoder's replica, for any lawful codec; both codecs of
the program are lawful (`agentCodec_lawful`, `serdeCodec_lawful`).

* `TypedEncoder.encode_ok`, `forceSnapshot_ok`, `recoverySnapshot_ok` — a packet emitted is a
  copy of the snapshot of the state or of the delta from the last state;
* `TypedRun.Publish.genuine` — so it says nothing false about the published states;
* `typed_stream_safe` — **state-chain safety**: under any loss, duplication, delay and
  reordering the subscriber holds the state published under its sequence number.
-/

set_option autoImplicit false

namespace DeltaStream

open Replica Soup

variable {S : Type} {X : Crates} {C : StateCodec S} {config : DecodeConfig}

/-! ## Lawful codecs -/

namespace StateCodec

/-- States and deltas serialise, and a state is read back from its snapshot. -/
structure Lawful (C : StateCodec S) : Prop where
  encodes : ∀ s, ∃ bytes, C.encodeState s = .ok bytes
  encodesDelta : ∀ previous s, ∃ payload, C.encodeDelta previous s = .ok payload
  reads : ∀ s bytes, C.encodeState s = .ok bytes →
    C.openSnapshot (fnv1a64 bytes) bytes = .ok s

/-- The delta from one state to another rebuilds the other. -/
def Exact (C : StateCodec S) (previous s : S) : Prop :=
  ∀ payload, C.encodeDelta previous s = .ok payload → C.applyDelta previous payload = .ok s

/-- A state has one serialised form, so one bound is enough. -/
theorem encodes_within {s : S} {bytes : Bytes} {limit : Nat} (hbytes : C.encodeState s = .ok bytes)
    (hfits : bytes.length ≤ limit) :
    ∀ bytes', C.encodeState s = .ok bytes' → bytes'.length ≤ limit := by
  intro bytes' hbytes'
  rw [hbytes] at hbytes'
  cases hbytes'
  exact hfits

end StateCodec

theorem agentCodec_lawful : agentCodec.Lawful where
  encodes s := ⟨encodeAgentState s, rfl⟩
  encodesDelta previous s := by
    obtain ⟨payload, hpayload, -⟩ := decodeAgentDelta_encode (between_consistent previous s)
    exact ⟨payload, hpayload⟩
  reads := by
    intro s bytes hbytes
    cases hbytes
    simp [agentCodec, decodeAgentState_encode, stateHash]

/-- Agent deltas are exact unless `cpu_percent` changes and compares equal. -/
theorem agentCodec_exact {previous s : AgentState}
    (hcpu : AgentDelta.cpuDiffers previous s = true ∨ previous.cpuPercent = s.cpuPercent) :
    agentCodec.Exact previous s := by
  intro payload hpayload
  obtain ⟨bytes, hbytes, hdecode⟩ := decodeAgentDelta_encode (between_consistent previous s)
  have hpayload : encodeAgentDelta (.between previous s) = .ok payload := hpayload
  rw [hbytes] at hpayload
  cases hpayload
  unfold agentCodec
  simp only [hdecode]
  rw [between_apply]
  split
  · rfl
  · rename_i hsame
    rcases hcpu with hdiff | heq
    · exact absurd hdiff hsame
    · rw [heq]

theorem serdeCodec_lawful {T : Type} {S : Serde T} (h : S.Lawful) : (serdeCodec S).Lawful where
  encodes s := by
    obtain ⟨bytes, hbytes, -⟩ := h.bytes s
    exact ⟨bytes, hbytes⟩
  encodesDelta previous s := by
    obtain ⟨oldFields, hold, -⟩ := h.object previous
    obtain ⟨newFields, hnew, -⟩ := h.object s
    obtain ⟨d, hd, -⟩ := JsonFieldDelta.between_apply hold hnew
    obtain ⟨payload, hpayload, -⟩ := h.delta previous s d hd
    refine ⟨payload, ?_⟩
    unfold serdeCodec
    simp only [hd]
    exact hpayload
  reads := by
    intro s bytes hbytes
    obtain ⟨bytes', hbytes', hread⟩ := h.bytes s
    have hbytes : S.toVec s = .ok bytes := hbytes
    rw [hbytes] at hbytes'
    cases hbytes'
    unfold serdeCodec
    simp only
    rw [if_neg (by simp)]
    exact hread

/-- Field deltas are exact where equal values are identical. -/
theorem serdeCodec_exact {T : Type} {S : Serde T} (h : S.Lawful) {previous s : T}
    (hsame : S.SameWhereEqual previous s) : (serdeCodec S).Exact previous s := by
  intro payload hpayload
  obtain ⟨oldFields, hold, hso⟩ := h.object previous
  obtain ⟨newFields, hnew, hsn⟩ := h.object s
  obtain ⟨d, hd, happly⟩ := JsonFieldDelta.between_apply hold hnew
  obtain ⟨bytes, hbytes, hread⟩ := h.delta previous s d hd
  unfold serdeCodec encodeGenericDelta at hpayload
  simp only [hd] at hpayload
  rw [hbytes] at hpayload
  cases hpayload
  unfold serdeCodec decodeGenericDelta
  simp only [hread]
  rw [happly, (sameWhereEqual_iff hold hnew hso hsn).mp hsame]
  exact h.value s _ hnew

/-! ## What encoders emit -/

/-- A copy of the snapshot of a state. -/
def SnapshotOf (X : Crates) (C : StateCodec S) (sequence : UInt64) (s : S) (p : Packet) : Prop :=
  ∃ bytes, C.encodeState s = .ok bytes ∧
    Packet.CopyOf X (.snapshot sequence (fnv1a64 bytes) C.schemaHash bytes) p

/-- A copy of the delta from one state to another. -/
def DeltaOf (X : Crates) (C : StateCodec S) (sequence : UInt64) (previous s : S) (p : Packet) :
    Prop :=
  ∃ old payload, C.encodeState previous = .ok old ∧ C.encodeDelta previous s = .ok payload ∧
    Packet.CopyOf X (.delta sequence (sequence - 1) (fnv1a64 old) C.schemaHash payload) p

namespace TypedEncoder

/-- A delta payload is no longer than the snapshot payload, unless that is too long to be
    compared. -/
def DeltaFits (C : StateCodec S) (previous s : S) : Prop :=
  ∀ bytes payload, C.encodeState s = .ok bytes → C.encodeDelta previous s = .ok payload →
    HEADER_LEN + bytes.length < U64_MAX → payload.length ≤ bytes.length

/-- What a successful call can emit for a state. -/
inductive Emits (X : Crates) (C : StateCodec S) (e : TypedEncoder S) (s : S) (p : Packet) :
    Prop where
  | snapshot (h : SnapshotOf X C (nextSequence e.sequence) s p)
  | delta {previous : S} (hprev : e.lastState = some previous)
      (h : DeltaOf X C (nextSequence e.sequence) previous s p) (hfits : DeltaFits C previous s)

/-- A call that published a state. -/
structure Published (X : Crates) (C : StateCodec S) (e : TypedEncoder S) (s : S) (p : Packet)
    (e' : TypedEncoder S) : Prop where
  sequence : e'.sequence = nextSequence e.sequence
  lastState : e'.lastState = some s
  policy : e'.policy = e.policy
  emits : Emits X C e s p
  length : ∀ bytes, C.encodeState s = .ok bytes → HEADER_LEN + bytes.length < U64_MAX →
    p.encodedLen ≤ HEADER_LEN + bytes.length

theorem rawSnapshot_ok {sequence : UInt64} {s : S} {p : Packet}
    (h : rawSnapshot C sequence s = .ok p) :
    ∃ bytes, C.encodeState s = .ok bytes ∧
      p = .snapshot sequence (fnv1a64 bytes) C.schemaHash bytes := by
  unfold rawSnapshot at h
  split at h
  · cases h
  · rename_i bytes hbytes
    cases h
    exact ⟨bytes, hbytes, rfl⟩

theorem rawSnapshot_total (hC : C.Lawful) (sequence : UInt64) (s : S) :
    ∃ p, rawSnapshot C sequence s = .ok p := by
  obtain ⟨bytes, hbytes⟩ := hC.encodes s
  unfold rawSnapshot
  rw [hbytes]
  exact ⟨_, rfl⟩

/-- The packets `choose` selects from, for the sequence of the call. -/
theorem choose_ok {e : TypedEncoder S} {sequence : UInt64} {s : S} {p : Packet}
    {decision : EncodeDecision} (h : e.choose X C sequence s = .ok (p, decision)) :
    (SnapshotOf X C sequence s p ∨ ∃ previous, e.lastState = some previous ∧
        DeltaOf X C sequence previous s p ∧ DeltaFits C previous s) ∧
      ∀ bytes, C.encodeState s = .ok bytes → HEADER_LEN + bytes.length < U64_MAX →
        p.encodedLen ≤ HEADER_LEN + bytes.length := by
  unfold choose at h
  split at h
  · cases h
  rename_i snapshot hsnap
  obtain ⟨bytes, hbytes, rfl⟩ := rawSnapshot_ok hsnap
  have honly : ∀ bytes', C.encodeState s = .ok bytes' → bytes' = bytes := by
    intro bytes' hbytes'
    rw [hbytes] at hbytes'
    exact (Except.ok.inj hbytes').symm
  split at h
  · refine ⟨.inl ⟨bytes, hbytes, AdaptivePolicy.selectInitial_copy h⟩, ?_⟩
    intro bytes' hbytes' hlen
    rw [honly bytes' hbytes'] at hlen ⊢
    exact AdaptivePolicy.selectInitial_length (by simp only [Packet.snapshot]; omega) h
  rename_i previous hprev
  split at h
  · cases h
  rename_i old hold
  split at h
  · cases h
  rename_i payload hpayload
  constructor
  · rcases AdaptivePolicy.select_copy h with hcopy | ⟨hallowed, hcopy⟩
    · exact .inl ⟨bytes, hbytes, hcopy⟩
    · refine .inr ⟨previous, hprev, ⟨old, payload, hold, hpayload, hcopy⟩, ?_⟩
      intro bytes' payload' hbytes' hpayload' hlen
      rw [hpayload] at hpayload'
      cases hpayload'
      rw [honly bytes' hbytes'] at hlen ⊢
      have hle := AdaptivePolicy.deltaAllowed_length hlen hallowed
      simp only [Packet.encodedLen, Packet.delta] at hle
      omega
  · intro bytes' hbytes' hlen
    rw [honly bytes' hbytes'] at hlen ⊢
    exact AdaptivePolicy.select_length (Packet.snapshot_isCompressed _ _ _ _) hlen h

theorem choose_total (hC : C.Lawful) (hX : X.CompressTotal) (e : TypedEncoder S)
    (sequence : UInt64) (s : S) : ∃ p decision, e.choose X C sequence s = .ok (p, decision) := by
  obtain ⟨snapshot, hsnap⟩ := rawSnapshot_total hC sequence s
  unfold choose
  rw [hsnap]
  simp only
  cases hlast : e.lastState with
  | none => exact AdaptivePolicy.selectInitial_total hX _
  | some previous =>
    obtain ⟨old, hold⟩ := hC.encodes previous
    obtain ⟨payload, hpayload⟩ := hC.encodesDelta previous s
    simp only [hold, hpayload]
    exact AdaptivePolicy.select_total hX _ _

/-- **A successful `encode`** advances the sequence, keeps the state and emits a copy of its
    snapshot or of the delta from the last state. -/
theorem encode_ok {e e' : TypedEncoder S} {s : S} {p : Packet}
    (h : e.encode X C s = (.ok p, e')) : Published X C e s p e' := by
  unfold encode at h
  simp only at h
  split at h
  · cases h
  · rename_i packet decision hchoose
    cases h
    obtain ⟨hemits, hlength⟩ := choose_ok hchoose
    refine ⟨rfl, rfl, rfl, ?_, hlength⟩
    rcases hemits with hsnap | ⟨previous, hprev, hdelta, hfits⟩
    · exact .snapshot hsnap
    · exact .delta hprev hdelta hfits

/-- A failed call has advanced the sequence and kept the last state. -/
theorem encode_error {e e' : TypedEncoder S} {s : S} {err : DeltaError}
    (h : e.encode X C s = (.error err, e')) :
    e' = { e with sequence := nextSequence e.sequence } ∧ (C.Lawful → ¬X.CompressTotal) := by
  unfold encode at h
  simp only at h
  split at h
  · rename_i err' hchoose
    cases h
    refine ⟨rfl, fun hC hX => ?_⟩
    obtain ⟨p, decision, hok⟩ := choose_total hC hX { e with sequence := nextSequence e.sequence }
      (nextSequence e.sequence) s
    rw [hchoose] at hok
    cases hok
  · cases h

/-- A successful `force_snapshot` does the same with the snapshot. -/
theorem forceSnapshot_ok {e e' : TypedEncoder S} {s : S} {p : Packet}
    (h : e.forceSnapshot X C s = (.ok p, e')) :
    Published X C e s p e' ∧ SnapshotOf X C (nextSequence e.sequence) s p := by
  unfold forceSnapshot at h
  simp only at h
  split at h
  · cases h
  rename_i snapshot hsnap
  obtain ⟨bytes, hbytes, rfl⟩ := rawSnapshot_ok hsnap
  split at h
  · cases h
  · rename_i packet decision hselect
    cases h
    have hof : SnapshotOf X C (nextSequence e.sequence) s p :=
      ⟨bytes, hbytes, AdaptivePolicy.selectInitial_copy hselect⟩
    refine ⟨⟨rfl, rfl, rfl, .snapshot hof, ?_⟩, hof⟩
    intro bytes' hbytes' hlen
    rw [hbytes] at hbytes'
    cases hbytes'
    exact AdaptivePolicy.selectInitial_length (by simp only [Packet.snapshot]; omega) hselect

theorem forceSnapshot_sequence (e : TypedEncoder S) (s : S) :
    (e.forceSnapshot X C s).2.sequence = nextSequence e.sequence := by
  unfold forceSnapshot
  simp only
  split
  · rfl
  split <;> rfl

/-- **A recovery snapshot** is a copy of the snapshot of the state at the current sequence. -/
theorem recoverySnapshot_ok {e : TypedEncoder S} {s : S} {p : Packet}
    (h : e.recoverySnapshot X C s = .ok p) : SnapshotOf X C e.sequence s p := by
  unfold recoverySnapshot at h
  split at h
  · cases h
  rename_i snapshot hsnap
  obtain ⟨bytes, hbytes, rfl⟩ := rawSnapshot_ok hsnap
  split at h
  · cases h
  · rename_i packet decision hselect
    cases h
    exact ⟨bytes, hbytes, AdaptivePolicy.selectInitial_copy hselect⟩

/-- It is no longer than the raw snapshot. -/
theorem recoverySnapshot_length {e : TypedEncoder S} {s : S} {p : Packet} {bytes : Bytes}
    (h : e.recoverySnapshot X C s = .ok p) (hbytes : C.encodeState s = .ok bytes)
    (hlen : HEADER_LEN + bytes.length < U64_MAX) : p.encodedLen ≤ HEADER_LEN + bytes.length := by
  unfold recoverySnapshot at h
  split at h
  · cases h
  rename_i snapshot hsnap
  obtain ⟨bytes', hbytes', rfl⟩ := rawSnapshot_ok hsnap
  rw [hbytes] at hbytes'
  cases hbytes'
  split at h
  · cases h
  · rename_i packet decision hselect
    cases h
    exact AdaptivePolicy.selectInitial_length (by simp only [Packet.snapshot]; omega) hselect

/-- It can be written where the state's bytes are within the limit of the wire. -/
theorem recoverySnapshot_wire {e : TypedEncoder S} {s : S} {p : Packet} {bytes : Bytes}
    (h : e.recoverySnapshot X C s = .ok p) (hbytes : C.encodeState s = .ok bytes)
    (hwire : bytes.length ≤ MAX_WIRE_PAYLOAD) : ∃ wire, p.encode X = .ok wire := by
  have hlimit : HEADER_LEN + MAX_WIRE_PAYLOAD < U64_MAX := by decide
  have hlen := recoverySnapshot_length h hbytes (by omega)
  obtain ⟨bytes', hbytes', hcopy⟩ := recoverySnapshot_ok h
  obtain ⟨wire, hencode, -⟩ := hcopy.wire rfl (by omega)
  exact ⟨wire, hencode⟩

/-- While compression works, the recovery snapshot of a state that serialises can be taken. -/
theorem recoverySnapshot_of_encodes (hX : X.CompressTotal) (e : TypedEncoder S) {s : S}
    {bytes : Bytes} (hbytes : C.encodeState s = .ok bytes) :
    ∃ p, e.recoverySnapshot X C s = .ok p := by
  obtain ⟨p, decision, hselect⟩ : ∃ p decision, e.policy.selectInitial X
      (.snapshot e.sequence (fnv1a64 bytes) C.schemaHash bytes) = .ok (p, decision) :=
    AdaptivePolicy.selectInitial_total hX _
  unfold recoverySnapshot rawSnapshot
  simp only [hbytes, hselect]
  exact ⟨p, rfl⟩

theorem recoverySnapshot_total (hC : C.Lawful) (hX : X.CompressTotal) (e : TypedEncoder S)
    (s : S) : ∃ p, e.recoverySnapshot X C s = .ok p := by
  obtain ⟨bytes, hbytes⟩ := hC.encodes s
  exact recoverySnapshot_of_encodes hX e hbytes

end TypedEncoder

/-! ## Reading what encoders emit -/

/-- An emitted packet that fits the wire travels. -/
theorem TypedEncoder.Emits.wire {e : TypedEncoder S} {s : S} {p : Packet} (h : Emits X C e s p)
    (hlen : p.encodedLen ≤ HEADER_LEN + MAX_WIRE_PAYLOAD) :
    ∃ bytes, p.encode X = .ok bytes ∧ Packet.decode X bytes = .ok p := by
  cases h with
  | snapshot h =>
    obtain ⟨bytes, -, hcopy⟩ := h
    exact hcopy.wire rfl hlen
  | delta _ h _ =>
    obtain ⟨old, payload, -, -, hcopy⟩ := h
    exact hcopy.wire rfl hlen

namespace SnapshotOf

variable {sequence : UInt64} {s : S} {p : Packet}

theorem sequence_eq (h : SnapshotOf X C sequence s p) : p.sequence = sequence := by
  obtain ⟨bytes, -, hcopy⟩ := h
  exact hcopy.header.sequence

theorem kind_eq (h : SnapshotOf X C sequence s p) : p.kind = .snapshot := by
  obtain ⟨bytes, -, hcopy⟩ := h
  exact hcopy.header.kind

theorem schemaHash_eq (h : SnapshotOf X C sequence s p) : p.schemaHash = C.schemaHash := by
  obtain ⟨bytes, -, hcopy⟩ := h
  exact hcopy.header.schemaHash

/-- A snapshot that can be read is the whole state. -/
theorem read (hC : C.Lawful) (hd : X.DecompressInverts) (h : SnapshotOf X C sequence s p) :
    TypedDecoder.read X C config p = .full sequence.toNat s ∨
      TypedDecoder.read X C config p = .broken sequence.toNat := by
  obtain ⟨bytes, hbytes, hcopy⟩ := h
  have hkind : p.kind = .snapshot := hcopy.header.kind
  have hhash : p.baseHash = fnv1a64 bytes := hcopy.header.baseHash
  have hseq : p.sequence = sequence := hcopy.header.sequence
  have hschema : p.schemaHash = C.schemaHash := hcopy.header.schemaHash
  unfold TypedDecoder.read
  rw [if_neg (not_not_intro hschema)]
  simp only [hkind, hseq]
  cases hlp : p.logicalPayloadWithConfig X config with
  | error e => exact .inr rfl
  | ok payload =>
    left
    rw [hcopy.payload_ok hd (Packet.snapshot_isCompressed _ _ _ _) hlp]
    simp only [Packet.snapshot, hhash, hC.reads s bytes hbytes]

/-- Within the limit it can be read. -/
theorem read_fits (hC : C.Lawful) (hd : X.ZstdExact) (h : SnapshotOf X C sequence s p)
    (hfits : ∀ bytes, C.encodeState s = .ok bytes →
      bytes.length ≤ config.maxDecompressedBytes) :
    TypedDecoder.read X C config p = .full sequence.toNat s := by
  obtain ⟨bytes, hbytes, hcopy⟩ := h
  have hkind : p.kind = .snapshot := hcopy.header.kind
  have hhash : p.baseHash = fnv1a64 bytes := hcopy.header.baseHash
  have hseq : p.sequence = sequence := hcopy.header.sequence
  have hschema : p.schemaHash = C.schemaHash := hcopy.header.schemaHash
  have hlp : p.logicalPayloadWithConfig X config = .ok bytes :=
    hcopy.payload_fits hd (Packet.snapshot_isCompressed _ _ _ _) (hfits bytes hbytes)
  unfold TypedDecoder.read
  rw [if_neg (not_not_intro hschema), hlp]
  simp only [hkind, hseq, hhash, hC.reads s bytes hbytes]

end SnapshotOf

namespace DeltaOf

variable {sequence : UInt64} {previous s : S} {p : Packet}

theorem sequence_eq (h : DeltaOf X C sequence previous s p) : p.sequence = sequence := by
  obtain ⟨old, payload, -, -, hcopy⟩ := h
  exact hcopy.header.sequence

theorem kind_eq (h : DeltaOf X C sequence previous s p) : p.kind = .delta := by
  obtain ⟨old, payload, -, -, hcopy⟩ := h
  exact hcopy.header.kind

theorem baseSequence_eq (h : DeltaOf X C sequence previous s p) :
    p.baseSequence = sequence - 1 := by
  obtain ⟨old, payload, -, -, hcopy⟩ := h
  exact hcopy.header.baseSequence

theorem schemaHash_eq (h : DeltaOf X C sequence previous s p) : p.schemaHash = C.schemaHash := by
  obtain ⟨old, payload, -, -, hcopy⟩ := h
  exact hcopy.header.schemaHash

theorem read (h : DeltaOf X C sequence previous s p) :
    TypedDecoder.read X C config p = .patch sequence.toNat (sequence - 1).toNat
      (TypedDecoder.patchState X C config p) := by
  unfold TypedDecoder.read
  rw [if_neg (not_not_intro h.schemaHash_eq)]
  simp only [h.kind_eq, h.sequence_eq, h.baseSequence_eq]

/-- The patch of an exact delta makes the new state of the old one, or cannot be read. -/
theorem patch (hd : X.DecompressInverts) (hexact : C.Exact previous s)
    (h : DeltaOf X C sequence previous s p) {t : S}
    (ht : TypedDecoder.patchState X C config p previous = .next t) : t = s := by
  obtain ⟨old, payload, hold, hpayload, hcopy⟩ := h
  have hhash : p.baseHash = fnv1a64 old := hcopy.header.baseHash
  unfold TypedDecoder.patchState at ht
  rw [hold, hhash] at ht
  simp only at ht
  rw [if_neg (by simp)] at ht
  split at ht
  · cases ht
  rename_i out hlp
  rw [hcopy.payload_ok hd (Packet.delta_isCompressed _ _ _ _ _) hlp] at ht
  simp only [Packet.delta, hexact payload hpayload] at ht
  cases ht
  rfl

/-- Within the limit it can be read. -/
theorem patch_fits (hd : X.ZstdExact) (hexact : C.Exact previous s)
    (h : DeltaOf X C sequence previous s p)
    (hfits : ∀ payload, C.encodeDelta previous s = .ok payload →
      payload.length ≤ config.maxDecompressedBytes) :
    TypedDecoder.patchState X C config p previous = .next s := by
  obtain ⟨old, payload, hold, hpayload, hcopy⟩ := h
  have hhash : p.baseHash = fnv1a64 old := hcopy.header.baseHash
  have hlp : p.logicalPayloadWithConfig X config = .ok payload :=
    hcopy.payload_fits hd (Packet.delta_isCompressed _ _ _ _ _) (hfits payload hpayload)
  unfold TypedDecoder.patchState
  rw [hold, hhash]
  simp only
  rw [if_neg (by simp), hlp]
  simp only [hexact payload hpayload]

end DeltaOf

theorem TypedEncoder.Emits.sequence {e : TypedEncoder S} {s : S} {p : Packet}
    (h : Emits X C e s p) : p.sequence = nextSequence e.sequence := by
  cases h with
  | snapshot h => exact h.sequence_eq
  | delta _ h _ => exact h.sequence_eq

theorem TypedEncoder.Emits.schemaHash {e : TypedEncoder S} {s : S} {p : Packet}
    (h : Emits X C e s p) : p.schemaHash = C.schemaHash := by
  cases h with
  | snapshot h => exact h.schemaHash_eq
  | delta _ h _ => exact h.schemaHash_eq

/-- A delta is made on the number before its own. -/
theorem TypedEncoder.Emits.base {e : TypedEncoder S} {s : S} {p : Packet} (h : Emits X C e s p)
    (hdelta : p.kind = .delta) : p.sequence.toNat = p.baseSequence.toNat + 1 := by
  cases h with
  | snapshot h => exact absurd (h.kind_eq.symm.trans hdelta) (by decide)
  | delta _ h _ =>
    have hpos := nextSequence_pos e.sequence
    have hone : (1 : UInt64).toNat = 1 := rfl
    have hle : (1 : UInt64) ≤ nextSequence e.sequence := UInt64.le_iff_toNat_le.mpr hpos
    rw [h.sequence_eq, h.baseSequence_eq, UInt64.toNat_sub_of_le _ _ hle]
    omega

/-! ## Publisher runs -/

/-- An encoder and the states it has published so far. -/
structure TypedRun (S : Type) where
  encoder : TypedEncoder S
  log : List S

namespace TypedRun

/-- One successful call, `recovery_snapshot` on the last published state, fewer than `2^64 - 1`
    updates in all. -/
inductive Publish (X : Crates) (C : StateCodec S) :
    TypedRun S → List Packet → TypedRun S → Prop where
  | encoded {run : TypedRun S} {state : S} {p : Packet} {encoder' : TypedEncoder S}
      (room : run.log.length + 1 < U64_MAX)
      (h : run.encoder.encode X C state = (.ok p, encoder')) :
      Publish X C run [p] ⟨encoder', run.log ++ [state]⟩
  | forced {run : TypedRun S} {state : S} {p : Packet} {encoder' : TypedEncoder S}
      (room : run.log.length + 1 < U64_MAX)
      (h : run.encoder.forceSnapshot X C state = (.ok p, encoder')) :
      Publish X C run [p] ⟨encoder', run.log ++ [state]⟩
  | recovery {run : TypedRun S} {last : S} {p : Packet} (hlast : run.log.getLast? = some last)
      (h : run.encoder.recoverySnapshot X C last = .ok p) : Publish X C run [p] run

/-- The encoder's number and last state are those of the log. -/
structure Tracks (run : TypedRun S) : Prop where
  sequence : run.encoder.sequence.toNat = run.log.length
  lastState : run.encoder.lastState = run.log.getLast?

theorem Tracks.nth_last {run : TypedRun S} {last : S} (h : run.Tracks)
    (hlast : run.log.getLast? = some last) :
    nth run.log run.encoder.sequence.toNat = some last := by
  rw [h.sequence, nth_length, hlast]

theorem Tracks.next {run : TypedRun S} (h : run.Tracks) (room : run.log.length < U64_MAX) :
    (nextSequence run.encoder.sequence).toNat = run.log.length + 1 := by
  rw [toNat_nextSequence (by rw [h.sequence]; exact room), h.sequence]

theorem Tracks.base {run : TypedRun S} (h : run.Tracks) (room : run.log.length < U64_MAX) :
    (nextSequence run.encoder.sequence - 1).toNat = run.log.length := by
  have hnum := h.next room
  have hone : (1 : UInt64) ≤ nextSequence run.encoder.sequence := by
    rw [UInt64.le_iff_toNat_le, hnum]
    exact Nat.succ_le_succ (Nat.zero_le _)
  rw [UInt64.toNat_sub_of_le _ _ hone, hnum]
  rfl

/-- Publishing a state keeps track of it. -/
theorem Tracks.step {run : TypedRun S} {s : S} {p : Packet} {encoder' : TypedEncoder S}
    (h : run.Tracks) (room : run.log.length < U64_MAX)
    (hp : TypedEncoder.Published X C run.encoder s p encoder') :
    Tracks ⟨encoder', run.log ++ [s]⟩ where
  sequence := by
    rw [hp.sequence, h.next room]
    simp
  lastState := by
    rw [hp.lastState]
    simp

/-- What is emitted for a state is genuine once the state is in the log. -/
theorem Tracks.genuine {run : TypedRun S} {s : S} {p : Packet} (hC : C.Lawful)
    (hd : X.DecompressInverts) (hexact : ∀ previous ∈ run.encoder.lastState, C.Exact previous s)
    (h : run.Tracks) (room : run.log.length < U64_MAX)
    (hp : TypedEncoder.Emits X C run.encoder s p) :
    Genuine (run.log ++ [s]) (TypedDecoder.read X C config p) := by
  have hnum := h.next room
  have hnew := nth_length_append run.log s
  cases hp with
  | snapshot hsnap =>
    have hread : TypedDecoder.read X C config p = _ ∨ TypedDecoder.read X C config p = _ :=
      hsnap.read hC hd
    rcases hread with hread | hread
    · rw [hread, hnum]
      exact hnew
    · rw [hread]
      trivial
  | @delta previous hprev hdelta _ =>
    have hlast : run.log.getLast? = some previous := by rw [← h.lastState, hprev]
    have hold := h.nth_last hlast
    rw [h.sequence] at hold
    rw [hdelta.read, hnum, h.base room]
    refine ⟨rfl, previous, nth_append hold, ?_⟩
    intro t ht
    rw [hdelta.patch hd (hexact previous hprev) ht]
    exact hnew

/-- What is emitted for a state that fits the receiver's limit brings it to a replica one
    behind. -/
theorem Tracks.delivers {run : TypedRun S} {s : S} {p : Packet} (hC : C.Lawful)
    (hd : X.ZstdExact) (hexact : ∀ previous ∈ run.encoder.lastState, C.Exact previous s)
    (h : run.Tracks) (room : run.log.length < U64_MAX)
    (hp : TypedEncoder.Emits X C run.encoder s p)
    (hfits : ∀ bytes, C.encodeState s = .ok bytes →
      bytes.length ≤ config.maxDecompressedBytes ∧ HEADER_LEN + bytes.length < U64_MAX) :
    Delivers (run.log ++ [s]) (run.log.length + 1) (TypedDecoder.read X C config p) := by
  have hnum := h.next room
  have hnew := nth_length_append run.log s
  cases hp with
  | snapshot hsnap =>
    rw [hsnap.read_fits hC hd fun bytes hbytes => (hfits bytes hbytes).1, hnum]
    exact ⟨rfl, hnew⟩
  | @delta previous hprev hdelta hsmall =>
    have hlast : run.log.getLast? = some previous := by rw [← h.lastState, hprev]
    have hold := h.nth_last hlast
    rw [h.sequence] at hold
    rw [hdelta.read, hnum, h.base room]
    refine ⟨rfl, rfl, previous, s, nth_append hold, ?_, hnew⟩
    refine hdelta.patch_fits hd (hexact previous hprev) fun payload hpayload => ?_
    obtain ⟨bytes, hbytes⟩ := hC.encodes s
    obtain ⟨hmax, hlen⟩ := hfits bytes hbytes
    exact Nat.le_trans (hsmall bytes payload hbytes hpayload hlen) hmax

/-- **One publisher step**: the log is kept or extended and what is sent is genuine for it. -/
theorem Publish.genuine (config : DecodeConfig) (hC : C.Lawful) (hd : X.DecompressInverts)
    (hexact : ∀ previous s, C.Exact previous s) {run run' : TypedRun S} {ps : List Packet}
    (h : run.Tracks) (hp : Publish X C run ps run') :
    run'.Tracks ∧ (∃ more, run'.log = run.log ++ more) ∧
      ∀ p ∈ ps, Genuine run'.log (TypedDecoder.read X C config p) := by
  cases hp with
  | @encoded state p encoder' room he =>
    have hok := TypedEncoder.encode_ok he
    have room : run.log.length < U64_MAX := by omega
    refine ⟨h.step room hok, ⟨[state], rfl⟩, ?_⟩
    intro q hq
    rw [List.mem_singleton.mp hq]
    exact h.genuine hC hd (fun previous _ => hexact previous state) room hok.emits
  | @forced state p encoder' room he =>
    have hok := (TypedEncoder.forceSnapshot_ok he).1
    have room : run.log.length < U64_MAX := by omega
    refine ⟨h.step room hok, ⟨[state], rfl⟩, ?_⟩
    intro q hq
    rw [List.mem_singleton.mp hq]
    exact h.genuine hC hd (fun previous _ => hexact previous state) room hok.emits
  | @recovery last p hlast he =>
    refine ⟨h, ⟨[], (List.append_nil _).symm⟩, ?_⟩
    intro q hq
    rw [List.mem_singleton.mp hq]
    have hread : TypedDecoder.read X C config p = _ ∨ TypedDecoder.read X C config p = _ :=
      (TypedEncoder.recoverySnapshot_ok he).read hC hd
    rcases hread with hread | hread
    · rw [hread]
      exact h.nth_last hlast
    · rw [hread]
      trivial

end TypedRun

/-! ## Fields without floats -/

/-- A state with one `bool` field `on`, and a field `place` whose type has a single value. -/
structure Switch where
  on : Bool
  deriving DecidableEq

namespace Switch

def place : String := "StaircaseSecondFloor"

def fields (state : Switch) : List (String × Value) :=
  [("on", .bool state.on), ("place", .string place)]

def text (state : Switch) : Bytes :=
  utf8 (if state.on then "\x7b\"on\":true,\"place\":\"StaircaseSecondFloor\"\x7d"
    else "\x7b\"on\":false,\"place\":\"StaircaseSecondFloor\"\x7d")

def unchanged : Bytes := utf8 "\x7b\"changed\":\x7b\x7d,\"removed\":[]\x7d"

def turned (on : Bool) : Bytes :=
  utf8 (if on then "\x7b\"changed\":\x7b\"on\":true\x7d,\"removed\":[]\x7d"
    else "\x7b\"changed\":\x7b\"on\":false\x7d,\"removed\":[]\x7d")

def unreadable : DeltaError := .json "unexpected value"

/-- The derived implementations, as far as the two states and the deltas between them go.  Other
    keys are ignored. -/
def serde : Serde Switch where
  schemaName := "switch/v1"
  toValue state := .ok (.object state.fields)
  fromValue
    | .object fields =>
      match SortedMap.get? fields "on", SortedMap.get? fields "place" with
      | some (.bool on), some (.string name) =>
        if name = place then .ok ⟨on⟩ else .error unreadable
      | _, _ => .error unreadable
    | _ => .error unreadable
  toVec state := .ok state.text
  fromSlice bytes :=
    if bytes = text ⟨true⟩ then .ok ⟨true⟩
    else if bytes = text ⟨false⟩ then .ok ⟨false⟩
    else .error unreadable
  deltaToVec
    | ⟨[], []⟩ => .ok unchanged
    | ⟨[("on", .bool on)], []⟩ => .ok (turned on)
    | _ => .error unreadable
  deltaFromSlice bytes :=
    if bytes = unchanged then .ok ⟨[], []⟩
    else if bytes = turned true then .ok ⟨[("on", .bool true)], []⟩
    else if bytes = turned false then .ok ⟨[("on", .bool false)], []⟩
    else .error unreadable

theorem between_spec (old new : Switch) : JsonFieldDelta.between serde old new =
    .ok ⟨if old = new then [] else [("on", .bool new.on)], []⟩ := by
  obtain ⟨old⟩ := old
  obtain ⟨new⟩ := new
  cases old <;> cases new <;> rfl

theorem serde_lawful : serde.Lawful where
  object state := by
    have hkeys : "on" < "place" := by decide
    exact ⟨_, rfl, List.pairwise_pair.mpr hkeys⟩
  value state v hv := by
    cases hv
    rfl
  bytes state := by
    obtain ⟨on⟩ := state
    refine ⟨_, rfl, ?_⟩
    cases on <;> decide +kernel
  delta old new d hd := by
    rw [between_spec] at hd
    cases hd
    split
    · exact ⟨unchanged, rfl, rfl⟩
    · obtain ⟨on⟩ := new
      refine ⟨turned on, rfl, ?_⟩
      cases on <;> rfl

/-- Values that compare equal are identical. -/
theorem serde_same (old new : Switch) : serde.SameWhereEqual old new := by
  intro os ns key a b ho hn ha hb hab
  cases ho
  cases hn
  unfold Switch.fields at ha hb
  rw [SortedMap.get?_cons] at ha hb
  split at ha
  · rename_i hkey
    rw [if_pos hkey] at hb
    cases ha
    cases hb
    have hon : (old.on == new.on) = true := hab
    rw [eq_of_beq hon]
  · rename_i hkey
    rw [if_neg hkey] at hb
    exact Option.some.inj (ha.symm.trans hb)

end Switch

/-! ## The channel to a subscriber -/

/-- What travels: a packet, or the bytes it encodes to. -/
inductive Message where
  | packet (p : Packet)
  | wire (bytes : Bytes)
  deriving DecidableEq

namespace Message

/-- The forms in which packets travel. -/
def forms (X : Crates) (ps : List Packet) : List Message :=
  ps.flatMap fun p =>
    match p.encode X with
    | .error _ => [.packet p]
    | .ok bytes => [.packet p, .wire bytes]

/-- The update a message carries. -/
def read (X : Crates) (C : StateCodec S) (config : DecodeConfig) : Message → Update S
  | .packet p => TypedDecoder.read X C config p
  | .wire bytes =>
    match Packet.decodeWithConfig X bytes config with
    | .error _ => .foreign
    | .ok p => TypedDecoder.read X C config p

/-- A form carries the update of the packet, or is too long for the receiver. -/
theorem read_forms {ps : List Packet} {m : Message} (h : m ∈ forms X ps) :
    ∃ p ∈ ps, m.read X C config = TypedDecoder.read X C config p ∨
      m.read X C config = .foreign := by
  obtain ⟨p, hp, hm⟩ := List.mem_flatMap.mp h
  refine ⟨p, hp, ?_⟩
  split at hm
  · rw [List.mem_singleton.mp hm]
    exact .inl rfl
  rename_i bytes hbytes
  rcases List.mem_cons.mp hm with rfl | hm
  · exact .inl rfl
  rw [List.mem_singleton.mp hm]
  unfold read
  simp only
  by_cases hmax : p.encodedLen ≤ config.maxPacketBytes
  · rw [Packet.decodeWithConfig_encode hbytes hmax]
    exact .inl rfl
  · have hlen := Packet.encode_length hbytes
    unfold Packet.decodeWithConfig
    rw [if_pos (by omega)]
    exact .inr rfl

end Message

namespace Subscriber

variable {T : Type} (X : Crates) (S : Serde T)

/-- A message through `apply` or `receive`. -/
def handle (s : Subscriber T) : Message → Except DeltaError (ApplyResult T) × Subscriber T
  | .packet p => s.apply X S p
  | .wire bytes => s.receive X S bytes

/-- Both parts of a subscriber use its limits, and its decoder is valid. -/
structure Valid (config : DecodeConfig) (s : Subscriber T) : Prop where
  stream : s.decoder.stream.Valid
  outer : s.decodeConfig = config
  inner : s.decoder.decodeConfig = config

variable {X S}

theorem apply_valid {s : Subscriber T} (h : s.Valid config) (p : Packet) :
    (s.apply X S p).2.Valid config :=
  ⟨TypedDecoder.apply_valid h.stream p, h.outer, h.inner⟩

theorem apply_receive {s : Subscriber T} (h : s.Valid config) (p : Packet) :
    Replica.receive s.decoder.stream.view (TypedDecoder.read X (serdeCodec S) config p) =
      (TypedDecoder.verdict (s.apply X S p).1, (s.apply X S p).2.decoder.stream.view) := by
  rw [TypedDecoder.apply_receive h.stream p]
  unfold apply GenericDecoder.applyPacket
  rw [h.inner]

theorem handle_valid {s : Subscriber T} (h : s.Valid config) (m : Message) :
    (s.handle X S m).2.Valid config := by
  cases m with
  | packet p => exact apply_valid h p
  | wire bytes =>
    unfold handle receive
    simp only
    split
    · exact h
    · exact apply_valid h _

/-- The subscriber does to a message what a replica does to its update. -/
theorem handle_receive {s : Subscriber T} (h : s.Valid config) (m : Message) :
    Replica.receive s.decoder.stream.view (m.read X (serdeCodec S) config) =
      (TypedDecoder.verdict (s.handle X S m).1, (s.handle X S m).2.decoder.stream.view) := by
  cases m with
  | packet p => exact apply_receive h p
  | wire bytes =>
    unfold handle receive Message.read
    simp only [h.outer]
    cases Packet.decodeWithConfig X bytes config with
    | error e => rfl
    | ok p => exact apply_receive h p

end Subscriber

/-- A publisher of a `DeltaState`, everything it has sent, and a subscriber. -/
def typedChannel {T : Type} (X : Crates) (S : Serde T) (config : DecodeConfig) :
    System (TypedRun T) Message (Subscriber T) where
  initial run s :=
    (∃ policy, run.encoder = .withPolicy policy) ∧ run.log = [] ∧
      s = Subscriber.withDecodeConfig config
  publish run ms run' := ∃ ps, TypedRun.Publish X (serdeCodec S) run ps run' ∧
    ms = Message.forms X ps
  receive s m := (s.handle X S m).2
  internal s s' := s' = s.reset

theorem typedChannel_refines {T : Type} {S : Serde T} (hS : S.Lawful)
    (hsame : ∀ old new, S.SameWhereEqual old new) (hd : X.DecompressInverts)
    (config : DecodeConfig) :
    Refines (typedChannel X S config) TypedRun.Tracks (Subscriber.Valid config) TypedRun.log
      (Message.read X (serdeCodec S) config) (fun s => s.decoder.stream.view) where
  initial := by
    rintro run s ⟨⟨policy, hencoder⟩, hlog, rfl⟩
    refine ⟨⟨?_, ?_⟩, ⟨TypedDecoder.default_valid, rfl, rfl⟩, rfl⟩
    · rw [hencoder, hlog]
      rfl
    · rw [hencoder, hlog]
      rfl
  publish := by
    rintro run ms run' h ⟨ps, hp, rfl⟩
    obtain ⟨htracks, hmore, hgenuine⟩ := hp.genuine config (serdeCodec_lawful hS) hd
      (fun previous s => serdeCodec_exact hS (hsame previous s)) h
    refine ⟨htracks, hmore, ?_⟩
    intro m hm
    obtain ⟨p, hp, hread | hread⟩ := @Message.read_forms _ X (serdeCodec S) config _ _ hm
    · rw [hread]
      exact hgenuine p hp
    · rw [hread]
      trivial
  receive h := by
    refine ⟨Subscriber.handle_valid h _, ?_⟩
    rw [Subscriber.handle_receive h]
    rfl
  internal := by
    rintro s s' h rfl
    exact ⟨⟨TypedDecoder.default_valid, h.outer, h.outer⟩, .inr rfl⟩

/-- **State-chain safety of the typed stream.**  In every reachable configuration the
    subscriber holds the state published under its sequence number. -/
theorem typed_stream_safe {T : Type} {S : Serde T} (hS : S.Lawful)
    (hsame : ∀ old new, S.SameWhereEqual old new) (hd : X.DecompressInverts)
    {c : Config (TypedRun T) Message (Subscriber T)}
    (h : Reachable (typedChannel X S config) c) {k : UInt64} (hk : c.rcv.sequence = some k) :
    ∃ state, nth c.pub.log k.toNat = some state ∧ c.rcv.state = some state := by
  have hrefines := typedChannel_refines hS hsame hd config
  have hvalid := (hrefines.invariant.reachable h).rcv.1
  obtain ⟨s, hs, hview⟩ := hvalid.stream.view_of_sequence hk
  exact ⟨s, hrefines.consistent h _ _ hview, hs⟩

/-- The first update of a switch, turned on, and its bytes. -/
def onPacket : Packet :=
  .snapshot 1 (fnv1a64 (Switch.text ⟨true⟩)) Switch.serde.schemaHash (Switch.text ⟨true⟩)

def onWire : Bytes := onPacket.header .stored ++ onPacket.payload

/-- The second update, turned off, and its bytes. -/
def offDelta : Packet :=
  .delta 2 1 (fnv1a64 (Switch.text ⟨true⟩)) Switch.serde.schemaHash (Switch.turned false)

def offWire : Bytes := offDelta.header .stored ++ offDelta.payload

def switchRun : TypedRun Switch := ⟨.withPolicy .default, []⟩

def switchRun1 : TypedRun Switch :=
  ⟨(switchRun.encoder.encode .stored (serdeCodec Switch.serde) ⟨true⟩).2, [⟨true⟩]⟩

def switchRun2 : TypedRun Switch :=
  ⟨(switchRun1.encoder.encode .stored (serdeCodec Switch.serde) ⟨false⟩).2, [⟨true⟩, ⟨false⟩]⟩

theorem switchRun_publish :
    TypedRun.Publish .stored (serdeCodec Switch.serde) switchRun [onPacket] switchRun1 :=
  .encoded (by decide) (Prod.ext (by decide +kernel) rfl)

theorem switchRun1_publish :
    TypedRun.Publish .stored (serdeCodec Switch.serde) switchRun1 [offDelta] switchRun2 :=
  .encoded (by decide) (Prod.ext (by decide +kernel) rfl)

/-- The delta overtakes the snapshot and cannot be used, comes again behind it and is applied, and
    the snapshot comes once more. -/
def reordered : List Message := [.wire offWire, .wire onWire, .packet offDelta, .wire onWire]

theorem typed_stream_safe_reordered :
    ∃ c, Reachable (typedChannel .stored Switch.serde .default) c ∧
      c.rcv = reordered.foldl (typedChannel .stored Switch.serde .default).receive
        (.withDecodeConfig .default) ∧
      c.rcv.sequence = some 2 ∧
      ∃ state, nth c.pub.log 2 = some state ∧ c.rcv.state = some state := by
  have hseq : (reordered.foldl (typedChannel .stored Switch.serde .default).receive
      (.withDecodeConfig .default)).sequence = some 2 := by
    decide +kernel
  have h0 : Reachable (typedChannel .stored Switch.serde .default)
      ⟨switchRun, [], .withDecodeConfig .default⟩ := .initial ⟨⟨_, rfl⟩, rfl, rfl⟩
  have h2 := (h0.step (.publish ⟨_, switchRun_publish, rfl⟩)).step
    (.publish ⟨_, switchRun1_publish, rfl⟩)
  have hsent : ∀ m ∈ reordered,
      m ∈ Message.forms .stored [offDelta] ++ (Message.forms .stored [onPacket] ++ []) := by
    decide +kernel
  have h := h2.deliverAll hsent
  exact ⟨_, h, rfl, hseq, typed_stream_safe Switch.serde_lawful Switch.serde_same
    Crates.stored_exact.inverts h hseq⟩

end DeltaStream
