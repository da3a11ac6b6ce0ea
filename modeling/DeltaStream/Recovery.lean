import DeltaStream.ByteReplica
import DeltaStream.TypedStream

/-!
# Recovery snapshots end a desync

Every publisher and receiver pair of the program, on a channel that may lose, duplicate, delay
and reorder packets, with encode calls that may fail.  Only positions matter: the publisher's
sequence never goes back and no packet is numbered beyond it.

* `streamChannel_advances`, `byteChannel_advances` — the typed pairs and the byte pairs;
* `recovery_snapshot_resolves` — after a receiver could not use a packet, the publisher's
  recovery snapshot is applied, then or later, and it is a duplicate for a receiver already at
  its sequence.
-/

set_option autoImplicit false

namespace DeltaStream

open Replica Soup

/-! ## Typed pairs -/

section Typed

variable {S : Type} (X : Crates) (C : StateCodec S) (config : DecodeConfig)

/-- One call of a typed encoder, on any state, successful or not. -/
inductive TypedEncoder.Call : TypedEncoder S → List Packet → TypedEncoder S → Prop where
  | encoded {e e' : TypedEncoder S} {s : S} {p : Packet}
      (h : e.encode X C s = (.ok p, e')) : Call e [p] e'
  | failed {e e' : TypedEncoder S} {s : S} {err : DeltaError}
      (h : e.encode X C s = (.error err, e')) : Call e [] e'
  | forced {e e' : TypedEncoder S} {s : S} {p : Packet}
      (h : e.forceSnapshot X C s = (.ok p, e')) : Call e [p] e'
  | forceFailed {e e' : TypedEncoder S} {s : S} {err : DeltaError}
      (h : e.forceSnapshot X C s = (.error err, e')) : Call e [] e'
  | recovery {e : TypedEncoder S} {s : S} {p : Packet}
      (h : e.recoverySnapshot X C s = .ok p) : Call e [p] e

/-- An encoder, its packets in flight and a decoder. -/
def streamChannel : System (TypedEncoder S) Packet (TypedDecoder S) where
  initial e d := (∃ policy, e = .withPolicy policy) ∧ d = .default
  publish := TypedEncoder.Call X C
  receive d p := (d.applyPacket X C config p).2
  internal d d' := d' = d.reset

/-- The recovery snapshot of a state that fits the receiver's limit, taken in a configuration or
    after any further calls. -/
structure TypedRecovers (c : Config (TypedEncoder S) Packet (TypedDecoder S))
    (e : TypedEncoder S) (last : S) (s : Packet) : Prop where
  /-- a receiver that could not use a packet applies it -/
  resolves : ∀ m ∈ c.sent, ∀ localSequence requiredSequence,
    (c.rcv.applyPacket X C config m).1 = .ok (.needSnapshot localSequence requiredSequence) →
    ∃ d, (c.rcv.applyPacket X C config m).2.applyPacket X C config s =
        (.ok (.applied e.sequence last), d) ∧
      d.sequence = some e.sequence ∧ d.state = some last
  /-- any decoder already at its sequence ignores it -/
  ignored : ∀ d, TypedDecoder.Reached X C config d → d.sequence = some e.sequence →
    d.applyPacket X C config s = (.ok (.duplicate e.sequence), d)

variable {X C config}

theorem TypedDecoder.read_upTo {p : Packet} {n : Nat} (h : p.sequence.toNat ≤ n) :
    (TypedDecoder.read X C config p).UpTo n := by
  intro m hm
  by_cases hschema : p.schemaHash = C.schemaHash
  · rw [read_number hschema] at hm
    cases hm
    exact h
  · unfold read at hm
    rw [if_pos hschema] at hm
    cases hm

/-- **One call**: the sequence never goes back, and nothing is numbered beyond it. -/
theorem TypedEncoder.Call.advances {e e' : TypedEncoder S} {ps : List Packet}
    (h : Call X C e ps e') :
    e.sequence.toNat ≤ e'.sequence.toNat ∧ ∀ p ∈ ps, p.sequence.toNat ≤ e'.sequence.toNat := by
  have hnext := le_nextSequence e.sequence
  cases h with
  | encoded h =>
    have hok := encode_ok h
    refine ⟨by rw [hok.sequence]; exact hnext, ?_⟩
    intro q hq
    rw [List.mem_singleton.mp hq, hok.sequence, hok.emits.sequence]
  | failed h =>
    rw [(encode_error h).1]
    exact ⟨hnext, fun p hp => absurd hp List.not_mem_nil⟩
  | forced h =>
    have hok := (forceSnapshot_ok h).1
    refine ⟨by rw [hok.sequence]; exact hnext, ?_⟩
    intro q hq
    rw [List.mem_singleton.mp hq, hok.sequence, hok.emits.sequence]
  | @forceFailed e' s err h =>
    have hseq := forceSnapshot_sequence (X := X) (C := C) e s
    rw [h] at hseq
    rw [hseq]
    exact ⟨hnext, fun p hp => absurd hp List.not_mem_nil⟩
  | recovery h =>
    refine ⟨Nat.le_refl _, ?_⟩
    intro q hq
    rw [List.mem_singleton.mp hq, (recoverySnapshot_ok h).sequence_eq]

theorem streamChannel_advances :
    Advances (streamChannel X C config) (fun _ => True) TypedDecoder.Valid
      (fun e => e.sequence.toNat) (TypedDecoder.read X C config) TypedDecoder.view where
  initial := by
    rintro e d ⟨-, rfl⟩
    exact ⟨trivial, TypedDecoder.default_valid, rfl⟩
  publish _ h := by
    obtain ⟨hle, hps⟩ := TypedEncoder.Call.advances h
    exact ⟨trivial, hle, fun p hp => TypedDecoder.read_upTo (hps p hp)⟩
  receive h :=
    ⟨TypedDecoder.apply_valid h _, (congrArg Prod.snd (TypedDecoder.apply_receive h _)).symm⟩
  internal := by
    rintro d d' h rfl
    exact ⟨TypedDecoder.reset_valid d, .inr rfl⟩

/-- A decoder behind a whole state takes it over. -/
theorem TypedDecoder.apply_full {d : TypedDecoder S} (h : d.Valid) {p : Packet} {n : UInt64} {s : S}
    (hread : read X C config p = .full n.toNat s)
    (hbehind : receive d.view (.full n.toNat s) = (.applied n.toNat s, some (n.toNat, s))) :
    ∃ d', d.applyPacket X C config p = (.ok (.applied n s), d') ∧
      d'.sequence = some n ∧ d'.state = some s := by
  have happly : receive d.view (read X C config p) = _ := apply_receive h p
  rw [hread, hbehind] at happly
  obtain ⟨hverdict, hview⟩ := Prod.mk.inj happly
  obtain ⟨m, hres, hm⟩ := verdict_applied hverdict.symm
  rw [UInt64.toNat_inj.mp hm] at hres
  refine ⟨_, Prod.ext hres rfl, ?_⟩
  exact sequence_of_view hview.symm

theorem streamChannel_recovers (hC : C.Lawful) (hd : X.ZstdExact)
    {c : Config (TypedEncoder S) Packet (TypedDecoder S)}
    (hc : Reachable (streamChannel X C config) c) {e : TypedEncoder S}
    (he : Publishes (streamChannel X C config) c.pub e) {last : S} {s : Packet}
    (hs : e.recoverySnapshot X C last = .ok s)
    (hfits : ∀ bytes, C.encodeState last = .ok bytes → bytes.length ≤ config.maxDecompressedBytes) :
    TypedRecovers X C config c e last s where
  resolves := by
    intro m hm localSequence requiredSequence hneed
    have hof := TypedEncoder.recoverySnapshot_ok hs
    have hvalid := (streamChannel_advances.invariant.reachable hc).rcv.1
    have hverdict : (receive c.rcv.view (TypedDecoder.read X C config m)).1 = .need := by
      rw [TypedDecoder.apply_receive hvalid m, hneed]
      rfl
    exact TypedDecoder.apply_full (TypedDecoder.apply_valid hvalid m) (hof.read_fits hC hd hfits)
      (streamChannel_advances.resolves hc hm hverdict he last)
  ignored := by
    intro d hreached hseq
    have hof := TypedEncoder.recoverySnapshot_ok hs
    obtain ⟨t, -, hview⟩ := hreached.valid.view_of_sequence hseq
    have hstale : Stale d.view s.sequence.toNat := by
      rw [hview, hof.sequence_eq, stale_some]
    rw [TypedDecoder.apply_stale hreached.valid hof.schemaHash_eq hstale, hof.sequence_eq]

end Typed

/-! ## Byte pairs -/

section Byte

variable (X : Crates)

/-- The same for a byte publisher and a byte decoder. -/
structure ByteRecovers (c : Config ByteRun Packet ByteStateDecoder) (run : ByteRun)
    (last : Slice) (s : Packet) : Prop where
  resolves : ∀ m ∈ c.sent, ∀ localSequence requiredSequence,
    (c.rcv.apply X m).1 = .ok (.needRecovery localSequence requiredSequence) →
    ∃ d, (c.rcv.apply X m).2.apply X s =
        (.ok (.applied run.encoder.sequence last.bytes), d) ∧
      d.sequence = some run.encoder.sequence ∧ d.state = some last.bytes
  ignored : ∀ d : ByteStateDecoder, d.schemaHash = run.encoder.schemaHash →
    d.sequence = some run.encoder.sequence →
    d.apply X s = (.ok (.duplicate run.encoder.sequence), d)

variable {X}

theorem ByteStateDecoder.read_upTo {schemaHash : UInt64} {p : Packet} {n : Nat}
    (h : p.sequence.toNat ≤ n) : (ByteStateDecoder.read X schemaHash p).UpTo n := by
  intro m hm
  by_cases hschema : p.schemaHash = schemaHash
  · rw [read_number hschema] at hm
    cases hm
    exact h
  · unfold read at hm
    rw [if_pos hschema] at hm
    cases hm

/-- **One call** of a byte publisher. -/
theorem ByteRun.Publish.advances {run run' : ByteRun} {ps : List Packet}
    (h : Publish X run ps run') :
    run'.encoder.schemaHash = run.encoder.schemaHash ∧
      run.encoder.sequence.toNat ≤ run'.encoder.sequence.toNat ∧
      ∀ p ∈ ps, p.sequence.toNat ≤ run'.encoder.sequence.toNat := by
  cases h with
  | encoded he =>
    have henc := BytePublisher.encode_ok he
    obtain ⟨raw, hraw, hcopy⟩ := henc.raw
    refine ⟨henc.schemaHash, ?_, ?_⟩
    · rw [henc.sequence, henc.toNat_sequence]
      exact Nat.le_succ _
    · intro q hq
      rw [List.mem_singleton.mp hq, henc.sequence, hcopy.header.sequence, hraw.sequence]
  | @failed current err encoder' he =>
    obtain ⟨-, hschema, ⟨-, rfl⟩ | ⟨hmax, hseq, -⟩⟩ := BytePublisher.encode_error he
    · exact ⟨rfl, Nat.le_refl _, fun p hp => absurd hp List.not_mem_nil⟩
    · refine ⟨hschema, ?_, fun p hp => absurd hp List.not_mem_nil⟩
      have hone : (1 : UInt64).toNat = 1 := rfl
      have hmax64 : U64_MAX = 2 ^ 64 - 1 := rfl
      rw [hseq, UInt64.toNat_add]
      omega
  | recovery _ he =>
    refine ⟨rfl, Nat.le_refl _, ?_⟩
    intro q hq
    have hseq : q.sequence = run.encoder.sequence :=
      (BytePublisher.recoverySnapshot_ok (List.mem_singleton.mp hq ▸ he)).header.sequence
    rw [hseq]

theorem byteChannel_advances (schemaName : String) :
    Advances (byteChannel X schemaName)
      (fun run => run.encoder.schemaHash = fnv1a64 (utf8 schemaName))
      (fun d => d.Paired ∧ d.schemaHash = fnv1a64 (utf8 schemaName))
      (fun run => run.encoder.sequence.toNat)
      (ByteStateDecoder.read X (fnv1a64 (utf8 schemaName))) ByteStateDecoder.view where
  initial := by
    rintro run d ⟨hfresh, -, rfl⟩
    exact ⟨hfresh.spec.2.2, ⟨rfl, rfl⟩, rfl⟩
  publish hI h := by
    obtain ⟨hschema, hle, hps⟩ := ByteRun.Publish.advances h
    exact ⟨hschema.trans hI, hle, fun p hp => ByteStateDecoder.read_upTo (hps p hp)⟩
  receive := by
    rintro d m ⟨hpaired, hschema⟩
    refine ⟨⟨ByteStateDecoder.apply_paired X hpaired m,
      (ByteStateDecoder.apply_schemaHash X d m).trans hschema⟩, ?_⟩
    rw [← hschema, ByteStateDecoder.apply_receive X hpaired m]
    rfl
  internal := by
    rintro d d' ⟨-, hschema⟩ rfl
    exact ⟨⟨rfl, hschema⟩, .inr rfl⟩

theorem byteChannel_recovers (hd : X.ZstdExact) {schemaName : String}
    {c : Config ByteRun Packet ByteStateDecoder} (hc : Reachable (byteChannel X schemaName) c)
    {run : ByteRun} (hrun : Publishes (byteChannel X schemaName) c.pub run) {last : Slice}
    {s : Packet} (hs : run.encoder.recoverySnapshot X last = .ok s)
    (hfits : last.bytes.length ≤ MAX_LOGICAL_PAYLOAD) : ByteRecovers X c run last s where
  resolves := by
    intro m hm localSequence requiredSequence hneed
    have hadv := byteChannel_advances (X := X) schemaName
    have hinv := hadv.invariant.reachable hc
    obtain ⟨hpaired, hschema⟩ := hinv.rcv.1
    have hcopy := BytePublisher.recoverySnapshot_ok hs
    have hlp : s.logicalPayload X = .ok last.bytes :=
      hcopy.payload_fits hd (Packet.snapshot_isCompressed _ _ _ _) hfits
    have hread := ByteStateDecoder.read_snapshot hcopy.header hlp
    have hverdict : (receive c.rcv.view
        (ByteStateDecoder.read X (fnv1a64 (utf8 schemaName)) m)).1 = .need := by
      rw [← hschema, ByteStateDecoder.apply_receive X hpaired m, hneed]
      rfl
    have hpaired' := ByteStateDecoder.apply_paired X hpaired m
    have happly := ByteStateDecoder.apply_receive X hpaired' s
    rw [ByteStateDecoder.apply_schemaHash, hschema, ← (hadv.publishes hrun hinv.pub).1, hread,
      show (c.rcv.apply X m).2 = (byteChannel X schemaName).receive c.rcv m from rfl,
      hadv.resolves hc hm hverdict hrun] at happly
    obtain ⟨happlied, hview⟩ := Prod.mk.inj happly
    obtain ⟨n, hres, hn⟩ := ByteStateDecoder.verdict_applied happlied.symm
    rw [UInt64.toNat_inj.mp hn] at hres
    exact ⟨_, Prod.ext hres rfl, ByteStateDecoder.sequence_of_view hview.symm⟩
  ignored := by
    intro d hschema hseq
    have hheader := (BytePublisher.recoverySnapshot_ok hs).header
    have hsseq : s.sequence = run.encoder.sequence := hheader.sequence
    have hsschema : s.schemaHash = run.encoder.schemaHash := hheader.schemaHash
    unfold ByteStateDecoder.apply
    rw [if_neg (by simp [hsschema, hschema]),
      if_pos (by simp [ByteStateDecoder.stale, hseq, hsseq]), hsseq]

end Byte

/-! ## All pairs -/

/-- **A recovery snapshot ends a desync**, for `Encoder` and `Decoder`, for `GenericEncoder` and
    `GenericDecoder`, and for either byte encoder and `ByteStateDecoder`: whatever was lost,
    duplicated or reordered, and whatever calls failed, the snapshot of a state that fits the
    receiver's limit can be taken, is applied by a receiver that could not use a packet, and is a
    duplicate for a receiver already at its sequence. -/
theorem recovery_snapshot_resolves {X : Crates} (hX : X.CompressTotal) (hd : X.ZstdExact) :
    (∀ c e last, Reachable (streamChannel X agentCodec .default) c →
      Publishes (streamChannel X agentCodec .default) c.pub e →
      (encodeAgentState last).length ≤ MAX_LOGICAL_PAYLOAD →
      ∃ s, Encoder.recoverySnapshot X e last = .ok s ∧
        TypedRecovers X agentCodec .default c e last s) ∧
    (∀ {T : Type} (S : Serde T) (config : DecodeConfig) c e last bytes, S.Lawful →
      Reachable (streamChannel X (serdeCodec S) config) c →
      Publishes (streamChannel X (serdeCodec S) config) c.pub e →
      encodeGenericSnapshot S last = .ok bytes → bytes.length ≤ config.maxDecompressedBytes →
      ∃ s, GenericEncoder.recoverySnapshot X S e last = .ok s ∧
        TypedRecovers X (serdeCodec S) config c e last s) ∧
    (∀ schemaName c run last, Reachable (byteChannel X schemaName) c →
      Publishes (byteChannel X schemaName) c.pub run →
      last.bytes.length ≤ MAX_LOGICAL_PAYLOAD →
      ∃ s, run.encoder.recoverySnapshot X last = .ok s ∧ ByteRecovers X c run last s) := by
  refine ⟨?_, ?_, ?_⟩
  · intro c e last hc he hfits
    have hstate : agentCodec.encodeState last = .ok (encodeAgentState last) := rfl
    obtain ⟨s, hs⟩ := TypedEncoder.recoverySnapshot_of_encodes hX e hstate
    exact ⟨s, hs, streamChannel_recovers agentCodec_lawful hd hc he hs
      (StateCodec.encodes_within hstate hfits)⟩
  · intro T S config c e last bytes hS hc he hbytes hfits
    have hstate : (serdeCodec S).encodeState last = .ok bytes := hbytes
    obtain ⟨s, hs⟩ := TypedEncoder.recoverySnapshot_of_encodes hX e hstate
    exact ⟨s, hs, streamChannel_recovers (serdeCodec_lawful hS) hd hc he hs
      (StateCodec.encodes_within hstate hfits)⟩
  · intro schemaName c run last hc hrun hfits
    obtain ⟨s, hs⟩ := BytePublisher.recoverySnapshot_total hX run.encoder last
    exact ⟨s, hs, byteChannel_recovers hd hc hrun hs hfits⟩

def idleEncoder : Encoder := (Encoder.encode .stored .default (idleAgent 0)).2

def busyEncoder : Encoder := (Encoder.encode .stored idleEncoder busyAgent).2

def busySnapshot : Packet :=
  .snapshot 2 (stateHash busyAgent) agentSchemaHash (encodeAgentState busyAgent)

theorem idleEncoder_encode :
    Encoder.encode .stored .default (idleAgent 0) = (.ok idlePacket, idleEncoder) :=
  Prod.ext (by decide +kernel) rfl

theorem busyEncoder_encode :
    Encoder.encode .stored idleEncoder busyAgent = (.ok busyPacket, busyEncoder) :=
  Prod.ext (by decide +kernel) rfl

def docRecovery : Packet := byteSnapshot 2 (fnv1a64 (utf8 "doc")) docEdited.bytes

/-- The first update is lost, the second cannot be used, and recovery brings its state: for an
    agent, and for a byte state. -/
theorem recovery_snapshot_resolves_lost_update :
    ((Decoder.applyPacket .stored .default busyPacket).1 = .ok (.needSnapshot none 1) ∧
      ∃ d, Decoder.applyPacket .stored (Decoder.applyPacket .stored .default busyPacket).2
        busySnapshot = (.ok (.applied 2 busyAgent), d)) ∧
    ((ByteStateDecoder.new "doc").apply .stored docDelta).1 = .ok (.needRecovery none 1) ∧
      ∃ d, ((ByteStateDecoder.new "doc").apply .stored docDelta).2.apply .stored docRecovery =
        (.ok (.applied 2 docEdited.bytes), d) := by
  have hall := recovery_snapshot_resolves Crates.stored_total Crates.stored_exact
  refine ⟨?_, ?_⟩
  · have hneed : (Decoder.applyPacket .stored .default busyPacket).1 =
        .ok (.needSnapshot none 1) := by decide +kernel
    have hseq : busyEncoder.sequence = 2 := by decide +kernel
    have h0 : Reachable (streamChannel .stored agentCodec .default) ⟨.default, [], .default⟩ :=
      .initial ⟨⟨.default, rfl⟩, rfl⟩
    have h2 := (h0.step (.publish (.encoded idleEncoder_encode))).step
      (.publish (.encoded busyEncoder_encode))
    obtain ⟨s, hs, hrecovers⟩ := hall.1 _ busyEncoder busyAgent h2 (.refl _) (by decide +kernel)
    have hsnapshot : Encoder.recoverySnapshot .stored busyEncoder busyAgent = .ok busySnapshot := by
      decide +kernel
    cases hs.symm.trans hsnapshot
    obtain ⟨d, hd, -⟩ := hrecovers.resolves busyPacket List.mem_cons_self none 1 hneed
    refine ⟨hneed, d, ?_⟩
    rw [← hseq]
    exact hd
  · have hneed : ((ByteStateDecoder.new "doc").apply .stored docDelta).1 =
        .ok (.needRecovery none 1) := by decide +kernel
    have hseq : docRun2.encoder.sequence = 2 := by decide +kernel
    obtain ⟨s, hs, hrecovers⟩ := hall.2.2 "doc" _ docRun2 docEdited docRun2_reachable (.refl _)
      (by decide)
    have hsnapshot : docRun2.encoder.recoverySnapshot .stored docEdited = .ok docRecovery := by
      decide +kernel
    cases hs.symm.trans hsnapshot
    obtain ⟨d, hd, -⟩ := hrecovers.resolves docDelta List.mem_cons_self none 1 hneed
    refine ⟨hneed, d, ?_⟩
    rw [← hseq]
    exact hd

end DeltaStream
