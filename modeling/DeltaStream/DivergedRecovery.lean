import DeltaStream.Recovery
import DeltaStream.RecoveryHistory

/-!
# Recovery of a diverged receiver

A delta can be unusable although its base sequence is right, because the receiver's state is
not the one it was made from.  The resync request reports the sequence only, and the planner
(`src/recovery_history.rs`) may answer with the very deltas the receiver cannot use.

* `AgentRun.Recorded.known` — the packets retained for one number are the packet emitted;
* `replay_unusable` — a replay leaves a diverged decoder where it is;
* `diverged_recovery_iff` — so recovery works exactly when the planner does not find a full
  chain smaller than the snapshot, and the snapshot fits the receiver's limit.
-/

set_option autoImplicit false

namespace DeltaStream

open Replica

/-! ## Recorded encoder runs -/

/-- An encoder, the packets it has emitted, in order, and the history they are recorded into. -/
structure AgentRun where
  encoder : Encoder
  packets : List Packet
  history : RecoveryHistory

namespace AgentRun

/-- Any calls, each packet emitted recorded. -/
inductive Recorded (X : Crates) (maxPackets maxBytes : Nat) : AgentRun → Prop where
  | start (policy : AdaptivePolicy) :
      Recorded X maxPackets maxBytes ⟨.withPolicy policy, [], .new maxPackets maxBytes⟩
  | encoded {run : AgentRun} {state : AgentState} {p : Packet} {encoder' : Encoder}
      (h : Recorded X maxPackets maxBytes run)
      (he : Encoder.encode X run.encoder state = (.ok p, encoder')) :
      Recorded X maxPackets maxBytes ⟨encoder', run.packets ++ [p], run.history.record p⟩
  | failed {run : AgentRun} {state : AgentState} {err : DeltaError} {encoder' : Encoder}
      (h : Recorded X maxPackets maxBytes run)
      (he : Encoder.encode X run.encoder state = (.error err, encoder')) :
      Recorded X maxPackets maxBytes ⟨encoder', run.packets, run.history⟩
  | forced {run : AgentRun} {state : AgentState} {p : Packet} {encoder' : Encoder}
      (h : Recorded X maxPackets maxBytes run)
      (he : Encoder.forceSnapshot X run.encoder state = (.ok p, encoder')) :
      Recorded X maxPackets maxBytes ⟨encoder', run.packets ++ [p], run.history.record p⟩
  | forceFailed {run : AgentRun} {state : AgentState} {err : DeltaError} {encoder' : Encoder}
      (h : Recorded X maxPackets maxBytes run)
      (he : Encoder.forceSnapshot X run.encoder state = (.error err, encoder')) :
      Recorded X maxPackets maxBytes ⟨encoder', run.packets, run.history⟩

/-- A snapshot has base 0, a delta the number before its own. -/
def Linked (p : Packet) : Prop :=
  (p.kind = .snapshot → p.baseSequence = 0) ∧
    (p.kind = .delta → p.sequence.toNat = p.baseSequence.toNat + 1)

/-- What is known of emitted packets: linked, not beyond the encoder, and one for each number
    but the last there is; and the history keeps no others. -/
structure Known (run : AgentRun) : Prop where
  linked : ∀ p ∈ run.packets, Linked p
  upTo : ∀ p ∈ run.packets, p.sequence.toNat ≤ run.encoder.sequence.toNat
  unique : ∀ p ∈ run.packets, ∀ q ∈ run.packets, p.sequence = q.sequence →
    p.sequence.toNat < U64_MAX → p = q
  retained : ∀ p ∈ run.history.packets, p ∈ run.packets

theorem linked_of_emits {X : Crates} {e : Encoder} {state : AgentState} {p : Packet}
    (h : TypedEncoder.Emits X agentCodec e state p) : Linked p := by
  refine ⟨fun hsnap => ?_, h.base⟩
  cases h with
  | snapshot h =>
    obtain ⟨bytes, -, hcopy⟩ := h
    exact hcopy.header.baseSequence
  | delta _ h _ => exact absurd (hsnap.symm.trans h.kind_eq) (by decide)

theorem Known.encoded {X : Crates} {run : AgentRun} {state : AgentState} {p : Packet}
    {encoder' : Encoder} (h : run.Known)
    (he : TypedEncoder.Published X agentCodec run.encoder state p encoder') :
    Known ⟨encoder', run.packets ++ [p], run.history.record p⟩ := by
  have hseq := he.emits.sequence
  have hnext := le_nextSequence run.encoder.sequence
  -- below the last number there is, the new packet is numbered beyond all the others
  have hnew : ∀ q ∈ run.packets, q.sequence = p.sequence → p.sequence.toNat < U64_MAX → q = p := by
    intro q hq heq hlt
    have hle := h.upTo q hq
    have hroom : run.encoder.sequence.toNat < U64_MAX := by
      rw [hseq] at hlt
      omega
    rw [heq, hseq, toNat_nextSequence hroom] at hle
    omega
  refine ⟨?_, ?_, ?_, ?_⟩
  · intro q hq
    rcases List.mem_append.mp hq with hq | hq
    · exact h.linked q hq
    · rw [List.mem_singleton.mp hq]
      exact linked_of_emits he.emits
  · intro q hq
    rw [he.sequence]
    rcases List.mem_append.mp hq with hq | hq
    · exact Nat.le_trans (h.upTo q hq) hnext
    · rw [List.mem_singleton.mp hq, hseq]
  · intro q hq r hr heq hlt
    rcases List.mem_append.mp hq with hq | hq <;> rcases List.mem_append.mp hr with hr | hr
    · exact h.unique q hq r hr heq hlt
    · rw [List.mem_singleton.mp hr] at heq ⊢
      exact hnew q hq heq (heq ▸ hlt)
    · rw [List.mem_singleton.mp hq] at heq hlt ⊢
      exact (hnew r hr heq.symm hlt).symm
    · rw [List.mem_singleton.mp hq, List.mem_singleton.mp hr]
  · intro q hq
    rcases RecoveryHistory.record_mem hq with hq | rfl
    · exact List.mem_append_left _ (h.retained q hq)
    · exact List.mem_append_right _ (List.mem_singleton_self _)

theorem Known.failed {run : AgentRun} {encoder' : Encoder} (h : run.Known)
    (hseq : encoder'.sequence = nextSequence run.encoder.sequence) :
    Known ⟨encoder', run.packets, run.history⟩ where
  linked := h.linked
  upTo p hp := by
    have hnext := le_nextSequence run.encoder.sequence
    rw [← hseq] at hnext
    exact Nat.le_trans (h.upTo p hp) hnext
  unique := h.unique
  retained := h.retained

/-- **A recorded run** knows its packets. -/
theorem Recorded.known {X : Crates} {maxPackets maxBytes : Nat} {run : AgentRun}
    (h : Recorded X maxPackets maxBytes run) : run.Known := by
  induction h with
  | start policy =>
    exact ⟨fun p hp => absurd hp List.not_mem_nil, fun p hp => absurd hp List.not_mem_nil,
      fun p hp => absurd hp List.not_mem_nil, fun p hp => absurd hp List.not_mem_nil⟩
  | encoded _ he ih => exact ih.encoded (TypedEncoder.encode_ok he)
  | failed _ he ih => exact ih.failed (by rw [(TypedEncoder.encode_error he).1])
  | forced _ he ih =>
    rw [Encoder.forceSnapshot_eq] at he
    exact ih.encoded (TypedEncoder.forceSnapshot_ok he).1
  | @forceFailed run state err encoder' _ he ih =>
    rw [Encoder.forceSnapshot_eq] at he
    have hseq := TypedEncoder.forceSnapshot_sequence (X := X) (C := agentCodec) run.encoder state
    rw [he] at hseq
    exact ih.failed hseq

end AgentRun

/-! ## Diverged decoders -/

/-- The decoder after packets delivered in order. -/
def Decoder.feed (X : Crates) (d : Decoder) (ps : List Packet) : Decoder :=
  ps.foldl (fun d p => (Decoder.applyPacket X d p).2) d

/-- A decoder whose sequence is the base of an emitted delta, but whose state is not the one the
    delta was made from; and the recovery snapshot of the publisher's current state. -/
structure Diverged (X : Crates) (run : AgentRun) (d : Decoder) (localSeq : UInt64)
    (current : AgentState) (s : Packet) : Prop where
  reached : TypedDecoder.Reached X agentCodec .default d
  sequence : d.sequence = some localSeq
  mismatch : ∃ p ∈ run.packets, p.kind = .delta ∧ p.baseSequence = localSeq ∧
    (Decoder.applyPacket X d p).1 = .ok (.needSnapshot (some localSeq) localSeq)
  lastState : run.encoder.lastState = some current
  snapshot : Encoder.recoverySnapshot X run.encoder current = .ok s

/-- The packets planned for the reported sequence bring the decoder to the publisher. -/
def PlanRecovers (X : Crates) (run : AgentRun) (d : Decoder) (localSeq : UInt64)
    (current : AgentState) (s : Packet) : Prop :=
  ∃ plan, run.history.plan (some localSeq) s = .ok plan ∧
    (d.feed X plan.packets).sequence = some run.encoder.sequence ∧
    (d.feed X plan.packets).state = some current

/-- The retained packets are the full chain from the local sequence, below the last number there
    is, and smaller than the snapshot. -/
def ReplayPlanned (history : RecoveryHistory) (localSeq : UInt64) (s : Packet) : Prop :=
  s.sequence.toNat < U64_MAX ∧ history.FullChain localSeq s ∧
    RecoveryHistory.totalLen (history.retained (localSeq + 1) s.sequence) < s.encodedLen

/-- A delta for another base leaves a decoder alone. -/
theorem Decoder.apply_other_base {X : Crates} {d : Decoder} {p : Packet} (hkind : p.kind = .delta)
    (hbase : d.sequence ≠ some p.baseSequence) : (Decoder.applyPacket X d p).2 = d := by
  have hnext : TypedDecoder.nextState X agentCodec .default d p = _ :=
    TypedDecoder.nextState_other_base hkind hbase
  unfold Decoder.applyPacket TypedDecoder.applyPacket
  rw [hnext]
  split
  · rfl
  split
  · rfl
  split
  · rfl
  · rfl

theorem Decoder.feed_unchanged {X : Crates} {d : Decoder} : ∀ {ps : List Packet},
    (∀ p ∈ ps, (Decoder.applyPacket X d p).2 = d) → d.feed X ps = d
  | [], _ => rfl
  | p :: ps, h => by
    show Decoder.feed X (Decoder.applyPacket X d p).2 ps = d
    rw [h p List.mem_cons_self]
    exact feed_unchanged fun q hq => h q (List.mem_cons_of_mem _ hq)

namespace Diverged

variable {X : Crates} {run : AgentRun} {d : Decoder} {localSeq : UInt64} {current : AgentState}
  {s : Packet}

theorem snapshotOf (h : Diverged X run d localSeq current s) :
    SnapshotOf X agentCodec run.encoder.sequence current s :=
  TypedEncoder.recoverySnapshot_ok h.snapshot

/-- The publisher is ahead of the decoder. -/
theorem ahead (hknown : run.Known) (h : Diverged X run d localSeq current s) :
    localSeq < run.encoder.sequence := by
  obtain ⟨p, hp, hkind, hbase, -⟩ := h.mismatch
  have hseq := (hknown.linked p hp).2 hkind
  have hle := hknown.upTo p hp
  rw [hbase] at hseq
  rw [UInt64.lt_iff_toNat_lt]
  omega

/-- **A replay is no use**: it starts with the delta that could not be applied, and the deltas
    after it are for later bases. -/
theorem replay_unusable (hknown : run.Known) (h : Diverged X run d localSeq current s)
    {ps : List Packet} (hps : ∀ p ∈ ps, p ∈ run.history.packets)
    (hupTo : ∀ p ∈ ps, p.sequence.toNat < U64_MAX)
    (hchain : RecoveryHistory.Chain (localSeq.toNat + 1) ps) : d.feed X ps = d := by
  obtain ⟨p, hp, hkind, hbase, hneed⟩ := h.mismatch
  have hpseq := (hknown.linked p hp).2 hkind
  rw [hbase] at hpseq
  apply Decoder.feed_unchanged
  intro q hq
  have hqrun := hknown.retained q (hps q hq)
  obtain ⟨i, hi⟩ := List.getElem?_of_mem hq
  obtain ⟨hqseq, hqbase⟩ := hchain.get hi
  cases i with
  | zero =>
    have hsame : q.sequence = p.sequence := UInt64.toNat_inj.mp (by omega)
    rw [hknown.unique q hqrun p hp hsame (hupTo q hq)]
    exact (TypedDecoder.apply_need hneed).1
  | succ i =>
    have hother : q.baseSequence ≠ localSeq := by
      intro heq
      rw [heq] at hqbase
      omega
    have hqkind : q.kind = .delta := by
      cases hk : q.kind with
      | delta => rfl
      | snapshot =>
        have hzero := (hknown.linked q hqrun).1 hk
        rw [hzero] at hqbase
        have h0 : (0 : UInt64).toNat = 0 := rfl
        omega
    refine Decoder.apply_other_base hqkind ?_
    rw [h.sequence]
    exact fun heq => hother (Option.some.inj heq).symm

/-- The snapshot is applied exactly when its payload fits the limit. -/
theorem apply_snapshot (hd : X.ZstdExact) (hknown : run.Known)
    (h : Diverged X run d localSeq current s) :
    if (encodeAgentState current).length ≤ MAX_LOGICAL_PAYLOAD then
      (d.feed X [s]).sequence = some run.encoder.sequence ∧ (d.feed X [s]).state = some current
    else d.feed X [s] = d := by
  have hvalid := h.reached.valid
  have hahead := UInt64.lt_iff_toNat_lt.mp (h.ahead hknown)
  split
  · rename_i hfits
    have hread : TypedDecoder.read X agentCodec .default s =
        .full run.encoder.sequence.toNat current := by
      refine h.snapshotOf.read_fits agentCodec_lawful hd ?_
      intro bytes hbytes
      cases hbytes
      exact hfits
    obtain ⟨t, -, hview⟩ := hvalid.view_of_sequence h.sequence
    have hbehind : Behind d.view run.encoder.sequence.toNat := by
      intro n t' heq
      rw [hview] at heq
      cases heq
      exact hahead
    obtain ⟨d', happly, hseq, hstate⟩ :=
      TypedDecoder.apply_full hvalid hread (receive_full_behind hbehind current)
    have hfeed : d.feed X [s] = d' := congrArg Prod.snd happly
    rw [hfeed]
    exact ⟨hseq, hstate⟩
  · rename_i hbig
    obtain ⟨bytes, hbytes, hcopy⟩ := h.snapshotOf
    cases hbytes
    have hkind : s.kind = .snapshot := hcopy.header.kind
    obtain ⟨e, he⟩ : ∃ e, s.logicalPayloadWithConfig X .default = .error e :=
      hcopy.payload_refused hd (Packet.snapshot_isCompressed _ _ _ _) (Nat.lt_of_not_le hbig)
    have hnext : TypedDecoder.nextState X agentCodec .default d s = .error e := by
      unfold TypedDecoder.nextState
      rw [hkind]
      simp only
      rw [he]
    show (TypedDecoder.applyPacket X agentCodec .default d s).2 = d
    unfold TypedDecoder.applyPacket
    rw [hnext]
    split
    · rfl
    split
    · rfl
    split
    · rfl
    · rfl

end Diverged

/-- A snapshot that fits the limit is not too long to be compared. -/
theorem Diverged.snapshot_length {X : Crates} {run : AgentRun} {d : Decoder} {localSeq : UInt64}
    {current : AgentState} {s : Packet} (h : Diverged X run d localSeq current s)
    (hfits : (encodeAgentState current).length ≤ MAX_LOGICAL_PAYLOAD) : s.encodedLen ≤ U64_MAX := by
  have hmax : HEADER_LEN + MAX_LOGICAL_PAYLOAD < U64_MAX := by decide
  have hlen := TypedEncoder.recoverySnapshot_length h.snapshot rfl (by omega)
  omega

/-- **Recovery of a diverged decoder** works if and only if the planner does not find a full
    chain smaller than the snapshot, and the current state fits the receiver's limit. -/
theorem diverged_recovery_iff {X : Crates} (hd : X.ZstdExact) {maxPackets maxBytes : Nat}
    {run : AgentRun} (hrun : run.Recorded X maxPackets maxBytes) {d : Decoder} {localSeq : UInt64}
    {current : AgentState} {s : Packet} (h : Diverged X run d localSeq current s) :
    PlanRecovers X run d localSeq current s ↔
      (encodeAgentState current).length ≤ MAX_LOGICAL_PAYLOAD ∧
        ¬ReplayPlanned run.history localSeq s := by
  have hknown := hrun.known
  have hahead := h.ahead hknown
  have hsseq := h.snapshotOf.sequence_eq
  have hsnap := h.apply_snapshot hd hknown
  -- a decoder left where it was is not at the publisher's sequence
  have hstay : d.sequence ≠ some run.encoder.sequence := by
    rw [h.sequence]
    intro heq
    exact UInt64.lt_irrefl _ (Option.some.inj heq ▸ hahead)
  constructor
  · rintro ⟨plan, hplan, hseq, -⟩
    rcases run.history.plan_cases localSeq s with hs | ⟨hr, -, hlast, hfull, -⟩
    · rw [hs] at hplan
      cases hplan
      constructor
      · refine Decidable.byContradiction fun hbig => ?_
        rw [if_neg hbig] at hsnap
        change (d.feed X [s]).sequence = _ at hseq
        rw [hsnap] at hseq
        exact hstay hseq
      · rintro ⟨hlast, hfull, htotal⟩
        by_cases hfits : (encodeAgentState current).length ≤ MAX_LOGICAL_PAYLOAD
        · rw [RecoveryHistory.plan_replay (hsseq ▸ hahead) hlast
            (h.snapshot_length hfits) hfull htotal] at hs
          cases hs
        · rw [if_neg hfits] at hsnap
          change (d.feed X [s]).sequence = _ at hseq
          rw [hsnap] at hseq
          exact hstay hseq
    · rw [hr] at hplan
      cases hplan
      have hunusable := h.replay_unusable hknown
        (fun p hp => (RecoveryHistory.retained_mem hp).1) (fun p hp => by
          have hle := UInt64.le_iff_toNat_le.mp (RecoveryHistory.retained_mem hp).2.2
          omega) hfull.1
      rw [RecoveryPlan.packets, hunusable] at hseq
      exact absurd hseq hstay
  · rintro ⟨hfits, hnot⟩
    rw [if_pos hfits] at hsnap
    rcases run.history.plan_cases localSeq s with hs | ⟨-, -, hlast, hfull, htotal⟩
    · exact ⟨_, hs, hsnap⟩
    · exact absurd ⟨hlast, hfull, htotal (h.snapshot_length hfits)⟩ hnot

/-- A decoder that holds another publisher's first state. -/
def otherAgent : AgentState := { idleAgent 0 with tokens := 5 }

def otherPacket : Packet :=
  .snapshot 1 (stateHash otherAgent) agentSchemaHash (encodeAgentState otherAgent)

def divergedDecoder : Decoder := (Decoder.applyPacket .stored .default otherPacket).2

/-- The idle and then busy agent, recorded under any limits. -/
def busyRun (maxPackets maxBytes : Nat) : AgentRun :=
  ⟨busyEncoder, [idlePacket, busyPacket],
    ((RecoveryHistory.new maxPackets maxBytes).record idlePacket).record busyPacket⟩

theorem busyRun_recorded (maxPackets maxBytes : Nat) :
    (busyRun maxPackets maxBytes).Recorded .stored maxPackets maxBytes :=
  ((AgentRun.Recorded.start .default).encoded idleEncoder_encode).encoded busyEncoder_encode

theorem busyRun_diverged (maxPackets maxBytes : Nat) :
    Diverged .stored (busyRun maxPackets maxBytes) divergedDecoder 1 busyAgent busySnapshot where
  reached := .applied .default otherPacket
  sequence := by decide +kernel
  mismatch := ⟨busyPacket, List.mem_cons_of_mem _ List.mem_cons_self, rfl, rfl,
    by decide +kernel⟩
  lastState := by
    show busyEncoder.lastState = some busyAgent
    decide +kernel
  snapshot := by
    show Encoder.recoverySnapshot .stored busyEncoder busyAgent = .ok busySnapshot
    decide +kernel

/-- With nothing retained the plan is the snapshot, which recovers the decoder. -/
theorem diverged_recovery_iff_evicted :
    PlanRecovers .stored (busyRun 1 1) divergedDecoder 1 busyAgent busySnapshot := by
  refine (diverged_recovery_iff Crates.stored_exact (busyRun_recorded 1 1)
    (busyRun_diverged 1 1)).mpr ⟨by decide +kernel, ?_⟩
  rintro ⟨-, ⟨-, hlen⟩, -⟩
  revert hlen
  decide +kernel

/-- With the publisher's own limits the plan is the delta that could not be used. -/
theorem diverged_recovery_replays_delta :
    Diverged .stored (busyRun 256 (8 * 1024 * 1024)) divergedDecoder 1 busyAgent busySnapshot ∧
      (busyRun 256 (8 * 1024 * 1024)).Recorded .stored 256 (8 * 1024 * 1024) ∧
      ¬PlanRecovers .stored (busyRun 256 (8 * 1024 * 1024)) divergedDecoder 1 busyAgent
        busySnapshot := by
  refine ⟨busyRun_diverged _ _, busyRun_recorded _ _, ?_⟩
  have hplan : (busyRun 256 (8 * 1024 * 1024)).history.plan (some 1) busySnapshot =
      .ok (.replay [busyPacket]) := by decide +kernel
  have hstays : (divergedDecoder.feed .stored [busyPacket]).sequence = some 1 := by
    decide +kernel
  have hseq : (busyRun 256 (8 * 1024 * 1024)).encoder.sequence = 2 := by decide +kernel
  rintro ⟨plan, hp, hreached, -⟩
  rw [hplan] at hp
  cases hp
  rw [hseq] at hreached
  exact absurd (hstays.symm.trans hreached) (by decide)

end DeltaStream
