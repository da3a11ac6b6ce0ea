import DeltaStream.ByteFeed
import DeltaStream.ByteRecovery
import DeltaStream.PartialRepair

/-!
# Planned recovery

`plan_recovery` chooses among a replay from the history, a partial repair of the receiver's
state and a snapshot.

* `planRecovery_chosen` — it chooses one of what it is offered, and nothing cheaper is offered;
* `historyPlan_restores` — whatever the history plans takes a decoder of the stream to the
  publisher's state;
* `plan_recovery_restores` — so does whatever is chosen, at the least cost.
-/

set_option autoImplicit false

namespace DeltaStream

open Replica BytePublisher

inductive V30RecoveryPlan where
  | replay (packets : List Packet)
  | partialRepair (repair : PartialRepair)
  | snapshot (packet : Packet)
  deriving DecidableEq

namespace V30RecoveryPlan

def estimatedPayloadBytes : V30RecoveryPlan → Nat
  | .replay packets => (packets.map Packet.encodedLen).sum
  | .partialRepair repair => repair.payloadBytes
  | .snapshot packet => packet.encodedLen

def ofHistory : RecoveryPlan → V30RecoveryPlan
  | .replay p => .replay p
  | .snapshot p => .snapshot p

/-- The state a receiver has once it has carried the plan out. -/
def carryOut (X : Crates) (d : ByteStateDecoder) : V30RecoveryPlan → Option Bytes
  | .replay packets => (d.applyAll X packets).2.state
  | .partialRepair repair => d.state.bind fun base => (repair.apply base).toOption
  | .snapshot packet => (d.apply X packet).2.state

end V30RecoveryPlan

def planRecovery (history : RecoveryHistory) (localSequence : Option UInt64)
    (receiverState : Option Slice) (authoritativeState : Slice) (snapshot : Packet)
    (chunkSize : Usize) : Except DeltaError V30RecoveryPlan :=
  match history.plan localSequence snapshot with
  | .error e => .error e
  | .ok historyPlan =>
    let best := V30RecoveryPlan.ofHistory historyPlan
    match receiverState with
    | none => .ok best
    | some receiver =>
      let repair := PartialRepair.build receiver authoritativeState chunkSize.toNat
      if repair.payloadBytes < best.estimatedPayloadBytes then .ok (.partialRepair repair)
      else .ok best

/-! ## The choice -/

/-- What may be chosen: the history's plan, or the repair of the receiver's state. -/
inductive V30RecoveryPlan.Offered (historyPlan : RecoveryPlan) (receiverState : Option Slice)
    (authoritative : Slice) (chunkSize : Usize) : V30RecoveryPlan → Prop where
  | ofHistory : Offered historyPlan receiverState authoritative chunkSize (.ofHistory historyPlan)
  | partialRepair {receiver : Slice} (h : receiverState = some receiver) :
      Offered historyPlan receiverState authoritative chunkSize
        (.partialRepair (.build receiver authoritative chunkSize.toNat))

/-- **The cheapest offer** is chosen. -/
theorem planRecovery_chosen {history : RecoveryHistory} {localSequence : Option UInt64}
    {snapshot : Packet} {historyPlan : RecoveryPlan} (receiverState : Option Slice)
    (authoritative : Slice) (chunkSize : Usize)
    (hplan : history.plan localSequence snapshot = .ok historyPlan) :
    ∃ plan : V30RecoveryPlan,
      planRecovery history localSequence receiverState authoritative snapshot chunkSize =
        .ok plan ∧
      plan.Offered historyPlan receiverState authoritative chunkSize ∧
      ∀ other : V30RecoveryPlan, other.Offered historyPlan receiverState authoritative chunkSize →
        plan.estimatedPayloadBytes ≤ other.estimatedPayloadBytes := by
  unfold planRecovery
  simp only [hplan]
  cases receiverState with
  | none =>
    refine ⟨_, rfl, .ofHistory, ?_⟩
    rintro _ (_ | h)
    · exact Nat.le_refl _
    · cases h
  | some receiver =>
    simp only
    split
    · rename_i hlt
      refine ⟨_, rfl, .partialRepair rfl, ?_⟩
      rintro _ (_ | ⟨⟨⟩⟩)
      · exact Nat.le_of_lt hlt
      · exact Nat.le_refl _
    · rename_i hge
      refine ⟨_, rfl, .ofHistory, ?_⟩
      rintro _ (_ | ⟨⟨⟩⟩)
      · exact Nat.le_refl _
      · exact Nat.le_of_not_lt hge

/-! ## Carrying it out -/

section CarryOut

variable {X : Crates} {schemaName : String} {maxPackets maxBytes : Nat} {run : ByteRun}
  {history : RecoveryHistory} {last : Slice} {s : Packet} {d : ByteStateDecoder}

/-- A recovery snapshot brings any decoder of the stream up to date. -/
theorem snapshot_upToDate (hd : X.DecompressInverts)
    (htracks : run.Tracks (fnv1a64 (utf8 schemaName))) (hlast : run.log.getLast? = some last)
    (hs : run.encoder.recoverySnapshot X last = .ok s) (hsread : s.Readable X)
    (hfollows : d.Follows (fnv1a64 (utf8 schemaName)) run.log) :
    (d.apply X s).2.state = some last.bytes := by
  have hcopy := recoverySnapshot_ok hs
  obtain ⟨payload, hpayload⟩ := hsread
  rw [hcopy.payload_ok hd (Packet.snapshot_isCompressed _ _ _ _) hpayload] at hpayload
  have hrestores : ByteRestores X (fnv1a64 (utf8 schemaName)) run.log last s := by
    have hread := ByteStateDecoder.read_snapshot hcopy.header hpayload
    rw [htracks.sequence, htracks.schemaHash] at hread
    exact hread
  have hends := ByteStateDecoder.apply_restores (E := fun _ => False) hfollows
    (fun t ht => by rw [hlast] at ht; exact (Option.some.inj ht).symm) hrestores
  generalize d.apply X s = call at hends ⊢
  obtain ⟨result, d'⟩ := call
  cases result with
  | error e => exact hends.elim
  | ok result => exact (hends.1.holds htracks.sequence).1

/-- **The history's plan restores** the publisher's state, and no chain is cheaper. -/
theorem historyPlan_restores (hc : X.CompressTotal) (hd : X.DecompressInverts)
    (h : Recorded X schemaName maxPackets maxBytes run history)
    (hlast : run.log.getLast? = some last) (hs : run.encoder.recoverySnapshot X last = .ok s)
    (hreadable : ∀ p ∈ history.packets, p.Readable X) (hsread : s.Readable X)
    (hfollows : d.Follows (fnv1a64 (utf8 schemaName)) run.log) :
    ∃ plan, history.plan d.sequence s = .ok plan ∧
      (V30RecoveryPlan.ofHistory plan).carryOut X d = some last.bytes ∧
      (V30RecoveryPlan.ofHistory plan).estimatedPayloadBytes ≤ s.encodedLen ∧
      ∀ n, d.sequence = some n → n < s.sequence → s.sequence.toNat < U64_MAX →
        history.FullChain n s → (V30RecoveryPlan.ofHistory plan).estimatedPayloadBytes ≤
          ((history.retained (n + 1) s.sequence).map Packet.encodedLen).sum := by
  obtain ⟨htracks, -⟩ := h.delivers hc hd
  have hsnapshot := snapshot_upToDate hd htracks hlast hs hsread hfollows
  have hsequence : s.sequence = run.encoder.sequence := (recoverySnapshot_ok hs).header.sequence
  have hsize : s.encodedLen ≤ U64_MAX := by
    have := recoverySnapshot_length hs
    have := last.length_le
    have : HEADER_LEN + ISIZE_MAX ≤ U64_MAX := by decide
    omega
  rcases ByteStateDecoder.paired_cases hfollows.paired with
    ⟨hnone, -, -⟩ | ⟨n, base, hn, -, hview⟩
  · rw [hnone]
    exact ⟨.snapshot s, rfl, hsnapshot, Nat.le_refl _, nofun⟩
  rw [hn]
  rcases history.plan_cases n s with hplan | ⟨hplan, hlt, -, ⟨hchain, hlength⟩, htotal⟩
  · refine ⟨.snapshot s, hplan, hsnapshot, Nat.le_refl _, ?_⟩
    rintro _ ⟨⟩ hlt hmax hfull
    -- a cheaper chain would have been planned
    refine Nat.le_of_not_lt fun hcheaper => ?_
    rw [RecoveryHistory.plan_replay hlt hmax hsize hfull hcheaper] at hplan
    cases hplan
  refine ⟨_, hplan, ?_, Nat.le_of_lt (htotal hsize), ?_⟩
  · have hready : Ready run.states n.toNat d.view := by
      obtain ⟨t, ht, rfl⟩ := hfollows.consistent _ _ hview
      exact .inr ⟨_, hview, .inr ht⟩
    obtain ⟨-, hend⟩ := h.replay hc hd hreadable hfollows.paired hfollows.schema hready
      (fun p hp => (RecoveryHistory.retained_mem hp).1) hchain
    rw [hlength, hsequence] at hend
    have hpos := UInt64.lt_iff_toNat_lt.mp hlt
    rw [hsequence] at hpos
    obtain ⟨-, h0⟩ | ⟨st, hst, h0 | hst'⟩ := hend
    · omega
    · omega
    rw [htracks.nth_last hlast] at hst'
    cases hst'
    rw [hsequence]
    exact (ByteStateDecoder.sequence_of_view hst).2
  · rintro _ ⟨⟩ - - -
    exact Nat.le_refl _

/-- **Planned recovery restores.**  Where the packets kept and the recovery snapshot can be read:
    whatever is planned for a decoder of the stream, wherever it is and whether or not its state is
    known, takes it to the publisher's last state, unless two different chunks have one hash; and
    no snapshot, repair or full chain is cheaper. -/
theorem plan_recovery_restores (hc : X.CompressTotal) (hd : X.DecompressInverts)
    (h : Recorded X schemaName maxPackets maxBytes run history)
    (hlast : run.log.getLast? = some last) (hreadable : ∀ p ∈ history.packets, p.Readable X)
    (hfollows : d.Follows (fnv1a64 (utf8 schemaName)) run.log) (receiverState : Option Slice)
    (hreceiver : ∀ r, receiverState = some r → d.state = some r.bytes) (chunkSize : Usize)
    (hclean : ∀ r, receiverState = some r →
      PartialRepair.NoCollision r.bytes last.bytes (max chunkSize.toNat 1)) :
    ∃ s, run.encoder.recoverySnapshot X last = .ok s ∧ (s.Readable X →
      ∃ plan, planRecovery history d.sequence receiverState last s chunkSize = .ok plan ∧
        plan.carryOut X d = some last.bytes ∧ plan.estimatedPayloadBytes ≤ s.encodedLen ∧
        (∀ r, receiverState = some r → plan.estimatedPayloadBytes ≤
          (PartialRepair.build r last chunkSize.toNat).payloadBytes) ∧
        ∀ n, d.sequence = some n → n < s.sequence → s.sequence.toNat < U64_MAX →
          history.FullChain n s → plan.estimatedPayloadBytes ≤
            ((history.retained (n + 1) s.sequence).map Packet.encodedLen).sum) := by
  obtain ⟨s, hs⟩ := BytePublisher.recoverySnapshot_total hc run.encoder last
  refine ⟨s, hs, fun hsread => ?_⟩
  obtain ⟨historyPlan, hplan, hrestores, hsnapshot, hchain⟩ :=
    historyPlan_restores hc hd h hlast hs hreadable hsread hfollows
  obtain ⟨plan, hchosen, hoffered, hcheapest⟩ :=
    planRecovery_chosen receiverState last chunkSize hplan
  have hbest := hcheapest _ .ofHistory
  refine ⟨plan, hchosen, ?_, Nat.le_trans hbest hsnapshot,
    fun r hr => hcheapest _ (.partialRepair hr),
    fun n hn hlt hmax hfull => Nat.le_trans hbest (hchain n hn hlt hmax hfull)⟩
  cases hoffered with
  | ofHistory => exact hrestores
  | @partialRepair receiver hr =>
    have happly : (PartialRepair.build receiver last chunkSize.toNat).apply receiver.bytes =
        .ok last.bytes := PartialRepair.apply_receiver (hclean receiver hr)
    show (d.state.bind fun base => (PartialRepair.apply _ base).toOption) = _
    rw [hreceiver receiver hr, Option.bind_some, happly]
    rfl

/-- A decoder at the first of two updates is sent the one chunk that differs. -/
theorem plan_recovery_restores_small_change :
    ∃ s repair d, smallChange.1.encoder.recoverySnapshot Crates.stored
        ⟨List.replicate 29 7 ++ [8], by decide⟩ = .ok s ∧
      d = ⟨some 1, some (List.replicate 30 7), fnv1a64 (utf8 "doc")⟩ ∧
      planRecovery smallChange.2 (some 1) (some ⟨List.replicate 30 7, by decide⟩)
        ⟨List.replicate 29 7 ++ [8], by decide⟩ s 8 = .ok (.partialRepair repair) ∧
      (V30RecoveryPlan.partialRepair repair).carryOut Crates.stored d =
        some (List.replicate 29 7 ++ [8]) := by
  have hrun : Recorded Crates.stored "doc" 4 1000 smallChange.1 smallChange.2 :=
    (Recorded.start (.standard .default)).recordAll
  have hlast : smallChange.1.log.getLast? = some ⟨List.replicate 29 7 ++ [8], by decide⟩ := by
    decide +kernel
  have hs : smallChange.1.encoder.recoverySnapshot Crates.stored
      ⟨List.replicate 29 7 ++ [8], by decide⟩ =
      .ok (byteSnapshot 2 (fnv1a64 (utf8 "doc")) (List.replicate 29 7 ++ [8])) := by
    decide +kernel
  have hsmall : ∀ p ∈ smallChange.2.packets,
      p.isCompressed = false ∧ p.payload.length ≤ DecodeConfig.default.maxDecompressedBytes := by
    decide +kernel
  have hplan : planRecovery smallChange.2 (some 1) (some ⟨List.replicate 30 7, by decide⟩)
      ⟨List.replicate 29 7 ++ [8], by decide⟩
      (byteSnapshot 2 (fnv1a64 (utf8 "doc")) (List.replicate 29 7 ++ [8])) 8 =
        .ok (.partialRepair ⟨30, 8, fnv1a64 (List.replicate 29 7 ++ [8]),
          [⟨3, List.replicate 5 7 ++ [8]⟩]⟩) := by
    decide +kernel
  have hchunks : ∀ index < 4, fnv1a64 (chunkOf (List.replicate 30 7) 8 index) =
      fnv1a64 (chunkOf (List.replicate 29 7 ++ [8]) 8 index) →
        chunkOf (List.replicate 30 7) 8 index = chunkOf (List.replicate 29 7 ++ [8]) 8 index := by
    decide
  have hfollows : ByteStateDecoder.Follows (fnv1a64 (utf8 "doc")) smallChange.1.log
      ⟨some 1, some (List.replicate 30 7), fnv1a64 (utf8 "doc")⟩ := by
    refine ⟨rfl, rfl, ?_⟩
    rintro n t ⟨⟩
    exact ⟨_, by decide +kernel, rfl⟩
  obtain ⟨s, hs', hall⟩ := plan_recovery_restores Crates.stored_total
    Crates.stored_exact.inverts hrun hlast
    (fun p hp => ⟨_, Packet.logicalPayload_raw (hsmall p hp).1 (hsmall p hp).2⟩)
    hfollows (some ⟨List.replicate 30 7, by decide⟩) (by rintro _ ⟨⟩; rfl) 8
    (by
      rintro _ ⟨⟩ index hlt -
      have hlt : index * 8 < 30 := hlt
      exact hchunks index (by omega))
  cases hs'.symm.trans hs
  obtain ⟨plan, hchosen, hcarry, -⟩ :=
    hall ⟨_, Packet.logicalPayload_raw (Packet.snapshot_isCompressed _ _ _ _) (by decide)⟩
  rw [hplan] at hchosen
  cases hchosen
  exact ⟨_, _, _, hs, rfl, hplan, hcarry⟩

end CarryOut

end DeltaStream
