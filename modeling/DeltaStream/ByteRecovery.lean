import DeltaStream.ByteReplica
import DeltaStream.RecoveryHistory

/-!
# Replay and snapshot recovery of a byte stream

A publisher run whose packets are recorded, in order, into a `RecoveryHistory` of any limits.

* `Recorded.delivers` — every retained packet brings the state of its number to a decoder one
  behind;
* `replay_agrees_with_snapshot` — a replay planned for a decoder at an earlier position is
  applied packet by packet, ends where the recovery snapshot would, and is smaller.
-/

set_option autoImplicit false

namespace DeltaStream

open Replica BytePublisher

namespace ByteStateDecoder

/-- The results of applying packets in order, and the decoder after them. -/
def applyAll (X : Crates) :
    ByteStateDecoder → List Packet → List (Except DeltaError ByteApplyResult) × ByteStateDecoder
  | d, [] => ([], d)
  | d, p :: ps =>
    ((d.apply X p).1 :: (applyAll X (d.apply X p).2 ps).1, (applyAll X (d.apply X p).2 ps).2)

theorem applyAll_receiveAll {X : Crates} : ∀ (ps : List Packet) {d : ByteStateDecoder},
    d.Paired →
    receiveAll d.view (ps.map (read X d.schemaHash)) =
        ((d.applyAll X ps).1.map verdict, (d.applyAll X ps).2.view) ∧
      (d.applyAll X ps).2.Paired ∧ (d.applyAll X ps).2.schemaHash = d.schemaHash
  | [], d, h => ⟨rfl, h, rfl⟩
  | p :: ps, d, h => by
    have hstep := apply_receive X h p
    obtain ⟨hrest, hpaired, hschema⟩ := applyAll_receiveAll (X := X) ps (apply_paired X h p)
    rw [apply_schemaHash] at hrest hschema
    refine ⟨?_, hpaired, hschema⟩
    rw [List.map_cons, receiveAll, hstep, hrest]
    rfl

/-- A decoder is determined by what it holds and its schema. -/
theorem eq_of_view {d d' : ByteStateDecoder} (h : d.Paired) (h' : d'.Paired)
    (hschema : d.schemaHash = d'.schemaHash) (hview : d.view = d'.view) : d = d' := by
  obtain ⟨sequence, state, schemaHash⟩ := d
  obtain ⟨sequence', state', schemaHash'⟩ := d'
  cases hschema
  rcases paired_cases h with ⟨hs, hst, hv⟩ | ⟨n, s, hs, hst, hv⟩ <;>
    rcases paired_cases h' with ⟨hs', hst', hv'⟩ | ⟨n', s', hs', hst', hv'⟩ <;>
    rw [hv, hv'] at hview <;> cases hs <;> cases hst <;> cases hs' <;> cases hst'
  · rfl
  · cases hview
  · cases hview
  · obtain ⟨hn, rfl⟩ := Prod.mk.inj (Option.some.inj hview)
    rw [UInt64.toNat_inj.mp hn]

end ByteStateDecoder

/-! ## Recorded runs -/

/-- A publisher run together with the history its packets are recorded into. -/
inductive Recorded (X : Crates) (schemaName : String) (maxPackets maxBytes : Nat) :
    ByteRun → RecoveryHistory → Prop where
  | start {encoder : BytePublisher} (h : encoder.Fresh schemaName) :
      Recorded X schemaName maxPackets maxBytes ⟨encoder, []⟩ (.new maxPackets maxBytes)
  | encoded {run : ByteRun} {history : RecoveryHistory} {current : Slice} {p : Packet}
      {encoder' : BytePublisher} (h : Recorded X schemaName maxPackets maxBytes run history)
      (he : run.encoder.encode X current = (.ok p, encoder')) :
      Recorded X schemaName maxPackets maxBytes ⟨encoder', run.log ++ [current]⟩
        (history.record p)
  | failed {run : ByteRun} {history : RecoveryHistory} {current : Slice} {err : DeltaError}
      {encoder' : BytePublisher} (h : Recorded X schemaName maxPackets maxBytes run history)
      (he : run.encoder.encode X current = (.error err, encoder')) :
      Recorded X schemaName maxPackets maxBytes ⟨encoder', run.log⟩ history

/-- The run and the history after encoding states in order. -/
def recordAll (X : Crates) (run : ByteRun) (history : RecoveryHistory) :
    List Slice → ByteRun × RecoveryHistory
  | [] => (run, history)
  | state :: states =>
    match run.encoder.encode X state with
    | (.error _, encoder') => recordAll X ⟨encoder', run.log⟩ history states
    | (.ok p, encoder') =>
      recordAll X ⟨encoder', run.log ++ [state]⟩ (history.record p) states

/-- The receiver's limits admit the packet's logical payload. -/
def Packet.Readable (X : Crates) (p : Packet) : Prop := ∃ payload, p.logicalPayload X = .ok payload

variable {X : Crates} {schemaName : String} {maxPackets maxBytes : Nat} {run : ByteRun}
  {history : RecoveryHistory}

theorem Recorded.recordAll : ∀ {states : List Slice} {run : ByteRun} {history : RecoveryHistory},
    Recorded X schemaName maxPackets maxBytes run history →
    Recorded X schemaName maxPackets maxBytes (recordAll X run history states).1
      (recordAll X run history states).2
  | [], _, _, h => h
  | state :: states, run, history, h => by
    unfold DeltaStream.recordAll
    split
    · rename_i err encoder' he
      exact (h.failed he).recordAll
    · rename_i p encoder' he
      exact (h.encoded he).recordAll

/-- **What the history retains**: packets that deliver the state of their number. -/
theorem Recorded.delivers (hc : X.CompressTotal) (hd : X.DecompressInverts)
    (h : Recorded X schemaName maxPackets maxBytes run history) :
    run.Tracks (fnv1a64 (utf8 schemaName)) ∧
      ∀ p ∈ history.packets, p.Readable X →
        Delivers run.states p.sequence.toNat
          (ByteStateDecoder.read X (fnv1a64 (utf8 schemaName)) p) := by
  induction h with
  | start hfresh =>
    obtain ⟨hseq, hprev, hschema⟩ := hfresh.spec
    exact ⟨⟨by rw [hseq]; rfl, hprev, hschema⟩, fun p hp => absurd hp List.not_mem_nil⟩
  | @encoded run history current p encoder' _ he ih =>
    obtain ⟨htracks, hold⟩ := ih
    have henc := encode_ok he
    refine ⟨htracks.step henc, ?_⟩
    intro q hq hread
    rw [ByteRun.states_append]
    rcases RecoveryHistory.record_mem hq with hq | rfl
    · exact (hold q hq hread).mono
    · obtain ⟨raw, hraw, hcopy⟩ := henc.raw
      obtain ⟨payload, hlp⟩ := hread
      rw [hcopy.payload_ok hd hraw.isCompressed hlp] at hlp
      have hseq : q.sequence.toNat = run.log.length + 1 := by
        rw [hcopy.header.sequence, hraw.sequence, henc.toNat_sequence, htracks.sequence]
      rw [hseq]
      exact htracks.delivers henc hraw hcopy hlp
  | failed _ he ih =>
    obtain ⟨-, -, ⟨-, rfl⟩ | ⟨-, -, hfail⟩⟩ := encode_error he
    · exact ih
    · exact absurd hc hfail

/-- Replaying a chain from a decoder that holds the state of its number. -/
theorem Recorded.replay (hc : X.CompressTotal) (hd : X.DecompressInverts)
    (h : Recorded X schemaName maxPackets maxBytes run history)
    (hreadable : ∀ p ∈ history.packets, p.Readable X) {d : ByteStateDecoder} {n : Nat}
    (hpaired : d.Paired) (hschema : d.schemaHash = fnv1a64 (utf8 schemaName))
    (hready : Ready run.states n d.view) {ps : List Packet} (hps : ∀ p ∈ ps, p ∈ history.packets)
    (hchain : RecoveryHistory.Chain (n + 1) ps) :
    (∀ result ∈ (d.applyAll X ps).1, ∃ m s, result = .ok (.applied m s)) ∧
      Ready run.states (n + ps.length) (d.applyAll X ps).2.view := by
  obtain ⟨hall, -, -⟩ := ByteStateDecoder.applyAll_receiveAll (X := X) ps hpaired
  have hdelivers : ∀ i u, (ps.map (ByteStateDecoder.read X d.schemaHash))[i]? = some u →
      Delivers run.states (n + i + 1) u := by
    intro i u hi
    rw [List.getElem?_map, Option.map_eq_some_iff] at hi
    obtain ⟨p, hp, rfl⟩ := hi
    have hmem := hps p (List.mem_of_getElem? hp)
    have hdel := (h.delivers hc hd).2 p hmem (hreadable p hmem)
    rw [(hchain.get hp).1, show n + 1 + i = n + i + 1 by omega] at hdel
    rw [hschema]
    exact hdel
  obtain ⟨hverdicts, hend⟩ := replay_delivers hready hdelivers
  rw [hall] at hverdicts hend
  rw [List.length_map] at hend
  refine ⟨?_, hend⟩
  intro result hres
  obtain ⟨i, hi⟩ := List.getElem?_of_mem hres
  obtain ⟨t, ht, -⟩ := hverdicts i (ByteStateDecoder.verdict result) (by
    rw [List.getElem?_map, hi]
    rfl)
  obtain ⟨m, hm, -⟩ := ByteStateDecoder.verdict_applied ht
  exact ⟨m, t, hm⟩

/-- A recovery snapshot that can be read takes a decoder behind to the publisher's state. -/
theorem snapshot_view (hd : X.DecompressInverts) {pub : BytePublisher} {last : Slice} {s : Packet}
    (hs : pub.recoverySnapshot X last = .ok s) (hsread : s.Readable X) {d : ByteStateDecoder}
    (hpaired : d.Paired) (hschema : d.schemaHash = pub.schemaHash)
    (hbehind : Behind d.view pub.sequence.toNat) :
    (d.apply X s).2.view = some (pub.sequence.toNat, last.bytes) := by
  have hcopy := recoverySnapshot_ok hs
  obtain ⟨payload, hlp⟩ := hsread
  rw [hcopy.payload_ok hd (Packet.snapshot_isCompressed _ _ _ _) hlp] at hlp
  have hread := ByteStateDecoder.read_snapshot hcopy.header hlp
  have happly := ByteStateDecoder.apply_receive X hpaired s
  rw [hschema, hread, receive_full_behind hbehind] at happly
  exact (congrArg Prod.snd happly).symm

/-- **Replay and snapshot recovery agree.**  For a decoder at any earlier position, holding the
    state encoded under it: a planned replay is applied packet by packet and ends in exactly
    the decoder the snapshot would give, at the publisher's position with its last state, and
    is strictly smaller; and where the retained packets are not the full chain, the plan is
    the snapshot. -/
theorem replay_agrees_with_snapshot (hc : X.CompressTotal) (hd : X.DecompressInverts)
    (h : Recorded X schemaName maxPackets maxBytes run history) {last : Slice} {s : Packet}
    (hlast : run.log.getLast? = some last) (hs : run.encoder.recoverySnapshot X last = .ok s)
    (hreadable : ∀ p ∈ history.packets, p.Readable X) (hsread : s.Readable X)
    {localSeq : UInt64} {base : Bytes} {d : ByteStateDecoder}
    (hschema : d.schemaHash = fnv1a64 (utf8 schemaName))
    (hseq : d.sequence = some localSeq) (hstate : d.state = some base)
    (hbase : localSeq ≠ 0 → ∃ state, nth run.log localSeq.toNat = some state ∧
      state.bytes = base) :
    (∀ ps, history.plan (some localSeq) s = .ok (.replay ps) →
      (∀ result ∈ (d.applyAll X ps).1, ∃ n state, result = .ok (.applied n state)) ∧
      (d.applyAll X ps).2.sequence = some run.encoder.sequence ∧
      (d.applyAll X ps).2.state = some last.bytes ∧
      (d.applyAll X ps).2 = (d.apply X s).2 ∧
      (ps.map Packet.encodedLen).sum < s.encodedLen) ∧
    (¬history.FullChain localSeq s → history.plan (some localSeq) s = .ok (.snapshot s)) := by
  obtain ⟨htracks, -⟩ := h.delivers hc hd
  have hsseq : s.sequence = run.encoder.sequence := (recoverySnapshot_ok hs).header.sequence
  have hsize : s.encodedLen ≤ U64_MAX := by
    have := recoverySnapshot_length hs
    have := last.length_le
    have : HEADER_LEN + ISIZE_MAX ≤ U64_MAX := by decide
    omega
  have hpaired : d.Paired := by
    unfold ByteStateDecoder.Paired
    rw [hseq, hstate]
    rfl
  have hview : d.view = some (localSeq.toNat, base) := by
    unfold ByteStateDecoder.view
    rw [hseq, hstate]
  have hready : Ready run.states localSeq.toNat d.view := by
    refine .inr ⟨base, hview, ?_⟩
    by_cases h0 : localSeq = 0
    · left
      rw [h0]
      rfl
    · right
      obtain ⟨state, hnth, rfl⟩ := hbase h0
      exact nth_states_of_log hnth
  rcases history.plan_cases localSeq s with hsnap | ⟨hplan, hlt, -, hfull, htotal⟩
  · refine ⟨?_, fun _ => hsnap⟩
    intro ps hps
    rw [hsnap] at hps
    cases hps
  refine ⟨?_, fun hnot => absurd hfull hnot⟩
  intro ps hps
  rw [hplan] at hps
  cases hps
  obtain ⟨hchain, hlen⟩ := hfull
  have htotal := htotal hsize
  rw [hsseq] at hlt hchain hlen htotal ⊢
  obtain ⟨happlied, hend⟩ := h.replay hc hd hreadable hpaired hschema hready
    (fun p hp => (RecoveryHistory.retained_mem hp).1) hchain
  obtain ⟨-, hpaired', hschema'⟩ := ByteStateDecoder.applyAll_receiveAll (X := X)
    (history.retained (localSeq + 1) run.encoder.sequence) hpaired
  have hpos := UInt64.lt_iff_toNat_lt.mp hlt
  have hnth := htracks.nth_last hlast
  rw [hlen] at hend
  obtain ⟨-, h0⟩ | ⟨st, hst, h0 | hst'⟩ := hend
  · omega
  · omega
  rw [hnth] at hst'
  cases hst'
  obtain ⟨hendseq, hendstate⟩ := ByteStateDecoder.sequence_of_view hst
  have hbehind : Behind d.view run.encoder.sequence.toNat := by
    intro m t hm
    rw [hview] at hm
    cases hm
    exact hpos
  have hsnapview := snapshot_view hd hs hsread hpaired (hschema.trans htracks.schemaHash.symm)
    hbehind
  refine ⟨happlied, hendseq, hendstate, ?_, htotal⟩
  refine ByteStateDecoder.eq_of_view hpaired' (ByteStateDecoder.apply_paired X hpaired s) ?_
    (hst.trans hsnapview.symm)
  rw [hschema', ByteStateDecoder.apply_schemaHash]

/-- Two updates of thirty bytes that differ in the last one. -/
def smallChange : ByteRun × RecoveryHistory :=
  recordAll Crates.stored ⟨.standard (.withPolicy "doc" .default), []⟩ (.new 4 1000)
    [⟨List.replicate 30 7, by decide⟩, ⟨List.replicate 29 7 ++ [8], by decide⟩]

/-- A decoder at the first of them is sent the second packet, not the snapshot. -/
theorem replay_agrees_small_change :
    ∃ s p, smallChange.1.encoder.recoverySnapshot Crates.stored
        ⟨List.replicate 29 7 ++ [8], by decide⟩ = .ok s ∧
      smallChange.2.plan (some 1) s = .ok (.replay [p]) ∧
      ∀ d : ByteStateDecoder, d = ⟨some 1, some (List.replicate 30 7), fnv1a64 (utf8 "doc")⟩ →
        (d.applyAll Crates.stored [p]).2 = (d.apply Crates.stored s).2 := by
  have hrun : Recorded Crates.stored "doc" 4 1000 smallChange.1 smallChange.2 :=
    (Recorded.start (.standard .default)).recordAll
  have hlast : smallChange.1.log.getLast? = some ⟨List.replicate 29 7 ++ [8], by decide⟩ := by
    decide +kernel
  have hs : smallChange.1.encoder.recoverySnapshot Crates.stored
      ⟨List.replicate 29 7 ++ [8], by decide⟩ =
      .ok (byteSnapshot 2 (fnv1a64 (utf8 "doc")) (List.replicate 29 7 ++ [8])) := by
    decide +kernel
  have hplan : smallChange.2.plan (some 1)
      (byteSnapshot 2 (fnv1a64 (utf8 "doc")) (List.replicate 29 7 ++ [8])) =
      .ok (.replay [byteDelta 2 (fnv1a64 (utf8 "doc")) (List.replicate 30 7)
        [1, 30, 1, 29, 8]]) := by
    decide +kernel
  have hsmall : ∀ p ∈ smallChange.2.packets,
      p.isCompressed = false ∧ p.payload.length ≤ DecodeConfig.default.maxDecompressedBytes := by
    decide +kernel
  refine ⟨_, _, hs, hplan, ?_⟩
  rintro d rfl
  have hfirst : (1 : UInt64) ≠ 0 → ∃ state, nth smallChange.1.log (1 : UInt64).toNat = some state ∧
      state.bytes = List.replicate 30 7 :=
    fun _ => ⟨⟨List.replicate 30 7, by decide⟩, by decide +kernel, rfl⟩
  exact ((replay_agrees_with_snapshot Crates.stored_total Crates.stored_exact.inverts hrun hlast hs
    (fun p hp => ⟨_, Packet.logicalPayload_raw (hsmall p hp).1 (hsmall p hp).2⟩)
    ⟨_, Packet.logicalPayload_raw (Packet.snapshot_isCompressed _ _ _ _) (by decide)⟩
    rfl rfl rfl hfirst).1 _ hplan).2.2.2.1

end DeltaStream
