import DeltaStream.ByteReplica
import DeltaStream.Lib.Publishers

/-!
# Publishers that are restarted

A byte publisher may be started again at any time: a fresh encoder of the same schema, of either
kind and under any policy, numbers its states from one, while packets of its earlier lives are
still in flight and the decoder is not told.  What keeps the lives apart is the base hash.

* `ByteRun.Publish.sound` — what one life sends is applied at its place or cannot be read;
* `publisher_restarts` — the decoder holds what some life encoded under its number; a recovery
  snapshot of the current life is applied exactly where the decoder is behind it, and always
  after `reset`.
-/

set_option autoImplicit false

namespace DeltaStream

open Replica Soup BytePublisher

namespace ByteStateDecoder

/-- A delta is applied to states of its base hash only. -/
theorem read_selective (X : Crates) (schemaHash : UInt64) (p : Packet) :
    (read X schemaHash p).Selective fnv1a64 := by
  have hkey : ∀ payload s t, patchState p.baseHash payload s = .next t →
      fnv1a64 s = p.baseHash := by
    intro payload s t h
    unfold patchState at h
    split at h
    · cases h
    · rename_i hbase
      exact Decidable.not_not.mp hbase
  unfold read
  split
  · trivial
  split
  · trivial
  rename_i payload _
  split
  · split <;> trivial
  · intro s s' t t' h h'
    rw [hkey payload s t h, hkey payload s' t' h']

end ByteStateDecoder

open ByteStateDecoder

/-- What one life encoded under a number. -/
def ByteRun.Encoded (run : ByteRun) (n : Nat) (s : Bytes) : Prop := nth run.states n = some s

/-- **One step of one life**: what is sent is applied at its place in the log or cannot be
    read. -/
theorem ByteRun.Publish.sound {X : Crates} (hc : X.CompressTotal) (hd : X.DecompressInverts)
    {schemaHash : UInt64} {run run' : ByteRun} {ms : List Packet} (h : run.Tracks schemaHash)
    (hp : Publish X run ms run') :
    run'.Tracks schemaHash ∧ (∀ n s, run.Encoded n s → run'.Encoded n s) ∧
      ∀ m ∈ ms, Sound run'.Encoded (read X schemaHash m) := by
  obtain ⟨htracks, ⟨more, hlog⟩, -⟩ := hp.genuine hc hd h
  refine ⟨htracks, fun n s hs => ?_, ?_⟩
  · show nth run'.states n = some s
    rw [hlog]
    exact nth_append hs
  cases hp with
  | @encoded current p encoder' hres =>
    have he := encode_ok hres
    intro m hm
    rw [List.mem_singleton.mp hm]
    obtain ⟨raw, hraw, hcopy⟩ := he.raw
    cases hlp : p.logicalPayload X with
    | error err =>
      have hs := hcopy.header.schemaHash.trans (hraw.schemaHash.trans h.schemaHash)
      rw [read_broken hs hlp]
      trivial
    | ok out =>
      rw [hcopy.payload_ok hd hraw.isCompressed hlp] at hlp
      refine (h.delivers he hraw hcopy hlp).sound fun n s hs => ?_
      show nth (states ⟨encoder', run.log ++ [current]⟩) n = some s
      rw [states_append]
      exact hs
  | failed hres => exact fun m hm => absurd hm List.not_mem_nil
  | @recovery last p hlast hres =>
    intro m hm
    rw [List.mem_singleton.mp hm]
    have hcopy := recoverySnapshot_ok hres
    cases hlp : p.logicalPayload X with
    | error err =>
      have hs := hcopy.header.schemaHash.trans h.schemaHash
      rw [read_broken hs hlp]
      trivial
    | ok out =>
      rw [hcopy.payload_ok hd (Packet.snapshot_isCompressed _ _ _ _) hlp] at hlp
      have hread := read_snapshot hcopy.header hlp
      rw [h.schemaHash] at hread
      rw [hread]
      exact h.nth_last hlast

theorem byteChannel_keyed {X : Crates} (hc : X.CompressTotal) (hd : X.DecompressInverts)
    (schemaName : String) :
    Keyed (byteChannel X schemaName) (ByteRun.Tracks (fnv1a64 (utf8 schemaName)))
      (fun d => d.Paired ∧ d.schemaHash = fnv1a64 (utf8 schemaName)) ByteRun.Encoded
      (read X (fnv1a64 (utf8 schemaName))) view fnv1a64 where
  initial := (byteChannel_refines hc hd schemaName).initial
  publish := ByteRun.Publish.sound hc hd
  selective := read_selective X _
  receive := (byteChannel_refines hc hd schemaName).receive
  internal := (byteChannel_refines hc hd schemaName).internal

theorem ByteStateDecoder.Paired.behind_iff {d : ByteStateDecoder} (h : d.Paired) {n : UInt64} :
    Behind d.view n.toNat ↔ ∀ k, d.sequence = some k → k < n := by
  rcases paired_cases h with ⟨hseq, -, hview⟩ | ⟨k, t, hseq, -, hview⟩
  · rw [hseq, hview]
    exact ⟨fun _ k hk => (by cases hk), fun _ m t hm => (by cases hm)⟩
  · rw [hseq, hview]
    constructor
    · intro hbehind k' hk'
      cases hk'
      exact UInt64.lt_iff_toNat_lt.mpr (hbehind _ _ rfl)
    · intro hlt m t' hm
      cases hm
      exact UInt64.lt_iff_toNat_lt.mp (hlt k rfl)

/-- A recovery snapshot that fits is applied exactly where the decoder is behind it. -/
theorem recoverySnapshot_applied_iff {X : Crates} (hd : X.ZstdExact) {pub : BytePublisher}
    {last : Slice} {s : Packet} (hs : pub.recoverySnapshot X last = .ok s)
    (hfits : last.bytes.length ≤ MAX_LOGICAL_PAYLOAD) {d : ByteStateDecoder} (hpaired : d.Paired)
    (hschema : d.schemaHash = pub.schemaHash) :
    (d.apply X s).1 = .ok (.applied pub.sequence last.bytes) ↔
      ∀ k, d.sequence = some k → k < pub.sequence := by
  have hcopy := recoverySnapshot_ok hs
  have hlp : s.logicalPayload X = .ok last.bytes :=
    hcopy.payload_fits hd (Packet.snapshot_isCompressed _ _ _ _) hfits
  have hread := read_snapshot hcopy.header hlp
  have happly := apply_receive X hpaired s
  rw [hschema, hread] at happly
  have hverdict : verdict (d.apply X s).1 = _ := (congrArg Prod.fst happly).symm
  rw [← hpaired.behind_iff, ← receive_full_applied_iff, ← hverdict]
  constructor
  · intro happlied
    rw [happlied]
    rfl
  · intro hv
    obtain ⟨n, hres, hn⟩ := verdict_applied hv
    rw [UInt64.toNat_inj.mp hn] at hres
    exact hres

/-- **Restarts are safe.**  Whatever packets of whatever life arrive, in any order, and wherever
    the decoder is reset: where states that two lives encoded under one number differ in their
    hash, the decoder holds what some life encoded under its number.  The recovery snapshot of
    the current life is applied if and only if the decoder is behind it; after `reset` it is. -/
theorem publisher_restarts {X : Crates} (hc : X.CompressTotal) (hd : X.ZstdExact)
    {schemaName : String} {c : Config (Lives ByteRun) Packet ByteStateDecoder}
    (h : Reachable (restarting (byteChannel X schemaName)) c)
    (hsep : Separates fnv1a64 (c.pub.Published ByteRun.Encoded)) :
    (∀ k, c.rcv.sequence = some k → ∃ run ∈ c.pub.all, ∃ state,
      nth run.log k.toNat = some state ∧ c.rcv.state = some state.bytes) ∧
    ∀ last, c.pub.current.log.getLast? = some last → last.bytes.length ≤ MAX_LOGICAL_PAYLOAD →
      ∃ s, c.pub.current.encoder.recoverySnapshot X last = .ok s ∧
        ((c.rcv.apply X s).1 = .ok (.applied c.pub.current.encoder.sequence last.bytes) ↔
          ∀ k, c.rcv.sequence = some k → k < c.pub.current.encoder.sequence) ∧
        (c.rcv.reset.apply X s).1 = .ok (.applied c.pub.current.encoder.sequence last.bytes) := by
  have hkeyed := (byteChannel_keyed hc hd.inverts schemaName).restarting
  have hinv := hkeyed.invariant.reachable h
  obtain ⟨hpaired, hschema⟩ := hinv.rcv.1
  refine ⟨?_, ?_⟩
  · intro k hk
    obtain ⟨held, hstate, hview⟩ := view_of_sequence hpaired hk
    obtain ⟨run, hrun, hnth⟩ := hkeyed.oneOf h hsep _ _ hview
    obtain ⟨state, hlog, rfl⟩ := nth_states hnth
    exact ⟨run, hrun, state, hlog, hstate⟩
  · intro last hlast hfits
    obtain ⟨s, hs⟩ := recoverySnapshot_total hc c.pub.current.encoder last
    have hcurrent := hinv.pub c.pub.current List.mem_cons_self
    have hsame : c.rcv.schemaHash = c.pub.current.encoder.schemaHash :=
      hschema.trans hcurrent.schemaHash.symm
    refine ⟨s, hs, recoverySnapshot_applied_iff hd hs hfits hpaired hsame, ?_⟩
    rw [recoverySnapshot_applied_iff hd hs hfits (d := c.rcv.reset) rfl hsame]
    intro k hk
    cases hk

/-- Two lives with one state each, of different hashes. -/
theorem separates_two {past current : ByteRun} {s t : Bytes} (h : fnv1a64 s ≠ fnv1a64 t)
    (hpast : past.states = [s]) (hcurrent : current.states = [t]) :
    Separates fnv1a64 (Lives.Published ByteRun.Encoded ⟨[past], current⟩) := by
  have hmem : ∀ n u, Lives.Published ByteRun.Encoded ⟨[past], current⟩ n u → u = t ∨ u = s := by
    rintro n u ⟨run, hrun, hu⟩
    have hstate : u ∈ run.states := nth_mem hu
    rcases List.mem_cons.mp hrun with rfl | hrun
    · rw [hcurrent] at hstate
      exact .inl (List.mem_singleton.mp hstate)
    · rw [List.mem_singleton.mp hrun, hpast] at hstate
      exact .inr (List.mem_singleton.mp hstate)
  intro n u v hu hv hkey
  rcases hmem n u hu with rfl | rfl <;> rcases hmem n v hv with rfl | rfl
  · rfl
  · exact absurd hkey.symm h
  · exact absurd hkey h
  · rfl

/-- Two lives, each with one state: the decoder holds the first one's, and after a reset takes the
    second one's. -/
theorem publisher_restarts_once :
    ∃ c, Reachable (restarting (byteChannel Crates.stored "doc")) c ∧ c.rcv.sequence = some 1 ∧
      (∃ run ∈ c.pub.all, ∃ state, nth run.log 1 = some state ∧
        c.rcv.state = some state.bytes) ∧
      (c.rcv.reset.apply Crates.stored (byteSnapshot 1 (fnv1a64 (utf8 "doc")) [8])).1 =
        .ok (.applied 1 [8]) := by
  have hfirst : (BytePublisher.standard (.withPolicy "doc" .default)).encode Crates.stored
      ⟨[7, 9], by decide⟩ = (.ok (byteSnapshot 1 (fnv1a64 (utf8 "doc")) [7, 9]), _) := rfl
  have hsecond : (BytePublisher.fast (.withPolicy "doc" .default)).encode Crates.stored
      ⟨[8], by decide⟩ = (.ok (byteSnapshot 1 (fnv1a64 (utf8 "doc")) [8]), _) := rfl
  have hseq : ((ByteStateDecoder.new "doc").apply Crates.stored
      (byteSnapshot 1 (fnv1a64 (utf8 "doc")) [7, 9])).2.sequence = some 1 := by decide +kernel
  have h0 : Reachable (restarting (byteChannel Crates.stored "doc"))
      ⟨⟨[], ⟨.standard (.withPolicy "doc" .default), []⟩⟩, [], .new "doc"⟩ :=
    .initial ⟨rfl, .standard _, rfl, rfl⟩
  have h1 := (h0.step (.publish (.current (.encoded hfirst)))).step (.deliver List.mem_cons_self)
  have hinitial : (byteChannel Crates.stored "doc").initial
      ⟨.fast (.withPolicy "doc" .default), []⟩ (.new "doc") := ⟨.fast _, rfl, rfl⟩
  have h2 := h1.step (.publish (.restart hinitial))
  have h3 := h2.step (.publish (.current (.encoded hsecond)))
  have hall := publisher_restarts Crates.stored_total Crates.stored_exact h3
    (separates_two (by decide) rfl rfl)
  obtain ⟨s, hs, -, hreset⟩ := hall.2 ⟨[8], by decide⟩ rfl (by decide)
  cases hs
  exact ⟨_, h3, hseq, hall.1 1 hseq, hreset⟩

end DeltaStream
