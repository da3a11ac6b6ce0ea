import DeltaStream.ByteStream

/-!
# The byte stream is a replica of the encoded states

`ByteStateDecoder.apply` does to a packet what a replica does to the update the packet carries
(`apply_receive`), and whatever a `BytePublisher` emits is genuine for the states it has
encoded (`ByteRun.Publish.genuine`).

* `byte_stream_safe` — **state-chain safety**: under any loss, duplication, delay and
  reordering the decoder holds exactly the state encoded under its sequence number.
-/

set_option autoImplicit false

namespace DeltaStream

open Replica Soup

/-! ## The decoder is a replica -/

namespace ByteStateDecoder

/-- Sequence and state are set together. -/
def Paired (d : ByteStateDecoder) : Prop := d.sequence.isSome = d.state.isSome

/-- What the decoder holds. -/
def view (d : ByteStateDecoder) : Option (Nat × Bytes) :=
  match d.sequence, d.state with
  | some n, some s => some (n.toNat, s)
  | _, _ => none

/-- A delta payload as a patch of the states with the right hash. -/
def patchState (baseHash : UInt64) (payload base : Bytes) : Patched Bytes :=
  if fnv1a64 base ≠ baseHash then .mismatch
  else
    match applyDelta base payload with
    | .error _ => .broken
    | .ok next => .next next

/-- The update a packet carries. -/
def read (X : Crates) (schemaHash : UInt64) (p : Packet) : Update Bytes :=
  if p.schemaHash ≠ schemaHash then .foreign
  else
    match p.logicalPayload X with
    | .error _ => .broken p.sequence.toNat
    | .ok payload =>
      match p.kind with
      | .snapshot =>
        if fnv1a64 payload ≠ p.baseHash then .broken p.sequence.toNat
        else .full p.sequence.toNat payload
      | .delta => .patch p.sequence.toNat p.baseSequence.toNat (patchState p.baseHash payload)

def verdict : Except DeltaError ByteApplyResult → Verdict Bytes
  | .error _ => .rejected
  | .ok (.applied n s) => .applied n.toNat s
  | .ok (.needRecovery _ _) => .need
  | .ok (.duplicate _) => .duplicate

theorem paired_cases {d : ByteStateDecoder} (h : d.Paired) :
    (d.sequence = none ∧ d.state = none ∧ d.view = none) ∨
      ∃ n s, d.sequence = some n ∧ d.state = some s ∧ d.view = some (n.toNat, s) := by
  obtain ⟨sequence, state, schemaHash⟩ := d
  unfold Paired at h
  cases sequence <;> cases state <;> simp_all [view]

theorem new_paired (schemaName : String) : (new schemaName).Paired := rfl

theorem sequence_of_view {d : ByteStateDecoder} {n : UInt64} {s : Bytes}
    (h : d.view = some (n.toNat, s)) : d.sequence = some n ∧ d.state = some s := by
  unfold view at h
  split at h
  · rename_i m t hseq hst
    obtain ⟨hm, rfl⟩ := Prod.mk.inj (Option.some.inj h)
    rw [UInt64.toNat_inj.mp hm] at hseq
    exact ⟨hseq, hst⟩
  · cases h

/-- The staleness test is the replica's. -/
theorem stale_iff {d : ByteStateDecoder} (h : d.Paired) (n : UInt64) :
    stale d.sequence n = true ↔ Stale d.view n.toNat := by
  rcases paired_cases h with ⟨hs, -, hv⟩ | ⟨m, s, hs, -, hv⟩
  · rw [hs, hv]
    simp [stale]
  · rw [hs, hv, stale_some]
    simp [stale, UInt64.le_iff_toNat_le]

/-- What a delta makes of the decoder, as the outcome of a patch. -/
def outcome : Except DeltaError (Bytes ⊕ ByteApplyResult) → Patched Bytes
  | .error _ => .broken
  | .ok (.inl next) => .next next
  | .ok (.inr _) => .mismatch

theorem nextState_delta {d : ByteStateDecoder} {p : Packet} (payload : Bytes) (h : d.Paired)
    (hkind : p.kind = .delta) :
    outcome (d.nextState p payload) =
      (Update.patch p.sequence.toNat p.baseSequence.toNat (patchState p.baseHash payload)).outcome
        d.view := by
  unfold nextState
  rw [hkind]
  rcases paired_cases h with ⟨hs, -, hv⟩ | ⟨m, s, hs, hst, hv⟩
  · rw [hs, hv]
    rfl
  · simp only [hs, hst, hv]
    by_cases hm : m = p.baseSequence
    · subst hm
      rw [if_neg (by simp), outcome_patch_base]
      unfold patchState
      split
      · rfl
      · cases applyDelta s payload <;> rfl
    · have hne : m.toNat ≠ p.baseSequence.toNat := fun h => hm (UInt64.toNat_inj.mp h)
      rw [if_pos (by simpa using hm)]
      exact (if_neg hne).symm

/-- The only result of `nextState` that is not a state. -/
theorem nextState_needRecovery {d : ByteStateDecoder} {p : Packet} {payload : Bytes}
    {result : ByteApplyResult} (h : d.nextState p payload = .ok (.inr result)) :
    p.kind = .delta ∧ result = .needRecovery d.sequence p.baseSequence := by
  unfold nextState at h
  split at h
  · split at h
    · cases h
    · cases h
  · rename_i hkind
    refine ⟨hkind, ?_⟩
    split at h
    · cases h
      rfl
    split at h
    · cases h
    split at h
    · cases h
      rfl
    split at h
    · cases h
    · cases h

theorem read_number {X : Crates} {schemaHash : UInt64} {p : Packet}
    (h : p.schemaHash = schemaHash) :
    (read X schemaHash p).number? = some p.sequence.toNat := by
  unfold read
  rw [if_neg (by simpa using h)]
  split
  · rfl
  split
  · split
    · rfl
    · rfl
  · rfl

theorem read_outcome {X : Crates} {d : ByteStateDecoder} {p : Packet} (h : d.Paired)
    (hschema : p.schemaHash = d.schemaHash) :
    (read X d.schemaHash p).outcome d.view =
      match p.logicalPayload X with
      | .error _ => .broken
      | .ok payload => outcome (d.nextState p payload) := by
  unfold read
  rw [if_neg (by simpa using hschema)]
  cases p.logicalPayload X with
  | error e => rfl
  | ok payload =>
    simp only
    split
    · rename_i hkind
      unfold nextState
      simp only [hkind]
      split
      · rfl
      · rfl
    · rename_i hkind
      exact (nextState_delta payload h hkind).symm

/-- **The decoder refines the replica**: verdict and held state. -/
theorem apply_receive (X : Crates) {d : ByteStateDecoder} (h : d.Paired) (p : Packet) :
    receive d.view (read X d.schemaHash p) =
      (verdict (d.apply X p).1, (d.apply X p).2.view) := by
  unfold apply
  split
  · rename_i hschema
    unfold read
    rw [if_pos hschema]
    rfl
  rename_i hschema
  have hschema := Decidable.not_not.mp hschema
  have hnumber := read_number (X := X) hschema
  have hstale := stale_iff h p.sequence
  split
  · rename_i hold
    exact receive_stale hnumber (hstale.mp hold)
  rename_i hnew
  rw [receive_fresh hnumber fun hs => hnew (hstale.mpr hs), read_outcome h hschema]
  cases p.logicalPayload X with
  | error e => rfl
  | ok payload =>
    simp only
    split
    · rename_i e hres
      rw [hres]
      rfl
    · rename_i result hres
      rw [hres, (nextState_needRecovery hres).2]
      rfl
    · rename_i next hres
      rw [hres]
      rfl

theorem verdict_applied {result : Except DeltaError ByteApplyResult} {n : Nat} {s : Bytes}
    (h : verdict result = .applied n s) : ∃ m, result = .ok (.applied m s) ∧ m.toNat = n := by
  unfold verdict at h
  split at h
  · cases h
  · rename_i m t
    cases h
    exact ⟨m, rfl, rfl⟩
  · cases h
  · cases h

theorem apply_paired (X : Crates) {d : ByteStateDecoder} (h : d.Paired) (p : Packet) :
    (d.apply X p).2.Paired := by
  unfold apply
  split
  · exact h
  split
  · exact h
  split
  · exact h
  split
  · exact h
  · exact h
  · rfl

@[simp] theorem apply_schemaHash (X : Crates) (d : ByteStateDecoder) (p : Packet) :
    (d.apply X p).2.schemaHash = d.schemaHash := by
  unfold apply
  split
  · rfl
  split
  · rfl
  split
  · rfl
  split <;> rfl

/-! ## Reading what a publisher emits -/

theorem read_broken {X : Crates} {schemaHash : UInt64} {p : Packet} {err : DeltaError}
    (hschema : p.schemaHash = schemaHash) (h : p.logicalPayload X = .error err) :
    read X schemaHash p = .broken p.sequence.toNat := by
  unfold read
  rw [if_neg (by simpa using hschema), h]

theorem read_snapshot {X : Crates} {sequence schemaHash : UInt64} {s : Bytes} {p : Packet}
    (hh : p.SameHeader (byteSnapshot sequence schemaHash s)) (hp : p.logicalPayload X = .ok s) :
    read X schemaHash p = .full sequence.toNat s := by
  have hkind : p.kind = .snapshot := hh.kind
  have hhash : p.baseHash = fnv1a64 s := hh.baseHash
  have hseq : p.sequence = sequence := hh.sequence
  have hschema : p.schemaHash = schemaHash := hh.schemaHash
  unfold read
  rw [if_neg (not_not_intro hschema), hp]
  simp only [hkind, hhash, hseq]
  rw [if_neg (by simp)]

theorem read_delta {X : Crates} {sequence schemaHash : UInt64} {previous payload : Bytes}
    {p : Packet} (hh : p.SameHeader (byteDelta sequence schemaHash previous payload))
    (hp : p.logicalPayload X = .ok payload) :
    read X schemaHash p = .patch sequence.toNat (sequence - 1).toNat
      (patchState (fnv1a64 previous) payload) := by
  have hkind : p.kind = .delta := hh.kind
  have hhash : p.baseHash = fnv1a64 previous := hh.baseHash
  have hseq : p.sequence = sequence := hh.sequence
  have hschema : p.schemaHash = schemaHash := hh.schemaHash
  have hbase : p.baseSequence = sequence - 1 := hh.baseSequence
  unfold read
  rw [if_neg (not_not_intro hschema), hp]
  simp only [hkind, hhash, hseq, hbase]

/-- A candidate payload patches the state it was made from into the next one. -/
theorem patchState_exact {previous current : Slice} {policy : SmartDeltaPolicy}
    {c : SmartDeltaCandidate} (hc : c ∈ encodeCandidates previous.bytes current.bytes policy) :
    patchState (fnv1a64 previous.bytes) c.payload previous.bytes = .next current.bytes := by
  unfold patchState
  rw [if_neg (by simp), encodeCandidates_exact current.length_lt hc]

end ByteStateDecoder

/-! ## Publisher runs -/

/-- A publisher and the states it has encoded so far. -/
structure ByteRun where
  encoder : BytePublisher
  log : List Slice

namespace ByteRun

def states (run : ByteRun) : List Bytes := run.log.map Slice.bytes

/-- One call: `encode` on any state, or `recovery_snapshot` on the last encoded state. -/
inductive Publish (X : Crates) : ByteRun → List Packet → ByteRun → Prop where
  | encoded {run : ByteRun} {current : Slice} {p : Packet} {encoder' : BytePublisher}
      (h : run.encoder.encode X current = (.ok p, encoder')) :
      Publish X run [p] ⟨encoder', run.log ++ [current]⟩
  | failed {run : ByteRun} {current : Slice} {err : DeltaError} {encoder' : BytePublisher}
      (h : run.encoder.encode X current = (.error err, encoder')) :
      Publish X run [] ⟨encoder', run.log⟩
  | recovery {run : ByteRun} {last : Slice} {p : Packet} (hlast : run.log.getLast? = some last)
      (h : run.encoder.recoverySnapshot X last = .ok p) : Publish X run [p] run

/-- The encoder's number and previous state are those of the log. -/
structure Tracks (schemaHash : UInt64) (run : ByteRun) : Prop where
  sequence : run.encoder.sequence.toNat = run.log.length
  previous : run.encoder.previous = run.log.getLast?
  schemaHash : run.encoder.schemaHash = schemaHash

theorem Tracks.nth_last {schemaHash : UInt64} {run : ByteRun} {last : Slice}
    (h : run.Tracks schemaHash) (hlast : run.log.getLast? = some last) :
    nth run.states run.encoder.sequence.toNat = some last.bytes := by
  have hlen : run.encoder.sequence.toNat = run.states.length := by
    rw [h.sequence]
    exact (List.length_map _).symm
  rw [hlen, nth_length]
  unfold states
  rw [List.getLast?_map, hlast]
  rfl

theorem states_append (run : ByteRun) (encoder' : BytePublisher) (current : Slice) :
    states ⟨encoder', run.log ++ [current]⟩ = run.states ++ [current.bytes] :=
  List.map_append

end ByteRun

namespace BytePublisher

theorem Encodes.toNat_sequence {X : Crates} {pub pub' : BytePublisher} {current : Slice}
    {p : Packet} (h : Encodes X pub current p pub') :
    (pub.sequence + 1).toNat = pub.sequence.toNat + 1 := by
  have hmax : pub.sequence.toNat < 2 ^ 64 - 1 := h.notExhausted
  rw [UInt64.toNat_add]
  have : (1 : UInt64).toNat = 1 := rfl
  omega

/-- The packet chosen is a copy of a raw offer. -/
theorem Encodes.raw {X : Crates} {pub pub' : BytePublisher} {current : Slice} {p : Packet}
    (h : Encodes X pub current p pub') :
    ∃ raw, RawOffer pub (pub.sequence + 1) current.bytes raw ∧ Packet.CopyOf X raw p :=
  offers_mem h.best.mem

theorem RawOffer.isCompressed {pub : BytePublisher} {sequence : UInt64} {current : Bytes}
    {raw : Packet} (h : RawOffer pub sequence current raw) : raw.isCompressed = false := by
  cases h with
  | snapshot => exact Packet.snapshot_isCompressed _ _ _ _
  | delta hprev hc => exact Packet.delta_isCompressed _ _ _ _ _

theorem RawOffer.schemaHash {pub : BytePublisher} {sequence : UInt64} {current : Bytes}
    {raw : Packet} (h : RawOffer pub sequence current raw) : raw.schemaHash = pub.schemaHash := by
  cases h with
  | snapshot => rfl
  | delta hprev hc => rfl

theorem RawOffer.sequence {pub : BytePublisher} {sequence : UInt64} {current : Bytes}
    {raw : Packet} (h : RawOffer pub sequence current raw) : raw.sequence = sequence := by
  cases h with
  | snapshot => rfl
  | delta hprev hc => rfl

end BytePublisher

namespace ByteRun

open BytePublisher ByteStateDecoder

/-- A readable copy of a raw offer brings the new state to a replica one behind. -/
theorem Tracks.delivers {X : Crates} {schemaHash : UInt64} {run : ByteRun}
    {encoder' : BytePublisher} {current : Slice} {raw p chosen : Packet}
    (h : run.Tracks schemaHash) (he : Encodes X run.encoder current chosen encoder')
    (hraw : RawOffer run.encoder (run.encoder.sequence + 1) current.bytes raw)
    (hcopy : Packet.CopyOf X raw p) (hp : p.logicalPayload X = .ok raw.payload) :
    Delivers (run.states ++ [current.bytes]) (run.log.length + 1) (read X schemaHash p) := by
  have hnum : (run.encoder.sequence + 1).toNat = run.log.length + 1 := by
    rw [he.toNat_sequence, h.sequence]
  have hlen : run.log.length = run.states.length := (List.length_map _).symm
  have hnew : nth (run.states ++ [current.bytes]) (run.log.length + 1) = some current.bytes := by
    rw [hlen]
    exact nth_length_append _ _
  cases hraw with
  | snapshot =>
    rw [← h.schemaHash, read_snapshot hcopy.header hp, hnum]
    exact ⟨rfl, hnew⟩
  | @delta previous c hprev hc =>
    have hbase : (run.encoder.sequence + 1 - 1).toNat = run.log.length := by
      rw [show run.encoder.sequence + 1 - 1 = run.encoder.sequence by simp, h.sequence]
    have hlast : run.log.getLast? = some previous := by rw [← h.previous, hprev]
    have hnth := h.nth_last hlast
    rw [h.sequence] at hnth
    rw [← h.schemaHash, read_delta hcopy.header hp, hnum, hbase]
    exact ⟨rfl, rfl, previous.bytes, current.bytes, nth_append hnth, patchState_exact hc, hnew⟩

theorem Tracks.step {X : Crates} {schemaHash : UInt64} {run : ByteRun} {encoder' : BytePublisher}
    {current : Slice} {p : Packet} (h : run.Tracks schemaHash)
    (he : Encodes X run.encoder current p encoder') :
    Tracks schemaHash ⟨encoder', run.log ++ [current]⟩ where
  sequence := by
    rw [he.sequence, he.toNat_sequence, h.sequence]
    simp
  previous := by
    rw [he.previous]
    simp
  schemaHash := he.schemaHash.trans h.schemaHash

/-- **One publisher step**: the log is kept or extended and what is sent is genuine for it. -/
theorem Publish.genuine {X : Crates} (hc : X.CompressTotal) (hd : X.DecompressInverts)
    {schemaHash : UInt64} {run run' : ByteRun} {ms : List Packet} (h : run.Tracks schemaHash)
    (hp : Publish X run ms run') :
    run'.Tracks schemaHash ∧ (∃ more, run'.states = run.states ++ more) ∧
      ∀ m ∈ ms, Genuine run'.states (read X schemaHash m) := by
  cases hp with
  | @encoded current p encoder' hres =>
    have he := encode_ok hres
    refine ⟨h.step he, ⟨_, states_append run encoder' current⟩, ?_⟩
    intro m hm
    rw [List.mem_singleton.mp hm, states_append]
    obtain ⟨raw, hraw, hcopy⟩ := he.raw
    cases hlp : p.logicalPayload X with
    | error err =>
      have hs := hcopy.header.schemaHash.trans (hraw.schemaHash.trans h.schemaHash)
      rw [read_broken hs hlp]
      trivial
    | ok out =>
      have hout := hcopy.payload_ok hd hraw.isCompressed hlp
      rw [hout] at hlp
      exact (h.delivers he hraw hcopy hlp).genuine
  | @failed current err encoder' hres =>
    obtain ⟨-, -, ⟨-, rfl⟩ | ⟨-, -, hfail⟩⟩ := encode_error hres
    · exact ⟨h, ⟨[], (List.append_nil _).symm⟩, fun m hm => absurd hm List.not_mem_nil⟩
    · exact absurd hc hfail
  | @recovery last p hlast hres =>
    refine ⟨h, ⟨[], (List.append_nil _).symm⟩, ?_⟩
    intro m hm
    rw [List.mem_singleton.mp hm]
    have hcopy := recoverySnapshot_ok hres
    cases hlp : p.logicalPayload X with
    | error err =>
      rw [read_broken (hcopy.header.schemaHash.trans h.schemaHash) hlp]
      trivial
    | ok out =>
      rw [hcopy.payload_ok hd (Packet.snapshot_isCompressed _ _ _ _) hlp] at hlp
      rw [← h.schemaHash, read_snapshot hcopy.header hlp]
      exact h.nth_last hlast

end ByteRun

/-! ## The channel -/

/-- A byte publisher, its packets in flight and a decoder of the same schema. -/
def byteChannel (X : Crates) (schemaName : String) : System ByteRun Packet ByteStateDecoder where
  initial run d :=
    run.encoder.Fresh schemaName ∧ run.log = [] ∧ d = ByteStateDecoder.new schemaName
  publish := ByteRun.Publish X
  receive d p := (d.apply X p).2
  internal d d' := d' = d.reset

theorem byteChannel_refines {X : Crates} (hc : X.CompressTotal) (hd : X.DecompressInverts)
    (schemaName : String) :
    Refines (byteChannel X schemaName) (ByteRun.Tracks (fnv1a64 (utf8 schemaName)))
      (fun d => d.Paired ∧ d.schemaHash = fnv1a64 (utf8 schemaName)) ByteRun.states
      (ByteStateDecoder.read X (fnv1a64 (utf8 schemaName))) ByteStateDecoder.view where
  initial := by
    rintro run d ⟨hfresh, hlog, rfl⟩
    obtain ⟨hseq, hprev, hschema⟩ := hfresh.spec
    refine ⟨⟨?_, ?_, hschema⟩, ⟨rfl, rfl⟩, rfl⟩
    · rw [hseq, hlog]
      rfl
    · rw [hprev, hlog]
      rfl
  publish := ByteRun.Publish.genuine hc hd
  receive := by
    rintro d m ⟨hpaired, hschema⟩
    refine ⟨⟨ByteStateDecoder.apply_paired X hpaired m, ?_⟩, ?_⟩
    · exact (ByteStateDecoder.apply_schemaHash X d m).trans hschema
    · rw [← hschema, ByteStateDecoder.apply_receive X hpaired m]
      rfl
  internal := by
    rintro d d' ⟨-, hschema⟩ rfl
    exact ⟨⟨rfl, hschema⟩, .inr rfl⟩

theorem nth_states {run : ByteRun} {n : Nat} {s : Bytes} (h : nth run.states n = some s) :
    ∃ state, nth run.log n = some state ∧ state.bytes = s := by
  unfold nth at h ⊢
  split at h
  · cases h
  · rename_i hn
    rw [if_neg hn]
    unfold ByteRun.states at h
    rw [List.getElem?_map, Option.map_eq_some_iff] at h
    exact h

theorem nth_states_of_log {run : ByteRun} {n : Nat} {state : Slice}
    (h : nth run.log n = some state) : nth run.states n = some state.bytes := by
  unfold nth at h ⊢
  split at h
  · cases h
  · rename_i hn
    rw [if_neg hn]
    unfold ByteRun.states
    rw [List.getElem?_map, h]
    rfl

theorem ByteStateDecoder.view_of_sequence {d : ByteStateDecoder} (h : d.Paired) {k : UInt64}
    (hk : d.sequence = some k) : ∃ s, d.state = some s ∧ d.view = some (k.toNat, s) := by
  rcases paired_cases h with ⟨hs, -, -⟩ | ⟨n, s, hs, hst, hv⟩
  · rw [hs] at hk
    cases hk
  · rw [hs] at hk
    cases hk
    exact ⟨s, hst, hv⟩

/-- An applied packet: the decoder takes its number and the resulting state, and a delta found
    its base. -/
theorem ByteStateDecoder.apply_applied {X : Crates} {d : ByteStateDecoder} {p : Packet}
    {n : UInt64} {s : Bytes} (h : (d.apply X p).1 = .ok (.applied n s)) :
    (d.apply X p).2 = { d with sequence := some n, state := some s } ∧ n = p.sequence ∧
      (p.kind = .delta → d.sequence = some p.baseSequence) := by
  unfold apply at h ⊢
  split at h
  · cases h
  rename_i hschema
  split at h
  · cases h
  rename_i hstale
  rw [if_neg hschema, if_neg hstale]
  split at h
  · cases h
  rename_i payload hlp
  split at h
  · cases h
  · rename_i result hres
    rw [(nextState_needRecovery hres).2] at h
    cases h
  · rename_i next hres
    cases h
    refine ⟨rfl, rfl, ?_⟩
    intro hkind
    unfold nextState at hres
    rw [hkind] at hres
    simp only at hres
    split at hres
    · cases hres
    · rename_i hbase
      exact Decidable.not_not.mp hbase

theorem ByteStateDecoder.apply_stale {X : Crates} {d : ByteStateDecoder} {p : Packet} {k : UInt64}
    (hk : d.sequence = some k) (h : p.sequence ≤ k) : (d.apply X p).2 = d := by
  unfold apply
  split
  · rfl
  · rw [if_pos (by rw [hk]; exact decide_eq_true h)]

theorem byte_stream_consistent {X : Crates} (hc : X.CompressTotal) (hd : X.DecompressInverts)
    {schemaName : String} {c : Config ByteRun Packet ByteStateDecoder}
    (h : Reachable (byteChannel X schemaName) c) {k : UInt64} (hk : c.rcv.sequence = some k) :
    ∃ state, nth c.pub.log k.toNat = some state ∧ c.rcv.state = some state.bytes := by
  have hrefines := byteChannel_refines hc hd schemaName
  have hpaired := ((hrefines.invariant.reachable h).rcv.1).1
  obtain ⟨s, hs, hview⟩ := ByteStateDecoder.view_of_sequence hpaired hk
  obtain ⟨state, hnth, rfl⟩ := nth_states (hrefines.consistent h _ _ hview)
  exact ⟨state, hnth, hs⟩

/-- **State-chain safety of the byte stream.**  In every reachable configuration the decoder
    holds, byte for byte, the state encoded under its sequence number; a delta in flight is
    only ever applied to the state it was made from; packets at or below the decoder's
    sequence change nothing. -/
theorem byte_stream_safe {X : Crates} (hc : X.CompressTotal) (hd : X.DecompressInverts)
    {schemaName : String} {c : Config ByteRun Packet ByteStateDecoder}
    (h : Reachable (byteChannel X schemaName) c) :
    (∀ k, c.rcv.sequence = some k →
      ∃ state, nth c.pub.log k.toNat = some state ∧ c.rcv.state = some state.bytes) ∧
    (∀ p ∈ c.sent, p.kind = .delta → ∀ n s, (c.rcv.apply X p).1 = .ok (.applied n s) →
      ∃ base next, nth c.pub.log p.baseSequence.toNat = some base ∧
        c.rcv.sequence = some p.baseSequence ∧ c.rcv.state = some base.bytes ∧
        nth c.pub.log n.toNat = some next ∧ s = next.bytes) ∧
    (∀ p k, c.rcv.sequence = some k → p.sequence ≤ k → (c.rcv.apply X p).2 = c.rcv) := by
  refine ⟨fun k hk => byte_stream_consistent hc hd h hk, ?_,
    fun p k hk hle => ByteStateDecoder.apply_stale hk hle⟩
  intro p hp hkind n s happ
  obtain ⟨hafter, -, hdelta⟩ := ByteStateDecoder.apply_applied happ
  have hbase := hdelta hkind
  obtain ⟨base, hnth, hb⟩ := byte_stream_consistent hc hd h hbase
  have hnext : Reachable (byteChannel X schemaName) ⟨c.pub, c.sent, (c.rcv.apply X p).2⟩ :=
    h.step (Step.deliver hp)
  obtain ⟨next, hn, hs⟩ := byte_stream_consistent hc hd hnext (k := n) (by rw [hafter])
  rw [hafter] at hs
  exact ⟨base, next, hnth, hbase, hb, hn, Option.some.inj hs⟩

/-! ## A run -/

def docState : Slice := ⟨[1, 2, 3, 4, 5, 6, 7, 8], by decide⟩

def docEdited : Slice := ⟨[1, 2, 3, 4, 5, 6, 7, 9], by decide⟩

def docSnapshot : Packet := byteSnapshot 1 (fnv1a64 (utf8 "doc")) docState.bytes

def docDelta : Packet := byteDelta 2 (fnv1a64 (utf8 "doc")) docState.bytes [1, 8, 1, 7, 9]

/-- A run of two updates, stored uncompressed. -/
def docRun : ByteRun := ⟨.standard (.withPolicy "doc" .default), []⟩

def docRun1 : ByteRun := ⟨(docRun.encoder.encode .stored docState).2, [docState]⟩

def docRun2 : ByteRun := ⟨(docRun1.encoder.encode .stored docEdited).2, [docState, docEdited]⟩

theorem docRun_publish : ByteRun.Publish .stored docRun [docSnapshot] docRun1 :=
  .encoded (Prod.ext (by decide +kernel) rfl)

theorem docRun1_publish : ByteRun.Publish .stored docRun1 [docDelta] docRun2 :=
  .encoded (Prod.ext (by decide +kernel) rfl)

theorem docRun2_reachable :
    Reachable (byteChannel .stored "doc") ⟨docRun2, [docDelta, docSnapshot], .new "doc"⟩ := by
  have h0 : Reachable (byteChannel .stored "doc") ⟨docRun, [], .new "doc"⟩ :=
    .initial ⟨.standard _, rfl, rfl⟩
  have h2 := (h0.step (.publish docRun_publish)).step (.publish docRun1_publish)
  exact h2

/-- The delta overtakes the snapshot and cannot be used, comes again behind it and is applied, and
    the snapshot comes once more. -/
theorem byte_stream_safe_reordered :
    (∃ c, Reachable (byteChannel .stored "doc") c ∧
      c.rcv = ((ByteStateDecoder.new "doc").apply .stored docSnapshot).2 ∧
      ∃ base next, nth c.pub.log 1 = some base ∧ c.rcv.sequence = some 1 ∧
        c.rcv.state = some base.bytes ∧ nth c.pub.log 2 = some next ∧
        docEdited.bytes = next.bytes) ∧
    ∃ c, Reachable (byteChannel .stored "doc") c ∧ c.rcv.sequence = some 2 ∧
      (∃ state, nth c.pub.log 2 = some state ∧ c.rcv.state = some state.bytes) ∧
      (c.rcv.apply .stored docSnapshot).2 = c.rcv := by
  have hsafe := @byte_stream_safe _ Crates.stored_total Crates.stored_exact.inverts "doc"
  have hsnapshot : docSnapshot ∈ [docDelta, docSnapshot] := by simp
  have hdelta : docDelta ∈ [docDelta, docSnapshot] := List.mem_cons_self
  have h1 := (docRun2_reachable.step (.deliver hdelta)).step (.deliver hsnapshot)
  have h2 := (h1.step (.deliver hdelta)).step (.deliver hsnapshot)
  refine ⟨⟨_, h1, by decide +kernel, ?_⟩, _, h2, by decide +kernel, ?_, ?_⟩
  · exact (hsafe h1).2.1 docDelta hdelta rfl 2 _ (by decide +kernel)
  · exact (hsafe h2).1 2 (by decide +kernel)
  · exact (hsafe h2).2.2 docSnapshot 2 (by decide +kernel) (by decide)

end DeltaStream
