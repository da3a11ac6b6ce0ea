import DeltaStream.AgentFeed
import DeltaStream.ByteChoice
import DeltaStream.ByteRecovery
import DeltaStream.DeltaLength

/-!
# A byte encoder feeding decoders

The byte encoders and decoder under the rules for computations that may fail, for states whose
deltas are within the receiver's limits.

* `BytePublisher.encode_ends`, `BytePublisher.recoverySnapshot_ends` — the two calls of a
  publisher; they only fail where compression does;
* `ByteStateDecoder.apply_usable` — a packet that can be used leaves a decoder consistent, and is
  applied, ignored, or answered by a request for recovery;
* `ByteStateDecoder.apply_restores` — the snapshot at the publisher's sequence brings it up to
  date.
-/

set_option autoImplicit false

namespace DeltaStream

open Fallible Replica

variable {X : Crates} {schemaHash : UInt64} {log : List Slice} {p : Packet}

/-! ## Publishing -/

/-- The packet can be used by a byte decoder that holds one of the states. -/
def ByteFeeds (X : Crates) (schemaHash : UInt64) (log : List Slice) (p : Packet) : Prop :=
  Usable Eq (log.map Slice.bytes) (ByteStateDecoder.read X schemaHash p)

theorem ByteFeeds.snoc (h : ByteFeeds X schemaHash log p) (state : Slice) :
    ByteFeeds X schemaHash (log ++ [state]) p := by
  unfold ByteFeeds
  rw [List.map_append]
  exact h.mono

/-- The packet brings the state at the position of the publisher. -/
def ByteRestores (X : Crates) (schemaHash : UInt64) (log : List Slice) (state : Slice)
    (p : Packet) : Prop :=
  ByteStateDecoder.read X schemaHash p = .full log.length state.bytes

namespace BytePublisher

variable {pub pub' : BytePublisher} {state : Slice}

/-- **`encode` only fails where compression does**, while numbers are left. -/
theorem encode_failed {err : DeltaError} (room : pub.sequence.toNat < U64_MAX)
    (h : pub.encode X state = (.error err, pub')) : X.CompressionFailed err := by
  cases pub with
  | fast e =>
    have room : e.sequence.toNat < U64_MAX := room
    have houtcome := FastByteStateEncoder.encode_outcome X e state
    have hres : (e.encode X state).1 = .error err := (Prod.mk.inj h).1
    generalize e.encode X state = call at houtcome hres
    cases houtcome with
    | encoded hdecision hwork => cases hres
    | exhausted hmax => omega
    | compression hfail =>
      cases hres
      exact ⟨_, _, _, hfail, rfl⟩
  | standard e =>
    have room : e.sequence.toNat < U64_MAX := room
    have hres : (e.encode X state).1 = .error err := (Prod.mk.inj h).1
    unfold ByteStateEncoder.encode at hres
    rw [if_neg (Nat.ne_of_lt room)] at hres
    simp only at hres
    split at hres
    · rename_i err' s hsearch
      cases hres
      unfold ByteStateEncoder.search at hsearch
      simp only at hsearch
      split at hsearch
      · rename_i failure hfirst
        cases hsearch
        obtain ⟨-, msg, hfail, rfl⟩ := Search.tryZstd_error hfirst
        exact ⟨_, _, msg, hfail, rfl⟩
      · obtain ⟨-, raw, -, msg, hfail, rfl⟩ := Search.tryDeltas_error hsearch
        exact ⟨_, _, msg, hfail, rfl⟩
    · cases hres

/-- What is chosen can be written: a decoder that knows the packet ignores what is read back. -/
theorem Encodes.written (h : Encodes X pub state p pub')
    (hmax : state.bytes.length ≤ MAX_LOGICAL_PAYLOAD) : ∃ wire, p.encode X = .ok wire := by
  have hwire := h.applyWire hmax ⟨some p.sequence, none, p.schemaHash⟩
  cases hencode : p.encode X with
  | ok wire => exact ⟨wire, rfl⟩
  | error err =>
    simp [ByteStateDecoder.applyWire, ByteStateDecoder.apply, ByteStateDecoder.stale,
      hencode] at hwire

/-- **Publishing a state** whose deltas fit the limits: the packet is usable and can be
    written. -/
theorem encode_ends (hd : X.ZstdExact) (h : ByteRun.Tracks schemaHash ⟨pub, log⟩)
    (room : log.length < U64_MAX) (hsmall : Small state) :
    Ends (fun r => ByteRun.Tracks schemaHash ⟨r.2, log ++ [state]⟩ ∧
        ByteFeeds X schemaHash (log ++ [state]) r.1 ∧ r.1.sequence.toNat = log.length + 1 ∧
        ∃ wire, r.1.encode X = .ok wire)
      X.CompressionFailed (threaded (pub.encode X state)) := by
  have hsequence : pub.sequence.toNat = log.length := h.sequence
  generalize hcall : pub.encode X state = call
  obtain ⟨result, pub'⟩ := call
  cases result with
  | error err => exact encode_failed (hsequence ▸ room) hcall
  | ok p =>
    have he := encode_ok hcall
    have hfit : ¬SelectsOversized X pub state := DeltasFit.not_selectsOversized hsmall.le
      fun previous _ => Small.deltasFit hsmall X pub.smartDelta previous
    obtain ⟨raw, hraw, hcopy, hpayload⟩ := he.logicalPayload hd hsmall.le hfit
    refine ⟨h.step he, ?_, ?_, he.written hsmall.le⟩
    · unfold ByteFeeds
      rw [List.map_append]
      exact Delivers.usable (h.delivers he hraw hcopy hpayload)
    · rw [hcopy.header.sequence, hraw.sequence, he.toNat_sequence, hsequence]

/-- **A recovery snapshot** brings the state at the publisher's position. -/
theorem recoverySnapshot_ends (hd : X.ZstdExact) (h : ByteRun.Tracks schemaHash ⟨pub, log⟩)
    (hmax : state.bytes.length ≤ MAX_LOGICAL_PAYLOAD) :
    Ends (ByteRestores X schemaHash log state) X.CompressionFailed
      (pub.recoverySnapshot X state) := by
  cases hcall : pub.recoverySnapshot X state with
  | ok p =>
    have hcopy := recoverySnapshot_ok hcall
    have hpayload : p.logicalPayload X = .ok state.bytes :=
      hcopy.payload_fits hd (Packet.snapshot_isCompressed _ _ _ _) hmax
    have hschema : pub.schemaHash = schemaHash := h.schemaHash
    have hsequence : pub.sequence.toNat = log.length := h.sequence
    show ByteStateDecoder.read X schemaHash p = _
    rw [← hschema, ByteStateDecoder.read_snapshot hcopy.header hpayload, hsequence]
  | error err =>
    cases pub with
    | fast e => cases hcall
    | standard e =>
      have hcall : e.recoverySnapshot X state = .error err := hcall
      unfold ByteStateEncoder.recoverySnapshot at hcall
      simp only at hcall
      split at hcall
      · obtain ⟨msg, hfail, rfl⟩ := Packet.zstdCandidate_error hcall
        exact ⟨_, _, msg, hfail, rfl⟩
      · cases hcall

end BytePublisher

section Fast

variable {e : FastByteStateEncoder} {state : Slice}

theorem FastByteStateEncoder.encode_ends (hd : X.ZstdExact)
    (h : ByteRun.Tracks schemaHash ⟨.fast e, log⟩) (room : log.length < U64_MAX)
    (hsmall : Small state) :
    Ends (fun r => ByteRun.Tracks schemaHash ⟨.fast r.2, log ++ [state]⟩ ∧
        ByteFeeds X schemaHash (log ++ [state]) r.1 ∧ r.1.sequence.toNat = log.length + 1 ∧
        ∃ wire, r.1.encode X = .ok wire)
      X.CompressionFailed (threaded (e.encode X state)) := by
  have hall := BytePublisher.encode_ends hd h room hsmall
  have hfast : BytePublisher.encode X state (.fast e) =
      ((e.encode X state).1, .fast (e.encode X state).2) := rfl
  rw [hfast] at hall
  generalize e.encode X state = call at hall
  obtain ⟨result, e'⟩ := call
  cases result with
  | error err => exact hall
  | ok p => exact hall

theorem FastByteStateEncoder.recoverySnapshot_ends (hd : X.ZstdExact)
    (h : ByteRun.Tracks schemaHash ⟨.fast e, log⟩)
    (hmax : state.bytes.length ≤ MAX_LOGICAL_PAYLOAD) :
    Ends (ByteRestores X schemaHash log state) X.CompressionFailed (e.recoverySnapshot state) :=
  BytePublisher.recoverySnapshot_ends hd h hmax

end Fast

/-! ## Receiving -/

namespace ByteStateDecoder

/-- The decoder holds one of the states, under its number. -/
structure Follows (schemaHash : UInt64) (log : List Slice) (d : ByteStateDecoder) : Prop where
  paired : d.Paired
  schema : d.schemaHash = schemaHash
  consistent : ConsistentUpTo Eq (log.map Slice.bytes) d.view

/-- The decoder holds the state, under the publisher's number. -/
structure UpToDate (schemaHash : UInt64) (log : List Slice) (state : Slice)
    (d : ByteStateDecoder) : Prop where
  paired : d.Paired
  schema : d.schemaHash = schemaHash
  at_position : AtPosition Eq log.length state.bytes d.view

variable {d : ByteStateDecoder} {state : Slice} {E : DeltaError → Prop}

theorem Follows.snoc (h : d.Follows schemaHash log) (state : Slice) :
    d.Follows schemaHash (log ++ [state]) where
  paired := h.paired
  schema := h.schema
  consistent := by
    rw [List.map_append]
    exact h.consistent.mono

theorem follows_new (schemaName : String) (log : List Slice) :
    (new schemaName).Follows (fnv1a64 (utf8 schemaName)) log :=
  ⟨new_paired schemaName, rfl, consistentUpTo_none _ _⟩

theorem nth_last (hlast : log.getLast? = some state) :
    nth (log.map Slice.bytes) log.length = some state.bytes := by
  have hmap := nth_length (log.map Slice.bytes)
  simpa [hlast] using hmap

theorem UpToDate.follows (h : d.UpToDate schemaHash log state)
    (hlast : log.getLast? = some state) : d.Follows schemaHash log :=
  ⟨h.paired, h.schema, h.at_position.consistent (nth_last hlast)⟩

/-- What an up-to-date decoder answers. -/
theorem UpToDate.holds {n : UInt64} (h : d.UpToDate schemaHash log state)
    (hn : n.toNat = log.length) : d.state = some state.bytes ∧ d.sequence = some n := by
  obtain ⟨held, hview, rfl⟩ := h.at_position
  rw [← hn] at hview
  exact (sequence_of_view hview).symm

theorem number_sequence {n : Nat} (h : (read X schemaHash p).number? = some n) :
    n = p.sequence.toNat := by
  by_cases hschema : p.schemaHash = schemaHash
  · rw [read_number hschema] at h
    cases h
    rfl
  · unfold read at h
    rw [if_pos hschema] at h
    cases h

/-- What the replica does, the decoder does. -/
theorem apply_ends {Q : ByteApplyResult × ByteStateDecoder → Prop}
    (hd : d.Follows schemaHash log)
    (hok : (receive d.view (read X schemaHash p)).1 ≠ .rejected)
    (hQ : ∀ result d', d'.Paired → d'.schemaHash = schemaHash →
      receive d.view (read X schemaHash p) = (verdict (.ok result), d'.view) → Q (result, d')) :
    Ends Q E (threaded (d.apply X p)) := by
  have hreceive := apply_receive X hd.paired p
  have hpaired := apply_paired X hd.paired p
  have hschema := apply_schemaHash X d p
  rw [hd.schema] at hreceive hschema
  generalize d.apply X p = call at hreceive hpaired hschema
  obtain ⟨result, d'⟩ := call
  cases result with
  | error err =>
    rw [hreceive] at hok
    exact absurd rfl hok
  | ok result => exact hQ result d' hpaired hschema hreceive

/-- **A packet that can be used** is applied, ignored, or answered by a request for recovery.  A
    decoder that is up to date stays so, and the newest packet brings any other up to date unless
    it asks for recovery. -/
theorem apply_usable (hd : d.Follows schemaHash log) (hp : ByteFeeds X schemaHash log p)
    (hlast : log.getLast? = some state) :
    Ends (fun r => r.2.Follows schemaHash log ∧
        (d.UpToDate schemaHash log state → r.2.UpToDate schemaHash log state) ∧
        (p.sequence.toNat = log.length →
          r.2.UpToDate schemaHash log state ∨ ∃ l m, r.1 = .needRecovery l m)) E
      (threaded (d.apply X p)) := by
  have hlength : (log.map Slice.bytes).length = log.length := List.length_map _
  obtain ⟨hnext, hok, -⟩ := receive_usable hp hd.consistent
  refine apply_ends hd hok fun result d' hpaired hschema hreceive => ?_
  rw [hreceive] at hnext
  refine ⟨⟨hpaired, hschema, hnext⟩, fun hup => ?_, fun hnewest => ?_⟩
  · have hat := hup.at_position
    rw [← hlength] at hat
    have hsame := hat.receive hp
    rw [hreceive] at hsame
    refine ⟨hpaired, hschema, ?_⟩
    rw [(Prod.mk.inj hsame).2]
    exact hup.at_position
  · have hnumber : (read X schemaHash p).number? = some (log.map Slice.bytes).length := by
      obtain ⟨n, t, hn, -⟩ := hp.number
      rw [hn, hlength, ← hnewest, number_sequence hn]
    rcases receive_current hd.consistent hp hnumber (s := state.bytes) (by simp [hlast])
      with hat | hneed
    · rw [hreceive, hlength] at hat
      exact .inl ⟨hpaired, hschema, hat⟩
    · rw [hreceive] at hneed
      cases result with
      | needRecovery l m => exact .inr ⟨l, m, rfl⟩
      | applied n s => cases hneed
      | duplicate n => cases hneed

/-- **The state at the publisher's position** brings the decoder up to date. -/
theorem apply_restores (hd : d.Follows schemaHash log)
    (hlast : ∀ t, log.getLast? = some t → t = state)
    (hp : ByteRestores X schemaHash log state p) :
    Ends (fun r => r.2.UpToDate schemaHash log state ∧ ∀ l m, r.1 ≠ .needRecovery l m) E
      (threaded (d.apply X p)) := by
  have hread : read X schemaHash p = .full (log.map Slice.bytes).length state.bytes := by
    rw [List.length_map]
    exact hp
  obtain ⟨hat, hverdict⟩ := receive_whole (R := Eq) (s := state.bytes) rfl hd.consistent (by
    intro t ht
    rw [List.getLast?_map, Option.map_eq_some_iff] at ht
    obtain ⟨last, hlast', rfl⟩ := ht
    rw [hlast last hlast'])
  refine apply_ends hd ?_ fun result d' hpaired hschema hreceive => ?_
  · rw [hread]
    rcases hverdict with h | h <;> rw [h] <;> exact nofun
  rw [hread] at hreceive
  rw [hreceive] at hat hverdict
  rw [List.length_map] at hat
  refine ⟨⟨hpaired, hschema, hat⟩, ?_⟩
  rintro l m rfl
  rcases hverdict with h | h <;> cases h

end ByteStateDecoder

end DeltaStream
