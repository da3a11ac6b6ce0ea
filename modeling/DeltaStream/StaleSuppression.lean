import DeltaStream.Rejection

/-!
# Duplicates are what the receiver has passed

Three decoders suppress packets that are not newer than what they hold: two by a window of the
numbers seen last and a comparison, one by the comparison alone.

* `TypedDecoder.Valid.passed_iff` — window and comparison together say that the receiver has
  passed a number, whatever the window has forgotten;
* `duplicates_alike` — so all three return `Duplicate` for the same packets;
* `migrations_suppress_iff` — the migration path does so too, except for deltas of another schema.
-/

set_option autoImplicit false

namespace DeltaStream

/-- The receiver holds this number or a newer one. -/
def Passed (sequence : Option UInt64) (n : UInt64) : Prop := ∃ k, sequence = some k ∧ n ≤ k

/-- A call returns `Duplicate` exactly for packets that were passed, and then changes nothing. -/
structure Suppresses {D R : Type} (sequence : Option UInt64) (duplicate : UInt64 → R) (d : D)
    (p : Packet) (call : Except DeltaError R × D) : Prop where
  duplicate_iff : (∃ n, call.1 = .ok (duplicate n)) ↔ Passed sequence p.sequence
  unchanged : Passed sequence p.sequence → call = (.ok (duplicate p.sequence), d)

theorem Suppresses.intro {D R : Type} {sequence : Option UInt64} {duplicate : UInt64 → R} {d : D}
    {p : Packet} {call : Except DeltaError R × D}
    (hpassed : Passed sequence p.sequence → call = (.ok (duplicate p.sequence), d))
    (hduplicate : ∀ n, call.1 = .ok (duplicate n) → Passed sequence p.sequence) :
    Suppresses sequence duplicate d p call where
  duplicate_iff := by
    constructor
    · rintro ⟨n, hn⟩
      exact hduplicate n hn
    · intro h
      exact ⟨p.sequence, congrArg Prod.fst (hpassed h)⟩
  unchanged := hpassed

namespace TypedDecoder

variable {S : Type} {X : Crates} {C : StateCodec S} {config : DecodeConfig}

theorem Valid.stale_iff_passed {d : TypedDecoder S} (h : d.Valid) (n : UInt64) :
    Replica.Stale d.view n.toNat ↔ Passed d.sequence n := by
  rcases h.cases with ⟨hs, -, hv⟩ | ⟨k, s, hs, -, hv⟩
  · rw [hs, hv]
    constructor
    · intro hstale
      exact absurd hstale (Replica.not_stale_none _)
    · rintro ⟨k, hk, -⟩
      cases hk
  · rw [hs, hv, Replica.stale_some, ← UInt64.le_iff_toNat_le]
    constructor
    · intro hle
      exact ⟨k, rfl, hle⟩
    · rintro ⟨m, hm, hle⟩
      cases hm
      exact hle

/-- **What the window forgot** is caught by the comparison. -/
theorem Valid.passed_iff {d : TypedDecoder S} (h : d.Valid) (n : UInt64) :
    (d.replay.contains n = true ∨ older d.sequence n = true) ↔ Passed d.sequence n :=
  (h.stale_iff n).trans (h.stale_iff_passed n)

theorem apply_suppresses {d : TypedDecoder S} (hd : d.Valid) {p : Packet}
    (hschema : p.schemaHash = C.schemaHash) :
    Suppresses d.sequence .duplicate d p (d.applyPacket X C config p) := by
  refine .intro (fun hpassed => ?_) fun n hn => ?_
  · exact apply_stale hd hschema ((hd.stale_iff_passed _).mpr hpassed)
  · exact (hd.stale_iff_passed _).mp (apply_duplicate hd (Prod.ext hn rfl))

end TypedDecoder

theorem GenericDecoder.apply_suppresses {T : Type} {X : Crates} {S : Serde T}
    {d : GenericDecoder T} (hd : d.stream.Valid) {p : Packet}
    (hschema : p.schemaHash = S.schemaHash) :
    Suppresses d.sequence .duplicate d p (d.applyPacket X S p) := by
  have hstream : Suppresses d.stream.sequence .duplicate d.stream p
      (d.stream.applyPacket X (serdeCodec S) d.decodeConfig p) :=
    TypedDecoder.apply_suppresses hd hschema
  refine ⟨hstream.duplicate_iff, fun hpassed => ?_⟩
  unfold applyPacket
  rw [hstream.unchanged hpassed]

theorem ByteStateDecoder.stale_iff_passed {sequence : Option UInt64} {n : UInt64} :
    stale sequence n = true ↔ Passed sequence n := by
  cases sequence with
  | none =>
    constructor
    · intro h
      cases h
    · rintro ⟨k, hk, -⟩
      cases hk
  | some k =>
    constructor
    · intro h
      exact ⟨k, rfl, of_decide_eq_true h⟩
    · rintro ⟨m, hm, hle⟩
      cases hm
      exact decide_eq_true hle

theorem ByteStateDecoder.apply_suppresses (X : Crates) (d : ByteStateDecoder) {p : Packet}
    (hschema : p.schemaHash = d.schemaHash) :
    Suppresses d.sequence .duplicate d p (d.apply X p) := by
  unfold apply
  rw [if_neg (not_not_intro hschema)]
  split
  · rename_i hstale
    exact .intro (fun _ => rfl) fun _ _ => stale_iff_passed.mp hstale
  rename_i hfresh
  refine .intro (fun hpassed => absurd (stale_iff_passed.mpr hpassed) hfresh) fun n hn => ?_
  split at hn
  · cases hn
  split at hn
  · cases hn
  · rename_i result hnext
    rw [(nextState_needRecovery hnext).2] at hn
    cases hn
  · cases hn

/-- **The decoders classify alike.**  For every decoder in use and every packet of its schema, a
    call returns `Duplicate` exactly when the packet's sequence is at most the one held. -/
theorem duplicates_alike (X : Crates) :
    (∀ d : Decoder, TypedDecoder.Reached X agentCodec .default d → ∀ p : Packet,
      p.schemaHash = agentCodec.schemaHash →
        Suppresses d.sequence .duplicate d p (d.applyPacket X p)) ∧
    (∀ (T : Type) (S : Serde T) (parse : Bytes → Except DeltaError Value)
      (d : GenericDecoder T), GenericDecoder.Reached X S parse d → ∀ p : Packet,
        p.schemaHash = S.schemaHash →
          Suppresses d.sequence .duplicate d p (d.applyPacket X S p)) ∧
    ∀ (d : ByteStateDecoder) (p : Packet), p.schemaHash = d.schemaHash →
      Suppresses d.sequence .duplicate d p (d.apply X p) :=
  ⟨fun _ hd _ hschema => TypedDecoder.apply_suppresses hd.valid hschema,
    fun _ _ _ _ hd _ hschema => GenericDecoder.apply_suppresses hd.valid hschema,
    fun d _ hschema => ByteStateDecoder.apply_suppresses X d hschema⟩

/-! ## Migrations -/

namespace GenericDecoder

/-- **Stale packets on the migration path** are suppressed unless they are deltas of another
    schema. -/
theorem migrations_suppress_iff {T : Type} (X : Crates) (S : Serde T)
    (parse : Bytes → Except DeltaError Value) {d : GenericDecoder T} (hd : Reached X S parse d)
    (migrations : MigrationRegistry) {p : Packet} (hpassed : Passed d.sequence p.sequence) :
    d.applyPacketWithMigrations X S parse p migrations = (.ok (.duplicate p.sequence), d) ↔
      p.schemaHash = S.schemaHash ∨ p.kind = .snapshot := by
  unfold applyPacketWithMigrations
  by_cases hschema : p.schemaHash = S.schemaHash
  · rw [if_pos hschema]
    exact ⟨fun _ => .inl hschema, fun _ => (apply_suppresses hd.valid hschema).unchanged hpassed⟩
  rw [if_neg hschema]
  by_cases hkind : p.kind = .snapshot
  · rw [if_neg (not_not_intro hkind)]
    refine ⟨fun _ => .inr hkind, fun _ => ?_⟩
    split
    · rfl
    rename_i hseen
    rcases (hd.valid.passed_iff p.sequence).mpr hpassed with hcon | hold
    · exact absurd hcon hseen
    · rw [if_pos hold]
  · -- the answer is a request for a snapshot, before any look at the sequence
    rw [if_pos hkind]
    constructor
    · intro h
      cases h
    · rintro (h | h)
      · exact absurd h hschema
      · exact absurd h hkind

end GenericDecoder

/-! ## A subscriber of an older publisher -/

namespace Reading

/-- The second update of a publisher of another schema, as its recovery snapshot and as its
    delta. -/
def oldSnapshot : Packet := .snapshot 2 (fnv1a64 (text .zero)) 7 (text .zero)

def oldDelta : Packet := .delta 2 1 (fnv1a64 (text .zero)) 7 emptyDelta

def readValue (bytes : Bytes) : Except DeltaError Value :=
  if bytes = text .zero then .ok (.object (fields .zero)) else .error unreadable

def fromOld : MigrationRegistry := .register .new 7 serde.schemaHash .ok

/-- The subscriber after the recovery snapshot. -/
def migrated : GenericDecoder Reading :=
  ((GenericDecoder.withDecodeConfig .default).applyPacketWithMigrations .stored serde readValue
    oldSnapshot fromOld).2

theorem migrated_reached : GenericDecoder.Reached .stored serde readValue migrated :=
  .migrated (.new .default) oldSnapshot fromOld

theorem migrated_passed : Passed migrated.sequence 2 := by
  have hsequence : migrated.sequence = some 2 := by decide +kernel
  exact ⟨2, hsequence, UInt64.le_refl 2⟩

end Reading

open Reading in
/-- The snapshot is suppressed when it is delivered again. -/
theorem migrations_suppress_snapshot :
    migrated.applyPacketWithMigrations .stored serde readValue oldSnapshot fromOld =
      (.ok (.duplicate 2), migrated) :=
  (GenericDecoder.migrations_suppress_iff .stored serde readValue migrated_reached fromOld
    migrated_passed).mpr (.inr rfl)

open Reading in
/-- The delta it replaced, delivered late, asks for another snapshot. -/
theorem migrations_late_delta :
    GenericDecoder.Reached .stored serde readValue migrated ∧
      Passed migrated.sequence oldDelta.sequence ∧
      (migrated.applyPacketWithMigrations .stored serde readValue oldDelta fromOld).1 =
        .ok (.needSnapshot (some 2) 1) := by
  have hcall : (migrated.applyPacketWithMigrations .stored serde readValue oldDelta fromOld).1 =
      .ok (.needSnapshot (some 2) 1) := by decide +kernel
  exact ⟨migrated_reached, migrated_passed, hcall⟩

open Reading in
/-- A packet of the subscriber's own schema with the number of the snapshot is suppressed, and the
    next number is not. -/
theorem duplicates_alike_migrated :
    migrated.applyPacket .stored serde (.delta 2 1 0 serde.schemaHash []) =
        (.ok (.duplicate 2), migrated) ∧
      ¬∃ n, (migrated.applyPacket .stored serde (.delta 3 2 0 serde.schemaHash [])).1 =
        .ok (.duplicate n) := by
  have hgeneric := (duplicates_alike .stored).2.1 Reading serde readValue migrated migrated_reached
  refine ⟨(hgeneric _ rfl).unchanged migrated_passed, fun h => ?_⟩
  obtain ⟨k, hk, hle⟩ := (hgeneric _ rfl).duplicate_iff.mp h
  have hsequence : migrated.sequence = some 2 := by decide +kernel
  rw [hsequence] at hk
  cases hk
  exact absurd hle (by decide)

end DeltaStream
