import DeltaStream.Sync

/-!
# Schema migrations

Model of `src/migration.rs` and of `GenericDecoder::apply_packet_with_migrations`: a snapshot of
another schema is read as a JSON value, transformed by the function registered for the pair of
schemas, and taken over as a state.

* `MigrationRegistry.migrate_register` — a registered route is used, the others are left alone;
* `GenericDecoder.migrated_valid` — decoders stay valid along the migration path.
-/

set_option autoImplicit false

namespace DeltaStream

abbrev MigrationFn := Value → Except DeltaError Value

/-- One-hop routes; a hash map is what its lookups are. -/
structure MigrationRegistry where
  routes : UInt64 × UInt64 → Option MigrationFn

namespace MigrationRegistry

def new : MigrationRegistry := ⟨fun _ => none⟩

def register (m : MigrationRegistry) (fromSchema toSchema : UInt64) (migration : MigrationFn) :
    MigrationRegistry :=
  ⟨fun route => if route = (fromSchema, toSchema) then some migration else m.routes route⟩

def contains (m : MigrationRegistry) (fromSchema toSchema : UInt64) : Bool :=
  (m.routes (fromSchema, toSchema)).isSome

def migrate (m : MigrationRegistry) (fromSchema toSchema : UInt64) (value : Value) :
    Except DeltaError Value :=
  if fromSchema = toSchema then .ok value
  else
    match m.routes (fromSchema, toSchema) with
    | none => .error (.schemaMigrationMissing fromSchema toSchema)
    | some migration => migration value

/-- What `register` changes: one route between different schemas. -/
theorem migrate_register (m : MigrationRegistry) (fromSchema toSchema : UInt64)
    (migration : MigrationFn) (source target : UInt64) (value : Value) :
    (m.register fromSchema toSchema migration).migrate source target value =
      if source ≠ target ∧ (source, target) = (fromSchema, toSchema) then migration value
      else m.migrate source target value := by
  unfold migrate register
  by_cases hsame : source = target
  · simp [hsame]
  · by_cases hroute : (source, target) = (fromSchema, toSchema)
    · simp [hsame, hroute]
    · simp [hsame, hroute]

/-- Only a missing route is reported as one. -/
theorem contains_of_migrate {m : MigrationRegistry} {source target : UInt64} {value out : Value}
    (h : m.migrate source target value = .ok out) :
    source = target ∨ m.contains source target = true := by
  unfold migrate at h
  split at h
  · rename_i hsame
    exact .inl hsame
  right
  unfold contains
  cases hroute : m.routes (source, target) with
  | none =>
    rw [hroute] at h
    cases h
  | some migration => rfl

end MigrationRegistry

namespace GenericDecoder

variable {T : Type}

/-- `parse` is `serde_json::from_slice::<serde_json::Value>`. -/
def applyPacketWithMigrations (X : Crates) (S : Serde T)
    (parse : Bytes → Except DeltaError Value) (d : GenericDecoder T) (packet : Packet)
    (migrations : MigrationRegistry) : Except DeltaError (ApplyResult T) × GenericDecoder T :=
  if packet.schemaHash = S.schemaHash then d.applyPacket X S packet
  else if packet.kind ≠ .snapshot then
    (.ok (.needSnapshot d.stream.sequence packet.baseSequence), d)
  else if d.stream.replay.contains packet.sequence then (.ok (.duplicate packet.sequence), d)
  else if TypedDecoder.older d.stream.sequence packet.sequence then
    (.ok (.duplicate packet.sequence), d)
  else
    match packet.logicalPayloadWithConfig X d.decodeConfig with
    | .error e => (.error e, d)
    | .ok payload =>
      if fnv1a64 payload ≠ packet.baseHash then (.error snapshotHashMismatch, d)
      else
        match parse payload with
        | .error e => (.error e, d)
        | .ok value =>
          match migrations.migrate packet.schemaHash S.schemaHash value with
          | .error e => (.error e, d)
          | .ok migrated =>
            match S.fromValue migrated with
            | .error e => (.error e, d)
            | .ok state =>
              (.ok (.applied packet.sequence state),
                { d with
                  stream := ⟨some packet.sequence, some state,
                    d.stream.replay.record packet.sequence⟩ })

variable (X : Crates) (S : Serde T) (parse : Bytes → Except DeltaError Value)

/-- A call on a packet of another schema: nothing happens, or a newer snapshot whose hash fits is
    taken over. -/
inductive Migrated (d : GenericDecoder T) (p : Packet) :
    Except DeltaError (ApplyResult T) × GenericDecoder T → Prop where
  | refused {result : Except DeltaError (ApplyResult T)}
      (h : ∀ n s, result ≠ .ok (.applied n s)) : Migrated d p (result, d)
  | taken (state : T) (hkind : p.kind = .snapshot)
      (hseen : ¬d.stream.replay.contains p.sequence = true)
      (hold : ¬TypedDecoder.older d.stream.sequence p.sequence = true) :
      Migrated d p (.ok (.applied p.sequence state),
        { d with
          stream := ⟨some p.sequence, some state, d.stream.replay.record p.sequence⟩ })

theorem migrated_cases (d : GenericDecoder T) (p : Packet) (migrations : MigrationRegistry) :
    d.applyPacketWithMigrations X S parse p migrations = d.applyPacket X S p ∨
      Migrated d p (d.applyPacketWithMigrations X S parse p migrations) := by
  unfold applyPacketWithMigrations
  split
  · exact .inl rfl
  right
  split
  · exact .refused (by intro n s h; cases h)
  rename_i hkind
  split
  · exact .refused (by intro n s h; cases h)
  rename_i hseen
  split
  · exact .refused (by intro n s h; cases h)
  rename_i hold
  cases p.logicalPayloadWithConfig X d.decodeConfig with
  | error e => exact .refused (by intro n s h; cases h)
  | ok payload =>
    simp only
    split
    · exact .refused (by intro n s h; cases h)
    cases parse payload with
    | error e => exact .refused (by intro n s h; cases h)
    | ok value =>
      simp only
      cases migrations.migrate p.schemaHash S.schemaHash value with
      | error e => exact .refused (by intro n s h; cases h)
      | ok migrated =>
        simp only
        cases S.fromValue migrated with
        | error e => exact .refused (by intro n s h; cases h)
        | ok state => exact .taken state (Decidable.not_not.mp hkind) hseen hold

theorem migrated_valid {d : GenericDecoder T} (h : d.stream.Valid) (p : Packet)
    (migrations : MigrationRegistry) :
    (d.applyPacketWithMigrations X S parse p migrations).2.stream.Valid := by
  rcases migrated_cases X S parse d p migrations with heq | hcases
  · rw [heq]
    exact TypedDecoder.apply_valid h p
  · generalize d.applyPacketWithMigrations X S parse p migrations = out at hcases
    cases hcases with
    | refused _ => exact h
    | taken state _ _ hold => exact h.commit state hold

end GenericDecoder

def Subscriber.applyWithMigrations {T : Type} (X : Crates) (S : Serde T)
    (parse : Bytes → Except DeltaError Value) (s : Subscriber T) (packet : Packet)
    (migrations : MigrationRegistry) : Except DeltaError (ApplyResult T) × Subscriber T :=
  let r := s.decoder.applyPacketWithMigrations X S parse packet migrations
  (r.1, { s with decoder := r.2 })

end DeltaStream
