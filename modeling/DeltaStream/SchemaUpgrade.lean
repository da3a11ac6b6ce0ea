import DeltaStream.Migration
import DeltaStream.TypedStream
import DeltaStream.Lib.Publishers

/-!
# A subscriber of two schemas

A subscriber of the new schema also takes packets of the old one through
`apply_with_migrations`.  Any number of publishers of either schema feed it, each numbering its
states from one; their packets arrive in any order, in any form, and the subscriber is not told
where they come from.

* `GenericDecoder.migrating_receive` — a decoder with migrations is a replica: a snapshot of
  another schema is the state it is taken over as, and a delta of another schema is nothing;
* `TypedRun.Publish.migrating_sound`, `TypedRun.Publish.sound` — what the publishers of the old and
  of the new schema send says nothing false about what they published;
* `schema_upgrade` — the subscriber holds what some publisher published under its number, taken
  over if it is of the old schema; the recovery snapshot of any of them is applied exactly where
  the subscriber is behind it.
-/

set_option autoImplicit false

namespace DeltaStream

open Replica Soup

variable {T U : Type}

/-! ## Reading packets of another schema -/

/-- The state a snapshot payload of another schema is taken over as. -/
def takeOver (S : Serde T) (parse : Bytes → Except DeltaError Value)
    (migrations : MigrationRegistry) (fromSchema : UInt64) (payload : Bytes) :
    Except DeltaError T :=
  match parse payload with
  | .error e => .error e
  | .ok value =>
    match migrations.migrate fromSchema S.schemaHash value with
    | .error e => .error e
    | .ok migrated => S.fromValue migrated

namespace GenericDecoder

variable (X : Crates) (S : Serde T) (parse : Bytes → Except DeltaError Value)
  (migrations : MigrationRegistry) (config : DecodeConfig)

/-- The update a packet carries to a decoder with migrations. -/
def readMigrating (p : Packet) : Update T :=
  if p.schemaHash = S.schemaHash then TypedDecoder.read X (serdeCodec S) config p
  else
    match p.kind with
    | .delta => .foreign
    | .snapshot =>
      match p.logicalPayloadWithConfig X config with
      | .error _ => .broken p.sequence.toNat
      | .ok payload =>
        if fnv1a64 payload ≠ p.baseHash then .broken p.sequence.toNat
        else
          match takeOver S parse migrations p.schemaHash payload with
          | .error _ => .broken p.sequence.toNat
          | .ok state => .full p.sequence.toNat state

variable {X S parse migrations config}

theorem readMigrating_snapshot_number {p : Packet} (hschema : ¬p.schemaHash = S.schemaHash)
    (hkind : p.kind = .snapshot) :
    (readMigrating X S parse migrations config p).number? = some p.sequence.toNat := by
  unfold readMigrating
  rw [if_neg hschema]
  simp only [hkind]
  split
  · rfl
  split
  · rfl
  split <;> rfl

theorem migrating_foreign_snapshot {d : GenericDecoder T} (h : d.stream.Valid) {p : Packet}
    (hschema : ¬p.schemaHash = S.schemaHash) (hkind : p.kind = .snapshot) :
    Replica.receive d.stream.view (readMigrating X S parse migrations d.decodeConfig p) =
      (TypedDecoder.verdict (d.applyPacketWithMigrations X S parse p migrations).1,
        (d.applyPacketWithMigrations X S parse p migrations).2.stream.view) := by
  have hnumber : (readMigrating X S parse migrations d.decodeConfig p).number? =
      some p.sequence.toNat := readMigrating_snapshot_number hschema hkind
  have hstale := h.stale_iff p.sequence
  unfold applyPacketWithMigrations
  rw [if_neg hschema, if_neg (not_not_intro hkind)]
  split
  · rename_i hseen
    rw [receive_stale hnumber (hstale.mp (.inl hseen))]
    rfl
  rename_i hseen
  split
  · rename_i hold
    rw [receive_stale hnumber (hstale.mp (.inr hold))]
    rfl
  rename_i hold
  have hfresh : ¬Stale d.stream.view p.sequence.toNat := fun hs =>
    (hstale.mpr hs).elim hseen hold
  rw [receive_fresh hnumber hfresh]
  unfold readMigrating takeOver
  rw [if_neg hschema]
  simp only [hkind]
  cases p.logicalPayloadWithConfig X d.decodeConfig with
  | error e => rfl
  | ok payload =>
    simp only
    split
    · rfl
    cases parse payload with
    | error e => rfl
    | ok value =>
      simp only
      cases migrations.migrate p.schemaHash S.schemaHash value with
      | error e => rfl
      | ok migrated =>
        simp only
        cases S.fromValue migrated with
        | error e => rfl
        | ok state => rfl

/-- **A decoder with migrations is a replica**, except that it answers a delta of another schema
    with a request. -/
theorem migrating_receive {d : GenericDecoder T} (h : d.stream.Valid) {p : Packet}
    (hown : p.schemaHash = S.schemaHash ∨ p.kind = .snapshot) :
    Replica.receive d.stream.view (readMigrating X S parse migrations d.decodeConfig p) =
      (TypedDecoder.verdict (d.applyPacketWithMigrations X S parse p migrations).1,
        (d.applyPacketWithMigrations X S parse p migrations).2.stream.view) := by
  by_cases hschema : p.schemaHash = S.schemaHash
  · unfold readMigrating applyPacketWithMigrations
    rw [if_pos hschema, if_pos hschema, TypedDecoder.apply_receive h p]
    rfl
  · exact migrating_foreign_snapshot h hschema (hown.resolve_left hschema)

/-- A delta of another schema is left alone. -/
theorem migrating_foreign_delta (d : GenericDecoder T) {p : Packet}
    (hschema : ¬p.schemaHash = S.schemaHash) (hkind : p.kind = .delta) :
    readMigrating X S parse migrations d.decodeConfig p = .foreign ∧
      d.applyPacketWithMigrations X S parse p migrations =
        (.ok (.needSnapshot d.stream.sequence p.baseSequence), d) := by
  unfold readMigrating applyPacketWithMigrations
  rw [if_neg hschema, if_neg hschema, hkind]
  exact ⟨rfl, if_pos (by decide)⟩

theorem migrating_view {d : GenericDecoder T} (h : d.stream.Valid) (p : Packet) :
    (d.applyPacketWithMigrations X S parse p migrations).2.stream.view =
      (Replica.receive d.stream.view (readMigrating X S parse migrations d.decodeConfig p)).2 := by
  by_cases hown : p.schemaHash = S.schemaHash ∨ p.kind = .snapshot
  · rw [migrating_receive h hown]
  · obtain ⟨hschema, hkind⟩ := not_or.mp hown
    have hdelta : p.kind = .delta := by
      cases hk : p.kind with
      | snapshot => exact absurd hk hkind
      | delta => rfl
    obtain ⟨hread, hcall⟩ :
        readMigrating X S parse migrations d.decodeConfig p = .foreign ∧
          d.applyPacketWithMigrations X S parse p migrations = _ :=
      migrating_foreign_delta d hschema hdelta
    rw [hread, hcall]
    rfl

end GenericDecoder

/-! ## What publishers of either schema say -/

/-- The hash deltas are made for. -/
def StateCodec.key (C : StateCodec T) (state : T) : Option UInt64 :=
  match C.encodeState state with
  | .error _ => none
  | .ok bytes => some (fnv1a64 bytes)

/-- A delta is applied to states of its base hash only. -/
theorem TypedDecoder.read_selective (X : Crates) (C : StateCodec T) (config : DecodeConfig)
    (p : Packet) : (read X C config p).Selective C.key := by
  have hkey : ∀ s t, patchState X C config p s = .next t → C.key s = some p.baseHash := by
    intro s t h
    unfold patchState at h
    unfold StateCodec.key
    cases hbytes : C.encodeState s with
    | error e =>
      rw [hbytes] at h
      cases h
    | ok bytes =>
      rw [hbytes] at h
      simp only at h
      split at h
      · cases h
      · rename_i hbase
        exact congrArg some (Decidable.not_not.mp hbase)
  unfold read
  split
  · trivial
  split
  · split
    · trivial
    split <;> trivial
  · intro s s' t t' h h'
    rw [hkey s t h, hkey s' t' h']

/-- If the delta can be applied to anything, it makes the new state of the old one. -/
theorem DeltaOf.patch_used {X : Crates} {C : StateCodec T} {config : DecodeConfig}
    {sequence : UInt64} {previous s : T} {p : Packet} (hd : X.DecompressInverts)
    (hexact : C.Exact previous s) (h : DeltaOf X C sequence previous s p) {s' t : T}
    (ht : TypedDecoder.patchState X C config p s' = .next t) :
    TypedDecoder.patchState X C config p previous = .next s := by
  obtain ⟨old, payload, hold, hpayload, hcopy⟩ := h
  have hhash : p.baseHash = fnv1a64 old := hcopy.header.baseHash
  unfold TypedDecoder.patchState at ht ⊢
  rw [hold, hhash]
  simp only
  rw [if_neg (by simp)]
  -- the payload is readable, whatever the state it was tried on
  split at ht
  · cases ht
  split at ht
  · cases ht
  split at ht
  · cases ht
  rename_i out hlp
  have hout : out = payload := hcopy.payload_ok hd (Packet.delta_isCompressed _ _ _ _ _) hlp
  simp only [hout, hexact payload hpayload]

/-- What a publisher of the subscriber's own schema published. -/
def TypedRun.Logged (run : TypedRun T) (n : Nat) (state : T) : Prop := nth run.log n = some state

namespace TypedRun

variable {X : Crates} {config : DecodeConfig} {C : StateCodec T}

theorem Publish.tracks {run run' : TypedRun T} {ps : List Packet} (h : run.Tracks)
    (hp : Publish X C run ps run') :
    run'.Tracks ∧ ∃ more, run'.log = run.log ++ more := by
  cases hp with
  | encoded room he =>
    exact ⟨h.step (by omega) (TypedEncoder.encode_ok he), _, rfl⟩
  | forced room he =>
    exact ⟨h.step (by omega) (TypedEncoder.forceSnapshot_ok he).1, _, rfl⟩
  | recovery hlast he => exact ⟨h, [], (List.append_nil _).symm⟩

theorem Publish.schemaHash {run run' : TypedRun T} {ps : List Packet} (hp : Publish X C run ps run')
    {p : Packet} (hmem : p ∈ ps) : p.schemaHash = C.schemaHash := by
  cases hp with
  | encoded room he =>
    rw [List.mem_singleton.mp hmem]
    exact (TypedEncoder.encode_ok he).emits.schemaHash
  | forced room he =>
    rw [List.mem_singleton.mp hmem]
    exact (TypedEncoder.forceSnapshot_ok he).1.emits.schemaHash
  | recovery hlast he =>
    rw [List.mem_singleton.mp hmem]
    exact (TypedEncoder.recoverySnapshot_ok he).schemaHash_eq

theorem snapshot_sound (hC : C.Lawful) (hd : X.DecompressInverts) {sequence : UInt64} {s : T}
    {p : Packet} {P : Nat → T → Prop} (h : SnapshotOf X C sequence s p)
    (hP : P sequence.toNat s) : Sound P (TypedDecoder.read X C config p) := by
  have hread : TypedDecoder.read X C config p = _ ∨ TypedDecoder.read X C config p = _ :=
    h.read hC hd
  rcases hread with hread | hread
  · rw [hread]
    exact hP
  · rw [hread]
    trivial

/-- What is emitted for a state is sound once the state is in the log. -/
theorem Tracks.emits_sound {run : TypedRun T} {s : T} {p : Packet} {encoder' : TypedEncoder T}
    (hC : C.Lawful) (hd : X.DecompressInverts) (hexact : ∀ previous s, C.Exact previous s)
    (h : run.Tracks) (room : run.log.length < U64_MAX)
    (hp : TypedEncoder.Emits X C run.encoder s p) :
    Sound (Logged ⟨encoder', run.log ++ [s]⟩) (TypedDecoder.read X C config p) := by
  have hnum := h.next room
  have hnew : nth (run.log ++ [s]) (run.log.length + 1) = some s := nth_length_append run.log s
  cases hp with
  | snapshot hsnap => exact snapshot_sound hC hd hsnap (hnum ▸ hnew)
  | @delta previous hprev hdelta _ =>
    have hlast : run.log.getLast? = some previous := by rw [← h.lastState, hprev]
    have hold := h.nth_last hlast
    rw [h.sequence] at hold
    rw [hdelta.read, hnum, h.base room]
    rintro ⟨s', t, ht⟩
    exact ⟨previous, s, nth_append hold, hdelta.patch_used hd (hexact previous s) ht, hnew⟩

/-- **One step of a publisher of the own schema.** -/
theorem Publish.sound (hC : C.Lawful) (hd : X.DecompressInverts)
    (hexact : ∀ previous s, C.Exact previous s) {run run' : TypedRun T} {ps : List Packet}
    (h : run.Tracks) (hp : Publish X C run ps run') {p : Packet} (hmem : p ∈ ps) :
    Sound run'.Logged (TypedDecoder.read X C config p) := by
  cases hp with
  | encoded room he =>
    rw [List.mem_singleton.mp hmem]
    exact h.emits_sound hC hd hexact (by omega) (TypedEncoder.encode_ok he).emits
  | forced room he =>
    rw [List.mem_singleton.mp hmem]
    exact h.emits_sound hC hd hexact (by omega) (TypedEncoder.forceSnapshot_ok he).1.emits
  | recovery hlast he =>
    rw [List.mem_singleton.mp hmem]
    exact snapshot_sound hC hd (TypedEncoder.recoverySnapshot_ok he) (h.nth_last hlast)

end TypedRun

/-! ## The channel -/

/-- A publisher of the old or of the new schema. -/
inductive Version (U T : Type) where
  | old (run : TypedRun U)
  | new (run : TypedRun T)

/-- How a packet comes to the subscriber: through `apply` or `receive`, or through
    `apply_with_migrations`. -/
inductive Arrival where
  | plain (m : Message)
  | migrating (p : Packet)
  deriving DecidableEq

section Upgrade

variable (X : Crates) (S₀ : Serde U) (S : Serde T) (parse : Bytes → Except DeltaError Value)
  (migrations : MigrationRegistry) (config : DecodeConfig)

namespace Arrival

def forms (ps : List Packet) : List Arrival :=
  (Message.forms X ps).map .plain ++ ps.map .migrating

def read : Arrival → Update T
  | .plain m => m.read X (serdeCodec S) config
  | .migrating p => GenericDecoder.readMigrating X S parse migrations config p

end Arrival

def Subscriber.handleArrival (s : Subscriber T) :
    Arrival → Except DeltaError (ApplyResult T) × Subscriber T
  | .plain m => s.handle X S m
  | .migrating p => s.applyWithMigrations X S parse p migrations

namespace Version

def sequence : Version U T → UInt64
  | .old run => run.encoder.sequence
  | .new run => run.encoder.sequence

def Tracks : Version U T → Prop
  | .old run => run.Tracks
  | .new run => run.Tracks

/-- A state of the old schema counts as the state its snapshot is taken over as. -/
def Upgrades (u : U) (state : T) : Prop :=
  ∃ payload, S₀.toVec u = .ok payload ∧
    takeOver S parse migrations S₀.schemaHash payload = .ok state

def Published : Version U T → Nat → T → Prop
  | .old run, n, state => ∃ u, nth run.log n = some u ∧ Upgrades S₀ S parse migrations u state
  | .new run, n, state => run.Logged n state

inductive Publish : Version U T → List Packet → Version U T → Prop where
  | old {run run' : TypedRun U} {ps : List Packet}
      (h : TypedRun.Publish X (serdeCodec S₀) run ps run') : Publish (.old run) ps (.old run')
  | new {run run' : TypedRun T} {ps : List Packet}
      (h : TypedRun.Publish X (serdeCodec S) run ps run') : Publish (.new run) ps (.new run')

/-- The recovery snapshot a publisher makes of its last state, and the state the subscriber reads
    it as: the payload is within the subscriber's limit and, if it is of the old schema, can be
    parsed, migrated and read. -/
inductive Recovers : Version U T → Except DeltaError Packet → T → Prop where
  | old {run : TypedRun U} {last : U} {payload : Bytes} {state : T}
      (hlast : run.log.getLast? = some last) (hpayload : S₀.toVec last = .ok payload)
      (hfits : payload.length ≤ config.maxDecompressedBytes)
      (hstate : takeOver S parse migrations S₀.schemaHash payload = .ok state) :
      Recovers (.old run) (run.encoder.recoverySnapshot X (serdeCodec S₀) last) state
  | new {run : TypedRun T} {last : T} {payload : Bytes} (hlast : run.log.getLast? = some last)
      (hpayload : S.toVec last = .ok payload)
      (hfits : payload.length ≤ config.maxDecompressedBytes) :
      Recovers (.new run) (run.encoder.recoverySnapshot X (serdeCodec S) last) last

end Version

/-- One publisher and the subscriber. -/
def upgradeChannel : System (Version U T) Arrival (Subscriber T) where
  initial v s := (∃ policy, v = .old ⟨.withPolicy policy, []⟩ ∨ v = .new ⟨.withPolicy policy, []⟩) ∧
    s = .withDecodeConfig config
  publish v ms v' := ∃ ps, Version.Publish X S₀ S v ps v' ∧ ms = Arrival.forms X ps
  receive s m := (s.handleArrival X S parse migrations m).2
  internal s s' := s' = s.reset

end Upgrade

/-! ## The subscriber under both schemas -/

section Upgrade

variable {X : Crates} {S₀ : Serde U} {S : Serde T} {parse : Bytes → Except DeltaError Value}
  {migrations : MigrationRegistry} {config : DecodeConfig}

/-- A snapshot of the old schema that can be read is a state it upgrades to. -/
theorem SnapshotOf.migrating_sound (hd : X.DecompressInverts)
    (hother : S₀.schemaHash ≠ S.schemaHash) {sequence : UInt64} {u : U} {p : Packet}
    (h : SnapshotOf X (serdeCodec S₀) sequence u p) {P : Nat → T → Prop}
    (hP : ∀ state, Version.Upgrades S₀ S parse migrations u state → P sequence.toNat state) :
    Sound P (GenericDecoder.readMigrating X S parse migrations config p) := by
  have hschema : p.schemaHash = S₀.schemaHash := h.schemaHash_eq
  have hseq := h.sequence_eq
  have hkind := h.kind_eq
  obtain ⟨bytes, hbytes, hcopy⟩ := h
  unfold GenericDecoder.readMigrating
  rw [if_neg (hschema ▸ hother)]
  simp only [hkind, hseq, hschema]
  split
  · trivial
  rename_i payload hlp
  have hpayload : payload = bytes :=
    hcopy.payload_ok hd (Packet.snapshot_isCompressed _ _ _ _) hlp
  split
  · trivial
  split
  · trivial
  · rename_i state hstate
    exact hP state ⟨bytes, hbytes, hpayload ▸ hstate⟩

theorem DeltaOf.readMigrating (hother : S₀.schemaHash ≠ S.schemaHash) {sequence : UInt64}
    {previous u : U} {p : Packet} (h : DeltaOf X (serdeCodec S₀) sequence previous u p) :
    GenericDecoder.readMigrating X S parse migrations config p = .foreign := by
  have hschema : p.schemaHash = S₀.schemaHash := h.schemaHash_eq
  unfold GenericDecoder.readMigrating
  rw [if_neg (hschema ▸ hother)]
  simp only [h.kind_eq]

/-- **One step of a publisher of the old schema.** -/
theorem TypedRun.Publish.migrating_sound (hd : X.DecompressInverts)
    (hother : S₀.schemaHash ≠ S.schemaHash) {run run' : TypedRun U} {ps : List Packet}
    (h : run.Tracks) (hp : Publish X (serdeCodec S₀) run ps run') {p : Packet} (hmem : p ∈ ps) :
    Sound (Version.Published S₀ S parse migrations (.old run'))
      (GenericDecoder.readMigrating X S parse migrations config p) := by
  have hemits : ∀ {u : U} {encoder' : TypedEncoder U} {q : Packet},
      run.log.length + 1 < U64_MAX → TypedEncoder.Emits X (serdeCodec S₀) run.encoder u q →
      Sound (Version.Published S₀ S parse migrations (.old ⟨encoder', run.log ++ [u]⟩))
        (GenericDecoder.readMigrating X S parse migrations config q) := by
    intro u encoder' q room hq
    cases hq with
    | snapshot hsnap =>
      refine hsnap.migrating_sound hd hother fun state hstate => ?_
      rw [h.next (by omega)]
      exact ⟨u, nth_length_append run.log u, hstate⟩
    | delta _ hdelta _ =>
      rw [hdelta.readMigrating hother]
      trivial
  cases hp with
  | encoded room he =>
    rw [List.mem_singleton.mp hmem]
    exact hemits room (TypedEncoder.encode_ok he).emits
  | forced room he =>
    rw [List.mem_singleton.mp hmem]
    exact hemits room (TypedEncoder.forceSnapshot_ok he).1.emits
  | @recovery last _ hlast he =>
    rw [List.mem_singleton.mp hmem]
    refine (TypedEncoder.recoverySnapshot_ok he).migrating_sound hd hother fun state hstate => ?_
    exact ⟨last, h.nth_last hlast, hstate⟩

namespace Version

/-- **One step of a publisher** of either schema. -/
theorem Publish.sound (hS : S.Lawful) (hsame : ∀ a b, S.SameWhereEqual a b)
    (hd : X.DecompressInverts) (hother : S₀.schemaHash ≠ S.schemaHash) {v v' : Version U T}
    {ps : List Packet} (h : v.Tracks) (hp : Publish X S₀ S v ps v') :
    v'.Tracks ∧
      (∀ n state, v.Published S₀ S parse migrations n state →
        v'.Published S₀ S parse migrations n state) ∧
      ∀ p ∈ ps, Sound (v'.Published S₀ S parse migrations)
        (GenericDecoder.readMigrating X S parse migrations config p) := by
  cases hp with
  | @old run run' ps hrun =>
    have htracks : run.Tracks := h
    obtain ⟨htracks', more, hlog⟩ := hrun.tracks htracks
    refine ⟨htracks', ?_, fun p hp => hrun.migrating_sound hd hother htracks hp⟩
    rintro n state ⟨u, hu, hstate⟩
    exact ⟨u, hlog ▸ nth_append hu, hstate⟩
  | @new run run' ps hrun =>
    have htracks : run.Tracks := h
    obtain ⟨htracks', more, hlog⟩ := hrun.tracks htracks
    refine ⟨htracks', ?_, fun p hp => ?_⟩
    · intro n state hn
      show nth run'.log n = some state
      exact hlog ▸ nth_append hn
    have hsound : Sound run'.Logged (TypedDecoder.read X (serdeCodec S) config p) :=
      hrun.sound (serdeCodec_lawful hS) hd (fun a b => serdeCodec_exact hS (hsame a b)) htracks hp
    have hschema : p.schemaHash = S.schemaHash := hrun.schemaHash hp
    unfold GenericDecoder.readMigrating
    rw [if_pos hschema]
    exact hsound

end Version

namespace Arrival

theorem read_selective (m : Arrival) :
    (m.read X S parse migrations config).Selective (serdeCodec S).key := by
  cases m with
  | plain m =>
    cases m with
    | packet p => exact TypedDecoder.read_selective X _ config p
    | wire bytes =>
      unfold read Message.read
      simp only
      split
      · trivial
      · exact TypedDecoder.read_selective X _ config _
  | migrating p =>
    unfold read GenericDecoder.readMigrating
    simp only
    split
    · exact TypedDecoder.read_selective X _ config p
    split
    · trivial
    split
    · trivial
    split
    · trivial
    split <;> trivial

/-- A packet says no more in another form. -/
theorem forms_sound {P : Nat → T → Prop} {ps : List Packet}
    (h : ∀ p ∈ ps, Sound P (GenericDecoder.readMigrating X S parse migrations config p)) :
    ∀ m ∈ forms X ps, Sound P (m.read X S parse migrations config) := by
  have hplain : ∀ p ∈ ps, Sound P (TypedDecoder.read X (serdeCodec S) config p) := by
    intro p hp
    have hsound := h p hp
    unfold GenericDecoder.readMigrating at hsound
    by_cases hschema : p.schemaHash = S.schemaHash
    · rw [if_pos hschema] at hsound
      exact hsound
    · have hforeign : ¬p.schemaHash = (serdeCodec S).schemaHash := hschema
      unfold TypedDecoder.read
      rw [if_pos hforeign]
      trivial
  intro m hm
  rcases List.mem_append.mp hm with hm | hm
  · obtain ⟨q, hq, rfl⟩ := List.mem_map.mp hm
    obtain ⟨p, hp, hread | hread⟩ :
        ∃ p ∈ ps, q.read X (serdeCodec S) config = TypedDecoder.read X (serdeCodec S) config p ∨
          q.read X (serdeCodec S) config = .foreign := Message.read_forms hq
    · show Sound P (q.read X (serdeCodec S) config)
      rw [hread]
      exact hplain p hp
    · show Sound P (q.read X (serdeCodec S) config)
      rw [hread]
      trivial
  · obtain ⟨p, hp, rfl⟩ := List.mem_map.mp hm
    exact h p hp

end Arrival

namespace Subscriber

theorem applyWithMigrations_valid {s : Subscriber T} (h : s.Valid config) (p : Packet) :
    (s.applyWithMigrations X S parse p migrations).2.Valid config where
  stream := GenericDecoder.migrated_valid X S parse h.stream p migrations
  outer := h.outer
  inner := by
    show (s.decoder.applyPacketWithMigrations X S parse p migrations).2.decodeConfig = config
    rcases GenericDecoder.migrated_cases X S parse s.decoder p migrations with heq | hcases
    · rw [heq]
      exact h.inner
    · generalize s.decoder.applyPacketWithMigrations X S parse p migrations = out at hcases
      cases hcases with
      | refused _ => exact h.inner
      | taken _ _ _ _ => exact h.inner

theorem handleArrival_valid {s : Subscriber T} (h : s.Valid config) (m : Arrival) :
    (s.handleArrival X S parse migrations m).2.Valid config := by
  cases m with
  | plain m => exact handle_valid h m
  | migrating p => exact applyWithMigrations_valid h p

theorem handleArrival_view {s : Subscriber T} (h : s.Valid config) (m : Arrival) :
    (s.handleArrival X S parse migrations m).2.decoder.stream.view =
      (Replica.receive s.decoder.stream.view (m.read X S parse migrations config)).2 := by
  cases m with
  | plain m => exact (congrArg Prod.snd (handle_receive h m)).symm
  | migrating p =>
    unfold Arrival.read
    rw [← h.inner]
    exact GenericDecoder.migrating_view h.stream p

end Subscriber

theorem upgradeChannel_keyed (hS : S.Lawful) (hsame : ∀ a b, S.SameWhereEqual a b)
    (hd : X.DecompressInverts) (hother : S₀.schemaHash ≠ S.schemaHash) :
    Keyed (upgradeChannel X S₀ S parse migrations config) Version.Tracks
      (Subscriber.Valid config) (Version.Published S₀ S parse migrations)
      (Arrival.read X S parse migrations config) (fun s => s.decoder.stream.view)
      (serdeCodec S).key where
  initial := by
    rintro v s ⟨⟨policy, rfl | rfl⟩, rfl⟩
    · exact ⟨⟨rfl, rfl⟩, ⟨TypedDecoder.default_valid, rfl, rfl⟩, rfl⟩
    · exact ⟨⟨rfl, rfl⟩, ⟨TypedDecoder.default_valid, rfl, rfl⟩, rfl⟩
  publish := by
    rintro v ms v' h ⟨ps, hp, rfl⟩
    obtain ⟨htracks, hmono, hsound⟩ := hp.sound hS hsame hd hother h
    exact ⟨htracks, hmono, Arrival.forms_sound hsound⟩
  selective := Arrival.read_selective
  receive h := ⟨Subscriber.handleArrival_valid h _, Subscriber.handleArrival_view h _⟩
  internal := by
    rintro s s' h rfl
    exact ⟨⟨TypedDecoder.default_valid, h.outer, h.outer⟩, .inr rfl⟩

/-! ## Recovery -/

theorem TypedDecoder.Valid.behind_iff {d : TypedDecoder T} (h : d.Valid) {n : UInt64} :
    Behind d.view n.toNat ↔ ∀ k, d.sequence = some k → k < n := by
  rcases h.cases with ⟨hseq, -, hview⟩ | ⟨k, s, hseq, -, hview⟩
  · rw [hseq, hview]
    exact ⟨fun _ k hk => (by cases hk), fun _ m t hm => (by cases hm)⟩
  · rw [hseq, hview]
    constructor
    · intro hbehind k' hk'
      cases hk'
      exact UInt64.lt_iff_toNat_lt.mpr (hbehind _ _ rfl)
    · intro hlt m t hm
      cases hm
      exact UInt64.lt_iff_toNat_lt.mp (hlt k rfl)

/-- A packet that is a whole state is applied exactly where the subscriber is behind it. -/
theorem Subscriber.applied_iff_behind {s : Subscriber T} (h : s.Valid config) {p : Packet}
    {n : UInt64} {state : T}
    (hread : GenericDecoder.readMigrating X S parse migrations config p = .full n.toNat state) :
    (s.applyWithMigrations X S parse p migrations).1 = .ok (.applied n state) ↔
      ∀ k, s.sequence = some k → k < n := by
  have hown : p.schemaHash = S.schemaHash ∨ p.kind = .snapshot := by
    by_contra hno
    obtain ⟨hschema, hkind⟩ := not_or.mp hno
    unfold GenericDecoder.readMigrating at hread
    rw [if_neg hschema] at hread
    cases hk : p.kind with
    | snapshot => exact hkind hk
    | delta =>
      rw [hk] at hread
      cases hread
  have hreceive : Replica.receive s.decoder.stream.view
      (GenericDecoder.readMigrating X S parse migrations s.decoder.decodeConfig p) = _ :=
    GenericDecoder.migrating_receive h.stream hown
  rw [h.inner, hread] at hreceive
  have hverdict : TypedDecoder.verdict (s.applyWithMigrations X S parse p migrations).1 = _ :=
    (congrArg Prod.fst hreceive).symm
  have hbehind : Behind s.decoder.stream.view n.toNat ↔ ∀ k, s.sequence = some k → k < n :=
    h.stream.behind_iff
  rw [← hbehind, ← receive_full_applied_iff, ← hverdict]
  constructor
  · intro happlied
    rw [happlied]
    rfl
  · intro hv
    obtain ⟨m, hres, hm⟩ := TypedDecoder.verdict_applied hv
    rw [UInt64.toNat_inj.mp hm] at hres
    exact hres

/-- A recovery snapshot can be taken, and is the whole state it is read as. -/
theorem Version.Recovers.read (hS : S.Lawful) (hc : X.CompressTotal) (hd : X.ZstdExact)
    (hother : S₀.schemaHash ≠ S.schemaHash) {v : Version U T} {result : Except DeltaError Packet}
    {state : T} (h : v.Recovers X S₀ S parse migrations config result state) :
    ∃ p, result = .ok p ∧ GenericDecoder.readMigrating X S parse migrations config p =
      .full v.sequence.toNat state := by
  cases h with
  | @old run last payload _ hlast hpayload hfits hstate =>
    obtain ⟨p, hp⟩ := TypedEncoder.recoverySnapshot_of_encodes (C := serdeCodec S₀) hc run.encoder
      hpayload
    refine ⟨p, hp, ?_⟩
    have hof := TypedEncoder.recoverySnapshot_ok hp
    have hschema : p.schemaHash = S₀.schemaHash := hof.schemaHash_eq
    have hseq := hof.sequence_eq
    have hkind := hof.kind_eq
    obtain ⟨bytes, hbytes, hcopy⟩ := hof
    have hsame : S₀.toVec last = .ok bytes := hbytes
    rw [hpayload] at hsame
    cases hsame
    have hhash : p.baseHash = fnv1a64 payload := hcopy.header.baseHash
    have hlp : p.logicalPayloadWithConfig X config = .ok payload :=
      hcopy.payload_fits hd (Packet.snapshot_isCompressed _ _ _ _) hfits
    unfold GenericDecoder.readMigrating
    rw [if_neg (hschema ▸ hother), hlp]
    simp only [hkind, hseq, hschema, hhash, hstate]
    exact if_neg (by simp)
  | @new run _ payload hlast hpayload hfits =>
    obtain ⟨p, hp⟩ := TypedEncoder.recoverySnapshot_of_encodes (C := serdeCodec S) hc run.encoder
      hpayload
    refine ⟨p, hp, ?_⟩
    have hof := TypedEncoder.recoverySnapshot_ok hp
    have hschema : p.schemaHash = S.schemaHash := hof.schemaHash_eq
    unfold GenericDecoder.readMigrating
    rw [if_pos hschema]
    have hstate : (serdeCodec S).encodeState state = .ok payload := hpayload
    exact hof.read_fits (serdeCodec_lawful hS) hd (StateCodec.encodes_within hstate hfits)

/-- **Upgrading the schema is safe.**  Whatever publishers of the old and of the new schema come,
    whatever of their packets arrives in whatever order and form, and wherever the subscriber is
    reset: where states published under one number differ in their hash, the subscriber holds what
    some publisher published under its number, upgraded if it is of the old schema.  The recovery
    snapshot of any of them can be taken and is applied if and only if the subscriber is behind
    it; after `reset` it is. -/
theorem schema_upgrade (hS : S.Lawful) (hsame : ∀ a b, S.SameWhereEqual a b)
    (hc : X.CompressTotal) (hd : X.ZstdExact) (hother : S₀.schemaHash ≠ S.schemaHash)
    {c : Config (List (Version U T)) Arrival (Subscriber T)}
    (h : Reachable (fleet (upgradeChannel X S₀ S parse migrations config)) c)
    (hsep : Separates (serdeCodec S).key
      (Fleet.Published (Version.Published S₀ S parse migrations) c.pub)) :
    (∀ k, c.rcv.sequence = some k → ∃ v ∈ c.pub, ∃ state,
      v.Published S₀ S parse migrations k.toNat state ∧ c.rcv.state = some state) ∧
    ∀ v ∈ c.pub, ∀ result state, v.Recovers X S₀ S parse migrations config result state →
      ∃ p, result = .ok p ∧
        ((c.rcv.applyWithMigrations X S parse p migrations).1 = .ok (.applied v.sequence state) ↔
          ∀ k, c.rcv.sequence = some k → k < v.sequence) ∧
        (c.rcv.reset.applyWithMigrations X S parse p migrations).1 =
          .ok (.applied v.sequence state) := by
  have hkeyed : Keyed (fleet (upgradeChannel X S₀ S parse migrations config)) _ _ _ _ _ _ :=
    (upgradeChannel_keyed hS hsame hd.inverts hother).fleet
  have hvalid := (hkeyed.invariant.reachable h).rcv.1
  refine ⟨?_, ?_⟩
  · intro k hk
    obtain ⟨state, hstate, hview⟩ := hvalid.stream.view_of_sequence hk
    obtain ⟨v, hv, hpublished⟩ := hkeyed.oneOf h hsep _ _ hview
    exact ⟨v, hv, state, hpublished, hstate⟩
  · intro v _ result state hrecovers
    obtain ⟨p, hp, hread⟩ := hrecovers.read hS hc hd hother
    refine ⟨p, hp, Subscriber.applied_iff_behind hvalid hread, ?_⟩
    have hreset : c.rcv.reset.Valid config :=
      ⟨TypedDecoder.default_valid, hvalid.outer, hvalid.outer⟩
    rw [Subscriber.applied_iff_behind hreset hread]
    intro k hk
    cases hk

end Upgrade

/-! ## A lamp that becomes a switch -/

namespace Lamp

def text (lit : Bool) : Bytes :=
  utf8 (if lit then "\x7b\"lit\":true\x7d" else "\x7b\"lit\":false\x7d")

/-- The old schema: one `bool` field of another name.  Other keys are ignored; it is only sent as
    snapshots. -/
def serde : Serde Bool where
  schemaName := "lamp/v1"
  toValue lit := .ok (.object [("lit", .bool lit)])
  fromValue
    | .object fields =>
      match SortedMap.get? fields "lit" with
      | some (.bool lit) => .ok lit
      | _ => .error Switch.unreadable
    | _ => .error Switch.unreadable
  toVec lit := .ok (text lit)
  fromSlice bytes :=
    if bytes = text true then .ok true
    else if bytes = text false then .ok false
    else .error Switch.unreadable
  deltaToVec _ := .error Switch.unreadable
  deltaFromSlice _ := .error Switch.unreadable

def readValue (bytes : Bytes) : Except DeltaError Value :=
  if bytes = text true then .ok (.object [("lit", .bool true)])
  else if bytes = text false then .ok (.object [("lit", .bool false)])
  else .error Switch.unreadable

/-- The field gets its new name, and a place is added. -/
def renameField : MigrationFn
  | .object [("lit", value)] => .ok (.object [("on", value), ("place", .string Switch.place)])
  | _ => .error Switch.unreadable

def migrations : MigrationRegistry :=
  .register .new serde.schemaHash Switch.serde.schemaHash renameField

/-- The recovery snapshot of a lamp that is lit, and of a switch that is off. -/
def litPacket : Packet := .snapshot 1 (fnv1a64 (text true)) serde.schemaHash (text true)

def offPacket : Packet :=
  .snapshot 1 (fnv1a64 (Switch.text ⟨false⟩)) Switch.serde.schemaHash (Switch.text ⟨false⟩)

end Lamp

/-- The two states of a switch differ in their hash. -/
theorem Switch.separates (P : Nat → Switch → Prop) :
    Separates (serdeCodec Switch.serde).key P := by
  have hkey : (serdeCodec Switch.serde).key ⟨true⟩ ≠ (serdeCodec Switch.serde).key ⟨false⟩ := by
    decide +kernel
  intro n s t _ _ hst
  obtain ⟨s⟩ := s
  obtain ⟨t⟩ := t
  cases s <;> cases t
  · rfl
  · exact absurd hst.symm hkey
  · exact absurd hst hkey
  · rfl

open Lamp in
/-- The subscriber takes the lamp over, and after a reset the recovery snapshot of either. -/
theorem schema_upgrade_lamp :
    ∃ c, Reachable (fleet (upgradeChannel Crates.stored Lamp.serde Switch.serde readValue
        migrations .default)) c ∧ c.rcv.sequence = some 1 ∧
      (∃ v ∈ c.pub, ∃ state, v.Published Lamp.serde Switch.serde readValue migrations 1 state ∧
        c.rcv.state = some state) ∧
      (c.rcv.reset.applyWithMigrations Crates.stored Switch.serde readValue offPacket
        migrations).1 = .ok (.applied 1 ⟨false⟩) ∧
      (c.rcv.reset.applyWithMigrations Crates.stored Switch.serde readValue litPacket
        migrations).1 = .ok (.applied 1 ⟨true⟩) := by
  have hlit : TypedEncoder.encode Crates.stored (serdeCodec Lamp.serde) (.withPolicy .default)
      true = (.ok litPacket, _) := rfl
  have hoff : TypedEncoder.encode Crates.stored (serdeCodec Switch.serde) (.withPolicy .default)
      ⟨false⟩ = (.ok offPacket, _) := rfl
  have hseq : ((Subscriber.withDecodeConfig .default).handleArrival Crates.stored Switch.serde
      readValue migrations (.migrating litPacket)).2.sequence = some 1 := by decide +kernel
  have hother : Lamp.serde.schemaHash ≠ Switch.serde.schemaHash := by decide +kernel
  have h0 : Reachable (fleet (upgradeChannel Crates.stored Lamp.serde Switch.serde readValue
      migrations .default)) ⟨[.old ⟨.withPolicy .default, []⟩], [], .withDecodeConfig .default⟩ :=
    .initial ⟨_, rfl, ⟨_, .inl rfl⟩, rfl⟩
  have h1 := h0.step (.publish (.head ⟨_, .old (.encoded (by decide) hlit), rfl⟩))
  have h2 := h1.step (.deliver (m := .migrating litPacket) (by
    simp [Arrival.forms]))
  have hinitial : (upgradeChannel Crates.stored Lamp.serde Switch.serde readValue migrations
      .default).initial (.new ⟨.withPolicy .default, []⟩) (.withDecodeConfig .default) :=
    ⟨⟨_, .inr rfl⟩, rfl⟩
  have h3 := h2.step (.publish (.join hinitial))
  have h4 := h3.step (.publish (.head ⟨_, .new (.encoded (by decide) hoff), rfl⟩))
  have hall := schema_upgrade Switch.serde_lawful Switch.serde_same Crates.stored_total
    Crates.stored_exact hother h4 (Switch.separates _)
  have hoffText : Switch.serde.toVec ⟨false⟩ = .ok (Switch.text ⟨false⟩) := rfl
  have hlitText : Lamp.serde.toVec true = .ok (text true) := rfl
  obtain ⟨off, hoffTaken, -, hoffApplied⟩ := hall.2 _ List.mem_cons_self _ _
    (.new rfl hoffText (by decide))
  obtain ⟨lit, hlitTaken, -, hlitApplied⟩ := hall.2 _ (List.mem_cons_of_mem _ List.mem_cons_self)
    _ _ (.old rfl hlitText (by decide) rfl)
  cases hoffTaken
  cases hlitTaken
  exact ⟨_, h4, hseq, hall.1 1 hseq, hoffApplied, hlitApplied⟩

end DeltaStream
