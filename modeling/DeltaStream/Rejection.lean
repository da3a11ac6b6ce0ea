import DeltaStream.ByteReplica
import DeltaStream.Migration

/-!
# Rejected packets leave the receiver untouched

For every packet whatsoever, each apply function of the three decoders either returns something
other than `Applied` and changes nothing, or applies a packet that is newer than what is held and,
for a delta, made for exactly the sequence and the state held.

* `SafeCall` — what a call must satisfy;
* `TypedDecoder.apply_safe`, `GenericDecoder.migrations_safe`, `ByteStateDecoder.apply_safe` — it
  holds for a call on any valid decoder;
* `decoders_safe` — and for a call on any decoder in use.
-/

set_option autoImplicit false

namespace DeltaStream

/-- What a call may do to a receiver with the given sequence and state: nothing, unless it
    applied the packet; then to a newer sequence, and for a delta from its base. -/
structure SafeCall {D R St : Type} (sequence : D → Option UInt64) (state : D → Option St)
    (hasHash : St → UInt64 → Prop) (applied : R → Option (UInt64 × St)) (d : D) (p : Packet)
    (call : Except DeltaError R × D) : Prop where
  rejected : (∀ r, call.1 = .ok r → applied r = none) → call.2 = d
  newer : ∀ r n s, call.1 = .ok r → applied r = some (n, s) →
    n = p.sequence ∧ sequence call.2 = some n ∧ state call.2 = some s ∧
      ∀ k, sequence d = some k → k < n
  based : ∀ r n s, call.1 = .ok r → applied r = some (n, s) → p.kind = .delta →
    sequence d = some p.baseSequence ∧ ∃ base, state d = some base ∧ hasHash base p.baseHash

theorem SafeCall.unchanged {D R St : Type} {sequence : D → Option UInt64}
    {state : D → Option St} {hasHash : St → UInt64 → Prop} {applied : R → Option (UInt64 × St)}
    {d : D} {p : Packet} {result : Except DeltaError R}
    (h : ∀ r, result = .ok r → applied r = none) :
    SafeCall sequence state hasHash applied d p (result, d) where
  rejected _ := rfl
  newer := by
    intro r n s hr happlied
    rw [h r hr] at happlied
    cases happlied
  based := by
    intro r n s hr happlied
    rw [h r hr] at happlied
    cases happlied

/-- `Applied { sequence, state }`. -/
def ApplyResult.applied? {S : Type} : ApplyResult S → Option (UInt64 × S)
  | .applied n s => some (n, s)
  | .needSnapshot _ _ => none
  | .duplicate _ => none

def ByteApplyResult.applied? : ByteApplyResult → Option (UInt64 × Bytes)
  | .applied n s => some (n, s)
  | .needRecovery _ _ => none
  | .duplicate _ => none

/-! ## Typed decoders -/

namespace TypedDecoder

variable {S : Type} {X : Crates} {C : StateCodec S} {config : DecodeConfig}

/-- The state serialises to bytes with this hash. -/
def HasHash (C : StateCodec S) (s : S) (hash : UInt64) : Prop :=
  ∃ bytes, C.encodeState s = .ok bytes ∧ fnv1a64 bytes = hash

/-- A delta only becomes a state on its base. -/
theorem nextState_delta {d : TypedDecoder S} {p : Packet} {next : S} (hkind : p.kind = .delta)
    (h : d.nextState X C config p = .ok (.inl next)) :
    d.sequence = some p.baseSequence ∧ ∃ base, d.state = some base ∧ HasHash C base p.baseHash := by
  unfold nextState at h
  simp only [hkind] at h
  split at h
  · cases h
  rename_i hsequence
  split at h
  · cases h
  rename_i base hbase
  split at h
  · cases h
  rename_i bytes hbytes
  split at h
  · cases h
  rename_i hhash
  exact ⟨Decidable.not_not.mp hsequence, base, hbase, bytes, hbytes,
    Decidable.not_not.mp hhash⟩

/-- **A call of a typed decoder is safe.** -/
theorem apply_safe {d : TypedDecoder S} (hd : d.Valid) (p : Packet) :
    SafeCall TypedDecoder.sequence TypedDecoder.state (HasHash C) ApplyResult.applied? d p
      (d.applyPacket X C config p) := by
  unfold applyPacket
  split
  · exact .unchanged (by intro r hr; cases hr)
  split
  · exact .unchanged (by intro r hr; cases hr; rfl)
  rename_i hseen
  split
  · exact .unchanged (by intro r hr; cases hr; rfl)
  rename_i hold
  cases hnext : d.nextState X C config p with
  | error e => exact .unchanged (by intro r hr; cases hr)
  | ok outcome =>
    cases outcome with
    | inr result =>
      refine .unchanged ?_
      intro r hr
      cases hr
      rw [(nextState_needSnapshot hnext).2]
      rfl
    | inl next =>
      refine ⟨?_, ?_, ?_⟩
      · intro h
        cases h _ rfl
      · intro r n s hr happlied
        cases hr
        cases happlied
        exact ⟨rfl, rfl, rfl, fun k hk => hd.grows hseen hold hk⟩
      · intro r n s _ _ hkind
        exact nextState_delta hkind hnext

/-- A typed decoder never goes back. -/
theorem apply_grows {d : TypedDecoder S} (h : d.Valid) (p : Packet) {n : UInt64}
    (hn : ∃ k, d.sequence = some k ∧ n ≤ k) :
    ∃ k, (d.applyPacket X C config p).2.sequence = some k ∧ n ≤ k := by
  obtain ⟨k, hk, hle⟩ := hn
  have hsafe : SafeCall _ _ (HasHash C) _ d p (d.applyPacket X C config p) := apply_safe h p
  by_cases hnone : ∀ r, (d.applyPacket X C config p).1 = .ok r → r.applied? = none
  · rw [hsafe.rejected hnone]
    exact ⟨k, hk, hle⟩
  · obtain ⟨r, hr, happlied⟩ : ∃ r, (d.applyPacket X C config p).1 = .ok r ∧ r.applied? ≠ none := by
      simpa using hnone
    obtain ⟨⟨m, s⟩, hms⟩ := Option.ne_none_iff_exists'.mp happlied
    obtain ⟨-, hseq, -, hgrow⟩ := hsafe.newer r m s hr hms
    exact ⟨m, hseq, UInt64.le_trans hle (UInt64.le_of_lt (hgrow k hk))⟩

end TypedDecoder

/-! ## Generic decoders -/

namespace GenericDecoder

variable {T : Type} (X : Crates) (S : Serde T) (parse : Bytes → Except DeltaError Value)

/-- Sequence, state and window of a generic decoder. -/
def sequence (d : GenericDecoder T) : Option UInt64 := d.stream.sequence

def state (d : GenericDecoder T) : Option T := d.stream.state

/-- A generic decoder that has been fed packets, with or without migrations, and reset. -/
inductive Reached : GenericDecoder T → Prop where
  | new (config : DecodeConfig) : Reached (withDecodeConfig config)
  | applied {d : GenericDecoder T} (h : Reached d) (p : Packet) :
      Reached (d.applyPacket X S p).2
  | migrated {d : GenericDecoder T} (h : Reached d) (p : Packet)
      (migrations : MigrationRegistry) :
      Reached (d.applyPacketWithMigrations X S parse p migrations).2
  | reset {d : GenericDecoder T} (h : Reached d) : Reached d.reset

variable {X S parse}

theorem Reached.valid {d : GenericDecoder T} (h : Reached X S parse d) : d.stream.Valid := by
  induction h with
  | new config => exact TypedDecoder.default_valid
  | applied _ p ih => exact TypedDecoder.apply_valid ih p
  | migrated _ p migrations ih => exact migrated_valid X S parse ih p migrations
  | reset _ _ => exact TypedDecoder.reset_valid _

theorem apply_safe {d : GenericDecoder T} (hd : d.stream.Valid) (p : Packet) :
    SafeCall sequence state (TypedDecoder.HasHash (serdeCodec S)) ApplyResult.applied? d p
      (d.applyPacket X S p) := by
  have hsafe : SafeCall TypedDecoder.sequence TypedDecoder.state
      (TypedDecoder.HasHash (serdeCodec S)) ApplyResult.applied? d.stream p
      (d.stream.applyPacket X (serdeCodec S) d.decodeConfig p) := TypedDecoder.apply_safe hd p
  refine ⟨?_, hsafe.newer, hsafe.based⟩
  intro h
  have hstream := hsafe.rejected h
  show ({ d with stream := _ } : GenericDecoder T) = d
  rw [hstream]

/-- **So is a call with migrations.** -/
theorem migrations_safe {d : GenericDecoder T} (hd : d.stream.Valid) (p : Packet)
    (migrations : MigrationRegistry) :
    SafeCall sequence state (TypedDecoder.HasHash (serdeCodec S)) ApplyResult.applied? d p
      (d.applyPacketWithMigrations X S parse p migrations) := by
  rcases migrated_cases X S parse d p migrations with heq | hcases
  · rw [heq]
    exact apply_safe hd p
  · generalize d.applyPacketWithMigrations X S parse p migrations = out at hcases
    cases hcases with
    | refused h =>
      refine .unchanged ?_
      intro r hr
      cases r with
      | applied n s => exact absurd hr (h n s)
      | needSnapshot l r => rfl
      | duplicate n => rfl
    | taken s hkind hseen hold =>
      refine ⟨?_, ?_, ?_⟩
      · intro h
        cases h _ rfl
      · intro r n t hr happlied
        cases hr
        cases happlied
        exact ⟨rfl, rfl, rfl, fun k hk => hd.grows hseen hold hk⟩
      · intro r n t _ _ hdelta
        rw [hkind] at hdelta
        cases hdelta

end GenericDecoder

/-! ## Byte decoders -/

namespace ByteStateDecoder

/-- A byte decoder that has been fed packets and reset. -/
inductive Reached (X : Crates) : ByteStateDecoder → Prop where
  | new (schemaName : String) : Reached X (new schemaName)
  | applied {d : ByteStateDecoder} (h : Reached X d) (p : Packet) : Reached X (d.apply X p).2
  | reset {d : ByteStateDecoder} (h : Reached X d) : Reached X d.reset

theorem nextState_based {d : ByteStateDecoder} {p : Packet} {payload next : Bytes}
    (hkind : p.kind = .delta) (h : d.nextState p payload = .ok (.inl next)) :
    d.sequence = some p.baseSequence ∧
      ∃ base, d.state = some base ∧ fnv1a64 base = p.baseHash := by
  unfold nextState at h
  simp only [hkind] at h
  split at h
  · cases h
  rename_i hsequence
  split at h
  · cases h
  rename_i base hbase
  split at h
  · cases h
  rename_i hhash
  exact ⟨Decidable.not_not.mp hsequence, base, hbase, Decidable.not_not.mp hhash⟩

/-- **A call of a byte decoder is safe**, also before anything is held. -/
theorem apply_safe (X : Crates) (d : ByteStateDecoder) (p : Packet) :
    SafeCall ByteStateDecoder.sequence ByteStateDecoder.state (fun s hash => fnv1a64 s = hash)
      ByteApplyResult.applied? d p (d.apply X p) := by
  unfold apply
  split
  · exact .unchanged (by intro r hr; cases hr)
  split
  · exact .unchanged (by intro r hr; cases hr; rfl)
  rename_i hfresh
  cases hpayload : p.logicalPayload X with
  | error e => exact .unchanged (by intro r hr; cases hr)
  | ok payload =>
    simp only
    cases hnext : d.nextState p payload with
    | error e => exact .unchanged (by intro r hr; cases hr)
    | ok outcome =>
      cases outcome with
      | inr result =>
        refine .unchanged ?_
        intro r hr
        cases hr
        rw [(nextState_needRecovery hnext).2]
        rfl
      | inl next =>
        refine ⟨?_, ?_, ?_⟩
        · intro h
          cases h _ rfl
        · intro r n s hr happlied
          cases hr
          cases happlied
          refine ⟨rfl, rfl, rfl, fun k hk => ?_⟩
          rw [hk] at hfresh
          exact UInt64.not_le.mp fun hle => hfresh (decide_eq_true hle)
        · intro r n s _ _ hkind
          exact nextState_based hkind hnext

end ByteStateDecoder

/-! ## Decoders in use -/

/-- **Rejected packets leave the receiver untouched and the sequence only grows**: for every
    decoder in use and every packet, a call that does not apply the packet changes nothing, and
    one that does moves to the packet's sequence, newer than the one held, and for a delta from
    its base sequence and base state. -/
theorem decoders_safe (X : Crates) :
    (∀ d : Decoder, TypedDecoder.Reached X agentCodec .default d → ∀ p : Packet,
        SafeCall TypedDecoder.sequence TypedDecoder.state (TypedDecoder.HasHash agentCodec)
          ApplyResult.applied? d p (d.applyPacket X p)) ∧
      (∀ (T : Type) (S : Serde T) (parse : Bytes → Except DeltaError Value)
        (d : GenericDecoder T), GenericDecoder.Reached X S parse d → ∀ p : Packet,
        SafeCall GenericDecoder.sequence GenericDecoder.state
            (TypedDecoder.HasHash (serdeCodec S)) ApplyResult.applied? d p
            (d.applyPacket X S p) ∧
          ∀ migrations : MigrationRegistry,
            SafeCall GenericDecoder.sequence GenericDecoder.state
              (TypedDecoder.HasHash (serdeCodec S)) ApplyResult.applied? d p
              (d.applyPacketWithMigrations X S parse p migrations)) ∧
      (∀ d : ByteStateDecoder, ByteStateDecoder.Reached X d → ∀ p : Packet,
        SafeCall ByteStateDecoder.sequence ByteStateDecoder.state
          (fun s hash => fnv1a64 s = hash) ByteApplyResult.applied? d p (d.apply X p)) := by
  refine ⟨?_, ?_, fun d _ p => ByteStateDecoder.apply_safe X d p⟩
  · intro d hd p
    exact TypedDecoder.apply_safe hd.valid p
  · intro T S parse d hd p
    exact ⟨GenericDecoder.apply_safe hd.valid p,
      fun migrations => GenericDecoder.migrations_safe hd.valid p migrations⟩

namespace Reading

def zeroPacket : Packet := .snapshot 1 (fnv1a64 (text .zero)) serde.schemaHash (text .zero)

def onePacket : Packet := .delta 2 1 (fnv1a64 (text .zero)) serde.schemaHash (changedTo .one)

end Reading

/-- Decoders that hold the first state of a publisher. -/
def idleDecoder : Decoder := (Decoder.applyPacket .stored .default idlePacket).2

def zeroDecoder : GenericDecoder Reading :=
  ((GenericDecoder.withDecodeConfig .default).applyPacket .stored Reading.serde
    Reading.zeroPacket).2

def docDecoder : ByteStateDecoder := ((ByteStateDecoder.new "doc").apply .stored docSnapshot).2

open Reading in
/-- Each of them is left as it is by a packet it cannot use (a delta on a later base, a snapshot of
    another schema that cannot be parsed, a delta whose payload cannot be read), and moved on by
    the delta from the state it holds. -/
theorem decoders_safe_held :
    ((Decoder.applyPacket .stored idleDecoder
        (.delta 3 2 (stateHash busyAgent) agentSchemaHash [16, 0, 2])).2 = idleDecoder ∧
      (Decoder.applyPacket .stored idleDecoder busyPacket).2.state = some busyAgent) ∧
    ((zeroDecoder.applyPacketWithMigrations .stored serde (fun _ => .error unreadable)
        (.snapshot 2 (fnv1a64 (text .zero)) 7 (text .zero)) .new).2 = zeroDecoder ∧
      (zeroDecoder.applyPacket .stored serde onePacket).2.state = some .one) ∧
    (docDecoder.apply .stored (byteDelta 2 (fnv1a64 (utf8 "doc")) docState.bytes [9])).2 =
        docDecoder ∧
      (docDecoder.apply .stored docDelta).2.state = some docEdited.bytes := by
  obtain ⟨hagent, hgeneric, hbyte⟩ := decoders_safe .stored
  have hidle : TypedDecoder.Reached .stored agentCodec .default idleDecoder :=
    .applied .default idlePacket
  have hzero : GenericDecoder.Reached .stored serde (fun _ => .error unreadable) zeroDecoder :=
    .applied (.new .default) zeroPacket
  have hdoc : ByteStateDecoder.Reached .stored docDecoder := .applied (.new "doc") docSnapshot
  have hneed : (Decoder.applyPacket .stored idleDecoder
      (.delta 3 2 (stateHash busyAgent) agentSchemaHash [16, 0, 2])).1 =
        .ok (.needSnapshot (some 1) 2) := by decide +kernel
  have hbusy : (Decoder.applyPacket .stored idleDecoder busyPacket).1 =
      .ok (.applied 2 busyAgent) := by decide +kernel
  have hforeign : (zeroDecoder.applyPacketWithMigrations .stored serde (fun _ => .error unreadable)
      (.snapshot 2 (fnv1a64 (text .zero)) 7 (text .zero)) .new).1 = .error unreadable := by
    decide +kernel
  have hone : (zeroDecoder.applyPacket .stored serde onePacket).1 = .ok (.applied 2 .one) := by
    decide +kernel
  have hbroken : (docDecoder.apply .stored
      (byteDelta 2 (fnv1a64 (utf8 "doc")) docState.bytes [9])).1.toOption = none := by
    decide +kernel
  have hedited : (docDecoder.apply .stored docDelta).1 = .ok (.applied 2 docEdited.bytes) := by
    decide +kernel
  refine ⟨⟨?_, ?_⟩, ⟨?_, ?_⟩, ?_, ?_⟩
  · refine (hagent _ hidle _).rejected fun r hr => ?_
    cases hneed.symm.trans hr
    rfl
  · exact ((hagent _ hidle busyPacket).newer _ _ _ hbusy rfl).2.2.1
  · refine ((hgeneric Reading serde _ _ hzero _).2 .new).rejected fun r hr => ?_
    cases hforeign.symm.trans hr
  · exact ((hgeneric Reading serde _ _ hzero onePacket).1.newer _ _ _ hone rfl).2.2.1
  · refine (hbyte _ hdoc _).rejected fun r hr => ?_
    rw [hr] at hbroken
    cases hbroken
  · exact ((hbyte _ hdoc docDelta).newer _ _ _ hedited rfl).2.2.1

end DeltaStream
