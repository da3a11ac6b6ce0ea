import DeltaStream.CrdtDecode

/-!
# Counters and registers as bytes

Model of `encode_crdt` and of the writers derived for the types of `src/crdt`: a newtype is its
inner value, a struct an object of its fields in order, a B-tree map an object in key order.

* `read_of_write` — the reader of a type inverts its writer;
* `crdt_round_trip` — `decode_crdt` gives back every value that `encode_crdt` wrote, and refuses it
  exactly where it is longer than the limit.
-/

set_option autoImplicit false

namespace DeltaStream

open SortedMap

/-- What a type writes; `none` is an error. -/
structure Serialize (T : Type) where
  write : T → Option Json

def writeU64 (n : UInt64) : Json := .number (.posInt n)

def ReplicaId.serialize (id : ReplicaId) : Json := .string id.value

def GCounter.serialize (c : GCounter) : Json :=
  .object [("components", .object (c.components.map fun e => (e.1.value, writeU64 e.2)))]

def PNCounter.serialize (c : PNCounter) : Json :=
  .object [("positive", c.positive.serialize), ("negative", c.negative.serialize)]

def LwwRegister.serialize {T : Type} (W : Serialize T) : Serialize (LwwRegister T) where
  write r := do
    let value ← W.write r.value
    some (.object [("value", value), ("timestamp", writeU64 r.timestamp),
      ("replica", r.replica.serialize)])

/-- The writers of the types, one argument type for all. -/
def CrdtValue.serialize {T : Type} (W : Serialize T) : Serialize (CrdtValue T) where
  write
    | .replicaId id => some id.serialize
    | .gcounter c => some c.serialize
    | .pncounter c => some c.serialize
    | .lwwRegister r => (LwwRegister.serialize W).write r

/-- `render` is `serde_json` from the tree on; `none` is the serialization error. -/
def encodeCrdt {T : Type} (render : Json → Bytes) (W : Serialize T) (value : T) : Option Bytes :=
  (W.write value).map render

def CrdtValue.kind {T : Type} : CrdtValue T → CrdtKind
  | .replicaId _ => .replicaId
  | .gcounter _ => .gcounter
  | .pncounter _ => .pncounter
  | .lwwRegister _ => .lwwRegister

variable {T : Type}

/-- The reader inverts the writer. -/
def Inverts (D : Deserialize T) (W : Serialize T) : Prop :=
  ∀ t doc, W.write t = some doc → D.read doc = some t

/-! ## Trees -/

@[simp] theorem readU64_writeU64 (n : UInt64) : readU64.read (writeU64 n) = some n := rfl

@[simp] theorem read_replicaId (id : ReplicaId) :
    ReplicaId.deserialize.read id.serialize = some id := rfl

/-- Entries in key order are read as they are, behind the smaller ones read before. -/
theorem visitComponents_entries : ∀ (es : List (ReplicaId × UInt64)) {c c' : GCounter},
    c'.components = c.components ++ es →
      visitComponents c (es.map fun e => (e.1.value, writeU64 e.2)) = some c'
  | [], c, c', h => by
    rw [List.append_nil] at h
    obtain ⟨components, sorted⟩ := c
    cases h
    rfl
  | (id, n) :: es, c, c', h => by
    have hsorted := c'.sorted
    rw [h] at hsorted
    have hlast : ∀ e ∈ c.components, e.1 < id := fun e he =>
      (List.pairwise_append.mp hsorted).2.2 e he (id, n) List.mem_cons_self
    have hset : c'.components = (c.set id n).components ++ es := by
      show _ = insert c.components id n ++ es
      rw [h, insert_last hlast, List.append_assoc]
      rfl
    simpa [visitComponents] using visitComponents_entries es hset

@[simp] theorem read_gcounter (c : GCounter) :
    GCounter.deserialize.read c.serialize = some c := by
  have hvisit : visitComponents .new (c.components.map fun e => (e.1.value, writeU64 e.2)) =
      some c := visitComponents_entries c.components rfl
  simpa [GCounter.deserialize, Deserialize.field, GCounter.serialize, structField,
    readComponents] using hvisit

@[simp] theorem read_pncounter (c : PNCounter) :
    PNCounter.deserialize.read c.serialize = some c := by
  simp [PNCounter.deserialize, Deserialize.field, PNCounter.serialize, structField]

theorem read_lwwRegister {D : Deserialize T} {W : Serialize T} (h : Inverts D W) :
    Inverts (LwwRegister.deserialize D) (LwwRegister.serialize W) := by
  intro r doc hdoc
  obtain ⟨value, hvalue, ⟨⟩⟩ := Option.bind_eq_some_iff.mp hdoc
  simp [LwwRegister.deserialize, Deserialize.field, structField, h _ _ hvalue]

/-- **The readers invert the writers.** -/
theorem read_of_write {D : Deserialize T} {W : Serialize T} (h : Inverts D W) {v : CrdtValue T}
    {doc : Json} (hdoc : (CrdtValue.serialize W).write v = some doc) :
    (CrdtValue.deserialize D v.kind).read doc = some v := by
  cases v with
  | lwwRegister r => simp [CrdtValue.deserialize, CrdtValue.kind, read_lwwRegister h r doc hdoc]
  | replicaId id =>
    cases hdoc
    simp [CrdtValue.deserialize, CrdtValue.kind]
  | gcounter c =>
    cases hdoc
    simp [CrdtValue.deserialize, CrdtValue.kind]
  | pncounter c =>
    cases hdoc
    simp [CrdtValue.deserialize, CrdtValue.kind]

/-! ## Bytes -/

/-- Whatever a type writes but a register's value, it writes without an error. -/
theorem encodeCrdt_total (render : Json → Bytes) (W : Serialize T) {v : CrdtValue T}
    (h : v.kind ≠ .lwwRegister) :
    ∃ bytes, encodeCrdt render (CrdtValue.serialize W) v = some bytes := by
  cases v with
  | lwwRegister r => exact absurd rfl h
  | _ => exact ⟨_, rfl⟩

/-- `serde_json` reads back the text of the value's document. -/
def TextReads (parse : Bytes → Option Json) (render : Json → Bytes) (W : Serialize T) (v : T) :
    Prop :=
  ∀ doc, W.write v = some doc → parse (render doc) = some doc

section Bytes

variable {render : Json → Bytes} {parse : Bytes → Option Json} {D : Deserialize T}
  {W : Serialize T} {bytes : Bytes}

theorem encodeCrdt_read {t : T} (h : encodeCrdt render W t = some bytes)
    (htext : TextReads parse render W t)
    (hread : ∀ doc, W.write t = some doc → D.read doc = some t) :
    (parse bytes).bind D.read = some t := by
  obtain ⟨doc, hdoc, rfl⟩ := Option.map_eq_some_iff.mp h
  rw [htext doc hdoc]
  exact hread doc hdoc

/-- **Round trip.**  `decode_crdt` gives back every identifier, counter and register from its
    bytes, unless they are more than the limit; counters and identifiers always encode; and
    different values of a type have different bytes. -/
theorem crdt_round_trip (hT : Inverts D W) {v : CrdtValue T}
    (hv : TextReads parse render (CrdtValue.serialize W) v) :
    (v.kind ≠ .lwwRegister → ∃ bytes, encodeCrdt render (CrdtValue.serialize W) v = some bytes) ∧
    ∀ bytes, encodeCrdt render (CrdtValue.serialize W) v = some bytes →
      (∀ config, decodeCrdt parse (CrdtValue.deserialize D v.kind) bytes config =
        if bytes.length > config.maxEncodedBytes.toNat then
          .error (.encodedValueTooLarge config.maxEncodedBytes.toNat bytes.length)
        else .ok v) ∧
      ∀ w : CrdtValue T, w.kind = v.kind → TextReads parse render (CrdtValue.serialize W) w →
        (encodeCrdt render (CrdtValue.serialize W) w = some bytes ↔ w = v) := by
  refine ⟨encodeCrdt_total render W, fun bytes hbytes => ?_⟩
  have hread := encodeCrdt_read hbytes hv fun _ => read_of_write hT
  refine ⟨fun config => ?_, fun w hkind hw => ⟨fun henc => ?_, ?_⟩⟩
  · unfold decodeCrdt
    rw [hread]
  · have hread' := encodeCrdt_read henc hw fun _ => read_of_write hT
    rw [hkind, hread] at hread'
    exact (Option.some.inj hread').symm
  · rintro rfl
    exact hbytes

end Bytes

/-- The text of a counter with two components. -/
def countersText : Bytes := utf8 "\x7b\"components\":\x7b\"a\":2,\"b\":3\x7d\x7d"

def parseCounters (bytes : Bytes) : Option Json :=
  if bytes = countersText then
    some (.object [("components", .object [("a", writeU64 2), ("b", writeU64 3)])])
  else none

theorem crdt_round_trip_counter :
    decodeCrdt parseCounters (CrdtValue.deserialize readU64 .gcounter) countersText .default =
      .ok (.gcounter ((GCounter.new.increment ⟨"a"⟩ 2).2.increment ⟨"b"⟩ 3).2) := by
  have hT : Inverts readU64 ⟨fun n => some (writeU64 n)⟩ := by
    rintro n _ ⟨⟩
    rfl
  have hv : TextReads parseCounters (fun _ => countersText)
      (CrdtValue.serialize ⟨fun n => some (writeU64 n)⟩)
      (.gcounter ((GCounter.new.increment ⟨"a"⟩ 2).2.increment ⟨"b"⟩ 3).2) := by
    rintro _ ⟨⟩
    exact (if_pos rfl).trans rfl
  exact ((crdt_round_trip hT hv).2 countersText rfl).1 .default

end DeltaStream
