import DeltaStream.Crdt

/-!
# Decoding counters and registers

Model of `decode_crdt` and of the readers derived for the types of `src/crdt`.  The text of a
document is the business of `serde_json`, a parameter here; a derived reader goes over its tree: a
newtype is its inner value, a struct an object with its fields or an array of them in order, a
B-tree map an object.

* `Names` — the strings at the identifier positions of a document;
* `read_of_names`, `names_of_read` — the documents with such strings are the ones read, and the
  strings are the identifiers of the value.
-/

set_option autoImplicit false

namespace DeltaStream

open SortedMap

/-- A number as `serde_json` classifies it; negative and fractional ones are no `u64`. -/
inductive JsonNumber where
  | posInt (n : UInt64)
  | negInt (n : Int)
  | float (bits : UInt64)

/-- Members of an object are in the order of the text, repeated names included. -/
inductive Json where
  | null
  | bool (b : Bool)
  | number (n : JsonNumber)
  | string (s : String)
  | array (items : List Json)
  | object (members : List (String × Json))

/-- What a type reads, and what it is where its member is missing: an error, but for a type such as
    `Option`. -/
structure Deserialize (T : Type) where
  read : Json → Option T
  missing : Option T

/-- A field of a struct with `count` fields, read from an object or, at its index, from an array;
    `none` is an error and `some none` a member that is missing. -/
def structField (name : String) (index count : Nat) : Json → Option (Option Json)
  | .object members =>
    match members.filter fun m => decide (m.1 = name) with
    | [] => some none
    | [m] => some (some m.2)
    | _ => none
  | .array items => if items.length = count then some items[index]? else none
  | _ => none

def Deserialize.field {T : Type} (D : Deserialize T) (name : String) (index count : Nat)
    (doc : Json) : Option T :=
  match structField name index count doc with
  | none => none
  | some none => D.missing
  | some (some value) => D.read value

def readU64 : Deserialize UInt64 where
  read
    | .number (.posInt n) => some n
    | _ => none
  missing := none

/-- Derived for the newtype: the string as it is. -/
def ReplicaId.deserialize : Deserialize ReplicaId where
  read
    | .string s => some ⟨s⟩
    | _ => none
  missing := none

/-- The visitor of `BTreeMap`: a repeated key overwrites its value. -/
def visitComponents (c : GCounter) : List (String × Json) → Option GCounter
  | [] => some c
  | (key, value) :: members =>
    match readU64.read value with
    | none => none
    | some n => visitComponents (c.set ⟨key⟩ n) members

def readComponents : Deserialize GCounter where
  read
    | .object members => visitComponents .new members
    | _ => none
  missing := none

def GCounter.deserialize : Deserialize GCounter where
  read doc := readComponents.field "components" 0 1 doc
  missing := none

def PNCounter.deserialize : Deserialize PNCounter where
  read doc := do
    let positive ← GCounter.deserialize.field "positive" 0 2 doc
    let negative ← GCounter.deserialize.field "negative" 1 2 doc
    some ⟨positive, negative⟩
  missing := none

def LwwRegister.deserialize {T : Type} (D : Deserialize T) : Deserialize (LwwRegister T) where
  read doc := do
    let value ← D.field "value" 0 3 doc
    let timestamp ← readU64.field "timestamp" 1 3 doc
    let replica ← ReplicaId.deserialize.field "replica" 2 3 doc
    some ⟨value, timestamp, replica⟩
  missing := none

structure CrdtDecodeConfig where
  maxEncodedBytes : Usize
  deriving DecidableEq

def CrdtDecodeConfig.default : CrdtDecodeConfig := ⟨1024 * 1024⟩

/-- `parse` is `serde_json` up to the tree. -/
def decodeCrdt {T : Type} (parse : Bytes → Option Json) (D : Deserialize T) (bytes : Bytes)
    (config : CrdtDecodeConfig) : Except CrdtError T :=
  if bytes.length > config.maxEncodedBytes.toNat then
    .error (.encodedValueTooLarge config.maxEncodedBytes.toNat bytes.length)
  else
    match (parse bytes).bind D.read with
    | none => .error .deserialization
    | some value => .ok value

/-! ## Values -/

/-- The types a program decodes. -/
inductive CrdtKind where
  | replicaId
  | gcounter
  | pncounter
  | lwwRegister
  deriving DecidableEq

inductive CrdtValue (T : Type) where
  | replicaId (id : ReplicaId)
  | gcounter (c : GCounter)
  | pncounter (c : PNCounter)
  | lwwRegister (r : LwwRegister T)

def GCounter.ids (c : GCounter) : List ReplicaId := c.components.map Prod.fst

/-- The identifiers in a value: itself, keys, the replica of a register. -/
def CrdtValue.ids {T : Type} : CrdtValue T → List ReplicaId
  | .replicaId id => [id]
  | .gcounter c => c.ids
  | .pncounter c => c.positive.ids ++ c.negative.ids
  | .lwwRegister r => [r.replica]

variable {T : Type}

/-- The readers of the types, one result type for all. -/
def CrdtValue.deserialize (D : Deserialize T) (kind : CrdtKind) : Deserialize (CrdtValue T) where
  read doc :=
    match kind with
    | .replicaId => (ReplicaId.deserialize.read doc).map .replicaId
    | .gcounter => (GCounter.deserialize.read doc).map .gcounter
    | .pncounter => (PNCounter.deserialize.read doc).map .pncounter
    | .lwwRegister => ((LwwRegister.deserialize D).read doc).map .lwwRegister
  missing := none

/-! ## Identifiers of a document -/

/-- The document has the fields of a type, and these strings are at its identifier positions: the
    document itself, the keys of `components`, or `replica`. -/
inductive Names (D : Deserialize T) : CrdtKind → Json → List String → Prop where
  | replicaId {s : String} : Names D .replicaId (.string s) [s]
  | gcounter {doc : Json} {members : List (String × Json)}
      (hcomponents : structField "components" 0 1 doc = some (some (.object members)))
      (hvalues : ∀ m ∈ members, ∃ n, m.2 = .number (.posInt n)) :
      Names D .gcounter doc (members.map Prod.fst)
  | pncounter {doc positive negative : Json} {added subtracted : List String}
      (hpositive : structField "positive" 0 2 doc = some (some positive))
      (hnegative : structField "negative" 1 2 doc = some (some negative))
      (hadded : Names D .gcounter positive added)
      (hsubtracted : Names D .gcounter negative subtracted) :
      Names D .pncounter doc (added ++ subtracted)
  | lwwRegister {doc : Json} {value : T} {n : UInt64} {s : String}
      (hvalue : D.field "value" 0 3 doc = some value)
      (htimestamp : structField "timestamp" 1 3 doc = some (some (.number (.posInt n))))
      (hreplica : structField "replica" 2 3 doc = some (some (.string s))) :
      Names D .lwwRegister doc [s]

/-- The strings are the identifiers of the value. -/
def CrdtValue.NamedBy (v : CrdtValue T) (names : List String) : Prop :=
  ∀ s, ⟨s⟩ ∈ v.ids ↔ s ∈ names

theorem Deserialize.field_of_present {α : Type} {D : Deserialize α} {name : String}
    {index count : Nat} {doc value : Json}
    (h : structField name index count doc = some (some value)) :
    D.field name index count doc = D.read value := by
  simp [field, h]

/-- A type without a value for a missing member is read from a member that is there. -/
theorem Deserialize.field_ok {α : Type} {D : Deserialize α} {name : String} {index count : Nat}
    {doc : Json} {a : α} (hmissing : D.missing = none)
    (h : D.field name index count doc = some a) :
    ∃ value, structField name index count doc = some (some value) ∧ D.read value = some a := by
  unfold field at h
  split at h
  · cases h
  · rw [hmissing] at h
    cases h
  · rename_i value hvalue
    exact ⟨value, hvalue, h⟩

theorem readU64_ok {value : Json} {n : UInt64} (h : readU64.read value = some n) :
    value = .number (.posInt n) := by
  unfold readU64 at h
  simp only at h
  split at h
  · cases h
    rfl
  · cases h

theorem ids_set (c : GCounter) (id : ReplicaId) (n : UInt64) (q : ReplicaId) :
    q ∈ (c.set id n).ids ↔ q = id ∨ q ∈ c.ids :=
  keys_insert c.components id n q

/-- Members that are all numbers are read, and their names are the new identifiers. -/
theorem visitComponents_of_numbers : ∀ {members : List (String × Json)} (c : GCounter),
    (∀ m ∈ members, ∃ n, m.2 = .number (.posInt n)) →
      ∃ c', visitComponents c members = some c' ∧
        ∀ s, ⟨s⟩ ∈ c'.ids ↔ ⟨s⟩ ∈ c.ids ∨ s ∈ members.map Prod.fst
  | [], c, _ => ⟨c, rfl, fun s => by simp⟩
  | (key, value) :: members, c, h => by
    obtain ⟨n, rfl⟩ := h (key, value) List.mem_cons_self
    obtain ⟨c', hc', hids⟩ := visitComponents_of_numbers (c.set ⟨key⟩ n)
      fun m hm => h m (List.mem_cons_of_mem _ hm)
    refine ⟨c', by simpa [visitComponents, readU64] using hc', fun s => ?_⟩
    simp only [hids, ids_set, ReplicaId.mk.injEq, List.map_cons, List.mem_cons]
    rw [or_assoc, or_left_comm]

theorem numbers_of_visitComponents : ∀ {members : List (String × Json)} {c c' : GCounter},
    visitComponents c members = some c' → ∀ m ∈ members, ∃ n, m.2 = .number (.posInt n)
  | [], _, _, _ => by simp
  | (key, value) :: members, c, c', h => by
    unfold visitComponents at h
    split at h
    · cases h
    · rename_i n hn
      intro m hm
      rcases List.mem_cons.mp hm with rfl | hm
      · exact ⟨n, readU64_ok hn⟩
      · exact numbers_of_visitComponents h m hm

theorem GCounter.read_of_names {D : Deserialize T} {doc : Json} {names : List String}
    (h : Names D .gcounter doc names) :
    ∃ c, GCounter.deserialize.read doc = some c ∧ ∀ s, ⟨s⟩ ∈ c.ids ↔ s ∈ names := by
  cases h with
  | gcounter hcomponents hvalues =>
    obtain ⟨c, hc, hids⟩ := visitComponents_of_numbers .new hvalues
    refine ⟨c, ?_, fun s => ?_⟩
    · exact (Deserialize.field_of_present hcomponents).trans hc
    · rw [hids, show GCounter.new.ids = [] from rfl]
      simp only [List.not_mem_nil, false_or]

theorem GCounter.names_of_read (D : Deserialize T) {doc : Json} {c : GCounter}
    (h : GCounter.deserialize.read doc = some c) : ∃ names, Names D .gcounter doc names := by
  obtain ⟨value, hvalue, hread⟩ := Deserialize.field_ok rfl h
  unfold readComponents at hread
  simp only at hread
  split at hread
  · exact ⟨_, .gcounter hvalue (numbers_of_visitComponents hread)⟩
  · cases hread

/-- **A document with the fields of a type is read**, and its strings are the identifiers. -/
theorem read_of_names {D : Deserialize T} {kind : CrdtKind} {doc : Json} {names : List String}
    (h : Names D kind doc names) :
    ∃ v, (CrdtValue.deserialize D kind).read doc = some v ∧ v.NamedBy names := by
  cases h with
  | replicaId => exact ⟨_, rfl, fun s => by simp [CrdtValue.ids]⟩
  | gcounter hcomponents hvalues =>
    obtain ⟨c, hc, hids⟩ := GCounter.read_of_names (Names.gcounter (D := D) hcomponents hvalues)
    exact ⟨.gcounter c, by simp [CrdtValue.deserialize, hc], hids⟩
  | pncounter hpositive hnegative hadded hsubtracted =>
    obtain ⟨p, hp, hpids⟩ := GCounter.read_of_names hadded
    obtain ⟨n, hn, hnids⟩ := GCounter.read_of_names hsubtracted
    have hread : PNCounter.deserialize.read doc = some ⟨p, n⟩ := by
      simp only [PNCounter.deserialize, Deserialize.field_of_present hpositive,
        Deserialize.field_of_present hnegative, hp, hn]
      rfl
    refine ⟨.pncounter ⟨p, n⟩, by simp [CrdtValue.deserialize, hread], fun s => ?_⟩
    simp [CrdtValue.ids, hpids, hnids]
  | @lwwRegister _ value n s hvalue htimestamp hreplica =>
    have hread : (LwwRegister.deserialize D).read doc = some ⟨value, n, ⟨s⟩⟩ := by
      simp only [LwwRegister.deserialize, hvalue, Deserialize.field_of_present htimestamp,
        Deserialize.field_of_present hreplica]
      rfl
    refine ⟨.lwwRegister ⟨value, n, ⟨s⟩⟩, by simp [CrdtValue.deserialize, hread], fun s => ?_⟩
    simp [CrdtValue.ids]

/-- **Nothing else is read.** -/
theorem names_of_read {D : Deserialize T} {kind : CrdtKind} {doc : Json} {v : CrdtValue T}
    (h : (CrdtValue.deserialize D kind).read doc = some v) : ∃ names, Names D kind doc names := by
  cases kind with
  | replicaId =>
    obtain ⟨id, hid, -⟩ := Option.map_eq_some_iff.mp h
    unfold ReplicaId.deserialize at hid
    simp only at hid
    split at hid
    · exact ⟨_, .replicaId⟩
    · cases hid
  | gcounter =>
    obtain ⟨c, hc, -⟩ := Option.map_eq_some_iff.mp h
    exact GCounter.names_of_read D hc
  | pncounter =>
    obtain ⟨c, hc, -⟩ := Option.map_eq_some_iff.mp h
    simp only [PNCounter.deserialize, Option.bind_eq_bind, Option.bind_eq_some_iff] at hc
    obtain ⟨p, hp, n, hn, -⟩ := hc
    obtain ⟨pdoc, hpositive, hp⟩ := Deserialize.field_ok rfl hp
    obtain ⟨ndoc, hnegative, hn⟩ := Deserialize.field_ok rfl hn
    obtain ⟨added, hadded⟩ := GCounter.names_of_read D hp
    obtain ⟨subtracted, hsubtracted⟩ := GCounter.names_of_read D hn
    exact ⟨_, .pncounter hpositive hnegative hadded hsubtracted⟩
  | lwwRegister =>
    obtain ⟨r, hr, -⟩ := Option.map_eq_some_iff.mp h
    simp only [LwwRegister.deserialize, Option.bind_eq_bind, Option.bind_eq_some_iff] at hr
    obtain ⟨value, hvalue, n, hn, id, hid, -⟩ := hr
    obtain ⟨tdoc, htimestamp, hn⟩ := Deserialize.field_ok rfl hn
    obtain ⟨rdoc, hreplica, hid⟩ := Deserialize.field_ok rfl hid
    rw [readU64_ok hn] at htimestamp
    unfold ReplicaId.deserialize at hid
    simp only at hid
    split at hid
    · exact ⟨_, .lwwRegister hvalue htimestamp hreplica⟩
    · cases hid

/-- The value read is named by any strings at the identifier positions of its document. -/
theorem namedBy_of_read {D : Deserialize T} {kind : CrdtKind} {doc : Json} {v : CrdtValue T}
    {names : List String} (h : (CrdtValue.deserialize D kind).read doc = some v)
    (hnames : Names D kind doc names) : v.NamedBy names := by
  obtain ⟨v', hread, hnamed⟩ := read_of_names hnames
  cases h.symm.trans hread
  exact hnamed

end DeltaStream
