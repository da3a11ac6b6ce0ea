import DeltaStream.CrdtDecode
import DeltaStream.Lib.Run

/-!
# Replica identifiers over a run

A program makes calls of the public functions of `src/crdt`, each on values it has from earlier
calls.

* `CrdtCall.values_nonempty` — no call but `decode_crdt` gives an empty identifier that it was not
  given;
* `CrdtCall.decoded_nonempty_iff` — `decode_crdt` gives one exactly when the document names one;
* `replica_ids_nonempty_iff` — no value of a run has an empty identifier exactly when no document
  decoded in it names one.
-/

set_option autoImplicit false

namespace DeltaStream

open SortedMap

variable {T : Type}

/-- The public calls that return or change a value with identifiers. -/
inductive CrdtCall (T : Type) where
  | newReplicaId (value : String)
  | newGCounter
  | incrementGCounter (self : GCounter) (replica : ReplicaId) (amount : UInt64)
  | components (self : GCounter)
  | mergeGCounter (self other : GCounter)
  | newPNCounter
  | incrementPNCounter (self : PNCounter) (replica : ReplicaId) (amount : UInt64)
  | decrementPNCounter (self : PNCounter) (replica : ReplicaId) (amount : UInt64)
  | positive (self : PNCounter)
  | negative (self : PNCounter)
  | mergePNCounter (self other : PNCounter)
  | newLwwRegister (value : T) (timestamp : UInt64) (replica : ReplicaId)
  | replica (self : LwwRegister T)
  | assign (self : LwwRegister T) (value : T) (timestamp : UInt64) (replica : ReplicaId)
  | mergeLwwRegister (self other : LwwRegister T)
  | decodeCrdt (kind : CrdtKind) (bytes : Bytes) (config : CrdtDecodeConfig)

namespace CrdtCall

/-- The values a call is made on. -/
def arguments : CrdtCall T → List (CrdtValue T)
  | newReplicaId _ | newGCounter | newPNCounter | decodeCrdt _ _ _ => []
  | incrementGCounter c id _ => [.gcounter c, .replicaId id]
  | components c => [.gcounter c]
  | mergeGCounter c other => [.gcounter c, .gcounter other]
  | incrementPNCounter c id _ | decrementPNCounter c id _ => [.pncounter c, .replicaId id]
  | positive c | negative c => [.pncounter c]
  | mergePNCounter c other => [.pncounter c, .pncounter other]
  | newLwwRegister _ _ id => [.replicaId id]
  | replica r => [.lwwRegister r]
  | assign r _ _ id => [.lwwRegister r, .replicaId id]
  | mergeLwwRegister r other => [.lwwRegister r, .lwwRegister other]

/-- The values it returns or leaves in `self`, also where it fails. -/
def values (parse : Bytes → Option Json) (D : Deserialize T) : CrdtCall T → List (CrdtValue T)
  | newReplicaId value => (ReplicaId.new value).toOption.toList.map .replicaId
  | newGCounter => [.gcounter .new]
  | incrementGCounter c id amount => [.gcounter (c.increment id amount).2]
  | components c => c.ids.map .replicaId
  | mergeGCounter c other => [.gcounter (c.merge other).2]
  | newPNCounter => [.pncounter .new]
  | incrementPNCounter c id amount => [.pncounter (c.increment id amount).2]
  | decrementPNCounter c id amount => [.pncounter (c.decrement id amount).2]
  | positive c => [.gcounter c.positive]
  | negative c => [.gcounter c.negative]
  | mergePNCounter c other => [.pncounter (c.merge other).2]
  | newLwwRegister value timestamp id => [.lwwRegister (.new value timestamp id)]
  | replica r => [.replicaId r.replica]
  | assign r value timestamp id => [.lwwRegister (r.assign value timestamp id).2]
  | mergeLwwRegister r other => [.lwwRegister (r.merge other).2]
  | decodeCrdt kind bytes config =>
    (DeltaStream.decodeCrdt parse (CrdtValue.deserialize D kind) bytes config).toOption.toList

/-- A call on values at hand; what it gives joins them. -/
def Step (parse : Bytes → Option Json) (D : Deserialize T) (held : List (CrdtValue T))
    (call : CrdtCall T) (held' : List (CrdtValue T)) : Prop :=
  (∀ v ∈ call.arguments, v ∈ held) ∧ held' = held ++ call.values parse D

/-- The call decodes, within its limit, a document of the type asked for that names an empty
    identifier. -/
def ReadsEmptyId (parse : Bytes → Option Json) (D : Deserialize T) : CrdtCall T → Prop
  | decodeCrdt kind bytes config =>
    bytes.length ≤ config.maxEncodedBytes.toNat ∧
      ∃ doc names, parse bytes = some doc ∧ Names D kind doc names ∧ "" ∈ names
  | _ => False

end CrdtCall

/-- No identifier in the counter is empty. -/
def GCounter.IdsNonempty (c : GCounter) : Prop := ∀ id ∈ c.ids, id.value ≠ ""

/-- No identifier in the value is empty. -/
def CrdtValue.IdsNonempty (v : CrdtValue T) : Prop := ∀ id ∈ v.ids, id.value ≠ ""

/-! ## Where identifiers come from -/

theorem ids_entry {c : GCounter} {id q : ReplicaId} (h : q ∈ (c.entry id).ids) :
    q = id ∨ q ∈ c.ids := by
  obtain ⟨e, he, rfl⟩ := List.mem_map.mp h
  rcases mem_orInsert he with rfl | he
  · exact .inl rfl
  · exact .inr (List.mem_map_of_mem he)

theorem ids_entry_set {c : GCounter} {id q : ReplicaId} {n : UInt64}
    (h : q ∈ ((c.entry id).set id n).ids) : q = id ∨ q ∈ c.ids := by
  rcases (ids_set _ _ _ _).mp h with rfl | h
  · exact .inl rfl
  · exact ids_entry h

theorem ids_increment {c : GCounter} {id q : ReplicaId} {amount : UInt64}
    (h : q ∈ (c.increment id amount).2.ids) : q = id ∨ q ∈ c.ids := by
  unfold GCounter.increment at h
  split at h
  · exact ids_entry h
  · exact ids_entry_set h

theorem ids_mergeEntry {s : Bool × GCounter} {e : ReplicaId × UInt64} {q : ReplicaId}
    (h : q ∈ (GCounter.mergeEntry s e).2.ids) : q = e.1 ∨ q ∈ s.2.ids := by
  unfold GCounter.mergeEntry at h
  split at h
  · exact ids_entry_set h
  · exact ids_entry h

theorem ids_foldl {q : ReplicaId} : ∀ (es : List (ReplicaId × UInt64)) (s : Bool × GCounter),
    q ∈ (es.foldl GCounter.mergeEntry s).2.ids → q ∈ s.2.ids ∨ q ∈ es.map Prod.fst
  | [], _, h => .inl h
  | e :: es, s, h => by
    rcases ids_foldl es _ h with h | h
    · rcases ids_mergeEntry h with rfl | h
      · exact .inr List.mem_cons_self
      · exact .inl h
    · exact .inr (List.mem_cons_of_mem _ h)

theorem ids_merge {a b : GCounter} {q : ReplicaId} (h : q ∈ (a.merge b).2.ids) :
    q ∈ a.ids ∨ q ∈ b.ids :=
  ids_foldl b.components (false, a) h

theorem GCounter.IdsNonempty.increment {c : GCounter} {id : ReplicaId} (h : c.IdsNonempty)
    (hid : id.value ≠ "") (amount : UInt64) : (c.increment id amount).2.IdsNonempty := by
  intro q hq
  rcases ids_increment hq with rfl | hq
  · exact hid
  · exact h q hq

theorem GCounter.IdsNonempty.merge {a b : GCounter} (ha : a.IdsNonempty) (hb : b.IdsNonempty) :
    (a.merge b).2.IdsNonempty := by
  intro q hq
  rcases ids_merge hq with hq | hq
  · exact ha q hq
  · exact hb q hq

theorem assign_nonempty {r : LwwRegister T} {id : ReplicaId} (hr : r.replica.value ≠ "")
    (hid : id.value ≠ "") (value : T) (timestamp : UInt64) :
    (r.assign value timestamp id).2.replica.value ≠ "" := by
  unfold LwwRegister.assign
  split
  · exact hid
  · exact hr

theorem ReplicaId.new_nonempty {value : String} {id : ReplicaId}
    (h : ReplicaId.new value = .ok id) : id.value ≠ "" := by
  unfold ReplicaId.new at h
  split at h
  · cases h
  · rename_i hne
    cases h
    exact hne

namespace CrdtValue

@[simp] theorem idsNonempty_replicaId (id : ReplicaId) :
    (replicaId id : CrdtValue T).IdsNonempty ↔ id.value ≠ "" := by
  simp [IdsNonempty, ids]

@[simp] theorem idsNonempty_gcounter (c : GCounter) :
    (gcounter c : CrdtValue T).IdsNonempty ↔ c.IdsNonempty := Iff.rfl

@[simp] theorem idsNonempty_pncounter (c : PNCounter) :
    (pncounter c : CrdtValue T).IdsNonempty ↔
      c.positive.IdsNonempty ∧ c.negative.IdsNonempty := by
  simp only [IdsNonempty, ids, GCounter.IdsNonempty, List.mem_append, or_imp, forall_and]

@[simp] theorem idsNonempty_lwwRegister (r : LwwRegister T) :
    (lwwRegister r).IdsNonempty ↔ r.replica.value ≠ "" := by
  simp [IdsNonempty, ids]

theorem NamedBy.idsNonempty_iff {v : CrdtValue T} {names : List String} (h : v.NamedBy names) :
    v.IdsNonempty ↔ "" ∉ names := by
  rw [← h ""]
  constructor
  · exact fun hv hmem => hv _ hmem rfl
  · rintro hnot ⟨s⟩ hid rfl
    exact hnot hid

/-- The value read from a document has an empty identifier exactly when the document names one. -/
theorem idsNonempty_of_read {D : Deserialize T} {kind : CrdtKind} {doc : Json} {v : CrdtValue T}
    (h : (deserialize D kind).read doc = some v) :
    v.IdsNonempty ↔ ∀ names, Names D kind doc names → "" ∉ names := by
  constructor
  · intro hv names hnames
    exact (namedBy_of_read h hnames).idsNonempty_iff.mp hv
  · intro hall
    obtain ⟨names, hnames⟩ := names_of_read h
    exact (namedBy_of_read h hnames).idsNonempty_iff.mpr (hall names hnames)

end CrdtValue

theorem GCounter.new_nonempty : GCounter.new.IdsNonempty := by
  simp [GCounter.IdsNonempty, GCounter.ids, GCounter.new]

namespace CrdtCall

variable {parse : Bytes → Option Json} {D : Deserialize T}

/-- **A call other than `decode_crdt`** gives no empty identifier unless it was given one. -/
theorem values_nonempty {call : CrdtCall T} (hargs : ∀ v ∈ call.arguments, v.IdsNonempty)
    (hcall : ∀ kind bytes config, call ≠ decodeCrdt kind bytes config) :
    ∀ v ∈ call.values parse D, v.IdsNonempty := by
  cases call with
  | newReplicaId value =>
    cases hnew : ReplicaId.new value with
    | error e => simp [values, hnew, Except.toOption]
    | ok id => simpa [values, hnew, Except.toOption] using ReplicaId.new_nonempty hnew
  | newGCounter => simpa [values] using GCounter.new_nonempty
  | incrementGCounter c id amount =>
    have h : c.IdsNonempty ∧ id.value ≠ "" := by simpa [arguments] using hargs
    simpa [values] using h.1.increment h.2 amount
  | components c => simpa [values, arguments, GCounter.IdsNonempty] using hargs
  | mergeGCounter c other =>
    have h : c.IdsNonempty ∧ other.IdsNonempty := by simpa [arguments] using hargs
    simpa [values] using h.1.merge h.2
  | newPNCounter => simpa [values, PNCounter.new] using GCounter.new_nonempty
  | incrementPNCounter c id amount =>
    have h : (c.positive.IdsNonempty ∧ c.negative.IdsNonempty) ∧ id.value ≠ "" := by
      simpa [arguments] using hargs
    simpa [values, PNCounter.increment] using ⟨h.1.1.increment h.2 amount, h.1.2⟩
  | decrementPNCounter c id amount =>
    have h : (c.positive.IdsNonempty ∧ c.negative.IdsNonempty) ∧ id.value ≠ "" := by
      simpa [arguments] using hargs
    simpa [values, PNCounter.decrement] using ⟨h.1.1, h.1.2.increment h.2 amount⟩
  | positive c =>
    have h : c.positive.IdsNonempty ∧ c.negative.IdsNonempty := by simpa [arguments] using hargs
    simpa [values] using h.1
  | negative c =>
    have h : c.positive.IdsNonempty ∧ c.negative.IdsNonempty := by simpa [arguments] using hargs
    simpa [values] using h.2
  | mergePNCounter c other =>
    have h : (c.positive.IdsNonempty ∧ c.negative.IdsNonempty) ∧
        other.positive.IdsNonempty ∧ other.negative.IdsNonempty := by
      simpa [arguments] using hargs
    simpa [values, PNCounter.merge] using ⟨h.1.1.merge h.2.1, h.1.2.merge h.2.2⟩
  | newLwwRegister value timestamp id =>
    have h : id.value ≠ "" := by simpa [arguments] using hargs
    simpa [values, LwwRegister.new] using h
  | replica r =>
    have h : r.replica.value ≠ "" := by simpa [arguments] using hargs
    simpa [values] using h
  | assign r value timestamp id =>
    have h : r.replica.value ≠ "" ∧ id.value ≠ "" := by simpa [arguments] using hargs
    simpa [values] using assign_nonempty h.1 h.2 value timestamp
  | mergeLwwRegister r other =>
    have h : r.replica.value ≠ "" ∧ other.replica.value ≠ "" := by
      simpa [arguments] using hargs
    simpa [values, LwwRegister.merge] using
      assign_nonempty h.1 h.2 other.value other.timestamp
  | decodeCrdt kind bytes config => exact absurd rfl (hcall kind bytes config)

/-- **What `decode_crdt` gives** has an empty identifier exactly when the document names one. -/
theorem decoded_nonempty_iff {kind : CrdtKind} {bytes : Bytes} {config : CrdtDecodeConfig} :
    (∀ v ∈ (decodeCrdt kind bytes config).values parse D, v.IdsNonempty) ↔
      ¬(decodeCrdt kind bytes config : CrdtCall T).ReadsEmptyId parse D := by
  by_cases hlen : bytes.length ≤ config.maxEncodedBytes.toNat
  · have hnot : ¬bytes.length > config.maxEncodedBytes.toNat := Nat.not_lt.mpr hlen
    simp only [values, ReadsEmptyId, DeltaStream.decodeCrdt, if_neg hnot, hlen, true_and]
    cases hparse : parse bytes with
    | none => simp [Except.toOption]
    | some doc =>
      cases hread : (CrdtValue.deserialize D kind).read doc with
      | none =>
        have hnames : ∀ names, ¬Names D kind doc names := by
          intro names h
          obtain ⟨v, hv, -⟩ := read_of_names h
          rw [hread] at hv
          cases hv
        simp [hread, hnames, Except.toOption]
      | some v =>
        simp only [Option.bind_some, hread, Except.toOption, Option.toList_some,
          List.mem_singleton, forall_eq, Option.some.injEq, exists_and_left, exists_eq_left',
          not_exists, not_and]
        exact CrdtValue.idsNonempty_of_read hread
  · have hgt : bytes.length > config.maxEncodedBytes.toNat := Nat.lt_of_not_le hlen
    simp [values, ReadsEmptyId, DeltaStream.decodeCrdt, hlen, hgt, Except.toOption]

/-- One call. -/
theorem step_nonempty_iff {held held' : List (CrdtValue T)} {call : CrdtCall T}
    (h : Step parse D held call held') :
    (∀ v ∈ held', v.IdsNonempty) ↔
      (∀ v ∈ held, v.IdsNonempty) ∧ ¬call.ReadsEmptyId parse D := by
  obtain ⟨hargs, rfl⟩ := h
  simp only [List.mem_append, or_imp, forall_and]
  by_cases hcall : ∃ kind bytes config, call = decodeCrdt kind bytes config
  · obtain ⟨kind, bytes, config, rfl⟩ := hcall
    rw [decoded_nonempty_iff]
  · have hnot : ¬call.ReadsEmptyId parse D := by
      intro hreads
      cases call with
      | decodeCrdt kind bytes config => exact hcall ⟨kind, bytes, config, rfl⟩
      | _ => exact hreads
    refine and_congr_right fun hheld => ⟨fun _ => hnot, fun _ => ?_⟩
    exact values_nonempty (fun v hv => hheld v (hargs v hv))
      fun kind bytes config heq => hcall ⟨kind, bytes, config, heq⟩

end CrdtCall

/-- **Exactly which runs** have only non-empty identifiers: those in which no `decode_crdt` reads a
    document that names an empty one. -/
theorem replica_ids_nonempty_iff (parse : Bytes → Option Json) (D : Deserialize T)
    {calls : List (CrdtCall T)} {held : List (CrdtValue T)}
    (hrun : Runs.Run (CrdtCall.Step parse D) [] calls held) :
    (∀ v ∈ held, v.IdsNonempty) ↔ ∀ call ∈ calls, ¬call.ReadsEmptyId parse D :=
  hrun.holds_iff (fun _ _ _ h => CrdtCall.step_nonempty_iff h) (by simp)

/-! ## An empty identifier -/

/-- What `serde_json` makes of two quotes; no other text is needed. -/
def parseQuotes (bytes : Bytes) : Option Json :=
  if bytes = [0x22, 0x22] then some (.string "") else none

/-- The identifier `ReplicaId::new` refuses is decoded from two quotes. -/
theorem empty_replica_id_decoded :
    ∃ held, Runs.Run (CrdtCall.Step parseQuotes readU64) []
        [.decodeCrdt .replicaId [0x22, 0x22] .default] held ∧
      ¬∀ v ∈ held, v.IdsNonempty := by
  refine ⟨[.replicaId ⟨""⟩], ?_, by simp⟩
  exact Runs.Run.start.step ⟨by simp [CrdtCall.arguments], rfl⟩

/-- A run that makes an identifier and decodes one. -/
theorem replica_ids_of_two :
    (∀ v ∈ ([.replicaId ⟨"a"⟩, .replicaId ⟨""⟩] : List (CrdtValue UInt64)), v.IdsNonempty) ↔
      ∀ call ∈ [CrdtCall.newReplicaId "a", .decodeCrdt .replicaId [0x22, 0x22] .default],
        ¬call.ReadsEmptyId parseQuotes readU64 :=
  replica_ids_nonempty_iff parseQuotes readU64
    ((Runs.Run.start.step ⟨by simp [CrdtCall.arguments], rfl⟩).step
      ⟨by simp [CrdtCall.arguments], rfl⟩)

end DeltaStream
