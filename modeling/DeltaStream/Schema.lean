import DeltaStream.Basic
import DeltaStream.Lib.Ieee
import DeltaStream.Lib.SortedMap
import Mathlib.Data.String.Basic

/-!
# Generic state types and their field deltas

Model of `src/schema.rs`.  A state type is given by what its `serde` implementations and
`serde_json` do with it (`Serde`); JSON values are trees whose numbers are `u64`, `i64` or
`f64`, and compare the way `serde_json::Value` does (`Value.eq`): floats by the language's
`==`.

* `Serde.Lawful` — what is documented about `serde_json`: states serialise to objects, and
  round trip through values and through bytes;
* `get?_patched` — a field delta turns the old object into one that holds, under every key,
  the new value, or the old one where the two compare equal;
* `field_delta_in_step` — so the serialised states agree exactly when values that compare
  equal are identical.
-/

set_option autoImplicit false

namespace DeltaStream

open SortedMap

/-! ## JSON values -/

/-- `serde_json::Number`; a float is its 64-bit pattern. -/
inductive Number where
  | posInt (n : UInt64)
  | negInt (n : Int64)
  | float (bits : UInt64)
  deriving DecidableEq

def Number.eq : Number → Number → Bool
  | .posInt a, .posInt b => a == b
  | .negInt a, .negInt b => a == b
  | .float a, .float b => Ieee.binary64.eq a.toNat b.toNat
  | _, _ => false

/-- `serde_json::Value`; an object is its entries in key order. -/
inductive Value where
  | null
  | bool (b : Bool)
  | number (n : Number)
  | string (s : String)
  | array (items : List Value)
  | object (fields : List (String × Value))

mutual

/-- `Value == Value`. -/
def Value.eq : Value → Value → Bool
  | .null, .null => true
  | .bool a, .bool b => a == b
  | .number a, .number b => a.eq b
  | .string a, .string b => a == b
  | .array as, .array bs => Value.eqItems as bs
  | .object as, .object bs => Value.eqFields as bs
  | _, _ => false

def Value.eqItems : List Value → List Value → Bool
  | [], [] => true
  | a :: as, b :: bs => Value.eq a b && Value.eqItems as bs
  | _, _ => false

def Value.eqFields : List (String × Value) → List (String × Value) → Bool
  | [], [] => true
  | (k, a) :: as, (l, b) :: bs => (k == l) && (Value.eq a b && Value.eqFields as bs)
  | _, _ => false

end

/-- `value.as_object()`. -/
def Value.asObject : Value → Option (List (String × Value))
  | .object fields => some fields
  | _ => none

structure JsonFieldDelta where
  changed : List (String × Value)
  removed : List String

/-- What `serde_json` does with a state type and with field deltas over it. -/
structure Serde (T : Type) where
  /-- `T::SCHEMA_NAME` -/
  schemaName : String
  toValue : T → Except DeltaError Value
  fromValue : Value → Except DeltaError T
  toVec : T → Except DeltaError Bytes
  fromSlice : Bytes → Except DeltaError T
  deltaToVec : JsonFieldDelta → Except DeltaError Bytes
  deltaFromSlice : Bytes → Except DeltaError JsonFieldDelta

variable {T : Type}

def Serde.schemaHash (S : Serde T) : UInt64 := fnv1a64 (utf8 S.schemaName)

def notAnObject : DeltaError := .invalidState "generic DeltaState must serialize as a JSON object"

namespace JsonFieldDelta

/-- `old.get(key) != Some(value)`. -/
def differs (old : List (String × Value)) (key : String) (value : Value) : Bool :=
  match get? old key with
  | none => true
  | some v => !(v.eq value)

/-- The loop over the new fields. -/
def changedFields (old new : List (String × Value)) : List (String × Value) :=
  new.foldl (fun changed e =>
    if differs old e.1 e.2 then SortedMap.insert changed e.1 e.2 else changed) []

/-- The loop over the old keys. -/
def removedKeys (old new : List (String × Value)) : List String :=
  (old.map Prod.fst).filter fun key => !SortedMap.contains new key

def between (S : Serde T) (old new : T) : Except DeltaError JsonFieldDelta :=
  match S.toValue old with
  | .error e => .error e
  | .ok oldValue =>
    match S.toValue new with
    | .error e => .error e
    | .ok newValue =>
      match oldValue.asObject with
      | none => .error notAnObject
      | some old =>
        match newValue.asObject with
        | none => .error notAnObject
        | some new => .ok ⟨changedFields old new, removedKeys old new⟩

def apply (S : Serde T) (d : JsonFieldDelta) (base : T) : Except DeltaError T :=
  match S.toValue base with
  | .error e => .error e
  | .ok value =>
    match value.asObject with
    | none => .error notAnObject
    | some fields => S.fromValue (.object (insertAll (eraseAll fields d.removed) d.changed))

end JsonFieldDelta

def encodeGenericSnapshot (S : Serde T) (state : T) : Except DeltaError Bytes := S.toVec state

def decodeGenericSnapshot (S : Serde T) (bytes : Bytes) : Except DeltaError T := S.fromSlice bytes

def encodeGenericDelta (S : Serde T) (delta : JsonFieldDelta) : Except DeltaError Bytes :=
  S.deltaToVec delta

def decodeGenericDelta (S : Serde T) (bytes : Bytes) : Except DeltaError JsonFieldDelta :=
  S.deltaFromSlice bytes

/-! ## What `serde_json` guarantees -/

namespace Serde

/-- States serialise to objects and are read back, through values and through bytes; so are the
    field deltas between them. -/
structure Lawful (S : Serde T) : Prop where
  object : ∀ state, ∃ fields, S.toValue state = .ok (.object fields) ∧ Sorted fields
  value : ∀ state v, S.toValue state = .ok v → S.fromValue v = .ok state
  bytes : ∀ state, ∃ b, S.toVec state = .ok b ∧ S.fromSlice b = .ok state
  delta : ∀ old new d, JsonFieldDelta.between S old new = .ok d →
    ∃ b, S.deltaToVec d = .ok b ∧ S.deltaFromSlice b = .ok d

/-- An object with the keys of a state's own, whose values are identical to its values or compare
    equal to them, is only read as this state if it is the state's own object. -/
def Distinguishes (S : Serde T) : Prop :=
  ∀ state fields others, S.toValue state = .ok (.object fields) → Sorted others →
    (∀ key, get? others key = get? fields key ∨
      ∃ a b, get? others key = some a ∧ get? fields key = some b ∧ a.eq b = true) →
    S.fromValue (.object others) = .ok state → others = fields

/-- Serialised bytes determine the state. -/
theorem Lawful.toVec_injective {S : Serde T} (h : S.Lawful) {s t : T} {b : Bytes}
    (hs : S.toVec s = .ok b) (ht : S.toVec t = .ok b) : s = t := by
  obtain ⟨bs, hbs, hrs⟩ := h.bytes s
  obtain ⟨bt, hbt, hrt⟩ := h.bytes t
  rw [hs] at hbs
  rw [ht] at hbt
  cases hbs
  cases hbt
  rw [hrs] at hrt
  exact Except.ok.inj hrt

/-- Under every key, the values of two states that compare equal are identical. -/
def SameWhereEqual (S : Serde T) (old new : T) : Prop :=
  ∀ oldFields newFields key a b, S.toValue old = .ok (.object oldFields) →
    S.toValue new = .ok (.object newFields) → get? oldFields key = some a →
    get? newFields key = some b → a.eq b = true → a = b

end Serde

/-! ## The patched object -/

namespace JsonFieldDelta

variable {oldFields newFields : List (String × Value)}

theorem get?_changed_foldl (old : List (String × Value)) (key : String) :
    ∀ {new : List (String × Value)} (acc : List (String × Value)), Sorted new →
      get? (new.foldl (fun changed e =>
        if differs old e.1 e.2 then SortedMap.insert changed e.1 e.2 else changed) acc) key =
      match get? new key with
      | some v => if differs old key v then some v else get? acc key
      | none => get? acc key
  | [], _, _ => rfl
  | (k, v) :: new, acc, hs => by
    obtain ⟨hlt, hrest⟩ := sorted_cons.mp hs
    rw [List.foldl_cons, get?_changed_foldl old key _ hrest, get?_cons]
    by_cases hk : key = k
    · subst hk
      rw [get?_none_of_lt hlt, if_pos rfl]
      simp only
      split
      · rw [get?_insert, if_pos rfl]
      · rfl
    · rw [if_neg hk]
      have hacc : get? (if differs old k v then SortedMap.insert acc k v else acc) key =
          get? acc key := by
        split
        · rw [get?_insert, if_neg hk]
        · rfl
      rw [hacc]

theorem get?_changedFields (hs : Sorted newFields) (key : String) :
    get? (changedFields oldFields newFields) key =
      match get? newFields key with
      | some v => if differs oldFields key v then some v else none
      | none => none :=
  get?_changed_foldl oldFields key [] hs

theorem changed_foldl_sorted (old : List (String × Value)) :
    ∀ (new acc : List (String × Value)), Sorted acc →
      Sorted (new.foldl (fun changed e =>
        if differs old e.1 e.2 then SortedMap.insert changed e.1 e.2 else changed) acc)
  | [], _, hs => hs
  | e :: new, acc, hs => by
    rw [List.foldl_cons]
    refine changed_foldl_sorted old new _ ?_
    split
    · exact insert_sorted hs e.1 e.2
    · exact hs

theorem changedFields_sorted (oldFields newFields : List (String × Value)) :
    Sorted (changedFields oldFields newFields) :=
  changed_foldl_sorted oldFields newFields [] sorted_nil

theorem mem_removedKeys (key : String) :
    key ∈ removedKeys oldFields newFields ↔
      (get? oldFields key).isSome = true ∧ get? newFields key = none := by
  unfold removedKeys SortedMap.contains
  rw [List.mem_filter, get?_isSome]
  cases get? newFields key <;> simp

/-- The object a delta makes of the old one. -/
def patched (oldFields newFields : List (String × Value)) : List (String × Value) :=
  insertAll (eraseAll oldFields (removedKeys oldFields newFields))
    (changedFields oldFields newFields)

/-- **Under every key** the patched object holds the new value, or the old one where the two
    compare equal. -/
theorem get?_patched (hnew : Sorted newFields) (key : String) :
    get? (patched oldFields newFields) key =
      match get? newFields key with
      | none => none
      | some v =>
        match get? oldFields key with
        | none => some v
        | some u => if u.eq v then some u else some v := by
  unfold patched
  rw [get?_insertAll (changedFields_sorted oldFields newFields), get?_changedFields hnew,
    get?_eraseAll]
  have hremoved := @mem_removedKeys oldFields newFields key
  unfold differs
  cases hn : get? newFields key with
  | none =>
    rw [hn] at hremoved
    cases ho : get? oldFields key with
    | none => simp
    | some u =>
      rw [ho] at hremoved
      simp [hremoved]
  | some v =>
    rw [hn] at hremoved
    have hkeep : key ∉ removedKeys oldFields newFields := fun h => by simpa using hremoved.mp h
    rw [if_neg hkeep]
    cases get? oldFields key with
    | none => rfl
    | some u =>
      by_cases huv : u.eq v = true
      · simp [huv]
      · simp [huv]

theorem patched_sorted (hold : Sorted oldFields) : Sorted (patched oldFields newFields) :=
  insertAll_sorted (eraseAll_sorted hold _) _

/-- Under every key the patched object has the new value or one that compares equal. -/
theorem patched_similar (hnew : Sorted newFields) (key : String) :
    get? (patched oldFields newFields) key = get? newFields key ∨
      ∃ a b, get? (patched oldFields newFields) key = some a ∧ get? newFields key = some b ∧
        a.eq b = true := by
  rw [get?_patched hnew]
  cases get? newFields key with
  | none => exact .inl rfl
  | some v =>
    cases get? oldFields key with
    | none => exact .inl rfl
    | some u =>
      simp only
      split
      · rename_i huv
        exact .inr ⟨u, v, rfl, rfl, huv⟩
      · exact .inl rfl

/-- The patched object is the new one exactly when equal values are identical. -/
theorem patched_eq_iff (hold : Sorted oldFields) (hnew : Sorted newFields) :
    patched oldFields newFields = newFields ↔
      ∀ key a b, get? oldFields key = some a → get? newFields key = some b → a.eq b = true →
        a = b := by
  constructor
  · intro heq key a b ha hb hab
    have hget := @get?_patched oldFields newFields hnew key
    rw [heq, ha, hb] at hget
    simp only [hab, if_true] at hget
    exact (Option.some.inj hget).symm
  · intro hsame
    refine ext (patched_sorted hold) hnew fun key => ?_
    rw [get?_patched hnew]
    cases hb : get? newFields key with
    | none => rfl
    | some v =>
      simp only
      cases ha : get? oldFields key with
      | none => rfl
      | some u =>
        simp only
        split
        · rename_i huv
          rw [hsame key u v ha hb huv]
        · rfl

/-- Applying the delta between two states reads the patched object. -/
theorem between_apply {S : Serde T} {old new : T} (hold : S.toValue old = .ok (.object oldFields))
    (hnew : S.toValue new = .ok (.object newFields)) :
    ∃ d, between S old new = .ok d ∧
      d.apply S old = S.fromValue (.object (patched oldFields newFields)) := by
  refine ⟨⟨changedFields oldFields newFields, removedKeys oldFields newFields⟩, ?_, ?_⟩
  · unfold between
    rw [hold, hnew]
    rfl
  · unfold apply
    rw [hold]
    rfl

end JsonFieldDelta

/-! ## Staying in step -/

/-- The delta between two states, encoded, decoded and applied to the old one, gives a state
    with the bytes of the new one. -/
def FieldDeltaInStep (S : Serde T) (old new : T) : Prop :=
  ∃ delta sent d state bytes, JsonFieldDelta.between S old new = .ok delta ∧
    encodeGenericDelta S delta = .ok sent ∧ decodeGenericDelta S sent = .ok d ∧
    d.apply S old = .ok state ∧ encodeGenericSnapshot S state = .ok bytes ∧
    encodeGenericSnapshot S new = .ok bytes

open JsonFieldDelta in
/-- Being in step is reading the patched object as the new state. -/
theorem fieldDeltaInStep_iff {S : Serde T} (hS : S.Lawful) {old new : T}
    {oldFields newFields : List (String × Value)} (hold : S.toValue old = .ok (.object oldFields))
    (hnew : S.toValue new = .ok (.object newFields)) :
    FieldDeltaInStep S old new ↔
      S.fromValue (.object (patched oldFields newFields)) = .ok new := by
  obtain ⟨delta, hbetween, happly⟩ := JsonFieldDelta.between_apply hold hnew
  obtain ⟨sent, hsent, hread⟩ := hS.delta old new delta hbetween
  constructor
  · rintro ⟨delta', sent', d, state, bytes, hb, hs, hd, ha, hstate, hbytes⟩
    rw [hbetween] at hb
    cases hb
    rw [encodeGenericDelta, hsent] at hs
    cases hs
    rw [decodeGenericDelta, hread] at hd
    cases hd
    rw [← hS.toVec_injective hstate hbytes, ← happly, ha]
  · intro hpatched
    obtain ⟨bytes, hbytes, -⟩ := hS.bytes new
    exact ⟨delta, sent, delta, new, bytes, hbetween, hsent, hread, happly.trans hpatched, hbytes,
      hbytes⟩

open JsonFieldDelta in
theorem sameWhereEqual_iff {S : Serde T} {old new : T}
    {oldFields newFields : List (String × Value)} (hold : S.toValue old = .ok (.object oldFields))
    (hnew : S.toValue new = .ok (.object newFields)) (hso : Sorted oldFields)
    (hsn : Sorted newFields) :
    S.SameWhereEqual old new ↔ patched oldFields newFields = newFields := by
  rw [patched_eq_iff hso hsn]
  constructor
  · intro h key a b ha hb hab
    exact h oldFields newFields key a b hold hnew ha hb hab
  · intro h os ns key a b ho hn ha hb hab
    rw [hold] at ho
    rw [hnew] at hn
    cases ho
    cases hn
    exact h key a b ha hb hab

open JsonFieldDelta in
/-- **Field deltas keep the serialised states in step** when the values that compare equal are
    identical, and only then if the deserializer tells such values apart under the keys of a
    state. -/
theorem field_delta_in_step {S : Serde T} (hS : S.Lawful) (old new : T) :
    (S.SameWhereEqual old new → FieldDeltaInStep S old new) ∧
      (S.Distinguishes → FieldDeltaInStep S old new → S.SameWhereEqual old new) := by
  obtain ⟨oldFields, hold, hso⟩ := hS.object old
  obtain ⟨newFields, hnew, hsn⟩ := hS.object new
  rw [fieldDeltaInStep_iff hS hold hnew, sameWhereEqual_iff hold hnew hso hsn]
  constructor
  · intro hpatched
    rw [hpatched]
    exact hS.value new _ hnew
  · intro hdistinguishes hstep
    exact hdistinguishes new _ _ hnew (patched_sorted hso) (patched_similar hsn) hstep

/-! ## A field that holds a zero -/

/-- A state with one `f64` field: `0.0`, `-0.0` or `1.0`. -/
inductive Reading where
  | zero
  | negativeZero
  | one
  deriving DecidableEq

namespace Reading

def bits : Reading → UInt64
  | .zero => 0
  | .negativeZero => 0x8000000000000000
  | .one => 0x3FF0000000000000

def fields (r : Reading) : List (String × Value) := [("x", .number (.float r.bits))]

def text : Reading → Bytes
  | .zero => utf8 "\x7b\"x\":0.0\x7d"
  | .negativeZero => utf8 "\x7b\"x\":-0.0\x7d"
  | .one => utf8 "\x7b\"x\":1.0\x7d"

def emptyDelta : Bytes := utf8 "\x7b\"changed\":\x7b\x7d,\"removed\":[]\x7d"

/-- The delta that changes the field. -/
def changedTo (r : Reading) : Bytes :=
  utf8 "\x7b\"changed\":" ++ r.text ++ utf8 ",\"removed\":[]\x7d"

def unreadable : DeltaError := .json "unexpected value"

/-- The one of the three that passes a test. -/
def find (test : Reading → Bool) : Except DeltaError Reading :=
  match [zero, negativeZero, one].find? test with
  | some r => .ok r
  | none => .error unreadable

/-- Reading an `f64`, from a float or from an integer. -/
def ofNumber : Number → Except DeltaError Reading
  | .float bits => find fun r => r.bits = bits
  | .posInt n => find fun r => (r = .zero && n = 0) || (r = .one && n = 1)
  | .negInt _ => .error unreadable

/-- The derived implementations, as far as these three states and the deltas between them go.
    Keys other than `x` are ignored. -/
def serde : Serde Reading where
  schemaName := "reading/v1"
  toValue r := .ok (.object r.fields)
  fromValue
    | .object fields =>
      match get? fields "x" with
      | some (.number n) => ofNumber n
      | _ => .error unreadable
    | _ => .error unreadable
  toVec r := .ok r.text
  fromSlice bytes := find fun r => bytes = r.text
  deltaToVec
    | ⟨[], []⟩ => .ok emptyDelta
    | ⟨[("x", .number (.float bits))], []⟩ => (find fun r => r.bits = bits).map changedTo
    | _ => .error unreadable
  deltaFromSlice bytes :=
    if bytes = emptyDelta then .ok ⟨[], []⟩
    else (find fun r => bytes = r.changedTo).map fun r => ⟨r.fields, []⟩

/-- The field counts as changed unless it stays `1.0` or stays a zero. -/
theorem between_spec (old new : Reading) : JsonFieldDelta.between serde old new =
    .ok ⟨if old = .one ↔ new = .one then [] else new.fields, []⟩ := by
  cases old <;> cases new <;> rfl

theorem fields_sorted (r : Reading) : Sorted r.fields := by
  simp [fields, Sorted]

theorem serde_lawful : serde.Lawful where
  object r := ⟨r.fields, rfl, r.fields_sorted⟩
  value r v hv := by
    cases hv
    cases r <;> rfl
  bytes r := by
    refine ⟨r.text, rfl, ?_⟩
    cases r <;> decide +kernel
  delta old new d hd := by
    rw [between_spec] at hd
    cases hd
    split
    · exact ⟨emptyDelta, rfl, rfl⟩
    · refine ⟨new.changedTo, ?_, ?_⟩
      · cases new <;> rfl
      · cases new <;> rfl

theorem get?_fields {r : Reading} {key : String} {v : Value} (h : get? r.fields key = some v) :
    key = "x" ∧ v = .number (.float r.bits) := by
  unfold fields at h
  rw [get?_cons] at h
  split at h
  · exact ⟨‹_›, (Option.some.inj h).symm⟩
  · cases h

theorem find_ok {test : Reading → Bool} {r : Reading} (h : find test = .ok r) :
    test r = true := by
  unfold find at h
  split at h
  · rename_i found hfound
    cases h
    exact List.find?_some hfound
  · cases h

theorem ofNumber_float {bits : UInt64} {r : Reading} (h : ofNumber (.float bits) = .ok r) :
    r.bits = bits :=
  of_decide_eq_true (find_ok h)

theorem serde_distinguishes : serde.Distinguishes := by
  intro r fields others hr hsorted hsimilar hread
  cases hr
  refine SortedMap.ext hsorted r.fields_sorted fun key => ?_
  rcases hsimilar key with hsame | ⟨a, b, ha, hb, hab⟩
  · exact hsame
  · obtain ⟨rfl, rfl⟩ := get?_fields hb
    -- only a float compares equal to a float, and each of the three is read from its own bits
    obtain ⟨bits, rfl⟩ : ∃ bits, a = .number (.float bits) := by
      cases a with
      | number n =>
        cases n with
        | float bits => exact ⟨bits, rfl⟩
        | posInt n => cases hab
        | negInt n => cases hab
      | _ => cases hab
    have hread : (match get? others "x" with
      | some (.number n) => ofNumber n
      | _ => .error unreadable) = .ok r := hread
    rw [ha] at hread
    rw [ha, hb, ofNumber_float hread]

end Reading

/-- From `0.0` to `1.0` the states stay in step, and from `0.0` to `-0.0` they do not. -/
theorem field_delta_in_step_reading : FieldDeltaInStep Reading.serde .zero .one ∧
    ¬FieldDeltaInStep Reading.serde .zero .negativeZero := by
  constructor
  · refine (field_delta_in_step Reading.serde_lawful .zero .one).1 ?_
    intro os ns key a b ho hn ha hb hab
    cases ho
    cases hn
    obtain ⟨-, rfl⟩ := Reading.get?_fields ha
    obtain ⟨-, rfl⟩ := Reading.get?_fields hb
    cases hab
  · intro hstep
    have hsame := (field_delta_in_step Reading.serde_lawful .zero .negativeZero).2
      Reading.serde_distinguishes hstep
    cases hsame _ _ "x" _ _ rfl rfl rfl rfl rfl

/-- From `0.0` to `-0.0` the delta is empty and the receiver keeps `0.0`. -/
theorem field_delta_opposite_zeros : ¬FieldDeltaInStep Reading.serde .zero .negativeZero := by
  rw [fieldDeltaInStep_iff Reading.serde_lawful rfl rfl]
  intro h
  cases h

end DeltaStream
