import DeltaStream.Schema

/-!
# Payloads as text

Model of the text the WebSocket and PubNub transports carry payloads in: `hex_encode`,
`hex_decode` of `src/transport/websocket.rs` and `src/transport/pubnub.rs`, and the envelope of
the latter.

* `nib_ok_iff`, `hexPairs_ok_iff` — a digit, and a sequence of pairs of digits, read;
* `hexDecode_ok_iff` — exactly the hexadecimal forms of the payload are read as it, in either case
  of the letters;
* `payload_text` — and so by both transports.
-/

set_option autoImplicit false

namespace DeltaStream

/-! ## Digits -/

/-- `b"0123456789abcdef"`. -/
def HEX : List Char :=
  ['0', '1', '2', '3', '4', '5', '6', '7', '8', '9', 'a', 'b', 'c', 'd', 'e', 'f']

def hexChar (index : UInt8) : Char := HEX.getD index.toNat '0'

/-- The body of the loop. -/
def pushByte (out : String) (b : UInt8) : String :=
  (out.push (hexChar (b >>> 4))).push (hexChar (b &&& 15))

def hexEncode (bytes : Bytes) : String := bytes.foldl pushByte ""

/-- `invalid` is the message for what is no digit. -/
def nib (invalid : String) (b : UInt8) : Except String UInt8 :=
  if 48 ≤ b ∧ b ≤ 57 then .ok (b - 48)
  else if 97 ≤ b ∧ b ≤ 102 then .ok (b - 97 + 10)
  else if 65 ≤ b ∧ b ≤ 70 then .ok (b - 65 + 10)
  else .error invalid

/-- Over `chunks_exact(2)`, up to the first error. -/
def hexPairs (invalid : String) : Bytes → Except String Bytes
  | high :: low :: rest =>
    match nib invalid high with
    | .error e => .error e
    | .ok h =>
      match nib invalid low with
      | .error e => .error e
      | .ok l =>
        match hexPairs invalid rest with
        | .error e => .error e
        | .ok out => .ok ((h <<< 4 ||| l) :: out)
  | _ => .ok []

/-- `odd` is the message for an odd length. -/
def hexDecode (odd invalid : String) (value : String) : Except String Bytes :=
  if (utf8 value).length % 2 ≠ 0 then .error odd else hexPairs invalid (utf8 value)

/-! ## What is written -/

/-- The byte of a digit below sixteen. -/
def digitByte (d : UInt8) : UInt8 := if d < 10 then 48 + d else 87 + d

/-- ASCII letters `A` to `F` in lower case. -/
def lower (b : UInt8) : UInt8 := if 65 ≤ b ∧ b ≤ 70 then b + 32 else b

def pairBytes (b : UInt8) : Bytes := [digitByte (b >>> 4), digitByte (b &&& 15)]

theorem utf8_push (s : String) (c : Char) :
    utf8 (s.push c) = utf8 s ++ String.utf8EncodeChar c := by
  unfold utf8
  rw [String.toByteArray_push]
  simp [List.utf8Encode]

theorem byte_fin (b : UInt8) : ∃ i : Fin 256, b = UInt8.ofNat i :=
  ⟨⟨b.toNat, b.toNat_lt⟩, UInt8.ofNat_toNat.symm⟩

theorem digit_fin {d : UInt8} (hd : d < 16) : ∃ j : Fin 16, d = UInt8.ofNat j :=
  ⟨⟨d.toNat, UInt8.lt_iff_toNat_lt.mp hd⟩, UInt8.ofNat_toNat.symm⟩

theorem utf8_hexChar {d : UInt8} (hd : d < 16) :
    String.utf8EncodeChar (hexChar d) = [digitByte d] := by
  have hall : ∀ j : Fin 16, String.utf8EncodeChar (hexChar (UInt8.ofNat j)) =
      [digitByte (UInt8.ofNat j)] := by decide
  obtain ⟨j, rfl⟩ := digit_fin hd
  exact hall j

theorem high_lt (b : UInt8) : b >>> 4 < 16 := by
  have h := b.toNat_lt
  rw [UInt8.lt_iff_toNat_lt, UInt8.toNat_shiftRight]
  show b.toNat >>> 4 < 16
  rw [Nat.shiftRight_eq_div_pow]
  omega

theorem low_lt (b : UInt8) : b &&& 15 < 16 := by
  rw [UInt8.lt_iff_toNat_lt, UInt8.toNat_and]
  show b.toNat &&& 15 < 16
  exact Nat.lt_succ_of_le Nat.and_le_right

theorem utf8_foldl_pushByte (bytes : Bytes) :
    ∀ out, utf8 (bytes.foldl pushByte out) = utf8 out ++ bytes.flatMap pairBytes := by
  induction bytes with
  | nil =>
    intro out
    simp
  | cons b rest ih =>
    intro out
    rw [List.foldl_cons, ih, List.flatMap_cons]
    unfold pushByte pairBytes
    rw [utf8_push, utf8_push, utf8_hexChar (high_lt b), utf8_hexChar (low_lt b)]
    simp

theorem utf8_hexEncode (bytes : Bytes) : utf8 (hexEncode bytes) = bytes.flatMap pairBytes :=
  utf8_foldl_pushByte bytes ""

/-! ## What is read -/

/-- The message aside. -/
theorem nib_message {invalid other : String} {b d : UInt8} (h : nib invalid b = .ok d) :
    nib other b = .ok d := by
  unfold nib at h ⊢
  by_cases hdecimal : 48 ≤ b ∧ b ≤ 57
  · rw [if_pos hdecimal] at h ⊢
    exact h
  rw [if_neg hdecimal] at h ⊢
  by_cases hsmall : 97 ≤ b ∧ b ≤ 102
  · rw [if_pos hsmall] at h ⊢
    exact h
  rw [if_neg hsmall] at h ⊢
  by_cases hcapital : 65 ≤ b ∧ b ≤ 70
  · rw [if_pos hcapital] at h ⊢
    exact h
  · rw [if_neg hcapital] at h
    cases h

theorem nib_ok {invalid : String} {b d : UInt8} (h : nib invalid b = .ok d) :
    d < 16 ∧ lower b = digitByte d := by
  have hall : ∀ i : Fin 256, ∀ d ∈ (nib "" (UInt8.ofNat i)).toOption,
      d < 16 ∧ lower (UInt8.ofNat i) = digitByte d := by decide +kernel
  obtain ⟨i, rfl⟩ := byte_fin b
  have hd : nib "" (UInt8.ofNat i) = .ok d := nib_message h
  refine hall i d ?_
  rw [hd]
  rfl

theorem nib_digit (invalid : String) {b d : UInt8} (hd : d < 16) (h : lower b = digitByte d) :
    nib invalid b = .ok d := by
  have hall : ∀ i : Fin 256, ∀ j : Fin 16,
      lower (UInt8.ofNat i) = digitByte (UInt8.ofNat j) →
        nib "" (UInt8.ofNat i) = .ok (UInt8.ofNat j) := by decide +kernel
  obtain ⟨i, rfl⟩ := byte_fin b
  obtain ⟨j, rfl⟩ := digit_fin hd
  exact nib_message (hall i j h)

/-- The two halves of a byte. -/
theorem halves_iff {h l : UInt8} (hh : h < 16) (hl : l < 16) (b : UInt8) :
    h <<< 4 ||| l = b ↔ h = b >>> 4 ∧ l = b &&& 15 := by
  have hjoin : ∀ i j : Fin 16, (UInt8.ofNat i <<< 4 ||| UInt8.ofNat j) >>> 4 = UInt8.ofNat i ∧
      (UInt8.ofNat i <<< 4 ||| UInt8.ofNat j) &&& 15 = UInt8.ofNat j := by decide +kernel
  have hsplit : ∀ i : Fin 256, (UInt8.ofNat i >>> 4) <<< 4 ||| (UInt8.ofNat i &&& 15) =
      UInt8.ofNat i := by decide +kernel
  constructor
  · rintro rfl
    obtain ⟨i, rfl⟩ := digit_fin hh
    obtain ⟨j, rfl⟩ := digit_fin hl
    exact ⟨(hjoin i j).1.symm, (hjoin i j).2.symm⟩
  · rintro ⟨rfl, rfl⟩
    obtain ⟨i, rfl⟩ := byte_fin b
    exact hsplit i

/-- **Pairs of digits** are read as the bytes they are written for. -/
theorem hexPairs_ok_iff (invalid : String) : ∀ (text : Bytes) (bytes : Bytes),
    text.length % 2 = 0 →
    (hexPairs invalid text = .ok bytes ↔ text.map lower = bytes.flatMap pairBytes)
  | [], bytes, _ => by
    unfold hexPairs
    constructor
    · intro h
      cases h
      rfl
    · intro h
      cases bytes with
      | nil => rfl
      | cons b rest => cases h
  | [_], _, h => by cases h
  | high :: low :: rest, bytes, heven => by
    have hrest : rest.length % 2 = 0 := by
      simp only [List.length_cons] at heven
      omega
    have ih := hexPairs_ok_iff invalid rest
    constructor
    · intro h
      unfold hexPairs at h
      split at h
      · cases h
      rename_i hi hhigh
      split at h
      · cases h
      rename_i lo hlow
      split at h
      · cases h
      rename_i out hout
      cases h
      obtain ⟨hhlt, hhigh⟩ := nib_ok hhigh
      obtain ⟨hllt, hlow⟩ := nib_ok hlow
      obtain ⟨hfirst, hsecond⟩ := (halves_iff hhlt hllt _).mp rfl
      rw [List.flatMap_cons, ← (ih out hrest).mp hout]
      unfold pairBytes
      rw [← hfirst, ← hsecond, ← hhigh, ← hlow]
      rfl
    · intro h
      cases bytes with
      | nil => cases h
      | cons b out =>
        rw [List.flatMap_cons] at h
        obtain ⟨hhigh, h⟩ := List.cons.inj h
        obtain ⟨hlow, htail⟩ := List.cons.inj h
        unfold hexPairs
        rw [nib_digit invalid (high_lt b) hhigh, nib_digit invalid (low_lt b) hlow,
          (ih out hrest).mpr htail]
        simp only
        rw [(halves_iff (high_lt b) (low_lt b) b).mpr ⟨rfl, rfl⟩]

theorem pairBytes_length (bytes : Bytes) : (bytes.flatMap pairBytes).length = 2 * bytes.length := by
  induction bytes with
  | nil => rfl
  | cons b rest ih =>
    rw [List.flatMap_cons, List.length_append, ih, List.length_cons]
    show 2 + 2 * rest.length = _
    omega

/-- **What is accepted**: the hexadecimal forms of the payload, in either case of the letters. -/
theorem hexDecode_ok_iff (odd invalid value : String) (bytes : Bytes) :
    hexDecode odd invalid value = .ok bytes ↔
      (utf8 value).map lower = utf8 (hexEncode bytes) := by
  rw [utf8_hexEncode]
  unfold hexDecode
  by_cases heven : (utf8 value).length % 2 = 0
  · rw [if_neg (not_not_intro heven)]
    exact hexPairs_ok_iff invalid _ bytes heven
  · rw [if_pos heven]
    refine ⟨fun h => (by cases h), fun h => ?_⟩
    have hlength := congrArg List.length h
    rw [List.length_map, pairBytes_length] at hlength
    omega

theorem lower_digitByte {d : UInt8} (hd : d < 16) : lower (digitByte d) = digitByte d := by
  have hall : ∀ j : Fin 16, lower (digitByte (UInt8.ofNat j)) = digitByte (UInt8.ofNat j) := by
    decide
  obtain ⟨j, rfl⟩ := digit_fin hd
  exact hall j

/-- **Round trip.** -/
theorem hexDecode_hexEncode (odd invalid : String) (bytes : Bytes) :
    hexDecode odd invalid (hexEncode bytes) = .ok bytes := by
  rw [hexDecode_ok_iff, utf8_hexEncode, List.map_flatMap]
  congr 1
  funext b
  show [lower (digitByte (b >>> 4)), lower (digitByte (b &&& 15))] = pairBytes b
  rw [lower_digitByte (high_lt b), lower_digitByte (low_lt b)]
  rfl

/-! ## The two transports -/

/-- `hex_decode` of `websocket.rs`. -/
def WebSocket.hexDecode (value : String) : Except String Bytes :=
  DeltaStream.hexDecode "odd hex length" "invalid hex" value

namespace PubNub

/-- `hex_decode` of `pubnub.rs`. -/
def hexDecode (value : String) : Except String Bytes :=
  DeltaStream.hexDecode "hex packet has odd length" "invalid hex digit" value

def PROTOCOL : String := "delta-stream/transport/1"

/-- `value.get(key).and_then(Value::as_str)`. -/
def getStr (value : Value) (key : String) : Option String :=
  match value with
  | .object fields =>
    match SortedMap.get? fields key with
    | some (.string s) => some s
    | _ => none
  | _ => none

/-- The message `publish` sends; keys are in order. -/
def envelope (payload : Bytes) : Value :=
  .object [("encoding", .string "hex"), ("payload", .string (hexEncode payload)),
    ("protocol", .string PROTOCOL)]

/-- `parse` is `serde_json::from_slice::<Value>`. -/
def decodeEnvelope (parse : Bytes → Except DeltaError Value) (bytes : Bytes) :
    Except DeltaError Bytes :=
  match parse bytes with
  | .error e => .error e
  | .ok value =>
    if getStr value "protocol" ≠ some PROTOCOL then
      .error (.transport "unsupported PubNub transport envelope")
    else
      match getStr value "payload" with
      | none => .error (.transport "PubNub envelope missing payload")
      | some payload =>
        match hexDecode payload with
        | .error e => .error (.transport e)
        | .ok bytes => .ok bytes

theorem decodeEnvelope_ok_iff (parse : Bytes → Except DeltaError Value) (bytes payload : Bytes) :
    decodeEnvelope parse bytes = .ok payload ↔
      ∃ value text, parse bytes = .ok value ∧ getStr value "protocol" = some PROTOCOL ∧
        getStr value "payload" = some text ∧ hexDecode text = .ok payload := by
  unfold decodeEnvelope
  constructor
  · intro h
    split at h
    · cases h
    rename_i value hvalue
    split at h
    · cases h
    rename_i hprotocol
    split at h
    · cases h
    rename_i text htext
    split at h
    · cases h
    rename_i out hout
    cases h
    exact ⟨value, text, hvalue, Decidable.not_not.mp hprotocol, htext, hout⟩
  · rintro ⟨value, text, hvalue, hprotocol, htext, hout⟩
    rw [hvalue]
    simp only
    rw [if_neg (not_not_intro hprotocol), htext]
    simp only [hout]

theorem decodeEnvelope_envelope {parse : Bytes → Except DeltaError Value} {bytes payload : Bytes}
    (h : parse bytes = .ok (envelope payload)) : decodeEnvelope parse bytes = .ok payload :=
  (decodeEnvelope_ok_iff parse bytes payload).mpr
    ⟨envelope payload, hexEncode payload, h, rfl, rfl, hexDecode_hexEncode _ _ payload⟩

end PubNub

/-- **Payloads as text.**  Both transports read the same payload out of the same text, and a text
    is read as a payload if and only if it is `hex_encode` of it up to the case of its letters; an
    envelope, if and only if it names the protocol and its `payload` is such a text. -/
theorem payload_text (parse : Bytes → Except DeltaError Value) (payload : Bytes) :
    (∀ text, WebSocket.hexDecode text = .ok payload ↔
      (utf8 text).map lower = utf8 (hexEncode payload)) ∧
    (∀ text, PubNub.hexDecode text = .ok payload ↔ WebSocket.hexDecode text = .ok payload) ∧
    (∀ bytes, PubNub.decodeEnvelope parse bytes = .ok payload ↔
      ∃ value text, parse bytes = .ok value ∧
        PubNub.getStr value "protocol" = some PubNub.PROTOCOL ∧
        PubNub.getStr value "payload" = some text ∧
        (utf8 text).map lower = utf8 (hexEncode payload)) ∧
    ∀ bytes, parse bytes = .ok (PubNub.envelope payload) →
      PubNub.decodeEnvelope parse bytes = .ok payload := by
  refine ⟨fun text => hexDecode_ok_iff _ _ text payload, fun text => ?_, fun bytes => ?_,
    fun bytes h => PubNub.decodeEnvelope_envelope h⟩
  · exact (hexDecode_ok_iff _ _ text payload).trans (hexDecode_ok_iff _ _ text payload).symm
  · rw [PubNub.decodeEnvelope_ok_iff]
    simp only [PubNub.hexDecode, hexDecode_ok_iff]

end DeltaStream
