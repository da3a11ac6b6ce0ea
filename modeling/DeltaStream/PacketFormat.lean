import DeltaStream.Packet

/-!
# The envelope codec accepts exactly its format

The converse of the round trip of `Packet`: whatever `decode_with_config` accepts is the encoding
of the packet it returns, up to the version byte.

* `decode_fields` — the fields an accepted byte string must have;
* `decode_iff` — accepted exactly when within the limit and an encoding, with version 2 or 3;
* `decodeIndexed_eq` — with every index and slice of the source checked, none is out of bounds;
* `packet_codec_exact` — all of it, with uniqueness and the encoded length.
-/

set_option autoImplicit false

namespace DeltaStream

open ByteReader Overlay

namespace Packet

/-! ## Fields of an accepted byte string -/

theorem drop_eq_slice_append (bytes : Bytes) {start stop : Nat} (h : start ≤ stop) :
    bytes.drop start = slice bytes start stop ++ bytes.drop stop := by
  have hsum : start + (stop - start) = stop := by omega
  rw [slice, ← hsum, ← List.drop_drop, hsum, List.take_append_drop]

theorem leBytes_slice {bytes : Bytes} (start : Nat) {stop : Nat} (h : stop ≤ bytes.length) :
    leBytes (stop - start) (leValue (slice bytes start stop)) = slice bytes start stop := by
  have hlen : (slice bytes start stop).length = stop - start := slice_length_of_le h
  have := leBytes_leValue (slice bytes start stop)
  rwa [hlen] at this

theorem leValue_slice_lt {bytes : Bytes} (start : Nat) {stop : Nat} (h : stop ≤ bytes.length) :
    leValue (slice bytes start stop) < 256 ^ (stop - start) := by
  have := leValue_lt (slice bytes start stop)
  rwa [slice_length_of_le h] at this

theorem leBytes_readU64 {bytes : Bytes} {start : Nat} (h : start + 8 ≤ bytes.length) :
    leBytes 8 (readU64 bytes start).toNat = slice bytes start (start + 8) := by
  have hlt := leValue_slice_lt start h
  rw [Nat.add_sub_cancel_left] at hlt
  unfold readU64
  rw [UInt64.toNat_ofNat', Nat.mod_eq_of_lt (show _ < 2 ^ 64 from hlt)]
  have := leBytes_slice start h
  rwa [Nat.add_sub_cancel_left] at this

theorem leBytes_readU32 {bytes : Bytes} {start : Nat} (h : start + 4 ≤ bytes.length) :
    leBytes 4 (readU32 bytes start).toNat = slice bytes start (start + 4) := by
  have hlt := leValue_slice_lt start h
  rw [Nat.add_sub_cancel_left] at hlt
  unfold readU32
  rw [UInt32.toNat_ofNat', Nat.mod_eq_of_lt (show _ < 2 ^ 32 from hlt)]
  have := leBytes_slice start h
  rwa [Nat.add_sub_cancel_left] at this

theorem decodeKind_ok {code : UInt8} {kind : PacketKind} (h : decodeKind code = .ok kind) :
    code = kind.code := by
  unfold decodeKind at h
  split at h
  · rename_i hcode
    cases h
    exact hcode
  split at h
  · rename_i hcode
    cases h
    exact hcode
  · cases h

/-- What the bytes of `p` look like, field by field. -/
structure Fields (X : Crates) (bytes : Bytes) (p : Packet) : Prop where
  magic : slice bytes 0 2 = MAGIC
  version : MIN_WIRE_VERSION ≤ bytes.getD 2 0 ∧ bytes.getD 2 0 ≤ WIRE_VERSION
  kind : bytes.getD 3 0 = p.kind.code
  flags : slice bytes 4 6 = leBytes 2 p.flags.toNat
  known : p.flags &&& ~~~KNOWN_FLAGS = 0
  sequence : slice bytes 6 14 = leBytes 8 p.sequence.toNat
  baseSequence : slice bytes 14 22 = leBytes 8 p.baseSequence.toNat
  baseHash : slice bytes 22 30 = leBytes 8 p.baseHash.toNat
  schemaHash : slice bytes 30 38 = leBytes 8 p.schemaHash.toNat
  checksum : slice bytes 38 42 = leBytes 4 (X.crc32 p.payload).toNat
  payloadLen : slice bytes 42 46 = leBytes 4 p.payload.length
  payload : bytes.drop HEADER_LEN = p.payload
  fits : p.payload.length ≤ MAX_WIRE_PAYLOAD
  length : bytes.length = p.encodedLen

/-- **An accepted byte string has the fields of the packet returned.** -/
theorem decode_fields {X : Crates} {bytes : Bytes} {config : DecodeConfig} {p : Packet}
    (h : decodeWithConfig X bytes config = .ok p) :
    bytes.length ≤ config.maxPacketBytes ∧ Fields X bytes p := by
  unfold decodeWithConfig at h
  split at h
  · cases h
  rename_i hmax
  split at h
  · cases h
  rename_i hheader
  have hheader : 46 ≤ bytes.length := Nat.le_of_not_lt hheader
  split at h
  · cases h
  rename_i hmagic
  simp only at h
  split at h
  · cases h
  rename_i hversion
  split at h
  · cases h
  rename_i kind hkind
  split at h
  · cases h
  rename_i hflags
  split at h
  · cases h
  rename_i hfits
  split at h
  · cases h
  rename_i hlength
  split at h
  · cases h
  rename_i hchecksum
  cases h
  have hlen : (bytes.drop HEADER_LEN).length = (readU32 bytes 42).toNat := by
    rw [List.length_drop]
    omega
  have hsix : 6 ≤ bytes.length := by omega
  have hflagsLt := leValue_slice_lt 4 hsix
  refine ⟨by omega, ?_⟩
  exact {
    magic := Decidable.not_not.mp hmagic
    version := Decidable.not_not.mp hversion
    kind := decodeKind_ok hkind
    flags := by
      rw [UInt16.toNat_ofNat', Nat.mod_eq_of_lt (show _ < 2 ^ 16 from hflagsLt)]
      exact (leBytes_slice 4 hsix).symm
    known := Decidable.not_not.mp hflags
    sequence := (leBytes_readU64 (by omega)).symm
    baseSequence := (leBytes_readU64 (by omega)).symm
    baseHash := (leBytes_readU64 (by omega)).symm
    schemaHash := (leBytes_readU64 (by omega)).symm
    checksum := by
      rw [Decidable.not_not.mp hchecksum]
      exact (leBytes_readU32 (by omega)).symm
    payloadLen := by
      rw [hlen]
      exact (leBytes_readU32 (by omega)).symm
    payload := rfl
    fits := by
      rw [hlen]
      omega
    length := by
      unfold encodedLen
      rw [hlen]
      omega }

/-- The fields put together again. -/
theorem Fields.bytes_eq {X : Crates} {bytes : Bytes} {p : Packet} (h : Fields X bytes p) :
    bytes = (p.header X ++ p.payload).set 2 (bytes.getD 2 0) := by
  have hlen : 46 ≤ bytes.length := by
    rw [h.length]
    exact Nat.le_add_right _ _
  have htwo : slice bytes 2 4 = [bytes.getD 2 0, bytes.getD 3 0] := by
    apply List.ext_getElem?
    intro i
    by_cases hi : i < 2
    · rw [slice_getElem? _ _ _ _ (by omega)]
      rcases Nat.lt_succ_iff_lt_or_eq.mp hi with hi | rfl
      · obtain rfl : i = 0 := by omega
        simp [List.getElem?_eq_getElem (show 2 < bytes.length by omega)]
      · simp [List.getElem?_eq_getElem (show 3 < bytes.length by omega)]
    · rw [List.getElem?_eq_none (by rw [slice_length_of_le (by omega)]; omega),
        List.getElem?_eq_none (by simp; omega)]
  have hsplit : bytes = slice bytes 0 2 ++ (slice bytes 2 4 ++ (slice bytes 4 6 ++
      (slice bytes 6 14 ++ (slice bytes 14 22 ++ (slice bytes 22 30 ++ (slice bytes 30 38 ++
        (slice bytes 38 42 ++ (slice bytes 42 46 ++ bytes.drop 46)))))))) := by
    rw [← drop_eq_slice_append bytes (by omega), ← drop_eq_slice_append bytes (by omega),
      ← drop_eq_slice_append bytes (by omega), ← drop_eq_slice_append bytes (by omega),
      ← drop_eq_slice_append bytes (by omega), ← drop_eq_slice_append bytes (by omega),
      ← drop_eq_slice_append bytes (by omega), ← drop_eq_slice_append bytes (by omega),
      ← drop_eq_slice_append bytes (by omega), List.drop_zero]
  have hpayload : bytes.drop 46 = p.payload := h.payload
  rw [h.magic, htwo, h.kind, h.flags, h.sequence, h.baseSequence, h.baseHash, h.schemaHash,
    h.checksum, h.payloadLen, hpayload] at hsplit
  rw [hsplit]
  rfl

theorem version_cases (version : UInt8) :
    (MIN_WIRE_VERSION ≤ version ∧ version ≤ WIRE_VERSION) ↔ version = 2 ∨ version = 3 := by
  constructor
  · rintro ⟨hmin, hmax⟩
    have hmin : 2 ≤ version.toNat := UInt8.le_iff_toNat_le.mp hmin
    have hmax : version.toNat ≤ 3 := UInt8.le_iff_toNat_le.mp hmax
    rcases Nat.lt_or_eq_of_le hmin with hlt | heq
    · exact .inr (UInt8.toNat_inj.mp (show version.toNat = 3 by omega))
    · exact .inl (UInt8.toNat_inj.mp heq.symm)
  · rintro (rfl | rfl) <;> decide

/-- `bytes` encodes `p`, up to the version byte being one of the supported versions. -/
def Encodes (X : Crates) (p : Packet) (bytes : Bytes) : Prop :=
  ∃ wire version, p.encode X = .ok wire ∧ (version = 2 ∨ version = 3) ∧
    bytes = wire.set 2 version

/-- **Accepted exactly when within the limit and an encoding.** -/
theorem decode_iff {X : Crates} {bytes : Bytes} {config : DecodeConfig} {p : Packet} :
    decodeWithConfig X bytes config = .ok p ↔
      bytes.length ≤ config.maxPacketBytes ∧ Encodes X p bytes := by
  constructor
  · intro h
    obtain ⟨hmax, hfields⟩ := decode_fields h
    exact ⟨hmax, _, _, encode_of_fits hfields.known hfields.fits,
      (version_cases _).mp hfields.version, hfields.bytes_eq⟩
  · rintro ⟨hmax, wire, version, hwire, hversion, rfl⟩
    rw [List.length_set, encode_length hwire] at hmax
    exact decodeWithConfig_version hwire hmax ((version_cases version).mpr hversion)

/-- A byte string encodes one packet at most. -/
theorem Encodes.unique {X : Crates} {p q : Packet} {bytes : Bytes} (hp : Encodes X p bytes)
    (hq : Encodes X q bytes) : p = q := by
  have hdp : decodeWithConfig X bytes ⟨bytes.length, 0⟩ = .ok p :=
    decode_iff.mpr ⟨Nat.le_refl _, hp⟩
  have hdq : decodeWithConfig X bytes ⟨bytes.length, 0⟩ = .ok q :=
    decode_iff.mpr ⟨Nat.le_refl _, hq⟩
  rw [hdp] at hdq
  exact Except.ok.inj hdq

/-! ## No index is out of bounds -/

/-- A computation that may panic (`none`), fail or return. -/
abbrev MayPanic (α : Type) := ExceptT DeltaError Option α

/-- `bytes[index]`. -/
def indexByte (bytes : Bytes) (index : Nat) : MayPanic UInt8 :=
  match bytes[index]? with
  | none => ExceptT.mk none
  | some b => pure b

/-- `bytes[start..stop]`. -/
def indexRange (bytes : Bytes) (start stop : Nat) : MayPanic Bytes :=
  if start ≤ stop ∧ stop ≤ bytes.length then pure (slice bytes start stop) else ExceptT.mk none

/-- `from_le_bytes(bytes[start..stop].try_into().map_err(..)?)` for a number of `size` bytes. -/
def readField (bytes : Bytes) (start stop size : Nat) (truncated : String) : MayPanic Nat := do
  let field ← indexRange bytes start stop
  if field.length = size then pure (leValue field) else throw (.invalidPacket truncated)

/-- `decode_with_config` with every index and slice operation checked. -/
def decodeIndexed (X : Crates) (bytes : Bytes) (config : DecodeConfig) : MayPanic Packet :=
  if bytes.length > config.maxPacketBytes then
    throw (.packetTooLarge config.maxPacketBytes bytes.length)
  else if bytes.length < HEADER_LEN then throw (.invalidPacket "packet shorter than header")
  else do
    let magic ← indexRange bytes 0 2
    if magic ≠ MAGIC then throw (.invalidPacket "bad magic")
    else
      let version ← indexByte bytes 2
      if ¬(MIN_WIRE_VERSION ≤ version ∧ version ≤ WIRE_VERSION) then
        throw (.protocolVersionRange version MIN_WIRE_VERSION WIRE_VERSION)
      else
        let code ← indexByte bytes 3
        let kind ← ExceptT.mk (some (decodeKind code))
        let flags := UInt16.ofNat (← readField bytes 4 6 2 "truncated flags")
        if flags &&& ~~~KNOWN_FLAGS ≠ 0 then throw (.invalidPacket "unknown packet flags")
        else
          let sequence ← readField bytes 6 14 8 "truncated sequence"
          let baseSequence ← readField bytes 14 22 8 "truncated base sequence"
          let baseHash ← readField bytes 22 30 8 "truncated base hash"
          let schemaHash ← readField bytes 30 38 8 "truncated schema hash"
          let checksum := UInt32.ofNat (← readField bytes 38 42 4 "truncated checksum")
          let payloadLen := (UInt32.ofNat (← readField bytes 42 46 4
            "truncated payload length")).toNat
          let expectedLen := HEADER_LEN + payloadLen
          if expectedLen > USIZE_MAX then
            throw (.invalidPacket "packet length arithmetic overflow")
          else if payloadLen > MAX_WIRE_PAYLOAD ∨ expectedLen > config.maxPacketBytes then
            throw (.packetTooLarge config.maxPacketBytes expectedLen)
          else if bytes.length ≠ expectedLen then throw (.invalidPacket "payload length mismatch")
          else
            let payload ← indexRange bytes HEADER_LEN bytes.length
            let actual := X.crc32 payload
            if actual ≠ checksum then throw (.checksumMismatch checksum actual)
            else
              pure ⟨kind, flags, UInt64.ofNat sequence, UInt64.ofNat baseSequence,
                UInt64.ofNat baseHash, UInt64.ofNat schemaHash, payload⟩

theorem indexByte_eq {bytes : Bytes} {index : Nat} (h : index < bytes.length) :
    indexByte bytes index = pure (bytes.getD index 0) := by
  unfold indexByte
  rw [List.getD_eq_getElem?_getD, List.getElem?_eq_getElem h]
  rfl

theorem indexRange_eq {bytes : Bytes} {start stop : Nat} (hle : start ≤ stop)
    (h : stop ≤ bytes.length) : indexRange bytes start stop = pure (slice bytes start stop) :=
  if_pos ⟨hle, h⟩

theorem readField_eq {bytes : Bytes} {start stop size : Nat} (truncated : String)
    (hsize : start + size = stop) (h : stop ≤ bytes.length) :
    readField bytes start stop size truncated = pure (leValue (slice bytes start stop)) := by
  unfold readField
  rw [indexRange_eq (by omega) h, pure_bind, if_pos (by rw [slice_length_of_le h]; omega)]

/-- A check made on both sides, with the same error. -/
theorem check_returned {α : Type} {c : Prop} [Decidable c] {e : DeltaError} {x : MayPanic α}
    {y : Except DeltaError α} (h : ¬c → x = ExceptT.mk (some y)) :
    (if c then throw e else x) = ExceptT.mk (some (if c then .error e else y)) := by
  by_cases hc : c
  · rw [if_pos hc, if_pos hc]
    rfl
  · rw [if_neg hc, if_neg hc]
    exact h hc

/-- **No input makes decoding index out of bounds**: with every index checked it is the
    decoder. -/
theorem decodeIndexed_eq (X : Crates) (bytes : Bytes) (config : DecodeConfig) :
    decodeIndexed X bytes config = ExceptT.mk (some (decodeWithConfig X bytes config)) := by
  unfold decodeIndexed decodeWithConfig
  refine check_returned fun _ => ?_
  refine check_returned fun hheader => ?_
  have hlen : 46 ≤ bytes.length := Nat.le_of_not_lt hheader
  rw [indexRange_eq (show 0 ≤ 2 by omega) (show 2 ≤ bytes.length by omega), pure_bind]
  refine check_returned fun _ => ?_
  rw [indexByte_eq (show 2 < bytes.length by omega), pure_bind]
  refine check_returned fun _ => ?_
  rw [indexByte_eq (show 3 < bytes.length by omega), pure_bind]
  cases hkind : decodeKind (bytes.getD 3 0) with
  | error e => rfl
  | ok kind =>
    have hkind : (ExceptT.mk (some (Except.ok kind)) : MayPanic PacketKind) = pure kind := rfl
    have hwidth : ¬HEADER_LEN + (readU32 bytes 42).toNat > USIZE_MAX := by
      have := (readU32 bytes 42).toNat_lt
      unfold HEADER_LEN USIZE_MAX
      omega
    have hpayload : slice bytes HEADER_LEN bytes.length = bytes.drop HEADER_LEN :=
      List.take_of_length_le (Nat.le_of_eq List.length_drop)
    rw [hkind, pure_bind, readField_eq _ (show 4 + 2 = 6 from rfl) (by omega), pure_bind]
    refine check_returned fun _ => ?_
    rw [readField_eq _ (show 6 + 8 = 14 from rfl) (by omega), pure_bind,
      readField_eq _ (show 14 + 8 = 22 from rfl) (by omega), pure_bind,
      readField_eq _ (show 22 + 8 = 30 from rfl) (by omega), pure_bind,
      readField_eq _ (show 30 + 8 = 38 from rfl) (by omega), pure_bind,
      readField_eq _ (show 38 + 4 = 42 from rfl) (by omega), pure_bind,
      readField_eq _ (show 42 + 4 = 46 from rfl) hlen, pure_bind]
    refine (if_neg hwidth).trans ?_
    refine check_returned fun _ => ?_
    refine check_returned fun _ => ?_
    rw [indexRange_eq (show HEADER_LEN ≤ bytes.length from hlen) (Nat.le_refl _), pure_bind,
      hpayload]
    exact check_returned fun _ => rfl

/-- **The envelope codec accepts exactly its format**: a byte string decodes to `p` exactly when it
    is within the limit and an encoding of `p`, a packet with known flags and a payload that fits;
    there is one such `p`; what a packet encodes to decodes to it and has its encoded length; and
    no input makes decoding index out of bounds. -/
theorem packet_codec_exact (X : Crates) :
    (∀ bytes config p, decodeWithConfig X bytes config = .ok p ↔
        bytes.length ≤ config.maxPacketBytes ∧ p.flags &&& ~~~KNOWN_FLAGS = 0 ∧
          p.payload.length ≤ MAX_WIRE_PAYLOAD ∧ Encodes X p bytes) ∧
      (∀ bytes p q, Encodes X p bytes → Encodes X q bytes → p = q) ∧
      (∀ p bytes, p.encode X = .ok bytes →
        decode X bytes = .ok p ∧ bytes.length = p.encodedLen) ∧
      (∀ bytes config, decodeIndexed X bytes config =
        ExceptT.mk (some (decodeWithConfig X bytes config))) := by
  refine ⟨?_, fun _ _ _ hp hq => hp.unique hq, ?_, decodeIndexed_eq X⟩
  · intro bytes config p
    rw [decode_iff]
    constructor
    · rintro ⟨hmax, henc⟩
      obtain ⟨wire, version, hwire, -, -⟩ := id henc
      obtain ⟨hknown, hfits, -⟩ := encode_ok hwire
      exact ⟨hmax, hknown, hfits, henc⟩
    · rintro ⟨hmax, -, -, henc⟩
      exact ⟨hmax, henc⟩
  · intro p bytes henc
    refine ⟨decodeWithConfig_encode henc ?_, encode_length henc⟩
    obtain ⟨-, hfits, -⟩ := encode_ok henc
    exact Nat.add_le_add_left hfits HEADER_LEN

/-- A snapshot of three bytes, on the wire and back. -/
theorem packet_codec_exact_snapshot :
    ∃ bytes, (snapshot 1 2 3 [7, 8, 9]).encode .stored = .ok bytes ∧
      decode .stored bytes = .ok (snapshot 1 2 3 [7, 8, 9]) ∧
      ∀ q, Encodes .stored q bytes → q = snapshot 1 2 3 [7, 8, 9] := by
  have henc : (snapshot 1 2 3 [7, 8, 9]).encode .stored =
      .ok ((snapshot 1 2 3 [7, 8, 9]).header .stored ++ [7, 8, 9]) := by decide
  obtain ⟨hiff, hunique, hround, -⟩ := packet_codec_exact .stored
  have hdecode := (hround _ _ henc).1
  have hencodes := ((hiff _ _ _).mp hdecode).2.2.2
  exact ⟨_, henc, hdecode, fun q hq => hunique _ q _ hq hencodes⟩

end Packet

end DeltaStream
