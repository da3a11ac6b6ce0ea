import DeltaStream.Lib.Crc32
import DeltaStream.PacketFormat

/-!
# One flipped bit in transit

The checksum of the envelope covers the payload.  Which of the other bits are protected by
another check, and what a flip of an unprotected bit does:

* `flip_unprotected` — the compression flag, the sequences and the hashes: the packet with that
  bit of that field changed;
* `flip_protected` — magic, version, kind, unknown flags, checksum, payload length and payload:
  an error, or the packet itself (version 3 turned into 2);
* `single_bit_flip` — both, for every bit of every encoded packet.
-/

set_option autoImplicit false

namespace DeltaStream

open BitFlip ByteReader Overlay

/-- The checksum of a byte string with a flipped bit is another one. -/
def Crates.DetectsFlips (X : Crates) : Prop :=
  ∀ (data : Bytes) (i : Nat), i < 8 * data.length → X.crc32 (flipBit data i) ≠ X.crc32 data

/-- `stored` with the real checksum. -/
def Crates.checked : Crates := { Crates.stored with crc32 := Crc32.crc32 }

theorem Crates.checked_detectsFlips : Crates.checked.DetectsFlips :=
  fun _ _ h => Crc32.crc32_flipBit h

namespace Packet

/-! ## A flip inside one field -/

theorem flipBit_field {before field after : Bytes} {start i : Nat} (hstart : before.length = start)
    (hge : 8 * start ≤ i) (hlt : i < 8 * (start + field.length)) :
    flipBit (before ++ (field ++ after)) i =
      before ++ (flipBit field (i - 8 * start) ++ after) := by
  subst hstart
  rw [flipBit_append_right _ hge, flipBit_append_left _ (by omega)]

theorem slice_flipBit_in {bytes : Bytes} {start stop i : Nat} (hge : 8 * start ≤ i)
    (hlt : i < 8 * stop) :
    slice (flipBit bytes i) start stop = flipBit (slice bytes start stop) (i - 8 * start) := by
  rw [slice, flipBit_drop_ge start bytes i hge, flipBit_take_lt _ _ _ (by omega), slice]

theorem slice_flipBit_out {bytes : Bytes} {start stop i : Nat}
    (h : i < 8 * start ∨ 8 * stop ≤ i) (hle : start ≤ stop) :
    slice (flipBit bytes i) start stop = slice bytes start stop := by
  rw [slice, slice]
  rcases h with h | h
  · rw [flipBit_drop_lt start bytes i h]
  · rw [flipBit_drop_ge start bytes i (by omega), flipBit_take_ge _ _ _ (by omega)]

/-- A bit of a number of 64 bits. -/
def flip64 (v : UInt64) (k : Nat) : UInt64 := v ^^^ UInt64.ofNat (2 ^ k)

theorem toNat_bit64 {k : Nat} (h : k < 64) : (UInt64.ofNat (2 ^ k)).toNat = 2 ^ k := by
  rw [UInt64.toNat_ofNat']
  exact Nat.mod_eq_of_lt (Nat.pow_lt_pow_right (by decide) h)

theorem leBytes_flip64 {k : Nat} (v : UInt64) (h : k < 64) :
    leBytes 8 (flip64 v k).toNat = flipBit (leBytes 8 v.toNat) k := by
  rw [flip64, UInt64.toNat_xor, toNat_bit64 h]
  exact leBytes_xor 8 v.toNat k h

theorem flip64_ne (v : UInt64) {k : Nat} (h : k < 64) : flip64 v k ≠ v := by
  intro heq
  have hbytes := leBytes_flip64 v h
  rw [heq] at hbytes
  exact flipBit_ne (by rw [leBytes_length]; exact h) hbytes.symm

/-! ## Unprotected bits -/

/-- Bits of the envelope that no check covers: the compression flag, the sequence, the base
    sequence, the base hash and the schema hash. -/
def Unprotected (i : Nat) : Prop := i = 32 ∨ 48 ≤ i ∧ i < 304

instance (i : Nat) : Decidable (Unprotected i) := inferInstanceAs (Decidable (_ ∨ _))

/-- The packet with the field bit changed that bit `i` of the envelope stands for. -/
def flipField (p : Packet) (i : Nat) : Packet :=
  if i < 48 then { p with flags := p.flags ^^^ FLAG_COMPRESSED_ZSTD }
  else if i < 112 then { p with sequence := flip64 p.sequence (i - 48) }
  else if i < 176 then { p with baseSequence := flip64 p.baseSequence (i - 112) }
  else if i < 240 then { p with baseHash := flip64 p.baseHash (i - 176) }
  else { p with schemaHash := flip64 p.schemaHash (i - 240) }

theorem flipField_ne {p : Packet} {i : Nat} (h : Unprotected i) : flipField p i ≠ p := by
  intro heq
  unfold Unprotected at h
  unfold flipField at heq
  split at heq
  · have hflags : p.flags ^^^ FLAG_COMPRESSED_ZSTD = p.flags := congrArg Packet.flags heq
    have hzero := (UInt16.xor_right_inj (b := 0) p.flags).mp (by rw [hflags, UInt16.xor_zero])
    exact absurd hzero (by decide)
  split at heq
  · exact flip64_ne p.sequence (by omega) (congrArg Packet.sequence heq)
  split at heq
  · exact flip64_ne p.baseSequence (by omega) (congrArg Packet.baseSequence heq)
  split at heq
  · exact flip64_ne p.baseHash (by omega) (congrArg Packet.baseHash heq)
  · exact flip64_ne p.schemaHash (by omega) (congrArg Packet.schemaHash heq)

theorem and_xor (a b c : UInt16) : (a ^^^ b) &&& c = (a &&& c) ^^^ (b &&& c) := by
  apply UInt16.toNat_inj.mp
  simp only [UInt16.toNat_and, UInt16.toNat_xor]
  exact Nat.and_xor_distrib_right

/-- A flipped bit of a number of 64 bits in the envelope. -/
theorem flipBit_number {wire : Bytes} (before after : Bytes) (v : UInt64) (start : Nat) {i : Nat}
    (hwire : wire = before ++ (leBytes 8 v.toNat ++ after)) (hstart : before.length = start)
    (hge : 8 * start ≤ i) (hlt : i < 8 * start + 64) :
    flipBit wire i = before ++ (leBytes 8 (flip64 v (i - 8 * start)).toNat ++ after) := by
  rw [hwire, flipBit_field hstart hge (by rw [leBytes_length]; omega), leBytes_flip64 v (by omega)]

/-- **A flipped unprotected bit** gives the encoding of the packet with that field bit changed. -/
theorem flipBit_wire (X : Crates) (p : Packet) {i : Nat} (h : Unprotected i) :
    flipBit (p.header X ++ p.payload) i =
      (p.flipField i).header X ++ (p.flipField i).payload := by
  unfold Unprotected at h
  unfold flipField
  split
  · obtain rfl : i = 32 := by omega
    have hsplit : p.header X ++ p.payload = (p.header X).take 4 ++ (leBytes 2 p.flags.toNat ++
        ((p.header X).drop 6 ++ p.payload)) := rfl
    have hfour : ((p.header X).take 4).length = 4 := rfl
    have hbit : flipBit (leBytes 2 p.flags.toNat) (32 - 8 * 4) =
        leBytes 2 (p.flags ^^^ FLAG_COMPRESSED_ZSTD).toNat :=
      (leBytes_xor 2 p.flags.toNat 0 (by omega)).symm
    rw [hsplit, flipBit_field hfour (by omega) (by rw [leBytes_length]; omega), hbit]
    rfl
  split
  · calc flipBit (p.header X ++ p.payload) i
        _ = _ := flipBit_number ((p.header X).take 6) ((p.header X).drop 14 ++ p.payload)
          p.sequence 6 rfl rfl (by omega) (by omega)
        _ = _ := rfl
  split
  · calc flipBit (p.header X ++ p.payload) i
        _ = _ := flipBit_number ((p.header X).take 14) ((p.header X).drop 22 ++ p.payload)
          p.baseSequence 14 rfl rfl (by omega) (by omega)
        _ = _ := rfl
  split
  · calc flipBit (p.header X ++ p.payload) i
        _ = _ := flipBit_number ((p.header X).take 22) ((p.header X).drop 30 ++ p.payload)
          p.baseHash 22 rfl rfl (by omega) (by omega)
        _ = _ := rfl
  · calc flipBit (p.header X ++ p.payload) i
        _ = _ := flipBit_number ((p.header X).take 30) ((p.header X).drop 38 ++ p.payload)
          p.schemaHash 30 rfl rfl (by omega) (by omega)
        _ = _ := rfl

theorem flip_unprotected {X : Crates} {p : Packet} {bytes : Bytes} (henc : p.encode X = .ok bytes)
    {i : Nat} (h : Unprotected i) : decode X (flipBit bytes i) = .ok (p.flipField i) := by
  obtain ⟨hknown, hfits, rfl⟩ := encode_ok henc
  have hknown' : (p.flipField i).flags &&& ~~~KNOWN_FLAGS = 0 := by
    unfold flipField
    split
    · show (p.flags ^^^ FLAG_COMPRESSED_ZSTD) &&& ~~~KNOWN_FLAGS = 0
      rw [and_xor, hknown]
      decide
    split
    · exact hknown
    split
    · exact hknown
    split <;> exact hknown
  have hpayload : (p.flipField i).payload = p.payload := by
    unfold flipField
    split
    · rfl
    split
    · rfl
    split
    · rfl
    split <;> rfl
  have hfits' : (p.flipField i).payload.length ≤ MAX_WIRE_PAYLOAD := by
    rw [hpayload]
    exact hfits
  rw [flipBit_wire X p h]
  exact decodeWithConfig_encode (encode_of_fits hknown' hfits')
    (Nat.add_le_add_left hfits' HEADER_LEN)

/-! ## Protected bits -/

theorem code_flip_ne (a b : PacketKind) :
    ∀ k < 8, a.code ^^^ UInt8.ofNat (2 ^ k) ≠ b.code := by
  cases a <;> cases b <;> decide

theorem unknown_bit : ∀ k < 16, 0 < k → UInt16.ofNat (2 ^ k) &&& ~~~KNOWN_FLAGS ≠ 0 := by
  decide

theorem leBytes_flags (flags : UInt16) {k : Nat} (h : k < 16) :
    flipBit (leBytes 2 flags.toNat) k = leBytes 2 (flags ^^^ UInt16.ofNat (2 ^ k)).toNat := by
  rw [UInt16.toNat_xor, UInt16.toNat_ofNat',
    Nat.mod_eq_of_lt (Nat.pow_lt_pow_right (by decide) h)]
  exact (leBytes_xor 2 flags.toNat k h).symm

/-- **A flip of any other bit** is an error or leaves the packet itself. -/
theorem flip_protected {X : Crates} (hX : X.DetectsFlips) {p q : Packet} {bytes : Bytes}
    {config : DecodeConfig} (henc : p.encode X = .ok bytes) {i : Nat}
    (hi : i < 8 * bytes.length) (h : ¬Unprotected i)
    (hq : decodeWithConfig X (flipBit bytes i) config = .ok q) : q = p := by
  obtain ⟨hmax, hf⟩ := decode_fields hq
  have hlen := encode_length henc
  rw [flipBit_length] at hmax
  obtain ⟨hknown, -, rfl⟩ := encode_ok henc
  have hpayload : p.encodedLen = 46 + p.payload.length := rfl
  unfold Unprotected at h
  by_cases hmagic : i < 16
  · -- magic
    have hfield := hf.magic
    rw [slice_flipBit_in (by omega) (by omega)] at hfield
    exact absurd hfield (flipBit_ne (show i - 8 * 0 < 8 * 2 by omega))
  by_cases hversion : i < 24
  · -- version: only the other supported version is accepted
    have hset := flipBit_eq_set 2 (p.header X ++ p.payload) i (by omega) (by omega)
    generalize (p.header X ++ p.payload).getD 2 0 ^^^ UInt8.ofNat (2 ^ (i - 8 * 2)) = version
      at hset
    have hget : ((p.header X ++ p.payload).set 2 version).getD 2 0 = version := rfl
    have hfits : p.encodedLen ≤ config.maxPacketBytes := by omega
    have hfield := hf.version
    rw [hset, hget] at hfield
    rw [hset, decodeWithConfig_version henc hfits hfield] at hq
    exact (Except.ok.inj hq).symm
  by_cases hkind : i < 32
  · -- kind
    have hfield := hf.kind
    rw [flipBit_eq_set 3 (p.header X ++ p.payload) i (by omega) (by omega)] at hfield
    exact absurd hfield (code_flip_ne p.kind q.kind (i - 8 * 3) (by omega))
  by_cases hflags : i < 48
  · -- flags other than the known one
    have hfield := hf.flags
    rw [slice_flipBit_in (by omega) (by omega)] at hfield
    have hbytes := (leBytes_flags p.flags (show i - 8 * 4 < 16 by omega)).symm.trans hfield
    have hq := UInt16.toNat_inj.mp (leBytes_inj hbytes (UInt16.toNat_lt _) (UInt16.toNat_lt _))
    have hbit := hf.known
    rw [← hq, and_xor, hknown, UInt16.zero_xor] at hbit
    exact absurd hbit (unknown_bit _ (by omega) (by omega))
  have hi : 304 ≤ i := by omega
  have hwire : (p.header X ++ p.payload).drop HEADER_LEN = p.payload := rfl
  by_cases hheader : i < 368
  · have hsame : q.payload = p.payload := by
      rw [← hf.payload, flipBit_drop_lt HEADER_LEN _ i hheader, hwire]
    by_cases hcrc : i < 336
    · -- checksum
      have hfield := hf.checksum
      rw [slice_flipBit_in (by omega) (by omega), hsame] at hfield
      exact absurd hfield (flipBit_ne (show i - 8 * 38 < 8 * 4 by omega))
    · -- payload length
      have hfield := hf.payloadLen
      rw [slice_flipBit_in (by omega) (by omega), hsame] at hfield
      exact absurd hfield (flipBit_ne (show i - 8 * 42 < 8 * 4 by omega))
  · -- payload
    have hflip : q.payload = flipBit p.payload (i - 8 * HEADER_LEN) := by
      rw [← hf.payload, flipBit_drop_ge HEADER_LEN _ i (by unfold HEADER_LEN; omega), hwire]
    have hfield := hf.checksum
    rw [slice_flipBit_out (.inr (by omega)) (by omega), hflip] at hfield
    have hbytes : leBytes 4 (X.crc32 p.payload).toNat = leBytes 4 _ := hfield
    have hcrc := UInt32.toNat_inj.mp
      (leBytes_inj hbytes (UInt32.toNat_lt _) (UInt32.toNat_lt _))
    exact absurd hcrc.symm (hX p.payload _ (by unfold HEADER_LEN; omega))

/-- **One flipped bit of an encoded packet** never brings another kind or another payload: it is
    an error or the packet itself, except in the compression flag, the sequences and the hashes,
    where it is the packet with exactly that bit changed. -/
theorem single_bit_flip {X : Crates} (hX : X.DetectsFlips) {p : Packet} {bytes : Bytes}
    (henc : p.encode X = .ok bytes) {i : Nat} (hi : i < 8 * bytes.length) :
    (¬Unprotected i → ∀ config,
        (∃ e, decodeWithConfig X (flipBit bytes i) config = .error e) ∨
          decodeWithConfig X (flipBit bytes i) config = .ok p) ∧
      (Unprotected i →
        decode X (flipBit bytes i) = .ok (p.flipField i) ∧ p.flipField i ≠ p) := by
  constructor
  · intro h config
    cases hq : decodeWithConfig X (flipBit bytes i) config with
    | error e => exact .inl ⟨e, rfl⟩
    | ok q =>
      rw [flip_protected hX henc hi h hq]
      exact .inr rfl
  · intro h
    exact ⟨flip_unprotected henc h, flipField_ne h⟩

/-- A snapshot on the wire: a flip in its payload is rejected or harmless, one in its base hash
    is not noticed. -/
theorem single_bit_flip_snapshot :
    ∃ bytes, (snapshot 1 2 3 [7, 8, 9]).encode .checked = .ok bytes ∧
      ((∃ e, decodeWithConfig .checked (flipBit bytes 370) .default = .error e) ∨
        decodeWithConfig .checked (flipBit bytes 370) .default = .ok (snapshot 1 2 3 [7, 8, 9])) ∧
      decode .checked (flipBit bytes 176) = .ok (snapshot 1 3 3 [7, 8, 9]) := by
  have henc : (snapshot 1 2 3 [7, 8, 9]).encode .checked =
      .ok ((snapshot 1 2 3 [7, 8, 9]).header .checked ++ [7, 8, 9]) := by decide +kernel
  refine ⟨_, henc, ?_, ?_⟩
  · exact (single_bit_flip Crates.checked_detectsFlips henc (by decide)).1 (by decide) _
  · exact ((single_bit_flip Crates.checked_detectsFlips henc (by decide)).2 (by decide)).1

/-- The lowest bit of the sequence: update 1 arrives as update 0. -/
theorem single_bit_flip_sequence :
    Crates.checked.DetectsFlips ∧
      ∃ bytes, (snapshot 1 2 3 [7, 8, 9]).encode .checked = .ok bytes ∧ 48 < 8 * bytes.length ∧
        decode .checked (flipBit bytes 48) = .ok (snapshot 0 2 3 [7, 8, 9]) :=
  ⟨Crates.checked_detectsFlips, (snapshot 1 2 3 [7, 8, 9]).header .checked ++ [7, 8, 9],
    by decide +kernel, by decide, by decide +kernel⟩

end Packet

end DeltaStream
