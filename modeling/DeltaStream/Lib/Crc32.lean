import DeltaStream.Lib.BitFlip

/-!
# CRC-32

The reflected CRC-32 with polynomial `0xEDB88320`, one bit at a time.  A step of the register is
injective, because the polynomial sets the bit that the shift clears; so byte strings that differ
in one byte have different checksums (`crc32_cons_ne`), and a flipped bit is detected
(`crc32_flipBit`).
-/

set_option autoImplicit false

namespace Crc32

open BitFlip

def POLY : BitVec 32 := 0xEDB88320

/-- Shift the register by one bit. -/
def step (crc : BitVec 32) : BitVec 32 :=
  if crc.getLsbD 0 then (crc >>> 1) ^^^ POLY else crc >>> 1

def steps : Nat → BitVec 32 → BitVec 32
  | 0, crc => crc
  | n + 1, crc => steps n (step crc)

/-- Take one byte in. -/
def feed (crc : BitVec 32) (b : UInt8) : BitVec 32 := steps 8 (crc ^^^ b.toBitVec.setWidth 32)

def crc32 (bytes : List UInt8) : UInt32 :=
  UInt32.ofBitVec (~~~(bytes.foldl feed (BitVec.allOnes 32)))

/-- The shift clears the top bit, so the polynomial shows there. -/
theorem step_top (crc : BitVec 32) : (step crc).getLsbD 31 = crc.getLsbD 0 := by
  unfold step
  cases hlow : crc.getLsbD 0 with
  | true =>
    rw [if_pos rfl, BitVec.getLsbD_xor, BitVec.getLsbD_ushiftRight,
      BitVec.getLsbD_of_ge crc (1 + 31) (by decide)]
    decide
  | false =>
    rw [if_neg (by decide), BitVec.getLsbD_ushiftRight,
      BitVec.getLsbD_of_ge crc (1 + 31) (by decide)]

theorem step_injective {a b : BitVec 32} (h : step a = step b) : a = b := by
  have hlow : a.getLsbD 0 = b.getLsbD 0 := by rw [← step_top, ← step_top, h]
  have hshift : a >>> 1 = b >>> 1 := by
    unfold step at h
    rw [← hlow] at h
    split at h
    · exact (BitVec.xor_left_inj POLY).mp h
    · exact h
  apply BitVec.eq_of_getLsbD_eq
  intro i _
  cases i with
  | zero => exact hlow
  | succ i =>
    have hbit := congrArg (fun x : BitVec 32 => x.getLsbD i) hshift
    simpa [BitVec.getLsbD_ushiftRight, Nat.add_comm] using hbit

theorem steps_injective : ∀ (n : Nat) {a b : BitVec 32}, steps n a = steps n b → a = b
  | 0, _, _, h => h
  | n + 1, _, _, h => step_injective (steps_injective n h)

/-- Different registers stay different. -/
theorem feed_injective {a b : BitVec 32} {c : UInt8} (h : feed a c = feed b c) : a = b :=
  (BitVec.xor_left_inj _).mp (steps_injective 8 h)

theorem foldl_feed_injective : ∀ (bytes : List UInt8) {a b : BitVec 32},
    bytes.foldl feed a = bytes.foldl feed b → a = b
  | [], _, _, h => h
  | _ :: bytes, _, _, h => feed_injective (foldl_feed_injective bytes h)

/-- Different bytes make the registers different. -/
theorem feed_byte_injective {crc : BitVec 32} {b c : UInt8} (h : feed crc b = feed crc c) :
    b = c := by
  have hwide := (BitVec.xor_right_inj crc).mp (steps_injective 8 h)
  apply UInt8.toNat_inj.mp
  have hnat := congrArg BitVec.toNat hwide
  have hb := b.toNat_lt
  have hc := c.toNat_lt
  simp only [BitVec.toNat_setWidth, UInt8.toNat_toBitVec] at hnat
  omega

/-- **Byte strings that differ in one byte have different checksums.** -/
theorem crc32_cons_ne {before after : List UInt8} {b c : UInt8} (h : b ≠ c) :
    crc32 (before ++ b :: after) ≠ crc32 (before ++ c :: after) := by
  intro heq
  have hreg := congrArg UInt32.toBitVec heq
  simp only [crc32, List.foldl_append, List.foldl_cons] at hreg
  exact h (feed_byte_injective (foldl_feed_injective after (BitVec.not_inj.mp hreg)))

/-- **A flipped bit is detected.** -/
theorem crc32_flipBit {bytes : List UInt8} {i : Nat} (h : i < 8 * bytes.length) :
    crc32 (flipBit bytes i) ≠ crc32 bytes := by
  obtain ⟨before, b, b', after, hbytes, hflip, hne⟩ := flipBit_split bytes i h
  rw [hflip, hbytes]
  exact crc32_cons_ne hne

-- the check value of the algorithm: the digits 1 to 9
example : crc32 [49, 50, 51, 52, 53, 54, 55, 56, 57] = 0xCBF43926 := by decide +kernel

end Crc32
