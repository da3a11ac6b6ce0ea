import DeltaStream.BinaryExact
import DeltaStream.SmartDelta

/-!
# The variable-length number readers

`read_var_u64` of `src/smart_delta.rs` and `Reader::var_u128` of `src/binary.rs` are the same
loop for words of 64 and 128 bits (`varU128_eq`).  Both stop after the last byte that starts
inside the word, of which only 1 and 2 bits fit.

* `varint_exact_iff` — what they return is the whole sum of the groups unless that last byte is
  there and does not fit; then its upper bits are dropped without an error.
-/

set_option autoImplicit false

namespace DeltaStream

open Leb128

theorem varU128_eq : Reader.varU128 = decode 128 truncatedPayload varintOverflow :=
  varU128From_eq (by decide) 0

/-- **When the readers drop no bits**: unless nine bytes continue a number that a byte from 2 on
    ends (64 bits), or eighteen bytes one that a byte from 4 on ends (128 bits). -/
theorem varint_exact_iff (bytes : Bytes) (pos : Nat) :
    (ExactAt 64 readVarU64 bytes pos ↔ ¬CutOff 9 2 bytes pos) ∧
      (ExactAt 128 Reader.varU128 bytes pos ↔ ¬CutOff 18 4 bytes pos) := by
  constructor
  · exact exact_iff (by decide) (by decide) bytes pos
  · rw [varU128_eq]
    exact exact_iff (by decide) (by decide) bytes pos

/-- Nine and eighteen empty groups, then a group one bit too high: both readers return 0. -/
theorem varint_drops_bits :
    ¬ExactAt 64 readVarU64 (List.replicate 9 0x80 ++ [2]) 0 ∧
      ¬ExactAt 128 Reader.varU128 (List.replicate 18 0x80 ++ [4]) 0 := by
  have hread : ∀ {bits : Nat} {truncated overflow : DeltaError} (n : Nat) (b : UInt8),
      0 < bits → 7 * n < bits → b.toNat < 128 →
      decode bits truncated overflow (List.replicate n 0x80 ++ [b]) 0 =
        .ok (groupSum (List.replicate n 0x80 ++ [b]) % 2 ^ bits, n + 1) := by
    intro bits truncated overflow n b hbits hn hb
    have hnumber : IsNumber (List.replicate n 0x80 ++ [b]) :=
      isNumber_iff.mpr ⟨_, b, rfl, fun x hx => by simp [List.eq_of_mem_replicate hx], hb⟩
    rw [decode_number hbits hnumber (List.append_nil _).symm, if_pos (by simpa using hn)]
    simp
  constructor
  · intro hexact
    have hvalue := hexact.value _ _ (hread 9 2 (by decide) (by decide) (by decide))
    exact absurd hvalue (by decide)
  · rw [varU128_eq]
    intro hexact
    have hvalue := hexact.value _ _ (hread 18 4 (by decide) (by decide) (by decide))
    exact absurd hvalue (by decide)

end DeltaStream
