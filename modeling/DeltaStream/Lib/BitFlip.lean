import DeltaStream.Lib.ByteReader

/-!
# One flipped bit in a byte string

`flipBit bytes i` is `bytes` with bit `i` changed; bits count through the bytes from the least
significant bit of the first one.

* `flipBit_append_left`, `flipBit_append_right` — where the bit of a concatenation lies;
* `flipBit_drop_lt`, `flipBit_take_lt`, …, `flipBit_eq_set` — what the parts of the result are;
* `leBytes_xor` — flipping a bit of a little-endian number;
* `flipBit_ne` — a flip changes the byte string.
-/

set_option autoImplicit false

namespace BitFlip

open ByteReader

def flipBit : List UInt8 → Nat → List UInt8
  | [], _ => []
  | b :: bs, i => if i < 8 then (b ^^^ UInt8.ofNat (2 ^ i)) :: bs else b :: flipBit bs (i - 8)

@[simp] theorem flipBit_length : ∀ (bs : List UInt8) (i : Nat), (flipBit bs i).length = bs.length
  | [], _ => rfl
  | b :: bs, i => by
    unfold flipBit
    split
    · rfl
    · simp [flipBit_length bs (i - 8)]

theorem flipBit_append_left (bs : List UInt8) :
    ∀ {as : List UInt8} {i : Nat}, i < 8 * as.length →
      flipBit (as ++ bs) i = flipBit as i ++ bs
  | [], i, h => by simp at h
  | a :: as, i, h => by
    rw [List.length_cons] at h
    rw [List.cons_append, flipBit, flipBit]
    split
    · rfl
    · rw [flipBit_append_left bs (by omega), List.cons_append]

theorem flipBit_append_right (bs : List UInt8) :
    ∀ {as : List UInt8} {i : Nat}, 8 * as.length ≤ i →
      flipBit (as ++ bs) i = as ++ flipBit bs (i - 8 * as.length)
  | [], i, _ => rfl
  | a :: as, i, h => by
    rw [List.length_cons] at h ⊢
    have hsub : i - 8 * (as.length + 1) = i - 8 - 8 * as.length := by omega
    rw [List.cons_append, flipBit, if_neg (by omega), flipBit_append_right bs (by omega), hsub]
    rfl

theorem flipBit_drop_lt : ∀ (n : Nat) (bs : List UInt8) (i : Nat), i < 8 * n →
    (flipBit bs i).drop n = bs.drop n
  | 0, _, _, h => by omega
  | n + 1, [], _, _ => rfl
  | n + 1, b :: bs, i, h => by
    unfold flipBit
    split
    · rfl
    · exact flipBit_drop_lt n bs (i - 8) (by omega)

theorem flipBit_drop_ge : ∀ (n : Nat) (bs : List UInt8) (i : Nat), 8 * n ≤ i →
    (flipBit bs i).drop n = flipBit (bs.drop n) (i - 8 * n)
  | 0, _, _, _ => rfl
  | n + 1, [], _, _ => rfl
  | n + 1, b :: bs, i, h => by
    have hsub : i - 8 * (n + 1) = i - 8 - 8 * n := by omega
    rw [flipBit, if_neg (by omega), List.drop_succ_cons, List.drop_succ_cons, hsub]
    exact flipBit_drop_ge n bs (i - 8) (by omega)

theorem flipBit_take_lt : ∀ (n : Nat) (bs : List UInt8) (i : Nat), i < 8 * n →
    (flipBit bs i).take n = flipBit (bs.take n) i
  | 0, _, _, h => by omega
  | n + 1, [], _, _ => rfl
  | n + 1, b :: bs, i, h => by
    rw [List.take_succ_cons, flipBit, flipBit]
    split
    · rfl
    · rw [List.take_succ_cons, flipBit_take_lt n bs (i - 8) (by omega)]

theorem flipBit_take_ge : ∀ (n : Nat) (bs : List UInt8) (i : Nat), 8 * n ≤ i →
    (flipBit bs i).take n = bs.take n
  | 0, _, _, _ => rfl
  | n + 1, [], _, _ => rfl
  | n + 1, b :: bs, i, h => by
    rw [flipBit, if_neg (by omega), List.take_succ_cons, List.take_succ_cons,
      flipBit_take_ge n bs (i - 8) (by omega)]

/-- The byte the bit lies in is replaced. -/
theorem flipBit_eq_set : ∀ (n : Nat) (bs : List UInt8) (i : Nat), 8 * n ≤ i → i < 8 * n + 8 →
    flipBit bs i = bs.set n (bs.getD n 0 ^^^ UInt8.ofNat (2 ^ (i - 8 * n)))
  | _, [], _, _, _ => rfl
  | 0, b :: bs, i, _, h => by
    rw [flipBit, if_pos (by omega)]
    rfl
  | n + 1, b :: bs, i, hge, hlt => by
    have hsub : i - 8 * (n + 1) = i - 8 - 8 * n := by omega
    rw [flipBit, if_neg (by omega), flipBit_eq_set n bs (i - 8) (by omega) (by omega), hsub]
    rfl

/-- A changed bit inside a byte. -/
theorem bit_ne_zero : ∀ i < 8, UInt8.ofNat (2 ^ i) ≠ 0 := by decide

theorem xor_bit_ne {b : UInt8} {i : Nat} (h : i < 8) : b ^^^ UInt8.ofNat (2 ^ i) ≠ b := by
  intro heq
  refine bit_ne_zero i h ((UInt8.xor_right_inj b).mp ?_)
  rw [heq, UInt8.xor_zero]

/-- **A flip changes the byte string**, in exactly one byte. -/
theorem flipBit_split : ∀ (bs : List UInt8) (i : Nat), i < 8 * bs.length →
    ∃ before b b' after, bs = before ++ b :: after ∧
      flipBit bs i = before ++ b' :: after ∧ b' ≠ b
  | [], i, h => by simp at h
  | b :: bs, i, h => by
    rw [List.length_cons] at h
    unfold flipBit
    split
    · rename_i hi
      exact ⟨[], b, _, bs, rfl, rfl, xor_bit_ne hi⟩
    · obtain ⟨before, c, c', after, hbs, hflip, hne⟩ :=
        flipBit_split bs (i - 8) (by omega)
      exact ⟨b :: before, c, c', after, by rw [hbs]; rfl, by rw [hflip]; rfl, hne⟩

theorem flipBit_ne {bs : List UInt8} {i : Nat} (h : i < 8 * bs.length) : flipBit bs i ≠ bs := by
  obtain ⟨before, b, b', after, hbs, hflip, hne⟩ := flipBit_split bs i h
  rw [hflip, hbs]
  intro heq
  exact hne (List.cons.inj (List.append_cancel_left heq)).1

/-- **Flipping a bit of a little-endian number** flips that bit of the number. -/
theorem leBytes_xor : ∀ (k v i : Nat), i < 8 * k →
    leBytes k (v ^^^ 2 ^ i) = flipBit (leBytes k v) i
  | 0, v, i, h => by omega
  | k + 1, v, i, h => by
    have hdiv : (v ^^^ 2 ^ i) / 256 = v / 256 ^^^ 2 ^ i / 256 :=
      Nat.xor_div_two_pow (a := v) (b := 2 ^ i) (n := 8)
    rw [leBytes, leBytes, flipBit, UInt8.ofNat_xor, hdiv]
    split
    · rename_i hi
      have hlt : 2 ^ i < 256 := Nat.pow_lt_pow_right (by decide) hi (n := 8)
      rw [Nat.div_eq_of_lt hlt, Nat.xor_zero]
    · rename_i hi
      have hpow : 2 ^ i = 256 * 2 ^ (i - 8) := by
        rw [show (256 : Nat) = 2 ^ 8 from rfl, ← Nat.pow_add]
        congr 1
        omega
      have hlow : UInt8.ofNat (2 ^ i) = 0 := by
        apply UInt8.toNat_inj.mp
        rw [UInt8.toNat_ofNat', hpow]
        simp
      have hhigh : 2 ^ i / 256 = 2 ^ (i - 8) := by
        rw [hpow]
        omega
      rw [hlow, UInt8.xor_zero, hhigh, leBytes_xor k (v / 256) (i - 8) (by omega)]

end BitFlip
