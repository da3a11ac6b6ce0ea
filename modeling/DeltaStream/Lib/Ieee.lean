import Mathlib.Algebra.Field.Rat

/-!
# Binary floating-point numbers by their bit patterns

A `Format` is a sign bit over `expBits` exponent bits over `fracBits` fraction bits; a number
of the format is its bit pattern, read as a natural number.

* `Format.eq` — the language-level `==`: false as soon as a NaN is involved, and the two
  zeros are equal although their patterns differ (`eq_and_ne_iff`: that is the only way two
  equal numbers can differ);
* `Format.value` — the rational a finite pattern stands for;
* `roundNearest` — the nearest value with a given number of significant bits, ties to even,
  for rationals whose exponent is in the normal range.
-/

set_option autoImplicit false

namespace Ieee

structure Format where
  expBits : Nat
  fracBits : Nat

/-- IEEE 754 single precision. -/
def binary32 : Format := ⟨8, 23⟩

/-- IEEE 754 double precision. -/
def binary64 : Format := ⟨11, 52⟩

namespace Format

variable (fmt : Format)

/-- The weight of the sign bit: patterns below it are the non-negative numbers. -/
def signWeight : Nat := 2 ^ (fmt.expBits + fmt.fracBits)

/-- The pattern without its sign. -/
def magnitude (bits : Nat) : Nat := bits % fmt.signWeight

/-- The pattern of positive infinity: exponent all ones, fraction zero. -/
def infinity : Nat := (2 ^ fmt.expBits - 1) * 2 ^ fmt.fracBits

def isNegative (bits : Nat) : Bool := decide (fmt.signWeight ≤ bits)

def isNaN (bits : Nat) : Bool := decide (fmt.infinity < fmt.magnitude bits)

/-- The comparison `a == b` of the language. -/
def eq (a b : Nat) : Bool :=
  !fmt.isNaN a && !fmt.isNaN b &&
    (decide (a = b) || decide (fmt.magnitude a = 0 ∧ fmt.magnitude b = 0))

/-- The rational a finite pattern stands for. -/
def value (bits : Nat) : Rat :=
  let m := fmt.magnitude bits
  let e := m / 2 ^ fmt.fracBits
  let f := m % 2 ^ fmt.fracBits
  let bias : Int := 2 ^ (fmt.expBits - 1) - 1
  let significand : Nat := if e = 0 then f else 2 ^ fmt.fracBits + f
  let exponent : Int := (if e = 0 then 1 else (e : Int)) - bias - fmt.fracBits
  let v : Rat := (significand : Rat) * (2 : Rat) ^ exponent
  if fmt.isNegative bits then -v else v

/-- The comparison `q <= x` of a finite number with a number of the format. -/
def le (q : Rat) (x : Nat) : Bool :=
  if fmt.isNaN x then false
  else if fmt.magnitude x = fmt.infinity then !fmt.isNegative x
  else decide (q ≤ fmt.value x)

theorem signWeight_pos : 0 < fmt.signWeight := Nat.two_pow_pos _

/-- Equal numbers with different patterns are zeros of opposite sign. -/
theorem eq_and_ne_iff {a b : Nat} (ha : a < 2 * fmt.signWeight) (hb : b < 2 * fmt.signWeight) :
    (fmt.eq a b = true ∧ a ≠ b) ↔
      (a = 0 ∧ b = fmt.signWeight) ∨ (a = fmt.signWeight ∧ b = 0) := by
  have hpos := fmt.signWeight_pos
  have hzero : ∀ x, x < 2 * fmt.signWeight →
      (fmt.magnitude x = 0 ↔ x = 0 ∨ x = fmt.signWeight) := by
    intro x hx
    unfold magnitude
    constructor
    · intro h
      have hdvd : x = fmt.signWeight * (x / fmt.signWeight) := by
        have := Nat.div_add_mod x fmt.signWeight
        omega
      have hlt : x / fmt.signWeight < 2 := (Nat.div_lt_iff_lt_mul hpos).mpr hx
      rcases Nat.le_one_iff_eq_zero_or_eq_one.mp (Nat.lt_succ_iff.mp hlt) with h0 | h1
      · left
        rw [hdvd, h0, Nat.mul_zero]
      · right
        rw [hdvd, h1, Nat.mul_one]
    · rintro (rfl | rfl) <;> simp
  constructor
  · rintro ⟨heq, hne⟩
    simp only [eq, Bool.and_eq_true, Bool.or_eq_true, decide_eq_true_eq] at heq
    obtain ⟨-, hab | ⟨hma, hmb⟩⟩ := heq
    · exact absurd hab hne
    · rcases (hzero a ha).mp hma with rfl | rfl <;> rcases (hzero b hb).mp hmb with rfl | rfl
      · exact absurd rfl hne
      · exact .inl ⟨rfl, rfl⟩
      · exact .inr ⟨rfl, rfl⟩
      · exact absurd rfl hne
  · have hnan : ∀ x, fmt.magnitude x = 0 → fmt.isNaN x = false := by
      intro x hx
      simp [isNaN, hx]
    have hm0 : fmt.magnitude 0 = 0 := by simp [magnitude]
    have hms : fmt.magnitude fmt.signWeight = 0 := by simp [magnitude]
    rintro (⟨rfl, rfl⟩ | ⟨rfl, rfl⟩)
    · refine ⟨?_, by omega⟩
      simp [eq, hnan _ hm0, hnan _ hms, hm0, hms]
    · refine ⟨?_, by omega⟩
      simp [eq, hnan _ hm0, hnan _ hms, hm0, hms]

end Format

/-! ## Rounding -/

/-- The exponent of a positive rational: `2 ^ ilog2 q ≤ q < 2 ^ (ilog2 q + 1)`. -/
def ilog2 (q : Rat) : Int :=
  let e : Int := (Nat.log2 q.num.toNat : Int) - (Nat.log2 q.den : Int)
  if (2 : Rat) ^ e ≤ q then e else e - 1

/-- The nearest integer, ties to even. -/
def roundHalfEven (q : Rat) : Int :=
  let f := q.floor
  let r := q - f
  if r < 1 / 2 then f
  else if 1 / 2 < r then f + 1
  else if f % 2 = 0 then f else f + 1

/-- The nearest value with `precision` significant bits to a non-negative rational. -/
def roundNearest (precision : Nat) (q : Rat) : Rat :=
  if q = 0 then 0
  else
    let unit : Rat := (2 : Rat) ^ (ilog2 q - (precision - 1))
    roundHalfEven (q / unit) * unit

/-- The double-precision literal or conversion of a rational. -/
def toF64 (q : Rat) : Rat := roundNearest 53 q

/-- Double-precision quotient of two naturals, each converted first (`a as f64 / b as f64`). -/
def divF64 (a b : Nat) : Rat := toF64 (toF64 a / toF64 b)

example : divF64 1 3 = 6004799503160661 / 18014398509481984 := by decide +kernel

example : toF64 (98 / 100) = binary64.value 0x3FEF5C28F5C28F5C := by decide +kernel

end Ieee
