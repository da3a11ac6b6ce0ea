import DeltaStream.Lib.Ieee
import Mathlib.Algebra.Order.Floor.Ring
import Mathlib.Algebra.Order.Field.Power
import Mathlib.Data.Rat.Floor
import Mathlib.Tactic.Linarith
import Mathlib.Tactic.Ring
import Mathlib.Tactic.Positivity

/-!
# Arithmetic of binary floating-point numbers

Sums and remainders of numbers of a format, as the language computes them: the exact rational
rounded to the nearest number, ties to even, infinity when it is too large.

* `Format.nearest` — the number nearest to a non-negative rational;
* `Format.add`, `Format.rem` — `a + b` and `a % b`;
* `ilog2_spec` — the exponent of a positive rational;
* `nearest_le`, `value_lt` — a rational below a power of two rounds to a number no greater than it,
  and numbers below a power of two have values below it;
* `Finite.add_eq`, `Finite.rem_eq` — sum and remainder of finite numbers that are not negative.
-/

set_option autoImplicit false

namespace Ieee

namespace Format

variable (fmt : Format)

/-- The exponent of the smallest normal number. -/
def minExponent : Int := 2 - 2 ^ (fmt.expBits - 1)

/-- The number nearest to a non-negative rational. -/
def nearest (q : Rat) : Nat :=
  if q = 0 then 0
  else
    let e := max (ilog2 q) fmt.minExponent
    let significand := roundHalfEven (q / (2 : Rat) ^ (e - fmt.fracBits))
    min fmt.infinity ((e - fmt.minExponent).toNat * 2 ^ fmt.fracBits + significand.toNat)

def nan : Nat := fmt.infinity + 2 ^ (fmt.fracBits - 1)

def signed (negative : Bool) (magnitude : Nat) : Nat :=
  if negative then fmt.signWeight + magnitude else magnitude

def isInfinite (bits : Nat) : Bool := decide (fmt.magnitude bits = fmt.infinity)

def add (a b : Nat) : Nat :=
  if fmt.isNaN a || fmt.isNaN b then fmt.nan
  else if fmt.isInfinite a then
    if fmt.isInfinite b && (fmt.isNegative a != fmt.isNegative b) then fmt.nan else a
  else if fmt.isInfinite b then b
  else
    let sum := fmt.value a + fmt.value b
    if sum = 0 then fmt.signed (fmt.isNegative a && fmt.isNegative b) 0
    else if sum < 0 then fmt.signed true (fmt.nearest (-sum))
    else fmt.nearest sum

/-- The remainder has the sign of the dividend. -/
def rem (a b : Nat) : Nat :=
  if fmt.isNaN a || fmt.isNaN b || fmt.isInfinite a || decide (fmt.magnitude b = 0) then fmt.nan
  else if fmt.isInfinite b then a
  else
    let x := fmt.value (fmt.magnitude a)
    let y := fmt.value (fmt.magnitude b)
    fmt.signed (fmt.isNegative a) (fmt.nearest (x - y * (x / y).floor))

end Format

/-! ## Exponents and rounding -/

/-- **The exponent** of a positive rational. -/
theorem ilog2_spec {q : Rat} (hq : 0 < q) :
    (2 : Rat) ^ ilog2 q ≤ q ∧ q < (2 : Rat) ^ (ilog2 q + 1) := by
  have hnum : 0 < q.num := Rat.num_pos.mpr hq
  obtain ⟨n, hn⟩ : ∃ n : Nat, q.num = n := Int.eq_ofNat_of_zero_le hnum.le
  have hnpos : n ≠ 0 := by
    rintro rfl
    rw [hn] at hnum
    exact absurd hnum (by decide)
  have hd : (0 : Rat) < q.den := by exact_mod_cast q.den_pos
  have hqd : q * q.den = n := by rw [Rat.mul_den_eq_num, hn]; rfl
  have hnlo : (2 : Rat) ^ (Nat.log2 n : Int) ≤ n := by exact_mod_cast Nat.log2_self_le hnpos
  have hnhi : (n : Rat) < 2 ^ ((Nat.log2 n : Int) + 1) := by exact_mod_cast Nat.lt_log2_self
  have hdlo : (2 : Rat) ^ (Nat.log2 q.den : Int) ≤ q.den := by
    exact_mod_cast Nat.log2_self_le q.den_nz
  have hdhi : (q.den : Rat) < 2 ^ ((Nat.log2 q.den : Int) + 1) := by
    exact_mod_cast Nat.lt_log2_self
  unfold ilog2
  rw [hn, Int.toNat_natCast]
  generalize (Nat.log2 n : Int) = a at hnlo hnhi
  generalize (Nat.log2 q.den : Int) = b at hdlo hdhi
  -- the quotient of two numbers between powers of two
  have hlt : q < (2 : Rat) ^ (a - b + 1) := by
    rw [show a - b + 1 = a + 1 - b by ring, zpow_sub₀ (by norm_num), lt_div_iff₀ (by positivity)]
    calc q * 2 ^ b ≤ q * q.den := by gcongr
      _ = n := hqd
      _ < 2 ^ (a + 1) := hnhi
  have hge : (2 : Rat) ^ (a - b - 1) ≤ q := by
    rw [show a - b - 1 = a - (b + 1) by ring, zpow_sub₀ (by norm_num), div_le_iff₀ (by positivity)]
    calc (2 : Rat) ^ a ≤ n := hnlo
      _ = q * q.den := hqd.symm
      _ ≤ q * 2 ^ (b + 1) := by gcongr
  simp only
  split
  · exact ⟨by assumption, hlt⟩
  · rename_i hnot
    refine ⟨hge, ?_⟩
    rw [show a - b - 1 + 1 = a - b by ring]
    exact not_le.mp hnot

theorem ilog2_lt {q : Rat} {k : Int} (hq : 0 < q) (h : q < (2 : Rat) ^ k) : ilog2 q < k := by
  have hlo := (ilog2_spec hq).1
  exact (zpow_lt_zpow_iff_right₀ (by norm_num)).mp (hlo.trans_lt h)

theorem roundHalfEven_le {q : Rat} {n : Int} (h : q ≤ n) : roundHalfEven q ≤ n := by
  have hfloor : q.floor ≤ n := by
    have := Rat.floor_monotone h
    rwa [Rat.floor_intCast] at this
  have hup : 1 / 2 ≤ q - q.floor → q.floor + 1 ≤ n := by
    intro hhalf
    have hlt : (q.floor : Rat) < n := by linarith
    have : q.floor < n := by exact_mod_cast hlt
    omega
  unfold roundHalfEven
  simp only
  split
  · exact hfloor
  · split
    · exact hup (by linarith)
    · split
      · exact hfloor
      · exact hup (by linarith)

namespace Format

variable {fmt : Format}

/-- **Rounding below a power of two** gives a number no greater than it. -/
theorem nearest_le {q : Rat} {k : Int} (hq : 0 ≤ q) (hk : fmt.minExponent < k)
    (h : q < (2 : Rat) ^ k) :
    fmt.nearest q ≤ (k + 1 - fmt.minExponent).toNat * 2 ^ fmt.fracBits := by
  unfold nearest
  split
  · exact Nat.zero_le _
  rename_i hne
  have hpos : 0 < q := lt_of_le_of_ne hq (Ne.symm hne)
  have hlog := ilog2_lt hpos h
  simp only
  generalize he : max (ilog2 q) fmt.minExponent = e
  have hek : e < k := by omega
  have hmin : fmt.minExponent ≤ e := by omega
  have hsig : roundHalfEven (q / (2 : Rat) ^ (e - fmt.fracBits)) ≤
      ((2 ^ (fmt.fracBits + 1) : Nat) : Int) := by
    apply roundHalfEven_le
    rw [div_le_iff₀ (by positivity)]
    push_cast
    rw [← zpow_natCast, ← zpow_add₀ (by norm_num),
      show ((fmt.fracBits + 1 : Nat) : Int) + (e - fmt.fracBits) = e + 1 by push_cast; ring]
    refine (ilog2_spec hpos).2.le.trans (zpow_le_zpow_right₀ (by norm_num) ?_)
    omega
  refine (Nat.min_le_right _ _).trans ?_
  have hexp : (e - fmt.minExponent).toNat + 2 ≤ (k + 1 - fmt.minExponent).toNat := by omega
  have hsig' : (roundHalfEven (q / (2 : Rat) ^ (e - fmt.fracBits))).toNat ≤
      2 * 2 ^ fmt.fracBits := by
    rw [← Nat.pow_succ']
    exact Int.toNat_le.mpr hsig
  calc (e - fmt.minExponent).toNat * 2 ^ fmt.fracBits + _
      ≤ (e - fmt.minExponent).toNat * 2 ^ fmt.fracBits + 2 * 2 ^ fmt.fracBits := by gcongr
    _ = ((e - fmt.minExponent).toNat + 2) * 2 ^ fmt.fracBits := by ring
    _ ≤ (k + 1 - fmt.minExponent).toNat * 2 ^ fmt.fracBits := by gcongr

/-- A number below a power of two has a value below it. -/
theorem value_lt {bits n : Nat} (hn : 1 ≤ n) (h : bits < (n + 1) * 2 ^ fmt.fracBits)
    (hsign : bits < fmt.signWeight) :
    0 ≤ fmt.value bits ∧ fmt.value bits < (2 : Rat) ^ ((n : Int) + fmt.minExponent) := by
  have hmag : fmt.magnitude bits = bits := Nat.mod_eq_of_lt hsign
  have hneg : fmt.isNegative bits = false := decide_eq_false (Nat.not_le.mpr hsign)
  have hexp : bits / 2 ^ fmt.fracBits ≤ n := by
    have := (Nat.div_lt_iff_lt_mul (Nat.two_pow_pos fmt.fracBits)).mpr h
    omega
  have hfrac : bits % 2 ^ fmt.fracBits < 2 ^ fmt.fracBits := Nat.mod_lt _ (Nat.two_pow_pos _)
  unfold value
  simp only [hmag, hneg, Bool.false_eq_true, if_false]
  generalize bits / 2 ^ fmt.fracBits = e at hexp
  generalize bits % 2 ^ fmt.fracBits = f at hfrac
  refine ⟨by positivity, ?_⟩
  have hsig : ((if e = 0 then f else 2 ^ fmt.fracBits + f : Nat) : Rat) <
      (2 : Rat) ^ ((fmt.fracBits : Int) + 1) := by
    have hnat : (if e = 0 then f else 2 ^ fmt.fracBits + f) < 2 ^ (fmt.fracBits + 1) := by
      rw [Nat.pow_succ]
      split <;> omega
    exact_mod_cast hnat
  calc _ < (2 : Rat) ^ ((fmt.fracBits : Int) + 1) *
        2 ^ ((if e = 0 then 1 else (e : Int)) - (2 ^ (fmt.expBits - 1) - 1) - fmt.fracBits) := by
        exact mul_lt_mul_of_pos_right hsig (by positivity)
    _ = (2 : Rat) ^ ((if e = 0 then 1 else (e : Int)) + fmt.minExponent) := by
        rw [← zpow_add₀ (by norm_num)]
        congr 1
        unfold minExponent
        ring
    _ ≤ (2 : Rat) ^ ((n : Int) + fmt.minExponent) := by
        refine zpow_le_zpow_right₀ (by norm_num) ?_
        split <;> omega

/-! ## Sums and remainders of non-negative numbers -/

/-- A finite number that is not negative. -/
def Finite (fmt : Format) (bits : Nat) : Prop := bits < fmt.infinity

instance (fmt : Format) (bits : Nat) : Decidable (fmt.Finite bits) :=
  inferInstanceAs (Decidable (bits < fmt.infinity))

theorem infinity_le_signWeight : fmt.infinity ≤ fmt.signWeight := by
  unfold infinity signWeight
  rw [Nat.pow_add]
  exact Nat.mul_le_mul_right _ (Nat.sub_le _ _)

namespace Finite

variable {a b : Nat}

theorem sign (h : fmt.Finite a) : a < fmt.signWeight := Nat.lt_of_lt_of_le h infinity_le_signWeight

theorem magnitude_eq (h : fmt.Finite a) : fmt.magnitude a = a := Nat.mod_eq_of_lt h.sign

theorem isNaN_eq (h : fmt.Finite a) : fmt.isNaN a = false := by
  unfold isNaN
  rw [h.magnitude_eq]
  exact decide_eq_false (Nat.not_lt.mpr (Nat.le_of_lt h))

theorem isInfinite_eq (h : fmt.Finite a) : fmt.isInfinite a = false := by
  unfold isInfinite
  rw [h.magnitude_eq]
  exact decide_eq_false (Nat.ne_of_lt h)

theorem isNegative_eq (h : fmt.Finite a) : fmt.isNegative a = false :=
  decide_eq_false (Nat.not_le.mpr h.sign)

/-- Equality of a number with itself. -/
theorem eq_self (h : fmt.Finite a) : fmt.eq a a = true := by
  unfold eq
  rw [h.isNaN_eq]
  simp

theorem add_eq (ha : fmt.Finite a) (hb : fmt.Finite b) (hva : 0 ≤ fmt.value a)
    (hvb : 0 ≤ fmt.value b) : fmt.add a b = fmt.nearest (fmt.value a + fmt.value b) := by
  unfold add
  rw [ha.isNaN_eq, hb.isNaN_eq, ha.isInfinite_eq, hb.isInfinite_eq]
  simp only [Bool.or_false, Bool.false_eq_true, if_false]
  have hsum : 0 ≤ fmt.value a + fmt.value b := add_nonneg hva hvb
  split
  · rename_i hzero
    rw [hzero, ha.isNegative_eq]
    simp [signed, nearest]
  · rw [if_neg (not_lt.mpr hsum)]

theorem rem_eq (ha : fmt.Finite a) (hb : fmt.Finite b) (hb0 : b ≠ 0) :
    fmt.rem a b = fmt.nearest
      (fmt.value a - fmt.value b * (fmt.value a / fmt.value b).floor) := by
  unfold rem
  rw [ha.isNaN_eq, hb.isNaN_eq, ha.isInfinite_eq, hb.isInfinite_eq, ha.magnitude_eq,
    hb.magnitude_eq, decide_eq_false hb0, ha.isNegative_eq]
  rfl

end Finite

/-- A remainder of rationals is below the divisor. -/
theorem remainder_lt {x y : Rat} (hy : 0 < y) :
    0 ≤ x - y * (x / y).floor ∧ x - y * (x / y).floor < y := by
  have hle : ((x / y).floor : Rat) ≤ x / y := Rat.floor_le _
  have hlt : x / y < ((x / y).floor : Rat) + 1 := by exact_mod_cast Rat.lt_floor_add_one (x / y)
  rw [le_div_iff₀ hy] at hle
  rw [div_lt_iff₀ hy] at hlt
  constructor <;> linarith

end Format

example : binary32.nearest (342 / 10) = 0x4208CCCD := by decide +kernel

example : binary32.add 0x4208CCCD 0x3FF33333 = 0x42106667 := by decide +kernel

end Ieee
