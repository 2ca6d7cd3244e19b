import Mathlib.Algebra.Order.Field.Power
import Mathlib.Algebra.Order.Field.Rat
import Mathlib.Tactic.FieldSimp
import Evenkeel.Python.Decimal

/-!
# What a Decimal Is Worth

Decimals as rational numbers, and where the default context gives up: a result overflows
exactly when, rounded to 28 digits, it would need an exponent above the largest.

- `Number.value`: the rational number that a decimal denotes
- `overflowBound`: the least magnitude that rounds to something too large

## Key Results

- `Number.value_eq_scaled`: the value, counted in any unit fine enough
- `le_roundHalfEven_iff`: when rounding reaches an even number
- `Number.fix_eq_error_iff`: a result overflows from `overflowBound` on
-/

namespace Evenkeel.Python

namespace Number

/-- The rational number that a decimal denotes. -/
def value (n : Number) : ℚ := signed n.negative n.coeff * 10 ^ n.exp

theorem abs_value (n : Number) : |n.value| = n.coeff * 10 ^ n.exp := by
  have hpow : (0 : ℚ) < 10 ^ n.exp := zpow_pos (by norm_num) _
  have hsigned : |(signed n.negative n.coeff : ℚ)| = n.coeff := by
    rw [← Int.cast_abs, Int.abs_eq_natAbs, natAbs_signed, Int.cast_natCast]
  rw [value, abs_mul, hsigned, abs_of_pos hpow]

/-- The value, counted in units of `10 ^ e`. -/
theorem value_eq_scaled (n : Number) {e : ℤ} (he : e ≤ n.exp) : n.value = n.scaled e * 10 ^ e := by
  have hexp : n.exp = ((n.exp - e).toNat : ℤ) + e := by omega
  rw [value, scaled, signed_mul]
  push_cast
  rw [mul_assoc, ← zpow_natCast, ← zpow_add₀ (by norm_num : (10 : ℚ) ≠ 0), ← hexp]

/-- Comparison is of values. -/
theorem lt_iff_value (a b : Number) : a.lt b = true ↔ a.value < b.value := by
  have hpow : (0 : ℚ) < 10 ^ min a.exp b.exp := zpow_pos (by norm_num) _
  rw [lt_iff a b le_rfl, a.value_eq_scaled (min_le_left _ _), b.value_eq_scaled (min_le_right _ _),
    mul_lt_mul_iff_left₀ hpow, Int.cast_lt]

end Number

/-! ## Overflow -/

/-- The least magnitude that rounds to 28 digits with too large an exponent: half a unit of
    the last place below `10 ^ 1000000`. -/
def overflowBound : ℚ := (10 ^ prec - 1 / 2) * 10 ^ etop

theorem lt_pow_digitCount (n : ℕ) : n < 10 ^ digitCount n :=
  (digitCount_le_iff (digitCount_pos n)).mp le_rfl

theorem pow_digitCount_le {n : ℕ} (hn : n ≠ 0) : 10 ^ (digitCount n - 1) ≤ n := by
  by_cases hone : digitCount n = 1
  · rw [hone]
    exact Nat.one_le_iff_ne_zero.mpr hn
  · have hpos := digitCount_pos n
    rw [← not_lt, ← digitCount_le_iff (by omega)]
    omega

/-- Rounding half to even reaches an even number from half a unit below it. -/
theorem le_roundHalfEven_iff {n d m : ℕ} (hd : 0 < d) (hm : m % 2 = 0) (hpos : 0 < m) :
    m ≤ roundHalfEven n d ↔ (2 * m - 1) * d ≤ 2 * n := by
  have hn := Nat.div_add_mod n d
  have hr := Nat.mod_lt n hd
  unfold roundHalfEven
  set q := n / d with hq
  set r := n % d with hr'
  rcases lt_trichotomy (q + 1) m with hlt | heq | hgt
  · -- more than a unit below
    have hfar : (2 * (q + 1) + 1) * d ≤ (2 * m - 1) * d := Nat.mul_le_mul_right d (by omega)
    have hnear : ¬ (2 * m - 1) * d ≤ 2 * n := by nlinarith
    split_ifs <;> simp only [hnear, iff_false] <;> omega
  · -- the last unit, where it depends on the rest
    have hodd : 2 * m - 1 = 2 * q + 1 := by omega
    rw [hodd]
    have hcmp : (2 * q + 1) * d ≤ 2 * n ↔ d ≤ 2 * r := by
      constructor <;> intro h <;> nlinarith
    rw [hcmp]
    split_ifs <;> omega
  · -- a unit above at least
    have hle : (2 * m - 1) * d ≤ 2 * n := by
      have : (2 * m - 1) * d ≤ (2 * q) * d := Nat.mul_le_mul_right d (by omega)
      nlinarith
    split_ifs <;> simp only [hle, iff_true] <;> omega

namespace Number

private theorem zpow_split {i j k : ℤ} (h : i = j + k) : (10 : ℚ) ^ i = 10 ^ j * 10 ^ k := by
  rw [h, zpow_add₀ (by norm_num)]

/-- Too many places before the point for any 28 digits. -/
private theorem bound_le_of_gt {n : Number} (hcoeff : n.coeff ≠ 0)
    (ht : etop < digitCount n.coeff + n.exp - prec) : overflowBound ≤ |n.value| := by
  have hpos := digitCount_pos n.coeff
  have hexp : (10 : ℚ) ^ ((prec : ℤ) + etop) ≤ 10 ^ (((digitCount n.coeff - 1 : ℕ) : ℤ) + n.exp) :=
    zpow_le_zpow_right₀ (by norm_num) (by omega)
  rw [zpow_split rfl, zpow_split rfl, zpow_natCast, zpow_natCast] at hexp
  have hdigits : ((10 : ℚ)) ^ (digitCount n.coeff - 1) ≤ n.coeff := by
    exact_mod_cast pow_digitCount_le hcoeff
  have htop : (0 : ℚ) < 10 ^ etop := zpow_pos (by norm_num) _
  have hunit : (0 : ℚ) < 10 ^ n.exp := zpow_pos (by norm_num) _
  rw [abs_value, overflowBound]
  calc (10 ^ prec - 1 / 2) * (10 : ℚ) ^ etop ≤ 10 ^ prec * 10 ^ etop :=
        mul_le_mul_of_nonneg_right (by linarith) htop.le
    _ ≤ 10 ^ (digitCount n.coeff - 1) * 10 ^ n.exp := hexp
    _ ≤ n.coeff * 10 ^ n.exp := mul_le_mul_of_nonneg_right hdigits hunit.le

/-- Room for at least one more place. -/
private theorem lt_bound_of_lt {n : Number} (ht : digitCount n.coeff + n.exp - prec < etop) :
    |n.value| < overflowBound := by
  have hprec : (prec : ℤ) = 28 := rfl
  have hexp : (10 : ℚ) ^ ((digitCount n.coeff : ℤ) + n.exp) ≤ 10 ^ (27 + etop) :=
    zpow_le_zpow_right₀ (by norm_num) (by omega)
  rw [zpow_split rfl, zpow_split rfl, zpow_natCast] at hexp
  have hdigits : (n.coeff : ℚ) < 10 ^ digitCount n.coeff := by
    exact_mod_cast lt_pow_digitCount n.coeff
  have htop : (0 : ℚ) < 10 ^ etop := zpow_pos (by norm_num) _
  have hunit : (0 : ℚ) < 10 ^ n.exp := zpow_pos (by norm_num) _
  rw [abs_value, overflowBound]
  calc (n.coeff : ℚ) * 10 ^ n.exp < 10 ^ digitCount n.coeff * 10 ^ n.exp :=
        mul_lt_mul_of_pos_right hdigits hunit
    _ ≤ 10 ^ (27 : ℤ) * 10 ^ etop := hexp
    _ ≤ (10 ^ prec - 1 / 2) * 10 ^ etop :=
        mul_le_mul_of_nonneg_right (by norm_num [prec]) htop.le

/-- The last place there is, for a number that keeps all its digits. -/
private theorem lt_bound_of_short {n : Number}
    (ht : digitCount n.coeff + n.exp - prec = etop) (hshort : etop ≤ n.exp) :
    |n.value| < overflowBound := by
  have htop : (0 : ℚ) < 10 ^ etop := zpow_pos (by norm_num) _
  obtain ⟨k, hk⟩ := Int.eq_ofNat_of_zero_le (sub_nonneg.mpr hshort)
  have hfill : digitCount n.coeff + k = prec := by omega
  have hcoeff : n.coeff * 10 ^ k + 1 ≤ 10 ^ prec := by
    rw [← hfill, pow_add]
    exact Nat.mul_lt_mul_of_pos_right (lt_pow_digitCount _) (by positivity)
  have hcoeff : (n.coeff : ℚ) * 10 ^ k + 1 ≤ 10 ^ prec := by exact_mod_cast hcoeff
  rw [abs_value, overflowBound, zpow_split (by omega : n.exp = (k : ℤ) + etop), zpow_natCast,
    ← mul_assoc]
  exact mul_lt_mul_of_pos_right (by linarith) htop

/-- The last place there is, for a number that is rounded to it. -/
private theorem bound_le_iff_of_long {n : Number} {k : ℕ} (hk : etop = (k : ℤ) + n.exp) :
    prec < digitCount (roundHalfEven n.coeff (10 ^ k)) ↔ overflowBound ≤ |n.value| := by
  have hunit : (0 : ℚ) < 10 ^ n.exp := zpow_pos (by norm_num) _
  rw [← not_le, digitCount_le_iff (by decide), not_lt,
    le_roundHalfEven_iff (by positivity) (by decide) (by positivity), abs_value, overflowBound,
    zpow_split hk, zpow_natCast, ← mul_assoc, mul_le_mul_iff_left₀ hunit]
  have hcast : (((2 * 10 ^ prec - 1) * 10 ^ k : ℕ) : ℚ) = (2 * 10 ^ prec - 1) * 10 ^ k := by
    rw [Nat.cast_mul, Nat.cast_sub (by decide)]
    push_cast
    rfl
  rw [← Nat.cast_le (α := ℚ), hcast, Nat.cast_mul, Nat.cast_ofNat]
  constructor <;> intro h <;> linarith

/-- Rounding moves the exponent up, but for a zero whose exponent is out of range. -/
theorem le_exp_of_fix {n a : Number} (h : n.fix = .ok a) : min n.exp emax ≤ a.exp := by
  unfold fix at h
  split_ifs at h
  · obtain rfl := Except.ok.inj h
    simp only
    omega
  · simp only at h
    split_ifs at h
    · obtain rfl := Except.ok.inj h
      simp only
      omega
    · obtain rfl := Except.ok.inj h
      simp only
      omega
    · obtain rfl := Except.ok.inj h
      omega

/-- A result overflows exactly from the bound on. -/
theorem fix_eq_error_iff (n : Number) : (∃ s, n.fix = .error s) ↔ overflowBound ≤ |n.value| := by
  by_cases hcoeff : n.coeff = 0
  · have hbound : 0 < overflowBound := mul_pos (by norm_num [prec]) (zpow_pos (by norm_num) _)
    have hvalue : |n.value| = 0 := by rw [abs_value, hcoeff, Nat.cast_zero, zero_mul]
    simp [fix_zero hcoeff, hvalue, not_le.mpr hbound]
  have hetiny : etiny + 1 < etop := by decide
  rcases lt_trichotomy (digitCount n.coeff + n.exp - prec) etop with hlt | heq | hgt
  · -- whatever the rounding does, there is room for it
    have hroom : ¬ etop < max (digitCount n.coeff + n.exp - prec) etiny + 1 := by omega
    simp only [not_le.mpr (lt_bound_of_lt hlt), iff_false, not_exists]
    intro s
    simp only [fix, if_neg hcoeff, if_neg (not_lt.mpr hlt.le), if_neg hroom]
    split_ifs <;> intro hfix <;> cases hfix
  · -- the digits just fit, unless rounding carries into one more
    have hmax : max (digitCount n.coeff + n.exp - prec) etiny = etop := by omega
    simp only [fix, if_neg hcoeff, if_neg (not_lt.mpr heq.le), hmax]
    by_cases hshort : etop ≤ n.exp
    · -- no rounding at all
      simp [not_lt.mpr hshort, not_le.mpr (lt_bound_of_short heq hshort)]
    · obtain ⟨k, hk⟩ := Int.eq_ofNat_of_zero_le (sub_nonneg.mpr (not_le.mp hshort).le)
      rw [← bound_le_iff_of_long (n := n) (k := k) (by omega), if_pos (not_le.mp hshort), hk,
        Int.toNat_natCast, if_pos (lt_add_one etop)]
      split_ifs with hcarry <;> simp [hcarry]
  · -- too large before any rounding
    simp [fix, hcoeff, hgt, bound_le_of_gt hcoeff hgt]

theorem abs_eq_error_iff (n : Number) : (∃ s, n.abs = .error s) ↔ overflowBound ≤ |n.value| := by
  have hvalue : |({ n with negative := false } : Number).value| = |n.value| := by
    rw [abs_value, abs_value]
  rw [abs, fix_eq_error_iff, hvalue]

end Number

end Evenkeel.Python
