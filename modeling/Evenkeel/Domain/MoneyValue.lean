import Evenkeel.Domain.Money
import Evenkeel.Python.DecimalValue

/-!
# The Range of Money

The checks of `Money._validate` on what an amount is worth. The range check compares an
absolute value that the context may have rounded, and that it may refuse to compute.

## Key Results

- `moneyMax_lt_abs_iff`: rounding does not move an amount across the maximum
- `Money.construct_of_abs_le`, `Money.construct_of_gt`, `Money.construct_of_overflow`,
  `Money.construct_of_scale`: what the constructor makes of a finite amount
- `Money.construct_exact`: and of an exact result
- `Money.amount_add_value`, `Money.amount_sub_value`: sums and differences are exact
-/

namespace Evenkeel.Domain

open Evenkeel.Python

theorem moneyMax_value : moneyMax.value = (10 ^ 20 - 1) * 10 ^ (-2 : ℤ) := by
  norm_num [Number.value, moneyMax, Number.signed]

/-- The context rounds nothing below 28 digits, and an amount of more than that is out of range
    either way. -/
theorem moneyMax_lt_abs_iff {n a : Number} (hexp : -2 ≤ n.exp) (habs : n.abs = .ok a) :
    moneyMax.lt a = true ↔ moneyMax.value < |n.value| := by
  have hprec : prec = 28 := rfl
  have hetiny : etiny = -1000026 := rfl
  rw [Number.lt_iff_value]
  -- a zero stays below the bound
  by_cases hcoeff : n.coeff = 0
  · have hzero := Number.fix_zero (n := { n with negative := false }) hcoeff
    have ha := Except.ok.inj (hzero.symm.trans habs)
    have hvalue : |n.value| = 0 := by rw [Number.abs_value, hcoeff, Nat.cast_zero, zero_mul]
    have hzero : a.value = 0 := by simp [← ha, Number.value]
    rw [hvalue, hzero]
  -- short enough to be copied: the two sides compare the same number
  by_cases hdigits : n.coeff < 10 ^ prec
  · by_cases htop : digitCount n.coeff + n.exp - prec ≤ etop
    · have hsame := Number.fix_exact (n := { n with negative := false }) hcoeff hdigits
        (by simp only; omega) htop
      obtain rfl := Except.ok.inj (hsame.symm.trans habs)
      rw [Number.abs_value, Number.value]
      rfl
    · -- `abs` would have raised
      simp [Number.abs, Number.fix, hcoeff, not_le.mp htop] at habs
  · -- more than 28 digits, before and after rounding
    have hlong := not_lt.mp hdigits
    obtain ⟨hlarge, hgrow⟩ :=
      Number.fix_large (n := { n with negative := false }) (by simp only; omega) hlong habs
    have hpositive : a.negative = false := Number.fix_negative habs
    have hfar : ∀ {k : ℕ} {e : ℤ}, 10 ^ 27 ≤ k → -2 ≤ e → moneyMax.value < k * 10 ^ e := by
      intro k e hk he
      have hunit : (10 : ℚ) ^ (-2 : ℤ) ≤ 10 ^ e := zpow_le_zpow_right₀ (by norm_num) he
      have hcast : (10 : ℚ) ^ 27 ≤ k := by exact_mod_cast hk
      calc moneyMax.value < 10 ^ 27 * 10 ^ (-2 : ℤ) := by rw [moneyMax_value]; norm_num
        _ ≤ k * 10 ^ e := mul_le_mul hcast hunit (by positivity) (by positivity)
    have hvalue : a.value = a.coeff * 10 ^ a.exp := by
      rw [Number.value, hpositive]
      rfl
    rw [Number.abs_value, hvalue]
    refine iff_of_true (hfar (by rw [hprec] at hlarge; exact hlarge) (by simp only at hgrow; omega))
      (hfar ?_ hexp)
    rw [hprec] at hlong
    exact le_trans (by norm_num) hlong

/-- Nothing that is in range overflows. -/
theorem moneyMax_lt_overflowBound : moneyMax.value < overflowBound := by
  have htop : (1 : ℚ) ≤ 10 ^ etop := one_le_zpow₀ (by norm_num) (by decide)
  calc moneyMax.value < 10 ^ prec - 1 / 2 := by rw [moneyMax_value]; norm_num [prec]
    _ ≤ overflowBound := le_mul_of_one_le_right (by norm_num [prec]) htop

namespace Money

/-! ## The constructor -/

section

variable {n : Number}

private theorem abs_ok (h : |n.value| < overflowBound) : ∃ a, n.abs = .ok a := by
  cases habs : n.abs with
  | ok a => exact ⟨a, rfl⟩
  | error s => exact absurd (n.abs_eq_error_iff.mp ⟨s, habs⟩) (not_le.mpr h)

/-- With a scale that is allowed, the range check decides. -/
private theorem construct_finite (c : CurrencyCode) (hexp : -2 ≤ n.exp) {a : Number}
    (habs : n.abs = .ok a) :
    (moneyMax.value < |n.value| ∧ construct (.finite n) c = refuse .moneyAmountOutOfRange
      [("amount", (Decimal.finite n).str), ("max", (Decimal.finite moneyMax).str)]) ∨
    (|n.value| ≤ moneyMax.value ∧ ∃ m, construct (.finite n) c = .ok m) := by
  have hscale : -n.exp ≤ moneyScale := by
    have hscale : (moneyScale : ℤ) = 2 := rfl
    omega
  have hrange := moneyMax_lt_abs_iff hexp habs
  unfold construct
  simp only [hscale, dif_pos]
  -- `abs` does not raise here, so the range is all that is left to check
  split
  next a' ha' =>
    obtain rfl := Except.ok.inj (habs.symm.trans ha')
    rcases lt_or_ge moneyMax.value |n.value| with hgt | hle
    · refine .inl ⟨hgt, ?_⟩
      rw [dif_neg]
      exact fun hmax => Bool.false_ne_true (hmax.symm.trans (hrange.mpr hgt))
    · refine .inr ⟨hle, ?_⟩
      rw [dif_pos (Bool.eq_false_iff.mpr fun h => not_lt.mpr hle (hrange.mp h))]
      exact ⟨_, rfl⟩
  next s hs =>
    rw [habs] at hs
    cases hs

theorem construct_of_abs_le (c : CurrencyCode) (hexp : -2 ≤ n.exp)
    (hle : |n.value| ≤ moneyMax.value) :
    ∃ m, construct (.finite n) c = .ok m ∧ m.amount = n ∧ m.currency = c := by
  obtain ⟨a, habs⟩ := abs_ok (hle.trans_lt moneyMax_lt_overflowBound)
  obtain ⟨hgt, -⟩ | ⟨-, m, hm⟩ := construct_finite c hexp habs
  · exact absurd hgt (not_lt.mpr hle)
  · obtain ⟨hamount, hcurrency⟩ := construct_ok hm
    exact ⟨m, hm, (Decimal.finite.inj hamount).symm, hcurrency⟩

theorem construct_of_gt (c : CurrencyCode) (hexp : -2 ≤ n.exp) (hgt : moneyMax.value < |n.value|)
    (hlt : |n.value| < overflowBound) :
    construct (.finite n) c = refuse .moneyAmountOutOfRange
      [("amount", (Decimal.finite n).str), ("max", (Decimal.finite moneyMax).str)] := by
  obtain ⟨a, habs⟩ := abs_ok hlt
  obtain ⟨-, hrefuse⟩ | ⟨hle, -⟩ := construct_finite c hexp habs
  · exact hrefuse
  · exact absurd hgt (not_lt.mpr hle)

/-- `abs()` raises before anything is compared. -/
theorem construct_of_overflow (c : CurrencyCode) (hexp : -2 ≤ n.exp)
    (hbound : overflowBound ≤ |n.value|) : ∃ s, construct (.finite n) c = .error (.decimal s) := by
  obtain ⟨s, habs⟩ := n.abs_eq_error_iff.mpr hbound
  have hscale : -n.exp ≤ moneyScale := by
    have hscale : (moneyScale : ℤ) = 2 := rfl
    omega
  refine ⟨s, ?_⟩
  unfold construct
  simp only [hscale, dif_pos]
  split
  next a ha =>
    rw [habs] at ha
    cases ha
  next s' hs' =>
    obtain rfl := Except.error.inj (habs.symm.trans hs')
    rfl

theorem construct_of_scale (c : CurrencyCode) (hexp : n.exp < -2) :
    construct (.finite n) c = refuse .moneyScaleExceeded
      [("amount", (Decimal.finite n).str), ("max_scale", "2")] := by
  have hscale : ¬ -n.exp ≤ moneyScale := by
    have hscale : (moneyScale : ℤ) = 2 := rfl
    omega
  unfold construct
  simp only [hscale, dif_neg, not_false_eq_true]

end

/-! ## Sums and differences -/

/-- The amount as a rational number. -/
def value (m : Money) : ℚ := m.amount.value

theorem value_eq_cents (m : Money) : m.value = m.cents * 10 ^ (-2 : ℤ) :=
  m.amount.value_eq_scaled m.two_le_exp

theorem abs_value_le (m : Money) : |m.value| ≤ moneyMax.value := by
  have hcents : |(m.cents : ℚ)| ≤ 10 ^ 20 - 1 := by
    have hbound : |m.cents| ≤ 10 ^ 20 - 1 := by
      rw [Int.abs_eq_natAbs]
      have := m.natAbs_cents_le
      omega
    exact_mod_cast hbound
  have hunit : (0 : ℚ) < 10 ^ (-2 : ℤ) := by norm_num
  rw [value_eq_cents, abs_mul, abs_of_pos hunit, moneyMax_value]
  exact mul_le_mul_of_nonneg_right hcents hunit.le

/-- What the constructor makes of an exact result. -/
theorem construct_exact {n : Number} {exact : ℚ} (c : CurrencyCode) (hexp : -2 ≤ n.exp)
    (habs : ∃ a, n.abs = .ok a) (hvalue : n.value = exact) :
    (|exact| ≤ moneyMax.value ∧ ∃ m, construct (.finite n) c = .ok m ∧ m.value = exact ∧
      m.currency = c) ∨
    (moneyMax.value < |exact| ∧ ∃ context,
      construct (.finite n) c = refuse .moneyAmountOutOfRange context) := by
  obtain ⟨a, habs⟩ := habs
  subst hvalue
  rcases le_or_gt |n.value| moneyMax.value with hle | hgt
  · obtain ⟨m, hm, rfl, hcurrency⟩ := construct_of_abs_le c hexp hle
    exact .inl ⟨hle, m, hm, rfl, hcurrency⟩
  · refine .inr ⟨hgt, _, construct_of_gt c hexp hgt ?_⟩
    rw [← not_le, ← n.abs_eq_error_iff]
    intro hs
    obtain ⟨s, hs⟩ := hs
    rw [habs] at hs
    cases hs

/-- The context leaves the sum of two amounts as it is, and the difference. -/
private theorem value_of_cents {n : Number} {total : ℤ} {exact : ℚ} (hexp : -2 ≤ n.exp)
    (hcents : n.scaled (-2) = total) (hexact : exact = total * 10 ^ (-2 : ℤ)) :
    n.value = exact := by
  rw [n.value_eq_scaled hexp, hcents, hexact]

private theorem two_le_exp_of_add {a b n : Number} (ha : -2 ≤ a.exp) (hb : -2 ≤ b.exp)
    (h : a.add b = .ok n) : -2 ≤ n.exp := by
  have hmin : -2 ≤ min (min a.exp b.exp) emax := le_min (le_min ha hb) (by decide)
  exact hmin.trans (Number.le_exp_of_fix h)

theorem amount_add_value (a b : Money) : ∃ n, a.amount.add b.amount = .ok n ∧ -2 ≤ n.exp ∧
    (∃ d, n.abs = .ok d) ∧ n.value = a.value + b.value := by
  obtain ⟨n, hn, habs, hcents⟩ := amount_add_exact a b
  have hexp := two_le_exp_of_add a.two_le_exp b.two_le_exp hn
  refine ⟨n, hn, hexp, habs, value_of_cents hexp hcents ?_⟩
  rw [value_eq_cents, value_eq_cents, Int.cast_add, add_mul]

theorem amount_sub_value (a b : Money) : ∃ n, a.amount.sub b.amount = .ok n ∧ -2 ≤ n.exp ∧
    (∃ d, n.abs = .ok d) ∧ n.value = a.value - b.value := by
  obtain ⟨n, hn, habs, hcents⟩ := amount_sub_exact a b
  have hexp := two_le_exp_of_add a.two_le_exp (b := b.amount.negate) b.two_le_exp hn
  refine ⟨n, hn, hexp, habs, value_of_cents hexp hcents ?_⟩
  rw [value_eq_cents, value_eq_cents, Int.cast_sub, sub_mul]

end Money

end Evenkeel.Domain
