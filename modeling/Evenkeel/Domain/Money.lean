import Evenkeel.Domain.Errors

/-!
# Money

`domain/value_objects/money.py`: an amount in one currency. A `Money` can only be built
through its validator, so the checks are fields of the structure.

- `Money.construct`: the constructor with its `_validate`
- `Money.add`, `Money.sub`, `Money.lt`, `Money.requirePositive`, `Money.isZero`
- `Money.cents`: the amount as an integer count of hundredths, which is what the
  `NUMERIC(20, 2)` columns hold

## Key Results

- `Money.natAbs_cents_le`: the amount is at most `MONEY_MAX` in magnitude
- `Money.cents_add`, `Money.cents_sub`, `Money.lt_iff`: the operations are exact; the
  28 digits of the decimal context are never exhausted
-/

namespace Evenkeel.Domain

open Evenkeel.Python

/-- `MONEY_SCALE`. -/
def moneyScale : ℕ := 2

/-- `MONEY_MAX`: `Decimal(10) ** 18 - Decimal("0.01")`. -/
def moneyMax : Number := ⟨false, 10 ^ 20 - 1, -2⟩

/-- `MONEY_MAX` in cents. -/
def moneyMaxCents : ℤ := 10 ^ 20 - 1

/-- `CurrencyCode`. Which three letters are a code is decided where one enters the system, with
    a request or from a row; the operations only compare codes. -/
structure CurrencyCode where
  value : String
  deriving DecidableEq

/-- `Money`: a validated amount and its currency. -/
structure Money where
  amount : Number
  currency : CurrencyCode
  scale_le : -amount.exp ≤ moneyScale
  abs_le_max : ∃ a, amount.abs = .ok a ∧ moneyMax.lt a = false

namespace Money

/-- `Money(amount, currency)`: the checks of `_validate`, in their order. `abs()` is an
    operation of the decimal context and may itself raise. -/
def construct (amount : Decimal) (currency : CurrencyCode) : Except Raised Money :=
  match amount with
  | .finite n =>
      if hscale : -n.exp ≤ moneyScale then
        match habs : n.abs with
        | .ok a =>
            if hmax : moneyMax.lt a = false then
              .ok ⟨n, currency, hscale, a, habs, hmax⟩
            else
              refuse .moneyAmountOutOfRange
                [("amount", amount.str), ("max", (Decimal.finite moneyMax).str)]
        | .error s => .error (.decimal s)
      else
        refuse .moneyScaleExceeded [("amount", amount.str), ("max_scale", "2")]
  | _ => refuse .moneyAmountNotFinite [("amount", amount.str)]

/-- The amount in hundredths of the currency unit. -/
def cents (m : Money) : ℤ := m.amount.scaled (-2)

/-- `Money.zero`: the amount `0.00`. -/
def zero (currency : CurrencyCode) : Money :=
  ⟨⟨false, 0, -2⟩, currency, by decide, ⟨false, 0, -2⟩, rfl, by decide⟩

/-- `_assert_same_currency`. -/
def assertSameCurrency (a b : Money) : Except Raised Unit :=
  if a.currency ≠ b.currency then
    refuse .moneyCurrencyMismatch
      [("left", a.currency.value), ("right", b.currency.value)]
  else .ok ()

/-- `require_positive`. -/
def requirePositive (m : Money) : Except Raised Money :=
  if Number.zero.lt m.amount = false then
    refuse .moneyAmountNotPositive [("amount", (Decimal.finite m.amount).str)]
  else .ok m

/-- `Money.__add__`. -/
def add (a b : Money) : Except Raised Money := do
  a.assertSameCurrency b
  let amount ← liftDecimal (a.amount.add b.amount)
  construct (.finite amount) a.currency

/-- `Money.__sub__`. -/
def sub (a b : Money) : Except Raised Money := do
  a.assertSameCurrency b
  let amount ← liftDecimal (a.amount.sub b.amount)
  construct (.finite amount) a.currency

/-- `Money.__lt__`. -/
def lt (a b : Money) : Except Raised Bool := do
  a.assertSameCurrency b
  return a.amount.lt b.amount

/-- `Money.__eq__`, as the dataclass has it: by the fields. -/
def eq (a b : Money) : Bool := a.amount.eq b.amount && a.currency = b.currency

/-- `Money.is_zero`. -/
def isZero (m : Money) : Bool := m.amount.isZero

/-! ## What a constructed value guarantees -/

theorem construct_ok {d : Decimal} {c : CurrencyCode} {m : Money}
    (h : construct d c = .ok m) : d = .finite m.amount ∧ m.currency = c := by
  unfold construct at h
  split at h
  · split at h
    · split at h
      · split at h
        · cases h
          exact ⟨rfl, rfl⟩
        · cases h
      · cases h
    · cases h
  · cases h

theorem two_le_exp (m : Money) : -2 ≤ m.amount.exp := by
  have := m.scale_le
  have hscale : moneyScale = 2 := rfl
  omega

private theorem coeff_le_of_not_lt {b : Number} (hneg : b.negative = false)
    (hexp : -2 ≤ b.exp) (hmax : moneyMax.lt b = false) :
    b.coeff * 10 ^ (b.exp + 2).toNat ≤ 10 ^ 20 - 1 := by
  have hmin : (-2 : ℤ) ≤ min moneyMax.exp b.exp := le_min (by decide) hexp
  have hnot : ¬ moneyMax.scaled (-2) < b.scaled (-2) := by
    rw [← Number.lt_iff _ _ hmin, hmax]
    decide
  have hb : b.scaled (-2) = ((b.coeff * 10 ^ (b.exp + 2).toNat : ℕ) : ℤ) := by
    simp only [Number.scaled, Number.signed, hneg, Bool.false_eq_true, if_false, sub_neg_eq_add]
  have hm : moneyMax.scaled (-2) = ((10 ^ 20 - 1 : ℕ) : ℤ) := by decide
  rw [hb, hm] at hnot
  exact_mod_cast not_lt.mp hnot

/-- The range check bounds the amount itself: an absolute value that the context rounds is
    far beyond the maximum already. -/
theorem natAbs_cents_le (m : Money) : m.cents.natAbs ≤ 10 ^ 20 - 1 := by
  obtain ⟨a, habs, hmax⟩ := m.abs_le_max
  have hexp := m.two_le_exp
  have hlow : etiny ≤ m.amount.exp := by
    have : etiny = -1000026 := rfl
    omega
  rw [cents, Number.scaled, Number.natAbs_signed, sub_neg_eq_add]
  -- a zero has no cents, whatever its exponent is
  by_cases hcoeff : m.amount.coeff = 0
  · simp [hcoeff]
  -- a short coefficient passes through `abs` as it is, and is compared with the bound itself
  by_cases hdigits : m.amount.coeff < 10 ^ prec
  · by_cases htop : digitCount m.amount.coeff + m.amount.exp - prec ≤ etop
    · have hsame : m.amount.abs = .ok { m.amount with negative := false } :=
        Number.fix_exact (n := { m.amount with negative := false }) hcoeff hdigits hlow htop
      obtain rfl := Except.ok.inj (hsame.symm.trans habs)
      exact coeff_le_of_not_lt (b := { m.amount with negative := false }) rfl hexp hmax
    · -- its exponent would be too large, and `abs` would have raised
      simp [Number.abs, Number.fix, hcoeff, not_le.mp htop] at habs
  · -- more than 28 digits are too many even after rounding
    obtain ⟨hlarge, hlt⟩ :=
      Number.fix_large (n := { m.amount with negative := false }) hlow (not_lt.mp hdigits) habs
    have hge : -2 ≤ a.exp := hexp.trans hlt.le
    have hle := coeff_le_of_not_lt (Number.fix_negative habs) hge hmax
    have hone : 1 ≤ 10 ^ (a.exp + 2).toNat := Nat.one_le_pow _ _ (by norm_num)
    have hprod := Nat.mul_le_mul hlarge hone
    have hprec : prec = 28 := rfl
    rw [hprec] at hprod
    omega

theorem cents_le (m : Money) : m.cents ≤ moneyMaxCents := by
  have := m.natAbs_cents_le
  have hmax : moneyMaxCents = 10 ^ 20 - 1 := rfl
  omega

@[simp] theorem cents_zero (c : CurrencyCode) : (zero c).cents = 0 := by
  simp [cents, zero, Number.scaled]

/-! ## Exact arithmetic -/

theorem assertSameCurrency_ok {a b : Money} {u : Unit} (h : a.assertSameCurrency b = .ok u) :
    a.currency = b.currency := by
  unfold assertSameCurrency at h
  split_ifs at h with hne
  · cases h
  · exact not_not.mp hne

/-- A nonzero value that is at most `MONEY_MAX` leaves its exponent no room. -/
private theorem exp_le_of_scaled_ne_zero (m : Money) {e : ℤ} (he : -2 ≤ e)
    (hm : e ≤ m.amount.exp) (hne : m.amount.scaled e ≠ 0) : e ≤ 18 := by
  have hcents : m.cents = m.amount.scaled e * 10 ^ (e - -2).toNat :=
    m.amount.scaled_refine he hm
  have hbound := m.natAbs_cents_le
  have hone : 1 ≤ (m.amount.scaled e).natAbs := Int.natAbs_pos.mpr hne
  have hpow : 10 ^ (e - -2).toNat ≤ 10 ^ 20 - 1 := by
    calc 10 ^ (e - -2).toNat = 1 * 10 ^ (e - -2).toNat := (one_mul _).symm
      _ ≤ (m.amount.scaled e).natAbs * 10 ^ (e - -2).toNat := Nat.mul_le_mul_right _ hone
      _ = m.cents.natAbs := by rw [hcents, Int.natAbs_mul, Int.natAbs_pow]; rfl
      _ ≤ 10 ^ 20 - 1 := hbound
  by_contra hlt
  have hexp : 20 ≤ (e - -2).toNat := by omega
  have := Nat.pow_le_pow_right (n := 10) (by norm_num) hexp
  omega

private theorem natAbs_scaled_le (m : Money) {e : ℤ} (he : -2 ≤ e) (hm : e ≤ m.amount.exp) :
    (m.amount.scaled e).natAbs ≤ 10 ^ 20 - 1 := by
  have hcents : m.cents = m.amount.scaled e * 10 ^ (e - -2).toNat :=
    m.amount.scaled_refine he hm
  have hbound := m.natAbs_cents_le
  have hone : 1 ≤ 10 ^ (e - -2).toNat := Nat.one_le_pow _ _ (by norm_num)
  calc (m.amount.scaled e).natAbs = (m.amount.scaled e).natAbs * 1 := (mul_one _).symm
    _ ≤ (m.amount.scaled e).natAbs * 10 ^ (e - -2).toNat := Nat.mul_le_mul_left _ hone
    _ = m.cents.natAbs := by rw [hcents, Int.natAbs_mul, Int.natAbs_pow]; rfl
    _ ≤ 10 ^ 20 - 1 := hbound

/-- The sum of two amounts fits the context, so it is exact. -/
theorem amount_add_exact (a b : Money) :
    ∃ c, a.amount.add b.amount = .ok c ∧ (∃ d, c.abs = .ok d) ∧
      c.scaled (-2) = a.cents + b.cents := by
  have ha := a.two_le_exp
  have hb := b.two_le_exp
  have hmin : (-2 : ℤ) ≤ min a.amount.exp b.amount.exp := le_min ha hb
  have hsa := natAbs_scaled_le a hmin (min_le_left _ _)
  have hsb := natAbs_scaled_le b hmin (min_le_right _ _)
  set exp := min a.amount.exp b.amount.exp with hexp
  -- two amounts of at most 20 digits of cents add up to at most 21, so nothing is rounded
  have htotal : (a.amount.scaled exp + b.amount.scaled exp).natAbs < 10 ^ 21 := by
    have := Int.natAbs_add_le (a.amount.scaled exp) (b.amount.scaled exp)
    omega
  have hprec : prec = 28 := rfl
  have hetiny : etiny = -1000026 := rfl
  have hetop : etop = 999972 := rfl
  obtain ⟨c, hc, habs, hscaled⟩ := Number.add_exact a.amount b.amount
    (by rw [← hexp, hprec]; omega) (by omega) (by
      intro hne
      have hcount := (digitCount_le_iff (by norm_num)).mpr htotal
      -- the coarser of the two exponents belongs to an amount that is not zero
      have : exp ≤ 18 := by
        by_cases hza : a.amount.scaled exp = 0
        · exact exp_le_of_scaled_ne_zero b hmin (min_le_right _ _)
            (by rw [← hexp, hza, zero_add] at hne; exact hne)
        · exact exp_le_of_scaled_ne_zero a hmin (min_le_left _ _) hza
      rw [← hexp]
      omega)
  exact ⟨c, hc, habs, hscaled (-2) hmin⟩

/-- `a + b`, when it returns, is the exact sum in the common currency. -/
theorem cents_add {a b c : Money} (h : a.add b = .ok c) :
    a.currency = b.currency ∧ c.currency = a.currency ∧ c.cents = a.cents + b.cents := by
  unfold add at h
  cases hcur : a.assertSameCurrency b with
  | error e => simp [hcur, bind, Except.bind] at h
  | ok u =>
    obtain ⟨n, hn, -, hcents⟩ := amount_add_exact a b
    simp only [hcur, hn, liftDecimal, bind, Except.bind] at h
    obtain ⟨hamount, hcurrency⟩ := construct_ok h
    obtain rfl := Decimal.finite.inj hamount
    exact ⟨assertSameCurrency_ok hcur, hcurrency, hcents⟩

/-- The amount with its sign turned, which is in range because `abs` does not see signs. -/
private def opposite (m : Money) : Money :=
  ⟨m.amount.negate, m.currency, m.scale_le, m.abs_le_max⟩

/-- The difference of two amounts is exact because the sum with the opposite is. -/
theorem amount_sub_exact (a b : Money) :
    ∃ c, a.amount.sub b.amount = .ok c ∧ (∃ d, c.abs = .ok d) ∧
      c.scaled (-2) = a.cents - b.cents := by
  obtain ⟨n, hn, habs, hcents⟩ := amount_add_exact a b.opposite
  have hneg : b.opposite.cents = -b.cents := b.amount.scaled_negate (-2)
  exact ⟨n, hn, habs, by rw [hcents, hneg, sub_eq_add_neg]⟩

/-- `a - b`, when it returns, is the exact difference in the common currency. -/
theorem cents_sub {a b c : Money} (h : a.sub b = .ok c) :
    a.currency = b.currency ∧ c.currency = a.currency ∧ c.cents = a.cents - b.cents := by
  unfold sub at h
  cases hcur : a.assertSameCurrency b with
  | error e => simp [hcur, bind, Except.bind] at h
  | ok u =>
    obtain ⟨n, hn, -, hcents⟩ := amount_sub_exact a b
    simp only [hcur, hn, liftDecimal, bind, Except.bind] at h
    obtain ⟨hamount, hcurrency⟩ := construct_ok h
    obtain rfl := Decimal.finite.inj hamount
    exact ⟨assertSameCurrency_ok hcur, hcurrency, hcents⟩

/-- What a `NUMERIC(20, 2)` column can hold passes the checks. -/
theorem construct_of_le {n : Number} (c : CurrencyCode) (hexp : n.exp = -2)
    (hle : n.coeff ≤ 10 ^ 20 - 1) : ∃ m, construct (.finite n) c = .ok m := by
  have hscale : -n.exp ≤ moneyScale := by
    rw [hexp]
    decide
  -- an amount in cents that is in range is copied by `abs`
  have habs : n.abs = .ok ⟨false, n.coeff, -2⟩ := by
    by_cases hcoeff : n.coeff = 0
    · rw [hcoeff]
      have hzero := Number.fix_zero (n := { n with negative := false }) hcoeff
      rw [Number.abs, hzero, hexp]
      rfl
    · have hdigits : n.coeff < 10 ^ prec := by
        have hprec : prec = 28 := rfl
        rw [hprec]
        omega
      have htop : digitCount n.coeff + n.exp - prec ≤ etop := by
        have hcount := (digitCount_le_iff (by decide : 0 < prec)).mpr hdigits
        have htop : etop = 999972 := rfl
        omega
      have hlow : etiny ≤ n.exp := by
        rw [hexp]
        decide
      rw [Number.abs, Number.fix_exact (n := { n with negative := false }) hcoeff hdigits hlow htop,
        hexp]
  -- and does not exceed the bound
  have hmax : moneyMax.lt ⟨false, n.coeff, -2⟩ = false := by
    rw [Bool.eq_false_iff, ne_eq, Number.lt_iff _ _ (by decide : (-2 : ℤ) ≤ min moneyMax.exp (-2))]
    have hm : moneyMax.scaled (-2) = 10 ^ 20 - 1 := by decide
    have hn : (Number.mk false n.coeff (-2)).scaled (-2) = n.coeff := by
      simp [Number.scaled, Number.signed]
    rw [hm, hn]
    omega
  unfold construct
  simp only [hscale, dif_pos]
  split
  · rename_i a ha
    obtain rfl := Except.ok.inj (habs.symm.trans ha)
    rw [dif_pos hmax]
    exact ⟨_, rfl⟩
  · rename_i e he
    rw [habs] at he
    cases he

/-! ## What the operations raise -/

theorem assertSameCurrency_error {a b : Money} {r : Raised}
    (h : a.assertSameCurrency b = .error r) : ∃ e, r = .domain e := by
  unfold assertSameCurrency refuse at h
  split_ifs at h
  exact ⟨_, (Except.error.inj h).symm⟩

/-- The validator raises a signal of the context only where `abs` does. -/
theorem construct_error {n a : Number} {c : CurrencyCode} {r : Raised} (habs : n.abs = .ok a)
    (h : construct (.finite n) c = .error r) : ∃ e, r = .domain e := by
  unfold construct refuse at h
  simp only at h
  split at h
  · split at h
    · split at h
      · cases h
      · exact ⟨_, (Except.error.inj h).symm⟩
    · rename_i hs
      rw [habs] at hs
      cases hs
  · exact ⟨_, (Except.error.inj h).symm⟩

theorem add_error {a b : Money} {r : Raised} (h : a.add b = .error r) : ∃ e, r = .domain e := by
  unfold add at h
  cases hcur : a.assertSameCurrency b with
  | error e =>
    simp only [hcur, bind, Except.bind, Except.error.injEq] at h
    exact h ▸ assertSameCurrency_error hcur
  | ok u =>
    obtain ⟨n, hn, ⟨d, hd⟩, -⟩ := amount_add_exact a b
    simp only [hcur, hn, liftDecimal, bind, Except.bind] at h
    exact construct_error hd h

theorem sub_error {a b : Money} {r : Raised} (h : a.sub b = .error r) : ∃ e, r = .domain e := by
  unfold sub at h
  cases hcur : a.assertSameCurrency b with
  | error e =>
    simp only [hcur, bind, Except.bind, Except.error.injEq] at h
    exact h ▸ assertSameCurrency_error hcur
  | ok u =>
    obtain ⟨n, hn, ⟨d, hd⟩, -⟩ := amount_sub_exact a b
    simp only [hcur, hn, liftDecimal, bind, Except.bind] at h
    exact construct_error hd h

theorem lt_error {a b : Money} {r : Raised} (h : a.lt b = .error r) : ∃ e, r = .domain e := by
  unfold lt at h
  cases hcur : a.assertSameCurrency b with
  | error e =>
    simp only [hcur, bind, Except.bind, Except.error.injEq] at h
    exact h ▸ assertSameCurrency_error hcur
  | ok u => simp [hcur, bind, Except.bind, pure, Except.pure] at h

theorem requirePositive_error {m : Money} {r : Raised} (h : m.requirePositive = .error r) :
    ∃ e, r = .domain e := by
  unfold requirePositive refuse at h
  split_ifs at h
  exact ⟨_, (Except.error.inj h).symm⟩

/-! ## Comparisons -/

/-- `a < b` compares the amounts of one currency. -/
theorem lt_iff {a b : Money} {r : Bool} (h : a.lt b = .ok r) :
    a.currency = b.currency ∧ (r = true ↔ a.cents < b.cents) := by
  unfold lt at h
  cases hcur : a.assertSameCurrency b with
  | error e => simp [hcur, bind, Except.bind] at h
  | ok u =>
    simp only [hcur, bind, Except.bind, pure, Except.pure, Except.ok.injEq] at h
    rw [← h]
    exact ⟨assertSameCurrency_ok hcur,
      Number.lt_iff _ _ (le_min a.two_le_exp b.two_le_exp)⟩

theorem lt_zero_iff (m : Money) : m.amount.lt Number.zero = true ↔ m.cents < 0 := by
  rw [Number.lt_iff (e := -2) _ _ (le_min m.two_le_exp (by decide))]
  simp [cents, Number.scaled, Number.zero]

theorem requirePositive_ok {m m' : Money} (h : m.requirePositive = .ok m') : 0 < m.cents := by
  unfold requirePositive at h
  split_ifs at h with hlt
  · cases h
  · rw [Bool.not_eq_false, Number.lt_iff (e := -2) _ _ (le_min (by decide) m.two_le_exp)] at hlt
    simpa [cents, Number.scaled, Number.zero] using hlt

end Money

end Evenkeel.Domain
