import Mathlib.Data.Int.Order.Basic
import Mathlib.Algebra.Order.Ring.Int
import Mathlib.Tactic.Ring
import Mathlib.Tactic.Linarith
import Mathlib.Tactic.Positivity

/-!
# Decimal Arithmetic

Python's `decimal` module as far as exact money needs it: finite numbers as sign,
coefficient and exponent, and the operations of the default context (28 digits, exponents
between -999999 and 999999, round half even, with `Overflow` and `InvalidOperation`
trapped).

- `Number`: a finite decimal; `Decimal` adds infinities and NaNs
- `Number.fix`: rounding a result to the context
- `Number.add`, `Number.sub`, `Number.abs`: the context operations
- `Number.lt`, `Number.eq`: comparison, which never rounds
- `Number.scaled`: the value as an integer count of `10 ^ e`, exact for `e ≤ n.exp`

## Key Results

- `Number.add_exact`: a sum of at most 28 digits comes back unrounded
- `Number.abs_exact`: so does an absolute value
- `Number.fix_large`: rounding a longer number keeps it long
-/

namespace Evenkeel.Python

/-! ## Numbers -/

/-- A finite `decimal.Decimal`: `(-1) ^ negative * coeff * 10 ^ exp`. -/
structure Number where
  negative : Bool
  coeff : ℕ
  exp : ℤ
  deriving DecidableEq

/-- `decimal.Decimal`. -/
inductive Decimal where
  | finite (number : Number)
  | infinity (negative : Bool)
  | nan (negative signaling : Bool) (payload : List Char)
  deriving DecidableEq

/-- The trapped signals of the default context. -/
inductive Signal where
  | overflow
  | invalidOperation
  deriving DecidableEq

/-- The default context's precision. -/
def prec : ℕ := 28

/-- The default context's largest adjusted exponent. -/
def emax : ℤ := 999999

/-- `Context.Etop`: the largest exponent of a number with all its digits. -/
def etop : ℤ := emax - prec + 1

/-- `Context.Etiny`: the smallest exponent of a result. -/
def etiny : ℤ := -999999 - prec + 1

/-- The number of decimal digits, at least one. -/
def digitCount (n : ℕ) : ℕ := (Nat.toDigits 10 n).length

theorem digitCount_le_iff {n k : ℕ} (hk : 0 < k) : digitCount n ≤ k ↔ n < 10 ^ k :=
  Nat.length_toDigits_le_iff (by omega) hk

theorem digitCount_pos (n : ℕ) : 0 < digitCount n := Nat.length_toDigits_pos

/-- `n / d` rounded to the nearest integer, ties to the even one. -/
def roundHalfEven (n d : ℕ) : ℕ :=
  if 2 * (n % d) < d then n / d
  else if 2 * (n % d) = d ∧ (n / d) % 2 = 0 then n / d
  else n / d + 1

theorem div_le_roundHalfEven (n d : ℕ) : n / d ≤ roundHalfEven n d := by
  unfold roundHalfEven
  split_ifs <;> omega

namespace Number

/-- The integer `k` with sign `negative`. -/
def signed (negative : Bool) (k : ℕ) : ℤ := if negative then -(k : ℤ) else k

/-- The value as a count of `10 ^ e`. It is exact for `e ≤ n.exp`, which is the only way it
    is used. -/
def scaled (n : Number) (e : ℤ) : ℤ := signed n.negative (n.coeff * 10 ^ (n.exp - e).toNat)

@[simp] theorem signed_zero (negative : Bool) : signed negative 0 = 0 := by
  cases negative <;> rfl

@[simp] theorem natAbs_signed (negative : Bool) (k : ℕ) : (signed negative k).natAbs = k := by
  cases negative <;> simp [signed]

theorem signed_mul (negative : Bool) (k m : ℕ) :
    signed negative (k * m) = signed negative k * m := by
  cases negative <;> simp [signed]

theorem signed_decide_natAbs (z : ℤ) : signed (decide (z < 0)) z.natAbs = z := by
  rcases lt_or_ge z 0 with h | h
  · simp [signed, h, abs_of_neg h]
  · simp [signed, not_lt.mpr h, abs_of_nonneg h]

/-- Counting in smaller units multiplies the count. -/
theorem scaled_refine (n : Number) {e e' : ℤ} (he : e' ≤ e) (hn : e ≤ n.exp) :
    n.scaled e' = n.scaled e * 10 ^ (e - e').toNat := by
  have hexp : (n.exp - e').toNat = (n.exp - e).toNat + (e - e').toNat := by omega
  rw [scaled, scaled, hexp, pow_add, ← mul_assoc, signed_mul]
  push_cast
  rfl

/-! ## Rounding to the context -/

/-- `Decimal._fix`: the number rounded to the context's precision and exponent range. -/
def fix (n : Number) : Except Signal Number :=
  if n.coeff = 0 then
    .ok ⟨n.negative, 0, min (max n.exp etiny) emax⟩
  else if etop < digitCount n.coeff + n.exp - prec then
    .error .overflow
  else
    let expMin := max (digitCount n.coeff + n.exp - prec) etiny
    if n.exp < expMin then
      let coeff := roundHalfEven n.coeff (10 ^ (expMin - n.exp).toNat)
      -- rounding up can carry into one more digit, which is then a zero at the end
      if prec < digitCount coeff then
        if etop < expMin + 1 then .error .overflow
        else .ok ⟨n.negative, coeff / 10, expMin + 1⟩
      else .ok ⟨n.negative, coeff, expMin⟩
    else .ok n

/-- `Decimal.__add__`: the exact sum over the smaller exponent, then rounded. -/
def add (a b : Number) : Except Signal Number :=
  let exp := min a.exp b.exp
  let total := a.scaled exp + b.scaled exp
  -- an exact zero is negative only when both operands are negative zeros
  let negative := if total = 0 then a.negative && b.negative else decide (total < 0)
  fix ⟨negative, total.natAbs, exp⟩

/-- `Decimal.copy_negate`. -/
def negate (n : Number) : Number := { n with negative := !n.negative }

/-- `Decimal.__sub__`. -/
def sub (a b : Number) : Except Signal Number := add a b.negate

/-- `Decimal.__abs__`, which rounds like every other operation. -/
def abs (n : Number) : Except Signal Number := fix { n with negative := false }

/-- `Decimal.__lt__` between finite numbers: exact, without rounding. -/
def lt (a b : Number) : Bool :=
  let exp := min a.exp b.exp
  decide (a.scaled exp < b.scaled exp)

/-- `Decimal.__eq__` between finite numbers: of values, not of representations. -/
def eq (a b : Number) : Bool :=
  let exp := min a.exp b.exp
  decide (a.scaled exp = b.scaled exp)

/-- The number zero, for comparisons with a literal `0`. -/
def zero : Number := ⟨false, 0, 0⟩

/-- `Decimal.__bool__`, negated: the number is a zero of any sign and exponent. -/
def isZero (n : Number) : Bool := n.coeff == 0

theorem scaled_negate (n : Number) (e : ℤ) : n.negate.scaled e = -n.scaled e := by
  cases h : n.negative <;> simp [scaled, negate, signed, h]

/-! ## Exactness -/

/-- A nonzero number of at most 28 digits with exponent and magnitude in range is left
    alone. -/
theorem fix_exact {n : Number} (hcoeff : n.coeff ≠ 0) (hdigits : n.coeff < 10 ^ prec)
    (hlow : etiny ≤ n.exp) (hhigh : digitCount n.coeff + n.exp - prec ≤ etop) :
    n.fix = .ok n := by
  have hcount : digitCount n.coeff ≤ prec := (digitCount_le_iff (by decide)).mpr hdigits
  have hmin : ¬ n.exp < max (digitCount n.coeff + n.exp - prec) etiny := by omega
  simp [fix, hcoeff, not_lt.mpr hhigh, hmin]

theorem fix_zero {n : Number} (hcoeff : n.coeff = 0) :
    n.fix = .ok ⟨n.negative, 0, min (max n.exp etiny) emax⟩ := by
  simp [fix, hcoeff]

/-- Rounding keeps the sign. -/
theorem fix_negative {n a : Number} (h : n.fix = .ok a) : a.negative = n.negative := by
  unfold fix at h
  split_ifs at h with h₁ h₂
  · obtain rfl := Except.ok.inj h
    rfl
  · simp only at h
    split_ifs at h <;> obtain rfl := Except.ok.inj h <;> rfl

/-- A number of more than 28 digits keeps 28 of them, at a larger exponent. -/
theorem fix_large {n a : Number} (hlow : etiny ≤ n.exp) (hdigits : 10 ^ prec ≤ n.coeff)
    (h : n.fix = .ok a) : 10 ^ (prec - 1) ≤ a.coeff ∧ n.exp < a.exp := by
  have hprec : prec = 28 := rfl
  have hcount : prec < digitCount n.coeff := by
    rw [← not_le, digitCount_le_iff (by decide)]
    omega
  have hcoeff : n.coeff ≠ 0 := by
    have : 0 < 10 ^ prec := by positivity
    omega
  -- so many digits put the rounded exponent above the floor of the context
  have hmax : max (digitCount n.coeff + n.exp - prec) etiny =
      digitCount n.coeff + n.exp - prec := max_eq_left (by omega)
  have hlt : n.exp < digitCount n.coeff + n.exp - prec := by omega
  have hcut : (digitCount n.coeff + n.exp - prec - n.exp).toNat = digitCount n.coeff - prec := by
    omega
  simp only [fix, if_neg hcoeff, hmax, if_pos hlt, hcut] at h
  -- cutting `digitCount - prec` digits off leaves `prec` of them
  have hkeep : 10 ^ (prec - 1) ≤ n.coeff / 10 ^ (digitCount n.coeff - prec) := by
    rw [Nat.le_div_iff_mul_le (by positivity), ← pow_add, ← not_lt,
      ← digitCount_le_iff (by omega)]
    omega
  have hround := hkeep.trans (div_le_roundHalfEven n.coeff _)
  split_ifs at h with htop hcarry htop'
  · -- rounding up carried into one more digit, which is cut off too
    obtain rfl := Except.ok.inj h
    have hten : 10 ^ prec ≤ roundHalfEven n.coeff (10 ^ (digitCount n.coeff - prec)) := by
      rw [← not_lt, ← digitCount_le_iff (by decide)]
      omega
    exact ⟨(Nat.le_div_iff_mul_le (by norm_num)).mpr hten, by simp only; omega⟩
  · obtain rfl := Except.ok.inj h
    exact ⟨hround, hlt⟩

/-- A sum that fits the context is the exact sum, in every unit fine enough for both
    operands, and its absolute value fits too. -/
theorem add_exact (a b : Number)
    (hdigits : (a.scaled (min a.exp b.exp) + b.scaled (min a.exp b.exp)).natAbs < 10 ^ prec)
    (hlow : etiny ≤ min a.exp b.exp)
    (hhigh : a.scaled (min a.exp b.exp) + b.scaled (min a.exp b.exp) ≠ 0 →
      digitCount (a.scaled (min a.exp b.exp) + b.scaled (min a.exp b.exp)).natAbs +
        min a.exp b.exp - prec ≤ etop) :
    ∃ c, a.add b = .ok c ∧ (∃ d, c.abs = .ok d) ∧
      ∀ e ≤ min a.exp b.exp, c.scaled e = a.scaled e + b.scaled e := by
  set exp := min a.exp b.exp with hexp
  set total := a.scaled exp + b.scaled exp with htotal
  have hsum : ∀ e ≤ exp, a.scaled e + b.scaled e = total * 10 ^ (exp - e).toNat := by
    intro e he
    rw [a.scaled_refine he (min_le_left _ _), b.scaled_refine he (min_le_right _ _), htotal,
      add_mul]
  -- the sum is zero: its exponent does not matter
  by_cases hzero : total = 0
  · refine ⟨_, by simp only [add, ← hexp, ← htotal, hzero]; exact fix_zero rfl, ?_, ?_⟩
    · exact ⟨_, fix_zero rfl⟩
    · intro e he
      rw [hsum e he, hzero, zero_mul]
      simp [scaled]
  · -- the sum has few enough digits to be copied
    refine ⟨⟨decide (total < 0), total.natAbs, exp⟩, ?_, ⟨⟨false, total.natAbs, exp⟩, ?_⟩, ?_⟩
    · simp only [add, ← hexp, ← htotal, if_neg hzero]
      exact fix_exact (Int.natAbs_ne_zero.mpr hzero) hdigits hlow (hhigh hzero)
    · exact fix_exact (n := ⟨false, total.natAbs, exp⟩) (Int.natAbs_ne_zero.mpr hzero) hdigits
        hlow (hhigh hzero)
    · intro e he
      rw [hsum e he, scaled, signed_mul, signed_decide_natAbs]
      push_cast
      rfl

/-- Comparison does not depend on the unit it is made in. -/
theorem lt_iff (a b : Number) {e : ℤ} (he : e ≤ min a.exp b.exp) :
    a.lt b = true ↔ a.scaled e < b.scaled e := by
  rw [lt, decide_eq_true_iff, a.scaled_refine he (min_le_left _ _),
    b.scaled_refine he (min_le_right _ _)]
  exact (mul_lt_mul_iff_left₀ (by positivity)).symm

/-! ## Text -/

/-- `Decimal.__str__` of a finite number: plain notation for small exponents, scientific
    notation otherwise. -/
def chars (n : Number) : List Char :=
  let digits := Nat.toDigits 10 n.coeff
  let leftDigits : ℤ := n.exp + digits.length
  let dotPlace : ℤ := if n.exp ≤ 0 ∧ -6 < leftDigits then leftDigits else 1
  let mantissa :=
    if dotPlace ≤ 0 then
      '0' :: '.' :: (List.replicate (-dotPlace).toNat '0' ++ digits)
    else if (digits.length : ℤ) ≤ dotPlace then
      digits ++ List.replicate (dotPlace - digits.length).toNat '0'
    else
      digits.take dotPlace.toNat ++ '.' :: digits.drop dotPlace.toNat
  let shift := leftDigits - dotPlace
  let exponent :=
    if shift = 0 then []
    else 'E' :: (if shift < 0 then '-' else '+') :: Nat.toDigits 10 shift.natAbs
  (if n.negative then ['-'] else []) ++ mantissa ++ exponent

end Number

/-- `Decimal.__str__`. -/
def Decimal.str : Decimal → String
  | .finite n => String.ofList n.chars
  | .infinity negative => if negative then "-Infinity" else "Infinity"
  | .nan negative signaling payload =>
      String.ofList ((if negative then ['-'] else []) ++ (if signaling then ['s'] else []) ++
        'N' :: 'a' :: 'N' :: payload)

example : (Decimal.finite ⟨true, 12345, -2⟩).str = "-123.45" := by decide
example : (Decimal.finite ⟨false, 5, 3⟩).str = "5E+3" := by decide

end Evenkeel.Python
