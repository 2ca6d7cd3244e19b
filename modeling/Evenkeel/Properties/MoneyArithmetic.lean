import Evenkeel.Domain.MoneyValue

/-!
# Exact Money

Amounts are decimals, whose context rounds to 28 digits without saying so. No sum or
difference of two amounts comes near that: it is exact, or it is refused for its size. The
constructor itself is less careful. Its range check takes an absolute value in the same
context, which raises an exception of its own where the magnitude is too large for it.
-/

namespace Evenkeel.Properties

open Evenkeel.Domain Evenkeel.Python

/-- An operation with the exact result `exact` either returns it, in `currency`, or it refuses
    because the result is out of range. -/
def Exactly (exact : ℚ) (currency : CurrencyCode) (result : Except Raised Money) : Prop :=
  if |exact| ≤ moneyMax.value then
    ∃ m, result = .ok m ∧ m.value = exact ∧ m.currency = currency ∧ -m.amount.exp ≤ moneyScale ∧
      |m.value| ≤ moneyMax.value
  else ∃ context, result = refuse .moneyAmountOutOfRange context

private theorem exactly_construct {n : Number} {exact : ℚ} {currency : CurrencyCode}
    (hexp : -2 ≤ n.exp) (habs : ∃ a, n.abs = .ok a) (hvalue : n.value = exact) :
    Exactly exact currency (Money.construct (.finite n) currency) := by
  unfold Exactly
  obtain ⟨hle, m, hm, hexact, hcurrency⟩ | ⟨hgt, hrefuse⟩ :=
    Money.construct_exact currency hexp habs hvalue
  · rw [if_pos hle]
    exact ⟨m, hm, hexact, hcurrency, m.scale_le, m.abs_value_le⟩
  · rw [if_neg (not_le.mpr hgt)]
    exact hrefuse

/-- Amounts of different currencies are not added, subtracted or compared. Amounts of one
    currency are, as the rational numbers that they are. -/
theorem money_arithmetic_is_exact (a b : Money) :
    (a.currency ≠ b.currency →
      let mismatch := ⟨.moneyCurrencyMismatch,
        [("left", a.currency.value), ("right", b.currency.value)]⟩
      a.add b = .error (.domain mismatch) ∧ a.sub b = .error (.domain mismatch) ∧
        a.lt b = .error (.domain mismatch)) ∧
    (a.currency = b.currency →
      Exactly (a.value + b.value) a.currency (a.add b) ∧
      Exactly (a.value - b.value) a.currency (a.sub b) ∧
      a.lt b = .ok (decide (a.value < b.value))) := by
  constructor
  · intro hne
    have hmismatch : a.assertSameCurrency b = _ := if_pos hne
    unfold Money.add Money.sub Money.lt
    rw [hmismatch]
    exact ⟨rfl, rfl, rfl⟩
  · intro heq
    have hsame : a.assertSameCurrency b = .ok () := if_neg (not_not.mpr heq)
    unfold Money.add Money.sub Money.lt
    rw [hsame]
    refine ⟨?_, ?_, ?_⟩
    · obtain ⟨n, hn, hexp, habs, hvalue⟩ := Money.amount_add_value a b
      rw [hn]
      exact exactly_construct hexp habs hvalue
    · obtain ⟨n, hn, hexp, habs, hvalue⟩ := Money.amount_sub_value a b
      rw [hn]
      exact exactly_construct hexp habs hvalue
    · have hlt : a.amount.lt b.amount = decide (a.value < b.value) := by
        rw [Bool.eq_iff_iff, decide_eq_true_iff]
        exact a.amount.lt_iff_value b.amount
      show Except.ok (a.amount.lt b.amount) = _
      rw [hlt]

/-! ## The constructor -/

/-- A finite amount of at most two places and at most the maximum. -/
def InRange : Decimal → Prop
  | .finite n => -2 ≤ n.exp ∧ |n.value| ≤ moneyMax.value
  | _ => False

/-- The constructor accepts an amount that is in range, and refuses any other with an error of
    the domain. -/
def Validates (amount : Decimal) (currency : CurrencyCode) : Prop :=
  (InRange amount → ∃ m, Money.construct amount currency = .ok m ∧ amount = .finite m.amount ∧
    m.currency = currency) ∧
  (¬ InRange amount → ∃ e, Money.construct amount currency = .error (.domain e))

/-- The amount is no number, or has too many places, or is below the least magnitude that the
    context cannot round to 28 digits. -/
def WithinContext : Decimal → Prop
  | .finite n => n.exp < -2 ∨ |n.value| < overflowBound
  | _ => True

/-- The constructor validates as long as `abs()` has a result; where it has none, that is what
    the caller gets to see. -/
theorem money_validates_iff (amount : Decimal) (currency : CurrencyCode) :
    Validates amount currency ↔ WithinContext amount := by
  cases amount with
  | finite n =>
    rcases lt_or_ge n.exp (-2) with hscale | hexp
    · have hout : ¬ InRange (.finite n) := fun h => not_le.mpr hscale h.1
      exact iff_of_true ⟨fun hin => absurd hin hout,
        fun _ => ⟨_, Money.construct_of_scale currency hscale⟩⟩ (.inl hscale)
    rcases le_or_gt |n.value| moneyMax.value with hle | hgt
    · obtain ⟨m, hm, rfl, hcurrency⟩ := Money.construct_of_abs_le currency hexp hle
      exact iff_of_true ⟨fun _ => ⟨m, hm, rfl, hcurrency⟩, fun hout => absurd ⟨hexp, hle⟩ hout⟩
        (.inr (hle.trans_lt moneyMax_lt_overflowBound))
    have hout : ¬ InRange (.finite n) := fun h => not_le.mpr hgt h.2
    rcases lt_or_ge |n.value| overflowBound with hlt | hbound
    · exact iff_of_true ⟨fun hin => absurd hin hout,
        fun _ => ⟨_, Money.construct_of_gt currency hexp hgt hlt⟩⟩ (.inr hlt)
    · -- the range check never gets to compare
      obtain ⟨s, hs⟩ := Money.construct_of_overflow currency hexp hbound
      apply iff_of_false
      · intro hvalidates
        obtain ⟨e, he⟩ := hvalidates.2 hout
        rw [hs] at he
        cases he
      · intro hwithin
        rcases hwithin with hscale | hlt
        · exact not_le.mpr hscale hexp
        · exact not_le.mpr hlt hbound
  | infinity negative => exact iff_of_true ⟨False.elim, fun _ => ⟨_, rfl⟩⟩ trivial
  | nan negative signaling payload => exact iff_of_true ⟨False.elim, fun _ => ⟨_, rfl⟩⟩ trivial

/-- `Money(Decimal("1E+1000000"), …)` raises `decimal.Overflow`. -/
theorem overflow_escapes :
    Money.construct (.finite ⟨false, 1, 1000000⟩) ⟨"EUR"⟩ = .error (.decimal .overflow) ∧
      ¬ Validates (.finite ⟨false, 1, 1000000⟩) ⟨"EUR"⟩ := by
  have hraises : Money.construct (.finite ⟨false, 1, 1000000⟩) ⟨"EUR"⟩ =
      .error (.decimal .overflow) := rfl
  refine ⟨hraises, ?_⟩
  intro hvalidates
  by_cases hin : InRange (.finite ⟨false, 1, 1000000⟩)
  · obtain ⟨m, hm, -⟩ := hvalidates.1 hin
    cases hraises.symm.trans hm
  · obtain ⟨e, he⟩ := hvalidates.2 hin
    cases hraises.symm.trans he

end Evenkeel.Properties
