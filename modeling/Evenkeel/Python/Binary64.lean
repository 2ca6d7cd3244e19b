import Mathlib.Algebra.Order.Field.Rat
import Mathlib.Data.Int.Log
import Mathlib.Data.Rat.Floor
import Mathlib.Tactic.FieldSimp
import Mathlib.Tactic.Linarith
import Mathlib.Tactic.NormNum
import Mathlib.Tactic.Ring

/-!
# Binary64

Python's `float`, for the arithmetic of clocks: a float is a rational that is representable, and
an operation is the exact one, rounded. Infinities and what is not a number are left out, so a
result of 2¹⁰²⁴ or beyond stays as it is.

- `round`: the nearest representable number, the even one if two are
- `Representable`: a mantissa of 53 binary digits, and an exponent from -1074 on
- `Binary64`: a float, with its arithmetic and its order

## Key Results

- `round_mono`, `round_of_representable`: rounding keeps the order, and what is representable
- `value_sub_of_le_two_mul`: the difference of two floats within a factor of two is exact
- `add_le_of_le_sub`: where a difference reaches a number, the sum does
-/

namespace Evenkeel.Python

namespace Binary64

/-- The exponent of the last place of a number. -/
def lastPlace (x : ℚ) : ℤ := max (Int.log 2 |x| - 52) (-1074)

/-- The nearest integer, the even one if two are. -/
def nearestEven (x : ℚ) : ℤ :=
  if x - ⌊x⌋ < 1 / 2 ∨ x - ⌊x⌋ = 1 / 2 ∧ ⌊x⌋ % 2 = 0 then ⌊x⌋ else ⌊x⌋ + 1

def round (x : ℚ) : ℚ := nearestEven (x / 2 ^ lastPlace x) * 2 ^ lastPlace x

def Representable (x : ℚ) : Prop :=
  ∃ m e : ℤ, |m| ≤ 2 ^ 53 ∧ -1074 ≤ e ∧ x = m * 2 ^ e

/-! ## The nearest integer -/

theorem nearestEven_mono {x y : ℚ} (h : x ≤ y) : nearestEven x ≤ nearestEven y := by
  have hfloor : ⌊x⌋ ≤ ⌊y⌋ := Int.floor_le_floor h
  unfold nearestEven
  rcases hfloor.eq_or_lt with heq | hlt
  · rw [heq]
    split_ifs with hx hy hy
    · exact le_rfl
    · exact (Int.lt_succ _).le
    · -- the larger one is rounded down, and so is the smaller one
      exfalso
      apply hx
      rcases hy with hy | ⟨hy, heven⟩
      · left
        linarith
      · rcases h.eq_or_lt with rfl | hlt
        · exact .inr ⟨hy, heven⟩
        · left
          linarith
    · exact le_rfl
  · split_ifs <;> omega

@[simp] theorem nearestEven_intCast (n : ℤ) : nearestEven n = n := by
  simp [nearestEven]

theorem nearestEven_le {x : ℚ} {n : ℤ} (h : x ≤ n) : nearestEven x ≤ n := by
  simpa using nearestEven_mono h

theorem le_nearestEven {x : ℚ} {n : ℤ} (h : (n : ℚ) ≤ x) : n ≤ nearestEven x := by
  simpa using nearestEven_mono h

/-- An integer is the nearest one if it is within a half, or at a half and even. -/
theorem nearestEven_of_near {x : ℚ} {n : ℤ} (h : |x - n| < 1 / 2 ∨ |x - n| = 1 / 2 ∧ n % 2 = 0) :
    nearestEven x = n := by
  unfold nearestEven
  rcases le_or_gt (n : ℚ) x with hle | hlt
  · rw [abs_of_nonneg (sub_nonneg.mpr hle)] at h
    have hfloor : ⌊x⌋ = n := by
      rw [Int.floor_eq_iff]
      refine ⟨hle, ?_⟩
      rcases h with h | ⟨h, -⟩ <;> linarith
    rw [hfloor, if_pos h]
  · -- it is rounded up from the integer before, which is odd if it is as near
    rw [abs_of_neg (sub_neg.mpr hlt)] at h
    have hfloor : ⌊x⌋ = n - 1 := by
      rw [Int.floor_eq_iff]
      push_cast
      constructor
      · rcases h with h | ⟨h, -⟩ <;> linarith
      · linarith
    rw [hfloor, if_neg, sub_add_cancel]
    push_cast
    rintro (hless | ⟨heq, hodd⟩)
    · rcases h with h | ⟨h, -⟩ <;> linarith
    · rcases h with h | ⟨-, heven⟩
      · linarith
      · omega

/-! ## Rounding to a last place -/

theorem two_zpow_pos (e : ℤ) : (0 : ℚ) < 2 ^ e := zpow_pos two_pos e

/-- A number is smaller than 2⁵³ units in its last place. -/
theorem abs_lt_lastPlace (x : ℚ) : |x| < 2 ^ 53 * 2 ^ lastPlace x := by
  have hlog := Int.lt_zpow_succ_log_self (R := ℚ) (b := 2) one_lt_two |x|
  calc |x| < (2 : ℚ) ^ (Int.log 2 |x| + 1) := by exact_mod_cast hlog
    _ ≤ 2 ^ (53 + lastPlace x) := by
      apply zpow_le_zpow_right₀ one_le_two
      have := le_max_left (Int.log 2 |x| - 52) (-1074)
      unfold lastPlace
      omega
    _ = 2 ^ 53 * 2 ^ lastPlace x := by
      rw [zpow_add₀ two_ne_zero]
      norm_num

/-- Unless its last place is the last there is, it has 53 digits. -/
theorem le_abs_of_lastPlace {x : ℚ} (hx : x ≠ 0) (h : -1074 < lastPlace x) :
    2 ^ 52 * 2 ^ lastPlace x ≤ |x| := by
  have hplace : lastPlace x = Int.log 2 |x| - 52 := by
    unfold lastPlace at h ⊢
    omega
  have hpos : 0 < |x| := abs_pos.mpr hx
  have hlog := Int.zpow_log_le_self (R := ℚ) (b := 2) one_lt_two hpos
  calc (2 : ℚ) ^ 52 * 2 ^ lastPlace x = 2 ^ (Int.log 2 |x|) := by
        rw [hplace, ← zpow_natCast, ← zpow_add₀ two_ne_zero]
        congr 1
        push_cast
        ring
    _ ≤ |x| := by exact_mod_cast hlog

/-- If it has 53 digits in units of `2⁻ᵏ`, this is the unit of its last place. -/
theorem lastPlace_eq {x : ℚ} {k : ℕ} (hk : k ≤ 1074) (hlow : 2 ^ 52 ≤ x * 2 ^ k)
    (hhigh : x * 2 ^ k < 2 ^ 53) : lastPlace x = -k := by
  have hunit : (0 : ℚ) < 2 ^ k := by positivity
  have hpos : 0 < x := pos_of_mul_pos_left (lt_of_lt_of_le (by positivity) hlow) hunit.le
  have hlower : ((2 : ℕ) : ℚ) ^ (52 - k : ℤ) ≤ x := by
    rw [Nat.cast_ofNat, zpow_sub₀ two_ne_zero, div_le_iff₀ (by positivity)]
    exact_mod_cast hlow
  have hupper : x < ((2 : ℕ) : ℚ) ^ (53 - k : ℤ) := by
    rw [Nat.cast_ofNat, zpow_sub₀ two_ne_zero, lt_div_iff₀ (by positivity)]
    exact_mod_cast hhigh
  have hlog := (Int.zpow_le_iff_le_log one_lt_two hpos).mp hlower
  have hlog' := (Int.lt_zpow_iff_log_lt one_lt_two hpos).mp hupper
  rw [lastPlace, abs_of_pos hpos]
  omega

theorem round_eq_div {x : ℚ} {n : ℤ} {k : ℕ} (hk : k ≤ 1074) (hlow : 2 ^ 52 ≤ x * 2 ^ k)
    (hhigh : x * 2 ^ k < 2 ^ 53)
    (hnear : |x * 2 ^ k - n| < 1 / 2 ∨ |x * 2 ^ k - n| = 1 / 2 ∧ n % 2 = 0) :
    round x = n / 2 ^ k := by
  rw [round, lastPlace_eq hk hlow hhigh, zpow_neg, zpow_natCast, div_inv_eq_mul,
    nearestEven_of_near hnear, div_eq_mul_inv]

theorem round_le_of_units {x : ℚ} {n : ℤ} (h : x ≤ n * 2 ^ lastPlace x) :
    round x ≤ n * 2 ^ lastPlace x := by
  have hunit := two_zpow_pos (lastPlace x)
  have hquotient : x / 2 ^ lastPlace x ≤ n := (div_le_iff₀ hunit).mpr h
  exact mul_le_mul_of_nonneg_right (by exact_mod_cast nearestEven_le hquotient) hunit.le

theorem le_round_of_units {x : ℚ} {n : ℤ} (h : n * 2 ^ lastPlace x ≤ x) :
    n * 2 ^ lastPlace x ≤ round x := by
  have hunit := two_zpow_pos (lastPlace x)
  have hquotient : (n : ℚ) ≤ x / 2 ^ lastPlace x := (le_div_iff₀ hunit).mpr h
  exact mul_le_mul_of_nonneg_right (by exact_mod_cast le_nearestEven hquotient) hunit.le

/-! ## What is representable -/

theorem Representable.neg {x : ℚ} (h : Representable x) : Representable (-x) := by
  obtain ⟨m, e, hm, he, rfl⟩ := h
  exact ⟨-m, e, by rwa [abs_neg], he, by push_cast; ring⟩

theorem representable_zero : Representable 0 := ⟨0, 0, by norm_num, by norm_num, by norm_num⟩

theorem representable_two_zpow {e : ℤ} (he : -1074 ≤ e) : Representable (2 ^ e) :=
  ⟨1, e, by norm_num, he, by norm_num⟩

/-- A multiple of a finer unit, as a multiple of a coarser one's. -/
theorem units_of_le {m e k : ℤ} (hk : k ≤ e) : ∃ n : ℤ, (m : ℚ) * 2 ^ e = n * 2 ^ k := by
  refine ⟨m * 2 ^ (e - k).toNat, ?_⟩
  have hsplit : (2 : ℚ) ^ e = 2 ^ (e - k).toNat * 2 ^ k := by
    rw [← zpow_natCast, ← zpow_add₀ two_ne_zero]
    congr 1
    omega
  rw [hsplit]
  push_cast
  ring

/-- A representable number is a multiple of the last place, or is smaller than all the numbers
    with this last place. -/
theorem Representable.units {x g : ℚ} (h : Representable g) :
    (∃ n : ℤ, g = n * 2 ^ lastPlace x) ∨
      -1074 < lastPlace x ∧ |g| ≤ 2 ^ 52 * 2 ^ lastPlace x := by
  obtain ⟨m, e, hm, he, rfl⟩ := h
  rcases le_or_gt (lastPlace x) e with hle | hlt
  · exact .inl (units_of_le hle)
  · right
    refine ⟨by omega, ?_⟩
    have hm' : |(m : ℚ)| ≤ 2 ^ 53 := by exact_mod_cast hm
    calc |(m : ℚ) * 2 ^ e| = |(m : ℚ)| * 2 ^ e := by rw [abs_mul, abs_of_pos (two_zpow_pos e)]
      _ ≤ 2 ^ 53 * 2 ^ (lastPlace x - 1) := by
        have hstep : (2 : ℚ) ^ e ≤ 2 ^ (lastPlace x - 1) :=
          zpow_le_zpow_right₀ one_le_two (by omega)
        exact mul_le_mul hm' hstep (two_zpow_pos e).le (by norm_num)
      _ = 2 ^ 52 * 2 ^ lastPlace x := by
        rw [zpow_sub_one₀ two_ne_zero]
        ring

@[simp] theorem round_zero : round 0 = 0 := by simp [round, nearestEven]

/-- Rounding does not go past a representable number. -/
theorem round_le {x g : ℚ} (hg : Representable g) (h : x ≤ g) : round x ≤ g := by
  rcases eq_or_ne x 0 with rfl | hne
  · rwa [round_zero]
  -- either the number is a whole count of the units that `x` is rounded to
  rcases hg.units (x := x) with ⟨n, rfl⟩ | ⟨hplace, hsmall⟩
  · exact round_le_of_units h
  · -- then `x` is beyond all these numbers, and so is what it is rounded to
    have hlarge := le_abs_of_lastPlace hne hplace
    have hcast : (2 : ℚ) ^ 52 * 2 ^ lastPlace x = ((2 ^ 52 : ℤ) : ℚ) * 2 ^ lastPlace x := by
      norm_num
    rcases le_total 0 x with hx | hx
    · rw [abs_of_nonneg hx] at hlarge
      have heq : x = 2 ^ 52 * 2 ^ lastPlace x :=
        le_antisymm (h.trans ((le_abs_self g).trans hsmall)) hlarge
      have hunits : x ≤ ((2 ^ 52 : ℤ) : ℚ) * 2 ^ lastPlace x := by
        rw [← hcast]
        exact heq.le
      calc round x ≤ ((2 ^ 52 : ℤ) : ℚ) * 2 ^ lastPlace x := round_le_of_units hunits
        _ = x := by rw [← hcast, ← heq]
        _ ≤ g := h
    · rw [abs_of_nonpos hx] at hlarge
      have hneg : -(2 ^ 52 * 2 ^ lastPlace x) ≤ g := (neg_le_neg hsmall).trans (neg_abs_le g)
      have hunits : round x ≤ ((-2 ^ 52 : ℤ) : ℚ) * 2 ^ lastPlace x := by
        apply round_le_of_units
        push_cast
        linarith
      push_cast at hunits
      linarith

theorem le_round {x g : ℚ} (hg : Representable g) (h : g ≤ x) : g ≤ round x := by
  rcases eq_or_ne x 0 with rfl | hne
  · rwa [round_zero]
  rcases hg.units (x := x) with ⟨n, rfl⟩ | ⟨hplace, hsmall⟩
  · exact le_round_of_units h
  · have hlarge := le_abs_of_lastPlace hne hplace
    rcases le_total 0 x with hx | hx
    · rw [abs_of_nonneg hx] at hlarge
      have hunits : ((2 ^ 52 : ℤ) : ℚ) * 2 ^ lastPlace x ≤ round x := by
        apply le_round_of_units
        push_cast
        exact hlarge
      push_cast at hunits
      exact ((le_abs_self g).trans hsmall).trans hunits
    · rw [abs_of_nonpos hx] at hlarge
      have hneg : -(2 ^ 52 * 2 ^ lastPlace x) ≤ g := (neg_le_neg hsmall).trans (neg_abs_le g)
      have heq : x = -(2 ^ 52 * 2 ^ lastPlace x) := by linarith
      have hunits : ((-2 ^ 52 : ℤ) : ℚ) * 2 ^ lastPlace x ≤ round x := by
        apply le_round_of_units
        push_cast
        linarith
      push_cast at hunits
      linarith

theorem round_of_representable {x : ℚ} (h : Representable x) : round x = x :=
  le_antisymm (round_le h le_rfl) (le_round h le_rfl)

theorem representable_round (x : ℚ) : Representable (round x) := by
  refine ⟨nearestEven (x / 2 ^ lastPlace x), lastPlace x, ?_, le_max_right .., rfl⟩
  have hunit := two_zpow_pos (lastPlace x)
  have habs : |x / 2 ^ lastPlace x| ≤ 2 ^ 53 := by
    rw [abs_div, abs_of_pos hunit, div_le_iff₀ hunit]
    exact (abs_lt_lastPlace x).le
  obtain ⟨hlow, hhigh⟩ := abs_le.mp habs
  rw [abs_le]
  constructor
  · apply le_nearestEven
    push_cast
    exact hlow
  · apply nearestEven_le
    push_cast
    exact hhigh

theorem lastPlace_le_lastPlace {x y : ℚ} (hx : 0 < |x|) (h : |x| ≤ |y|) :
    lastPlace x ≤ lastPlace y :=
  max_le_max (by have := Int.log_mono_right (b := 2) hx h; omega) le_rfl

/-- Between two numbers with different last places there is a representable one. -/
theorem exists_representable_between {x y : ℚ} (h : x ≤ y) (hplace : lastPlace x ≠ lastPlace y) :
    ∃ g, Representable g ∧ x ≤ g ∧ g ≤ y := by
  -- on one side of zero, it is the power of two that begins the larger last place
  have hside : ∀ {a b : ℚ}, 0 < a → a ≤ b → lastPlace a ≠ lastPlace b →
      ∃ g, Representable g ∧ a ≤ g ∧ g ≤ b := by
    intro a b ha hab hne
    -- the larger number has the larger last place
    have hlt : lastPlace a < lastPlace b :=
      lt_of_le_of_ne (lastPlace_le_lastPlace (abs_pos.mpr ha.ne')
        (by rwa [abs_of_pos ha, abs_of_pos (ha.trans_le hab)])) hne
    have hlow : -1074 ≤ lastPlace a := le_max_right ..
    have hpower : (2 : ℚ) ^ 52 * 2 ^ lastPlace b = 2 ^ (52 + lastPlace b) := by
      rw [zpow_add₀ two_ne_zero]
      norm_num
    refine ⟨2 ^ (52 + lastPlace b), representable_two_zpow (by omega), ?_, ?_⟩
    · have hbound := abs_lt_lastPlace a
      rw [abs_of_pos ha] at hbound
      calc a ≤ 2 ^ 53 * 2 ^ lastPlace a := hbound.le
        _ = 2 ^ (53 + lastPlace a) := by
          rw [zpow_add₀ two_ne_zero]
          norm_num
        _ ≤ 2 ^ (52 + lastPlace b) := zpow_le_zpow_right₀ one_le_two (by omega)
    · have hbound := le_abs_of_lastPlace (ha.trans_le hab).ne' (by omega)
      rwa [abs_of_pos (ha.trans_le hab), hpower] at hbound
  rcases lt_or_ge 0 x with hx | hx
  · exact hside hx h hplace
  · -- both negative: the mirror image
    rcases lt_or_ge y 0 with hy | hy
    · have hneg : ∀ z : ℚ, lastPlace (-z) = lastPlace z := fun z => by simp [lastPlace]
      obtain ⟨g, hg, hyg, hgx⟩ := hside (neg_pos.mpr hy) (neg_le_neg h)
        (by rw [hneg, hneg]; exact hplace.symm)
      exact ⟨-g, hg.neg, by linarith, by linarith⟩
    · -- zero is between them
      exact ⟨0, representable_zero, hx, hy⟩

theorem round_mono {x y : ℚ} (h : x ≤ y) : round x ≤ round y := by
  by_cases hplace : lastPlace x = lastPlace y
  · unfold round
    rw [hplace]
    have hunit := two_zpow_pos (lastPlace y)
    have hquotient : x / 2 ^ lastPlace y ≤ y / 2 ^ lastPlace y :=
      div_le_div_of_nonneg_right h hunit.le
    exact mul_le_mul_of_nonneg_right (by exact_mod_cast nearestEven_mono hquotient) hunit.le
  · obtain ⟨g, hg, hxg, hgy⟩ := exists_representable_between h hplace
    exact (round_le hg hxg).trans (le_round hg hgy)

/-- A multiple of a unit, by at most 2⁵³. -/
theorem representable_of_units {x : ℚ} {m e : ℤ} (hx : x = m * 2 ^ e) (he : -1074 ≤ e)
    (hsmall : |x| ≤ 2 ^ 53 * 2 ^ e) : Representable x := by
  refine ⟨m, e, ?_, he, hx⟩
  rw [hx, abs_mul, abs_of_pos (two_zpow_pos e), mul_le_mul_iff_left₀ (two_zpow_pos e)] at hsmall
  exact_mod_cast hsmall

theorem representable_intCast {n : ℤ} (h : |n| ≤ 2 ^ 53) : Representable n :=
  ⟨n, 0, h, by norm_num, by simp⟩

theorem round_intCast {n : ℤ} (h : |n| ≤ 2 ^ 53) : round n = n :=
  round_of_representable (representable_intCast h)

/-- The difference of two representable numbers is a multiple of the finer unit of the two. -/
theorem Representable.exists_units {a b : ℚ} (ha : Representable a) (hb : Representable b) :
    ∃ m e : ℤ, b - a = m * 2 ^ e ∧ -1074 ≤ e ∧
      (|a| ≤ 2 ^ 53 * 2 ^ e ∨ |b| ≤ 2 ^ 53 * 2 ^ e) := by
  obtain ⟨m, e, hm, he, rfl⟩ := ha
  obtain ⟨n, f, hn, hf, rfl⟩ := hb
  have hbound : ∀ {m e : ℤ}, |m| ≤ 2 ^ 53 → |(m : ℚ) * 2 ^ e| ≤ 2 ^ 53 * 2 ^ e := by
    intro m e hm
    rw [abs_mul, abs_of_pos (two_zpow_pos e)]
    exact mul_le_mul_of_nonneg_right (by exact_mod_cast hm) (two_zpow_pos e).le
  rcases le_total e f with hle | hle
  · obtain ⟨n', hn'⟩ := units_of_le (m := n) hle
    exact ⟨n' - m, e, by rw [hn']; push_cast; ring, he, .inl (hbound hm)⟩
  · obtain ⟨m', hm'⟩ := units_of_le (m := m) hle
    exact ⟨n - m', f, by rw [hm']; push_cast; ring, hf, .inr (hbound hn)⟩

/-- The difference of two numbers within a factor of two of each other. -/
theorem Representable.sub {a b : ℚ} (ha : Representable a) (hb : Representable b) (hle : a ≤ b)
    (htwice : b ≤ 2 * a) : Representable (b - a) := by
  obtain ⟨m, e, hunits, he, hsmall⟩ := ha.exists_units hb
  have hnonneg : 0 ≤ a := by linarith
  apply representable_of_units hunits he
  rw [abs_of_nonneg (by linarith)]
  rcases hsmall with hsmall | hsmall
  · rw [abs_of_nonneg hnonneg] at hsmall
    linarith
  · rw [abs_of_nonneg (hnonneg.trans hle)] at hsmall
    linarith

theorem round_sub_pos {a b : ℚ} (ha : Representable a) (hb : Representable b) (hlt : a < b) :
    0 < round (b - a) := by
  obtain ⟨m, e, hunits, he, -⟩ := ha.exists_units hb
  have hpos : 0 < m := by
    have hdiff : (0 : ℚ) < m * 2 ^ e := by linarith
    exact_mod_cast pos_of_mul_pos_left hdiff (two_zpow_pos e).le
  have hunit : (2 : ℚ) ^ e ≤ b - a := by
    rw [hunits]
    exact le_mul_of_one_le_left (two_zpow_pos e).le (by exact_mod_cast hpos)
  exact (two_zpow_pos e).trans_le (le_round (representable_two_zpow he) hunit)

end Binary64

/-! ## Floats -/

@[ext] structure Binary64 where
  value : ℚ
  representable : Binary64.Representable value

namespace Binary64

/-- The nearest float, as of a literal. -/
def ofRat (x : ℚ) : Binary64 := ⟨round x, representable_round x⟩

/-- `float` of an integer; `none` is an `OverflowError`. -/
def ofInt (n : ℤ) : Option Binary64 := if |round n| < 2 ^ 1024 then some (ofRat n) else none

/-- A result that is an infinity in the code. -/
def Overflows (x : Binary64) : Prop := 2 ^ 1024 ≤ |x.value|

instance (x : Binary64) : Decidable x.Overflows := inferInstanceAs (Decidable (_ ≤ _))

/-- `int`, which cuts off towards zero. -/
def trunc (x : Binary64) : ℤ := if 0 ≤ x.value then ⌊x.value⌋ else ⌈x.value⌉

instance (n : ℕ) : OfNat Binary64 n := ⟨ofRat n⟩

instance : Add Binary64 := ⟨fun x y => ofRat (x.value + y.value)⟩

instance : Sub Binary64 := ⟨fun x y => ofRat (x.value - y.value)⟩

instance : Mul Binary64 := ⟨fun x y => ofRat (x.value * y.value)⟩

theorem value_injective : Function.Injective value := fun _ _ => Binary64.ext

instance : DecidableEq Binary64 := fun x y =>
  decidable_of_iff (x.value = y.value) value_injective.eq_iff

instance : LinearOrder Binary64 := LinearOrder.lift' value value_injective

variable {x y z : Binary64}

theorem le_iff : x ≤ y ↔ x.value ≤ y.value := Iff.rfl

theorem lt_iff : x < y ↔ x.value < y.value := Iff.rfl

@[simp] theorem round_value (x : Binary64) : round x.value = x.value :=
  round_of_representable x.representable

@[simp] theorem value_ofRat (x : ℚ) : (ofRat x).value = round x := rfl

theorem value_add (x y : Binary64) : (x + y).value = round (x.value + y.value) := rfl

theorem value_sub (x y : Binary64) : (x - y).value = round (x.value - y.value) := rfl

@[simp] theorem value_zero : (0 : Binary64).value = 0 := by
  show round ((0 : ℕ) : ℚ) = 0
  rw [Nat.cast_zero, round_zero]

theorem ofRat_mono {x y : ℚ} (h : x ≤ y) : ofRat x ≤ ofRat y := round_mono h

/-! Whole numbers. -/

theorem ofInt_of_le {n : ℤ} (h : |n| ≤ 2 ^ 53) : ofInt n = some (ofRat n) := by
  have hle : |(n : ℚ)| ≤ 2 ^ 53 := by exact_mod_cast h
  have hsmall : |round n| < 2 ^ 1024 := by
    rw [round_intCast h]
    exact hle.trans_lt (pow_lt_pow_right₀ one_lt_two (by norm_num))
  rw [ofInt, if_pos hsmall]

theorem ofRat_intCast_lt {m n : ℤ} (hm : |m| ≤ 2 ^ 53) (hn : |n| ≤ 2 ^ 53) (h : m < n) :
    ofRat m < ofRat n := by
  rw [lt_iff, value_ofRat, value_ofRat, round_intCast hm, round_intCast hn]
  exact_mod_cast h

theorem ofRat_intCast_add {m n : ℤ} (hm : |m| ≤ 2 ^ 53) (hn : |n| ≤ 2 ^ 53) :
    ofRat m + ofRat n = ofRat ((m + n : ℤ) : ℚ) := by
  apply Binary64.ext
  rw [value_add, value_ofRat, value_ofRat, value_ofRat, round_intCast hm, round_intCast hn]
  push_cast
  rfl

theorem exists_lt (x : Binary64) : ∃ y, x < y := by
  refine ⟨⟨2 ^ (⌈|x.value|⌉₊ : ℤ), representable_two_zpow (by omega)⟩, ?_⟩
  have hpower : (⌈|x.value|⌉₊ : ℚ) < 2 ^ (⌈|x.value|⌉₊ : ℤ) := by
    exact_mod_cast Nat.lt_two_pow_self
  rw [lt_iff]
  exact ((le_abs_self _).trans (Nat.le_ceil _)).trans_lt hpower

theorem add_mono_left (h : x ≤ y) (z : Binary64) : x + z ≤ y + z :=
  round_mono (by linarith [le_iff.mp h])

theorem sub_mono_left (h : x ≤ y) (z : Binary64) : x - z ≤ y - z :=
  round_mono (by linarith [le_iff.mp h])

theorem le_add_self (h : 0 ≤ y) : x ≤ x + y := by
  have hy : 0 ≤ y.value := by simpa [le_iff] using h
  calc x.value = round x.value := x.round_value.symm
    _ ≤ (x + y).value := round_mono (by linarith)

theorem sub_le_self (h : 0 ≤ y) : x - y ≤ x := by
  have hy : 0 ≤ y.value := by simpa [le_iff] using h
  calc (x - y).value ≤ round x.value := round_mono (by linarith)
    _ = x.value := x.round_value

@[simp] theorem self_sub (x : Binary64) : x - x = 0 := by
  apply Binary64.ext
  rw [value_sub, sub_self, round_zero, value_zero]

@[simp] theorem sub_zero (x : Binary64) : x - 0 = x := by
  apply Binary64.ext
  simp [value_sub]

theorem zero_lt_sub (h : x < y) : 0 < y - x := by
  rw [lt_iff, value_zero]
  exact round_sub_pos x.representable y.representable h

theorem value_sub_of_le_two_mul (hle : x ≤ y) (htwice : y.value ≤ 2 * x.value) :
    (y - x).value = y.value - x.value := by
  rw [value_sub]
  exact round_of_representable (x.representable.sub y.representable hle htwice)

/-- If a number was reached by the difference, it is reached by the sum, unless the subtrahend
    is smaller than the number. -/
theorem add_le_of_le_sub (hlate : z ≤ x) (hle : x ≤ y) (h : z ≤ y - x) :
    x.value + z.value ≤ y.value := by
  rcases le_or_gt y.value (2 * x.value) with htwice | htwice
  · rw [le_iff, value_sub_of_le_two_mul hle htwice] at h
    linarith
  · rw [le_iff] at hlate
    linarith

end Binary64

end Evenkeel.Python
