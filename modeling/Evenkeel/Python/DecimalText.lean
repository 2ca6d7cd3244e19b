import Mathlib.Data.List.TakeWhile
import Evenkeel.Python.Decimal

/-!
# Reading Decimals Back

`Decimal.__str__` of a finite number writes its sign, its coefficient and its exponent, and
nothing is lost: the text is read back by its parts.

- `mantissaText`, `exponentText`: the parts of the text
- `mantissaCoeff`, `places`: what a mantissa says

## Key Results

- `Number.chars_injective`: numbers that are written alike are the same number, down to the
  zeros at the end
-/

namespace Evenkeel.Python

/-! ## The parts of a text -/

def signText (negative : Bool) : List Char := if negative then ['-'] else []

/-- The digits with a point behind `dotPlace` of them. -/
def mantissaText (digits : List Char) (dotPlace : ℤ) : List Char :=
  if dotPlace ≤ 0 then
    '0' :: '.' :: (List.replicate (-dotPlace).toNat '0' ++ digits)
  else if (digits.length : ℤ) ≤ dotPlace then
    digits ++ List.replicate (dotPlace - digits.length).toNat '0'
  else
    digits.take dotPlace.toNat ++ '.' :: digits.drop dotPlace.toNat

def exponentText (shift : ℤ) : List Char :=
  if shift = 0 then []
  else 'E' :: (if shift < 0 then '-' else '+') :: Nat.toDigits 10 shift.natAbs

/-- How many digits stand in front of the point. -/
def Number.dotPlace (n : Number) : ℤ :=
  let leftDigits : ℤ := n.exp + digitCount n.coeff
  if n.exp ≤ 0 ∧ -6 < leftDigits then leftDigits else 1

theorem Number.chars_eq (n : Number) : n.chars =
    signText n.negative ++ mantissaText (Nat.toDigits 10 n.coeff) n.dotPlace ++
      exponentText (n.exp + digitCount n.coeff - n.dotPlace) := rfl

/-! ## What a mantissa says -/

/-- The digits of a mantissa, as a number. -/
def mantissaCoeff (mantissa : List Char) : ℕ :=
  Nat.ofDigitChars 10 (mantissa.filter (· ≠ '.')) 0

/-- The digits behind the point. -/
def places (mantissa : List Char) : ℕ := (mantissa.dropWhile (· ≠ '.')).length - 1

section

variable {digits : List Char} {dotPlace : ℤ} (hdigits : ∀ c ∈ digits, c.isDigit = true)

include hdigits

private theorem ne_dot {c : Char} (hc : c ∈ digits) : c ≠ '.' := by
  intro hdot
  subst hdot
  exact absurd (hdigits _ hc) (by decide)

private theorem filter_digits {l : List Char} (hl : ∀ c ∈ l, c ∈ digits) :
    l.filter (· ≠ '.') = l := by
  apply List.filter_eq_self.mpr
  intro c hc
  simpa using ne_dot hdigits (hl c hc)

/-- A point behind some of the digits does not change them. -/
theorem mantissaCoeff_mantissaText (hplace : (digits.length : ℤ) ≤ dotPlace →
    dotPlace = digits.length) :
    mantissaCoeff (mantissaText digits dotPlace) = Nat.ofDigitChars 10 digits 0 := by
  have hself : digits.filter (· ≠ '.') = digits := filter_digits hdigits fun c hc => hc
  unfold mantissaCoeff mantissaText
  split
  · -- zeros in front count for nothing
    have hzeros : (List.replicate (-dotPlace).toNat '0').filter (· ≠ '.') =
        List.replicate (-dotPlace).toNat '0' := by
      apply List.filter_eq_self.mpr
      intro c hc
      rw [List.eq_of_mem_replicate hc]
      rfl
    rw [List.filter_cons_of_pos (by decide), List.filter_cons_of_neg (by decide),
      List.filter_append, hzeros, hself, Nat.ofDigitChars_cons, Nat.ofDigitChars_append,
      Nat.ofDigitChars_replicate_zero]
    rfl
  · -- the point stands behind all the digits, or among them
    split
    · rename_i hlong
      rw [hplace hlong, sub_self, Int.toNat_zero, List.replicate_zero, List.append_nil, hself]
    · rw [List.filter_append, List.filter_cons_of_neg (by decide),
        filter_digits hdigits fun c hc => List.mem_of_mem_take hc,
        filter_digits hdigits fun c hc => List.mem_of_mem_drop hc, List.take_append_drop]

/-- The digits behind the point, and the place of the point, make up the digits. -/
theorem places_mantissaText (hplace : (digits.length : ℤ) ≤ dotPlace →
    dotPlace = digits.length) :
    (places (mantissaText digits dotPlace) : ℤ) = digits.length - dotPlace := by
  unfold places mantissaText
  split
  · -- everything behind the zeros is behind the point
    rw [List.dropWhile_cons_of_pos (by decide), List.dropWhile_cons_of_neg (by decide)]
    simp
    omega
  · -- no point is written when all the digits stand before it
    split
    · rename_i hlong
      rw [hplace hlong, sub_self]
      have hnone : digits.dropWhile (· ≠ '.') = [] := by
        apply List.dropWhile_eq_nil_iff.mpr
        intro c hc
        simpa using ne_dot hdigits hc
      rw [Int.toNat_zero, List.replicate_zero, List.append_nil, hnone]
      rfl
    · have hskip : (digits.take dotPlace.toNat ++ '.' :: digits.drop dotPlace.toNat).dropWhile
          (· ≠ '.') = '.' :: digits.drop dotPlace.toNat := by
        rw [List.dropWhile_append_of_pos, List.dropWhile_cons_of_neg (by decide)]
        intro c hc
        simpa using ne_dot hdigits (List.mem_of_mem_take hc)
      rw [hskip, List.length_cons, List.length_drop]
      omega

/-- A mantissa begins with a digit, and has no letters. -/
theorem mantissaText_chars (hne : digits ≠ []) : mantissaText digits dotPlace ≠ [] ∧
    ∀ c ∈ mantissaText digits dotPlace, c = '.' ∨ c.isDigit = true := by
  unfold mantissaText
  have hzero : ∀ {k : ℕ} {c : Char}, c ∈ List.replicate k '0' → c = '.' ∨ c.isDigit = true := by
    intro k c hc
    rw [List.eq_of_mem_replicate hc]
    exact .inr (by decide)
  split
  · refine ⟨by simp, ?_⟩
    intro c hc
    simp only [List.mem_cons, List.mem_append] at hc
    rcases hc with rfl | rfl | hc | hc
    · exact .inr (by decide)
    · exact .inl rfl
    · exact hzero hc
    · exact .inr (hdigits c hc)
  · split
    · refine ⟨by simp [hne], ?_⟩
      intro c hc
      rcases List.mem_append.mp hc with hc | hc
      · exact .inr (hdigits c hc)
      · exact hzero hc
    · refine ⟨by simp, ?_⟩
      intro c hc
      simp only [List.mem_cons, List.mem_append] at hc
      rcases hc with hc | rfl | hc
      · exact .inr (hdigits c (List.mem_of_mem_take hc))
      · exact .inl rfl
      · exact .inr (hdigits c (List.mem_of_mem_drop hc))

end

/-! ## Reading back -/

theorem toDigits_injective {n m : ℕ} (h : Nat.toDigits 10 n = Nat.toDigits 10 m) : n = m := by
  have hvalue := congrArg (fun digits => Nat.ofDigitChars 10 digits 0) h
  simpa using hvalue

theorem exponentText_injective {s s' : ℤ} (h : exponentText s = exponentText s') : s = s' := by
  unfold exponentText at h
  by_cases hs : s = 0
  · by_cases hs' : s' = 0
    · rw [hs, hs']
    · rw [if_pos hs, if_neg hs'] at h
      cases h
  · by_cases hs' : s' = 0
    · rw [if_neg hs, if_pos hs'] at h
      cases h
    · rw [if_neg hs, if_neg hs', List.cons.injEq, List.cons.injEq] at h
      obtain ⟨-, hsign, hdigits⟩ := h
      have habs := toDigits_injective hdigits
      split at hsign <;> split at hsign
      · omega
      · exact absurd hsign (by decide)
      · exact absurd hsign (by decide)
      · omega

theorem exponentText_begins (shift : ℤ) : ∀ c ∈ (exponentText shift).head?, c = 'E' := by
  intro c hc
  unfold exponentText at hc
  split at hc
  · cases hc
  · exact (Option.some.inj hc).symm

/-- The sign is there or not, as what follows begins with none. -/
theorem sign_append {b b' : Bool} {m m' e e' : List Char} (hm : ∃ c rest, m = c :: rest ∧ c ≠ '-')
    (hm' : ∃ c rest, m' = c :: rest ∧ c ≠ '-')
    (h : signText b ++ (m ++ e) = signText b' ++ (m' ++ e')) : b = b' ∧ m ++ e = m' ++ e' := by
  obtain ⟨c, rest, rfl, hc⟩ := hm
  obtain ⟨c', rest', rfl, hc'⟩ := hm'
  cases b with
  | true =>
    cases b' with
    | true => exact ⟨rfl, List.append_cancel_left h⟩
    | false => exact absurd (List.cons.inj h).1.symm hc'
  | false =>
    cases b' with
    | true => exact absurd (List.cons.inj h).1 hc
    | false => exact ⟨rfl, h⟩

/-- Where the mantissa ends, as it has no letters. -/
theorem mantissa_append {m m' e e' : List Char} (hm : ∀ c ∈ m, c ≠ 'E') (hm' : ∀ c ∈ m', c ≠ 'E')
    (he : ∀ c ∈ e.head?, c = 'E') (he' : ∀ c ∈ e'.head?, c = 'E') (h : m ++ e = m' ++ e') :
    m = m' ∧ e = e' := by
  have htake : ∀ {m e : List Char}, (∀ c ∈ m, c ≠ 'E') → (∀ c ∈ e.head?, c = 'E') →
      (m ++ e).takeWhile (· ≠ 'E') = m := by
    intro m e hm he
    rw [List.takeWhile_append_of_pos (by simpa using hm)]
    cases e with
    | nil => simp
    | cons c e =>
      obtain rfl := he c rfl
      simp
  have hmantissa : m = m' := by rw [← htake hm he, h, htake hm' he']
  subst hmantissa
  exact ⟨rfl, List.append_cancel_left h⟩

namespace Number

theorem isDigit_of_mem_digits (n : Number) : ∀ c ∈ Nat.toDigits 10 n.coeff, c.isDigit = true :=
  fun _ hc => Nat.isDigit_of_mem_toDigits (by decide) (by decide) hc

/-- The point is never behind the last digit, with zeros in between. -/
theorem dotPlace_le (n : Number) (h : ((Nat.toDigits 10 n.coeff).length : ℤ) ≤ n.dotPlace) :
    n.dotPlace = (Nat.toDigits 10 n.coeff).length := by
  have hpos : 0 < (Nat.toDigits 10 n.coeff).length := Nat.length_toDigits_pos
  unfold dotPlace digitCount at h ⊢
  simp only at h ⊢
  split at h <;> split <;> omega

/-- The digits of the number with its point. -/
def mantissa (n : Number) : List Char := mantissaText (Nat.toDigits 10 n.coeff) n.dotPlace

theorem mantissa_coeff (n : Number) : mantissaCoeff n.mantissa = n.coeff := by
  rw [mantissa, mantissaCoeff_mantissaText n.isDigit_of_mem_digits n.dotPlace_le]
  exact Nat.ofDigitChars_ten_toDigits

theorem mantissa_places (n : Number) :
    (places n.mantissa : ℤ) = digitCount n.coeff - n.dotPlace :=
  places_mantissaText n.isDigit_of_mem_digits n.dotPlace_le

theorem mantissa_no_exponent (n : Number) : ∀ c ∈ n.mantissa, c ≠ 'E' := by
  intro c hc hletter
  subst hletter
  rcases (mantissaText_chars n.isDigit_of_mem_digits Nat.toDigits_ne_nil).2 _ hc with h | h
  · exact absurd h (by decide)
  · exact absurd h (by decide)

theorem mantissa_begins (n : Number) : ∃ c rest, n.mantissa = c :: rest ∧ c ≠ '-' := by
  have hchars : n.mantissa ≠ [] ∧ ∀ c ∈ n.mantissa, c = '.' ∨ c.isDigit = true :=
    mantissaText_chars n.isDigit_of_mem_digits Nat.toDigits_ne_nil
  obtain ⟨c, rest, hmantissa⟩ := List.exists_cons_of_ne_nil hchars.1
  refine ⟨c, rest, hmantissa, ?_⟩
  intro hsign
  subst hsign
  rcases hchars.2 '-' (hmantissa ▸ List.mem_cons_self) with h | h
  · exact absurd h (by decide)
  · exact absurd h (by decide)

theorem chars_injective {n m : Number} (h : n.chars = m.chars) : n = m := by
  rw [chars_eq, chars_eq, List.append_assoc, List.append_assoc, ← mantissa, ← mantissa] at h
  obtain ⟨hsign, hrest⟩ := sign_append n.mantissa_begins m.mantissa_begins h
  obtain ⟨hmantissa, hexponent⟩ := mantissa_append n.mantissa_no_exponent m.mantissa_no_exponent
    (exponentText_begins _) (exponentText_begins _) hrest
  have hcoeff := congrArg mantissaCoeff hmantissa
  rw [n.mantissa_coeff, m.mantissa_coeff] at hcoeff
  have hplaces := congrArg places hmantissa
  have hshift := exponentText_injective hexponent
  have hexp : n.exp = m.exp := by
    have hn := n.mantissa_places
    have hm := m.mantissa_places
    omega
  cases n
  cases m
  exact congr (congrArg₂ Number.mk hsign hcoeff) hexp

end Number

end Evenkeel.Python
