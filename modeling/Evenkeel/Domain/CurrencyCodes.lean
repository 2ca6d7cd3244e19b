import Evenkeel.Domain.Money

/-!
# Currency Codes

`CurrencyCode._validate` of `domain/value_objects/money.py`. What a letter is, and which case it
has, is looked up in the tables of Unicode, of which only the part below 128 is spelled out.
-/

namespace Evenkeel.Domain

/-- What `str.upper`, `str.isalpha` and `str.isupper` look up about a character. -/
structure Letters where
  upper : Char → List Char
  isAlpha : Char → Bool
  isUpper : Char → Bool
  isLower : Char → Bool
  isTitle : Char → Bool
  upper_ascii : ∀ c, c.toNat < 128 → upper c = [c.toUpper]
  isAlpha_ascii : ∀ c, c.toNat < 128 → isAlpha c = c.isAlpha
  isUpper_ascii : ∀ c, c.toNat < 128 → isUpper c = c.isUpper
  isLower_ascii : ∀ c, c.toNat < 128 → isLower c = c.isLower
  isTitle_ascii : ∀ c, c.toNat < 128 → isTitle c = false

namespace Letters

variable (letters : Letters)

/-- `str.upper`. -/
def strUpper (s : String) : String := String.ofList (s.toList.flatMap letters.upper)

/-- `str.isalpha`. -/
def strIsAlpha (s : String) : Bool := s.toList ≠ [] && s.toList.all letters.isAlpha

/-- `str.isupper`: there is a cased character, and none is in another case. -/
def strIsUpper (s : String) : Bool :=
  s.toList.any letters.isUpper && s.toList.all fun c => !letters.isLower c && !letters.isTitle c

/-- The tables of a Unicode that ends at 128. -/
def ascii : Letters where
  upper c := [c.toUpper]
  isAlpha := Char.isAlpha
  isUpper := Char.isUpper
  isLower := Char.isLower
  isTitle _ := false
  upper_ascii _ _ := rfl
  isAlpha_ascii _ _ := rfl
  isUpper_ascii _ _ := rfl
  isLower_ascii _ _ := rfl
  isTitle_ascii _ _ := rfl

end Letters

namespace CurrencyCode

variable (letters : Letters)

/-- What `_validate` asks of a code. -/
def Valid (value : String) : Prop :=
  value.length = 3 ∧ letters.strIsAlpha value = true ∧ letters.strIsUpper value = true

instance (value : String) : Decidable (Valid letters value) := by
  unfold Valid
  infer_instance

/-- `CurrencyCode(value)`. -/
def construct (value : String) : Except Raised CurrencyCode :=
  if Valid letters value then .ok ⟨value⟩ else refuse .currencyCodeInvalid [("value", value)]

variable {letters}

theorem construct_ok {value : String} {c : CurrencyCode} (h : construct letters value = .ok c) :
    c.value = value ∧ Valid letters value := by
  unfold construct at h
  split_ifs at h with hvalid
  · cases h
    exact ⟨rfl, hvalid⟩
  · cases h

end CurrencyCode

end Evenkeel.Domain
