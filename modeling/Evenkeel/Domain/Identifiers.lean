import Mathlib.Data.List.Basic
import Mathlib.Tactic.NormNum

/-!
# Identifiers

`domain/value_objects/ids.py`: the typed identifiers, each wrapping a UUID, and the
canonical text of a UUID, which keys of the lock and of the idempotency store are built
from.

## Key Results

- `UUID.str_injective`: two UUIDs with the same text are the same
-/

namespace Evenkeel.Domain

/-! ## UUIDs -/

/-- `uuid.UUID`: a 128-bit integer. -/
@[ext] structure UUID where
  int : ℕ
  bounded : int < 2 ^ 128
  deriving DecidableEq

/-- The `width` low hexadecimal digits of `n`, the most significant first. -/
def hexDigits : ℕ → ℕ → List Char
  | 0, _ => []
  | width + 1, n => hexDigits width (n / 16) ++ [Nat.digitChar (n % 16)]

@[simp] theorem hexDigits_length (width n : ℕ) : (hexDigits width n).length = width := by
  induction width generalizing n with
  | zero => rfl
  | succ width ih => simp [hexDigits, ih]

/-- Every character of `hexDigits` is a digit below sixteen. -/
theorem exists_of_mem_hexDigits {width n : ℕ} {c : Char} (h : c ∈ hexDigits width n) :
    ∃ d < 16, c = Nat.digitChar d := by
  induction width generalizing n with
  | zero => simp [hexDigits] at h
  | succ width ih =>
    simp only [hexDigits, List.mem_append, List.mem_singleton] at h
    rcases h with h | rfl
    · exact ih h
    · exact ⟨n % 16, Nat.mod_lt _ (by norm_num), rfl⟩

private theorem digitChar_injective_of_lt :
    ∀ a < 16, ∀ b < 16, Nat.digitChar a = Nat.digitChar b → a = b := by
  decide

theorem hexDigits_injective {width n m : ℕ} (hn : n < 16 ^ width) (hm : m < 16 ^ width)
    (h : hexDigits width n = hexDigits width m) : n = m := by
  induction width generalizing n m with
  | zero => omega
  | succ width ih =>
    simp only [hexDigits] at h
    obtain ⟨hinit, hlast⟩ := List.append_inj' h rfl
    have hdigit : n % 16 = m % 16 :=
      digitChar_injective_of_lt _ (Nat.mod_lt _ (by norm_num)) _ (Nat.mod_lt _ (by norm_num))
        (by simpa using hlast)
    have hquot : n / 16 = m / 16 :=
      ih (Nat.div_lt_of_lt_mul (by rwa [pow_succ, mul_comm] at hn))
        (Nat.div_lt_of_lt_mul (by rwa [pow_succ, mul_comm] at hm)) hinit
    omega

namespace UUID

/-- `uuid.UUID.hex`. -/
def hex (u : UUID) : List Char := hexDigits 32 u.int

/-- The characters of `str(u)`: the hexadecimal digits in groups of 8, 4, 4, 4 and 12. -/
def chars (u : UUID) : List Char :=
  u.hex.take 8 ++ '-' :: ((u.hex.drop 8).take 4 ++ '-' :: ((u.hex.drop 12).take 4 ++
    '-' :: ((u.hex.drop 16).take 4 ++ '-' :: u.hex.drop 20)))

/-- `uuid.UUID.__str__`. -/
def str (u : UUID) : String := String.ofList u.chars

theorem chars_length (u : UUID) : u.chars.length = 36 := by
  simp [chars, hex]

private theorem dash_notMem_hex (u : UUID) : '-' ∉ u.hex := by
  intro h
  obtain ⟨d, hd, hc⟩ := exists_of_mem_hexDigits h
  exact absurd hc (by revert d; decide)

/-- Dropping the dashes gives the digits back. -/
theorem filter_chars (u : UUID) : u.chars.filter (· ≠ '-') = u.hex := by
  have hself : ∀ l : List Char, (∀ c ∈ l, c ∈ u.hex) → l.filter (· ≠ '-') = l := by
    intro l hl
    refine List.filter_eq_self.mpr fun c hc => ?_
    have : c ≠ '-' := fun h => dash_notMem_hex u (h ▸ hl c hc)
    simpa using this
  have htake : ∀ k m : ℕ, ((u.hex.drop k).take m).filter (· ≠ '-') = (u.hex.drop k).take m :=
    fun k m => hself _ fun c hc => List.mem_of_mem_drop (List.mem_of_mem_take hc)
  have hdrop : (u.hex.drop 20).filter (· ≠ '-') = u.hex.drop 20 :=
    hself _ fun c hc => List.mem_of_mem_drop hc
  have hhead : (u.hex.take 8).filter (· ≠ '-') = u.hex.take 8 :=
    hself _ fun c hc => List.mem_of_mem_take hc
  simp only [chars, List.filter_append, List.filter_cons, hhead, htake, hdrop]
  simp only [ne_eq, not_true_eq_false, decide_false, Bool.false_eq_true, if_false]
  conv_rhs => rw [← List.take_append_drop 8 u.hex, ← List.take_append_drop 4 (u.hex.drop 8),
    List.drop_drop, ← List.take_append_drop 4 (u.hex.drop 12), List.drop_drop,
    ← List.take_append_drop 4 (u.hex.drop 16), List.drop_drop]

theorem str_injective : Function.Injective str := by
  intro u v h
  have hchars : u.chars = v.chars := String.ofList_injective h
  have hhex : u.hex = v.hex := by rw [← filter_chars, ← filter_chars, hchars]
  have hpow : (2 : ℕ) ^ 128 = 16 ^ 32 := by norm_num
  have hint : u.int = v.int :=
    hexDigits_injective (hpow ▸ u.bounded) (hpow ▸ v.bounded) hhex
  exact UUID.ext hint

end UUID

/-! ## Typed identifiers -/

/-- `WalletId`. -/
@[ext] structure WalletId where
  value : UUID
  deriving DecidableEq

/-- `OwnerId`. -/
@[ext] structure OwnerId where
  value : UUID
  deriving DecidableEq

/-- `LedgerEntryId`. -/
@[ext] structure LedgerEntryId where
  value : UUID
  deriving DecidableEq

end Evenkeel.Domain
