import Evenkeel.Application.WalletMovement

/-!
# What a Fingerprint Identifies

The payload of a fingerprint keeps its fields apart, whatever their texts are, and an amount in
it can be read back, down to the zeros at its end. Equal amounts can differ in those.
-/

namespace Evenkeel.Properties

open Evenkeel.Domain Evenkeel.Application Evenkeel.Python

/-- The same movement: equal fields, with amounts that are equal as money. -/
structure SameMovement (r s : MovementRequest) : Prop where
  walletId : r.walletId = s.walletId
  ownerId : r.ownerId = s.ownerId
  direction : r.direction = s.direction
  description : r.description = s.description
  amount : r.amount.eq s.amount = true

/-- Fingerprints tell movements apart, and nothing else, exactly where equal amounts are equal
    in sign, coefficient and exponent. SHA-256 is taken to tell the two payloads apart. -/
theorem fingerprint_identifies_iff {r s : MovementRequest}
    (hsha : sha256 (payload r) = sha256 (payload s) → payload r = payload s) :
    (fingerprint r = fingerprint s ↔ SameMovement r s) ↔
      ¬(SameMovement r s ∧ r.amount.amount ≠ s.amount.amount) := by
  have hfingerprint : fingerprint r = fingerprint s ↔ payload r = payload s :=
    ⟨hsha, fun h => congrArg sha256 h⟩
  rw [hfingerprint, payload_eq_iff]
  constructor
  · intro hiff hdiffers
    exact hdiffers.2 (hiff.mpr hdiffers.1).2.2.2.2.2
  · intro hcondition
    constructor
    · intro h
      obtain ⟨hwallet, howner, hdirection, hdescription, hcurrency, hamount⟩ := h
      refine ⟨hwallet, howner, hdirection, hdescription, ?_⟩
      simp [Money.eq, Number.eq, hamount, hcurrency]
    · intro hsame
      have hmoney := hsame.amount
      rw [Money.eq, Bool.and_eq_true, decide_eq_true_iff] at hmoney
      refine ⟨hsame.walletId, hsame.ownerId, hsame.direction, hsame.description, hmoney.2, ?_⟩
      by_contra hamount
      exact hcondition ⟨hsame, hamount⟩

/-- A deposit to a wallet, of an amount of euros. -/
private def depositOf (amount : Money) (description : String) : MovementRequest :=
  ⟨⟨⟨11, by norm_num⟩⟩, ⟨⟨2, by norm_num⟩⟩, amount, .credit, description, none⟩

private def tenEuro : Money :=
  ⟨⟨false, 10, 0⟩, ⟨"EUR"⟩, by decide, ⟨false, 10, 0⟩, by decide, by decide⟩

/-- The same amount, as the application writes it. -/
private def tenEuroAndNoCents : Money :=
  ⟨⟨false, 1000, -2⟩, ⟨"EUR"⟩, by decide, ⟨false, 1000, -2⟩, by decide, by decide⟩

theorem fingerprint_identifies_iff_description :
    fingerprint (depositOf tenEuro "rent") = fingerprint (depositOf tenEuro "lunch") ↔
      SameMovement (depositOf tenEuro "rent") (depositOf tenEuro "lunch") := by
  have hdiffer : sha256 (payload (depositOf tenEuro "rent")) ≠
      sha256 (payload (depositOf tenEuro "lunch")) := by
    decide +kernel
  apply (fingerprint_identifies_iff fun h => absurd h hdiffer).mpr
  exact fun hsame => hsame.2 rfl

/-- `10` and `10.00` are equal amounts, with different fingerprints. -/
theorem equal_amounts_conflict :
    ¬(fingerprint (depositOf tenEuro "") = fingerprint (depositOf tenEuroAndNoCents "") ↔
      SameMovement (depositOf tenEuro "") (depositOf tenEuroAndNoCents "")) := by
  have hdiffer : sha256 (payload (depositOf tenEuro "")) ≠
      sha256 (payload (depositOf tenEuroAndNoCents "")) := by
    decide +kernel
  intro hiff
  exact hdiffer (hiff.mpr ⟨rfl, rfl, rfl, rfl, by decide⟩)

end Evenkeel.Properties
