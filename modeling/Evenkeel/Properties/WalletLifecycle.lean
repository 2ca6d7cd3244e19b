import Evenkeel.Domain.WalletObject

/-!
# The Life of a Wallet

Any calls at all, in any order and with any amounts, on a wallet that was just opened: each of
them has its whole effect or none, and the balance is what the successful ones add up to.
-/

namespace Evenkeel.Properties

open Evenkeel.Domain Evenkeel.Python

/-- What a call has added to the balance. -/
def credited : WalletCall × Except Raised Unit → ℚ
  | (.deposit amount _, .ok _) => amount.value
  | _ => 0

/-- What a call has taken from the balance. -/
def debited : WalletCall × Except Raised Unit → ℚ
  | (.withdraw amount _, .ok _) => amount.value
  | _ => 0

/-- What holds of a wallet at any time, after the calls of its log. -/
structure Sound (opening o : WalletObject) (log : List (WalletCall × Except Raised Unit)) :
    Prop where
  id : o.id = opening.id
  ownerId : o.ownerId = opening.ownerId
  currency : o.balance.currency = opening.balance.currency
  nonneg : 0 ≤ o.balance.value
  le_max : o.balance.value ≤ moneyMax.value
  balance : o.balance.value = (log.map credited).sum - (log.map debited).sum
  version : o.version = log.countP fun outcome => outcome.2.isOk
  empty : o.status = .closed → o.balance.value = 0

/-- A call that fails with an error of the domain, and leaves the wallet as it was. -/
def Fails (o : WalletObject) (call : WalletCall) : Prop :=
  ∃ e, o.perform call = (.error (.domain e), o)

/-- A call that succeeds, with its effect and nothing else. -/
def Works (o : WalletObject) (call : WalletCall) : Prop :=
  ∃ o', o.perform call = (.ok (), o') ∧ call.Effect o o'

private theorem works_or_fails (w : Wallet) (call : WalletCall) :
    (w.status = .opened ∧ ∃ w' : Wallet, w.object.perform call = (.ok (), w'.object) ∧
      call.Effect w.object w'.object) ∨ Fails w.object call := by
  rcases w.call_cases call with ⟨w', hcall, hopen, heffect⟩ | ⟨e, hcall⟩
  · refine .inl ⟨hopen, w', ?_, heffect⟩
    rw [WalletObject.perform_object, hcall]
    rfl
  · refine .inr ⟨e, ?_⟩
    rw [WalletObject.perform_object, hcall]
    rfl

private theorem nonneg_object (w : Wallet) : 0 ≤ w.object.balance.value := by
  have hcents : (0 : ℚ) ≤ w.balance.cents := by exact_mod_cast w.balance_nonneg
  rw [Wallet.object_balance, Money.value_eq_cents]
  positivity

/-- One more call that fails. -/
private theorem Sound.fail {opening o : WalletObject}
    {log : List (WalletCall × Except Raised Unit)} (h : Sound opening o log) (call : WalletCall)
    (e : Raised) : Sound opening o (log ++ [(call, .error e)]) := by
  have hcredit : credited (call, .error e) = 0 := by cases call <;> rfl
  have hdebit : debited (call, .error e) = 0 := by cases call <;> rfl
  refine ⟨h.id, h.ownerId, h.currency, h.nonneg, h.le_max, ?_, ?_, h.empty⟩
  · simp [hcredit, hdebit, h.balance]
  · rw [List.countP_append, h.version]
    rfl

/-- One more call that succeeds. -/
private theorem Sound.work {opening o o' : WalletObject}
    {log : List (WalletCall × Except Raised Unit)} {call : WalletCall} (h : Sound opening o log)
    (hopen : o.status = .opened) (heffect : call.Effect o o') (hnonneg : 0 ≤ o'.balance.value) :
    Sound opening o' (log ++ [(call, .ok ())]) := by
  have hmax : o'.balance.value ≤ moneyMax.value := (le_abs_self _).trans o'.balance.abs_value_le
  have hversion : (List.countP (fun outcome => outcome.2.isOk) (log ++ [(call, .ok ())]) : ℤ) =
      o.version + 1 := by
    rw [List.countP_append, Nat.cast_add, ← h.version]
    rfl
  cases call with
  | deposit amount now =>
    obtain ⟨balance, hcurrency, hvalue, rfl⟩ := heffect
    refine ⟨h.id, h.ownerId, hcurrency.trans h.currency, hnonneg, hmax, ?_, hversion.symm, ?_⟩
    · simp only [List.map_append, List.sum_append, List.map_cons, List.map_nil, List.sum_cons,
        List.sum_nil, credited, debited, hvalue, h.balance]
      ring
    · exact fun hclosed => nomatch hopen.symm.trans hclosed
  | withdraw amount now =>
    obtain ⟨balance, hcurrency, hvalue, rfl⟩ := heffect
    refine ⟨h.id, h.ownerId, hcurrency.trans h.currency, hnonneg, hmax, ?_, hversion.symm, ?_⟩
    · simp only [List.map_append, List.sum_append, List.map_cons, List.map_nil, List.sum_cons,
        List.sum_nil, credited, debited, hvalue, h.balance]
      ring
    · exact fun hclosed => nomatch hopen.symm.trans hclosed
  | close now =>
    obtain ⟨hzero, rfl⟩ := heffect
    refine ⟨h.id, h.ownerId, h.currency, hnonneg, hmax, ?_, hversion.symm, fun _ => hzero⟩
    simp [credited, debited, h.balance]

/-- After any calls there is a wallet, and it is sound. -/
private theorem sound_after (w : Wallet) (hbalance : w.balance.value = 0) (hversion : w.version = 0)
    (calls : List WalletCall) :
    ∃ w' : Wallet, w.object.after calls = w'.object ∧
      Sound w.object w'.object (w.object.outcomes calls) := by
  induction calls using List.reverseRecOn with
  | nil =>
    refine ⟨w, rfl, rfl, rfl, rfl, nonneg_object w, ?_, ?_, hversion, fun _ => hbalance⟩
    · exact (le_abs_self _).trans w.balance.abs_value_le
    · show w.balance.value = 0 - 0
      rw [hbalance, sub_zero]
  | append_singleton calls call ih =>
    obtain ⟨w', hafter, hsound⟩ := ih
    rw [WalletObject.after_snoc, WalletObject.outcomes_snoc, hafter]
    rcases works_or_fails w' call with ⟨hopen, w'', hperform, heffect⟩ | ⟨e, hperform⟩
    · rw [hperform]
      exact ⟨w'', rfl, hsound.work hopen heffect (nonneg_object w'')⟩
    · rw [hperform]
      exact ⟨w', rfl, hsound.fail call _⟩

/-- The wallet is a sound state machine: after any calls its state is what they add up to, and
    any further call has its effect or none. Once it is closed, there are no further effects. -/
theorem wallet_is_sound (id : WalletId) (ownerId : OwnerId) (currency : CurrencyCode)
    (now : Datetime) (calls : List WalletCall) :
    let opening := (Wallet.open id ownerId currency now).object
    Sound opening (opening.after calls) (opening.outcomes calls) ∧
      (∀ call, Works (opening.after calls) call ∨ Fails (opening.after calls) call) ∧
      ((opening.after calls).status = .closed → ∀ call, Fails (opening.after calls) call) := by
  have hbalance : (Wallet.open id ownerId currency now).balance.value = 0 := by
    rw [Money.value_eq_cents, Wallet.open, Money.cents_zero, Int.cast_zero, zero_mul]
  obtain ⟨w, hafter, hsound⟩ :=
    sound_after (Wallet.open id ownerId currency now) hbalance rfl calls
  intro opening
  rw [hafter]
  refine ⟨hsound, ?_, ?_⟩
  · intro call
    rcases works_or_fails w call with ⟨-, w', hperform, heffect⟩ | hfails
    · exact .inl ⟨w'.object, hperform, heffect⟩
    · exact .inr hfails
  · intro hclosed call
    rcases works_or_fails w call with ⟨hopen, -⟩ | hfails
    · exact absurd (hopen.symm.trans hclosed) nofun
    · exact hfails

end Evenkeel.Properties
