import Evenkeel.Domain.Entities
import Evenkeel.Domain.MoneyValue

/-!
# The Wallet as an Object

`domain/entities/wallet.py` once more, as the object it is: methods assign to its attributes
one after the other, and what was assigned before an exception stays. The functional operations
of `Wallet` say what the methods come to.

- `WalletObject`, `Method`: the attributes, and code that reads, assigns and may raise
- `WalletObject.deposit`, `WalletObject.withdraw`, `WalletObject.close`: the methods
- `WalletCall`, `WalletObject.perform`: one call on a wallet, whatever becomes of it
- `WalletObject.outcomes`, `WalletObject.after`: a sequence of calls

## Key Results

- `WalletObject.perform_object`: a call does to the object what the functional operation says,
  or raises what it raises, having assigned nothing
- `Wallet.call_cases`: which is the exact effect, or an error of the domain
-/

namespace Evenkeel.Domain

open Evenkeel.Python

/-- The attributes of a `Wallet`. -/
structure WalletObject where
  id : WalletId
  ownerId : OwnerId
  balance : Money
  status : WalletStatus
  version : ℤ
  createdAt : Datetime
  updatedAt : Datetime

/-- The code of a method: an exception leaves the attributes as they are by then. -/
abbrev Method (α : Type) : Type := ExceptT Raised (StateM WalletObject) α

namespace WalletObject

/-- What an operation on values returns or raises. -/
def value {α : Type} (r : Except Raised α) : Method α := ExceptT.mk (pure r)

/-- `_require_open`. -/
def requireOpen : Method Unit := do
  let self ← get
  if self.status ≠ .opened then
    throw (.domain ⟨.walletClosed, [("wallet_id", self.id.value.str)]⟩)

/-- `_touch`. -/
def touch (now : Datetime) : Method Unit := do
  modify fun self => { self with version := self.version + 1 }
  modify fun self => { self with updatedAt := now }

/-- `Wallet.deposit`. -/
def deposit (amount : Money) (now : Datetime) : Method Money := do
  requireOpen
  let _ ← value amount.requirePositive
  let balance ← value ((← get).balance.add amount)
  modify fun self => { self with balance := balance }
  touch now
  return (← get).balance

/-- `Wallet.withdraw`. -/
def withdraw (amount : Money) (now : Datetime) : Method Money := do
  requireOpen
  let _ ← value amount.requirePositive
  if ← value ((← get).balance.lt amount) then
    let self ← get
    throw (.domain ⟨.walletInsufficientFunds,
      [("wallet_id", self.id.value.str), ("balance", (Decimal.finite self.balance.amount).str),
        ("requested", (Decimal.finite amount.amount).str)]⟩)
  let balance ← value ((← get).balance.sub amount)
  modify fun self => { self with balance := balance }
  touch now
  return (← get).balance

/-- `Wallet.close`. -/
def close (now : Datetime) : Method Unit := do
  requireOpen
  let self ← get
  if !self.balance.isZero then
    throw (.domain ⟨.walletNotEmpty,
      [("wallet_id", self.id.value.str), ("balance", (Decimal.finite self.balance.amount).str)]⟩)
  modify fun self => { self with status := .closed }
  touch now

end WalletObject

/-! ## Calls -/

/-- A call of a method that changes a wallet. -/
inductive WalletCall where
  | deposit (amount : Money) (now : Datetime)
  | withdraw (amount : Money) (now : Datetime)
  | close (now : Datetime)

namespace WalletObject

/-- The method that is called; what it returns is dropped. -/
def method : WalletCall → Method Unit
  | .deposit amount now => do let _ ← deposit amount now
  | .withdraw amount now => do let _ ← withdraw amount now
  | .close now => close now

/-- What a call returns or raises, and the object after it. -/
def perform (o : WalletObject) (call : WalletCall) : Except Raised Unit × WalletObject :=
  (method call).run.run o

/-- The calls of a sequence with what became of them. -/
def outcomes : WalletObject → List WalletCall → List (WalletCall × Except Raised Unit)
  | _, [] => []
  | o, call :: calls => (call, (o.perform call).1) :: outcomes (o.perform call).2 calls

/-- The object after a sequence of calls, each of whose exceptions is caught. -/
def after (o : WalletObject) (calls : List WalletCall) : WalletObject :=
  calls.foldl (fun o call => (o.perform call).2) o

theorem after_snoc (o : WalletObject) (calls : List WalletCall) (call : WalletCall) :
    o.after (calls ++ [call]) = ((o.after calls).perform call).2 :=
  List.foldl_concat ..

theorem outcomes_snoc (o : WalletObject) (calls : List WalletCall) (call : WalletCall) :
    o.outcomes (calls ++ [call]) =
      o.outcomes calls ++ [(call, ((o.after calls).perform call).1)] := by
  induction calls generalizing o with
  | nil => rfl
  | cons first calls ih => exact congrArg (_ :: ·) (ih (o.perform first).2)

end WalletObject

/-! ## What the methods come to -/

namespace Wallet

/-- The object that a wallet is the state of. -/
def object (w : Wallet) : WalletObject :=
  ⟨w.id, w.ownerId, w.balance, w.status, w.version, w.createdAt, w.updatedAt⟩

theorem object_balance (w : Wallet) : w.object.balance = w.balance := rfl

/-- A call in terms of the functional operations. -/
def call (w : Wallet) : WalletCall → Except Raised Wallet
  | .deposit amount now => (w.deposit amount now).map Prod.fst
  | .withdraw amount now => (w.withdraw amount now).map Prod.fst
  | .close now => w.close now

end Wallet

namespace WalletObject

section

variable {α β : Type} {m : Method α} {f : α → Method β} {o o' : WalletObject}

private theorem run_of_ok {a : α} (h : m.run.run o = (.ok a, o')) :
    (m >>= f).run.run o = (f a).run.run o' := by
  rw [ExceptT.run_bind, StateT.run_bind, h]
  rfl

private theorem run_of_error {e : Raised} (h : m.run.run o = (.error e, o')) :
    (m >>= f).run.run o = (.error e, o') := by
  rw [ExceptT.run_bind, StateT.run_bind, h]
  rfl

end

private theorem run_requireOpen (w : Wallet) :
    requireOpen.run.run w.object = (w.requireOpen, w.object) := by
  have hget : (get : Method WalletObject).run.run w.object = (.ok w.object, w.object) := rfl
  unfold requireOpen Wallet.requireOpen refuse
  rw [run_of_ok hget]
  cases hstatus : w.status with
  | opened =>
    have hobject : w.object.status = .opened := hstatus
    rw [if_neg (not_not.mpr hobject)]
    rfl
  | closed =>
    have hobject : w.object.status ≠ .opened := by
      intro h
      cases hstatus.symm.trans h
    rw [if_pos hobject]
    rfl

/-- A result of a functional operation, as the method gives it: an exception has changed
    nothing. -/
def ofResult {α : Type} (w : Wallet) : Except Raised (Wallet × α) → Except Raised α × WalletObject
  | .ok (w', a) => (.ok a, w'.object)
  | .error e => (.error e, w.object)

private theorem run_value {α : Type} {r : Except Raised α} {x : Except Raised α} (h : r = x)
    (o : WalletObject) : (value r).run.run o = (x, o) := by
  rw [← h]
  rfl

private theorem run_get (o : WalletObject) : (get : Method WalletObject).run.run o = (.ok o, o) :=
  rfl

theorem run_deposit (w : Wallet) (amount : Money) (now : Datetime) :
    (deposit amount now).run.run w.object = ofResult w (w.deposit amount now) := by
  unfold deposit Wallet.deposit
  -- `_require_open`
  split
  next e hopen =>
    rw [run_of_error ((run_requireOpen w).trans (by rw [hopen]))]
    rfl
  next hopen =>
    rw [run_of_ok ((run_requireOpen w).trans (by rw [hopen]))]
    -- `require_positive`
    split
    next e hpos =>
      rw [run_of_error (run_value hpos _)]
      rfl
    next hpos =>
      rw [run_of_ok (run_value hpos _), run_of_ok (run_get _), Wallet.object_balance]
      -- `balance + amount`, and only then an assignment
      split
      next e hadd =>
        rw [run_of_error (run_value hadd _)]
        rfl
      next balance hadd =>
        rw [run_of_ok (run_value hadd _)]
        rfl

theorem run_withdraw (w : Wallet) (amount : Money) (now : Datetime) :
    (withdraw amount now).run.run w.object = ofResult w (w.withdraw amount now) := by
  unfold withdraw Wallet.withdraw
  -- `_require_open`
  split
  next e hopen =>
    rw [run_of_error ((run_requireOpen w).trans (by rw [hopen]))]
    rfl
  next hopen =>
    rw [run_of_ok ((run_requireOpen w).trans (by rw [hopen]))]
    -- `require_positive`
    split
    next e hpos =>
      rw [run_of_error (run_value hpos _)]
      rfl
    next hpos =>
      rw [run_of_ok (run_value hpos _), run_of_ok (run_get _), Wallet.object_balance]
      -- `balance < amount`
      split
      next e hlt =>
        rw [run_of_error (run_value hlt _)]
        rfl
      next hlt =>
        rw [run_of_ok (run_value hlt _)]
        rfl
      next hlt =>
        rw [run_of_ok (run_value hlt _), if_neg Bool.false_ne_true, run_of_ok (run_get _),
          Wallet.object_balance]
        -- `balance - amount`, and only then an assignment
        split
        next e hsub =>
          rw [run_of_error (run_value hsub _)]
          rfl
        next balance hsub =>
          rw [run_of_ok (run_value hsub _)]
          rfl

theorem run_close (w : Wallet) (now : Datetime) :
    (close now).run.run w.object = ofResult w ((w.close now).map fun w' => (w', ())) := by
  unfold close Wallet.close
  split
  next e hopen =>
    rw [run_of_error ((run_requireOpen w).trans (by rw [hopen]))]
    rfl
  next hopen =>
    rw [run_of_ok ((run_requireOpen w).trans (by rw [hopen])), run_of_ok (run_get _)]
    rw [Wallet.object_balance]
    cases w.balance.isZero <;> rfl

private theorem run_dropped {α : Type} {m : Method α} {w : Wallet}
    {result : Except Raised (Wallet × α)} (h : m.run.run w.object = ofResult w result) :
    (m >>= fun _ => pure ()).run.run w.object =
      ofResult w ((result.map Prod.fst).map fun w' => (w', ())) := by
  cases result with
  | ok result => exact run_of_ok h
  | error e => exact run_of_error h

/-- Every call comes to its functional operation. -/
theorem perform_object (w : Wallet) (call : WalletCall) :
    w.object.perform call = ofResult w ((w.call call).map fun w' => (w', ())) := by
  cases call with
  | deposit amount now => exact run_dropped (run_deposit w amount now)
  | withdraw amount now => exact run_dropped (run_withdraw w amount now)
  | close now => exact run_close w now

end WalletObject

/-! ## What a call does -/

/-- The effect of a call that succeeds, and nothing else. -/
def WalletCall.Effect (o o' : WalletObject) : WalletCall → Prop
  | .deposit amount now => ∃ balance, balance.currency = o.balance.currency ∧
      balance.value = o.balance.value + amount.value ∧
      o' = { o with balance := balance, version := o.version + 1, updatedAt := now }
  | .withdraw amount now => ∃ balance, balance.currency = o.balance.currency ∧
      balance.value = o.balance.value - amount.value ∧
      o' = { o with balance := balance, version := o.version + 1, updatedAt := now }
  | .close now => o.balance.value = 0 ∧
      o' = { o with status := .closed, version := o.version + 1, updatedAt := now }

namespace Wallet

theorem requireOpen_ok {w : Wallet} {u : Unit} (h : w.requireOpen = .ok u) :
    w.status = .opened := by
  unfold requireOpen refuse at h
  split_ifs at h with hopen
  exact not_not.mp hopen

theorem isZero_iff (m : Money) : m.isZero = true ↔ m.value = 0 := by
  have hpow : (10 : ℚ) ^ m.amount.exp ≠ 0 := zpow_ne_zero _ (by norm_num)
  rw [Money.isZero, Number.isZero, beq_iff_eq, Money.value, ← abs_eq_zero, Number.abs_value,
    mul_eq_zero_iff_right hpow, Nat.cast_eq_zero]

theorem close_cases (w : Wallet) (now : Datetime) :
    (∃ w', w.close now = .ok w' ∧ w.status = .opened ∧
      (WalletCall.close now).Effect w.object w'.object) ∨
    (∃ e, w.close now = .error (.domain e)) := by
  unfold close
  split
  next e hopen =>
    obtain ⟨e, rfl⟩ := requireOpen_error hopen
    exact .inr ⟨e, rfl⟩
  next hopen =>
    by_cases hzero : w.balance.isZero = true
    · rw [if_pos hzero]
      exact .inl ⟨_, rfl, requireOpen_ok hopen, (isZero_iff w.balance).mp hzero, rfl⟩
    · rw [if_neg hzero]
      exact .inr ⟨_, rfl⟩

theorem Moved.value_credit {w w' : Wallet} {amount : Money} (h : w.Moved .credit amount w') :
    w'.balance.value = w.balance.value + amount.value := by
  rw [Money.value_eq_cents, h.balance, LedgerDirection.signed, Int.cast_add, add_mul,
    ← Money.value_eq_cents, ← Money.value_eq_cents]

theorem Moved.value_debit {w w' : Wallet} {amount : Money} (h : w.Moved .debit amount w') :
    w'.balance.value = w.balance.value - amount.value := by
  rw [Money.value_eq_cents, h.balance, LedgerDirection.signed, Int.cast_add, Int.cast_neg, add_mul,
    neg_mul, ← sub_eq_add_neg, ← Money.value_eq_cents, ← Money.value_eq_cents]

theorem deposit_cases (w : Wallet) (amount : Money) (now : Datetime) :
    (∃ w' b, w.deposit amount now = .ok (w', b) ∧ w.status = .opened ∧
      (WalletCall.deposit amount now).Effect w.object w'.object) ∨
    (∃ e, w.deposit amount now = .error (.domain e)) := by
  cases hresult : w.deposit amount now with
  | error r =>
    obtain ⟨e, rfl⟩ := deposit_error hresult
    exact .inr ⟨e, rfl⟩
  | ok result =>
    obtain ⟨w', b⟩ := result
    obtain ⟨hmoved, -⟩ := deposit_ok hresult
    refine .inl ⟨w', b, rfl, ?_⟩
    unfold deposit at hresult
    -- closed
    split at hresult
    · cases hresult
    rename_i hopen
    -- not positive
    split at hresult
    · cases hresult
    -- beyond the range of money, or in another currency
    split at hresult
    · cases hresult
    cases hresult
    exact ⟨requireOpen_ok hopen, _, hmoved.currency, hmoved.value_credit, rfl⟩

theorem withdraw_cases (w : Wallet) (amount : Money) (now : Datetime) :
    (∃ w' b, w.withdraw amount now = .ok (w', b) ∧ w.status = .opened ∧
      (WalletCall.withdraw amount now).Effect w.object w'.object) ∨
    (∃ e, w.withdraw amount now = .error (.domain e)) := by
  cases hresult : w.withdraw amount now with
  | error r =>
    obtain ⟨e, rfl⟩ := withdraw_error hresult
    exact .inr ⟨e, rfl⟩
  | ok result =>
    obtain ⟨w', b⟩ := result
    obtain ⟨hmoved, -⟩ := withdraw_ok hresult
    refine .inl ⟨w', b, rfl, ?_⟩
    unfold withdraw at hresult
    -- closed
    split at hresult
    · cases hresult
    rename_i hopen
    -- not positive
    split at hresult
    · cases hresult
    -- in another currency, or more than there is
    split at hresult
    · cases hresult
    · cases hresult
    split at hresult
    · cases hresult
    cases hresult
    exact ⟨requireOpen_ok hopen, _, hmoved.currency, hmoved.value_debit, rfl⟩

/-- The step lemma: a call has its effect, on a wallet that is open, or it raises an error of
    the domain. -/
theorem call_cases (w : Wallet) (call : WalletCall) :
    (∃ w', w.call call = .ok w' ∧ w.status = .opened ∧ call.Effect w.object w'.object) ∨
    (∃ e, w.call call = .error (.domain e)) := by
  cases call with
  | deposit amount now =>
    obtain ⟨w', b, hresult, heffect⟩ | ⟨e, he⟩ := w.deposit_cases amount now
    · exact .inl ⟨w', congrArg (Except.map Prod.fst) hresult, heffect⟩
    · exact .inr ⟨e, congrArg (Except.map Prod.fst) he⟩
  | withdraw amount now =>
    obtain ⟨w', b, hresult, heffect⟩ | ⟨e, he⟩ := w.withdraw_cases amount now
    · exact .inl ⟨w', congrArg (Except.map Prod.fst) hresult, heffect⟩
    · exact .inr ⟨e, congrArg (Except.map Prod.fst) he⟩
  | close now => exact w.close_cases now

end Wallet

end Evenkeel.Domain
