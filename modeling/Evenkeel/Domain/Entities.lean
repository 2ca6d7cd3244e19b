import Evenkeel.Domain.Identifiers
import Evenkeel.Domain.Money

/-!
# Wallets and Ledger Entries

`domain/entities/wallet.py` and `domain/entities/ledger_entry.py`. Operations return the
changed wallet instead of mutating it; one that raises returns no wallet, since the source
assigns nothing before its last check.

## Key Results

- `Wallet.deposit_ok`, `Wallet.withdraw_ok`: what a successful movement does, as one
  relation `Wallet.Moved`
-/

namespace Evenkeel.Domain

open Evenkeel.Python

/-- A timezone-aware `datetime`, as a count of microseconds. -/
abbrev Datetime : Type := ℤ

/-! ## Wallets -/

inductive WalletStatus where
  | opened
  | closed
  deriving DecidableEq

/-- The values of the enumeration, as the `status` column stores them. -/
def WalletStatus.value : WalletStatus → String
  | .opened => "open"
  | .closed => "closed"

/-- The aggregate root. Its constructor is also the read path, so no wallet with a negative
    balance exists, loaded or new. -/
structure Wallet where
  id : WalletId
  ownerId : OwnerId
  balance : Money
  status : WalletStatus
  version : ℤ
  createdAt : Datetime
  updatedAt : Datetime
  balance_nonneg : 0 ≤ balance.cents

/-- `Wallet.__init__`. -/
def Wallet.construct (id : WalletId) (ownerId : OwnerId) (balance : Money) (status : WalletStatus)
    (version : ℤ) (createdAt updatedAt : Datetime) : Except Raised Wallet :=
  if h : balance.amount.lt Number.zero = true then
    refuse .walletBalanceNegative
      [("wallet_id", id.value.str), ("balance", (Decimal.finite balance.amount).str)]
  else
    .ok ⟨id, ownerId, balance, status, version, createdAt, updatedAt,
      not_lt.mp (balance.lt_zero_iff.not.mp h)⟩

/-- `Wallet.open`: a zero balance passes the constructor's check. -/
def Wallet.open (id : WalletId) (ownerId : OwnerId) (currency : CurrencyCode) (now : Datetime) :
    Wallet :=
  ⟨id, ownerId, .zero currency, .opened, 0, now, now, by simp⟩

namespace Wallet

def requireOpen (w : Wallet) : Except Raised Unit :=
  if w.status ≠ .opened then refuse .walletClosed [("wallet_id", w.id.value.str)] else .ok ()

/-- `self.balance = balance` followed by `_touch`. -/
def touch (w : Wallet) (balance : Money) (now : Datetime) (h : 0 ≤ balance.cents) : Wallet :=
  { w with balance := balance, version := w.version + 1, updatedAt := now, balance_nonneg := h }

private theorem nonneg_of_add {w : Wallet} {amount positive balance : Money}
    (hpos : amount.requirePositive = .ok positive) (hadd : w.balance.add amount = .ok balance) :
    0 ≤ balance.cents := by
  have hcents := (Money.cents_add hadd).2.2
  have := Money.requirePositive_ok hpos
  have := w.balance_nonneg
  omega

private theorem nonneg_of_sub {w : Wallet} {amount balance : Money}
    (hlt : w.balance.lt amount = .ok false) (hsub : w.balance.sub amount = .ok balance) :
    0 ≤ balance.cents := by
  have hcents := (Money.cents_sub hsub).2.2
  have hle : ¬ w.balance.cents < amount.cents := fun h => by
    simpa using (Money.lt_iff hlt).2.mpr h
  omega

/-- `Wallet.deposit`, with the balance it returns. -/
def deposit (w : Wallet) (amount : Money) (now : Datetime) : Except Raised (Wallet × Money) :=
  match w.requireOpen with
  | .error e => .error e
  | .ok _ =>
    match hpos : amount.requirePositive with
    | .error e => .error e
    | .ok _ =>
      match hadd : w.balance.add amount with
      | .error e => .error e
      | .ok balance => .ok (w.touch balance now (nonneg_of_add hpos hadd), balance)

/-- `Wallet.withdraw`, with the balance it returns. -/
def withdraw (w : Wallet) (amount : Money) (now : Datetime) : Except Raised (Wallet × Money) :=
  match w.requireOpen with
  | .error e => .error e
  | .ok _ =>
    match amount.requirePositive with
    | .error e => .error e
    | .ok _ =>
      match hlt : w.balance.lt amount with
      | .error e => .error e
      | .ok true =>
        refuse .walletInsufficientFunds
          [("wallet_id", w.id.value.str), ("balance", (Decimal.finite w.balance.amount).str),
            ("requested", (Decimal.finite amount.amount).str)]
      | .ok false =>
        match hsub : w.balance.sub amount with
        | .error e => .error e
        | .ok balance => .ok (w.touch balance now (nonneg_of_sub hlt hsub), balance)

/-- `Wallet.close`. -/
def close (w : Wallet) (now : Datetime) : Except Raised Wallet :=
  match w.requireOpen with
  | .error e => .error e
  | .ok _ =>
    if w.balance.isZero then
      .ok { w with status := .closed, version := w.version + 1, updatedAt := now }
    else
      refuse .walletNotEmpty
        [("wallet_id", w.id.value.str), ("balance", (Decimal.finite w.balance.amount).str)]

end Wallet

/-! ## Ledger entries -/

inductive LedgerDirection where
  | credit
  | debit
  deriving DecidableEq

/-- The values of the enumeration, as the `direction` column stores them. -/
def LedgerDirection.value : LedgerDirection → String
  | .credit => "credit"
  | .debit => "debit"

/-- An amount as it enters the balance. -/
def LedgerDirection.signed : LedgerDirection → ℤ → ℤ
  | .credit, amount => amount
  | .debit, amount => -amount

structure LedgerEntry where
  id : LedgerEntryId
  walletId : WalletId
  direction : LedgerDirection
  amount : Money
  balanceAfter : Money
  description : String
  occurredAt : Datetime

/-- `str.isspace` of one character. -/
def isSpace (c : Char) : Bool :=
  c.toNat ∈ [0x09, 0x0a, 0x0b, 0x0c, 0x0d, 0x1c, 0x1d, 0x1e, 0x1f, 0x20, 0x85, 0xa0, 0x1680,
    0x2000, 0x2001, 0x2002, 0x2003, 0x2004, 0x2005, 0x2006, 0x2007, 0x2008, 0x2009, 0x200a,
    0x2028, 0x2029, 0x202f, 0x205f, 0x3000]

/-- `str.strip`. -/
def strip (s : String) : String :=
  String.ofList ((s.toList.dropWhile isSpace).reverse.dropWhile isSpace).reverse

/-- `LedgerEntry.record`. -/
def LedgerEntry.record (id : LedgerEntryId) (walletId : WalletId) (direction : LedgerDirection)
    (amount balanceAfter : Money) (description : String) (now : Datetime) : LedgerEntry :=
  ⟨id, walletId, direction, amount, balanceAfter, strip description, now⟩

/-! ## What a movement does -/

namespace Wallet

/-- `w.Moved direction amount w'`: `w'` is `w` after one movement. Nothing but the balance,
    the version and the time of the last change differs. -/
structure Moved (w : Wallet) (direction : LedgerDirection) (amount : Money) (w' : Wallet) :
    Prop where
  id : w'.id = w.id
  ownerId : w'.ownerId = w.ownerId
  status : w'.status = w.status
  createdAt : w'.createdAt = w.createdAt
  version : w'.version = w.version + 1
  currency : w'.balance.currency = w.balance.currency
  amount_currency : amount.currency = w.balance.currency
  amount_pos : 0 < amount.cents
  balance : w'.balance.cents = w.balance.cents + direction.signed amount.cents

theorem deposit_ok {w w' : Wallet} {amount b : Money} {now : Datetime}
    (h : w.deposit amount now = .ok (w', b)) : w.Moved .credit amount w' ∧ b = w'.balance := by
  unfold deposit at h
  split at h
  · cases h
  split at h
  · cases h
  rename_i hpos
  split at h
  · cases h
  rename_i hadd
  cases h
  obtain ⟨hcur, hcur', hcents⟩ := Money.cents_add hadd
  exact ⟨⟨rfl, rfl, rfl, rfl, rfl, hcur', hcur.symm, Money.requirePositive_ok hpos, hcents⟩, rfl⟩

theorem withdraw_ok {w w' : Wallet} {amount b : Money} {now : Datetime}
    (h : w.withdraw amount now = .ok (w', b)) : w.Moved .debit amount w' ∧ b = w'.balance := by
  unfold withdraw at h
  split at h
  · cases h
  split at h
  · cases h
  rename_i hpos
  split at h
  · cases h
  · cases h
  split at h
  · cases h
  rename_i hsub
  cases h
  obtain ⟨hcur, hcur', hcents⟩ := Money.cents_sub hsub
  refine ⟨⟨rfl, rfl, rfl, rfl, rfl, hcur', hcur.symm, Money.requirePositive_ok hpos, ?_⟩, rfl⟩
  rw [touch, hcents, LedgerDirection.signed, sub_eq_add_neg]

/-! ## What a movement raises -/

theorem requireOpen_error {w : Wallet} {r : Raised} (h : w.requireOpen = .error r) :
    ∃ e, r = .domain e := by
  unfold requireOpen refuse at h
  split_ifs at h
  exact ⟨_, (Except.error.inj h).symm⟩

theorem deposit_error {w : Wallet} {amount : Money} {now : Datetime} {r : Raised}
    (h : w.deposit amount now = .error r) : ∃ e, r = .domain e := by
  unfold deposit at h
  split at h
  · rename_i hopen
    exact Except.error.inj h ▸ requireOpen_error hopen
  split at h
  · rename_i hpos
    exact Except.error.inj h ▸ Money.requirePositive_error hpos
  split at h
  · rename_i hadd
    exact Except.error.inj h ▸ Money.add_error hadd
  · cases h

theorem withdraw_error {w : Wallet} {amount : Money} {now : Datetime} {r : Raised}
    (h : w.withdraw amount now = .error r) : ∃ e, r = .domain e := by
  unfold withdraw at h
  split at h
  · rename_i hopen
    exact Except.error.inj h ▸ requireOpen_error hopen
  split at h
  · rename_i hpos
    exact Except.error.inj h ▸ Money.requirePositive_error hpos
  split at h
  · rename_i hlt
    exact Except.error.inj h ▸ Money.lt_error hlt
  · exact ⟨_, (Except.error.inj h).symm⟩
  split at h
  · rename_i hsub
    exact Except.error.inj h ▸ Money.sub_error hsub
  · cases h

end Wallet

end Evenkeel.Domain
