import Evenkeel.Application.Ports
import Evenkeel.Python.DecimalText
import Evenkeel.Python.JsonText

/-!
# The Wallet Movement Service

`application/services/wallet_movement.py`: the one place where a balance changes. Each
method of the service is a program of the same name.

## Key Results

- `scopedKey_injective`: the keyspaces of two owners are disjoint
- `payload_eq_iff`: a fingerprint's payload keeps the fields of a request apart
- `move_error`: a domain method refuses with a `DomainError` or not at all, so the
  service's `except DomainError` misses nothing
-/

namespace Evenkeel.Application

open Evenkeel.Domain Evenkeel.Effects Evenkeel.Python

structure WalletMovementSettings where
  lockTtlMs : ℤ := 5000
  lockWaitMs : ℤ := 2000
  idempotencyTtlSeconds : ℤ := 24 * 3600

structure MovementOutcome where
  wallet : Wallet
  entry : LedgerEntry
  replayed : Bool
  balance : Money

structure MovementRequest where
  walletId : WalletId
  ownerId : OwnerId
  amount : Money
  direction : LedgerDirection
  description : String
  idempotencyKey : Option String

/-! ## Keys and fingerprints -/

/-- `_scoped_key`: the client's key, namespaced by owner. -/
def scopedKey (ownerId : OwnerId) (key : String) : String :=
  String.ofList (ownerId.value.chars ++ ':' :: key.toList)

/-- The lock's name for a wallet. -/
def lockKey (walletId : WalletId) : String := "wallet:" ++ walletId.value.str

/-- The dictionary `_fingerprint` serialises, in the order of `sort_keys=True`. -/
def payloadMembers (r : MovementRequest) : List (String × String) :=
  [("amount", (Decimal.finite r.amount.amount).str), ("currency", r.amount.currency.value),
    ("description", r.description), ("direction", r.direction.value),
    ("owner_id", r.ownerId.value.str)] ++ [("wallet_id", r.walletId.value.str)]

theorem payloadMembers_sorted (r : MovementRequest) :
    ((payloadMembers r).map Prod.fst).Pairwise (· < ·) := by
  show List.Pairwise (· < ·)
    ["amount", "currency", "description", "direction", "owner_id", "wallet_id"]
  decide

def payload (r : MovementRequest) : String := jsonObject (payloadMembers r)

/-- `_fingerprint`. -/
def fingerprint (r : MovementRequest) : String := sha256 (payload r)

/-- The owner's part has a fixed length, so no choice of key crosses into another's space. -/
theorem scopedKey_injective {o o' : OwnerId} {k k' : String}
    (h : scopedKey o k = scopedKey o' k') : o = o' ∧ k = k' := by
  have hchars := String.ofList_injective h
  have hlength : o.value.chars.length = o'.value.chars.length := by
    rw [UUID.chars_length, UUID.chars_length]
  obtain ⟨howner, hkey⟩ := List.append_inj hchars hlength
  constructor
  · have : o.value = o'.value := UUID.str_injective (congrArg String.ofList howner)
    cases o
    cases o'
    exact congrArg OwnerId.mk this
  · exact String.toList_injective (List.cons.inj hkey).2

theorem direction_value_injective : Function.Injective LedgerDirection.value := by
  intro d d' h
  cases d <;> cases d' <;> first | rfl | exact absurd h (by decide)

/-- What a payload says, field by field. -/
theorem payload_eq_iff {r s : MovementRequest} : payload r = payload s ↔
    r.walletId = s.walletId ∧ r.ownerId = s.ownerId ∧ r.direction = s.direction ∧
      r.description = s.description ∧ r.amount.currency = s.amount.currency ∧
      r.amount.amount = s.amount.amount := by
  constructor
  · intro h
    have hmembers := jsonObject_injective (payloadMembers_sorted r) (payloadMembers_sorted s) h
    simp only [payloadMembers, List.cons_append, List.nil_append, List.cons.injEq,
      Prod.mk.injEq, true_and, and_true] at hmembers
    obtain ⟨hamount, hcurrency, hdescription, hdirection, howner, hwallet⟩ := hmembers
    refine ⟨WalletId.ext (UUID.str_injective hwallet), OwnerId.ext (UUID.str_injective howner),
      direction_value_injective hdirection, hdescription, ?_,
      Number.chars_injective (String.ofList_injective hamount)⟩
    cases hr : r.amount.currency
    cases hs : s.amount.currency
    rw [hr, hs] at hcurrency
    exact congrArg CurrencyCode.mk hcurrency
  · intro h
    obtain ⟨hwallet, howner, hdirection, hdescription, hcurrency, hamount⟩ := h
    unfold payload payloadMembers
    rw [hwallet, howner, hdirection, hdescription, hcurrency, hamount]

/-! ## The service -/

variable (settings : WalletMovementSettings)

/-- `_release`. -/
def release (request : MovementRequest) : AppM Unit :=
  match request.idempotencyKey with
  | none => pure ()
  | some key => Ports.release (scopedKey request.ownerId key)

/-- The ending every refusal after the claim shares: roll back, give the key back, raise. -/
def refuseWith {α : Type} (request : MovementRequest) (e : Exn) : AppM α := do
  Ports.rollback
  release request
  Program.raise e

/-- The tail of `_confirm`: the metric is recorded whichever way the store answered, and
    only what is not an `Exception` goes on. -/
def confirmed : Except Exn Unit → AppM Unit
  | .ok _ => Ports.observe (.externalCall "idempotency" "confirm" "success")
  | .error e =>
    if e.isException then
      Ports.observe (.externalCall "idempotency" "confirm" "unavailable")
    else do
      Ports.observe (.externalCall "idempotency" "confirm" "error")
      Program.raise e

/-- `_confirm`. -/
def confirm (request : MovementRequest) (wallet : Wallet) (entry : LedgerEntry) : AppM Unit :=
  match request.idempotencyKey with
  | none => pure ()
  | some key =>
    (Ports.confirm (scopedKey request.ownerId key) ⟨entry.id, wallet.id⟩
      settings.idempotencyTtlSeconds).handle confirmed

/-- The answer to a completed key: the original receipt, unless its rows are gone. -/
def replay (request : MovementRequest) (record : IdempotencyRecord Receipt) :
    AppM (Option MovementOutcome) := do
  let entry ← Ports.readEntry record.response.entryId request.ownerId
  let wallet ← Ports.readWallet request.walletId request.ownerId false
  match entry, wallet with
  | some entry, some wallet => do
    Ports.rollback
    return some ⟨wallet, entry, true, entry.balanceAfter⟩
  -- the record outlived its rows: fall through and apply again
  | _, _ => return none

/-- `_claim`. -/
def claim (request : MovementRequest) : AppM (Option MovementOutcome) :=
  match request.idempotencyKey with
  | none => pure none
  | some key => do
    let reservation ← Ports.reserve (scopedKey request.ownerId key) (fingerprint request)
      settings.idempotencyTtlSeconds
    if reservation.mayProceed then
      return none
    else
      match reservation.outcome, reservation.record with
      | .conflict, _ =>
        Program.raise (.application ⟨.conflict, .idempotencyKeyReused,
          [("idempotency_key", .text key)]⟩)
      | .inProgress, _ =>
        Program.raise (.application ⟨.conflict, .movementInProgress,
          [("idempotency_key", .text key)]⟩)
      | _, none => return none
      | _, some record => replay request record

/-- The domain method of a direction. -/
def move (wallet : Wallet) (direction : LedgerDirection) (amount : Money) (now : Datetime) :
    Except Raised (Wallet × Money) :=
  match direction with
  | .credit => wallet.deposit amount now
  | .debit => wallet.withdraw amount now

/-- The second half of `_apply_locked`: record, write, commit, confirm. -/
def write (request : MovementRequest) (expectedVersion : ℤ) (wallet : Wallet)
    (balanceAfter : Money) (now : Datetime) : AppM MovementOutcome := do
  let id ← Ports.generate
  let entry := LedgerEntry.record ⟨id⟩ wallet.id request.direction request.amount balanceAfter
    request.description now
  Ports.addEntry entry
  let updated ← Ports.updateWallet wallet expectedVersion
  if updated then
    Ports.commit
    confirm settings request wallet entry
    return ⟨wallet, entry, false, wallet.balance⟩
  else
    refuseWith request (.application ⟨.conflict, .walletVersionConflict,
      [("wallet_id", .text wallet.id.value.str)]⟩)

/-- `_apply_locked`. -/
def applyLocked (request : MovementRequest) : AppM MovementOutcome := do
  let wallet ← Ports.readWallet request.walletId request.ownerId true
  match wallet with
  | none =>
    refuseWith request (.application ⟨.notFound, .walletNotFound,
      [("wallet_id", .text request.walletId.value.str)]⟩)
  | some wallet => do
    let now ← Ports.now
    match move wallet request.direction request.amount now with
    | .ok (moved, balanceAfter) => write settings request wallet.version moved balanceAfter now
    | .error (.domain e) => refuseWith request (.domain e)
    -- not a `DomainError`: it passes the handler by
    | .error (.decimal s) => Program.raise (.decimal s)

/-- The body of the `async with` in `apply`. -/
def withLock (request : MovementRequest) (acquired : Bool) : AppM MovementOutcome := do
  Ports.observe (.lock "wallet_movement" (if acquired then "acquired" else "timeout"))
  if acquired then
    applyLocked settings request
  else
    refuseWith request (.application ⟨.conflict, .walletBusy,
      [("wallet_id", .text request.walletId.value.str)]⟩)

/-- `apply`. -/
def apply (request : MovementRequest) : AppM MovementOutcome := do
  match ← claim settings request with
  | some outcome => return outcome
  | none =>
    Program.withContext
      (Ports.enterLock (lockKey request.walletId) settings.lockTtlMs settings.lockWaitMs)
      (Ports.exitLock (lockKey request.walletId))
      (withLock settings request)

/-! ## What the domain methods raise -/

theorem move_ok {w w' : Wallet} {direction : LedgerDirection} {amount b : Money}
    {now : Datetime} (h : move w direction amount now = .ok (w', b)) :
    w.Moved direction amount w' ∧ b = w'.balance := by
  cases direction with
  | credit => exact Wallet.deposit_ok h
  | debit => exact Wallet.withdraw_ok h

theorem move_error {w : Wallet} {direction : LedgerDirection} {amount : Money}
    {now : Datetime} {r : Raised} (h : move w direction amount now = .error r) :
    ∃ e, r = .domain e := by
  cases direction with
  | credit => exact Wallet.deposit_error h
  | debit => exact Wallet.withdraw_error h

end Evenkeel.Application
