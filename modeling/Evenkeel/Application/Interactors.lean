import Evenkeel.Application.WalletMovement

/-!
# Interactors

`application/interactors/wallets/*.py`: the use cases, each a program over the ports, and
`Request`, any one of them with its input. `WalletMovementService.apply` is listed as a
request of its own beside the interactors that call it.
-/

namespace Evenkeel.Application

open Evenkeel.Domain Evenkeel.Effects

/-! ## Moving money -/

structure MoveMoneySettings where
  rateLimitEnabled : Bool := true
  rateLimitLimit : ℤ := 30
  rateLimitWindowSeconds : Python.Binary64 := 60
  riskFailOpen : Bool := false

/-- The fields `DepositCommand` and `WithdrawCommand` both have. -/
structure MovementCommand where
  walletId : WalletId
  ownerId : OwnerId
  amount : Money
  description : String := ""
  idempotencyKey : Option String := none

abbrev DepositCommand : Type := MovementCommand

abbrev WithdrawCommand : Type := MovementCommand

structure MovementResult where
  entryId : LedgerEntryId
  walletId : WalletId
  balance : Money
  replayed : Bool

/-- The metric label of an exception no branch has labelled. -/
def failureLabel : Exn → String
  | .application e => e.code.value.toLower
  | _ => "error"

/-- `_refusal_details`. -/
def refusalDetails (decision : RiskDecision) : List (String × Detail) :=
  if decision.reference = "" then [] else [("reference", .text decision.reference)]

section

variable (service : WalletMovementSettings) (settings : MoveMoneySettings) (metricName : String)

/-- The rate limit of `_run`: the refusal with its label, if there is one. -/
def limited (request : MovementRequest) : AppM (Option (String × Exn)) :=
  if settings.rateLimitEnabled then do
    let decision ← Ports.consume (metricName ++ ":" ++ request.ownerId.value.str)
      ⟨metricName, settings.rateLimitLimit, settings.rateLimitWindowSeconds⟩
    Ports.observe (.rateLimit metricName (if decision.allowed then "allowed" else "denied"))
    if decision.allowed then
      return none
    else
      return some ("rate_limited", .application ⟨.rateLimited, .rateLimited,
        [("retry_after_seconds", .seconds decision.retryAfterSeconds)]⟩)
  else
    pure none

/-- The end of `_run`: what the caller gets, and the label of the metric. -/
def moved (decision : RiskDecision) (outcome : MovementOutcome) : String × MovementResult :=
  let label := if outcome.replayed then "replayed" else "success"
  (if decision.available then label else "success_unassessed",
    ⟨outcome.entry.id, outcome.wallet.id, outcome.balance, outcome.replayed⟩)

/-- The body of the `try` in `_run`: a result or a refusal, with the label it was given. -/
def attempt (request : MovementRequest) : AppM (String × Except Exn MovementResult) := do
  match ← limited settings metricName request with
  | some (label, e) => return (label, .error e)
  | none => do
    let decision ← Ports.assess ⟨request.walletId, request.ownerId, request.amount,
      request.direction, request.idempotencyKey⟩
    if decision.outcome = .refused then
      return ("risk_refused", .error (.application ⟨.forbidden, .movementRefused,
        refusalDetails decision⟩))
    else if !decision.available && !settings.riskFailOpen then
      return ("risk_unavailable", .error (.application ⟨.dependencyUnavailable,
        .dependencyUnavailable, [("dependency", .text "risk")]⟩))
    else do
      let outcome ← apply service request
      return ((moved decision outcome).1, .ok (moved decision outcome).2)

/-- The `except` and `finally` of `_run`. -/
def report : Except Exn (String × Except Exn MovementResult) → AppM MovementResult
  | .ok (label, result) => do
    Ports.observe (.interactor metricName label)
    .done result
  | .error e => do
    Ports.observe (.interactor metricName (failureLabel e))
    Program.raise e

/-- `_MovementInteractor._run`. -/
def run (request : MovementRequest) : AppM MovementResult :=
  (attempt service settings metricName request).handle (report metricName)

end

/-- The request a command makes of the service. -/
def MovementCommand.request (c : MovementCommand) (direction : LedgerDirection)
    (description : String) : MovementRequest :=
  ⟨c.walletId, c.ownerId, c.amount, direction,
    if c.description = "" then description else c.description, c.idempotencyKey⟩

/-- `DepositToWalletInteractor`. -/
def depositToWallet (service : WalletMovementSettings) (settings : MoveMoneySettings)
    (command : DepositCommand) : AppM MovementResult :=
  run service settings "deposit_to_wallet" (command.request .credit "deposit")

/-- `WithdrawFromWalletInteractor`. -/
def withdrawFromWallet (service : WalletMovementSettings) (settings : MoveMoneySettings)
    (command : WithdrawCommand) : AppM MovementResult :=
  run service settings "withdraw_from_wallet" (command.request .debit "withdrawal")

/-! ## Opening a wallet -/

structure OpenWalletCommand where
  ownerId : OwnerId
  currency : CurrencyCode

structure OpenWalletResult where
  walletId : WalletId
  currency : CurrencyCode

/-- The metric of a use case whose label depends only on how it ended. -/
def labelled {α : Type} (metricName label : String) (p : AppM α) : AppM α :=
  p.handle fun
    | .ok a => do
      Ports.observe (.interactor metricName label)
      return a
    | .error e => do
      Ports.observe (.interactor metricName "error")
      Program.raise e

/-- `OpenWalletInteractor`. -/
def openWallet (command : OpenWalletCommand) : AppM OpenWalletResult :=
  labelled "open_wallet" "created" do
    let id ← Ports.generate
    let now ← Ports.now
    let wallet := Wallet.open ⟨id⟩ command.ownerId command.currency now
    Ports.addWallet wallet
    Ports.commit
    return ⟨wallet.id, wallet.balance.currency⟩

/-! ## Reading -/

/-- `MAX_PAGE_SIZE`. -/
def maxPageSize : ℕ := 100

structure GetWalletQuery where
  walletId : WalletId
  ownerId : OwnerId

/-- `ListWalletsQuery`, with what its `__post_init__` checks. -/
structure ListWalletsQuery where
  ownerId : OwnerId
  limit : ℕ := 20
  cursor : Option String := none
  limit_bounds : 1 ≤ limit ∧ limit ≤ maxPageSize := by decide

/-- `ListLedgerQuery`, with what its `__post_init__` checks. -/
structure ListLedgerQuery where
  walletId : WalletId
  ownerId : OwnerId
  limit : ℕ := 20
  cursor : Option String := none
  limit_bounds : 1 ≤ limit ∧ limit ≤ maxPageSize := by decide

/-- The 404 of the read side. -/
def walletNotFound (walletId : WalletId) : Exn :=
  .application ⟨.notFound, .walletNotFound, [("wallet_id", .text walletId.value.str)]⟩

/-- A use case that reads the wallet first: `not_found` is a label of its own. -/
def onWallet {α : Type} (metricName : String) (walletId : WalletId) (ownerId : OwnerId)
    (p : Wallet → AppM α) : AppM α :=
  (Ports.readWallet walletId ownerId false).handle fun
    | .ok (some wallet) => labelled metricName "success" (p wallet)
    | .ok none => do
      Ports.observe (.interactor metricName "not_found")
      Program.raise (walletNotFound walletId)
    | .error e => do
      Ports.observe (.interactor metricName "error")
      Program.raise e

/-- `GetWalletInteractor`. -/
def getWallet (query : GetWalletQuery) : AppM Wallet :=
  onWallet "get_wallet" query.walletId query.ownerId fun wallet => return wallet

/-- `ListWalletsInteractor`, which reports success whatever happens. -/
def listWallets (query : ListWalletsQuery) : AppM (Page Wallet) :=
  (Ports.listByOwner query.ownerId query.limit query.cursor).tryFinally
    (Ports.observe (.interactor "list_wallets" "success"))

/-- `ListLedgerEntriesInteractor`. -/
def listLedgerEntries (query : ListLedgerQuery) : AppM (Page LedgerEntry) :=
  onWallet "list_ledger_entries" query.walletId query.ownerId fun _ =>
    Ports.listByWallet query.walletId query.ownerId query.limit query.cursor

/-! ## Requests -/

inductive Request where
  | openWallet (command : OpenWalletCommand)
  | deposit (command : DepositCommand)
  | withdraw (command : WithdrawCommand)
  | apply (request : MovementRequest)
  | getWallet (query : GetWalletQuery)
  | listWallets (query : ListWalletsQuery)
  | listLedgerEntries (query : ListLedgerQuery)

inductive Answer where
  | opened (result : OpenWalletResult)
  | moved (result : MovementResult)
  | applied (outcome : MovementOutcome)
  | wallet (wallet : Wallet)
  | wallets (page : Page Wallet)
  | entries (page : Page LedgerEntry)

namespace Request

/-- The owner a request is made for, as the transport authenticated it. -/
def ownerId : Request → OwnerId
  | .openWallet c => c.ownerId
  | .deposit c => c.ownerId
  | .withdraw c => c.ownerId
  | .apply r => r.ownerId
  | .getWallet q => q.ownerId
  | .listWallets q => q.ownerId
  | .listLedgerEntries q => q.ownerId

/-- The movement a request asks for. -/
def movement : Request → Option MovementRequest
  | .deposit c => some (c.request .credit "deposit")
  | .withdraw c => some (c.request .debit "withdrawal")
  | .apply r => some r
  | _ => none

/-- The key of the idempotency store that a request uses. -/
def storeKey (r : Request) : Option String :=
  r.movement.bind fun m => m.idempotencyKey.map (scopedKey m.ownerId)

/-- The program of a request. -/
def program (service : WalletMovementSettings) (settings : MoveMoneySettings) :
    Request → AppM Answer
  | .openWallet c => Answer.opened <$> Application.openWallet c
  | .deposit c => Answer.moved <$> depositToWallet service settings c
  | .withdraw c => Answer.moved <$> withdrawFromWallet service settings c
  | .apply r => Answer.applied <$> Application.apply service r
  | .getWallet q => Answer.wallet <$> Application.getWallet q
  | .listWallets q => Answer.wallets <$> Application.listWallets q
  | .listLedgerEntries q => Answer.entries <$> Application.listLedgerEntries q

end Request

end Evenkeel.Application
