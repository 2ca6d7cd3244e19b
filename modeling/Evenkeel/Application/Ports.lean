import Mathlib.Data.Rat.Defs
import Evenkeel.Domain.Entities
import Evenkeel.Effects.Program
import Evenkeel.Python.Binary64
import Evenkeel.Python.Json

/-!
# Application Errors and Ports

`application/errors.py` and `application/ports/*.py`: what use cases raise, and the
operations they perform on the outside world. Use cases are programs over these
operations; nothing here says how an adapter answers one.

Every `await` of the source is an operation that may raise, also by cancellation. Reading
the clock, minting an id and recording a metric are calls that neither suspend nor raise.
Durations that only feed a histogram are left out.
-/

namespace Evenkeel.Application

open Evenkeel.Domain Evenkeel.Effects

/-! ## Errors -/

inductive ApplicationErrorCode where
  | validationFailed
  | unauthenticated
  | walletNotFound
  | walletVersionConflict
  | walletBusy
  | idempotencyKeyReused
  | movementRefused
  | movementInProgress
  | rateLimited
  | dependencyUnavailable
  | internalError
  deriving DecidableEq

namespace ApplicationErrorCode

/-- The values of the enumeration. -/
def value : ApplicationErrorCode → String
  | validationFailed => "VALIDATION_FAILED"
  | unauthenticated => "UNAUTHENTICATED"
  | walletNotFound => "WALLET_NOT_FOUND"
  | walletVersionConflict => "WALLET_VERSION_CONFLICT"
  | walletBusy => "WALLET_BUSY"
  | idempotencyKeyReused => "IDEMPOTENCY_KEY_REUSED"
  | movementRefused => "MOVEMENT_REFUSED"
  | movementInProgress => "MOVEMENT_IN_PROGRESS"
  | rateLimited => "RATE_LIMITED"
  | dependencyUnavailable => "DEPENDENCY_UNAVAILABLE"
  | internalError => "INTERNAL_ERROR"

/-- `APPLICATION_ERROR_MESSAGES`. -/
def message : ApplicationErrorCode → String
  | validationFailed => "Request failed validation"
  | unauthenticated => "Authentication required"
  | walletNotFound => "Wallet not found"
  | walletVersionConflict => "Wallet was modified concurrently"
  | walletBusy => "Wallet is being modified, retry shortly"
  | idempotencyKeyReused => "Idempotency key was already used with a different payload"
  | movementRefused => "The movement was refused by risk assessment"
  | movementInProgress =>
      "A movement with this idempotency key is still running, retry shortly"
  | rateLimited => "Too many requests"
  | dependencyUnavailable => "A required dependency is unavailable, retry shortly"
  | internalError => "Internal server error"

end ApplicationErrorCode

/-- The subclasses of `ApplicationError`. -/
inductive ErrorClass where
  | application
  | unauthenticated
  | validation
  | notFound
  | forbidden
  | conflict
  | rateLimited
  | dependencyUnavailable
  | internal
  deriving DecidableEq

/-- `default_status_code`. -/
def ErrorClass.defaultStatusCode : ErrorClass → ℕ
  | application => 422
  | unauthenticated => 401
  | validation => 422
  | notFound => 404
  | forbidden => 403
  | conflict => 409
  | rateLimited => 429
  | dependencyUnavailable => 503
  | internal => 500

/-- A value among the details of an error. -/
inductive Detail where
  | text (s : String)
  | seconds (s : Python.Binary64)
  deriving DecidableEq

structure ApplicationError where
  errorClass : ErrorClass
  code : ApplicationErrorCode
  details : List (String × Detail)
  deriving DecidableEq

def ApplicationError.message (e : ApplicationError) : String := e.code.message

def ApplicationError.statusCode (e : ApplicationError) : ℕ := e.errorClass.defaultStatusCode

/-- What a use case can raise. -/
inductive Exn where
  | application (error : ApplicationError)
  | domain (error : DomainError)
  /-- A trapped signal of the `decimal` module. -/
  | decimal (signal : Evenkeel.Python.Signal)
  /-- An error of the database driver. -/
  | database (what : String)
  /-- Any other `Exception`. -/
  | other (what : String)
  /-- `asyncio.CancelledError`, which is not an `Exception`. -/
  | cancelled
  deriving DecidableEq

/-- Whether `except Exception` catches it. -/
def Exn.isException : Exn → Bool
  | .cancelled => false
  | _ => true

/-- A domain operation's exception, as it propagates through a use case. -/
def Exn.ofRaised : Raised → Exn
  | .domain e => .domain e
  | .decimal s => .decimal s

/-- An exception of the `json` module, where nothing catches it. -/
def Exn.ofJson : Evenkeel.Python.JsonError → Exn
  | .recursion => .other "RecursionError"
  | _ => .other "ValueError"

/-- `DependencyUnavailableError`, as the Redis adapters raise it. -/
def dependencyUnavailable (dependency operation : String) : Exn :=
  .application ⟨.dependencyUnavailable, .dependencyUnavailable,
    [("dependency", .text dependency), ("operation", .text operation)]⟩

/-! ## Values of the ports -/

inductive IdempotencyOutcome where
  | reserved
  | inProgress
  | completed
  | conflict
  deriving DecidableEq

/-- The response a movement stores under its key. The source writes the two ids with
    `str()` and reads them back with `UUID()`. -/
structure Receipt where
  entryId : LedgerEntryId
  walletId : WalletId
  deriving DecidableEq

/-- A stored response of any shape; the movement service stores a `Receipt`. -/
structure IdempotencyRecord (σ : Type) where
  key : String
  fingerprint : String
  response : σ
  deriving DecidableEq

structure IdempotencyReservation (σ : Type) where
  outcome : IdempotencyOutcome
  record : Option (IdempotencyRecord σ) := none
  deriving DecidableEq

def IdempotencyReservation.mayProceed {σ : Type} (r : IdempotencyReservation σ) : Bool :=
  r.outcome = .reserved

structure RateLimitPolicy where
  name : String
  limit : ℤ
  windowSeconds : Python.Binary64
  deriving DecidableEq

structure RateLimitDecision where
  allowed : Bool
  remaining : ℤ
  retryAfterSeconds : Python.Binary64
  deriving DecidableEq

inductive RiskOutcome where
  | allowed
  | refused
  | unavailable
  deriving DecidableEq

structure RiskCheck where
  walletId : WalletId
  ownerId : OwnerId
  amount : Money
  direction : LedgerDirection
  idempotencyKey : Option String

structure RiskDecision where
  outcome : RiskOutcome
  reason : String
  reference : String
  deriving DecidableEq

def RiskDecision.available (d : RiskDecision) : Bool := d.outcome ≠ .unavailable

/-- One slice of a cursor-paginated result. -/
structure Page (α : Type) where
  items : List α
  nextCursor : Option String

/-- What the metrics port records. -/
inductive Observation where
  | lock (name outcome : String)
  | externalCall (service operation outcome : String)
  | interactor (name outcome : String)
  | rateLimit (policy decision : String)
  deriving DecidableEq

/-! ## Operations -/

inductive Op where
  | reserve (key fingerprint : String) (ttlSeconds : ℤ)
  | confirm (key : String) (response : Receipt) (ttlSeconds : ℤ)
  | release (key : String)
  | enterLock (key : String) (ttlMs waitTimeoutMs : ℤ)
  | exitLock (key : String)
  | readWallet (walletId : WalletId) (ownerId : OwnerId) (forUpdate : Bool)
  | addWallet (wallet : Wallet)
  | updateWallet (wallet : Wallet) (expectedVersion : ℤ)
  | listByOwner (ownerId : OwnerId) (limit : ℕ) (cursor : Option String)
  | readEntry (entryId : LedgerEntryId) (ownerId : OwnerId)
  | addEntry (entry : LedgerEntry)
  | listByWallet (walletId : WalletId) (ownerId : OwnerId) (limit : ℕ) (cursor : Option String)
  | commit
  | rollback
  | consume (key : String) (policy : RateLimitPolicy)
  | assess (check : RiskCheck)
  | now
  | generate
  | observe (observation : Observation)

/-- The answers: an `await` may raise, a call may not. -/
abbrev Resp : Op → Type
  | .reserve .. => Except Exn (IdempotencyReservation Receipt)
  | .confirm .. => Except Exn Unit
  | .release .. => Except Exn Unit
  | .enterLock .. => Except Exn Bool
  | .exitLock .. => Except Exn Unit
  | .readWallet .. => Except Exn (Option Wallet)
  | .addWallet .. => Except Exn Unit
  | .updateWallet .. => Except Exn Bool
  | .listByOwner .. => Except Exn (Page Wallet)
  | .readEntry .. => Except Exn (Option LedgerEntry)
  | .addEntry .. => Except Exn Unit
  | .listByWallet .. => Except Exn (Page LedgerEntry)
  | .commit => Except Exn Unit
  | .rollback => Except Exn Unit
  | .consume .. => Except Exn RateLimitDecision
  | .assess .. => Except Exn RiskDecision
  | .now => Datetime
  | .generate => UUID
  | .observe .. => Unit

/-- The answer by which operation `op` raises `e`; a call has none. -/
def failure (e : Exn) : (op : Op) → Option (Resp op)
  | .reserve .. => some (.error e)
  | .confirm .. => some (.error e)
  | .release .. => some (.error e)
  | .enterLock .. => some (.error e)
  | .exitLock .. => some (.error e)
  | .readWallet .. => some (.error e)
  | .addWallet .. => some (.error e)
  | .updateWallet .. => some (.error e)
  | .listByOwner .. => some (.error e)
  | .readEntry .. => some (.error e)
  | .addEntry .. => some (.error e)
  | .listByWallet .. => some (.error e)
  | .commit => some (.error e)
  | .rollback => some (.error e)
  | .consume .. => some (.error e)
  | .assess .. => some (.error e)
  | .now => none
  | .generate => none
  | .observe .. => none

/-- A coroutine of the application layer. -/
abbrev AppM (α : Type) : Type := Program Op Resp Exn α

/-! ## The ports, as programs -/

namespace Ports

def reserve (key fingerprint : String) (ttlSeconds : ℤ) :
    AppM (IdempotencyReservation Receipt) :=
  .request (.reserve key fingerprint ttlSeconds) .done

def confirm (key : String) (response : Receipt) (ttlSeconds : ℤ) : AppM Unit :=
  .request (.confirm key response ttlSeconds) .done

def release (key : String) : AppM Unit := .request (.release key) .done

/-- `DistributedLock.__aenter__`; the answer is `acquired`. -/
def enterLock (key : String) (ttlMs waitTimeoutMs : ℤ) : AppM Bool :=
  .request (.enterLock key ttlMs waitTimeoutMs) .done

/-- `DistributedLock.__aexit__`. -/
def exitLock (key : String) : AppM Unit := .request (.exitLock key) .done

def readWallet (walletId : WalletId) (ownerId : OwnerId) (forUpdate : Bool) :
    AppM (Option Wallet) :=
  .request (.readWallet walletId ownerId forUpdate) .done

def addWallet (wallet : Wallet) : AppM Unit := .request (.addWallet wallet) .done

def updateWallet (wallet : Wallet) (expectedVersion : ℤ) : AppM Bool :=
  .request (.updateWallet wallet expectedVersion) .done

def listByOwner (ownerId : OwnerId) (limit : ℕ) (cursor : Option String) :
    AppM (Page Wallet) :=
  .request (.listByOwner ownerId limit cursor) .done

def readEntry (entryId : LedgerEntryId) (ownerId : OwnerId) : AppM (Option LedgerEntry) :=
  .request (.readEntry entryId ownerId) .done

def addEntry (entry : LedgerEntry) : AppM Unit := .request (.addEntry entry) .done

def listByWallet (walletId : WalletId) (ownerId : OwnerId) (limit : ℕ)
    (cursor : Option String) : AppM (Page LedgerEntry) :=
  .request (.listByWallet walletId ownerId limit cursor) .done

def commit : AppM Unit := .request .commit .done

def rollback : AppM Unit := .request .rollback .done

def consume (key : String) (policy : RateLimitPolicy) : AppM RateLimitDecision :=
  .request (.consume key policy) .done

def assess (check : RiskCheck) : AppM RiskDecision := .request (.assess check) .done

def now : AppM Datetime := .request .now fun t => .done (.ok t)

def generate : AppM UUID := .request .generate fun u => .done (.ok u)

def observe (observation : Observation) : AppM Unit :=
  .request (.observe observation) fun u => .done (.ok u)

end Ports

end Evenkeel.Application
