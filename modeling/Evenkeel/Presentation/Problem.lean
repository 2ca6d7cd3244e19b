import Evenkeel.Application.Ports
import Evenkeel.Logging.Allowlist

/-!
# Problem Documents

`presentation/http/errors.py`: what a client is told when a request fails. Each exception is
rendered by the handler of its class; a cancellation has none, since there is nobody left to be
told.

- `Problem`: an RFC 9457 document
- `handleApplicationError`, `handleDomainError`, `handleRequestValidation`,
  `handleUnexpected`: the exception handlers
- `exnProblem`: the one that is called

## Key Results

- `exnProblem_congr`: a document is made from what is disclosed of an exception
- `handleRequestValidation_congr`: or from what is allowed of the errors of a validation
-/

namespace Evenkeel.Presentation

open Evenkeel.Domain Evenkeel.Application Evenkeel.Logging

/-! ## Codes -/

/-- The values of `DomainErrorCode`. -/
def domainCode : DomainErrorCode → String
  | .baseClassInstantiation => "BASE_CLASS_INSTANTIATION"
  | .identityIsImmutable => "IDENTITY_IS_IMMUTABLE"
  | .emptyValueObject => "EMPTY_VALUE_OBJECT"
  | .currencyCodeInvalid => "CURRENCY_CODE_INVALID"
  | .moneyCurrencyMismatch => "MONEY_CURRENCY_MISMATCH"
  | .moneyAmountNotPositive => "MONEY_AMOUNT_NOT_POSITIVE"
  | .moneyScaleExceeded => "MONEY_SCALE_EXCEEDED"
  | .moneyAmountNotFinite => "MONEY_AMOUNT_NOT_FINITE"
  | .moneyAmountOutOfRange => "MONEY_AMOUNT_OUT_OF_RANGE"
  | .walletInsufficientFunds => "WALLET_INSUFFICIENT_FUNDS"
  | .walletClosed => "WALLET_CLOSED"
  | .walletNotEmpty => "WALLET_NOT_EMPTY"
  | .walletBalanceNegative => "WALLET_BALANCE_NEGATIVE"

/-- `DOMAIN_STATUS_OVERRIDES.get(code, 422)`. -/
def domainStatus : DomainErrorCode → ℕ
  | .walletInsufficientFunds => 409
  | .walletClosed => 409
  | .walletNotEmpty => 409
  | _ => 422

/-- `DOMAIN_CONTEXT_FIELDS`. -/
def domainContextFields : List String :=
  ["wallet_id", "balance", "requested", "left", "right", "max", "max_scale"]

/-- `VALIDATION_ERROR_FIELDS`. -/
def validationErrorFields : List String := ["loc", "msg", "type"]

/-- `str.capitalize`, of a text in ASCII. -/
def capitalize : List Char → List Char
  | [] => []
  | c :: rest => c.toUpper :: rest.map Char.toLower

/-- `exc.code.value.replace("_", " ").capitalize()`. -/
def domainTitle (code : DomainErrorCode) : String :=
  String.ofList (capitalize ((domainCode code).toList.map fun c => if c = '_' then ' ' else c))

example : domainTitle .walletInsufficientFunds = "Wallet insufficient funds" := by decide

/-! ## Documents -/

variable {κ σ : Type}

/-- What `details` can hold: named values, or the errors of a validation. -/
inductive Details (κ σ : Type) where
  | fields (items : List (String × Detail))
  | errors (items : List (List (String × Value κ σ)))

/-- A dict without items is not rendered. -/
def Details.nonempty? : Details κ σ → Option (Details κ σ)
  | .fields [] => none
  | details => some details

structure Problem (κ σ : Type) where
  type : String
  title : String
  status : ℕ
  code : String
  instancePath : String
  correlationId : Option String
  details : Option (Details κ σ)

/-- What a handler reads of the request: its path, and the correlation id on its scope or else
    in the context. -/
structure ProblemContext where
  path : String
  correlationId : Option String

/-- `problem`. -/
def problem (request : ProblemContext) (status : ℕ) (code title : String)
    (details : Option (Details κ σ)) : Problem κ σ where
  type := "about:blank#" ++ code.toLower
  title := title
  status := status
  code := code
  instancePath := request.path
  correlationId := request.correlationId.filter (· ≠ "")
  details := details.bind Details.nonempty?

section

variable (request : ProblemContext)

/-- `handle_application_error`. -/
def handleApplicationError (e : ApplicationError) : Problem κ σ :=
  problem request e.statusCode e.code.value e.message (some (.fields e.details))

/-- The part of a context that is published. -/
def publishedContext (context : List (String × String)) : List (String × String) :=
  context.filter fun item => item.1 ∈ domainContextFields

/-- `handle_domain_error`. -/
def handleDomainError (e : DomainError) : Problem κ σ :=
  problem request (domainStatus e.code) (domainCode e.code) (domainTitle e.code)
    (some (.fields ((publishedContext e.context).map fun item => (item.1, .text item.2))))

/-- `handle_request_validation`, of the errors that the validation library reports. -/
def handleRequestValidation (other : κ → String) (errors : List (EventDict κ σ)) :
    Problem κ σ :=
  problem request 422 ApplicationErrorCode.validationFailed.value "Request failed validation"
    (some (.errors (errors.map fun error =>
      allowlisted other validationErrorFields (some error) 20)))

/-- `handle_unexpected`. -/
def handleUnexpected : Problem κ σ :=
  problem request 500 ApplicationErrorCode.internalError.value "Internal server error" none

/-- The handler of an exception's class. -/
def exnProblem : Exn → Option (Problem κ σ)
  | .application e => some (handleApplicationError request e)
  | .domain e => some (handleDomainError request e)
  | .cancelled => none
  | .decimal _ => some (handleUnexpected request)
  | .database _ => some (handleUnexpected request)
  | .other _ => some (handleUnexpected request)

end

/-! ## What a document tells -/

/-- What a client learns of an exception: nothing, its code with what is published of it, or
    that it was not expected. The class of an error shows in its status only. -/
inductive Disclosure where
  | silent
  | application (status : ℕ) (code : ApplicationErrorCode) (details : List (String × Detail))
  | domain (code : DomainErrorCode) (context : List (String × String))
  | unexpected

def disclosed : Exn → Disclosure
  | .application e => .application e.statusCode e.code e.details
  | .domain e => .domain e.code (publishedContext e.context)
  | .cancelled => .silent
  | _ => .unexpected

/-- A document is made from what is disclosed, and from nothing else. -/
theorem exnProblem_congr {request : ProblemContext} {e e' : Exn}
    (h : disclosed e = disclosed e') :
    (exnProblem request e : Option (Problem κ σ)) = exnProblem request e' := by
  cases e with
  | application a =>
    cases e' with
    | application a' =>
      obtain ⟨hstatus, hcode, hdetails⟩ := Disclosure.application.inj h
      simp only [exnProblem, handleApplicationError, ApplicationError.message, hstatus, hcode,
        hdetails]
    | _ => cases h
  | domain d =>
    cases e' with
    | domain d' =>
      obtain ⟨hcode, hcontext⟩ := Disclosure.domain.inj h
      simp only [exnProblem, handleDomainError, hcode, hcontext]
    | _ => cases h
  | cancelled =>
    cases e' with
    | cancelled => rfl
    | _ => cases h
  | _ =>
    cases e' with
    | application a' => cases h
    | domain d' => cases h
    | cancelled => cases h
    | _ => rfl

/-- Two reports of a validation that differ in nothing that is allowed make one document. -/
theorem handleRequestValidation_congr {request : ProblemContext} {other : κ → String}
    {errors errors' : List (EventDict κ σ)}
    (h : List.Forall₂ (AgreeOn validationErrorFields) errors errors') :
    handleRequestValidation request other errors =
      handleRequestValidation request other errors' := by
  have hshown : errors.map (fun error => allowlisted other validationErrorFields (some error) 20) =
      errors'.map fun error => allowlisted other validationErrorFields (some error) 20 := by
    induction h with
    | nil => rfl
    | cons hagree _ ih => rw [List.map_cons, List.map_cons, allowlisted_congr hagree, ih]
  simp only [handleRequestValidation, hshown]

end Evenkeel.Presentation
