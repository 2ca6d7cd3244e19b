import Evenkeel.Python.Decimal

/-!
# Domain Errors

`domain/errors.py`: the error codes of the domain layer and the exception that carries
one of them with its context.
-/

namespace Evenkeel.Domain

open Evenkeel.Python

/-- `DomainErrorCode`. -/
inductive DomainErrorCode where
  | baseClassInstantiation
  | identityIsImmutable
  | emptyValueObject
  | currencyCodeInvalid
  | moneyCurrencyMismatch
  | moneyAmountNotPositive
  | moneyScaleExceeded
  | moneyAmountNotFinite
  | moneyAmountOutOfRange
  | walletInsufficientFunds
  | walletClosed
  | walletNotEmpty
  | walletBalanceNegative
  deriving DecidableEq

/-- `DomainError`: a code and its context, the values as text. -/
structure DomainError where
  code : DomainErrorCode
  context : List (String × String)
  deriving DecidableEq

/-- What a domain operation can raise: a `DomainError` of its own, or a trapped signal of
    the `decimal` module, which is not a `DomainError`. -/
inductive Raised where
  | domain (error : DomainError)
  | decimal (signal : Signal)
  deriving DecidableEq

/-- A `decimal` operation used by domain code. -/
def liftDecimal {α : Type} : Except Signal α → Except Raised α
  | .ok a => .ok a
  | .error s => .error (.decimal s)

@[simp] theorem liftDecimal_eq_ok {α : Type} {r : Except Signal α} {a : α} :
    liftDecimal r = .ok a ↔ r = .ok a := by
  cases r <;> simp [liftDecimal]

/-- Raise a `DomainError`. -/
def refuse {α : Type} (code : DomainErrorCode) (context : List (String × String)) :
    Except Raised α :=
  .error (.domain ⟨code, context⟩)

end Evenkeel.Domain
