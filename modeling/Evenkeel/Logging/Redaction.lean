import Evenkeel.Logging.InlineSecrets

/-!
# Redaction of a Log Record

`_is_sensitive`, `redact_sensitive` and `redaction_processor` of `logging.py`.

- `Key`, `Value`: what a record is built from
- `isSensitive`: whose values are not to be seen
- `redactSensitive`, `redactionProcessor`: what becomes of a record
-/

namespace Evenkeel.Logging

open Evenkeel.Patterns

/-! ## Names of secrets -/

/-- `SENSITIVE_KEYS`. -/
def sensitiveKeys : List String :=
  ["password", "token", "access_token", "refresh_token", "authorization", "secret",
    "secret_key", "api_key", "private_key", "client_secret", "cookie", "set_cookie"]

/-- A key without its case and its symbols. -/
def normalized (unicode : Unicode) (key : String) : List Char :=
  (key.toList.flatMap unicode.casefold).filter unicode.isalnum

/-- `_is_sensitive`. -/
def isSensitive (unicode : Unicode) (key : String) : Bool :=
  normalized unicode key ∈ sensitiveKeys.map (fun k => k.toList.filter (· ≠ '_')) ||
    "token".toList.isSuffixOf (normalized unicode key) ||
    "secret".toList.isSuffixOf (normalized unicode key) ||
    "apikey".toList.isSuffixOf (normalized unicode key) ||
    "password".toList.isSuffixOf (normalized unicode key)

/-! ## Records -/

/-- A key of a dict: a string, or anything else that can be one. -/
inductive Key (κ : Type) where
  | text (s : String)
  | other (k : κ)
deriving DecidableEq

instance [DecidableEq κ] : LawfulBEq (Key κ) := instLawfulBEq

/-- What can be logged. A dict has its keys in the order of their insertion. -/
inductive Value (κ σ : Type) where
  | dict (keys : List (Key κ)) (distinct : keys.Nodup)
      (values : {k // k ∈ keys} → Value κ σ)
  | list (n : ℕ) (items : Fin n → Value κ σ)
  | tuple (n : ℕ) (items : Fin n → Value κ σ)
  | text (s : String)
  | scalar (s : σ)

/-- The dict that a processor is given. -/
structure EventDict (κ σ : Type) where
  keys : List (Key κ)
  distinct : keys.Nodup
  values : {k // k ∈ keys} → Value κ σ

variable {κ σ : Type}

def EventDict.toValue (e : EventDict κ σ) : Value κ σ := .dict e.keys e.distinct e.values

/-- `str(key)`, for what `str` does with other keys than strings. -/
def Key.str (other : κ → String) : Key κ → String
  | .text s => s
  | .other k => other k

section

variable (unicode : Unicode) (other : κ → String)

/-- Whether the value of a key is not to be seen. -/
def Key.isSensitive (key : Key κ) : Bool := Logging.isSensitive unicode (key.str other)

/-- `redact_sensitive`. -/
def redactSensitive : Value κ σ → Value κ σ
  | .dict keys distinct values =>
    .dict keys distinct fun k =>
      if k.val.isSensitive unicode other then .text redacted else redactSensitive (values k)
  | .list n items => .list n fun i => redactSensitive (items i)
  | .tuple n items => .tuple n fun i => redactSensitive (items i)
  | .text s => .text s
  | .scalar s => .scalar s

/-- `redact_sensitive` of a dict. -/
def redactItems (e : EventDict κ σ) : EventDict κ σ where
  keys := e.keys
  distinct := e.distinct
  values := fun k =>
    if k.val.isSensitive unicode other then .text redacted
    else redactSensitive unicode other (e.values k)

/-- `dict.get`. -/
def EventDict.get? [DecidableEq κ] (e : EventDict κ σ) (key : Key κ) : Option (Value κ σ) :=
  if h : key ∈ e.keys then some (e.values ⟨key, h⟩) else none

/-- The assignment to a key that is there. -/
def EventDict.replace [DecidableEq κ] (e : EventDict κ σ) (key : Key κ) (value : Value κ σ) :
    EventDict κ σ where
  keys := e.keys
  distinct := e.distinct
  values := fun k => if k.val = key then value else e.values k

/-- `redaction_processor`. -/
def redactionProcessor [DecidableEq κ] (eventDict : EventDict κ σ) : EventDict κ σ :=
  let redacted := redactItems unicode other eventDict
  match redacted.get? (.text "event") with
  | some (.text event) => redacted.replace (.text "event") (.text (redactMessage unicode event))
  | _ => redacted

end

end Evenkeel.Logging
