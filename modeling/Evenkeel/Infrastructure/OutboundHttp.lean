import Mathlib.Algebra.Order.Ring.Rat
import Evenkeel.Application.Ports
import Evenkeel.Infrastructure.Bulkhead
import Evenkeel.Infrastructure.Transport
import Evenkeel.Python.JsonLimits

/-!
# One Provider's Outbound Calls

`infrastructure/adapters/http/transport.py`: `JsonHttpTransport` as a program over what it
asks of the bulkhead, the clock, the session and the event loop. Times and delays are exact
rationals. Headers and log lines are left out: nothing reads them back.

- `TransportPolicy`, `JsonResponse`, `Failure`: the values of the module
- `WireOp`: the operations, each with its answer
- `conclude`: what is made of one exchange with the provider
- `attemptLoop`, `guardedPost`, `postJson`: the methods

## Key Results

- `concluded`: the ways an attempt can end, by what the provider did
-/

namespace Evenkeel.Infrastructure

open Evenkeel.Application Evenkeel.Effects Evenkeel.Python

/-! ## Values -/

inductive Failure where
  | none
  | timeout
  | connection
  | serverError
  | clientError
  | oversized
  | malformed
  | redirected
  | bulkheadFull
  | budgetExhausted
  deriving DecidableEq

namespace Failure

def value : Failure → String
  | none => "none"
  | timeout => "timeout"
  | connection => "connection"
  | serverError => "server_error"
  | clientError => "client_error"
  | oversized => "oversized"
  | malformed => "malformed"
  | redirected => "redirected"
  | bulkheadFull => "bulkhead_full"
  | budgetExhausted => "budget_exhausted"

/-- `_RETRYABLE`. -/
def retryable : Failure → Bool
  | timeout => true
  | connection => true
  | serverError => true
  | _ => false

end Failure

structure TransportPolicy where
  service : String
  totalTimeoutMs : ℤ := 800
  connectTimeoutMs : ℤ := 200
  readTimeoutMs : ℤ := 700
  budgetMs : ℤ := 1500
  maxAttempts : ℤ := 2
  backoffBaseMs : ℤ := 50
  backoffMaxMs : ℤ := 400
  maxResponseBytes : ℤ := 64 * 1024
  bulkheadLimit : ℤ := 32
  bulkheadWaitMs : ℤ := 0
  bulkheadLeaseTtlMs : ℤ := 5000

structure JsonResponse where
  status : Option ℤ
  body : Option Dict
  failure : Failure

def JsonResponse.ok (r : JsonResponse) : Bool := r.failure = .none && r.body.isSome

/-- `_outcome_label`. -/
def JsonResponse.outcomeLabel (r : JsonResponse) : String :=
  if r.failure = .none then "success" else r.failure.value

/-- `aiohttp.ClientTimeout`, in seconds. -/
structure ClientTimeout where
  total : ℚ
  connect : ℚ
  sockRead : ℚ

/-- What a provider answers. A body arrives in segments, none of them empty. -/
structure HttpResponse where
  status : ℤ
  retryAfter : Option String
  segments : List (List UInt8)
  segments_ne : ∀ s ∈ segments, s ≠ []

def HttpResponse.body (r : HttpResponse) : List UInt8 := r.segments.flatten

/-- How the block around `session.post` goes: the response is read, or an exception is
    raised, `TimeoutError` and `aiohttp.ClientError` apart from all others. -/
inductive Exchange where
  | response (r : HttpResponse)
  | timeoutError
  | clientError
  | raised (e : Exn)

/-! ## Operations -/

inductive WireOp where
  | enterBulkhead (policy : BulkheadPolicy)
  | exitBulkhead
  | monotonic
  | post (url : String) (payload : Dict) (timeout : ClientTimeout)
  | uniform (ceiling : ℚ)
  | sleep (seconds : ℚ)
  | observe (observation : Observation)

/-- The answers; entering the bulkhead is answered with `acquired`. -/
abbrev WireResp : WireOp → Type
  | .enterBulkhead _ => Except Exn Bool
  | .exitBulkhead => Except Exn Unit
  | .monotonic => ℚ
  | .post .. => Exchange
  | .uniform _ => ℚ
  | .sleep _ => Except Exn Unit
  | .observe _ => Unit

/-- A coroutine of the transport. -/
abbrev WireM (α : Type) : Type := Program WireOp WireResp Exn α

namespace Wire

def enterBulkhead (policy : BulkheadPolicy) : WireM Bool :=
  .request (.enterBulkhead policy) .done

def exitBulkhead : WireM Unit := .request .exitBulkhead .done

def monotonic : WireM ℚ := .request .monotonic fun t => .done (.ok t)

def uniform (ceiling : ℚ) : WireM ℚ := .request (.uniform ceiling) fun x => .done (.ok x)

def sleep (seconds : ℚ) : WireM Unit := .request (.sleep seconds) .done

def observe (observation : Observation) : WireM Unit :=
  .request (.observe observation) fun u => .done (.ok u)

end Wire

/-! ## One attempt -/

/-- `_retry_after_ms`: never negative, and `max(0.0, seconds)` takes no notice of a `nan`. -/
def retryAfterMs (py : Interpreter) : Option String → Option PyFloat
  | none => none
  | some header =>
    if header = "" then none
    else
      match py.float header with
      | none => none
      | some (.finite seconds) => some (.finite (max 0 seconds * 1000))
      | some .inf => some .inf
      | some .negInf => some (.finite 0)
      | some .nan => some (.finite 0)

section

variable (py : Interpreter) (policy : TransportPolicy)

/-- The order of the checks on a response: status before size, size before content. -/
def classify (r : HttpResponse) : Except JsonError JsonResponse :=
  let raw := readCapped r.segments (policy.maxResponseBytes + 1).toNat
  if 300 ≤ r.status ∧ r.status < 400 then .ok ⟨some r.status, none, .redirected⟩
  else if 500 ≤ r.status ∨ r.status = 429 then .ok ⟨some r.status, none, .serverError⟩
  else if 400 ≤ r.status then .ok ⟨some r.status, none, .clientError⟩
  else if policy.maxResponseBytes < raw.length then .ok ⟨some r.status, none, .oversized⟩
  else
    match decodeObject py raw with
    | .ok none => .ok ⟨some r.status, none, .malformed⟩
    | .ok (some body) => .ok ⟨some r.status, some body, .none⟩
    | .error e => .error e

/-- What `_single_attempt` makes of an exchange. -/
def conclude : Exchange → Except Exn (JsonResponse × Option PyFloat)
  | .response r =>
    match classify py policy r with
    | .ok result => .ok (result, retryAfterMs py r.retryAfter)
    | .error e => .error (Exn.ofJson e)
  | .timeoutError => .ok (⟨none, none, .timeout⟩, none)
  | .clientError => .ok (⟨none, none, .connection⟩, none)
  | .raised e => .error e

/-- The timeouts of an attempt, which may not outlive the budget. -/
def attemptTimeout (remainingMs : ℚ) : ClientTimeout :=
  ⟨min (policy.totalTimeoutMs : ℚ) remainingMs / 1000, policy.connectTimeoutMs / 1000,
    policy.readTimeoutMs / 1000⟩

/-- `_single_attempt`. -/
def singleAttempt (url : String) (payload : Dict) (remainingMs : ℚ) :
    WireM (JsonResponse × Option PyFloat) :=
  .request (.post url payload (attemptTimeout policy remainingMs)) fun x =>
    .done (conclude py policy x)

/-- `_backoff_ms`. -/
def backoffMs (attempt : ℕ) : Option PyFloat → WireM ℚ
  | none => Wire.uniform (min policy.backoffMaxMs (policy.backoffBaseMs * 2 ^ (attempt - 1)))
  | some (.finite delay) => return min delay policy.backoffMaxMs
  -- an infinite delay; the others are none that `_retry_after_ms` returns
  | some _ => return policy.backoffMaxMs

/-! ## The methods -/

/-- The `for` of `_attempt_loop`, before attempt `attempt` and with `left` attempts to go. -/
def attempts (url : String) (payload : Dict) (deadline : ℚ) :
    ℕ → ℕ → JsonResponse → WireM JsonResponse
  | 0, _, result => return result
  | left + 1, attempt, _ => do
    let remainingMs := (deadline - (← Wire.monotonic)) * 1000
    if remainingMs ≤ 0 then return ⟨none, none, .budgetExhausted⟩
    else do
      let (result, retryAfter) ← singleAttempt py policy url payload remainingMs
      if !result.failure.retryable || (attempt : ℤ) = policy.maxAttempts then return result
      else do
        let backoff ← backoffMs policy attempt retryAfter
        -- the sleep would leave nothing for the attempt behind it
        if (deadline - (← Wire.monotonic)) * 1000 ≤ backoff then return result
        else do
          Wire.sleep (backoff / 1000)
          attempts url payload deadline left (attempt + 1) result

/-- `_attempt_loop`. -/
def attemptLoop (url : String) (payload : Dict) : WireM JsonResponse := do
  let deadline := (← Wire.monotonic) + policy.budgetMs / 1000
  attempts py policy url payload deadline policy.maxAttempts.toNat 1
    ⟨none, none, .connection⟩

/-- The policy of the lease that a call holds. -/
def TransportPolicy.bulkhead : BulkheadPolicy where
  name := "outbound:" ++ policy.service
  limit := policy.bulkheadLimit
  leaseTtlMs := policy.bulkheadLeaseTtlMs
  waitTimeoutMs := policy.bulkheadWaitMs

/-- `_guarded_post`, with the address already put together. -/
def guardedPost (url : String) (payload : Dict) : WireM JsonResponse :=
  Program.withContext (Wire.enterBulkhead policy.bulkhead) Wire.exitBulkhead fun acquired =>
    if acquired then attemptLoop py policy url payload
    else return ⟨none, none, .bulkheadFull⟩

/-- `base_url` without slashes at its end, a slash, and `path` without slashes in front. -/
def address (baseUrl path : String) : String :=
  String.ofList ((baseUrl.toList.reverse.dropWhile (· = '/')).reverse ++
    '/' :: path.toList.dropWhile (· = '/'))

/-- `post_json`. -/
def postJson (baseUrl path : String) (payload : Dict) (operation : String) :
    WireM JsonResponse := do
  let response ← guardedPost py policy (address baseUrl path) payload
  Wire.observe (.externalCall policy.service operation response.outcomeLabel)
  return response

end

/-! ## What an exchange amounts to -/

namespace Exchange

variable (py : Interpreter) (policy : TransportPolicy)

/-- An answer that can be read: a status below 300, and a body within the cap that is an
    object with these items. -/
def Reads (items : Dict) : Exchange → Prop
  | .response r => r.status < 300 ∧ r.body.length ≤ policy.maxResponseBytes ∧
      loadsBytes py r.body = .ok (.obj items)
  | _ => False

/-- An answer with such a status and a body within the cap, whose text is beyond a limit of
    the interpreter. -/
def Hostile : Exchange → Prop
  | .response r => r.status < 300 ∧ r.body.length ≤ policy.maxResponseBytes ∧
      ∃ text, py.decode r.body = some text ∧ Scanner.Overruns py.limits {} text
  | _ => False

end Exchange

section

variable {py : Interpreter} {policy : TransportPolicy}

theorem Exchange.Reads.not_hostile {x : Exchange} {items : Dict} (h : x.Reads py policy items) :
    ¬x.Hostile py policy := by
  intro hhostile
  cases x with
  | response r =>
    have hlimited := limited_loadsBytes.mpr hhostile.2.2
    rw [h.2.2] at hlimited
    exact limited_ok _ hlimited
  | _ => exact hhostile

namespace HttpResponse

variable {r : HttpResponse}

/-- What is read of a body within the cap is the body. -/
theorem readCapped_of_le (h : r.body.length ≤ policy.maxResponseBytes) :
    readCapped r.segments (policy.maxResponseBytes + 1).toNat = r.body := by
  rw [readCapped_eq r.segments_ne]
  apply List.take_of_length_le
  show r.body.length ≤ _
  omega

/-- What is read of a larger one is larger too. -/
theorem readCapped_of_lt (h : policy.maxResponseBytes < r.body.length) :
    policy.maxResponseBytes <
      (readCapped r.segments (policy.maxResponseBytes + 1).toNat).length := by
  rw [readCapped_eq r.segments_ne, List.length_take]
  have hlength : r.segments.flatten.length = r.body.length := rfl
  omega

end HttpResponse

/-- A response of which the status or the size is wrong is never parsed. -/
theorem classify_of_not (py : Interpreter) {r : HttpResponse}
    (h : ¬(r.status < 300 ∧ r.body.length ≤ policy.maxResponseBytes)) :
    ∃ failure, failure ≠ .none ∧
      classify py policy r = .ok ⟨some r.status, none, failure⟩ := by
  unfold classify
  by_cases hredirect : 300 ≤ r.status ∧ r.status < 400
  · exact ⟨.redirected, by decide, if_pos hredirect⟩
  · rw [if_neg hredirect]
    by_cases hserver : 500 ≤ r.status ∨ r.status = 429
    · exact ⟨.serverError, by decide, if_pos hserver⟩
    · rw [if_neg hserver]
      by_cases hclient : 400 ≤ r.status
      · exact ⟨.clientError, by decide, if_pos hclient⟩
      · rw [if_neg hclient]
        have hlarge : policy.maxResponseBytes < r.body.length := by
          by_contra hsmall
          exact h ⟨by omega, not_lt.mp hsmall⟩
        exact ⟨.oversized, by decide, if_pos (HttpResponse.readCapped_of_lt hlarge)⟩

/-- The others are. -/
theorem classify_of_le {r : HttpResponse} (hstatus : r.status < 300)
    (hsize : r.body.length ≤ policy.maxResponseBytes) :
    classify py policy r =
      match decodeObject py r.body with
      | .ok none => .ok ⟨some r.status, none, .malformed⟩
      | .ok (some body) => .ok ⟨some r.status, some body, .none⟩
      | .error e => .error e := by
  simp only [classify, HttpResponse.readCapped_of_le hsize]
  rw [if_neg (by omega), if_neg (by omega), if_neg (by omega), if_neg (by omega)]

/-- The ways an attempt can end. -/
inductive Concluded (py : Interpreter) (policy : TransportPolicy) (x : Exchange) :
    Except Exn (JsonResponse × Option PyFloat) → Prop where
  | read (status : Option ℤ) (items : Dict) (delay : Option PyFloat) :
      x.Reads py policy items → Concluded py policy x (.ok (⟨status, some items, .none⟩, delay))
  | failed (status : Option ℤ) (failure : Failure) (delay : Option PyFloat) :
      (∀ items, ¬x.Reads py policy items) → ¬x.Hostile py policy → failure ≠ .none →
        Concluded py policy x (.ok (⟨status, none, failure⟩, delay))
  | hostile (e : JsonError) :
      x.Hostile py policy → Concluded py policy x (.error (Exn.ofJson e))
  | raised (e : Exn) : x = .raised e → Concluded py policy x (.error e)

theorem concluded (x : Exchange) : Concluded py policy x (conclude py policy x) := by
  cases x with
  | response r =>
    by_cases h : r.status < 300 ∧ r.body.length ≤ policy.maxResponseBytes
    · obtain ⟨hstatus, hsize⟩ := h
      simp only [conclude, classify_of_le hstatus hsize]
      cases hdecode : decodeObject py r.body with
      | error e =>
        exact .hostile e ⟨hstatus, hsize, limited_loadsBytes.mp (decodeObject_error hdecode)⟩
      | ok body =>
        cases body with
        | none =>
          obtain ⟨hobject, hwithin⟩ := decodeObject_none hdecode
          apply Concluded.failed
          · exact fun items hreads => hobject items hreads.2.2
          · exact fun hhostile => hwithin (limited_loadsBytes.mpr hhostile.2.2)
          · decide
        | some items => exact .read _ _ _ ⟨hstatus, hsize, decodeObject_some hdecode⟩
    · obtain ⟨failure, hfailure, hclassify⟩ := classify_of_not py h
      simp only [conclude, hclassify]
      apply Concluded.failed
      · exact fun items hreads => h ⟨hreads.1, hreads.2.1⟩
      · exact fun hhostile => h ⟨hhostile.1, hhostile.2.1⟩
      · exact hfailure
  | timeoutError => exact .failed _ _ _ (fun _ => id) id (by decide)
  | clientError => exact .failed _ _ _ (fun _ => id) id (by decide)
  | raised e => exact .raised e rfl

end

end Evenkeel.Infrastructure
