import Evenkeel.Infrastructure.OutboundHttp

/-!
# The Risk Provider

`infrastructure/adapters/http/risk.py`: one provider's JSON as the three outcomes of the port.

- `decisionOf`, `assess`: the adapter
- `retrying`: the contract of a call, whose state is the list of its exchanges
- `Tells`: what the end of a call says about its exchanges

## Key Results

- `postJson_tells`: a call makes no attempt behind one that was answered, and ends in what its
  last attempt was answered with
- `assess_judges`: so does an assessment
-/

namespace Evenkeel.Infrastructure

open Evenkeel.Application Evenkeel.Effects Evenkeel.Python

/-! ## The adapter -/

/-- `_text`. -/
def riskText : Option Json → String
  | some (.str value) => String.ofList (value.toList.take 200)
  | _ => ""

/-- The request shape. -/
def riskPayload (check : RiskCheck) : Dict :=
  [("wallet_id", .str check.walletId.value.str), ("owner_id", .str check.ownerId.value.str),
    ("amount", .str (Decimal.finite check.amount.amount).str),
    ("currency", .str check.amount.currency.value), ("direction", .str check.direction.value),
    ("idempotency_key", (check.idempotencyKey.map Json.str).getD .null)]

/-- The mapping of the response shape. -/
def decisionOf (response : JsonResponse) : RiskDecision :=
  match response.ok, response.body with
  | true, some body =>
    let decided (outcome : RiskOutcome) : RiskDecision :=
      ⟨outcome, riskText (body.get "reason"), riskText (body.get "reference")⟩
    match body.get "decision" with
    | some (.str decision) =>
      if decision = "allow" then decided .allowed
      else if decision = "refuse" then decided .refused
      else ⟨.unavailable, "unrecognised", ""⟩
    | _ => ⟨.unavailable, "unrecognised", ""⟩
  | _, _ => ⟨.unavailable, response.failure.value, ""⟩

/-- `HttpRiskAssessment.assess`. -/
def assess (py : Interpreter) (policy : TransportPolicy) (baseUrl path : String)
    (check : RiskCheck) : WireM RiskDecision :=
  decisionOf <$> postJson py policy baseUrl path (riskPayload check) "assess"

/-! ## The contract of a call -/

/-- The answer by which operation `op` raises `e`, if it can. -/
def wireFailure (e : Exn) : (op : WireOp) → Option (WireResp op)
  | .enterBulkhead _ => some (.error e)
  | .exitBulkhead => some (.error e)
  | .monotonic => none
  | .post .. => some (.raised e)
  | .uniform _ => none
  | .sleep _ => some (.error e)
  | .observe _ => none

/-- The exchanges with the provider. -/
def exchanged (exchanges : List Exchange) : Event WireOp WireResp → List Exchange
  | ⟨.post .., x⟩ => exchanges ++ [x]
  | _ => exchanges

section

variable (py : Interpreter) (policy : TransportPolicy) (E : Exn → Prop)

/-- Nothing came of the exchange, neither an answer that can be read nor an exception. -/
def Exchange.Failed (x : Exchange) : Prop :=
  (∀ items, ¬x.Reads py policy items) ∧ ¬x.Hostile py policy

/-- An attempt is made only if nothing came of those before it. The environment raises what
    is in `E`, and nothing else. -/
def retrying : Contract WireOp WireResp :=
  .tracking (fun event => ∀ e, wireFailure e event.1 = some event.2 → E e) exchanged
    fun exchanges op =>
      match op with
      | .post .. => ∀ x ∈ exchanges, x.Failed py policy
      | _ => True

/-- What the end of a call says about its exchanges. -/
def Tells (r : Except Exn JsonResponse) (exchanges : List Exchange) : Prop :=
  match r with
  | .ok response => (∀ x ∈ exchanges, ¬x.Hostile py policy) ∧
      (response.failure = .none → ∃ x items, exchanges.getLast? = some x ∧
        x.Reads py policy items ∧ response.body = some items)
  | .error e => E e ∨ ∃ cause x, e = Exn.ofJson cause ∧ x ∈ exchanges ∧ x.Hostile py policy

/-- What was read of an exchange is what the call returns. -/
def Reports (r : Except Exn JsonResponse) (exchanges : List Exchange) : Prop :=
  ∀ response, r = .ok response → ∀ x ∈ exchanges, ∀ items, x.Reads py policy items →
    response.failure = .none ∧ response.body = some items

/-- Both of them. -/
def Ends (r : Except Exn JsonResponse) (exchanges : List Exchange) : Prop :=
  Tells py policy E r exchanges ∧ Reports py policy r exchanges

/-- The exchange was answered with an object whose decision is this word. -/
def Exchange.Says (word : String) (x : Exchange) : Prop :=
  ∃ items, x.Reads py policy items ∧ Dict.get "decision" items = some (.str word)

/-- The exchange that was made last was answered with this word. -/
def LastSays (word : String) (exchanges : List Exchange) : Prop :=
  ∃ x, exchanges.getLast? = some x ∧ x.Says py policy word

/-- What the end of an assessment says about its exchanges. -/
def Judges (r : Except Exn RiskDecision) (exchanges : List Exchange) : Prop :=
  match r with
  | .ok decision => (∀ x ∈ exchanges, ¬x.Hostile py policy) ∧
      (decision.outcome = .allowed → LastSays py policy "allow" exchanges) ∧
      (decision.outcome = .refused → LastSays py policy "refuse" exchanges)
  | .error e => E e ∨ ∃ cause x, e = Exn.ofJson cause ∧ x ∈ exchanges ∧ x.Hostile py policy

/-- What was read of an exchange is what is decided. -/
def Decides (r : Except Exn RiskDecision) (exchanges : List Exchange) : Prop :=
  ∀ decision, r = .ok decision → ∀ x ∈ exchanges, ∀ items, x.Reads py policy items →
    decision = decisionOf ⟨none, some items, .none⟩

end

section

variable {py : Interpreter} {policy : TransportPolicy} {E : Exn → Prop}
  {exchanges : List Exchange}

/-! ## Operations that are no attempt -/

/-- An operation other than an attempt is no exchange, and raises what its answer does. -/
theorem keeps_quiet {α : Type} (op : WireOp) {f : WireResp op → Except Exn α}
    (hop : ∀ url payload timeout, op ≠ .post url payload timeout)
    (hf : ∀ x e, f x = .error e → wireFailure e op = some x) :
    (retrying py policy E).Keeps (· = exchanges) E (.request op fun x => .done (f x)) := by
  intro s hs
  constructor
  · cases op with
    | post url payload timeout => exact absurd rfl (hop url payload timeout)
    | _ => trivial
  · intro x s' hstep
    obtain ⟨hraises, rfl⟩ := hstep
    constructor
    · cases op with
      | post url payload timeout => exact absurd rfl (hop url payload timeout)
      | _ => exact hs
    · intro e he
      exact hraises e (hf x e he)

theorem keeps_monotonic : (retrying py policy E).Keeps (· = exchanges) E Wire.monotonic :=
  keeps_quiet .monotonic (by simp) (by simp)

theorem keeps_sleep (seconds : ℚ) :
    (retrying py policy E).Keeps (· = exchanges) E (Wire.sleep seconds) :=
  keeps_quiet (.sleep seconds) (f := id) (by simp) (by simp +contextual [wireFailure])

theorem keeps_backoffMs (attempt : ℕ) (delay : Option PyFloat) :
    (retrying py policy E).Keeps (· = exchanges) E (backoffMs policy attempt delay) := by
  unfold backoffMs
  split
  · exact keeps_quiet (.uniform _) (by simp) (by simp)
  · exact Contract.keeps_ok _
  · exact Contract.keeps_ok _

/-! ## The end of a call -/

theorem Exchange.Reads.unique {x : Exchange} {items items' : Dict}
    (h : x.Reads py policy items) (h' : x.Reads py policy items') : items = items' := by
  cases x with
  | response r =>
    have hload := h.2.2.symm.trans h'.2.2
    injection hload with hobject
    injection hobject
  | _ => exact h.elim

theorem ends_error {e : Exn} (he : E e) : Ends py policy E (.error e) exchanges := by
  refine ⟨.inl he, ?_⟩
  intro response hok
  cases hok

theorem ends_failed {response : JsonResponse} (hfailed : ∀ x ∈ exchanges, x.Failed py policy)
    (hfailure : response.failure ≠ .none) :
    Ends py policy E (.ok response) exchanges := by
  refine ⟨⟨?_, ?_⟩, ?_⟩
  · intro x hx
    exact (hfailed x hx).2
  · intro hnone
    exact absurd hnone hfailure
  · intro _ _ x hx items hreads
    exact absurd hreads ((hfailed x hx).1 items)

/-- An answer that was read is the last one, and the only one. -/
theorem ends_read {x : Exchange} {status : Option ℤ} {items : Dict}
    (hfailed : ∀ x ∈ exchanges, x.Failed py policy) (hreads : x.Reads py policy items) :
    Ends py policy E (.ok ⟨status, some items, .none⟩) (exchanges ++ [x]) := by
  refine ⟨⟨?_, ?_⟩, ?_⟩
  · intro y hy
    rcases List.mem_append.mp hy with hy | hy
    · exact (hfailed y hy).2
    · obtain rfl := List.mem_singleton.mp hy
      exact hreads.not_hostile
  · intro _
    exact ⟨x, items, by simp, hreads, rfl⟩
  · intro response hok y hy items' hreads'
    cases hok
    rcases List.mem_append.mp hy with hy | hy
    · exact absurd hreads' ((hfailed y hy).1 items')
    · obtain rfl := List.mem_singleton.mp hy
      exact ⟨rfl, congrArg some (hreads.unique hreads')⟩

/-- An attempt, and what comes of it. -/
theorem singleAttempt_wp {url : String} {payload : Dict} {remainingMs : ℚ}
    {Q : Except Exn (JsonResponse × Option PyFloat) → List Exchange → Prop}
    (hfailed : ∀ x ∈ exchanges, x.Failed py policy)
    (hQ : ∀ x r, Concluded py policy x r → (∀ e, x = .raised e → E e) →
      Q r (exchanges ++ [x])) :
    (retrying py policy E).wp (singleAttempt py policy url payload remainingMs) Q exchanges := by
  refine ⟨hfailed, ?_⟩
  intro x s' hstep
  obtain ⟨hraises, rfl⟩ := hstep
  apply hQ x _ (concluded x)
  intro e he
  exact hraises e (congrArg some he.symm)

theorem attempts_ends {url : String} {payload : Dict} {deadline : ℚ} {left attempt : ℕ}
    {result : JsonResponse} (hfailed : ∀ x ∈ exchanges, x.Failed py policy)
    (hresult : result.failure ≠ .none) :
    (retrying py policy E).wp (attempts py policy url payload deadline left attempt result)
      (Ends py policy E) exchanges := by
  induction left generalizing attempt result exchanges with
  | zero => exact ends_failed hfailed hresult
  | succ left ih =>
    unfold attempts
    apply Contract.wp_bind_of_keeps keeps_monotonic
    · intro now
      dsimp only
      split
      · -- the budget is over, and every call has failed
        exact ends_failed hfailed (by simp)
      · apply Contract.wp_bind.mpr
        apply singleAttempt_wp hfailed
        intro x r hconcluded hraised
        cases hconcluded with
        | read status items delay hreads =>
          -- an answer is never retried
          simp only [Program.onValue_ok, Failure.retryable, Bool.not_false, Bool.true_or, if_true]
          exact ends_read hfailed hreads
        | failed status failure delay hunread hharmless hfailure =>
          have hfailed' : ∀ y ∈ exchanges ++ [x], y.Failed py policy := by
            intro y hy
            rcases List.mem_append.mp hy with hy | hy
            · exact hfailed y hy
            · obtain rfl := List.mem_singleton.mp hy
              exact ⟨hunread, hharmless⟩
          simp only [Program.onValue_ok]
          split
          · -- no attempt is left
            exact ends_failed hfailed' hfailure
          · apply Contract.wp_bind_of_keeps (keeps_backoffMs _ _)
            · intro backoff
              apply Contract.wp_bind_of_keeps keeps_monotonic
              · intro now
                split
                · -- no time is left
                  exact ends_failed hfailed' hfailure
                · apply Contract.wp_bind_of_keeps (keeps_sleep _)
                  · intro _
                    -- after the nap, the next attempt
                    exact ih hfailed' hfailure
                  · exact fun e he => ends_error he
              · exact fun e he => ends_error he
            · exact fun e he => ends_error he
        | hostile cause hhostile =>
          -- a hostile response escapes the attempt
          refine ⟨.inr ⟨cause, x, rfl, by simp, hhostile⟩, ?_⟩
          intro response hok
          cases hok
        | raised e hx => exact ends_error (hraised e hx)
    · exact fun e he => ends_error he

theorem guardedPost_ends {url : String} {payload : Dict}
    (hfailed : ∀ x ∈ exchanges, x.Failed py policy) :
    (retrying py policy E).wp (guardedPost py policy url payload) (Ends py policy E)
      exchanges := by
  apply Contract.wp_bind_of_keeps
    (keeps_quiet (.enterBulkhead _) (f := id) (by simp) (by simp +contextual [wireFailure]))
  · intro acquired
    apply Contract.wp_tryFinally_of_keeps
    · cases acquired with
      | true =>
        apply Contract.wp_bind_of_keeps keeps_monotonic
        · intro now
          exact attempts_ends hfailed (by simp)
        · exact fun e he => ends_error he
      | false => exact ends_failed hfailed (by simp)
    · intro exchanges
      exact keeps_quiet .exitBulkhead (f := id) (by simp) (by simp +contextual [wireFailure])
    · exact fun e exchanges he => ends_error he
  · exact fun e he => ends_error he

theorem postJson_ends {baseUrl path operation : String} {payload : Dict}
    (hfailed : ∀ x ∈ exchanges, x.Failed py policy) :
    (retrying py policy E).wp (postJson py policy baseUrl path payload operation)
      (Ends py policy E) exchanges := by
  apply Contract.wp_bind.mpr
  apply Contract.wp_mono _ (guardedPost_ends hfailed)
  intro r exchanges' hends
  cases r with
  | ok response =>
    apply Contract.wp_bind_of_keeps (keeps_quiet (.observe _) (by simp) (by simp))
    · exact fun _ => hends
    · exact fun e he => ends_error he
  | error e => exact hends

theorem postJson_tells {baseUrl path operation : String} {payload : Dict}
    (hfailed : ∀ x ∈ exchanges, x.Failed py policy) :
    (retrying py policy E).wp (postJson py policy baseUrl path payload operation)
      (Tells py policy E) exchanges :=
  Contract.wp_mono (fun _ _ hends => hends.1) (postJson_ends hfailed)

/-! ## The end of an assessment -/

theorem decisionOf_judges {response : JsonResponse}
    (h : Tells py policy E (.ok response) exchanges) :
    Judges py policy E (.ok (decisionOf response)) exchanges := by
  obtain ⟨hharmless, hread⟩ := h
  refine ⟨hharmless, ?_⟩
  -- the decision is read only if the call did not fail
  by_cases hfailure : response.failure = .none
  · obtain ⟨x, items, hlast, hreads, hbody⟩ := hread hfailure
    have hok : response.ok = true := by simp [JsonResponse.ok, hfailure, hbody]
    have hsays : ∀ word, Dict.get "decision" items = some (.str word) →
        LastSays py policy word exchanges :=
      fun word hword => ⟨x, hlast, items, hreads, hword⟩
    unfold decisionOf
    simp only [hok, hbody]
    split
    · rename_i word hword
      -- the words that mean something
      split
      · rename_i hallow
        subst hallow
        exact ⟨fun _ => hsays _ hword, by simp⟩
      · split
        · rename_i hrefuse
          subst hrefuse
          exact ⟨by simp, fun _ => hsays _ hword⟩
        · exact ⟨by simp, by simp⟩
    · exact ⟨by simp, by simp⟩
  · -- everything else is a check that was not made
    have hnot : response.ok = false := by simp [JsonResponse.ok, hfailure]
    simp [decisionOf, hnot]

theorem assess_judges {baseUrl path : String} {check : RiskCheck}
    (hfailed : ∀ x ∈ exchanges, x.Failed py policy) :
    (retrying py policy E).wp (assess py policy baseUrl path check) (Judges py policy E)
      exchanges := by
  apply Contract.wp_bind.mpr
  apply Contract.wp_mono _ (postJson_tells hfailed)
  intro r exchanges' htells
  cases r with
  | ok response => exact decisionOf_judges htells
  | error e => exact htells

/-- The decision is the one that was read, whatever came of the other exchanges. -/
theorem assess_decides {baseUrl path : String} {check : RiskCheck}
    (hfailed : ∀ x ∈ exchanges, x.Failed py policy) :
    (retrying py policy E).wp (assess py policy baseUrl path check) (Decides py policy)
      exchanges := by
  apply Contract.wp_bind.mpr
  apply Contract.wp_mono _ (postJson_ends hfailed)
  intro r exchanges' hends
  cases r with
  | ok response =>
    intro decision hdecision x hx items hreads
    obtain ⟨hfailure, hbody⟩ := hends.2 response rfl x hx items hreads
    obtain rfl := Except.ok.inj hdecision
    unfold decisionOf
    simp [JsonResponse.ok, hfailure, hbody]
  | error e =>
    intro decision hdecision
    cases hdecision

/-! ## A call with one attempt -/

/-- The operations of a call that is let in at time zero and makes one attempt. -/
def onceThrough (policy : TransportPolicy) (url : String) (payload : Dict) (x : Exchange) :
    List (Event WireOp WireResp) :=
  [⟨.enterBulkhead policy.bulkhead, .ok true⟩, ⟨.monotonic, (0 : ℚ)⟩, ⟨.monotonic, (0 : ℚ)⟩,
    ⟨.post url payload (attemptTimeout policy policy.budgetMs), x⟩, ⟨.exitBulkhead, .ok ()⟩]

theorem attempts_once (url : String) (payload : Dict) (left attempt : ℕ)
    (result : JsonResponse) {deadline : ℚ} {x : Exchange} (hdeadline : 0 < deadline)
    (hend : ∀ response delay, conclude py policy x = .ok (response, delay) →
      response.failure.retryable = false) :
    (attempts py policy url payload deadline (left + 1) attempt result).Performs
      [⟨.monotonic, (0 : ℚ)⟩, ⟨.post url payload (attemptTimeout policy (deadline * 1000)), x⟩]
      (.done ((conclude py policy x).map Prod.fst)) := by
  have hleft : ¬deadline * 1000 ≤ 0 := by linarith
  unfold attempts
  apply Program.Performs.cons
  simp only [Program.handle_done, Program.onValue_ok, sub_zero, if_neg hleft]
  apply Program.Performs.cons
  simp only [Program.handle_done]
  cases hconclude : conclude py policy x with
  | error e => exact .nil _
  | ok concluded =>
    obtain ⟨response, delay⟩ := concluded
    have hfinal := hend response delay hconclude
    simp only [Program.onValue_ok, hfinal, Bool.not_false, Bool.true_or, if_true]
    exact .nil _

theorem attemptLoop_once (url : String) (payload : Dict) {x : Exchange}
    (hattempts : 0 < policy.maxAttempts) (hbudget : 0 < policy.budgetMs)
    (hend : ∀ response delay, conclude py policy x = .ok (response, delay) →
      response.failure.retryable = false) :
    (attemptLoop py policy url payload).Performs
      [⟨.monotonic, (0 : ℚ)⟩, ⟨.monotonic, (0 : ℚ)⟩,
        ⟨.post url payload (attemptTimeout policy policy.budgetMs), x⟩]
      (.done ((conclude py policy x).map Prod.fst)) := by
  obtain ⟨left, hleft⟩ : ∃ left, policy.maxAttempts.toNat = left + 1 :=
    ⟨policy.maxAttempts.toNat - 1, by omega⟩
  have hdeadline : (0 : ℚ) < 0 + policy.budgetMs / 1000 := by
    have : (0 : ℚ) < policy.budgetMs := by exact_mod_cast hbudget
    linarith
  have honce := attempts_once url payload left 1 ⟨none, none, .connection⟩ hdeadline hend
  rw [show (0 + (policy.budgetMs : ℚ) / 1000) * 1000 = policy.budgetMs by ring] at honce
  apply Program.Performs.cons
  simp only [Program.handle_done, Program.onValue_ok, hleft]
  exact honce

theorem guardedPost_once (url : String) (payload : Dict) {x : Exchange}
    (hattempts : 0 < policy.maxAttempts) (hbudget : 0 < policy.budgetMs)
    (hend : ∀ response delay, conclude py policy x = .ok (response, delay) →
      response.failure.retryable = false) :
    (guardedPost py policy url payload).Performs (onceThrough policy url payload x)
      (.done ((conclude py policy x).map Prod.fst)) := by
  have hloop := attemptLoop_once url payload hattempts hbudget hend
  apply Program.Performs.cons
  apply hloop.handle
  apply Program.Performs.cons
  exact .nil _

variable (baseUrl path : String) (check : RiskCheck) {x : Exchange}

theorem assess_raised {e : Exn} (hattempts : 0 < policy.maxAttempts)
    (hbudget : 0 < policy.budgetMs) (hconclude : conclude py policy x = .error e) :
    (assess py policy baseUrl path check).Performs
      (onceThrough policy (address baseUrl path) (riskPayload check) x) (.done (.error e)) := by
  have hend : ∀ response delay, conclude py policy x = .ok (response, delay) →
      response.failure.retryable = false := by
    intro response delay hok
    cases hconclude.symm.trans hok
  have honce := guardedPost_once (address baseUrl path) (riskPayload check) hattempts hbudget hend
  rw [hconclude] at honce
  apply Program.Performs.handle_ends (r := .error e)
  · exact honce.handle_ends rfl
  · rfl

theorem assess_answered {response : JsonResponse} {delay : Option PyFloat}
    (hattempts : 0 < policy.maxAttempts) (hbudget : 0 < policy.budgetMs)
    (hconclude : conclude py policy x = .ok (response, delay))
    (hfinal : response.failure.retryable = false) :
    (assess py policy baseUrl path check).Performs
      (onceThrough policy (address baseUrl path) (riskPayload check) x ++
        [⟨.observe (.externalCall policy.service "assess" response.outcomeLabel), ()⟩])
      (.done (.ok (decisionOf response))) := by
  have hend : ∀ response delay, conclude py policy x = .ok (response, delay) →
      response.failure.retryable = false := by
    intro response' delay' hok
    cases hconclude.symm.trans hok
    exact hfinal
  have honce := guardedPost_once (address baseUrl path) (riskPayload check) hattempts hbudget hend
  rw [hconclude] at honce
  apply Program.Performs.handle_ends (r := .ok response)
  · apply honce.handle
    apply Program.Performs.cons
    exact .nil _
  · rfl

end

end Evenkeel.Infrastructure
