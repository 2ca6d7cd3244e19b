import Evenkeel.Application.ServiceOperations

/-!
# The Risk Policy of a Movement

What `_MovementInteractor._run` promises about the answer of the risk provider, whatever its
ports answer, where movements that cannot be assessed are refused.

- `failClosed`: the contract, whose state is the answer of the provider
- `Justified`: a movement is reported as refused only if the provider refused it

## Key Results

- `apply_begins`: the service begins with an operation that shows
- `run_justified`: the interactor keeps to the contract
-/

namespace Evenkeel.Application

open Evenkeel.Domain Evenkeel.Effects

/-! ## The contract -/

/-- What the provider has answered, if it has been asked. -/
abbrev Verdict : Type := Option (Except Exn RiskDecision)

/-- The provider was asked, and this came of it. -/
def Verdict.Is (v : Verdict) (outcome : RiskOutcome) : Prop :=
  ∃ decision, v = some (.ok decision) ∧ decision.outcome = outcome

/-- Before the provider has allowed the movement, nothing is done but to consume from the rate
    limit, to record metrics and to ask the provider, once. The ports raise what is in `E`. -/
def failClosed (E : Exn → Prop) : Contract Op Resp :=
  .tracking (fun event => ∀ e, failure e event.1 = some event.2 → E e)
    (fun (v : Verdict) event =>
      match event with
      | ⟨.assess _, x⟩ => some x
      | _ => v)
    fun v op =>
      match op with
      | .consume .. => True
      | .observe _ => True
      | .assess _ => v = none
      | _ => v.Is .allowed

/-- A result is an exception of `E`, or the provider has refused the movement. -/
def Justified {α : Type} (E : Exn → Prop) (r : Except Exn α) (v : Verdict) : Prop :=
  ∀ e, r = .error e → E e ∨ v.Is .refused

/-! ## Programs that do not ask -/

section

variable {E : Exn → Prop} {v : Verdict}

theorem permits_of_allowed (op : Op) (hop : ∀ check, op ≠ .assess check)
    (hallowed : (failClosed E).allowed v op) : Permits (failClosed E) (· = v) E op := by
  intro s hs
  subst hs
  refine ⟨hallowed, ?_⟩
  intro x s' hstep
  obtain ⟨hraises, rfl⟩ := hstep
  constructor
  · cases op with
    | assess check => exact absurd rfl (hop check)
    | _ => rfl
  · exact hraises

/-- Once the movement is allowed, the service may do as it likes: it does not ask again. -/
theorem service_keeps (hallowed : v.Is .allowed) (service : WalletMovementSettings)
    (request : MovementRequest) (hE : ∀ e, Unrefused e → E e) :
    (failClosed E).Keeps (· = v) E (apply service request) := by
  have hpermits : ∀ op : Op, op.Claims ∨ op.Moves → Permits (failClosed E) (· = v) E op := by
    intro op hop
    apply permits_of_allowed op
    · intro check hassess
      subst hassess
      exact hop.elim id id
    · cases op with
      | assess check => exact (hop.elim id id : False).elim
      | consume => trivial
      | observe => trivial
      | _ => exact hallowed
  apply apply_keeps service request _ _ fun e he => hE e he.own.1
  · exact fun op hop => hpermits op (.inl hop)
  · exact fun op hop => hpermits op (.inr hop)

end

/-- The first operation of the service is none of those that come before its call. -/
theorem apply_begins (service : WalletMovementSettings) (request : MovementRequest) :
    ∃ op resume, apply service request = .request op resume ∧
      ((∃ key ttl, op = .reserve key (fingerprint request) ttl) ∨
        ∃ ttl wait, op = .enterLock (lockKey request.walletId) ttl wait) := by
  unfold apply claim
  cases request.idempotencyKey with
  | none => exact ⟨_, _, rfl, .inr ⟨_, _, rfl⟩⟩
  | some key => exact ⟨_, _, rfl, .inl ⟨_, _, rfl⟩⟩

/-! ## The interactor -/

section

variable {service : WalletMovementSettings} {settings : MoveMoneySettings} {metricName : String}
  {request : MovementRequest} {E : Exn → Prop} (hE : ∀ e, Unrefused e → E e)

/-- A rate limit that is exceeded is no refusal. -/
def Unblamed (E : Exn → Prop) : Except Exn (Option (String × Exn)) → Prop
  | .ok none => True
  | .ok (some (_, e)) => E e
  | .error e => E e

/-- What the body of the `try` ends in: a result that is justified, or what a port raised. -/
def Settles (E : Exn → Prop) (r : Except Exn (String × Except Exn MovementResult))
    (v : Verdict) : Prop :=
  match r with
  | .ok (_, result) => Justified E result v
  | .error e => E e

theorem Justified.error {α : Type} {e : Exn} {v : Verdict} (he : E e) :
    Justified E (.error e : Except Exn α) v := by
  intro e' heq
  cases heq
  exact .inl he

include hE

theorem limited_unblamed (v : Verdict) :
    (failClosed E).wp (limited settings metricName request)
      (fun r v' => v' = v ∧ Unblamed E r) v := by
  unfold limited
  split
  · apply Contract.wp_bind_of_keeps (E := E)
    · exact (permits_of_allowed (.consume ..) (by simp) trivial).keeps fun | _, _, rfl => rfl
    · intro decision
      apply Contract.wp_bind_of_keeps (E := E)
      · exact (permits_of_allowed (.observe _) (by simp) trivial).keeps nofun
      · intro _
        split
        · exact ⟨rfl, trivial⟩
        · exact ⟨rfl, hE _ (by simp [Unrefused, Exn.code])⟩
      · exact fun e he => ⟨rfl, he⟩
    · exact fun e he => ⟨rfl, he⟩
  · exact ⟨rfl, trivial⟩

theorem attempt_settles (hclosed : settings.riskFailOpen = false) :
    (failClosed E).wp (attempt service settings metricName request) (Settles E) none := by
  apply Contract.wp_bind.mpr
  apply Contract.wp_mono _ (limited_unblamed hE none)
  intro r v hr
  obtain ⟨rfl, hblame⟩ := hr
  cases r with
  -- the limiter raised
  | error e => exact hblame
  | ok refusal =>
    cases refusal with
    -- rate limited, and the provider was never asked
    | some refusal => exact Justified.error hblame
    | none =>
      -- the provider is asked
      apply Contract.wp_bind.mpr
      refine ⟨rfl, ?_⟩
      intro x v hstep
      obtain ⟨hraises, rfl⟩ := hstep
      cases x with
      -- the adapter raised: the error is its own
      | error e => exact hraises e rfl
      | ok decision =>
        show (failClosed E).wp (if decision.outcome = .refused then _ else _) (Settles E) _
        split
        · -- a refusal of the provider
          rename_i hrefused
          intro e _
          exact .inr ⟨decision, rfl, hrefused⟩
        · rename_i hrefused
          split
          · -- unavailable, and the policy is closed
            exact Justified.error (hE _ (by simp [Unrefused, Exn.code]))
          · rename_i havailable
            -- nothing is left but an answer that allows it
            have hallowed : Verdict.Is (some (.ok decision)) .allowed := by
              refine ⟨decision, rfl, ?_⟩
              cases houtcome : decision.outcome with
              | allowed => rfl
              | refused => exact absurd houtcome hrefused
              | unavailable => simp [RiskDecision.available, houtcome, hclosed] at havailable
            apply Contract.wp_bind_of_keeps (service_keeps hallowed service request hE)
            · intro outcome e he
              cases he
            · exact fun e he => he

theorem run_justified (hclosed : settings.riskFailOpen = false) :
    (failClosed E).wp (run service settings metricName request) (Justified E) none := by
  apply Contract.wp_handle.mpr
  apply Contract.wp_mono _ (attempt_settles hE hclosed)
  intro r v hsettles
  have hobserve : ∀ o, (failClosed E).Keeps (· = v) E (Ports.observe o) := fun o =>
    (permits_of_allowed (.observe o) (by simp) trivial).keeps nofun
  cases r with
  | ok outcome =>
    apply Contract.wp_bind_of_keeps (hobserve _)
    · exact fun _ => hsettles
    · exact fun e he => Justified.error he
  | error e =>
    apply Contract.wp_bind_of_keeps (hobserve _)
    · exact fun _ => Justified.error hsettles
    · exact fun e he => Justified.error he

end

end Evenkeel.Application
