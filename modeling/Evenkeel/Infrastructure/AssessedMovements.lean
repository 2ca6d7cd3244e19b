import Evenkeel.Application.RiskPolicy
import Evenkeel.Infrastructure.RiskAssessment

/-!
# Movements That Are Assessed over HTTP

The interactor of a movement with the HTTP adapter in the place of the risk port: one program
over the other ports and the operations of the transport.

- `NetOp`, `overHttp`, `assessedRun`: the program
- `failClosedOnWire`: its contract, whose state is the list of exchanges with the provider

## Key Results

- `assessedRun_wp`: the program keeps to the contract
-/

namespace Evenkeel.Infrastructure

open Evenkeel.Application Evenkeel.Effects Evenkeel.Python

/-! ## The program -/

inductive NetOp where
  | port (op : Op)
  | wire (op : WireOp)

abbrev NetResp : NetOp → Type
  | .port op => Resp op
  | .wire op => WireResp op

/-- The answer by which operation `op` raises `e`, if it can. -/
def netFailure (e : Exn) : (op : NetOp) → Option (NetResp op)
  | .port op => failure e op
  | .wire op => wireFailure e op

/-- The exchanges with the provider. -/
def netExchanged (exchanges : List Exchange) : Event NetOp NetResp → List Exchange
  | ⟨.port _, _⟩ => exchanges
  | ⟨.wire op, x⟩ => exchanged exchanges ⟨op, x⟩

section

variable (py : Interpreter) (policy : TransportPolicy) (baseUrl path : String)

/-- The adapter takes the place of the risk port; the other ports stay. -/
def overHttp : (op : Op) → Program NetOp NetResp Exn (Resp op)
  | .assess check =>
    ((assess py policy baseUrl path check).expand fun op => .call (NetOp.wire op)).settle
  | op => Program.call (NetOp.port op)

/-- `_MovementInteractor._run`, with `HttpRiskAssessment` as its risk port. -/
def assessedRun (service : WalletMovementSettings) (settings : MoveMoneySettings)
    (metricName : String) (request : MovementRequest) :
    Program NetOp NetResp Exn MovementResult :=
  (run service settings metricName request).expand (overHttp py policy baseUrl path)

/-! ## The contract -/

/-- The operations that come before the call of the service. -/
def Preliminary : NetOp → Prop
  | .port (.consume ..) => True
  | .port (.observe _) => True
  | .port _ => False
  | .wire _ => True

/-- Nothing is done for a movement unless the exchange that was made last allowed it, and no
    attempt is made behind one that something came of. The ports and the network raise what is
    in `E`. -/
def failClosedOnWire (E : Exn → Prop) : Contract NetOp NetResp :=
  .tracking (fun event => ∀ e, netFailure e event.1 = some event.2 → E e) netExchanged
    fun exchanges op =>
    (¬Preliminary op → LastSays py policy "allow" exchanges) ∧
      ∀ url payload timeout, op = .wire (.post url payload timeout) →
        ∀ x ∈ exchanges, x.Failed py policy

/-- What the answer of the risk port says about the exchanges. -/
def Rests (v : Verdict) (exchanges : List Exchange) : Prop :=
  match v with
  | none => exchanges = []
  | some (.ok decision) => (decision.outcome = .allowed → LastSays py policy "allow" exchanges) ∧
      (decision.outcome = .refused → LastSays py policy "refuse" exchanges)
  | some (.error _) => True

end

section

variable {py : Interpreter} {policy : TransportPolicy} {baseUrl path : String}
  {E : Exn → Prop} {exchanges : List Exchange}

theorem Rests.last {v : Verdict} {word : String} {outcome : RiskOutcome}
    (h : Rests py policy v exchanges) (his : v.Is outcome)
    (hword : outcome = .allowed ∧ word = "allow" ∨ outcome = .refused ∧ word = "refuse") :
    LastSays py policy word exchanges := by
  obtain ⟨decision, rfl, houtcome⟩ := his
  obtain ⟨hallow, hrefuse⟩ := h
  rcases hword with ⟨rfl, rfl⟩ | ⟨rfl, rfl⟩
  · exact hallow houtcome
  · exact hrefuse houtcome

/-- An operation of the transport as one of the whole program. -/
def onWire (event : Event WireOp WireResp) : Event NetOp NetResp := ⟨.wire event.1, event.2⟩

theorem performs_onWire {α : Type} {p q : WireM α} {t : List (Event WireOp WireResp)}
    (h : p.Performs t q) :
    (p.expand fun op => .call (NetOp.wire op)).Performs (t.map onWire)
      (q.expand fun op => .call (NetOp.wire op)) := by
  induction h with
  | nil p => exact .nil _
  | cons x _ ih =>
    apply Program.Performs.cons
    exact ih

/-- An assessment answers the risk port with whatever it ends in. -/
theorem performs_assess {α : Type} {check : RiskCheck} {t : List (Event WireOp WireResp)}
    {r : Except Exn RiskDecision} (resume : Except Exn RiskDecision → AppM α)
    (h : (assess py policy baseUrl path check).Performs t (.done r)) :
    (Program.expand (overHttp py policy baseUrl path) (.request (.assess check) resume)).Performs
      (t.map onWire) ((resume r).expand (overHttp py policy baseUrl path)) := by
  have hsettled := (performs_onWire h).handle_ends (f := fun r => .done (.ok r)) rfl
  have hnext := hsettled.handle (f := Program.onValue fun x =>
    (resume x).expand (overHttp py policy baseUrl path)) (.nil _)
  rwa [List.append_nil] at hnext

/-- Any other port is asked as it stands. -/
theorem performs_port {α : Type} (op : Op) (hop : ∀ check, op ≠ .assess check) (x : Resp op)
    (resume : Resp op → AppM α) :
    (Program.expand (overHttp py policy baseUrl path) (.request op resume)).Performs
      [⟨.port op, x⟩] ((resume x).expand (overHttp py policy baseUrl path)) := by
  cases op with
  | assess check => exact absurd rfl (hop check)
  | _ =>
    apply Program.Performs.cons
    exact .nil _

/-- The adapter, in the midst of the other ports. -/
theorem lifted_wp {check : RiskCheck} (hfailed : ∀ x ∈ exchanges, x.Failed py policy) :
    (failClosedOnWire py policy E).wp
      ((assess py policy baseUrl path check).expand fun op => .call (NetOp.wire op))
      (fun r s' => ∃ u, Judges py policy E r u ∧ u = s') exchanges := by
  apply Contract.wp_expand (D := retrying py policy E) _ (assess_judges hfailed) rfl
  intro u s op hrel hallowed
  subst hrel
  constructor
  · constructor
    · intro hnot
      exact absurd trivial hnot
    · intro url payload timeout hop
      cases hop
      exact hallowed
  · intro x s' hstep
    exact ⟨x, s', rfl, hstep, rfl⟩

theorem overHttp_wp (hE : ∀ e, Unrefused e → E e) {v : Verdict} {op : Op}
    (hrests : Rests py policy v exchanges)
    (hallowed : (failClosed E).allowed v op) :
    (failClosedOnWire py policy E).wp (overHttp py policy baseUrl path op)
      (fun r s' => ∃ x v', r = .ok x ∧ (failClosed E).step v op x v' ∧ Rests py policy v' s')
      exchanges := by
  cases op with
  | assess check =>
    -- the port asks the provider; that comes first, so nothing has been exchanged yet
    have hnone : v = none := hallowed
    subst hnone
    have hempty : exchanges = [] := hrests
    subst hempty
    apply Contract.wp_handle.mpr
    apply Contract.wp_mono _ (lifted_wp (by simp))
    intro r s' hjudges
    obtain ⟨u, hjudges, rfl⟩ := hjudges
    refine ⟨r, some r, rfl, ⟨?_, rfl⟩, ?_⟩
    · intro e he
      obtain rfl : Except.error e = r := Option.some.inj he
      -- an error is what the transport raised, or one that a hostile answer leads to
      rcases hjudges with hraised | ⟨cause, x, rfl, -, -⟩
      · exact hraised
      · apply hE
        cases cause <;> simp [Exn.ofJson, Unrefused, Exn.code]
    · -- a decision was read from the last exchange
      cases r with
      | ok decision => exact hjudges.2
      | error e => trivial
  | _ =>
    -- the other ports exchange nothing with the provider
    refine ⟨⟨?_, ?_⟩, ?_⟩
    · intro hnot
      first
        | exact absurd trivial hnot
        | exact hrests.last hallowed (.inl ⟨rfl, rfl⟩)
    · intro url payload timeout hop
      cases hop
    · intro x s' hstep
      obtain ⟨hraises, rfl⟩ := hstep
      exact ⟨x, v, rfl, ⟨hraises, rfl⟩, hrests⟩

theorem assessedRun_wp (hE : ∀ e, Unrefused e → E e) {service : WalletMovementSettings}
    {settings : MoveMoneySettings} {metricName : String} {request : MovementRequest}
    (hclosed : settings.riskFailOpen = false) :
    (failClosedOnWire py policy E).wp
      (assessedRun py policy baseUrl path service settings metricName request)
      (fun r s => ∀ e, r = .error e → E e ∨ LastSays py policy "refuse" s) [] := by
  have hrun : (failClosed E).wp (run service settings metricName request) (Justified E) none :=
    run_justified hE hclosed
  have hexpanded := Contract.wp_expand (C := failClosedOnWire py policy E)
    (g := overHttp py policy baseUrl path) (fun v s op hrests hallowed =>
      overHttp_wp hE hrests hallowed) hrun (s := []) rfl
  apply Contract.wp_mono _ hexpanded
  intro r s hr e herror
  obtain ⟨v, hjustified, hrests⟩ := hr
  rcases hjustified e herror with hraised | hrefused
  · exact .inl hraised
  · exact .inr (hrests.last hrefused (.inr ⟨rfl, rfl⟩))

end

end Evenkeel.Infrastructure
