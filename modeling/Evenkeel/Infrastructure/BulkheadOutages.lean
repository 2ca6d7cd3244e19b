import Evenkeel.Infrastructure.AssessedMovements

/-!
# Outages of the Bulkhead's Store

An assessment whose bulkhead raises on the way in or on the way out, and a movement over it that
may go on unassessed.

- `Outage`, `Sheltered`: the bulkhead has raised, and nothing else on the wire has
- `NetOutage`, `PortUnavailable`: whose 503 it is, the bulkhead's or another port's

## Key Results

- `assess_outage`: an assessment ends in a 503 exactly if there was an outage
- `assessedRun_outage`: and so does a movement that may go on unassessed, unless another port
  has raised one
-/

namespace Evenkeel.Infrastructure

open Evenkeel.Application Evenkeel.Effects Evenkeel.Python

/-! ## Outages -/

/-- The operations of the bulkhead's lease. -/
def WireOp.Guards : WireOp → Prop
  | .enterBulkhead _ => True
  | .exitBulkhead => True
  | _ => False

/-- The bulkhead has raised. -/
def Outage (event : Event WireOp WireResp) : Prop :=
  event.1.Guards ∧ ∃ e, wireFailure e event.1 = some event.2

/-- All that is raised on the wire is the bulkhead's `DependencyUnavailableError`. -/
def Sheltered (event : Event WireOp WireResp) : Prop :=
  ∀ e, wireFailure e event.1 = some event.2 → event.1.Guards ∧ e.Unavailable

/-- The result is an exception that is answered with a 503. -/
def EndsUnavailable {α : Type} : Except Exn α → Prop
  | .ok _ => False
  | .error e => e.Unavailable

theorem not_unavailable_ofJson (cause : JsonError) : ¬(Exn.ofJson cause).Unavailable := by
  intro hunavailable
  obtain ⟨a, ha, -⟩ := hunavailable
  cases cause <;> cases ha

/-! ## An assessment -/

section

variable {py : Interpreter} {policy : TransportPolicy}

/-- No outage yet. -/
def Calm (history : List (Event WireOp WireResp)) : Prop := ∀ event ∈ history, ¬Outage event

theorem calm_append {history : List (Event WireOp WireResp)} {event : Event WireOp WireResp} :
    Calm (history ++ [event]) ↔ Calm history ∧ ¬Outage event := by
  simp only [Calm, List.forall_mem_append, List.forall_mem_singleton]

/-- What is no operation of the lease raises no 503. -/
theorem keeps_calm {α : Type} (op : WireOp) {f : WireResp op → Except Exn α} (hop : ¬op.Guards)
    (hf : ∀ x e, f x = .error e → wireFailure e op = some x ∨ ¬e.Unavailable) :
    (Contract.recording Sheltered).Keeps Calm (fun e => ¬e.Unavailable)
      (.request op fun x => .done (f x)) := by
  intro history hcalm
  refine ⟨trivial, ?_⟩
  intro x history' hstep
  obtain ⟨hsheltered, rfl⟩ := hstep
  constructor
  · exact calm_append.mpr ⟨hcalm, fun houtage => hop houtage.1⟩
  · intro e he
    rcases hf x e he with hraised | hother
    · exact absurd (hsheltered e hraised).1 hop
    · exact hother

theorem monotonic_calm : (Contract.recording Sheltered).Keeps Calm (fun e => ¬e.Unavailable)
    Wire.monotonic :=
  keeps_calm .monotonic id (by simp)

theorem singleAttempt_calm (url : String) (payload : Dict) (remainingMs : ℚ) :
    (Contract.recording Sheltered).Keeps Calm (fun e => ¬e.Unavailable)
      (singleAttempt py policy url payload remainingMs) := by
  apply keeps_calm (.post ..) id
  intro x e he
  have hconcluded : Concluded py policy x (conclude py policy x) := concluded x
  rw [he] at hconcluded
  cases hconcluded with
  | hostile cause _ => exact .inr (not_unavailable_ofJson cause)
  | raised e hx => exact .inl (congrArg some hx.symm)

theorem backoffMs_calm (attempt : ℕ) (delay : Option PyFloat) :
    (Contract.recording Sheltered).Keeps Calm (fun e => ¬e.Unavailable)
      (backoffMs policy attempt delay) := by
  unfold backoffMs
  split
  · exact keeps_calm (.uniform _) id (by simp)
  · exact Contract.keeps_ok _
  · exact Contract.keeps_ok _

theorem attempts_calm {url : String} {payload : Dict} {deadline : ℚ} {left attempt : ℕ}
    {result : JsonResponse} :
    (Contract.recording Sheltered).Keeps Calm (fun e => ¬e.Unavailable)
      (attempts py policy url payload deadline left attempt result) := by
  -- induction on the attempts that are left; only the lease's own operations can be unavailable
  induction left generalizing attempt result with
  | zero => exact Contract.keeps_ok _
  | succ left ih =>
    unfold attempts
    apply Contract.keeps_bind monotonic_calm
    intro now
    dsimp only
    -- the budget is used up
    split
    · exact Contract.keeps_ok _
    · apply Contract.keeps_bind (singleAttempt_calm _ _ _)
      intro concluded
      obtain ⟨result, retryAfter⟩ := concluded
      dsimp only
      -- the answer is final
      split
      · exact Contract.keeps_ok _
      · apply Contract.keeps_bind (backoffMs_calm _ _)
        intro backoff
        apply Contract.keeps_bind monotonic_calm
        intro now
        -- no time for the backoff
        split
        · exact Contract.keeps_ok _
        · apply Contract.keeps_bind
          · exact keeps_calm (.sleep _) (f := id) id (by simp +contextual [wireFailure])
          · intro _
            exact ih

/-- What the lease is asked, and how it answers. -/
theorem guard_outage {α : Type} (op : WireOp) {f : WireResp op → Except Exn α} (hop : op.Guards)
    (hf : ∀ x e, f x = .error e ↔ wireFailure e op = some x)
    {history : List (Event WireOp WireResp)} (hcalm : Calm history) :
    (Contract.recording Sheltered).wp (.request op fun x => .done (f x))
      (fun r history' => Calm history' ↔ ¬EndsUnavailable r) history := by
  refine ⟨trivial, ?_⟩
  intro x history' hstep
  obtain ⟨hsheltered, rfl⟩ := hstep
  show Calm _ ↔ ¬EndsUnavailable (f x)
  rw [calm_append, and_iff_right hcalm, not_iff_not]
  constructor
  · intro houtage
    obtain ⟨-, e, he⟩ := houtage
    rw [(hf x e).mpr he]
    exact (hsheltered e he).2
  · intro hends
    cases hresult : f x with
    | ok a =>
      rw [hresult] at hends
      exact hends.elim
    | error e => exact ⟨hop, e, (hf x e).mp hresult⟩

theorem guardedPost_outage {url : String} {payload : Dict}
    {history : List (Event WireOp WireResp)} (hcalm : Calm history) :
    (Contract.recording Sheltered).wp (guardedPost py policy url payload)
      (fun r history' => Calm history' ↔ ¬EndsUnavailable r) history := by
  apply Contract.wp_bind.mpr
  apply Contract.wp_mono _ (guard_outage (.enterBulkhead policy.bulkhead) (f := id) trivial
    (by simp [wireFailure, eq_comm]) hcalm)
  intro entered history₁ henter
  cases entered with
  | error e => exact henter
  | ok acquired =>
    -- the store let the caller in or not; what runs behind it raises no 503
    have hbody : (Contract.recording Sheltered).Keeps Calm (fun e => ¬e.Unavailable)
        (if acquired then attemptLoop py policy url payload
          else return ⟨none, none, .bulkheadFull⟩) := by
      split
      · apply Contract.keeps_bind monotonic_calm
        intro now
        exact attempts_calm
      · exact Contract.keeps_ok _
    apply Contract.wp_handle.mpr
    apply Contract.wp_mono _ (hbody history₁ (henter.mpr id))
    intro r history₂ hr
    obtain ⟨hcalm₂, hharmless⟩ := hr
    apply Contract.wp_bind.mpr
    apply Contract.wp_mono _ (guard_outage .exitBulkhead (f := id) trivial
      (by simp [wireFailure, eq_comm]) hcalm₂)
    intro left history₃ hexit
    cases left with
    | error e => exact hexit
    | ok _ =>
      -- the lease is given back, and the body's result stands
      refine iff_of_true (hexit.mpr id) ?_
      intro hends
      cases r with
      | ok _ => exact hends
      | error e => exact hharmless e rfl hends

/-- An assessment is a 503 exactly if the bulkhead has raised. -/
theorem assess_outage {baseUrl path : String} {check : RiskCheck}
    {history : List (Event WireOp WireResp)} (hcalm : Calm history) :
    (Contract.recording Sheltered).wp (assess py policy baseUrl path check)
      (fun r history' => Calm history' ↔ ¬EndsUnavailable r) history := by
  apply Contract.wp_bind.mpr
  apply Contract.wp_bind.mpr
  apply Contract.wp_mono _ (guardedPost_outage hcalm)
  intro r history₁ hpost
  cases r with
  | error e => exact hpost
  | ok response =>
    refine ⟨trivial, ?_⟩
    intro x history₂ hstep
    obtain ⟨-, rfl⟩ := hstep
    refine iff_of_true (calm_append.mpr ⟨hpost.mpr id, ?_⟩) id
    exact fun houtage => houtage.1

end

/-! ## A movement, at its ports -/

/-- The assessment was a 503. -/
def Dropped : Event Op Resp → Prop
  | ⟨.assess _, x⟩ => EndsUnavailable x
  | _ => False

/-- Another port has raised a 503. -/
def PortUnavailable : Event Op Resp → Prop
  | ⟨.assess _, _⟩ => False
  | ⟨op, x⟩ => ∃ e, failure e op = some x ∧ e.Unavailable

/-- No assessment was a 503 yet. -/
def Undropped (history : List (Event Op Resp)) : Prop := ∀ event ∈ history, ¬Dropped event

/-- No other port has raised one yet. -/
def Dependable (history : List (Event Op Resp)) : Prop := ∀ event ∈ history, ¬PortUnavailable event

/-- The contract of a movement whose ports raise what is in `E`. -/
def raising (E : Exn → Prop) : Contract Op Resp :=
  .recording fun event => ∀ e, failure e event.1 = some event.2 → E e

/-- What is known of a program that ended before the assessment. -/
def Begun {α : Type} (E : Exn → Prop) (r : Except Exn α) (history : List (Event Op Resp)) : Prop :=
  Undropped history ∧
    match r with
    | .ok _ => Dependable history
    | .error e => E e

section

variable {E : Exn → Prop} {history : List (Event Op Resp)} {event : Event Op Resp}

theorem undropped_append : Undropped (history ++ [event]) ↔ Undropped history ∧ ¬Dropped event := by
  simp only [Undropped, List.forall_mem_append, List.forall_mem_singleton]

theorem dependable_append :
    Dependable (history ++ [event]) ↔ Dependable history ∧ ¬PortUnavailable event := by
  simp only [Dependable, List.forall_mem_append, List.forall_mem_singleton]

/-- Only an assessment can be one that was a 503. -/
theorem permits_undropped (op : Op) (hop : ∀ check, op ≠ .assess check) :
    Permits (raising E) Undropped E op := by
  intro t ht
  refine ⟨trivial, ?_⟩
  intro x t' hstep
  obtain ⟨hraises, rfl⟩ := hstep
  refine ⟨undropped_append.mpr ⟨ht, ?_⟩, hraises⟩
  intro hdropped
  cases op with
  | assess check => exact hop check rfl
  | _ => exact hdropped

theorem service_undropped (service : WalletMovementSettings) (request : MovementRequest)
    (hE : ∀ e, ¬e.Unavailable → E e) :
    (raising E).Keeps Undropped E (apply service request) := by
  have hpermits : ∀ op : Op, op.Claims ∨ op.Moves → Permits (raising E) Undropped E op := by
    intro op hop
    apply permits_undropped
    intro check hassess
    subst hassess
    exact hop.elim id id
  apply apply_keeps service request _ _ fun e he => hE e he.own.2
  · exact fun op hop => hpermits op (.inl hop)
  · exact fun op hop => hpermits op (.inr hop)

variable {service : WalletMovementSettings} {settings : MoveMoneySettings} {metricName : String}
  {request : MovementRequest}

/-- A port goes before the assessment: it answers, or the movement is over. -/
theorem port_begun {α : Type} (op : Op) {f : Resp op → Except Exn α}
    (hop : ∀ check, op ≠ .assess check)
    (hf : ∀ x e, f x = .error e ↔ failure e op = some x) (hundropped : Undropped history)
    (hdependable : Dependable history) :
    (raising E).wp (.request op fun x => .done (f x)) (Begun E) history := by
  obtain ⟨hallowed, hpermits⟩ := permits_undropped (E := E) op hop history hundropped
  refine ⟨hallowed, ?_⟩
  intro x history' hstep
  obtain ⟨hundropped', hraises⟩ := hpermits x history' hstep
  obtain ⟨-, rfl⟩ := hstep
  refine ⟨hundropped', ?_⟩
  -- what the port raises is in the history
  cases hresult : f x with
  | error e => exact hraises e ((hf x e).mp hresult)
  | ok a =>
    -- what it returns was no outage
    refine dependable_append.mpr ⟨hdependable, ?_⟩
    intro hport
    have hraised : ∃ e, failure e op = some x := by
      cases op with
      | assess check => exact absurd rfl (hop check)
      | _ => exact hport.imp fun e he => he.1
    obtain ⟨e, he⟩ := hraised
    cases hresult.symm.trans ((hf x e).mpr he)

theorem limited_begun (hE : ∀ e, ¬e.Unavailable → E e) (hundropped : Undropped history)
    (hdependable : Dependable history) :
    (raising E).wp (limited settings metricName request)
      (fun r history' => Begun E r history' ∧ Unblamed E r) history := by
  unfold limited
  split
  · -- `limiter.consume`
    apply Contract.wp_bind.mpr
    apply Contract.wp_mono _ (port_begun (.consume ..) (f := id) (by simp)
      (by simp [Application.failure, eq_comm]) hundropped hdependable)
    intro r history₁ hbegun
    cases r with
    | error e => exact ⟨hbegun, hbegun.2⟩
    | ok decision =>
      -- the metric of the limiter
      apply Contract.wp_bind.mpr
      apply Contract.wp_mono _ (port_begun (.observe _) (f := fun u => .ok u) (by simp)
        (by simp [Application.failure]) hbegun.1 hbegun.2)
      intro r history₂ hbegun
      cases r with
      | error e => exact ⟨hbegun, hbegun.2⟩
      | ok _ =>
        simp only [Program.onValue_ok]
        split
        · exact ⟨hbegun, trivial⟩
        · -- `RATE_LIMITED` is not a 503
          refine ⟨hbegun, hE _ ?_⟩
          exact (own_application.mpr (by decide)).2
  · exact ⟨⟨hundropped, hdependable⟩, trivial⟩

/-- What is known of a movement in the end: a 503 of the assessment was the first one, and the
    last word. -/
def Outlived {α : Type} (E : Exn → Prop) (r : Except Exn α) (history : List (Event Op Resp)) :
    Prop :=
  match r with
  | .ok _ => Undropped history
  | .error e => E e ∧ (Undropped history ∨ e.Unavailable ∧ Dependable history)

/-- The body of the `try`, with the refusal or the result it hands to the `finally`. -/
def Handed (E : Exn → Prop) (r : Except Exn (String × Except Exn MovementResult))
    (history : List (Event Op Resp)) : Prop :=
  match r with
  | .ok (_, result) => Undropped history ∧ ∀ e, result = .error e → E e
  | .error _ => Outlived E r history

theorem attempt_handed (hE : ∀ e, ¬e.Unavailable → E e) (hopen : settings.riskFailOpen = true) :
    (raising E).wp (attempt service settings metricName request) (Handed E) [] := by
  apply Contract.wp_bind.mpr
  apply Contract.wp_mono _ (limited_begun hE (by simp [Undropped]) (by simp [Dependable]))
  intro r history₁ hbegun
  obtain ⟨hbegun, hblame⟩ := hbegun
  cases r with
  | error e => exact ⟨hbegun.2, .inl hbegun.1⟩
  | ok refusal =>
    cases refusal with
    | some refusal =>
      refine ⟨hbegun.1, ?_⟩
      intro e he
      obtain rfl := Except.error.inj he
      exact hblame
    | none =>
      -- the provider is asked
      apply Contract.wp_bind.mpr
      refine ⟨trivial, ?_⟩
      intro x history₂ hstep
      obtain ⟨hraises, rfl⟩ := hstep
      cases x with
      | error e =>
        -- an exception of the assessment goes through, as an outage of the provider if it is one
        refine ⟨hraises e rfl, ?_⟩
        by_cases hunavailable : e.Unavailable
        · exact .inr ⟨hunavailable, dependable_append.mpr ⟨hbegun.2, id⟩⟩
        · exact .inl (undropped_append.mpr ⟨hbegun.1, hunavailable⟩)
      | ok decision =>
        show (raising E).wp (if decision.outcome = .refused then _ else _) (Handed E) _
        split
        · -- a refusal of the provider is not a 503
          refine ⟨undropped_append.mpr ⟨hbegun.1, id⟩, ?_⟩
          intro e he
          obtain rfl := Except.error.inj he
          apply hE
          simp [Exn.Unavailable, ApplicationError.statusCode, ErrorClass.defaultStatusCode]
        · -- with the switch open the movement is handed to the service
          rw [hopen, Bool.not_true, Bool.and_false]
          apply Contract.wp_bind.mpr
          apply Contract.wp_mono _ (service_undropped service request hE _
            (undropped_append.mpr ⟨hbegun.1, id⟩))
          intro r history₃ hkept
          obtain ⟨hundropped, hraised⟩ := hkept
          cases r with
          | error e => exact ⟨hraised e rfl, .inl hundropped⟩
          | ok outcome =>
            refine ⟨hundropped, ?_⟩
            intro e he
            cases he

theorem run_outlived (hE : ∀ e, ¬e.Unavailable → E e) (hopen : settings.riskFailOpen = true) :
    (raising E).wp (run service settings metricName request) (Outlived E) [] := by
  apply Contract.wp_handle.mpr
  apply Contract.wp_mono _ (attempt_handed hE hopen)
  intro r history₁ hhanded
  cases r with
  | ok labelled =>
    obtain ⟨label, result⟩ := labelled
    -- `_run` observes and passes the result on
    refine ⟨trivial, ?_⟩
    intro x history₂ hstep
    obtain ⟨-, rfl⟩ := hstep
    have hundropped := undropped_append.mpr
      ⟨hhanded.1, show ¬Dropped ⟨.observe _, x⟩ from id⟩
    cases result with
    | ok result => exact hundropped
    | error e => exact ⟨hhanded.2 e rfl, .inl hundropped⟩
  | error e =>
    refine ⟨trivial, ?_⟩
    intro x history₂ hstep
    obtain ⟨-, rfl⟩ := hstep
    refine ⟨hhanded.1, ?_⟩
    rcases hhanded.2 with hundropped | ⟨hunavailable, hdependable⟩
    · exact .inl (undropped_append.mpr ⟨hundropped, id⟩)
    · refine .inr ⟨hunavailable, dependable_append.mpr ⟨hdependable, ?_⟩⟩
      simp [PortUnavailable, Application.failure]

end

/-! ## A movement, over HTTP -/

/-- The bulkhead has raised. -/
def NetOutage : Event NetOp NetResp → Prop
  | ⟨.wire op, x⟩ => Outage ⟨op, x⟩
  | ⟨.port _, _⟩ => False

/-- A port of the movement has raised a 503. -/
def NetUnavailable : Event NetOp NetResp → Prop
  | ⟨.wire _, _⟩ => False
  | ⟨.port op, x⟩ => PortUnavailable ⟨op, x⟩

/-- All that is raised on the wire is the bulkhead's `DependencyUnavailableError`. -/
def NetSheltered : Event NetOp NetResp → Prop
  | ⟨.wire op, x⟩ => Sheltered ⟨op, x⟩
  | ⟨.port _, _⟩ => True

/-- The histories of a movement at its ports and over HTTP have the same 503s. -/
def SameOutages (history : List (Event Op Resp)) (calls : List (Event NetOp NetResp)) : Prop :=
  (Undropped history ↔ ∀ event ∈ calls, ¬NetOutage event) ∧
    (Dependable history ↔ ∀ event ∈ calls, ¬NetUnavailable event)

/-- What is raised in the execution `t`: a 503 is the bulkhead's, or that of a port. -/
def RaisedIn (t : List (Event NetOp NetResp)) (e : Exn) : Prop :=
  e.Unavailable → (∃ event ∈ t, NetOutage event) ∨ ∃ event ∈ t, NetUnavailable event

/-- The contract of an execution `t` calls HTTP. -/
def sheltered (t : List (Event NetOp NetResp)) : Contract NetOp NetResp :=
  .recording fun event => event ∈ t ∧ NetSheltered event

section

variable {py : Interpreter} {policy : TransportPolicy} {baseUrl path : String}
  {t calls : List (Event NetOp NetResp)} {history : List (Event Op Resp)}

theorem SameOutages.append {event : Event Op Resp} {u : List (Event NetOp NetResp)}
    (h : SameOutages history calls) (hdropped : Dropped event ↔ ∃ e ∈ u, NetOutage e)
    (hport : PortUnavailable event ↔ ∃ e ∈ u, NetUnavailable e) :
    SameOutages (history ++ [event]) (calls ++ u) := by
  constructor
  · rw [undropped_append, h.1, List.forall_mem_append, hdropped]
    push Not
    rfl
  · rw [dependable_append, h.2, List.forall_mem_append, hport]
    push Not
    rfl

/-- The operations `u` of the transport are what was done of `t` behind `calls`. -/
def Lifted (t calls : List (Event NetOp NetResp)) (u : List (Event WireOp WireResp))
    (calls' : List (Event NetOp NetResp)) : Prop :=
  calls' = calls ++ u.map onWire ∧ ∀ event ∈ u, onWire event ∈ t

theorem Lifted.append {u : List (Event WireOp WireResp)} {calls' : List (Event NetOp NetResp)}
    {event : Event WireOp WireResp} (h : Lifted t calls u calls') (hevent : onWire event ∈ t) :
    Lifted t calls (u ++ [event]) (calls' ++ [onWire event]) := by
  constructor
  · rw [h.1, List.map_append, List.append_assoc]
    rfl
  · rw [List.forall_mem_append, List.forall_mem_singleton]
    exact ⟨h.2, hevent⟩

theorem lifted_outage (check : RiskCheck) :
    (sheltered t).wp ((assess py policy baseUrl path check).expand fun op => .call (NetOp.wire op))
      (fun r calls' => ∃ u, (Calm u ↔ ¬EndsUnavailable r) ∧ Lifted t calls u calls') calls := by
  apply Contract.wp_expand (D := .recording Sheltered) _
    (assess_outage (show Calm [] by simp [Calm]))
  · exact ⟨(List.append_nil _).symm, by simp⟩
  · intro (u : List (Event WireOp WireResp)) calls' op hlifted _
    refine ⟨trivial, ?_⟩
    intro x calls' hstep
    obtain ⟨⟨hevent, hsheltered⟩, rfl⟩ := hstep
    have hevent : onWire ⟨op, x⟩ ∈ t := hevent
    exact ⟨x, u ++ [⟨op, x⟩], rfl, ⟨hsheltered, rfl⟩, hlifted.append hevent⟩

theorem port_sameOutages (op : Op) (hop : ∀ check, op ≠ .assess check)
    (hsame : SameOutages history calls) :
    (sheltered t).wp (Program.call (NetOp.port op) : Program NetOp NetResp Exn (Resp op))
      (fun r calls' => ∃ x history', r = .ok x ∧
        (raising (RaisedIn t)).step history op x history' ∧ SameOutages history' calls') calls := by
  refine ⟨trivial, ?_⟩
  intro (x : Resp op) calls' hstep
  obtain ⟨⟨hevent, -⟩, rfl⟩ := hstep
  refine ⟨x, history ++ [⟨op, x⟩], rfl, ⟨?_, rfl⟩, hsame.append ?_ ?_⟩
  · intro e he hunavailable
    refine .inr ⟨_, hevent, ?_⟩
    cases op with
    | assess check => exact absurd rfl (hop check)
    | _ => exact ⟨e, he, hunavailable⟩
  · simp only [List.mem_singleton, exists_eq_left]
    cases op with
    | assess check => exact absurd rfl (hop check)
    | _ => rfl
  · simp only [List.mem_singleton, exists_eq_left]
    rfl

theorem overHttp_sameOutages {op : Op} (hsame : SameOutages history calls) :
    (sheltered t).wp (overHttp py policy baseUrl path op)
      (fun r calls' => ∃ x history', r = .ok x ∧
        (raising (RaisedIn t)).step history op x history' ∧ SameOutages history' calls') calls := by
  cases op with
  | assess check =>
    -- the assessment was dropped exactly if an event on the wire was an outage
    apply Contract.wp_handle.mpr
    apply Contract.wp_mono _ (lifted_outage check)
    intro r calls' hassessed
    obtain ⟨u, hends, rfl, hmem⟩ := hassessed
    have houtage : Dropped ⟨.assess check, r⟩ ↔ ∃ event ∈ u.map onWire, NetOutage event := by
      rw [← not_iff_not]
      push Not
      rw [List.forall_mem_map]
      exact hends.symm
    refine ⟨r, history ++ [⟨.assess check, r⟩], rfl, ⟨?_, rfl⟩, hsame.append houtage ?_⟩
    · intro e he hunavailable
      obtain rfl : Except.error e = r := Option.some.inj he
      obtain ⟨event, hevent, hraised⟩ := houtage.mp hunavailable
      obtain ⟨wire, hwire, rfl⟩ := List.mem_map.mp hevent
      exact .inl ⟨onWire wire, hmem wire hwire, hraised⟩
    · -- an assessment is no outage of another port
      refine iff_of_false id ?_
      intro hport
      obtain ⟨event, hevent, hunavailable⟩ := hport
      obtain ⟨wire, -, rfl⟩ := List.mem_map.mp hevent
      exact hunavailable
  | _ => exact port_sameOutages _ (by simp) hsame

/-- A movement that may go on unassessed, calls HTTP. -/
theorem assessedRun_outage {service : WalletMovementSettings} {settings : MoveMoneySettings}
    {metricName : String} {request : MovementRequest} (hopen : settings.riskFailOpen = true) :
    (sheltered t).wp (assessedRun py policy baseUrl path service settings metricName request)
      (fun r calls => ∃ history, Outlived (RaisedIn t) r history ∧
        SameOutages history calls) [] := by
  have hE : ∀ e : Exn, ¬e.Unavailable → RaisedIn t e := fun e he h => absurd h he
  apply Contract.wp_expand (D := raising (RaisedIn t)) _ (run_outlived hE hopen)
  · simp [SameOutages, Undropped, Dependable]
  · intro history calls op hsame _
    exact overHttp_sameOutages hsame

end

end Evenkeel.Infrastructure
