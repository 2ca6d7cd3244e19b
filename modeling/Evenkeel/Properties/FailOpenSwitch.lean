import Evenkeel.Application.UnassessedMovements
import Evenkeel.Infrastructure.CommittedEntries
import Evenkeel.Setup.Configuration

/-!
# The Fail-Open Switch

`RiskConfig.fail_open` is documented as what decides whether a movement may go on without an
assessment. The interactors are told something else: `move_money_settings` reads
`MovementPolicyConfig.risk_fail_open`, and nothing reads the field of the risk section.
-/

namespace Evenkeel.Properties

open Evenkeel.Application Evenkeel.Effects Evenkeel.Infrastructure Evenkeel.Python Evenkeel.Setup

section

variable {α : Type} (i : ℕ) (t : List (Occurrence Op Resp)) (Q : Pool deployment Exn α)

/-- An assessment of request `i` came back `UNAVAILABLE`. -/
def Unassessed : Prop :=
  ∃ check decision, ⟨.assess check, .ok decision⟩ ∈ Pool.ownEvents i t ∧
    decision.outcome = .unavailable

/-- Request `i` has called the service, or is about to make its first operation. -/
def ReachesService : Prop :=
  (∃ event ∈ Pool.ownEvents i t, event.1.OfService = true) ∨
    ∃ op resume, Q.clients i = .request op resume ∧ op.OfService = true

/-- Request `i` has ended in `DEPENDENCY_UNAVAILABLE`, or has only its metric to record. -/
def EndsUnavailable : Prop :=
  Q.clients i = .done (.error riskUnavailable) ∨
    ∃ o resume, Q.clients i = .request (.observe o) resume

end

/-- In a run of the deployment the risk port answers what the adapter that is wired to it can
    end in. -/
def Wired (py : Interpreter) (config : RiskConfig) : Pool.Guard deployment Exn Answer :=
  fun _ _ o _ => ∀ i check r, o = .answered i ⟨.assess check, r⟩ →
    ∃ u, (riskAssessment py config check).Performs u (.done r)

/-- The claim of the documentation: in every run of a deployment that is wired from these
    settings, `risk.fail_open` decides what becomes of a movement that was not assessed. -/
def SwitchDecides (settings : Settings) : Prop :=
  ∀ (py : Interpreter) (requests : ℕ → Request) (now : Instant) (db : Database)
    (idempotency : Entries Receipt) (t : List (Occurrence Op Resp))
    (Q : Pool deployment Exn Answer),
    Pool.RunUnder (Wired py settings.risk) (arrivals movementSettings
      (moveMoneySettings settings.movements) requests (World.start now db idempotency)) t Q →
    ∀ i c, requests i = .deposit c ∨ requests i = .withdraw c → Unassessed i t →
      (ReachesService i t Q ↔ settings.risk.failOpen = true) ∧
      (settings.risk.failOpen = false →
        EndsUnavailable i Q ∧ ∀ commit ∈ Q.world.commits, commit.1 ≠ i)

/-! ## The switch that is wired -/

section

variable {requests : ℕ → Request} {service : WalletMovementSettings}
  {settings : MoveMoneySettings} {G : Pool.Guard deployment Exn Answer} {now : Instant}
  {db : Database} {idempotency : Entries Receipt} {t : List (Occurrence Op Resp)}
  {Q : Pool deployment Exn Answer} {i : ℕ}

theorem unassessed_iff : Unassessed i t ↔ (Pool.ownEvents i t).any Unassesses = true := by
  rw [List.any_eq_true]
  constructor
  · intro h
    obtain ⟨check, decision, hmem, houtcome⟩ := h
    exact ⟨_, hmem, by simp [Unassesses, RiskDecision.available, houtcome]⟩
  · intro h
    obtain ⟨⟨op, x⟩, hmem, hunassesses⟩ := h
    cases op with
    | assess check =>
      cases x with
      | ok decision =>
        refine ⟨check, decision, hmem, ?_⟩
        simpa [Unassesses, RiskDecision.available] using hunassesses
      | error e => cases hunassesses
    | _ => cases hunassesses

/-- A request that has not called the service has committed nothing. -/
theorem not_committed_of_run
    (hrun : Pool.RunUnder G
      (arrivals service settings requests (World.start now db idempotency)) t Q)
    (hnone : (Pool.ownEvents i t).any (·.1.OfService) = false) :
    ∀ commit ∈ Q.world.commits, commit.1 ≠ i := by
  intro commit hcommit hi
  obtain ⟨x, hx⟩ := performed_of_run hrun commit hcommit
  rw [hi] at hx
  have hservice := List.any_eq_false.mp hnone _ hx
  exact hservice rfl

/-- Either interactor keeps to the contract of its switch. -/
theorem movement_switched (service : WalletMovementSettings) {request : Request}
    {c : MovementCommand}
    (hrequest : request = .deposit c ∨ request = .withdraw c) :
    (switched settings.riskFailOpen).wp (request.program service settings)
      (Concludes settings.riskFailOpen) Progress.start := by
  -- both movements run alike
  have hmoved : ∀ metricName movement, (switched settings.riskFailOpen).wp
      (Answer.moved <$> run service settings metricName movement)
      (Concludes settings.riskFailOpen) Progress.start := by
    intro metricName movement
    apply Contract.wp_bind.mpr
    apply Contract.wp_mono _ run_switched
    intro r s hconcludes
    cases r with
    | ok result =>
      intro hunassessed
      obtain ⟨hcalled, hrefused⟩ := hconcludes hunassessed
      exact ⟨hcalled, fun hclosed => nomatch hrefused hclosed⟩
    | error e =>
      intro hunassessed
      obtain ⟨hcalled, hrefused⟩ := hconcludes hunassessed
      refine ⟨hcalled, fun hclosed => ?_⟩
      cases hrefused hclosed
      rfl
  rcases hrequest with rfl | rfl
  · exact hmoved _ _
  · exact hmoved _ _

/-- What the interactors are told is what decides. -/
theorem told_switch_decides
    (hrun : Pool.RunUnder G
      (arrivals service settings requests (World.start now db idempotency)) t Q)
    {c : MovementCommand} (hrequest : requests i = .deposit c ∨ requests i = .withdraw c)
    (hunassessed : Unassessed i t) :
    (ReachesService i t Q ↔ settings.riskFailOpen = true) ∧
      (settings.riskFailOpen = false →
        EndsUnavailable i Q ∧ ∀ commit ∈ Q.world.commits, commit.1 ≠ i) := by
  -- how far the client has come, as the contract of its program says
  have hrest := Contract.of_tracking (movement_switched service hrequest)
    (hrun.performs i) fun _ _ => trivial
  have hstate : ((Pool.ownEvents i t).foldl Progress.next .start).unassessed = true := by
    rw [unassessed_foldl, unassessed_iff.mp hunassessed, Bool.or_true]
  have hcalled : ((Pool.ownEvents i t).foldl Progress.next .start).called = true ↔
      ∃ event ∈ Pool.ownEvents i t, event.1.OfService = true := by
    simp [called_foldl, Progress.start]
  -- a client that does not reach the service commits nothing
  have hcommits : settings.riskFailOpen = false → ¬ReachesService i t Q →
      ∀ commit ∈ Q.world.commits, commit.1 ≠ i := by
    intro _ hreaches
    apply not_committed_of_run hrun
    by_contra hany
    rw [Bool.not_eq_false, List.any_eq_true] at hany
    exact hreaches (.inl hany)
  cases hclient : Q.clients i with
  | done r =>
    -- it has ended
    rw [hclient] at hrest
    obtain ⟨hiff, hends⟩ := hrest hstate
    have hreaches : ReachesService i t Q ↔ settings.riskFailOpen = true := by
      apply Iff.trans _ (hcalled.symm.trans hiff)
      simp [ReachesService, hclient]
    refine ⟨hreaches, fun hclosed => ⟨.inl ?_, ?_⟩⟩
    · rw [hclient, hends hclosed]
    · exact hcommits hclosed (by simp [hreaches, hclosed])
  | request op resume =>
    -- it is still under way
    rw [hclient] at hrest
    obtain ⟨hiff, hends⟩ := hrest.1 hstate
    have hreaches : ReachesService i t Q ↔ settings.riskFailOpen = true := by
      apply Iff.trans _ ((or_congr_left hcalled).symm.trans hiff)
      simp [ReachesService, hclient]
    refine ⟨hreaches, fun hclosed => ⟨.inr ?_, ?_⟩⟩
    · obtain ⟨o, rfl⟩ := hends hclosed
      exact ⟨o, resume, hclient⟩
    · exact hcommits hclosed (by simp [hreaches, hclosed])

end

/-! ## The switch that is documented -/

private def full : RiskDecision := ⟨.unavailable, Failure.bulkheadFull.value, ""⟩

/-- A provider whose bulkhead is full cannot tell. -/
private theorem assess_full (py : Interpreter) (policy : TransportPolicy)
    (baseUrl path : String) (check : RiskCheck) :
    ∃ u, (assess py policy baseUrl path check).Performs u
      (.done (.ok full)) :=
  ⟨[⟨.enterBulkhead policy.bulkhead, .ok false⟩, ⟨.exitBulkhead, .ok ()⟩,
    ⟨.observe (.externalCall policy.service "assess" Failure.bulkheadFull.value), ()⟩],
    .cons _ (.cons _ (.cons _ (.nil _)))⟩

private theorem wired_of_unavailable {config : RiskConfig} {decision : RiskDecision}
    (h : ∀ check, ∃ u, (riskAssessment Sample.deaf config check).Performs u (.done (.ok decision)))
    {t : List (Occurrence Op Resp)} {Q R : Pool deployment Exn Answer} {i : ℕ}
    {check : RiskCheck} :
    Wired Sample.deaf config t Q (.answered i ⟨.assess check, .ok decision⟩) R := by
  intro j check' r ho
  cases ho
  exact h check

/-- The deposit of a customer, up to the answer of a provider that is not available. -/
theorem unassessed_of_http {settings : Settings} (hhttp : settings.risk.provider = httpRisk) :
    ∃ t Q, Pool.RunUnder (Wired Sample.deaf settings.risk)
      (arrivals movementSettings (moveMoneySettings settings.movements)
        (fun _ => .deposit ⟨Sample.wallet.id, Sample.owner, Sample.euro, "", none⟩)
        (World.start 0 Sample.database fun _ => none)) t Q ∧ Unassessed 0 t := by
  obtain ⟨risk, ⟨enabled, limit, window, failOpen⟩⟩ := settings
  -- the provider is at its capacity for every check
  have hunavailable : ∀ check, ∃ u, (riskAssessment Sample.deaf risk check).Performs u
      (.done (.ok full)) := by
    intro check
    rw [riskAssessment, if_neg (not_not.mpr hhttp)]
    exact assess_full _ _ _ _ check
  have h : Pool.RunUnder (Wired Sample.deaf risk) (arrivals movementSettings
      (moveMoneySettings ⟨enabled, limit, window, failOpen⟩)
      (fun _ => .deposit ⟨Sample.wallet.id, Sample.owner, Sample.euro, "", none⟩)
      (World.start 0 Sample.database fun _ => none)) [] _ := .nil
  cases enabled with
  | false =>
    have h := h.answer 0 rfl (.ok full) _
      (.inl ⟨⟨_, rfl⟩, rfl⟩) (wired_of_unavailable hunavailable)
    exact ⟨_, _, h, _, full, Pool.mem_ownEvents_snoc, rfl⟩
  | true =>
    -- the rate limit is consumed from, and says so, before the provider is asked
    have h := h.answer 0 rfl (.ok ⟨true, 0, 0⟩) _ (.inl ⟨⟨_, rfl⟩, rfl⟩)
      fun i check r ho => nomatch ho
    have h := h.answer 0 rfl () _ (.inl rfl) fun i check r ho => nomatch ho
    have h := h.answer 0 rfl (.ok full) _
      (.inl ⟨⟨_, rfl⟩, rfl⟩) (wired_of_unavailable hunavailable)
    exact ⟨_, _, h, _, full, Pool.mem_ownEvents_snoc, rfl⟩

/-- Without a provider every movement is assessed. -/
theorem not_unassessed_of_allowAll {py : Interpreter} {config : RiskConfig}
    (hallow : config.provider ≠ httpRisk) {P Q : Pool deployment Exn Answer}
    {t : List (Occurrence Op Resp)} {i : ℕ} (hrun : Pool.RunUnder (Wired py config) P t Q) :
    ¬Unassessed i t := by
  intro h
  obtain ⟨check, decision, hmem, houtcome⟩ := h
  induction hrun with
  | nil => cases hmem
  | @snoc t Q R o _ hstep hwired ih =>
    rw [Pool.ownEvents_append, List.mem_append] at hmem
    rcases hmem with hbefore | hlast
    · exact ih hbefore
    · obtain rfl := Pool.eq_of_mem_ownEvents_singleton hlast
      obtain ⟨u, hu⟩ := hwired _ _ _ rfl
      rw [riskAssessment, if_pos hallow] at hu
      cases hu
      cases houtcome

/-- The documented switch decides only where no provider is wired that could be unavailable,
    or where the other switch has been set alike. -/
theorem documented_switch_decides (settings : Settings) : SwitchDecides settings ↔
    settings.risk.provider ≠ httpRisk ∨
      settings.risk.failOpen = settings.movements.riskFailOpen := by
  constructor
  · intro hdecides
    by_contra hnot
    rw [not_or, not_not] at hnot
    obtain ⟨hhttp, hdiffer⟩ := hnot
    obtain ⟨t, Q, hrun, hunassessed⟩ := unassessed_of_http hhttp
    have hdocumented := (hdecides _ _ _ _ _ t Q hrun 0 _ (.inl rfl) hunassessed).1
    have htold := (told_switch_decides hrun (.inl rfl) hunassessed).1
    apply hdiffer
    rw [Bool.eq_iff_iff]
    exact hdocumented.symm.trans htold
  · intro hwhen py requests now db idempotency t Q hrun i c hrequest hunassessed
    rcases hwhen with hallow | hsame
    · exact absurd hunassessed (not_unassessed_of_allowAll hallow hrun)
    · rw [hsame]
      exact told_switch_decides hrun hrequest hunassessed

/-! ## A switch that is set and does nothing -/

/-- A provider is wired, and its configuration says to let movements through. -/
private def letThrough : Settings where
  risk :=
    { provider := httpRisk
      baseUrl := "https://risk.example"
      failOpen := true
      httpNeedsADestination := fun _ => by decide }

theorem set_switch_does_nothing : ¬SwitchDecides letThrough := by
  intro hdecides
  have hhttp : letThrough.risk.provider = httpRisk := rfl
  obtain ⟨t, Q, hrun, hunassessed⟩ := unassessed_of_http hhttp
  have hdocumented := (hdecides _ _ _ _ _ t Q hrun 0 _ (.inl rfl) hunassessed).1
  have htold := (told_switch_decides hrun (.inl rfl) hunassessed).1
  exact absurd (htold.mp (hdocumented.mpr rfl)) (by decide)

end Evenkeel.Properties
