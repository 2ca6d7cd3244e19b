import Evenkeel.Application.RiskPolicy

/-!
# Movements Nobody Has Assessed

What `_MovementInteractor._run` does once the risk port has answered `UNAVAILABLE`.

- `Op.OfService`: the operations of a movement that only the service performs
- `switched`: the contract, whose state says how far the movement has come

## Key Results

- `run_switched`: the interactor keeps to the contract
- `unassessed_foldl`, `called_foldl`: what its state says of the operations so far
-/

namespace Evenkeel.Application

open Evenkeel.Domain Evenkeel.Effects

/-! ## How far a movement has come -/

/-- An operation that the interactor leaves to the service. -/
def Op.OfService : Op → Bool
  | .consume .. => false
  | .assess _ => false
  | .observe _ => false
  | _ => true

/-- The risk port has answered that it cannot tell. -/
def Unassesses : Event Op Resp → Bool
  | ⟨.assess _, .ok decision⟩ => !decision.available
  | _ => false

structure Progress where
  unassessed : Bool
  /-- The service has been called. -/
  called : Bool

def Progress.start : Progress := ⟨false, false⟩

def Progress.next (s : Progress) (event : Event Op Resp) : Progress :=
  ⟨s.unassessed || Unassesses event, s.called || event.1.OfService⟩

/-- Only the risk port says so. -/
theorem Progress.next_of_ne {s : Progress} {op : Op} (hop : ∀ check, op ≠ .assess check)
    (x : Resp op) : s.next ⟨op, x⟩ = ⟨s.unassessed, s.called || op.OfService⟩ := by
  cases op with
  | assess check => exact absurd rfl (hop check)
  | _ => simp [Progress.next, Unassesses]

theorem unassessed_foldl (t : List (Event Op Resp)) (s : Progress) :
    (t.foldl Progress.next s).unassessed = (s.unassessed || t.any Unassesses) := by
  induction t generalizing s with
  | nil => simp
  | cons event t ih => simp [ih, Progress.next, Bool.or_assoc]

theorem called_foldl (t : List (Event Op Resp)) (s : Progress) :
    (t.foldl Progress.next s).called = (s.called || t.any (·.1.OfService)) := by
  induction t generalizing s with
  | nil => simp
  | cons event t ih => simp [ih, Progress.next, Bool.or_assoc]

/-! ## The contract -/

/-- What a movement ends in that may not go on unassessed. -/
def riskUnavailable : Exn :=
  .application ⟨.dependencyUnavailable, .dependencyUnavailable, [("dependency", .text "risk")]⟩

/-- Behind the answer `UNAVAILABLE` the service is called if the movement may go on, and
    nothing but a metric is recorded if it may not. -/
def switched (failOpen : Bool) : Contract Op Resp :=
  .tracking (fun _ => True) Progress.next fun s op =>
    s.unassessed = true → ((s.called = true ∨ op.OfService = true) ↔ failOpen = true) ∧
      (failOpen = false → ∃ o, op = .observe o)

/-- How such a movement ends. -/
def Concludes {α : Type} (failOpen : Bool) (r : Except Exn α) (s : Progress) : Prop :=
  s.unassessed = true → (s.called = true ↔ failOpen = true) ∧
    (failOpen = false → r = .error riskUnavailable)

section

variable {failOpen : Bool}

/-- Before the answer nothing is asked of a movement. -/
theorem permits_before (op : Op) (hop : ∀ check, op ≠ .assess check)
    (hservice : op.OfService = false) :
    Permits (switched failOpen) (· = Progress.start) (fun _ => True) op := by
  intro s hs
  subst hs
  constructor
  · intro hunassessed
    cases hunassessed
  · intro x s' hstep
    obtain ⟨-, rfl⟩ := hstep
    refine ⟨?_, fun _ _ => trivial⟩
    rw [Progress.next_of_ne hop, hservice]
    rfl

/-- Once the service is called, it does as it likes. -/
theorem permits_called {u : Bool} (hopen : u = true → failOpen = true) (op : Op)
    (hop : ∀ check, op ≠ .assess check) :
    Permits (switched failOpen) (· = ⟨u, true⟩) (fun _ => True) op := by
  intro s hs
  subst hs
  constructor
  · intro hunassessed
    have hfail := hopen hunassessed
    simp [hfail]
  · intro x s' hstep
    obtain ⟨-, rfl⟩ := hstep
    refine ⟨?_, fun _ _ => trivial⟩
    rw [Progress.next_of_ne hop, Bool.true_or]

theorem service_called {u : Bool} (hopen : u = true → failOpen = true)
    (service : WalletMovementSettings) (request : MovementRequest) :
    (switched failOpen).Keeps (· = ⟨u, true⟩) (fun _ => True) (apply service request) := by
  have hpermits : ∀ op : Op, op.Claims ∨ op.Moves →
      Permits (switched failOpen) (· = ⟨u, true⟩) (fun _ => True) op := by
    intro op hop
    apply permits_called hopen
    intro check hassess
    subst hassess
    exact hop.elim id id
  apply apply_keeps service request _ _ fun _ _ => trivial
  · exact fun op hop => hpermits op (.inl hop)
  · exact fun op hop => hpermits op (.inr hop)

/-- Its first operation calls it. -/
theorem apply_calls {u : Bool} (hopen : u = true → failOpen = true)
    (service : WalletMovementSettings) (request : MovementRequest) :
    (switched failOpen).wp (apply service request) (fun _ s => s = ⟨u, true⟩) ⟨u, false⟩ := by
  obtain ⟨op, resume, hprogram, hop⟩ := apply_begins service request
  have hservice : op.OfService = true := by
    rcases hop with ⟨key, ttl, rfl⟩ | ⟨ttl, wait, rfl⟩ <;> rfl
  have hkeeps := service_called hopen service request ⟨u, true⟩ rfl
  rw [hprogram] at hkeeps ⊢
  constructor
  · intro hunassessed
    have hfail := hopen hunassessed
    simp [hservice, hfail]
  · intro x s' hstep
    obtain ⟨-, rfl⟩ := hstep
    -- the state is the one that the same answer leads to from a call that has begun
    have hnext : Progress.next ⟨u, false⟩ ⟨op, x⟩ = Progress.next ⟨u, true⟩ ⟨op, x⟩ := by
      simp [Progress.next, hservice]
    rw [hnext]
    apply Contract.wp_mono _ (hkeeps.2 x _ ⟨trivial, rfl⟩)
    exact fun r s h => h.1

end

/-! ## The interactor -/

section

variable {service : WalletMovementSettings} {settings : MoveMoneySettings} {metricName : String}
  {request : MovementRequest}

theorem limited_before :
    (switched settings.riskFailOpen).Keeps (· = Progress.start) (fun _ => True)
      (limited settings metricName request) := by
  unfold limited
  split
  · apply Contract.keeps_bind
    · exact (permits_before (.consume ..) (by simp) rfl).keeps fun | _, _, rfl => rfl
    · intro decision
      apply Contract.keeps_bind
      · exact (permits_before (.observe _) (by simp) rfl).keeps nofun
      · intro _
        split <;> exact Contract.keeps_ok _
  · exact Contract.keeps_ok _

/-- How the body of the `try` ends. -/
def Leaves (failOpen : Bool) (r : Except Exn (String × Except Exn MovementResult))
    (s : Progress) : Prop :=
  s.unassessed = true → (s.called = true ↔ failOpen = true) ∧
    (failOpen = false → ∃ label, r = .ok (label, .error riskUnavailable))

theorem attempt_leaves :
    (switched settings.riskFailOpen).wp (attempt service settings metricName request)
      (Leaves settings.riskFailOpen) Progress.start := by
  apply Contract.wp_bind_of_keeps limited_before
  · intro refusal
    cases refusal with
    | some refusal =>
      -- rate limited: nothing was assessed
      intro hunassessed
      cases hunassessed
    | none =>
      -- the assessment
      apply Contract.wp_bind.mpr
      constructor
      · intro hunassessed
        cases hunassessed
      · intro x s hstep
        obtain ⟨-, rfl⟩ := hstep
        cases x with
        | error e =>
          -- an error of the adapter is no assessment that came out unavailable
          intro hunassessed
          cases hunassessed
        | ok decision =>
          show (switched settings.riskFailOpen).wp
            (if decision.outcome = .refused then _ else _) _ ⟨!decision.available, false⟩
          split
          · -- a refusal is an assessment
            rename_i hrefused
            intro hunassessed
            simp [RiskDecision.available, hrefused] at hunassessed
          · split
            · -- unavailable, and the switch is closed: the movement stops here
              rename_i hclosed
              simp only [Bool.and_eq_true, Bool.not_eq_true'] at hclosed
              intro _
              simp [hclosed.2, riskUnavailable]
            · -- either the assessment is there or the switch is open
              rename_i hopen
              simp only [Bool.and_eq_true, Bool.not_eq_true', not_and,
                Bool.not_eq_false] at hopen
              have hcalls :=
                apply_calls (u := !decision.available) (by simpa using hopen) service request
              apply Contract.wp_bind.mpr
              apply Contract.wp_mono _ hcalls
              intro r s hs
              subst hs
              -- so an unassessed movement that got here found the switch open
              have hleaves : ∀ r, Leaves settings.riskFailOpen r ⟨!decision.available, true⟩ := by
                intro r hunassessed
                have hfail := hopen (by simpa using hunassessed)
                simp [hfail]
              cases r with
              | ok outcome => exact hleaves _
              | error e => exact hleaves _
  · -- the limiter raises
    intro e he hunassessed
    cases hunassessed

theorem observe_keeps (failOpen : Bool) (o : Observation) {α : Type} {r : Except Exn α}
    {s : Progress} (h : Concludes failOpen r s) :
    (switched failOpen).wp (Ports.observe o >>= fun _ => .done r) (Concludes failOpen) s := by
  constructor
  · intro hunassessed
    obtain ⟨hcalled, -⟩ := h hunassessed
    exact ⟨by simpa [Op.OfService] using hcalled, fun _ => ⟨o, rfl⟩⟩
  · intro x s' hstep
    obtain ⟨-, rfl⟩ := hstep
    have hnext : s.next ⟨.observe o, x⟩ = s := by
      rw [Progress.next_of_ne (by simp), Op.OfService, Bool.or_false]
    rw [hnext]
    exact h

theorem run_switched :
    (switched settings.riskFailOpen).wp (run service settings metricName request)
      (Concludes settings.riskFailOpen) Progress.start := by
  apply Contract.wp_handle.mpr
  apply Contract.wp_mono _ attempt_leaves
  intro r s hleaves
  cases r with
  | ok outcome =>
    apply observe_keeps
    intro hunassessed
    obtain ⟨hcalled, hrefused⟩ := hleaves hunassessed
    refine ⟨hcalled, fun hclosed => ?_⟩
    obtain ⟨label, houtcome⟩ := hrefused hclosed
    cases houtcome
    rfl
  | error e =>
    apply observe_keeps
    intro hunassessed
    obtain ⟨hcalled, hrefused⟩ := hleaves hunassessed
    refine ⟨hcalled, fun hclosed => ?_⟩
    obtain ⟨label, houtcome⟩ := hrefused hclosed
    cases houtcome

end

end Evenkeel.Application
