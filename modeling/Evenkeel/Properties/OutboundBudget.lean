import Evenkeel.Infrastructure.RetryDiscipline
import Evenkeel.Infrastructure.RiskAssessment

/-!
# The Budget of an Outbound Call

The attempt loop shortens every attempt to what is left of the budget. `aiohttp` takes a total
timeout of zero or less for none, so that a policy with such a timeout has no budget either.
-/

namespace Evenkeel.Properties

open Evenkeel.Application Evenkeel.Effects Evenkeel.Infrastructure Evenkeel.Python

/-! ## How long a call takes -/

/-- An answer that ends a call, whatever the policy. -/
private def turnedAway : HttpResponse := ⟨400, none, [], by simp⟩

private theorem conclude_turnedAway (py : Interpreter) (policy : TransportPolicy) :
    conclude py policy (.response turnedAway) =
      .ok (⟨some 400, none, .clientError⟩, none) := by
  simp [conclude, classify, turnedAway, retryAfterMs]

/-- One attempt that is turned away at `later`. -/
private def turned (policy : TransportPolicy) (url : String) (payload : Dict) :
    List (Event WireOp WireResp) :=
  [⟨.monotonic, (0 : ℚ)⟩, ⟨.monotonic, (0 : ℚ)⟩,
    ⟨.post url payload (attemptTimeout policy policy.budgetMs), .response turnedAway⟩]

private theorem performs_turned (policy : TransportPolicy) (py : Interpreter) (url : String)
    (payload : Dict) (hbudget : 0 < policy.budgetMs) (hattempts : 0 < policy.maxAttempts) :
    (attemptLoop py policy url payload).Performs (turned policy url payload)
      (.done (.ok ⟨some 400, none, .clientError⟩)) := by
  have hend : ∀ response delay,
      conclude py policy (.response turnedAway) = .ok (response, delay) →
      response.failure.retryable = false := by
    intro response delay hok
    rw [conclude_turnedAway] at hok
    cases hok
    rfl
  have hperforms := attemptLoop_once url payload hattempts hbudget hend
  rwa [conclude_turnedAway] at hperforms

private theorem follows_turned {policy : TransportPolicy} (url : String) (payload : Dict)
    {later : ℚ} (hpermits : (attemptTimeout policy policy.budgetMs).Permits 0 later) :
    Follows CallLog.Step ⟨0, [], none⟩ (turned policy url payload)
      ⟨later, [.response turnedAway], none⟩ :=
  ⟨_, ⟨0, ⟨rfl, rfl⟩, rfl⟩, _, ⟨0, ⟨rfl, rfl⟩, rfl⟩, _, ⟨later, hpermits, rfl⟩, rfl⟩

/-- Without a total, the answer can come behind the deadline: a second if silences are not cut
    off at once, and otherwise as late as the connection. -/
private theorem permits_overrun {policy : TransportPolicy} (hbudget : 0 < policy.budgetMs)
    (htotal : policy.totalTimeoutMs ≤ 0)
    (hloose : 0 ≤ policy.readTimeoutMs ∨ policy.connectTimeoutMs ≤ 0 ∨
      policy.budgetMs < policy.connectTimeoutMs) :
    ∃ later, (attemptTimeout policy policy.budgetMs).Permits 0 later ∧
      (policy.budgetMs : ℚ) / 1000 < later := by
  have hpositive : (0 : ℚ) < policy.budgetMs := by exact_mod_cast hbudget
  -- the client sets no limit on the whole call
  have hunlimited : ¬ 0 < (attemptTimeout policy policy.budgetMs).total := by
    have hle : min (policy.totalTimeoutMs : ℚ) policy.budgetMs ≤ policy.totalTimeoutMs :=
      min_le_left _ _
    have hzero : (policy.totalTimeoutMs : ℚ) ≤ 0 := by exact_mod_cast htotal
    simp only [attemptTimeout]
    linarith
  -- the provider sends something now and then
  rcases hloose with hread | hconnect | hlate
  · refine ⟨policy.budgetMs / 1000 + 1, ?_, by linarith⟩
    apply ClientTimeout.Permits.of_heard
    · have hread : (0 : ℚ) ≤ policy.readTimeoutMs := by exact_mod_cast hread
      simp only [attemptTimeout]
      linarith
    · linarith
    · exact fun h => absurd h hunlimited
  · -- there is no limit on the connection either
    refine ⟨policy.budgetMs / 1000 + 1, ?_, by linarith⟩
    apply ClientTimeout.Permits.of_connecting
    · linarith
    · intro h
      have hnone : (policy.connectTimeoutMs : ℚ) ≤ 0 := by exact_mod_cast hconnect
      simp only [attemptTimeout] at h
      linarith
    · exact fun h => absurd h hunlimited
  · -- or one that ends after the budget
    have hlater : (policy.budgetMs : ℚ) < policy.connectTimeoutMs := by exact_mod_cast hlate
    refine ⟨policy.connectTimeoutMs / 1000, ?_, by linarith⟩
    apply ClientTimeout.Permits.of_connecting
    · linarith
    · intro _
      simp [attemptTimeout]
    · exact fun h => absurd h hunlimited

/-- No call takes longer than its budget, whatever the provider does and however the backoff
    comes out. -/
def KeepsBudget (py : Interpreter) (policy : TransportPolicy) (url : String) (payload : Dict) :
    Prop :=
  ∀ start t r log, (attemptLoop py policy url payload).Performs t (.done r) →
    Follows CallLog.Step ⟨start, [], none⟩ t log → log.now - start ≤ policy.budgetMs / 1000

/-- The budget is kept where attempts have a positive total timeout, or are none; and nowhere
    else, unless every attempt is cut off as soon as it is connected, within the budget. -/
theorem budget_bounds_call_iff {policy : TransportPolicy} (hbudget : 0 < policy.budgetMs)
    (py : Interpreter) (url : String) (payload : Dict) :
    (0 < policy.totalTimeoutMs ∨ policy.maxAttempts ≤ 0 → KeepsBudget py policy url payload) ∧
    (KeepsBudget py policy url payload →
      (0 < policy.totalTimeoutMs ∨ policy.maxAttempts ≤ 0) ∨
        policy.readTimeoutMs < 0 ∧ 0 < policy.connectTimeoutMs ∧
          policy.connectTimeoutMs ≤ policy.budgetMs) := by
  constructor
  · -- every step keeps the deadline
    intro hpolicy start t r log hperforms hfollows
    have hstart : start ≤ start + (policy.budgetMs : ℚ) / 1000 := by
      have : (0 : ℚ) < policy.budgetMs := by exact_mod_cast hbudget
      linarith
    have hnow := Contract.invariant_of_follows
      (I := fun log : CallLog => log.now ≤ start + (policy.budgetMs : ℚ) / 1000)
      (attemptLoop_disciplined url payload start) hstart
      (fun log op x log' hnow hallowed hstep => now_le_of_step hpolicy hnow hallowed hstep)
      hperforms hfollows
    linarith
  · -- otherwise one call overruns it
    intro hkeeps
    by_contra hneither
    simp only [not_or, not_lt, not_le, not_and] at hneither
    obtain ⟨⟨htotal, hattempts⟩, hcut⟩ := hneither
    -- a client that cuts both reads and connections in time is left out
    have hloose : 0 ≤ policy.readTimeoutMs ∨ policy.connectTimeoutMs ≤ 0 ∨
        policy.budgetMs < policy.connectTimeoutMs := by
      by_contra hstrict
      simp only [not_or, not_le, not_lt] at hstrict
      obtain ⟨hread, hconnect, hwithin⟩ := hstrict
      exact absurd (hcut hread hconnect) (not_lt.mpr hwithin)
    obtain ⟨later, hpermits, hlate⟩ := permits_overrun hbudget htotal hloose
    have hle := hkeeps 0 _ _ _ (performs_turned policy py url payload hbudget hattempts)
      (follows_turned url payload hpermits)
    simp only at hle
    linarith

private def defaults : TransportPolicy where
  service := "risk"

theorem budget_bounds_call_iff_defaults :
    (attemptLoop Sample.deaf defaults "http://risk/assess" []).Performs
        (turned defaults "http://risk/assess" []) (.done (.ok ⟨some 400, none, .clientError⟩)) ∧
      (1 / 2 : ℚ) - 0 ≤ (1500 : ℤ) / 1000 := by
  have hperforms := performs_turned defaults Sample.deaf "http://risk/assess" []
    (by decide) (by decide)
  refine ⟨hperforms, ?_⟩
  apply (@budget_bounds_call_iff defaults (by decide) Sample.deaf "http://risk/assess" []).1
    (.inl (by decide)) 0 _ _ ⟨1 / 2, [.response turnedAway], none⟩ hperforms
  apply follows_turned
  apply ClientTimeout.Permits.of_heard
  · norm_num [attemptTimeout, defaults]
  · norm_num
  · norm_num [attemptTimeout, defaults]

private def unlimited : TransportPolicy where
  service := "risk"
  totalTimeoutMs := 0

/-- A provider that answers after two and a half seconds, and is heard of every half second. -/
private theorem heard_dribbling : Heard (700 / 1000) 0 [1 / 2, 1, 3 / 2, 2] (5 / 2) := by
  norm_num [Heard]

/-- With a total timeout of zero, a call with a budget of 1.5 seconds takes 2.5, and no silence
    in it is as long as the read timeout. -/
theorem call_outlives_its_budget :
    ∃ t r log, (attemptLoop Sample.deaf unlimited "http://risk/assess" []).Performs t (.done r) ∧
      Follows CallLog.Step ⟨0, [], none⟩ t log ∧ 0 < unlimited.budgetMs ∧
      ¬log.now - 0 ≤ unlimited.budgetMs / 1000 := by
  have hpermits : (attemptTimeout unlimited unlimited.budgetMs).Permits 0 (5 / 2) := by
    refine ⟨fun htotal => ?_, 0, le_rfl, fun _ => ?_, _, heard_dribbling⟩
    · norm_num [attemptTimeout, unlimited] at htotal
    · norm_num [attemptTimeout, unlimited]
  refine ⟨_, _, _, performs_turned unlimited Sample.deaf "http://risk/assess" []
    (by decide) (by decide), follows_turned "http://risk/assess" [] hpermits, by decide, ?_⟩
  norm_num [unlimited]

/-! ## What a call may do next -/

end Evenkeel.Properties
