import Evenkeel.Infrastructure.RetryDiscipline

/-!
# How Long a Call Can Be

The attempt loop on a clock, from the moment a call is let in. With a timeout on every attempt
it is over once all attempts have timed out and all sleeps between them were at the cap, and in
any case at the end of the budget.

- `TransportPolicy.longestMs`: that long
- `TransportPolicy.Timed`: every attempt has a timeout
- `Within`: what a call's log says of the time since it was let in

## Key Results

- `Within.step`: every operation of the loop keeps within it
- `Within.now_le`: so no call is longer
-/

namespace Evenkeel.Infrastructure

open Evenkeel.Application Evenkeel.Effects Evenkeel.Python

/-- The longest that the loop can take, in milliseconds, where attempts have a timeout. -/
def TransportPolicy.longestMs (policy : TransportPolicy) : ℤ :=
  if policy.maxAttempts ≤ 0 ∨ policy.budgetMs ≤ 0 then 0
  else min policy.budgetMs (policy.maxAttempts * policy.totalTimeoutMs +
    (policy.maxAttempts - 1) * max 0 policy.backoffMaxMs)

/-- Every attempt that is made has a timeout. -/
def TransportPolicy.Timed (policy : TransportPolicy) : Prop :=
  policy.maxAttempts ≤ 0 ∨ policy.budgetMs ≤ 0 ∨ 0 < policy.totalTimeoutMs

/-- The number of sleeps so far: one behind every call, but for the last if nothing was slept
    since. -/
def CallLog.naps (log : CallLog) : ℕ :=
  if log.nap.isSome then log.calls.length else log.calls.length - 1

/-- What the calls and the sleeps so far can have taken, in milliseconds. -/
def CallLog.spentMs (policy : TransportPolicy) (log : CallLog) : ℤ :=
  log.calls.length * policy.totalTimeoutMs + log.naps * max 0 policy.backoffMaxMs

/-- A call that was let in at `entered` has not taken longer than it can. -/
structure Within (policy : TransportPolicy) (entered : ℚ) (log : CallLog) : Prop where
  begun : entered ≤ log.now
  spent : log.now ≤ entered + log.spentMs policy / 1000
  fresh : log.calls = [] → log.nap = none
  made : log.calls ≠ [] → log.calls.length ≤ policy.maxAttempts ∧
    log.naps < policy.maxAttempts ∧ 0 < policy.budgetMs ∧
    log.now ≤ entered + policy.budgetMs / 1000

section

variable {py : Interpreter} {policy : TransportPolicy} {entered : ℚ} {log log' : CallLog}
  {op : WireOp} {x : WireResp op}

theorem within_start (policy : TransportPolicy) (entered : ℚ) :
    Within policy entered ⟨entered, [], none⟩ := by
  refine ⟨le_refl _, ?_, fun _ => rfl, fun h => absurd rfl h⟩
  simp [CallLog.spentMs, CallLog.naps]

/-- A policy that allows of an attempt has a timeout for it. -/
theorem TransportPolicy.Timed.pos (h : policy.Timed) (hattempts : 0 < policy.maxAttempts)
    (hbudget : 0 < policy.budgetMs) : 0 < policy.totalTimeoutMs := by
  rcases h with hnone | hover | htimeout
  · omega
  · omega
  · exact htimeout

theorem TransportPolicy.Timed.longestMs_nonneg (h : policy.Timed) : 0 ≤ policy.longestMs := by
  unfold TransportPolicy.longestMs
  split
  · exact le_refl 0
  · rename_i hsome
    simp only [not_or, not_le] at hsome
    have htotal := h.pos hsome.1 hsome.2
    have hcalls : 0 ≤ policy.maxAttempts * policy.totalTimeoutMs :=
      mul_nonneg hsome.1.le htotal.le
    have hnaps : 0 ≤ (policy.maxAttempts - 1) * max 0 policy.backoffMaxMs :=
      mul_nonneg (by omega) (le_max_left _ _)
    exact le_min hsome.2.le (by omega)

/-- No call is longer than it can be. -/
theorem Within.now_le (h : Within policy entered log) (htimed : policy.Timed) :
    log.now ≤ entered + policy.longestMs / 1000 := by
  by_cases hcalls : log.calls = []
  · -- no call was made, so no time was spent
    have hspent : log.spentMs policy = 0 := by
      simp [CallLog.spentMs, CallLog.naps, hcalls, h.fresh hcalls]
    have hlongest : (0 : ℚ) ≤ policy.longestMs := by exact_mod_cast htimed.longestMs_nonneg
    have hnow := h.spent
    rw [hspent] at hnow
    push_cast at hnow
    linarith
  · obtain ⟨hlength, hnaps, hbudget, hdeadline⟩ := h.made hcalls
    have hattempts : 0 < policy.maxAttempts := by omega
    have htotal := htimed.pos hattempts hbudget
    -- the calls and the naps between them
    have hspent : log.spentMs policy ≤ policy.maxAttempts * policy.totalTimeoutMs +
        (policy.maxAttempts - 1) * max 0 policy.backoffMaxMs := by
      apply add_le_add
      · exact mul_le_mul_of_nonneg_right hlength htotal.le
      · exact mul_le_mul_of_nonneg_right (by omega) (le_max_left _ _)
    have hlongest : (policy.longestMs : ℚ) = min (policy.budgetMs : ℚ)
        ((policy.maxAttempts * policy.totalTimeoutMs +
          (policy.maxAttempts - 1) * max 0 policy.backoffMaxMs : ℤ) : ℚ) := by
      have hsome : ¬(policy.maxAttempts ≤ 0 ∨ policy.budgetMs ≤ 0) := by omega
      rw [TransportPolicy.longestMs, if_neg hsome, Int.cast_min]
    -- as the clock says
    have hspentNow : log.now ≤ entered + ((policy.maxAttempts * policy.totalTimeoutMs +
        (policy.maxAttempts - 1) * max 0 policy.backoffMaxMs : ℤ) : ℚ) / 1000 := by
      have hcast : (log.spentMs policy : ℚ) ≤ ((policy.maxAttempts * policy.totalTimeoutMs +
          (policy.maxAttempts - 1) * max 0 policy.backoffMaxMs : ℤ) : ℚ) := by
        exact_mod_cast hspent
      have hnow := h.spent
      linarith
    rw [hlongest]
    -- the shorter of the two bounds
    rcases min_choice (policy.budgetMs : ℚ) ((policy.maxAttempts * policy.totalTimeoutMs +
      (policy.maxAttempts - 1) * max 0 policy.backoffMaxMs : ℤ) : ℚ) with hmin | hmin
    · rw [hmin]
      exact hdeadline
    · rw [hmin]
      exact hspentNow

/-- One more attempt. -/
theorem Within.post {later total : ℚ} {call : Exchange} (h : Within policy entered log)
    (htimed : policy.Timed) (hcall : log.MayCall py policy (entered + policy.budgetMs / 1000))
    (htotal : total = min (policy.totalTimeoutMs : ℚ)
      ((entered + policy.budgetMs / 1000 - log.now) * 1000) / 1000)
    (hlater : log.now ≤ later) (htimeout : 0 < total → later ≤ log.now + total) :
    Within policy entered ⟨later, log.calls ++ [call], none⟩ := by
  obtain ⟨hbefore, hmore, hbehind⟩ := hcall
  have hbegun := h.begun
  -- a call within the deadline leaves the budget positive
  have hbudget : 0 < policy.budgetMs := by
    have hpositive : (0 : ℚ) < policy.budgetMs := by linarith
    exact_mod_cast hpositive
  have hpositive : (0 : ℚ) < policy.totalTimeoutMs := by
    exact_mod_cast htimed.pos (by omega) hbudget
  have hmin := min_le_right (policy.totalTimeoutMs : ℚ)
    ((entered + policy.budgetMs / 1000 - log.now) * 1000)
  have hmin' := min_le_left (policy.totalTimeoutMs : ℚ)
    ((entered + policy.budgetMs / 1000 - log.now) * 1000)
  -- the client ends it by its timeout
  have hends : later ≤ log.now + total := by
    apply htimeout
    have := lt_min hpositive (show 0 < (entered + policy.budgetMs / 1000 - log.now) * 1000 by
      linarith)
    linarith
  -- every call before this one was slept behind
  have hnaps : log.naps = log.calls.length := by
    unfold CallLog.naps
    by_cases hcalls : log.calls = []
    · simp [hcalls]
    · have hlast : log.calls.getLast? = some (log.calls.getLast hcalls) :=
        List.getLast?_eq_some_getLast hcalls
      obtain ⟨-, began, seconds, hnap, -⟩ := hbehind _ hlast
      simp [hnap]
  have hnaps' : (⟨later, log.calls ++ [call], none⟩ : CallLog).naps = log.calls.length := by
    simp [CallLog.naps]
  refine ⟨hbegun.trans hlater, ?_, fun hnone => absurd hnone (by simp), ?_⟩
  · -- one call more, and no nap
    have hspent := h.spent
    unfold CallLog.spentMs at hspent ⊢
    rw [hnaps] at hspent
    rw [hnaps']
    simp only [List.length_append, List.length_singleton]
    push_cast at hspent ⊢
    linarith
  · -- the deadline is kept
    intro _
    rw [hnaps']
    refine ⟨?_, by omega, hbudget, ?_⟩
    · simp only [List.length_append, List.length_singleton]
      push_cast
      omega
    · show later ≤ _
      linarith

/-- One more sleep. -/
theorem Within.sleep {later seconds : ℚ} (h : Within policy entered log)
    (hsleep : log.MaySleep py policy (entered + policy.budgetMs / 1000) seconds)
    (hlater : log.now ≤ later) (hawake : later ≤ log.now + max 0 seconds) :
    Within policy entered ⟨later, log.calls, some (log.now, seconds)⟩ := by
  obtain ⟨hnap, hmore, hleft, hcap, y, delay, hy, -⟩ := hsleep
  -- a nap comes behind a call
  have hcalls : log.calls ≠ [] := by
    intro hnone
    rw [hnone] at hy
    cases hy
  obtain ⟨hlength, -, hbudget, hdeadline⟩ := h.made hcalls
  have hpositive : 1 ≤ log.calls.length := List.length_pos_iff.mpr hcalls
  have hnaps : log.naps = log.calls.length - 1 := by simp [CallLog.naps, hnap]
  have hnaps' : (⟨later, log.calls, some (log.now, seconds)⟩ : CallLog).naps =
      log.calls.length := by simp [CallLog.naps]
  -- it is no longer than the cap
  have hmax : max 0 seconds ≤ max 0 (policy.backoffMaxMs : ℚ) / 1000 := by
    apply max_le
    · have := le_max_left 0 (policy.backoffMaxMs : ℚ)
      linarith
    · linarith
  refine ⟨h.begun.trans hlater, ?_, fun hnone => absurd hnone hcalls, ?_⟩
  · -- one nap more, and no call
    have hspent := h.spent
    unfold CallLog.spentMs at hspent ⊢
    rw [hnaps] at hspent
    rw [hnaps']
    push_cast [Nat.cast_sub hpositive] at hspent ⊢
    linarith
  · intro _
    rw [hnaps']
    refine ⟨hlength, hmore, hbudget, ?_⟩
    -- and it ends before the deadline
    have hwithin : max 0 seconds ≤ entered + policy.budgetMs / 1000 - log.now :=
      max_le (by linarith) hleft.le
    show later ≤ _
    linarith

/-- The step lemma: whatever the loop does next, and however long that takes. -/
theorem Within.step (h : Within policy entered log) (htimed : policy.Timed)
    (hallowed : (disciplined py policy (entered + policy.budgetMs / 1000)).allowed log op)
    (hstep : log.Step op x log') : Within policy entered log' := by
  obtain ⟨later, htakes, rfl⟩ := hstep
  have hsame : later = log.now → Within policy entered { log with now := later } := by
    rintro rfl
    exact h
  cases op with
  | post url payload timeout =>
    obtain ⟨hcall, rfl⟩ := hallowed
    exact h.post htimed hcall rfl htakes.le htakes.1
  | sleep seconds =>
    cases x with
    | ok _ =>
      have hlater : later = log.now + max 0 seconds := htakes
      have hmax := le_max_left 0 seconds
      exact h.sleep hallowed (by linarith) hlater.le
    | error e => exact h.sleep hallowed htakes.1 htakes.2
  | monotonic => exact hsame htakes.2
  | uniform ceiling => exact hsame htakes.2.2
  | _ => exact hallowed.elim

end

end Evenkeel.Infrastructure
