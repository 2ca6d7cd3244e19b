import Mathlib.Data.Rat.Floor
import Mathlib.Tactic.Linarith
import Evenkeel.Infrastructure.OutboundHttp

/-!
# The Attempt Loop on a Clock

`JsonHttpTransport._attempt_loop` where time passes: how long its operations take, and what it
promises before each of them.

- `ClientTimeout.Permits`: how long a request can be
- `Takes`: the time an operation takes, with the answers it can have
- `CallLog`: the clock, the calls that were made, and the sleep since the last of them
- `disciplined`: the contract of the loop
- `Returned`: what a result says about the calls

## Key Results

- `attemptLoop_disciplined`: the loop keeps to the contract, whatever the provider does
-/

namespace Evenkeel.Infrastructure

open Evenkeel.Application Evenkeel.Effects Evenkeel.Python

/-! ## Time -/

/-- Data comes in at these times, with no silence longer than `sock_read`. A timeout of zero is
    none, and a negative one is over at once. -/
def Heard (sockRead : ℚ) : (since : ℚ) → List ℚ → (later : ℚ) → Prop
  | since, [], later => since ≤ later ∧ (sockRead ≠ 0 → later ≤ since + max 0 sockRead)
  | since, t :: arrivals, later =>
    since ≤ t ∧ (sockRead ≠ 0 → t ≤ since + max 0 sockRead) ∧ Heard sockRead t arrivals later

/-- A request that is begun at `now` may end at `later`: `connect` bounds the time until there
    is a connection, `sock_read` every silence on it, and `total` the whole. Only a positive
    `connect` or `total` is a bound. -/
def ClientTimeout.Permits (timeout : ClientTimeout) (now later : ℚ) : Prop :=
  (0 < timeout.total → later ≤ now + timeout.total) ∧
    ∃ connected, now ≤ connected ∧ (0 < timeout.connect → connected ≤ now + timeout.connect) ∧
      ∃ arrivals, Heard timeout.sockRead connected arrivals later

/-- From when to when an operation may go on, with this answer. A request ends when the provider
    likes, within its timeouts; a sleep can be interrupted; nothing else takes any time. -/
def Takes (now : ℚ) : (op : WireOp) → WireResp op → ℚ → Prop
  | .monotonic, t, later => t = now ∧ later = now
  | .post _ _ timeout, _, later => timeout.Permits now later
  | .uniform ceiling, y, later => min 0 ceiling ≤ y ∧ y ≤ max 0 ceiling ∧ later = now
  | .sleep seconds, .ok _, later => later = now + max 0 seconds
  | .sleep seconds, .error _, later => now ≤ later ∧ later ≤ now + max 0 seconds
  | _, _, later => later = now

theorem Heard.le {sockRead since later : ℚ} {arrivals : List ℚ}
    (h : Heard sockRead since arrivals later) : since ≤ later := by
  induction arrivals generalizing since with
  | nil => exact h.1
  | cons t arrivals ih => exact h.1.trans (ih h.2.2)

/-- A provider that is heard of often enough can go on for any time. -/
theorem exists_heard {sockRead since later : ℚ} (hread : 0 ≤ sockRead) (hle : since ≤ later) :
    ∃ arrivals, Heard sockRead since arrivals later := by
  rcases hread.eq_or_lt with rfl | hpos
  · exact ⟨[], hle, fun h => absurd rfl h⟩
  have hmax : max 0 sockRead = sockRead := max_eq_right hpos.le
  have hsteps : ∀ n : ℕ, ∀ since, since ≤ later → later ≤ since + n * sockRead →
      ∃ arrivals, Heard sockRead since arrivals later := by
    intro n
    induction n with
    | zero =>
      intro since hle hend
      refine ⟨[], hle, fun _ => ?_⟩
      rw [Nat.cast_zero, zero_mul] at hend
      linarith
    | succ n ih =>
      intro since hle hend
      rcases le_total later (since + sockRead) with hlast | hmore
      · exact ⟨[], hle, fun _ => hlast.trans_eq (by rw [hmax])⟩
      · obtain ⟨arrivals, harrivals⟩ := ih (since + sockRead) hmore (by push_cast at hend; linarith)
        refine ⟨(since + sockRead) :: arrivals, by linarith, fun _ => ?_, harrivals⟩
        rw [hmax]
  have hceil := Nat.le_ceil ((later - since) / sockRead)
  apply hsteps _ since hle
  rw [div_le_iff₀ hpos] at hceil
  linarith

namespace ClientTimeout.Permits

variable {timeout : ClientTimeout} {now later : ℚ}

theorem le (h : timeout.Permits now later) : now ≤ later := by
  obtain ⟨-, connected, hconnected, -, arrivals, hheard⟩ := h
  exact hconnected.trans hheard.le

/-- The provider can use up the total, if silence is not cut off at once. -/
theorem of_heard (hread : 0 ≤ timeout.sockRead) (hle : now ≤ later)
    (htotal : 0 < timeout.total → later ≤ now + timeout.total) : timeout.Permits now later := by
  obtain ⟨arrivals, hheard⟩ := exists_heard hread hle
  refine ⟨htotal, now, le_rfl, fun hconnect => ?_, arrivals, hheard⟩
  linarith

/-- So can a connection that never comes about. -/
theorem of_connecting (hle : now ≤ later)
    (hconnect : 0 < timeout.connect → later ≤ now + timeout.connect)
    (htotal : 0 < timeout.total → later ≤ now + timeout.total) : timeout.Permits now later := by
  refine ⟨htotal, later, hle, hconnect, [], le_rfl, fun _ => ?_⟩
  have := le_max_left 0 timeout.sockRead
  linarith

end ClientTimeout.Permits

/-- The clock and the calls that were made so far. `nap` is the sleep since the last of them:
    when it began, and what it was to last. -/
structure CallLog where
  now : ℚ
  calls : List Exchange := []
  nap : Option (ℚ × ℚ) := none

/-- The log after an operation that ended at `later`. -/
def CallLog.after (log : CallLog) (later : ℚ) : (op : WireOp) → WireResp op → CallLog
  | .post .., x => ⟨later, log.calls ++ [x], none⟩
  | .sleep seconds, _ => ⟨later, log.calls, some (log.now, seconds)⟩
  | _, _ => { log with now := later }

/-- One operation of a call, on the clock. -/
def CallLog.Step (log : CallLog) (op : WireOp) (x : WireResp op) (log' : CallLog) : Prop :=
  ∃ later, Takes log.now op x later ∧ log' = log.after later op x

section

variable (py : Interpreter) (policy : TransportPolicy)

/-- The call ended in a failure that is retried, with this delay asked for. -/
def Exchange.Retryable (x : Exchange) (delay : Option PyFloat) : Prop :=
  ∃ result, conclude py policy x = .ok (result, delay) ∧ result.failure.retryable = true

/-- A delay in milliseconds, capped. -/
def capped : PyFloat → ℚ
  | .finite delay => min delay policy.backoffMaxMs
  | _ => policy.backoffMaxMs

/-- Before the deadline, a call may be made: the first one, or one behind a call that is
    retried and a sleep that was shorter than the budget that was left for it. -/
def CallLog.MayCall (deadline : ℚ) (log : CallLog) : Prop :=
  log.now < deadline ∧ log.calls.length < policy.maxAttempts ∧
    ∀ x, log.calls.getLast? = some x → (∃ delay, x.Retryable py policy delay) ∧
      ∃ began seconds, log.nap = some (began, seconds) ∧ max 0 seconds < deadline - began

/-- Behind a call that is retried, a sleep may follow: shorter than the budget that is left,
    within the cap, and as long as the provider asked for, if it did. -/
def CallLog.MaySleep (deadline seconds : ℚ) (log : CallLog) : Prop :=
  log.nap = none ∧ log.calls.length < policy.maxAttempts ∧ seconds < deadline - log.now ∧
    seconds * 1000 ≤ max 0 (policy.backoffMaxMs : ℚ) ∧
    ∃ x delay, log.calls.getLast? = some x ∧ x.Retryable py policy delay ∧
      ∀ d, delay = some d → seconds * 1000 = capped policy d

/-- The discipline of a loop with this deadline. -/
def disciplined (deadline : ℚ) : Contract WireOp WireResp where
  State := CallLog
  allowed log op :=
    match op with
    | .post _ _ timeout => log.MayCall py policy deadline ∧
        timeout = attemptTimeout policy ((deadline - log.now) * 1000)
    | .sleep seconds => log.MaySleep py policy deadline seconds
    | .monotonic => True
    | .uniform _ => True
    | _ => False
  step := CallLog.Step

/-- What the end of the loop says: the result is that of the last call, or the budget has run
    out, or there was no attempt to make. -/
def Returned (deadline : ℚ) (r : Except Exn JsonResponse) (log : CallLog) : Prop :=
  match r with
  | .ok response =>
    (∃ x delay, log.calls.getLast? = some x ∧ conclude py policy x = .ok (response, delay)) ∨
      (response = ⟨none, none, .budgetExhausted⟩ ∧ deadline ≤ log.now) ∨
      (policy.maxAttempts ≤ 0 ∧ log.calls = [])
  | .error e => (∃ x, log.calls.getLast? = some x ∧ conclude py policy x = .error e) ∨
      ∃ began seconds, log.nap = some (began, seconds)

end

section

variable {py : Interpreter} {policy : TransportPolicy} {deadline : ℚ} {α : Type}
  {Q : Except Exn α → CallLog → Prop} {log : CallLog}

/-! ## Operations that take no time -/

theorem wp_monotonic {f : ℚ → WireM α}
    (h : (disciplined py policy deadline).wp (f log.now) Q log) :
    (disciplined py policy deadline).wp (Wire.monotonic >>= f) Q log := by
  apply Contract.wp_bind.mpr
  refine ⟨trivial, ?_⟩
  intro t log' hstep
  obtain ⟨later, ⟨rfl, rfl⟩, rfl⟩ := hstep
  exact h

theorem wp_uniform {ceiling : ℚ} {f : ℚ → WireM α}
    (h : ∀ y, y ≤ max 0 ceiling → (disciplined py policy deadline).wp (f y) Q log) :
    (disciplined py policy deadline).wp (Wire.uniform ceiling >>= f) Q log := by
  apply Contract.wp_bind.mpr
  refine ⟨trivial, ?_⟩
  intro y log' hstep
  obtain ⟨later, ⟨-, hy, rfl⟩, rfl⟩ := hstep
  exact h y hy

/-- A backoff is within its cap, and what the provider asked for decides it. -/
theorem wp_backoffMs {attempt : ℕ} {delay : Option PyFloat} {f : ℚ → WireM α}
    (h : ∀ backoff, backoff ≤ max 0 (policy.backoffMaxMs : ℚ) →
      (∀ d, delay = some d → backoff = capped policy d) →
      (disciplined py policy deadline).wp (f backoff) Q log) :
    (disciplined py policy deadline).wp (backoffMs policy attempt delay >>= f) Q log := by
  cases delay with
  | none =>
    apply wp_uniform
    intro y hy
    apply h y _ (by simp)
    exact hy.trans (max_le_max le_rfl (min_le_left _ _))
  | some d =>
    have hpure : (disciplined py policy deadline).wp (f (capped policy d)) Q log := by
      apply h
      · have hle : capped policy d ≤ policy.backoffMaxMs := by
          cases d with
          | finite delay => exact min_le_right _ _
          | _ => exact le_rfl
        exact hle.trans (le_max_right _ _)
      · intro d' hd
        rw [Option.some.inj hd]
    cases d <;> exact hpure

/-! ## The loop -/

/-- The result at hand is that of the last call, if there was one. -/
def Current (py : Interpreter) (policy : TransportPolicy) (result : JsonResponse)
    (log : CallLog) : Prop :=
  log.calls = [] ∨
    ∃ x delay, log.calls.getLast? = some x ∧ conclude py policy x = .ok (result, delay)

theorem attempts_disciplined (log : CallLog) {url : String} {payload : Dict} {left : ℕ}
    {result : JsonResponse}
    (hleft : log.calls.length + left = policy.maxAttempts.toNat)
    (hcurrent : Current py policy result log)
    (hretried : ∀ x, log.calls.getLast? = some x → (∃ delay, x.Retryable py policy delay) ∧
      ∃ began seconds, log.nap = some (began, seconds) ∧ log.now = began + max 0 seconds) :
    (disciplined py policy deadline).wp
      (attempts py policy url payload deadline left (log.calls.length + 1) result)
      (Returned py policy deadline) log := by
  induction left generalizing result log with
  | zero =>
    -- no attempt is left: the last call decided, or there was none
    rcases hcurrent with hnone | hlast
    · right
      right
      refine ⟨?_, hnone⟩
      rw [hnone] at hleft
      simp only [List.length_nil] at hleft
      omega
    · exact .inl hlast
  | succ left ih =>
    unfold attempts
    apply wp_monotonic
    dsimp only
    -- the deadline is looked at before each call
    split
    · -- it has passed
      rename_i hover
      exact .inr (.inl ⟨rfl, by linarith⟩)
    · rename_i htime
      -- the call is within the attempts and the budget, and after the delay of the last one
      have hcalls : (log.calls.length : ℤ) < policy.maxAttempts := by omega
      have hcall : log.MayCall py policy deadline := by
        refine ⟨by linarith, hcalls, ?_⟩
        intro x hx
        obtain ⟨hretryable, began, seconds, hnap, hawake⟩ := hretried x hx
        exact ⟨hretryable, began, seconds, hnap, by linarith⟩
      apply Contract.wp_bind.mpr
      refine ⟨⟨hcall, rfl⟩, ?_⟩
      intro x log' hstep
      obtain ⟨later, -, rfl⟩ := hstep
      -- the call is the last one now, and nothing was slept since
      have hlast : (log.calls ++ [x]).getLast? = some x := List.getLast?_concat
      show (disciplined py policy deadline).wp (Program.onValue _ (conclude py policy x)) _
        ⟨later, log.calls ++ [x], none⟩
      -- a fault that is not caught ends the call
      cases hconclude : conclude py policy x with
      | error e => exact .inl ⟨x, hlast, hconclude⟩
      | ok concluded =>
        obtain ⟨result, delay⟩ := concluded
        -- what the answer is concluded to be, whatever happens next
        have hresult : Returned py policy deadline (.ok result) ⟨later, log.calls ++ [x], none⟩ :=
          .inl ⟨x, delay, hlast, hconclude⟩
        simp only [Program.onValue_ok]
        split
        · -- a final answer, or the last attempt
          exact hresult
        · rename_i hagain
          simp only [Bool.or_eq_true, Bool.not_eq_true', decide_eq_true_eq, not_or,
            Bool.not_eq_false] at hagain
          obtain ⟨hretryable, hmore⟩ := hagain
          have hretryable : x.Retryable py policy delay := ⟨result, hconclude, hretryable⟩
          have hcalls : ((log.calls ++ [x]).length : ℤ) < policy.maxAttempts := by
            rw [List.length_append, List.length_singleton]
            push_cast at hmore ⊢
            omega
          -- another attempt is to come: the delay is within the cap, and as the header says
          apply wp_backoffMs
          intro backoff hcap hdelay
          apply wp_monotonic
          dsimp only
          split
          · -- it would not begin before the deadline
            exact hresult
          · rename_i hbudget
            apply Contract.wp_bind.mpr
            refine ⟨⟨rfl, hcalls, by linarith, by linarith, x, delay, hlast, hretryable, ?_⟩, ?_⟩
            · intro d hd
              have := hdelay d hd
              linarith
            · intro answer log' hstep
              obtain ⟨awake, htakes, rfl⟩ := hstep
              cases answer with
              -- cancelled while it slept
              | error e => exact .inr ⟨later, backoff / 1000, rfl⟩
              | ok _ =>
                -- the next attempt, with one call more in the log
                have hlength : (log.calls ++ [x]).length = log.calls.length + 1 := by simp
                rw [← hlength]
                apply @ih ⟨awake, log.calls ++ [x], some (later, backoff / 1000)⟩ result
                · simp only [hlength]
                  omega
                · exact .inr ⟨x, delay, hlast, hconclude⟩
                · intro y hy
                  obtain rfl : x = y := Option.some.inj (hlast.symm.trans hy)
                  exact ⟨⟨delay, hretryable⟩, later, _, rfl, htakes⟩

/-- The discipline of the whole loop, whose deadline is a budget after its start. -/
theorem attemptLoop_disciplined (url : String) (payload : Dict) (start : ℚ) :
    (disciplined py policy (start + policy.budgetMs / 1000)).wp
      (attemptLoop py policy url payload)
      (Returned py policy (start + policy.budgetMs / 1000)) ⟨start, [], none⟩ := by
  apply wp_monotonic
  apply attempts_disciplined ⟨start, [], none⟩
  · simp
  · exact .inl rfl
  · simp

/-! ## The provider's delay -/

/-- Where every attempt has a timeout, or there is none, nothing goes on behind the deadline. -/
theorem now_le_of_step {log' : CallLog} {op : WireOp} {x : WireResp op}
    (htimeout : 0 < policy.totalTimeoutMs ∨ policy.maxAttempts ≤ 0) (hnow : log.now ≤ deadline)
    (hallowed : (disciplined py policy deadline).allowed log op) (hstep : log.Step op x log') :
    log'.now ≤ deadline := by
  obtain ⟨later, htakes, rfl⟩ := hstep
  cases op with
  | post url payload timeout =>
    obtain ⟨⟨hbefore, hcalls, -⟩, rfl⟩ := hallowed
    have htotal : (0 : ℚ) < policy.totalTimeoutMs := by
      rcases htimeout with htimeout | hnone
      · exact_mod_cast htimeout
      · omega
    have hmin := min_le_right (policy.totalTimeoutMs : ℚ) ((deadline - log.now) * 1000)
    -- the client stops the call at the budget that is left, if not earlier
    have hpositive : 0 < min (policy.totalTimeoutMs : ℚ) ((deadline - log.now) * 1000) / 1000 := by
      have := lt_min htotal (show 0 < (deadline - log.now) * 1000 by linarith)
      linarith
    have hlater : later ≤ log.now +
        min (policy.totalTimeoutMs : ℚ) ((deadline - log.now) * 1000) / 1000 := htakes.1 hpositive
    show later ≤ deadline
    linarith
  | sleep seconds =>
    -- no sleep reaches the deadline
    obtain ⟨-, -, hseconds, -, -⟩ := hallowed
    have hmax : max 0 seconds ≤ deadline - log.now := max_le (by linarith) hseconds.le
    show later ≤ deadline
    cases x with
    | ok _ =>
      have hawake : later = log.now + max 0 seconds := htakes
      linarith
    | error e =>
      -- an interrupted sleep is shorter
      have hinterrupted : later ≤ log.now + max 0 seconds := htakes.2
      linarith
  | monotonic =>
    -- looking at the clock takes no time
    obtain ⟨-, hsame⟩ := htakes
    exact hsame.le.trans hnow
  | uniform ceiling =>
    obtain ⟨-, -, hsame⟩ := htakes
    exact hsame.le.trans hnow
  | _ => exact hallowed.elim

end

end Evenkeel.Infrastructure
