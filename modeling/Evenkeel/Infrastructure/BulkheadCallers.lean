import Evenkeel.Effects.Interleaving
import Evenkeel.Infrastructure.OutboundTiming

/-!
# Callers of One Provider

Any number of calls of `post_json` in one process, over one in-memory bulkhead and one clock.
Everything but the provider, the sleeps and the waiting for a slot happens at one instant, and
time passes only as far as whatever the calls inside the loop have under way can go on.

- `CallersWorld`, `callers`: the bulkhead and the clock, and how they answer a caller
- `holdsSlot`, `Prompt`: who is inside the loop, and how far time may pass meanwhile
- `calling`: the contract of a caller
- `Admitted`: what holds of the callers inside, if no call can outlast its lease

## Key Results

- `postJson_calling`: every call keeps to its contract
- `admitted_of_run`: every caller inside the loop is inside its lease
- `holders_le`: so there are no more of them than the bulkhead allows
-/

namespace Evenkeel.Infrastructure

open Evenkeel.Application Evenkeel.Effects Evenkeel.Python

/-! ## The bulkhead and the clock -/

/-- The books of the bulkhead, when each caller was last answered, and until when it waits for
    a slot, if it does. -/
structure CallersWorld where
  books : Books BulkheadLease (String → Occupancy ℚ) ℚ
  since : ℕ → ℚ
  waits : ℕ → Option ℚ

section

variable (policy : BulkheadPolicy) (token : ℕ → String)

/-- The bulkhead of the process, where all leases are of one policy. -/
def processBulkhead : LeaseServer BulkheadLease (String → Occupancy ℚ) ℚ Empty :=
  memoryBulkhead (fun _ => policy.limit) token

namespace CallersWorld

variable (w : CallersWorld) (i : ℕ)

/-- One `try_add` for caller `i`. -/
def Tries (granted : Bool) (b : Books BulkheadLease (String → Occupancy ℚ) ℚ) : Prop :=
  w.books.step (processBulkhead policy token) (.attempt i) = some b ∧
    ∃ lease, w.books.leases i = some lease ∧
      ((processBulkhead policy token).attempt lease.request w.books.now
        w.books.store).1.isSome = granted

/-- Caller `i` has been answered, now. -/
def answered : CallersWorld := { w with since := Function.update w.since i w.books.now }

/-- The bulkhead answers at once, and the rest as it takes. An interrupted wait ends without a
    slot, and who never got a slot has none to give back. -/
def Answers : (op : WireOp) → WireResp op → CallersWorld → Prop
  | .enterBulkhead _, .ok acquired, w' => ∃ b deadline, w.Tries policy token i acquired b ∧
      w.waits i = some deadline ∧ (acquired = false → deadline ≤ w.books.now) ∧
      w' = { w.answered i with books := b, waits := Function.update w.waits i none }
  | .enterBulkhead _, .error _, w' =>
      w' = { w.answered i with waits := Function.update w.waits i none }
  | .exitBulkhead, x, w' => x = .ok () ∧
      ((∃ b, w.books.step (processBulkhead policy token) (.release i) = some b ∧
        w' = { w.answered i with books := b }) ∨
        ((∀ lease, w.books.leases i = some lease → lease.ends = none) ∧ w' = w.answered i))
  | op, x, w' => Takes (w.since i) op x w.books.now ∧ w' = w.answered i

/-- A caller arrives, or tries again in vain, or time passes. -/
inductive Drifts : CallersWorld → Prop where
  | arrives (i : ℕ) {b : Books BulkheadLease (String → Occupancy ℚ) ℚ}
      (hcreate : w.books.step (processBulkhead policy token) (.create i ⟨token i, policy⟩) =
        some b) :
      Drifts { w with
        books := b
        waits := Function.update w.waits i (some (w.books.now + policy.waitTimeoutMs / 1000)) }
  | retries (i : ℕ) {b : Books BulkheadLease (String → Occupancy ℚ) ℚ} {deadline : ℚ}
      (htries : w.Tries policy token i false b) (hwaits : w.waits i = some deadline)
      (hdeadline : w.books.now < deadline) : Drifts { w with books := b }
  | passes (t : ℚ) {b : Books BulkheadLease (String → Occupancy ℚ) ℚ}
      (htick : w.books.step (processBulkhead policy token) (.tick t) = some b) :
      Drifts { w with books := b }

end CallersWorld

def callers : Environment WireOp WireResp where
  World := CallersWorld
  answers i w := w.Answers policy token i
  closes _ w w' := w' = w
  drifts w w' := w.Drifts policy token w'

end

/-- The arguments of one call. -/
structure JsonCall where
  path : String
  payload : Dict
  operation : String

/-- A process in which nobody has arrived yet. -/
def callersAtRest (py : Interpreter) (policy : TransportPolicy) (token : ℕ → String)
    (baseUrl : String) (calls : ℕ → JsonCall) :
    Pool (callers policy.bulkhead token) Exn JsonResponse where
  world := ⟨⟨0, fun _ => [], fun _ => none⟩, fun _ => 0, fun _ => none⟩
  clients i := postJson py policy baseUrl (calls i).path (calls i).payload (calls i).operation

/-! ## Who is inside -/

/-- Whether a caller has been let in and is not out again. -/
def noteSlot (b : Bool) : Event WireOp WireResp → Bool
  | ⟨.enterBulkhead _, .ok acquired⟩ => acquired
  | ⟨.exitBulkhead, _⟩ => false
  | _ => b

/-- Caller `i` holds a slot: it is inside the loop, or about to leave it. -/
def holdsSlot (i : ℕ) (t : List (Occurrence WireOp WireResp)) : Bool :=
  (Pool.ownEvents i t).foldl noteSlot false

/-- Time does not pass the end of what a caller inside has under way. -/
def Prompt (policy : BulkheadPolicy) (token : ℕ → String) :
    Pool.Guard (callers policy token) Exn JsonResponse :=
  fun t Q occurrence R => occurrence = .drifted → ∀ i op resume, holdsSlot i t = true →
    Q.clients i = .request op resume →
    ∃ x later, Takes (Q.world.since i) op x later ∧ R.world.books.now ≤ later

/-! ## The contract of a caller -/

/-- Where a call is: `inside` since `entered`, with its log. -/
inductive CallPhase where
  | outside
  | refused
  | inside (entered : ℚ) (log : CallLog)
  | gone

namespace CallPhase

def isInside : CallPhase → Bool
  | .inside .. => true
  | _ => false

def Next : CallPhase → (op : WireOp) → WireResp op → CallPhase → Prop
  | .outside, .enterBulkhead _, .ok true, phase' =>
      ∃ entered, phase' = .inside entered ⟨entered, [], none⟩
  | .outside, .enterBulkhead _, .ok false, phase' => phase' = .refused
  | .inside _ _, .exitBulkhead, _, phase' => phase' = .gone
  | .inside entered log, op, x, phase' =>
      ∃ log', log.Step op x log' ∧ phase' = .inside entered log'
  | _, _, _, phase' => phase' = .gone

end CallPhase

section

variable (py : Interpreter) (policy : TransportPolicy)

/-- Inside, a call keeps to the discipline of the loop. -/
def calling : Contract WireOp WireResp where
  State := CallPhase
  allowed phase op :=
    match phase with
    | .outside => op = .enterBulkhead policy.bulkhead
    | .refused => op = .exitBulkhead
    | .inside entered log => op = .exitBulkhead ∨
        (disciplined py policy (entered + policy.budgetMs / 1000)).allowed log op
    | .gone => ∃ observation, op = .observe observation
  step := CallPhase.Next

end

section

variable {py : Interpreter} {policy : TransportPolicy} {α : Type}

theorem wp_inside {p : WireM α} {Q : Except Exn α → CallLog → Prop} {entered : ℚ}
    {log : CallLog}
    (h : (disciplined py policy (entered + policy.budgetMs / 1000)).wp p Q log) :
    (calling py policy).wp p (fun _ phase => ∃ log', phase = .inside entered log')
      (.inside entered log) := by
  induction p generalizing log with
  | done r => exact ⟨log, rfl⟩
  | request op resume ih =>
    refine ⟨.inr h.1, ?_⟩
    intro x phase' hnext
    cases op with
    | exitBulkhead => exact h.1.elim
    | _ =>
      obtain ⟨log', hstep, rfl⟩ := hnext
      exact ih x (h.2 x log' hstep)

/-- Whoever was let in leaves, however the loop ends. -/
theorem guardedPost_calling (url : String) (payload : Dict) :
    (calling py policy).wp (guardedPost py policy url payload)
      (fun _ phase => phase = .gone) .outside := by
  refine ⟨rfl, ?_⟩
  intro x phase hnext
  cases x with
  | error e => exact hnext
  | ok acquired =>
    cases acquired with
    | false =>
      -- turned away: the context is left without a slot
      obtain rfl : phase = .refused := hnext
      refine ⟨rfl, ?_⟩
      intro x phase hnext
      obtain rfl : phase = .gone := hnext
      cases x <;> exact rfl
    | true =>
      -- let in: the loop runs inside, and the exit is reached from every way out of it
      obtain ⟨entered, rfl⟩ := hnext
      show (calling py policy).wp ((attemptLoop py policy url payload).tryFinally _) _ _
      apply Contract.wp_handle.mpr
      apply Contract.wp_mono _ (wp_inside (attemptLoop_disciplined url payload entered))
      intro r phase hinside
      obtain ⟨log, rfl⟩ := hinside
      refine ⟨.inl rfl, ?_⟩
      intro x phase hnext
      obtain rfl : phase = .gone := hnext
      cases x <;> exact rfl

theorem postJson_calling (baseUrl : String) (call : JsonCall) :
    (calling py policy).wp (postJson py policy baseUrl call.path call.payload call.operation)
      (fun _ phase => phase = .gone) .outside := by
  apply Contract.wp_bind.mpr
  apply Contract.wp_mono _ (guardedPost_calling _ _)
  intro r phase hgone
  obtain rfl : phase = .gone := hgone
  cases r with
  | error e => exact rfl
  | ok response =>
    refine ⟨⟨_, rfl⟩, ?_⟩
    intro _ phase hnext
    exact hnext

end

/-! ## Every caller inside is inside its lease -/

/-- Caller `i` was let in at `entered`, by a lease that it cannot outlast. -/
structure Inside (policy : TransportPolicy) (w : CallersWorld) (i : ℕ) (entered : ℚ)
    (log : CallLog) : Prop where
  lease : ∃ lease, w.books.leases i = some lease ∧
    lease.ends = some (entered + policy.bulkheadLeaseTtlMs / 1000)
  since : w.since i = log.now
  within : Within policy entered log
  now : w.books.now ≤ entered + policy.longestMs / 1000

/-- The occupancy is kept, and what a caller's history says of it is so. -/
structure Admitted (policy : TransportPolicy) (token : ℕ → String)
    (t : List (Occurrence WireOp WireResp)) (w : CallersWorld) (g : ℕ → CallPhase) : Prop where
  served : Served (fun _ => policy.bulkheadLimit) token w.books.leases w.books.now w.books.store
  policies : ∀ i lease, w.books.leases i = some lease → lease.request.policy = policy.bulkhead
  slots : ∀ i, holdsSlot i t = (g i).isInside
  inside : ∀ i entered log, g i = .inside entered log → Inside policy w i entered log

section

variable {py : Interpreter} {policy : TransportPolicy} {token : ℕ → String}
  {t : List (Occurrence WireOp WireResp)} {w w' : CallersWorld} {g : ℕ → CallPhase} {i : ℕ}
  {b : Books BulkheadLease (String → Occupancy ℚ) ℚ} {entered : ℚ} {log : CallLog}

/-- What an attempt does to the books: the lease that is granted is as long as the policy says,
    and one that is not granted changes nobody's. -/
theorem leases_of_tries {granted : Bool} (h : w.Tries policy.bulkhead token i granted b)
    (hpolicies : ∀ i lease, w.books.leases i = some lease →
      lease.request.policy = policy.bulkhead) :
    b.now = w.books.now ∧ (∀ j, j ≠ i → b.leases j = w.books.leases j) ∧
      (∀ j lease, b.leases j = some lease → lease.request.policy = policy.bulkhead) ∧
      ∃ lease, w.books.leases i = some lease ∧ b.leases i = some ⟨lease.request,
        if granted then some (w.books.now + policy.bulkheadLeaseTtlMs / 1000) else lease.ends⟩ := by
  obtain ⟨hstep, lease', hlease', hgranted⟩ := h
  obtain ⟨lease, hlease, rfl⟩ := Books.of_attempt hstep
  obtain rfl : lease = lease' := Option.some.inj (hlease.symm.trans hlease')
  -- an attempt that is granted is granted for the lease that the policy has
  have hends : ∀ o, ((processBulkhead policy.bulkhead token).attempt lease.request w.books.now
      w.books.store).1 = o → o = if granted then
        some (w.books.now + (policy.bulkheadLeaseTtlMs : ℚ) / 1000) else none := by
    intro o ho
    rw [ho] at hgranted
    have hcases : o = some (w.books.now + (policy.bulkheadLeaseTtlMs : ℚ) / 1000) ∨ o = none := by
      rw [← ho]
      unfold processBulkhead memoryBulkhead
      dsimp only
      rw [hpolicies i lease hlease]
      split
      · exact .inl rfl
      · exact .inr rfl
    rcases hcases with rfl | rfl
    · obtain rfl : true = granted := hgranted
      rfl
    · obtain rfl : false = granted := hgranted
      rfl
  refine ⟨rfl, fun j hj => Function.update_of_ne hj .., ?_, lease, hlease, ?_⟩
  · intro j found hfound
    rcases Books.of_update hfound with ⟨-, rfl⟩ | ⟨-, hfound⟩
    · exact hpolicies i lease hlease
    · exact hpolicies j found hfound
  · show Function.update _ _ _ _ = _
    rw [Function.update_self, hends _ rfl]
    cases granted <;> rfl

/-- What an operation of the loop leaves of its log is what the caller was answered at. -/
theorem CallLog.now_after (log : CallLog) (later : ℚ) (op : WireOp) (x : WireResp op) :
    (log.after later op x).now = later := by
  cases op <;> rfl

theorem holdsSlot_answered (i j : ℕ) (t : List (Occurrence WireOp WireResp))
    (event : Event WireOp WireResp) : holdsSlot i (t ++ [.answered j event]) =
      if j = i then noteSlot (holdsSlot i t) event else holdsSlot i t := by
  unfold holdsSlot
  rw [Pool.ownEvents_append, Pool.ownEvents_answered, List.foldl_append]
  by_cases hji : j = i
  · simp [hji]
  · simp [hji]

/-- Others are let in and leave without disturbing a caller inside. -/
theorem Inside.keeps (h : Inside policy w i entered log)
    (hlease : w'.books.leases i = w.books.leases i) (hsince : w'.since i = w.since i)
    (hnow : w'.books.now = w.books.now) : Inside policy w' i entered log := by
  refine ⟨?_, hsince.trans h.since, h.within, hnow.le.trans h.now⟩
  rw [hlease]
  exact h.lease

/-- A step of caller `i` that leaves the others alone. -/
theorem Admitted.step {op : WireOp} {x : WireResp op} {phase : CallPhase}
    (h : Admitted policy token t w g)
    (hserved : Served (fun _ => policy.bulkheadLimit) token w'.books.leases w'.books.now
      w'.books.store)
    (hpolicies : ∀ i lease, w'.books.leases i = some lease →
      lease.request.policy = policy.bulkhead)
    (hleases : ∀ j, j ≠ i → w'.books.leases j = w.books.leases j)
    (hsince : ∀ j, j ≠ i → w'.since j = w.since j) (hnow : w'.books.now = w.books.now)
    (hslot : noteSlot (g i).isInside ⟨op, x⟩ = phase.isInside)
    (hinside : ∀ entered log, phase = .inside entered log → Inside policy w' i entered log) :
    Admitted policy token (t ++ [.answered i ⟨op, x⟩]) w' (Function.update g i phase) := by
  refine ⟨hserved, hpolicies, ?_, ?_⟩
  · intro j
    rw [holdsSlot_answered]
    -- the caller that is answered, and the others
    by_cases hji : j = i
    · subst hji
      rw [if_pos rfl, Function.update_self, h.slots, hslot]
    · rw [if_neg (Ne.symm hji), Function.update_of_ne hji, h.slots]
  · intro j entered log hj
    by_cases hji : j = i
    · subst hji
      rw [Function.update_self] at hj
      exact hinside entered log hj
    · rw [Function.update_of_ne hji] at hj
      exact (h.inside j entered log hj).keeps (hleases j hji) (hsince j hji) hnow

/-- The bulkhead answers. -/
theorem Admitted.enters {acquired : Bool} {b : Books BulkheadLease (String → Occupancy ℚ) ℚ}
    (h : Admitted policy token t w g) (htoken : Function.Injective token)
    (htimed : policy.Timed)
    (htries : w.Tries policy.bulkhead token i acquired b)
    (hw' : w' = { w.answered i with books := b, waits := Function.update w.waits i none }) :
    Admitted policy token
      (t ++ [.answered i ⟨.enterBulkhead policy.bulkhead, .ok acquired⟩]) w'
      (Function.update g i
        (if acquired then .inside w.books.now ⟨w.books.now, [], none⟩ else .refused)) := by
  subst hw'
  obtain ⟨hnow, hothers, hpolicies, lease, -, hlease⟩ := leases_of_tries htries h.policies
  have hserved : Served (fun _ => policy.bulkheadLimit) token b.leases b.now b.store :=
    served_of_step htoken h.served htries.1
  refine h.step hserved hpolicies hothers ?_ hnow ?_ ?_
  · exact fun j hj => Function.update_of_ne hj ..
  · cases acquired <;> rfl
  · intro entered log hinside
    -- refused callers are not inside
    cases acquired with
    | false => cases hinside
    | true =>
      -- a caller inside has entered just now, and all its time is left
      obtain ⟨rfl, rfl⟩ := CallPhase.inside.inj hinside
      refine ⟨⟨_, hlease, rfl⟩, Function.update_self .., within_start policy _, ?_⟩
      have hlongest : (0 : ℚ) ≤ policy.longestMs := by exact_mod_cast htimed.longestMs_nonneg
      show b.now ≤ _
      rw [hnow]
      linarith

/-- A caller leaves, with or without a lease to give back. -/
theorem Admitted.leaves {x : WireResp .exitBulkhead} (h : Admitted policy token t w g)
    (htoken : Function.Injective token)
    (hans : w.Answers policy.bulkhead token i .exitBulkhead x w') :
    Admitted policy token (t ++ [.answered i ⟨.exitBulkhead, x⟩]) w'
      (Function.update g i .gone) := by
  obtain ⟨-, ⟨b, hrelease, rfl⟩ | ⟨-, rfl⟩⟩ := hans
  · have hserved := served_of_step htoken h.served hrelease
    obtain ⟨lease, hlease, rfl⟩ := Books.of_release hrelease
    refine h.step hserved ?_ ?_ ?_ rfl rfl (fun _ _ hinside => nomatch hinside)
    · intro j found hfound
      rcases Books.of_update hfound with ⟨-, rfl⟩ | ⟨-, hfound⟩
      · exact h.policies i lease hlease
      · exact h.policies j found hfound
    · exact fun j hj => Function.update_of_ne hj ..
    · exact fun j hj => Function.update_of_ne hj ..
  · refine h.step h.served h.policies (fun _ _ => rfl) ?_ rfl rfl
      (fun _ _ hinside => nomatch hinside)
    exact fun j hj => Function.update_of_ne hj ..

/-- What a caller has under way inside ends before its lease can. -/
theorem Inside.later_le {op : WireOp} {x : WireResp op} {later : ℚ}
    (h : Inside policy w i entered log) (htimed : policy.Timed)
    (hallowed : (calling py policy).allowed (.inside entered log) op)
    (htakes : Takes (w.since i) op x later) :
    (op = .exitBulkhead ∨ Within policy entered (log.after later op x)) ∧
      later ≤ entered + policy.longestMs / 1000 := by
  rw [h.since] at htakes
  rcases hallowed with rfl | hloop
  · obtain rfl : later = log.now := htakes
    exact ⟨.inl rfl, h.within.now_le htimed⟩
  · have hwithin := h.within.step htimed hloop ⟨later, htakes, rfl⟩
    have hnow := hwithin.now_le htimed
    rw [CallLog.now_after] at hnow
    exact ⟨.inr hwithin, hnow⟩

/-- The step lemma: an operation the contract allows, however it is answered. -/
theorem Admitted.answered {op : WireOp} {x : WireResp op} (h : Admitted policy token t w g)
    (htoken : Function.Injective token) (htimed : policy.Timed)
    (hallowed : (calling py policy).allowed (g i) op)
    (hans : w.Answers policy.bulkhead token i op x w') :
    ∃ phase, (g i).Next op x phase ∧
      Admitted policy token (t ++ [.answered i ⟨op, x⟩]) w' (Function.update g i phase) := by
  -- nobody but the caller is concerned by an operation that leaves the books
  have hquiet : ∀ {op : WireOp} {x : WireResp op} {phase : CallPhase} {u : ℕ → Option ℚ},
      w' = { w.answered i with waits := u } →
      noteSlot (g i).isInside ⟨op, x⟩ = phase.isInside →
      (∀ entered log, phase = .inside entered log → Inside policy w' i entered log) →
      Admitted policy token (t ++ [.answered i ⟨op, x⟩]) w' (Function.update g i phase) := by
    intro op x phase u hw' hslot hinside
    subst hw'
    exact h.step h.served h.policies (fun _ _ => rfl) (fun j hj => Function.update_of_ne hj ..)
      rfl hslot hinside
  cases hphase : g i with
  | outside =>
    -- the caller asks to be let in
    rw [hphase] at hallowed hquiet
    obtain rfl : op = .enterBulkhead policy.bulkhead := hallowed
    cases x with
    | error e => exact ⟨.gone, rfl, hquiet hans rfl (fun _ _ hinside => nomatch hinside)⟩
    | ok acquired =>
      obtain ⟨b, deadline, htries, -, -, hw'⟩ := hans
      refine ⟨_, ?_, h.enters htoken htimed htries hw'⟩
      cases acquired with
      | true => exact ⟨_, rfl⟩
      | false => exact rfl
  | refused =>
    rw [hphase] at hallowed
    obtain rfl : op = .exitBulkhead := hallowed
    exact ⟨.gone, rfl, h.leaves htoken hans⟩
  | gone =>
    rw [hphase] at hallowed hquiet
    obtain ⟨observation, rfl⟩ := hallowed
    obtain ⟨-, hw'⟩ := hans
    exact ⟨.gone, rfl, hquiet hw' rfl (fun _ _ hinside => nomatch hinside)⟩
  | inside entered log =>
    -- inside: the way out, or an operation of the loop
    rw [hphase] at hallowed hquiet
    by_cases hexit : op = .exitBulkhead
    · subst hexit
      exact ⟨.gone, rfl, h.leaves htoken hans⟩
    · have hin := h.inside i entered log hphase
      have hloop := hallowed.resolve_left hexit
      have htakes : Takes (w.since i) op x w.books.now ∧ w' = w.answered i := by
        cases op with
        | enterBulkhead => exact hloop.elim
        | exitBulkhead => exact absurd rfl hexit
        | _ => exact hans
      obtain ⟨htakes, rfl⟩ := htakes
      -- how long the operation takes is bounded, so the caller is still within its time
      obtain ⟨hwithin, -⟩ := hin.later_le htimed hallowed htakes
      rw [hin.since] at htakes
      refine ⟨.inside entered (log.after w.books.now op x), ?_, hquiet rfl ?_ ?_⟩
      · cases op with
        | exitBulkhead => exact absurd rfl hexit
        | _ => exact ⟨_, ⟨_, htakes, rfl⟩, rfl⟩
      · cases op with
        | enterBulkhead => exact hloop.elim
        | exitBulkhead => exact absurd rfl hexit
        | _ => rfl
      · intro entered' log' heq
        obtain ⟨rfl, rfl⟩ := CallPhase.inside.inj heq
        refine ⟨hin.lease, ?_, hwithin.resolve_left hexit, hin.now⟩
        rw [CallLog.now_after]
        exact Function.update_self ..

/-- Arriving and trying in vain change nobody's lease, and time does not pass the end of
    anybody's. -/
theorem Admitted.drifted {Q : Pool (callers policy.bulkhead token) Exn JsonResponse}
    (h : Admitted policy token t Q.world g) (htoken : Function.Injective token)
    (htimed : policy.Timed)
    (hwp : ∀ i, (calling py policy).wp (Q.clients i) (fun _ phase => phase = .gone) (g i))
    (hdrifts : Q.world.Drifts policy.bulkhead token w')
    (hprompt : Prompt policy.bulkhead token t Q .drifted ⟨w', Q.clients⟩) :
    Admitted policy token (t ++ [.drifted]) w' g := by
  have hslots : ∀ i, holdsSlot i (t ++ [.drifted]) = (g i).isInside := by
    intro i
    rw [← h.slots, holdsSlot, Pool.ownEvents_append, Pool.ownEvents_drifted, List.append_nil]
    rfl
  cases hdrifts with
  | @arrives i b hcreate =>
    -- a new caller: its handle was nobody's, so it is nobody's who is inside
    have hserved := served_of_step htoken h.served hcreate
    obtain ⟨hnone, -, rfl⟩ := Books.of_create hcreate
    refine ⟨hserved, ?_, hslots, ?_⟩
    · intro j lease hlease
      rcases Books.of_update hlease with ⟨-, rfl⟩ | ⟨-, hlease⟩
      · rfl
      · exact h.policies j lease hlease
    · intro j entered log hj
      have hin := h.inside j entered log hj
      have hji : j ≠ i := by
        rintro rfl
        obtain ⟨lease, hlease, -⟩ := hin.lease
        cases hnone.symm.trans hlease
      exact hin.keeps (Function.update_of_ne hji ..) rfl rfl
  | @retries i b deadline htries hwaits hdeadline =>
    -- a caller who waits tries again: its slot may come, and the others keep theirs
    obtain ⟨hnow, hothers, hpolicies, lease, hlease, hlease'⟩ := leases_of_tries htries h.policies
    refine ⟨served_of_step htoken h.served htries.1, hpolicies, hslots, ?_⟩
    intro j entered log hj
    refine (h.inside j entered log hj).keeps ?_ rfl hnow
    by_cases hji : j = i
    · subst hji
      exact hlease'.trans hlease.symm
    · exact hothers j hji
  | @passes later b htick =>
    -- time passes, but not beyond what a caller inside is waiting for
    have hserved := served_of_step htoken h.served htick
    obtain ⟨-, rfl⟩ := Books.of_tick htick
    refine ⟨hserved, h.policies, hslots, ?_⟩
    intro j entered log hj
    have hin := h.inside j entered log hj
    refine ⟨hin.lease, hin.since, hin.within, ?_⟩
    have hj' := hwp j
    rw [hj] at hj'
    -- who is done is not inside
    cases hprogram : Q.clients j with
    | done r =>
      rw [hprogram] at hj'
      cases hj'
    | request op resume =>
      rw [hprogram] at hj'
      have hslot : holdsSlot j t = true := by
        rw [h.slots, hj]
        rfl
      obtain ⟨x, ends, htakes, hle⟩ := hprompt rfl j op resume hslot hprogram
      exact hle.trans (hin.later_le htimed hj'.1 htakes).2

variable {baseUrl : String} {calls : ℕ → JsonCall}
  {Q : Pool (callers policy.bulkhead token) Exn JsonResponse}

/-- The run lemma: whoever arrives when, and whatever the provider does. -/
theorem admitted_of_run (htoken : Function.Injective token) (htimed : policy.Timed)
    (hrun : Pool.RunUnder (Prompt policy.bulkhead token)
      (callersAtRest py policy token baseUrl calls) t Q) :
    ∃ g, Admitted policy token t Q.world g := by
  have hupholds : Pool.RunUnder.Upholds (fun _ => calling py policy) (Prompt policy.bulkhead token)
      (fun _ _ phase => phase = .gone) (Admitted policy token) := by
    constructor
    · -- an answer, an end, or a step that is nobody's
      intro t R R' g i op x hwp hinv hopen hallowed hans hprompt
      exact hinv.answered htoken htimed hallowed hans
    · intro t R w g i r hdone hwp hinv hcloses
      obtain rfl : w = R.world := hcloses
      refine ⟨hinv.served, hinv.policies, ?_, hinv.inside⟩
      intro j
      rw [← hinv.slots, holdsSlot, Pool.ownEvents_append, Pool.ownEvents_closed, List.append_nil]
      rfl
    · intro t R w g hwp hinv hdrifts hprompt
      exact hinv.drifted htoken htimed hwp hdrifts hprompt
  have hstart : Admitted policy token [] (callersAtRest py policy token baseUrl calls).world
      fun _ => .outside :=
    ⟨served_start _ _, (fun _ _ hlease => nomatch hlease), fun _ => rfl,
      fun _ _ _ hinside => nomatch hinside⟩
  obtain ⟨g, hinv, -⟩ := hrun.upholds hupholds (fun i => postJson_calling baseUrl (calls i)) hstart
  exact ⟨g, hinv⟩

/-- Callers inside hold live leases, and there are no more of these than the limit. -/
theorem holders_le (htoken : Function.Injective token) (htimed : policy.Timed)
    (hlease : policy.longestMs < policy.bulkheadLeaseTtlMs)
    (hrun : Pool.RunUnder (Prompt policy.bulkhead token)
      (callersAtRest py policy token baseUrl calls) t Q) {L : Finset ℕ}
    (hL : ∀ i ∈ L, holdsSlot i t = true) : L.card ≤ policy.bulkheadLimit.toNat := by
  obtain ⟨g, hinv⟩ := admitted_of_run htoken htimed hrun
  have hgranted : ∀ i ∈ L, Granted Q.world.books policy.bulkhead.name i := by
    intro i hi
    have hslot := hL i hi
    rw [hinv.slots] at hslot
    cases hphase : g i with
    | inside entered log =>
      have hin := hinv.inside i entered log hphase
      obtain ⟨lease, hheld, hends⟩ := hin.lease
      have hshort : (policy.longestMs : ℚ) < policy.bulkheadLeaseTtlMs := by exact_mod_cast hlease
      have hnow := hin.now
      exact ⟨lease, _, hheld, by rw [hinv.policies i lease hheld], hends, by linarith⟩
    | _ =>
      rw [hphase] at hslot
      cases hslot
  exact hinv.served.card_le htoken hgranted

end

end Evenkeel.Infrastructure
