import Evenkeel.Infrastructure.BulkheadCallers
import Evenkeel.Setup.Configuration

/-!
# The Cap on Calls in Flight

A slot is a lease of five seconds, whatever the budget of a call is: the provider of the risk
assessment is wired with the default, and no setting says otherwise. The bulkhead caps the
calls in flight where none of them can outlast its lease.
-/

namespace Evenkeel.Properties

open Evenkeel.Application Evenkeel.Effects Evenkeel.Infrastructure Evenkeel.Python Evenkeel.Setup

/-- No call can outlast its lease: the attempts have a timeout, and all of them with the sleeps
    between them, or the budget, are over before the lease is. -/
def LeaseOutlasts (http : OutboundHttpConfig) : Prop :=
  http.transportPolicy.Timed ∧
    http.transportPolicy.longestMs < http.transportPolicy.bulkheadLeaseTtlMs

instance (http : OutboundHttpConfig) : Decidable (LeaseOutlasts http) :=
  inferInstanceAs (Decidable ((_ ∨ _ ∨ _) ∧ _ < _))

/-- The defaults are such settings. -/
example : LeaseOutlasts {} := by decide

/-- With such settings, and a limit of one or more, no more calls than the limit are ever inside
    the attempt loop, however many there are, whenever they arrive, and whatever the provider
    does within the timeouts. -/
theorem bulkhead_caps_calls {http : OutboundHttpConfig} {py : Interpreter} {token : ℕ → String}
    {baseUrl : String} {calls : ℕ → JsonCall} {t : List (Occurrence WireOp WireResp)}
    {Q : Pool (callers http.transportPolicy.bulkhead token) Exn JsonResponse} {L : Finset ℕ}
    (hlimit : 1 ≤ http.bulkheadLimit) (hlease : LeaseOutlasts http)
    (htoken : Function.Injective token)
    (hrun : Pool.RunUnder (Prompt http.transportPolicy.bulkhead token)
      (callersAtRest py http.transportPolicy token baseUrl calls) t Q)
    (hL : ∀ i ∈ L, holdsSlot i t = true) : (L.card : ℤ) ≤ http.bulkheadLimit := by
  have hcard := holders_le htoken hlease.1 hlease.2 hrun hL
  have hpolicy : http.transportPolicy.bulkheadLimit = http.bulkheadLimit := rfl
  rw [hpolicy] at hcard
  omega

private def assessing : JsonCall := ⟨"/assess", [], "assess"⟩

private theorem isSome_attempt (policy : TransportPolicy) (lease : BulkheadLease) (now : ℚ)
    (store : String → Occupancy ℚ) :
    ((processBulkhead policy.bulkhead unaryToken).attempt lease now store).1.isSome =
      ((store lease.policy.name).tryAdd now lease.policy.limit lease.token
        (now + lease.policy.leaseTtlMs / 1000)).1 := by
  unfold processBulkhead memoryBulkhead
  dsimp only
  split_ifs with hgranted
  · exact hgranted.symm
  · exact (Bool.eq_false_of_not_eq_true hgranted).symm

/-- What the guard asks for is about the passing of time only. -/
private theorem prompt_answered {policy : BulkheadPolicy} {token : ℕ → String}
    {t : List (Occurrence WireOp WireResp)}
    {Q R : Pool (callers policy token) Exn JsonResponse} {i : ℕ} {e : Event WireOp WireResp} :
    Prompt policy token t Q (.answered i e) R := by
  intro hdrifted
  cases hdrifted

/-- Nothing has been asked of the clock by a caller who has just been let in. -/
private theorem takes_now {policy : TransportPolicy} {i : ℕ} (now : ℚ)
    {t : List (Occurrence WireOp WireResp)}
    {Q : Pool (callers policy.bulkhead unaryToken) Exn JsonResponse}
    (hrun : Pool.RunUnder (Prompt policy.bulkhead unaryToken)
      (callersAtRest Sample.deaf policy unaryToken "http://risk" fun _ => assessing) t Q)
    (hevents : Pool.ownEvents i t = [⟨.enterBulkhead policy.bulkhead, .ok true⟩])
    (hsince : Q.world.since i = now) {op : WireOp}
    {resume : WireResp op → Program WireOp WireResp Exn JsonResponse}
    (hclient : Q.clients i = .request op resume) :
    ∃ x later, Takes (Q.world.since i) op x later ∧ now ≤ later := by
  have hperforms := hrun.performs i
  rw [hevents, hclient] at hperforms
  have hclock : ∃ resume, (postJson Sample.deaf policy "http://risk" "/assess" [] "assess").Performs
      [⟨.enterBulkhead policy.bulkhead, .ok true⟩] (.request .monotonic resume) := by
    refine ⟨?rest, ?whole⟩
    case whole =>
      apply Program.Performs.cons
      unfold attemptLoop
      exact .nil _
  obtain ⟨resume', hclock⟩ := hclock
  obtain ⟨rfl, -⟩ := Program.request.inj (hperforms.unique hclock)
  exact ⟨now, now, ⟨hsince.symm, hsince.symm⟩, le_rfl⟩

/-- A caller that finds every slot taken, and may wait no longer, is told so. -/
private theorem turned_away {policy : TransportPolicy} {i : ℕ} {deadline : ℚ}
    {t : List (Occurrence WireOp WireResp)}
    {Q : Pool (callers policy.bulkhead unaryToken) Exn JsonResponse}
    (hrun : Pool.RunUnder (Prompt policy.bulkhead unaryToken)
      (callersAtRest Sample.deaf policy unaryToken "http://risk" fun _ => assessing) t Q)
    (hclient : Q.clients i = postJson Sample.deaf policy "http://risk" "/assess" [] "assess")
    (hlease : Q.world.books.leases i = some ⟨⟨unaryToken i, policy.bulkhead⟩, none⟩)
    (hwaits : Q.world.waits i = some deadline) (hdeadline : deadline ≤ Q.world.books.now)
    (hfull : ((Q.world.books.store policy.bulkhead.name).tryAdd Q.world.books.now
      policy.bulkhead.limit (unaryToken i)
      (Q.world.books.now + policy.bulkhead.leaseTtlMs / 1000)).1 = false) :
    ∃ R observation, Pool.RunUnder (Prompt policy.bulkhead unaryToken)
      (callersAtRest Sample.deaf policy unaryToken "http://risk" fun _ => assessing)
      (t ++ [.answered i ⟨.enterBulkhead policy.bulkhead, .ok false⟩] ++
        [.answered i ⟨.exitBulkhead, .ok ()⟩] ++ [.answered i ⟨.observe observation, ()⟩]) R ∧
      R.clients i = .done (.ok ⟨none, none, .bulkheadFull⟩) := by
  -- the attempt finds no slot, and leaves the caller without a lease
  have hrefused := (isSome_attempt policy ⟨unaryToken i, policy.bulkhead⟩ Q.world.books.now
    Q.world.books.store).trans hfull
  have hnone := Option.not_isSome_iff_eq_none.mp (Bool.eq_false_iff.mp hrefused)
  have hstep : Q.world.books.step (processBulkhead policy.bulkhead unaryToken) (.attempt i) =
      some { Q.world.books with
        store := ((processBulkhead policy.bulkhead unaryToken).attempt
          ⟨unaryToken i, policy.bulkhead⟩ Q.world.books.now Q.world.books.store).2
        leases := Function.update Q.world.books.leases i
          (some ⟨⟨unaryToken i, policy.bulkhead⟩, none⟩) } := by
    simp only [Books.step, hlease, Option.map_some, hnone, Option.none_or]
  -- its time to wait is over
  have h := hrun.answer i hclient (.ok false) _
    ⟨_, _, ⟨hstep, _, hlease, hrefused⟩, hwaits, fun _ => hdeadline, rfl⟩ prompt_answered
  -- it has no slot to give back
  have h := h.answer i (Function.update_self ..) (.ok ()) _ ⟨rfl, .inr ⟨by
    intro lease hfound
    change Function.update _ _ _ _ = _ at hfound
    rw [Function.update_self] at hfound
    cases hfound
    rfl, rfl⟩⟩ prompt_answered
  have h := h.answer i (show _ = Program.request (.observe _) _ from Function.update_self ..) () _
    ⟨by
      show _ = (Function.update _ i _ : ℕ → ℚ) i
      rw [Function.update_self]
      rfl, rfl⟩ prompt_answered
  exact ⟨_, _, h, Function.update_self ..⟩

/-- A limit of one, and the rest as it is by default. -/
private def single : OutboundHttpConfig where
  bulkheadLimit := 1

private theorem occupied : (Occupancy.tryAdd [(unaryToken 0, (0 : ℚ) + ((5000 : ℤ) : ℚ) / 1000)] 0 1
    (unaryToken 1) (0 + ((5000 : ℤ) : ℚ) / 1000)).1 = false := by
  norm_num [Occupancy.tryAdd, Occupancy.reap]

/-- One call is inside, and the second one is told that the bulkhead is full. -/
theorem bulkhead_caps_calls_single : ∃ t Q,
    Pool.RunUnder (Prompt single.transportPolicy.bulkhead unaryToken)
      (callersAtRest Sample.deaf single.transportPolicy unaryToken "http://risk" fun _ => assessing)
      t Q ∧
      holdsSlot 0 t = true ∧ holdsSlot 1 t = false ∧
      Q.clients 1 = .done (.ok ⟨none, none, .bulkheadFull⟩) ∧
      (({0} : Finset ℕ).card : ℤ) ≤ single.bulkheadLimit := by
  have h := Pool.RunUnder.nil (G := Prompt single.transportPolicy.bulkhead unaryToken)
    (P := callersAtRest Sample.deaf single.transportPolicy unaryToken "http://risk"
      fun _ => assessing)
  -- the first caller has the one slot
  have h := h.snoc (.drifted (.arrives 0 rfl)) (by
    intro _ i op resume hslot
    cases hslot)
  have h := h.answer 0 rfl (.ok true) _
    ⟨_, _, ⟨rfl, _, rfl, rfl⟩, rfl, (by intro hrefused; cases hrefused), rfl⟩ prompt_answered
  -- the second one arrives while the first is at its call
  have h := h.snoc (.drifted (.arrives 1 rfl)) (by
    intro _ i op resume hslot hclient
    obtain rfl : i = 0 := by
      by_contra hne
      simp [holdsSlot, Pool.ownEvents, Ne.symm hne] at hslot
    exact takes_now 0 h rfl rfl hclient)
  obtain ⟨R, observation, hrun, hdone⟩ := turned_away (i := 1) h rfl rfl rfl
    (show (0 : ℚ) + ((0 : ℤ) : ℚ) / 1000 ≤ 0 by norm_num) occupied
  refine ⟨_, R, hrun, rfl, rfl, hdone, @bulkhead_caps_calls single _ _ _ _ _ _ _ (by decide)
    (by decide) unaryToken_injective hrun ?_⟩
  intro i hi
  obtain rfl := Finset.mem_singleton.mp hi
  rfl

/-! A limit of one, and six seconds for an attempt, for a silence and for the budget. The first
call is in an attempt for five and a half of them; its lease has run out by then, and a second
call is let in. -/

private def patient : OutboundHttpConfig where
  totalTimeoutMs := 6000
  readTimeoutMs := 6000
  budgetMs := 6000
  bulkheadLimit := 1

/-- What a call does until it posts, if it is let in at once. -/
private def untilThePost (now : ℚ) : List (Event WireOp WireResp) :=
  [⟨.enterBulkhead patient.transportPolicy.bulkhead, .ok true⟩, ⟨.monotonic, now⟩,
    ⟨.monotonic, now⟩]

private theorem performs_untilThePost (now : ℚ) : ∃ resume,
    (postJson Sample.deaf patient.transportPolicy "http://risk" "/assess" [] "assess").Performs
      (untilThePost now) (.request (.post (address "http://risk" "/assess") []
        (attemptTimeout patient.transportPolicy 6000)) resume) := by
  have hdeadline : (now + ((6000 : ℤ) : ℚ) / 1000 - now) * 1000 = 6000 := by
    push_cast
    ring
  have hloop : ∃ resume, (attemptLoop Sample.deaf patient.transportPolicy
      (address "http://risk" "/assess") []).Performs [⟨.monotonic, now⟩, ⟨.monotonic, now⟩]
      (.request (.post (address "http://risk" "/assess") []
        (attemptTimeout patient.transportPolicy 6000)) resume) := by
    refine ⟨?resume, ?performs⟩
    case performs =>
      unfold attemptLoop
      apply Program.Performs.cons
      show (attempts _ _ _ _ (now + ((6000 : ℤ) : ℚ) / 1000) 2 1
        ⟨none, none, .connection⟩).Performs _ _
      unfold attempts
      apply Program.Performs.cons
      simp only [Program.handle_done, Program.onValue_ok, hdeadline]
      exact .nil _
  obtain ⟨resume, hloop⟩ := hloop
  refine ⟨?rest, ?whole⟩
  case whole =>
    apply Program.Performs.cons
    exact (hloop.within_handle _).within_handle _

/-- Whoever has done no more than that is at the post. -/
private theorem posting {t : List (Occurrence WireOp WireResp)}
    {Q : Pool (callers patient.transportPolicy.bulkhead unaryToken) Exn JsonResponse} {i : ℕ}
    {n : ℚ} (hrun : Pool.RunUnder (Prompt patient.transportPolicy.bulkhead unaryToken)
      (callersAtRest Sample.deaf patient.transportPolicy unaryToken "http://risk"
        fun _ => assessing) t Q)
    (hevents : Pool.ownEvents i t = untilThePost n) :
    ∃ resume, Q.clients i = .request (.post (address "http://risk" "/assess") []
      (attemptTimeout patient.transportPolicy 6000)) resume := by
  obtain ⟨resume, hposts⟩ := performs_untilThePost n
  have hperforms := hrun.performs i
  rw [hevents] at hperforms
  exact ⟨resume, hperforms.unique hposts⟩

/-- A post that was begun at the start can go on for six seconds. -/
private theorem takes_six {later : ℚ} (hlater : later ≤ 6) : ∃ x later',
    Takes 0 (.post (address "http://risk" "/assess") []
      (attemptTimeout patient.transportPolicy 6000)) x later' ∧ later ≤ later' := by
  refine ⟨.timeoutError, 6, ?_, hlater⟩
  apply ClientTimeout.Permits.of_heard
  · norm_num [attemptTimeout, patient, OutboundHttpConfig.transportPolicy]
  · norm_num
  · norm_num [attemptTimeout, patient, OutboundHttpConfig.transportPolicy]

/-- A slot that was taken at the start is free after five and a half seconds. -/
private theorem reaps : (Occupancy.tryAdd [(unaryToken 0, (0 : ℚ) + ((5000 : ℤ) : ℚ) / 1000)]
    (11 / 2) 1 (unaryToken 1) (11 / 2 + ((5000 : ℤ) : ℚ) / 1000)).1 = true := by
  norm_num [Occupancy.tryAdd, Occupancy.reap]

theorem second_call_is_let_in :
    ∃ t Q, Pool.RunUnder (Prompt patient.transportPolicy.bulkhead unaryToken)
      (callersAtRest Sample.deaf patient.transportPolicy unaryToken "http://risk"
        fun _ => assessing) t Q ∧
      (∃ url payload timeout resume, Q.clients 0 = .request (.post url payload timeout) resume) ∧
      (∃ url payload timeout resume, Q.clients 1 = .request (.post url payload timeout) resume) ∧
      holdsSlot 0 t = true ∧ holdsSlot 1 t = true := by
  have h := Pool.RunUnder.nil (G := Prompt patient.transportPolicy.bulkhead unaryToken)
    (P := callersAtRest Sample.deaf patient.transportPolicy unaryToken "http://risk"
      fun _ => assessing)
  -- the first caller is let in
  have h := h.snoc (.drifted (.arrives 0 rfl)) (by
    intro _ i op resume hslot
    cases hslot)
  have h := h.answer 0 rfl (.ok true) _
    ⟨_, _, ⟨rfl, _, rfl, rfl⟩, rfl, (by intro hrefused; cases hrefused), rfl⟩ prompt_answered
  have h := h.answer 0 rfl (0 : ℚ) _ ⟨⟨rfl, rfl⟩, rfl⟩ prompt_answered
  have h := h.answer 0 rfl (0 : ℚ) _ ⟨⟨rfl, rfl⟩, rfl⟩ prompt_answered
  -- the first call is at its post, and is given five and a half seconds
  obtain ⟨resume, hpost⟩ := posting (i := 0) (n := 0) h rfl
  have h := h.snoc (.drifted (.passes (11 / 2) (if_pos (show (0 : ℚ) ≤ 11 / 2 by norm_num)))) (by
    intro _ i op resume' hslot hclient
    obtain rfl : i = 0 := by
      by_contra hne
      simp [holdsSlot, Pool.ownEvents, Ne.symm hne] at hslot
    obtain ⟨rfl, -⟩ := Program.request.inj (hclient.symm.trans hpost)
    exact takes_six (by norm_num))
  -- the second one arrives, and its attempt reaps the lease that is over
  have h := h.snoc (.drifted (.arrives 1 rfl)) (by
    intro _ i op resume' hslot hclient
    obtain rfl : i = 0 := by
      by_contra hne
      simp [holdsSlot, Pool.ownEvents, Ne.symm hne] at hslot
    obtain ⟨rfl, -⟩ := Program.request.inj (hclient.symm.trans hpost)
    exact takes_six (by norm_num))
  have h := h.answer 1 rfl (.ok true) _
    ⟨_, _, ⟨rfl, _, rfl, (isSome_attempt _ _ _ _).trans reaps⟩, rfl,
      (by intro hrefused; cases hrefused), rfl⟩ prompt_answered
  have h := h.answer 1 rfl (11 / 2 : ℚ) _ ⟨⟨rfl, rfl⟩, rfl⟩ prompt_answered
  have h := h.answer 1 rfl (11 / 2 : ℚ) _ ⟨⟨rfl, rfl⟩, rfl⟩ prompt_answered
  obtain ⟨resume₀, hfirst⟩ := posting (i := 0) (n := 0) h rfl
  obtain ⟨resume₁, hsecond⟩ := posting (i := 1) (n := 11 / 2) h rfl
  exact ⟨_, _, h, ⟨_, _, _, resume₀, hfirst⟩, ⟨_, _, _, resume₁, hsecond⟩, rfl, rfl⟩

end Evenkeel.Properties
