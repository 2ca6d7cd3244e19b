import Evenkeel.Infrastructure.BulkheadOutages
import Evenkeel.Infrastructure.Deployment

/-!
# A Bulkhead That Is Down

Unavailability is a value of the risk port, and the transport raises nothing of what it can
foresee; but it asks the bulkhead outside of every `try`. An exception of the lease, on the way
in or on the way out, takes the place of the decision, and the policy of the interactor is never
consulted.
-/

namespace Evenkeel.Properties

open Evenkeel.Application Evenkeel.Effects Evenkeel.Infrastructure Evenkeel.Python

/-- Whatever the provider does, and whenever the bulkhead raises. An assessment returns, and with
    the decision that was read if one was, exactly if the bulkhead did not raise and no body is
    beyond the limits of the interpreter. A movement that may go on unassessed is no 503, unless
    a port of its own has raised one, exactly if the bulkhead did not raise. -/
theorem bulkhead_outage_iff (py : Interpreter) (policy : TransportPolicy)
    (baseUrl path : String) :
    (∀ check t r, (assess py policy baseUrl path check).Performs t (.done r) →
      (∀ event ∈ t, Sheltered event) →
      ((∃ decision, r = .ok decision ∧ ∀ x ∈ t.foldl exchanged [], ∀ items,
          x.Reads py policy items → decision = decisionOf ⟨none, some items, .none⟩) ↔
        (∀ event ∈ t, ¬Outage event) ∧ ∀ x ∈ t.foldl exchanged [], ¬x.Hostile py policy)) ∧
    ∀ service settings metricName request t r, settings.riskFailOpen = true →
      (assessedRun py policy baseUrl path service settings metricName request).Performs t
        (.done r) →
      (∀ event ∈ t, NetSheltered event) →
      ((EndsUnavailable r → ∃ event ∈ t, NetUnavailable event) ↔
        ∀ event ∈ t, ¬NetOutage event) := by
  constructor
  · intro check t r hperforms hsheltered
    -- an outage comes out of the check, and nothing else does
    have hcalm : Calm t ↔ ¬EndsUnavailable r :=
      Contract.of_recording (u := []) (assess_outage (by simp [Calm])) hperforms hsheltered
    -- what the bulkhead raised in this very execution
    let E : Exn → Prop := fun e => ∃ event ∈ t, wireFailure e event.1 = some event.2
    have hjudges := Contract.of_tracking (s := []) (assess_judges (E := E) (by simp)) hperforms
      fun event hevent e he => ⟨event, hevent, he⟩
    have hdecides := Contract.of_tracking (s := []) (assess_decides (E := E) (by simp)) hperforms
      fun event hevent e he => ⟨event, hevent, he⟩
    cases r with
    | ok decision =>
      -- a decision was returned, so nothing was raised on the way
      refine iff_of_true ⟨decision, rfl, hdecides decision rfl⟩ ⟨hcalm.mpr id, hjudges.1⟩
    | error e =>
      -- what was raised came from the bulkhead, or from a hostile response
      refine iff_of_false (by simp) ?_
      intro h
      obtain ⟨hquiet, hharmless⟩ := h
      rcases hjudges with ⟨event, hevent, hraised⟩ | ⟨cause, x, -, hx, hhostile⟩
      · exact hquiet event hevent ⟨(hsheltered event hevent e hraised).1, e, hraised⟩
      · exact hharmless x hx hhostile
  · intro service settings metricName request t r hopen hperforms hsheltered
    obtain ⟨history, houtlived, hundropped, hdependable⟩ :=
      Contract.of_recording (u := []) (assessedRun_outage (t := t) hopen) hperforms
        fun event hevent => ⟨hevent, hsheltered event hevent⟩
    rw [List.nil_append] at hundropped hdependable
    cases r with
    -- the movement was served
    | ok result => exact iff_of_true (fun hends => hends.elim) (hundropped.mp houtlived)
    | error e =>
      obtain ⟨hraised, hends⟩ := houtlived
      constructor
      · intro hblamed
        -- it ended otherwise, or as unavailable through no fault of the port
        rcases hends with hquiet | ⟨hunavailable, hserved⟩
        · exact hundropped.mp hquiet
        · obtain ⟨event, hevent, hport⟩ := hblamed hunavailable
          exact absurd hport (hdependable.mp hserved event hevent)
      · -- if nothing was out, the port is not to blame
        intro hquiet hunavailable
        rcases hraised hunavailable with ⟨event, hevent, houtage⟩ | hport
        · exact absurd houtage (hquiet event hevent)
        · exact hport

/-! ## A deposit that the provider allows -/

private def scored : TransportPolicy where
  service := "risk"

/-- An object whose decision is `allow`. -/
private def permitting : HttpResponse where
  status := 200
  retryAfter := none
  segments := [[123, 34, 100, 101, 99, 105, 115, 105, 111, 110, 34, 58, 34, 97, 108, 108, 111, 119,
    34, 125]]
  segments_ne := by decide

private def asked : RiskCheck := ⟨Sample.wallet.id, Sample.owner, Sample.euro, .credit, none⟩

private def down (operation : String) : Exn := dependencyUnavailable "redis" operation

private theorem down_unavailable (operation : String) : (down operation).Unavailable :=
  ⟨_, rfl, rfl⟩

private theorem conclude_permitting : conclude Sample.latin scored (.response permitting) =
    .ok (⟨some 200, some [("decision", .str "allow")], .none⟩, none) := rfl

private theorem reads_permitting :
    (Exchange.response permitting).Reads Sample.latin scored [("decision", .str "allow")] :=
  ⟨by decide, by decide, rfl⟩

/-- The call, and an exit of the bulkhead that raises. -/
private def lostAtExit : List (Event WireOp WireResp) :=
  [⟨.enterBulkhead scored.bulkhead, .ok true⟩, ⟨.monotonic, (0 : ℚ)⟩, ⟨.monotonic, (0 : ℚ)⟩,
    ⟨.post (address "http://risk" "assess") (riskPayload asked)
      (attemptTimeout scored scored.budgetMs), .response permitting⟩,
    ⟨.exitBulkhead, .error (down "bulkhead.release")⟩]

private theorem lostAtExit_sheltered : ∀ event ∈ lostAtExit, Sheltered event := by
  simp [lostAtExit, Sheltered, wireFailure, WireOp.Guards, down_unavailable]

private theorem performs_lost : (assess Sample.latin scored "http://risk" "assess" asked).Performs
    lostAtExit (.done (.error (down "bulkhead.release"))) := by
  have hend : ∀ response delay,
      conclude Sample.latin scored (.response permitting) = .ok (response, delay) →
        response.failure.retryable = false := by
    intro response delay hconclude
    cases conclude_permitting.symm.trans hconclude
    rfl
  have hloop := attemptLoop_once (address "http://risk" "assess") (riskPayload asked) (by decide)
    (by decide) hend
  have hpost : (guardedPost Sample.latin scored (address "http://risk" "assess")
      (riskPayload asked)).Performs lostAtExit (.done (.error (down "bulkhead.release"))) := by
    apply Program.Performs.cons
    apply hloop.handle
    apply Program.Performs.cons
    exact .nil _
  apply Program.Performs.handle_ends (r := .error (down "bulkhead.release"))
  · exact hpost.handle_ends rfl
  · rfl

/-- A deposit that may go on unassessed begins with the assessment. -/
private theorem open_deposit : ∃ resume,
    run {} { rateLimitEnabled := false, riskFailOpen := true } "deposit_to_wallet"
        (Sample.deposit none) = .request (.assess asked) resume ∧
      (∀ e, resume (.error e) =
        .request (.observe (.interactor "deposit_to_wallet" (failureLabel e)))
          fun _ => .done (.error e)) ∧
      ∃ rest, resume (.ok ⟨.allowed, "", ""⟩) =
          .request (.enterLock (lockKey Sample.wallet.id) 5000 2000) rest ∧
        ∀ e, rest (.error e) =
          .request (.observe (.interactor "deposit_to_wallet" (failureLabel e)))
            fun _ => .done (.error e) :=
  ⟨_, rfl, fun _ => rfl, _, rfl, fun _ => rfl⟩

private def openDeposit : Program NetOp NetResp Exn MovementResult :=
  assessedRun Sample.latin scored "http://risk" "assess" {}
    { rateLimitEnabled := false, riskFailOpen := true } "deposit_to_wallet" (Sample.deposit none)

private def lockDown : Event NetOp NetResp :=
  ⟨.port (.enterLock (lockKey Sample.wallet.id) 5000 2000), .error (down "lock.acquire")⟩

/-- The metric that a movement records on its way out. -/
private def recorded (e : Exn) : Event NetOp NetResp :=
  ⟨.port (.observe (.interactor "deposit_to_wallet" (failureLabel e))), ()⟩

private theorem performs_dropped : openDeposit.Performs
    (lostAtExit.map onWire ++ [recorded (down "bulkhead.release")])
    (.done (.error (down "bulkhead.release"))) := by
  obtain ⟨resume, hrun, herror, -⟩ := open_deposit
  have hassessed := performs_assess resume performs_lost
  rw [herror, ← hrun] at hassessed
  exact hassessed.append (performs_port _ (by simp) _ _)

/-- The call, and nothing is lost. -/
private def untilPermitted : List (Event WireOp WireResp) :=
  onceThrough scored (address "http://risk" "assess") (riskPayload asked) (.response permitting) ++
    [⟨.observe (.externalCall "risk" "assess" "success"), ()⟩]

/-- The same in a movement, whose lock is down. -/
private def untilTheLock : List (Event NetOp NetResp) :=
  untilPermitted.map onWire ++
  [lockDown] ++ [recorded (down "lock.acquire")]

private theorem performs_permitted : openDeposit.Performs untilTheLock
    (.done (.error (down "lock.acquire"))) := by
  obtain ⟨resume, hrun, -, rest, hallowed, herror⟩ := open_deposit
  have hassessed := performs_assess resume (assess_answered "http://risk" "assess" asked
    (by decide) (by decide) conclude_permitting rfl)
  rw [← hrun, show decisionOf _ = ⟨.allowed, "", ""⟩ from rfl, hallowed] at hassessed
  have hlocked := hassessed.append (performs_port (.enterLock (lockKey Sample.wallet.id) 5000 2000)
    (by simp) (.error (down "lock.acquire")) rest)
  rw [herror] at hlocked
  exact hlocked.append (performs_port _ (by simp) _ _)

theorem bulkhead_outage_iff_permitted :
    (∀ event ∈ untilPermitted, ¬Outage event) ∧ ∀ event ∈ untilTheLock, ¬NetOutage event := by
  have hsheltered : ∀ event ∈ untilPermitted, Sheltered event := by
    simp [untilPermitted, onceThrough, Sheltered, wireFailure]
  constructor
  · have hperforms := assess_answered "http://risk" "assess" asked (by decide) (by decide)
      conclude_permitting rfl
    refine (((bulkhead_outage_iff Sample.latin scored "http://risk" "assess").1 _ _ _ hperforms
      hsheltered).mp ⟨_, rfl, ?_⟩).1
    intro x hx items hreads
    obtain rfl := List.mem_singleton.mp hx
    rw [hreads.unique reads_permitting]
    rfl
  · refine ((bulkhead_outage_iff Sample.latin scored "http://risk" "assess").2 _ _ _ _ _ _ rfl
      performs_permitted ?_).mp ?_
    · rw [untilTheLock, List.forall_mem_append, List.forall_mem_append, List.forall_mem_map]
      refine ⟨⟨hsheltered, ?_⟩, ?_⟩
      · exact List.forall_mem_singleton.mpr trivial
      · exact List.forall_mem_singleton.mpr trivial
    · intro _
      refine ⟨lockDown, by simp [untilTheLock], ?_⟩
      exact ⟨down "lock.acquire", rfl, down_unavailable _⟩

/-- The bulkhead's store is down when the call comes: no attempt is made, and no decision. It
    is down when the provider has allowed the deposit already: the decision is lost. Either way
    a deposit that may go on unassessed is a 503. -/
theorem outage_replaces_the_decision :
    (∃ t, (∀ event ∈ t, Sheltered event) ∧ t.foldl exchanged [] = [] ∧
      (assess Sample.latin scored "http://risk" "assess" asked).Performs t
        (.done (.error (down "bulkhead.acquire")))) ∧
    (∃ t, (∀ event ∈ t, Sheltered event) ∧
      t.foldl exchanged [] = [.response permitting] ∧
      (Exchange.response permitting).Reads Sample.latin scored [("decision", .str "allow")] ∧
      (assess Sample.latin scored "http://risk" "assess" asked).Performs t
        (.done (.error (down "bulkhead.release")))) ∧
    ∃ t, (∀ event ∈ t, NetSheltered event) ∧ (∀ event ∈ t, ¬NetUnavailable event) ∧
      openDeposit.Performs t (.done (.error (down "bulkhead.release"))) ∧
      (down "bulkhead.release").Unavailable := by
  refine ⟨⟨[⟨.enterBulkhead scored.bulkhead, .error (down "bulkhead.acquire")⟩], ?_, rfl,
    .cons _ (.nil _)⟩, ⟨lostAtExit, ?_, rfl, reads_permitting, performs_lost⟩,
    ⟨_, ?_, ?_, performs_dropped, down_unavailable _⟩⟩
  · simp [Sheltered, wireFailure, WireOp.Guards, down_unavailable]
  · exact lostAtExit_sheltered
  · rw [List.forall_mem_append, List.forall_mem_map, List.forall_mem_singleton]
    exact ⟨lostAtExit_sheltered, trivial⟩
  · rw [List.forall_mem_append, List.forall_mem_map, List.forall_mem_singleton]
    refine ⟨fun event _ => id, ?_⟩
    simp [recorded, NetUnavailable, PortUnavailable, Application.failure]

end Evenkeel.Properties
