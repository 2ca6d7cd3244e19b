import Evenkeel.Infrastructure.AssessedMovements
import Evenkeel.Infrastructure.Deployment

/-!
# Failing Closed

Between a provider's answer and the wallet stand a retry loop, the classification of a
response, the vocabulary of the adapter and the policy of the interactor. Where movements that
cannot be assessed are refused, none of them turns anything but permission into permission.
-/

namespace Evenkeel.Properties

open Evenkeel.Application Evenkeel.Effects Evenkeel.Infrastructure Evenkeel.Python

/-- At every point of every execution of the interactor, over any policy of the transport and
    whatever the provider, the network and the other ports do:

    - if it goes on to an operation of the service (`apply_begins` has the first one), the
      exchange that was made last was answered with a status below 300 and, in a body within
      the cap, an object whose decision is `allow`;
    - if it goes on to an attempt, no exchange before was answered with an object;
    - if it ends in a refusal that no port has raised, the exchange that was made last was
      answered with an object whose decision is `refuse`. -/
theorem movements_fail_closed {py : Interpreter} {policy : TransportPolicy}
    {baseUrl path : String} {service : WalletMovementSettings} {settings : MoveMoneySettings}
    {metricName : String} {request : MovementRequest} {t : List (Event NetOp NetResp)}
    {q : Program NetOp NetResp Exn MovementResult} (hclosed : settings.riskFailOpen = false)
    (hperforms :
      (assessedRun py policy baseUrl path service settings metricName request).Performs t q) :
    (∀ op resume, q = .request op resume → ¬Preliminary op →
      LastSays py policy "allow" (t.foldl netExchanged [])) ∧
    (∀ url payload timeout resume, q = .request (.wire (.post url payload timeout)) resume →
      ∀ x ∈ t.foldl netExchanged [], ∀ items, ¬x.Reads py policy items) ∧
    ∀ e, q = .done (.error e) → e.code = some .movementRefused →
      (∀ event ∈ t, netFailure e event.1 ≠ some event.2) →
      LastSays py policy "refuse" (t.foldl netExchanged []) := by
  -- what the ports raised in this very execution
  let E : Exn → Prop := fun e => Unrefused e ∨ ∃ event ∈ t, netFailure e event.1 = some event.2
  have hE : ∀ e, Unrefused e → E e := fun e he => .inl he
  have hrest := Contract.of_tracking (assessedRun_wp hE hclosed) hperforms
    fun event hevent e he => .inr ⟨event, hevent, he⟩
  refine ⟨?_, ?_, ?_⟩
  · intro op resume hq hop
    subst hq
    exact hrest.1.1 hop
  · intro url payload timeout resume hq x hx
    subst hq
    exact (hrest.1.2 url payload timeout rfl x hx).1
  · intro e hq hcode hports
    subst hq
    rcases hrest e rfl with (hunrefused | ⟨event, hevent, hraised⟩) | hlast
    · exact absurd hcode hunrefused
    · exact absurd hraised (hports event hevent)
    · exact hlast

/-! ## A movement that is allowed -/

private def allow : List UInt8 :=
  [123, 34, 100, 101, 99, 105, 115, 105, 111, 110, 34, 58, 34, 97, 108, 108, 111, 119, 34, 125]

private def allowing : HttpResponse := ⟨200, none, [allow], by decide⟩

private def deposits : TransportPolicy where
  service := "risk"

private theorem conclude_allowing : conclude Sample.latin deposits (.response allowing) =
    .ok (⟨some 200, some [("decision", .str "allow")], .none⟩, none) := rfl

private def untilAnswered : List (Event WireOp WireResp) :=
  onceThrough deposits (address "http://risk" "assess")
      (riskPayload ⟨Sample.wallet.id, Sample.owner, Sample.euro, .credit, none⟩)
      (.response allowing) ++
    [⟨.observe (.externalCall "risk" "assess" "success"), ()⟩]

private theorem performs_allowed : ∃ resume,
    (assessedRun Sample.latin deposits "http://risk" "assess" {} { rateLimitEnabled := false }
      "deposit_to_wallet" (Sample.deposit none)).Performs (untilAnswered.map onWire)
      (.request (.port (.enterLock (lockKey Sample.wallet.id) 5000 2000)) resume) := by
  obtain ⟨resume, hrun, rest, hrest⟩ : ∃ resume, run {} { rateLimitEnabled := false }
        "deposit_to_wallet" (Sample.deposit none) =
        .request (.assess ⟨Sample.wallet.id, Sample.owner, Sample.euro, .credit, none⟩) resume ∧
      ∃ rest, resume (.ok ⟨.allowed, "", ""⟩) =
        .request (.enterLock (lockKey Sample.wallet.id) 5000 2000) rest :=
    ⟨_, rfl, _, rfl⟩
  have hnext := performs_assess resume (assess_answered "http://risk" "assess"
    ⟨Sample.wallet.id, Sample.owner, Sample.euro, .credit, none⟩ (by decide) (by decide)
    conclude_allowing rfl)
  have hcall : (resume (.ok ⟨.allowed, "", ""⟩)).expand
      (overHttp Sample.latin deposits "http://risk" "assess") = .request
        (.port (.enterLock (lockKey Sample.wallet.id) 5000 2000))
        fun x => (rest x).expand (overHttp Sample.latin deposits "http://risk" "assess") := by
    rw [hrest]
    rfl
  refine ⟨fun x => (rest x).expand (overHttp Sample.latin deposits "http://risk" "assess"), ?_⟩
  rw [assessedRun, hrun, ← hcall]
  exact hnext

theorem movements_fail_closed_allowed :
    LastSays Sample.latin deposits "allow" ((untilAnswered.map onWire).foldl netExchanged []) := by
  obtain ⟨resume, hperforms⟩ := performs_allowed
  exact (movements_fail_closed rfl hperforms).1 _ resume rfl id

end Evenkeel.Properties
