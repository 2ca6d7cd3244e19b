import Evenkeel.Application.MovementMetrics
import Evenkeel.Infrastructure.CommittedEntries

/-!
# Metrics and the Ledger

The outcomes that the interactors record, beside what their calls committed. The label of a
movement that was let through without an assessment takes no notice of replays.
-/

namespace Evenkeel.Properties

open Evenkeel.Domain Evenkeel.Application Evenkeel.Effects Evenkeel.Infrastructure

/-- The outcome of call `i`, with the events `u`, is what its commits say. -/
def Reconciles (w : World) (i : ℕ) (u : List (Event Op Resp)) : Prop :=
  ∃ label, outcomes u = [label] ∧
    (label = "success" ∨ label = "success_unassessed" ↔ ∃ id, w.Enters i id) ∧
    (label = "success_unassessed" ↔ (∃ id, w.Enters i id) ∧ Unassessed u) ∧
    ((¬∃ id, w.Enters i id) → label = "replayed")

/-- Any run of any requests, whatever fails. A call of an interactor that has ended has
    recorded one outcome. If it returned, the outcome reconciles with the ledger exactly where
    it is not both true that the provider was unavailable and that the call found its key
    completed, with the rows of the record. -/
theorem metrics_reconcile_iff {service : WalletMovementSettings} {settings : MoveMoneySettings}
    {requests : ℕ → Request} {now : Instant} {db : Database} {idempotency : Entries Receipt}
    {t : List (Occurrence Op Resp)} {Q : Pool deployment Exn Answer} {i : ℕ}
    {r : Except Exn Answer} (hsound : db.Sound)
    (hrun : Pool.Run
      (arrivals service settings requests (World.start now db idempotency)) t Q)
    (hmoves : (requests i).MovesMoney) (hdone : Q.clients i = .done r) :
    (∃ label, outcomes (Pool.ownEvents i t) = [label]) ∧
      ∀ a, r = .ok a → (Reconciles Q.world i (Pool.ownEvents i t) ↔
        ¬(Unassessed (Pool.ownEvents i t) ∧ ReadBack (Pool.ownEvents i t))) := by
  obtain ⟨g, hcommitted, hwp⟩ := committed_of_run hsound hrun
  have hperforms := hrun.performs i
  rw [hdone] at hperforms
  obtain ⟨y, rfl, label, houtcomes, hresult⟩ :=
    Contract.of_recording ((requests i).accounts hmoves service settings) hperforms
      fun _ _ => trivial
  rw [List.nil_append] at houtcomes hresult
  refine ⟨⟨label, houtcomes⟩, ?_⟩
  intro a ha
  cases y with
  | error e => cases ha
  | ok result =>
    cases ha
    obtain ⟨⟨decision, hdecision, rfl⟩, hread, huncommitted⟩ := hresult result rfl
    have hunassessed : Unassessed (Pool.ownEvents i t) ↔ decision.available = false := by
      simp [Unassessed, hdecision]
    -- a replay has committed nothing, and anything else what it reports
    have henters : (∃ id, Q.world.Enters i id) ↔ result.replayed = false := by
      constructor
      · intro hentered
        obtain ⟨id, tx, row, htx, -⟩ := hentered
        obtain ⟨x, hx⟩ := hcommitted.performed _ htx
        by_contra hreplayed
        exact huncommitted (by simpa using hreplayed) _ hx rfl
      · intro hfresh
        have hmeets := hwp i
        rw [hdone] at hmeets
        obtain ⟨m, out, -, hreports, rfl⟩ : (requests i).Says (g i) (.moved result) :=
          hmeets.2 _ rfl
        exact ⟨_, hcommitted.entered i _ _ (hreports.applied hfresh).1⟩
    rw [← hread, hunassessed]
    unfold Reconciles
    simp only [houtcomes, henters, hunassessed, movementLabel]
    cases havailable : decision.available <;> cases hreplayed : result.replayed <;> simp

/-! A deposit while the provider is unreachable, where that is let through, and a retry of it. -/

private def sameDeposit : ℕ → Request := fun _ =>
  .deposit ⟨Sample.wallet.id, Sample.owner, Sample.euro, "deposit", some "k"⟩

private def failOpen : MoveMoneySettings := { rateLimitEnabled := false, riskFailOpen := true }

private def unreachable : RiskDecision := ⟨.unavailable, "connection", ""⟩

private def unvisited : World := World.start 0 Sample.database fun _ => none

/-- The first call moves the money, and the second one, which is answered with its receipt, is
    labelled like it. -/
private theorem deposit_and_retry : ∃ t Q tx,
    Pool.Run (arrivals {} failOpen sameDeposit unvisited) t Q ∧
      Q.clients 0 = .done (.ok (.moved ⟨⟨Sample.minted⟩, Sample.wallet.id, Sample.euro, false⟩)) ∧
      Q.clients 1 = .done (.ok (.moved ⟨⟨Sample.minted⟩, Sample.wallet.id, Sample.euro, true⟩)) ∧
      ¬ReadBack (Pool.ownEvents 0 t) ∧
      outcomes (Pool.ownEvents 1 t) = ["success_unassessed"] ∧ Q.world.commits = [(0, tx)] := by
  have h := Pool.RunUnder.nil (G := fun _ _ _ _ => True)
    (P := arrivals {} failOpen sameDeposit unvisited)
  have h := h.answer 0 rfl (.ok unreachable) _ (.inl ⟨⟨unreachable, rfl⟩, rfl⟩) trivial
  have h := h.answer 0 rfl _ _ (.inl (Sample.serves_claim rfl rfl)) trivial
  have h := h.answer 0 rfl (.ok true) _ (.inl (.inl ⟨rfl, rfl⟩)) trivial
  have h := h.answer 0 rfl () _ (.inl rfl) trivial
  have h := h.answer 0 rfl (.ok (some Sample.wallet)) _ (.inl ⟨rfl, rfl⟩) trivial
  have h := h.answer 0 rfl (0 : ℤ) _ (.inl rfl) trivial
  have h := h.answer 0 rfl Sample.minted _ (.inl rfl) trivial
  have h := h.answer 0 rfl (.ok ()) _ (.inl ⟨rfl, World.newEntryId_of_blank (by rintro row ⟨⟩)
    (by rintro (_ | j) <;> rfl), rfl⟩) trivial
  have h := h.answer 0 rfl (.ok true) _ (.inl (.inl ⟨rfl, World.free_of_blank
    (by rintro (_ | j) hj; exacts [absurd rfl hj, rfl]), .ofWallet Sample.wallet,
    List.mem_singleton_self _, ⟨rfl, rfl⟩, rfl⟩)) trivial
  have h := h.answer 0 rfl (.ok ()) _ (.inl ⟨rfl, rfl⟩) trivial
  have h := h.answer 0 rfl _ _ (.inl (Sample.serves_confirm rfl rfl)) trivial
  have h := h.answer 0 rfl () _ (.inl rfl) trivial
  have h := h.answer 0 rfl (.ok ()) _ (.inl ⟨rfl, rfl⟩) trivial
  have h := h.answer 0 rfl () _ (.inl rfl) trivial
  -- the retry
  have h := h.answer 1 rfl (.ok unreachable) _ (.inl ⟨⟨unreachable, rfl⟩, rfl⟩) trivial
  have h := h.answer 1 rfl _ _ (.inl (Sample.serves_replay rfl rfl)) trivial
  have h := h.answer 1 rfl (.ok (some (Sample.entry Sample.minted))) _ (.inl ⟨rfl, rfl⟩) trivial
  have h := h.answer 1 rfl (.ok (some Sample.credited)) _ (.inl ⟨rfl, rfl⟩) trivial
  have h := h.answer 1 rfl (.ok ()) _ (.inl ⟨rfl, rfl⟩) trivial
  have h := h.answer 1 rfl () _ (.inl rfl) trivial
  refine ⟨_, _, _, h, rfl, rfl, ?_, rfl, rfl⟩
  simp [ReadBack, Pool.ownEvents, FindsEntry]

theorem metrics_reconcile_iff_deposit : ∃ t Q,
    Pool.Run (arrivals {} failOpen sameDeposit unvisited) t Q ∧
      Reconciles Q.world 0 (Pool.ownEvents 0 t) := by
  obtain ⟨t, Q, tx, hrun, hdone, -, hread, -, -⟩ := deposit_and_retry
  have hiff := metrics_reconcile_iff (Database.Sound.opened _ _ _ _ _) hrun trivial hdone
  exact ⟨t, Q, hrun, (hiff.2 _ rfl).mpr fun h => hread h.2⟩

/-- The retry is counted as money that moved unassessed, and has moved none. -/
theorem replay_counted_as_success : ∃ t Q a,
    Pool.Run (arrivals {} failOpen sameDeposit unvisited) t Q ∧ Q.clients 1 = .done (.ok a) ∧
      outcomes (Pool.ownEvents 1 t) = ["success_unassessed"] ∧
      ¬Reconciles Q.world 1 (Pool.ownEvents 1 t) := by
  obtain ⟨t, Q, tx, hrun, -, hdone, -, houtcomes, hcommits⟩ := deposit_and_retry
  refine ⟨t, Q, _, hrun, hdone, houtcomes, ?_⟩
  intro hreconciles
  obtain ⟨label, hlabel, hsuccess, -, -⟩ := hreconciles
  obtain rfl : "success_unassessed" = label := by
    rw [houtcomes] at hlabel
    exact List.cons.inj hlabel |>.1
  obtain ⟨id, tx', row, htx, -⟩ := hsuccess.mp (.inr rfl)
  rw [hcommits] at htx
  cases List.mem_singleton.mp htx

end Evenkeel.Properties
