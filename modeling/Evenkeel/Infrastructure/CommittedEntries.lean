import Evenkeel.Infrastructure.Sessions

/-!
# Committed Entries

What the commits of a run say of the requests that made them: a request whose session is
committed has entered its entry into the ledger, and only a request that has issued a
commit has committed anything.

- `Enters`: a request has committed a new entry
- `Committed`: the invariant

## Key Results

- `committed_of_run`: every run keeps it
-/

namespace Evenkeel.Infrastructure

open Evenkeel.Domain Evenkeel.Application Evenkeel.Effects

/-- Request `i` has committed a transaction with a new entry, which is in the ledger. -/
def World.Enters (w : World) (i : ℕ) (id : LedgerEntryId) : Prop :=
  ∃ tx row, (i, tx) ∈ w.commits ∧ row ∈ tx.newEntries ∧ row ∈ w.db.ledger ∧ row.id = id.value

/-- What is known of the commits, beside the sessions. -/
structure Committed (requests : ℕ → Request) (t : List (Occurrence Op Resp)) (w : World)
    (g : ℕ → Call) : Prop where
  tracked : Tracked requests t w g
  ledger : ∀ c ∈ w.commits, ∀ row ∈ c.2.newEntries, row ∈ w.db.ledger
  performed : ∀ c ∈ w.commits, ∃ x, ⟨.commit, x⟩ ∈ Pool.ownEvents c.1 t
  entered : ∀ i a e, (g i).session = .committed a e → w.Enters i e.id

namespace Committed

variable {service : WalletMovementSettings} {requests : ℕ → Request}
  {t : List (Occurrence Op Resp)} {w w' : World} {g : ℕ → Call} {i : ℕ}

theorem start {now : Instant} {db : Database} {idempotency : Entries Receipt} (h : db.Sound) :
    Committed requests [] (World.start now db idempotency) fun _ => Call.initial := by
  refine ⟨Tracked.start h, by simp [World.start], by simp [World.start], ?_⟩
  intro i a e hsession
  cases hsession

/-- A step keeps what was committed before it. -/
private theorem enters_of_grows {id : LedgerEntryId} (h : w.Enters i id)
    (hcommits : ∀ c ∈ w.commits, c ∈ w'.commits) (hgrows : w.db.Grows w'.db) :
    w'.Enters i id := by
  obtain ⟨tx, row, htx, hrow, hledger, hid⟩ := h
  exact ⟨tx, row, hcommits _ htx, hrow, hgrows.entry row hledger, hid⟩

/-- The commit of a request that has updated its wallet enters the entry it recorded. -/
private theorem enters_of_commit {a a' : Wallet} {e : LedgerEntry} {x : Resp .commit}
    (htracks : (w.tx i).Tracks (requests i) w.db (.updated a a' e))
    (hans : w.Serves i .commit x w') : w'.Enters i e.id := by
  obtain ⟨m, row, row', -, -, -, -, -, hwrites⟩ := htracks
  obtain ⟨-, rfl⟩ := hans
  have hentry : LedgerRow.ofEntry e ∈ (w.tx i).newEntries := by
    rw [hwrites.newEntries]
    exact List.mem_singleton_self _
  refine ⟨w.tx i, .ofEntry e, ?_, hentry, ?_, rfl⟩
  · exact List.mem_append_right _ (List.mem_singleton_self _)
  · exact List.mem_append_right _ hentry

theorem answered {op : Op} {x : Resp op} {c : Claim} (h : Committed requests t w g)
    (hopen : .closed i ∉ t) (hallow : (g i).allows service (requests i) op)
    (hans : w.Answers i op x w') :
    Committed requests (t ++ [.answered i ⟨op, x⟩]) w'
      (Function.update g i ⟨(g i).session.next op x, c⟩) := by
  have hgrows := Database.Grows.of_posts h.tracked.unique (h.tracked.posts hopen hallow hans)
  have hkept : ∀ c ∈ w.commits, c ∈ w'.commits := fun c hc => hans.mem_commits hc
  -- the entries that are committed, the commits that were performed, and the sessions behind them
  refine ⟨h.tracked.answered hopen hallow hans, ?_, ?_, ?_⟩
  · intro c hc row hrow
    -- the entry of this step is the one at the end of the table
    rcases hans.mem_commits_new hc with hold | ⟨rfl, rfl, hdb⟩
    · exact hgrows.entry row (h.ledger c hold row hrow)
    · rw [hdb]
      exact List.mem_append_right _ hrow
  · intro c hc
    rw [Pool.ownEvents_append, Pool.ownEvents_answered]
    rcases hans.mem_commits_new hc with hold | ⟨rfl, rfl, -⟩
    · obtain ⟨y, hy⟩ := h.performed c hold
      exact ⟨y, List.mem_append_left _ hy⟩
    · exact ⟨x, by simp⟩
  · intro j a e hsession
    by_cases hji : j = i
    · subst hji
      rw [Function.update_self] at hsession
      by_cases hop : op = .commit
      · subst hop
        -- only from an updated session does a commit lead here, and only if it returned
        have htracks := h.tracked.tracks j hopen
        cases x with
        | error e => cases hsession
        | ok u =>
          cases hs : (g j).session with
          | updated b b' e' =>
            rw [hs] at hsession htracks
            cases hsession
            rcases hans with hserves | ⟨⟨e, he⟩, -⟩
            · exact enters_of_commit htracks hserves
            · cases he
          | _ =>
            rw [hs] at hsession
            cases hsession
      · have hbefore := Session.committed_of_next hsession hop
        exact enters_of_grows (h.entered j a e hbefore) hkept hgrows
    · -- somebody else's session stays as it was, and nothing is taken out of the tables
      rw [Function.update_of_ne hji] at hsession
      exact enters_of_grows (h.entered j a e hsession) hkept hgrows

theorem closed (h : Committed requests t w g) :
    Committed requests (t ++ [.closed i]) (w.discard i) g := by
  refine ⟨h.tracked.closed, h.ledger, ?_, h.entered⟩
  intro c hc
  simpa [Pool.ownEvents_append] using h.performed c hc

theorem drifted {now : Instant} (h : Committed requests t w g) :
    Committed requests (t ++ [.drifted]) { w with now := now } g := by
  refine ⟨h.tracked.drifted, h.ledger, ?_, h.entered⟩
  intro c hc
  simpa [Pool.ownEvents_append] using h.performed c hc

end Committed

/-- A transaction is committed by its own request. -/
theorem performed_of_run {service : WalletMovementSettings} {settings : MoveMoneySettings}
    {requests : ℕ → Request} {G : Pool.Guard deployment Exn Answer} {now : Instant}
    {db : Database} {idempotency : Entries Receipt} {t : List (Occurrence Op Resp)}
    {Q : Pool deployment Exn Answer}
    (hrun : Pool.RunUnder G
      (arrivals service settings requests (World.start now db idempotency)) t Q) :
    ∀ c ∈ Q.world.commits, ∃ x, ⟨.commit, x⟩ ∈ Pool.ownEvents c.1 t := by
  induction hrun with
  | nil =>
    intro c hc
    cases hc
  | @snoc t Q R o _ hstep _ ih =>
    -- by induction on the run: only a commit adds to the list
    intro c hc
    rw [Pool.ownEvents_append]
    cases hstep with
    | @answered i op resume x w hclient hworld =>
      rcases World.Answers.mem_commits_new hworld hc with hold | ⟨rfl, rfl, -⟩
      · obtain ⟨y, hy⟩ := ih c hold
        exact ⟨y, List.mem_append_left _ hy⟩
      · exact ⟨x, by simp [Pool.ownEvents_answered]⟩
    | closed hclient hworld =>
      obtain rfl := hworld
      simpa using ih c hc
    | drifted hworld =>
      obtain ⟨now, -, rfl⟩ := hworld
      simpa using ih c hc

/-- The run lemma. -/
theorem committed_of_run {service : WalletMovementSettings} {settings : MoveMoneySettings}
    {requests : ℕ → Request} {G : Pool.Guard deployment Exn Answer} {now : Instant}
    {db : Database} {idempotency : Entries Receipt} {t : List (Occurrence Op Resp)}
    {Q : Pool deployment Exn Answer} (hsound : db.Sound)
    (hrun : Pool.RunUnder G
      (arrivals service settings requests (World.start now db idempotency)) t Q) :
    ∃ g, Committed requests t Q.world g ∧
      ∀ i, (protocol service (requests i)).wp (Q.clients i) (requests i).Meets (g i) := by
  have hupholds : Pool.RunUnder.Upholds (fun i => protocol service (requests i)) G
      (fun i => (requests i).Meets) (Committed requests) := by
    constructor
    · intro t R R' g i op x hwp hinv hopen hallow hans hG
      exact ⟨_, ⟨promises_of_answers hans, rfl⟩, hinv.answered hopen hallow hans⟩
    · intro t R w g i r hdone hwp hinv hcloses
      obtain rfl : w = R.world.discard i := hcloses
      exact hinv.closed
    · intro t R w g hwp hinv hdrifts hG
      obtain ⟨now, hnow, rfl⟩ := hdrifts
      exact hinv.drifted
  exact hrun.upholds hupholds (fun i => Request.meets_protocol service settings (requests i))
    (Committed.start hsound)

end Evenkeel.Infrastructure
