import Evenkeel.Application.ServiceOperations

/-!
# The Metrics of a Movement

What `_MovementInteractor._run` records of a call, whatever its ports answer: one outcome,
with a label that depends on the provider's answer and on whether the call was a replay.

- `outcomes`, `decisions`: what a history recorded, and what the provider answered in it
- `ReadBack`: the record of the key was found, with its entry and its wallet
- `Accounts`: the label of a call that returns

## Key Results

- `Request.accounts`: every complete history of a call accounts for its result
-/

namespace Evenkeel.Application

open Evenkeel.Domain Evenkeel.Effects

/-! ## Histories -/

/-- The outcomes of `observe_interactor`, in order. -/
def outcomes (t : List (Event Op Resp)) : List String :=
  t.filterMap fun
    | ⟨.observe (.interactor _ outcome), _⟩ => some outcome
    | _ => none

/-- What the provider of risk decisions answered. -/
def decisions (t : List (Event Op Resp)) : List RiskDecision :=
  t.filterMap fun
    | ⟨.assess _, .ok decision⟩ => some decision
    | _ => none

/-- The provider was not available. -/
def Unassessed (t : List (Event Op Resp)) : Prop :=
  ∃ decision ∈ decisions t, decision.available = false

/-- The entry of a record was found. -/
def FindsEntry : Event Op Resp → Prop
  | ⟨.readEntry .., .ok (some _)⟩ => True
  | _ => False

/-- So was its wallet, which is read without a lock. -/
def FindsWallet : Event Op Resp → Prop
  | ⟨.readWallet _ _ false, .ok (some _)⟩ => True
  | _ => False

/-- The key of the call was completed before, and the rows of its record are still there. -/
def ReadBack (t : List (Event Op Resp)) : Prop :=
  (∃ event ∈ t, FindsEntry event) ∧ ∃ event ∈ t, FindsWallet event

section

variable {t u : List (Event Op Resp)} {op : Op} {x : Resp op}

theorem outcomes_append : outcomes (t ++ u) = outcomes t ++ outcomes u :=
  List.filterMap_append

theorem decisions_append : decisions (t ++ u) = decisions t ++ decisions u :=
  List.filterMap_append

theorem exists_snoc {P : Event Op Resp → Prop} :
    (∃ event ∈ t ++ [⟨op, x⟩], P event) ↔ (∃ event ∈ t, P event) ∨ P ⟨op, x⟩ := by
  simp [or_and_right, exists_or]

/-- The service does not ask the provider, and leaves the outcome to its caller. -/
theorem silent_of_service (hop : op.Claims ∨ op.Moves) :
    outcomes [⟨op, x⟩] = [] ∧ decisions [⟨op, x⟩] = [] := by
  cases op with
  | assess => exact (hop.elim id id : False).elim
  | observe observation =>
    cases observation with
    | interactor => exact (hop.elim id id : False).elim
    | _ => exact ⟨rfl, rfl⟩
  | _ => exact ⟨rfl, rfl⟩

theorem not_finds_of_moves (hop : op.Moves) : ¬FindsEntry ⟨op, x⟩ ∧ ¬FindsWallet ⟨op, x⟩ := by
  cases op with
  | readEntry => exact hop.elim
  | readWallet walletId ownerId forUpdate =>
    obtain rfl : forUpdate = true := hop
    exact ⟨id, id⟩
  | _ => exact ⟨id, id⟩

end

/-! ## Contracts that only record -/

/-- Every answer is possible. -/
abbrev anything : Contract Op Resp := .recording fun _ => True

section

variable {I : List (Event Op Resp) → Prop}

theorem permits_recording {op : Op} (h : ∀ t x, I t → I (t ++ [⟨op, x⟩])) :
    Permits anything I (fun _ => True) op := by
  intro t ht
  refine ⟨trivial, ?_⟩
  intro x t' hstep
  obtain ⟨-, rfl⟩ := hstep
  exact ⟨h t x ht, fun _ _ => trivial⟩

variable {service : WalletMovementSettings} {request : MovementRequest}

/-- The service records no outcome. -/
theorem apply_silent {labels : List String} {answers : List RiskDecision} :
    anything.Keeps (fun t => outcomes t = labels ∧ decisions t = answers) (fun _ => True)
      (apply service request) := by
  have hsilent : ∀ op : Op, op.Claims ∨ op.Moves →
      Permits anything (fun t => outcomes t = labels ∧ decisions t = answers) (fun _ => True)
        op := by
    intro op hop
    apply permits_recording
    intro t x ht
    obtain ⟨houtcomes, hdecisions⟩ := silent_of_service (x := x) hop
    rw [outcomes_append, decisions_append, houtcomes, hdecisions]
    simpa using ht
  apply apply_keeps service request _ _ fun _ _ => trivial
  · exact fun op hop => hsilent op (.inl hop)
  · exact fun op hop => hsilent op (.inr hop)

/-- The claim commits nothing. -/
theorem claim_uncommitted :
    anything.Keeps (fun t : List (Event Op Resp) => ∀ event ∈ t, event.1 ≠ .commit)
      (fun _ => True) (claim service request) := by
  apply claim_keeps service request _ fun _ _ => trivial
  intro op hop
  apply permits_recording
  intro t x ht event hevent
  rcases List.mem_append.mp hevent with hmem | hmem
  · exact ht event hmem
  · obtain rfl := List.mem_singleton.mp hmem
    intro hcommit
    obtain rfl : op = .commit := hcommit
    exact hop

/-- Behind the claim, no record is read back. -/
theorem locked_not_readBack :
    anything.Keeps (fun t => ¬ReadBack t) (fun _ => True) (Program.withContext
      (Ports.enterLock (lockKey request.walletId) service.lockTtlMs service.lockWaitMs)
      (Ports.exitLock (lockKey request.walletId)) (withLock service request)) := by
  apply locked_keeps service request _ fun _ _ => trivial
  intro op hop
  apply permits_recording
  intro t x ht
  obtain ⟨hentry, hwallet⟩ := not_finds_of_moves (x := x) hop
  rw [ReadBack, exists_snoc, exists_snoc, or_iff_left hentry, or_iff_left hwallet]
  exact ht

end

/-! ## Replays -/

section

variable (service : WalletMovementSettings) (request : MovementRequest)

theorem refuseWith_yields {α : Type} {P : α → Prop} (e : Exn) :
    (refuseWith request e : AppM α).Yields P := by
  apply Program.yields_bind
  intro _
  apply Program.yields_bind
  intro _
  exact Program.yields_error e

/-- Behind the claim, an outcome is that of a new entry. -/
theorem locked_fresh : (Program.withContext
      (Ports.enterLock (lockKey request.walletId) service.lockTtlMs service.lockWaitMs)
      (Ports.exitLock (lockKey request.walletId)) (withLock service request)).Yields
    fun out => out.replayed = false := by
  apply Program.yields_bind
  intro acquired
  apply Program.yields_tryFinally
  apply Program.yields_bind
  intro _
  split
  · -- the lock was granted
    apply Program.yields_bind
    intro wallet
    cases wallet with
    | none => exact refuseWith_yields request _
    | some wallet =>
      apply Program.yields_bind
      intro now
      split
      · -- `write`
        apply Program.yields_bind
        intro id
        apply Program.yields_bind
        intro _
        apply Program.yields_bind
        intro updated
        split
        · apply Program.yields_bind
          intro _
          -- committed: the outcome says so
          apply Program.yields_bind
          intro _ out hout
          cases hout
          rfl
        · -- `WALLET_VERSION_CONFLICT`
          exact refuseWith_yields request _
      · -- a `DomainError` of the wallet
        exact refuseWith_yields request _
      · -- what passes the handler by
        exact Program.yields_error _
  · -- it was not: `WALLET_BUSY`
    exact refuseWith_yields request _

/-- A claim ends in a replay exactly where it read the record back. -/
def Recalls (r : Except Exn (Option MovementOutcome)) (t : List (Event Op Resp)) : Prop :=
  ∀ found, r = .ok found → (found.isSome = true ↔ ReadBack t) ∧
    ∀ out, found = some out → out.replayed = true

theorem Recalls.nothing {t : List (Event Op Resp)} (h : ¬ReadBack t) :
    Recalls (.ok none) t := by
  intro found hfound
  cases hfound
  simp [h]

/-- Neither half of a record was found. -/
def Unread (t : List (Event Op Resp)) : Prop :=
  (¬∃ event ∈ t, FindsEntry event) ∧ ¬∃ event ∈ t, FindsWallet event

theorem Unread.snoc {t : List (Event Op Resp)} {op : Op} {x : Resp op} (h : Unread t)
    (hentry : ¬FindsEntry ⟨op, x⟩) (hwallet : ¬FindsWallet ⟨op, x⟩) :
    Unread (t ++ [⟨op, x⟩]) := by
  rw [Unread, exists_snoc, exists_snoc, or_iff_left hentry, or_iff_left hwallet]
  exact h

variable {service request} {t : List (Event Op Resp)}

theorem replay_recalls (record : IdempotencyRecord Receipt) (h : Unread t) :
    anything.wp (replay request record) Recalls t := by
  -- the entry is read
  refine ⟨trivial, ?_⟩
  intro x t' ht'
  obtain ⟨-, rfl⟩ := ht'
  cases x with
  | error e =>
    intro found hfound
    cases hfound
  | ok entry =>
    -- then the wallet
    refine ⟨trivial, ?_⟩
    intro x t' ht'
    obtain ⟨-, rfl⟩ := ht'
    rcases x with e | (_ | wallet)
    · intro found hfound
      cases hfound
    · -- the wallet is gone: the receipt is not read back, whether or not the entry was
      have hlost : ¬ReadBack (t ++ [⟨.readEntry record.response.entryId request.ownerId,
          .ok entry⟩] ++ [⟨.readWallet request.walletId request.ownerId false, .ok none⟩]) := by
        intro hread
        rcases exists_snoc.mp hread.2 with hfound | hfinds
        · rcases exists_snoc.mp hfound with hfound | hfinds
          · exact h.2 hfound
          · exact hfinds
        · exact hfinds
      cases entry <;> exact .nothing hlost
    · cases entry with
      | none =>
        -- the entry is gone
        apply Recalls.nothing
        intro hread
        rcases exists_snoc.mp hread.1 with hfound | hfinds
        · rcases exists_snoc.mp hfound with hfound | hfinds
          · exact h.1 hfound
          · exact hfinds
        · exact hfinds
      | some entry =>
        -- both are there: `uow.rollback`, and the outcome is a replay
        refine ⟨trivial, ?_⟩
        intro x t' ht'
        obtain ⟨-, rfl⟩ := ht'
        cases x with
        | error e =>
          intro found hfound
          cases hfound
        | ok u =>
          intro found hfound
          cases hfound
          have hentry : ∃ event ∈ t ++ [⟨.readEntry record.response.entryId request.ownerId,
              .ok (some entry)⟩], FindsEntry event := exists_snoc.mpr (.inr trivial)
          refine ⟨⟨fun _ => ⟨?_, ?_⟩, fun _ => rfl⟩, ?_⟩
          · exact exists_snoc.mpr (.inl (exists_snoc.mpr (.inl hentry)))
          · exact exists_snoc.mpr (.inl (exists_snoc.mpr (.inr trivial)))
          · intro out hout
            cases hout
            rfl

theorem claim_recalls (h : Unread t) : anything.wp (claim service request) Recalls t := by
  unfold claim
  cases request.idempotencyKey with
  | none => exact .nothing fun hread => h.1 hread.1
  | some key =>
    -- `reserve`
    refine ⟨trivial, ?_⟩
    intro x t' ht'
    obtain ⟨-, rfl⟩ := ht'
    have hreserved : Unread (t ++ [⟨.reserve (scopedKey request.ownerId key)
        (fingerprint request) service.idempotencyTtlSeconds, x⟩]) := h.snoc id id
    have hnothing : Recalls (.ok none) (t ++ [⟨.reserve (scopedKey request.ownerId key)
        (fingerprint request) service.idempotencyTtlSeconds, x⟩]) :=
      .nothing fun hread => hreserved.1 hread.1
    rcases x with e | ⟨outcome, record⟩
    · intro found hfound
      cases hfound
    cases outcome with
    -- of the four answers only `COMPLETED` reads anything
    | reserved => exact hnothing
    | inProgress =>
      intro found hfound
      cases hfound
    | conflict =>
      intro found hfound
      cases hfound
    | completed =>
      cases record with
      | none => exact hnothing
      | some record => exact replay_recalls record hreserved

/-- The outcome is a replay exactly where a record was read back, and then the call has
    committed nothing. -/
def Replays (r : Except Exn MovementOutcome) (t : List (Event Op Resp)) : Prop :=
  ∀ out, r = .ok out → (out.replayed = true ↔ ReadBack t) ∧
    (out.replayed = true → ∀ event ∈ t, event.1 ≠ .commit)

theorem apply_replays (h : Unread t) (hcommit : ∀ event ∈ t, event.1 ≠ .commit) :
    anything.wp (apply service request) Replays t := by
  apply Contract.wp_bind.mpr
  apply Contract.wp_mono _ (Contract.wp_and (claim_recalls h) (claim_uncommitted t hcommit))
  intro r t' hr
  obtain ⟨hrecalls, huncommitted, -⟩ := hr
  cases r with
  | error e =>
    intro out hout
    cases hout
  | ok found =>
    obtain ⟨hiff, hreplayed⟩ := hrecalls found rfl
    cases found with
    | some outcome =>
      -- a replay: both rows were read, and nothing was committed
      intro out hout
      cases hout
      have hout := hreplayed outcome rfl
      exact ⟨by simpa [hout] using hiff, fun _ => huncommitted⟩
    | none =>
      -- a movement of its own: `apply` reads no entry, so nothing is read back
      have hnothing : ¬ReadBack t' := by simpa using hiff
      apply Contract.wp_mono _ (Contract.wp_yields (locked_not_readBack t' hnothing)
        (locked_fresh service request))
      intro r t'' hr out hout
      obtain ⟨⟨hunread, -⟩, hfresh⟩ := hr
      have hout := hfresh out hout
      simp [hout, hunread]

end

/-! ## The interactor -/

/-- The label of a call that returns. -/
def movementLabel (decision : RiskDecision) (replayed : Bool) : String :=
  if decision.available then if replayed then "replayed" else "success" else "success_unassessed"

/-- What the body of the `try` in `_run` leaves behind: no outcome yet, and the label of a
    result. -/
def Labels (r : Except Exn (String × Except Exn MovementResult)) (t : List (Event Op Resp)) :
    Prop :=
  outcomes t = [] ∧ ∀ label result, r = .ok (label, .ok result) →
    (∃ decision, decisions t = [decision] ∧ label = movementLabel decision result.replayed) ∧
      (result.replayed = true ↔ ReadBack t) ∧
      (result.replayed = true → ∀ event ∈ t, event.1 ≠ .commit)

/-- A call records one outcome. If it returns, the outcome is labelled by the provider's answer
    and by whether the key's record was read back, in which case nothing was committed. -/
def Accounts (r : Except Exn MovementResult) (t : List (Event Op Resp)) : Prop :=
  ∃ label, outcomes t = [label] ∧ ∀ result, r = .ok result →
    (∃ decision, decisions t = [decision] ∧ label = movementLabel decision result.replayed) ∧
      (result.replayed = true ↔ ReadBack t) ∧
      (result.replayed = true → ∀ event ∈ t, event.1 ≠ .commit)

/-- Nothing that a movement is accounted for by has happened yet. -/
structure Blank (t : List (Event Op Resp)) : Prop where
  outcomes : outcomes t = []
  decisions : decisions t = []
  unread : Unread t
  uncommitted : ∀ event ∈ t, event.1 ≠ .commit

section

variable {service : WalletMovementSettings} {settings : MoveMoneySettings} {metricName : String}
  {request : MovementRequest}

theorem Labels.error {e : Exn} {t : List (Event Op Resp)} (h : outcomes t = []) :
    Labels (.error e) t := by
  refine ⟨h, ?_⟩
  intro label result hr
  cases hr

theorem Labels.refused {label : String} {e : Exn} {t : List (Event Op Resp)}
    (h : outcomes t = []) : Labels (.ok (label, .error e)) t := by
  refine ⟨h, ?_⟩
  intro label result hr
  cases hr

/-- The rate limit comes before all that. -/
theorem limited_blank {t : List (Event Op Resp)} (h : Blank t) :
    anything.wp (limited settings metricName request) (fun _ t' => Blank t') t := by
  -- what an event leaves blank: no outcome, no decision, no row, no commit
  have hsnoc : ∀ {t op} {x : Resp op}, Blank t → outcomes [⟨op, x⟩] = [] →
      decisions [⟨op, x⟩] = [] → ¬FindsEntry ⟨op, x⟩ → ¬FindsWallet ⟨op, x⟩ → op ≠ .commit →
      Blank (t ++ [⟨op, x⟩]) := by
    intro t op x h houtcomes hdecisions hentry hwallet hop
    constructor
    · rw [outcomes_append, h.outcomes, houtcomes, List.append_nil]
    · rw [decisions_append, h.decisions, hdecisions, List.append_nil]
    · exact h.unread.snoc hentry hwallet
    · intro event hevent
      rcases List.mem_append.mp hevent with hmem | hmem
      · exact h.uncommitted event hmem
      · obtain rfl := List.mem_singleton.mp hmem
        exact hop
  unfold limited
  split
  · -- `limiter.consume`
    refine ⟨trivial, ?_⟩
    intro x t' ht'
    obtain ⟨-, rfl⟩ := ht'
    have hconsumed := hsnoc (x := x) h rfl rfl id id (by simp)
    cases x with
    | error e => exact hconsumed
    | ok decision =>
      -- the metric of the limiter is not the movement's
      refine ⟨trivial, ?_⟩
      intro u t' ht'
      obtain ⟨-, rfl⟩ := ht'
      have hobserved := hsnoc (x := u) hconsumed rfl rfl id id (by simp)
      show anything.wp (if decision.allowed then _ else _) _ _
      split
      · exact hobserved
      · exact hobserved
  · exact h

/-- What the provider is asked. -/
private abbrev check (request : MovementRequest) : RiskCheck :=
  ⟨request.walletId, request.ownerId, request.amount, request.direction, request.idempotencyKey⟩

theorem attempt_labels :
    anything.wp (attempt service settings metricName request) Labels [] := by
  have hblank : Blank [] := ⟨rfl, rfl, ⟨by simp, by simp⟩, by simp⟩
  apply Contract.wp_bind.mpr
  apply Contract.wp_mono _ (limited_blank hblank)
  intro r (t : List (Event Op Resp)) h
  rcases r with e | (_ | ⟨label, e⟩)
  · exact .error h.outcomes
  · -- the assessment
    refine ⟨trivial, ?_⟩
    intro x t' ht'
    obtain ⟨-, rfl⟩ := ht'
    have houtcomes : outcomes (t ++ [⟨.assess (check request), x⟩]) = [] := by
      rw [outcomes_append, h.outcomes]
      rfl
    cases x with
    | error e => exact .error houtcomes
    | ok decision =>
      show anything.wp (if decision.outcome = .refused then _ else _) _ _
      split
      · exact .refused houtcomes
      split
      · exact .refused houtcomes
      -- from here on the decision is the one that labels the outcome
      have hdecisions : decisions (t ++ [⟨.assess (check request), .ok decision⟩]) =
          [decision] := by
        rw [decisions_append, h.decisions]
        rfl
      have hunread : Unread (t ++ [⟨.assess (check request), .ok decision⟩]) :=
        h.unread.snoc id id
      have huncommitted : ∀ event ∈ t ++ [⟨.assess (check request), .ok decision⟩],
          event.1 ≠ .commit := by
        intro event hevent
        rcases List.mem_append.mp hevent with hmem | hmem
        · exact h.uncommitted event hmem
        · obtain rfl := List.mem_singleton.mp hmem
          simp
      apply Contract.wp_bind.mpr
      apply Contract.wp_mono _ (Contract.wp_and (apply_replays hunread huncommitted)
        (apply_silent _ ⟨houtcomes, hdecisions⟩))
      intro r (t' : List (Event Op Resp)) hr
      obtain ⟨hreplays, ⟨houtcomes, hdecisions⟩, -⟩ := hr
      cases r with
      | error e => exact .error houtcomes
      | ok out =>
        refine ⟨houtcomes, ?_⟩
        intro label result hr
        cases hr
        refine ⟨⟨decision, hdecisions, ?_⟩, hreplays out rfl⟩
        rfl
  · exact .refused h.outcomes

theorem run_accounts : anything.wp (run service settings metricName request) Accounts [] := by
  apply Contract.wp_handle.mpr
  apply Contract.wp_mono _ attempt_labels
  intro r (t : List (Event Op Resp)) h
  obtain ⟨houtcomes, hresult⟩ := h
  -- `_run` observes once, at its end, so its label is the only one
  have hlast : ∀ {label : String},
      outcomes (t ++ [⟨.observe (.interactor metricName label), ()⟩]) = [label] := by
    intro label
    rw [outcomes_append, houtcomes]
    rfl
  -- the `except` branch
  cases r with
  | error e =>
    refine ⟨trivial, ?_⟩
    intro u t' ht'
    obtain ⟨-, rfl⟩ := ht'
    refine ⟨_, hlast, ?_⟩
    intro result hr
    cases hr
  | ok labelled =>
    -- the `finally` branch, with the label `attempt` has chosen
    obtain ⟨label, result⟩ := labelled
    refine ⟨trivial, ?_⟩
    intro u t' ht'
    obtain ⟨-, rfl⟩ := ht'
    refine ⟨label, hlast, ?_⟩
    intro result' hr
    obtain rfl : result = .ok result' := hr
    obtain ⟨⟨decision, hdecisions, hlabel⟩, hread, hcommit⟩ := hresult label result' rfl
    refine ⟨⟨decision, ?_, hlabel⟩, ?_, ?_⟩
    · rw [decisions_append, hdecisions]
      rfl
    · rw [hread, ReadBack, ReadBack, exists_snoc, exists_snoc]
      simp [FindsEntry, FindsWallet]
    · intro hreplayed event hevent
      rcases List.mem_append.mp hevent with hmem | hmem
      · exact hcommit hreplayed event hmem
      · obtain rfl := List.mem_singleton.mp hmem
        simp

end

/-- A call of one of the interactors that move money. -/
def Request.MovesMoney : Request → Prop
  | .deposit _ => True
  | .withdraw _ => True
  | _ => False

theorem Request.accounts {r : Request} (hr : r.MovesMoney) (service : WalletMovementSettings)
    (settings : MoveMoneySettings) :
    anything.wp (r.program service settings)
      (fun x t => ∃ y, x = y.map Answer.moved ∧ Accounts y t) [] := by
  have hmoved : ∀ metricName request,
      anything.wp (Answer.moved <$> run service settings metricName request)
        (fun x t => ∃ y, x = y.map Answer.moved ∧ Accounts y t) [] := by
    intro metricName request
    apply Contract.wp_handle.mpr
    apply Contract.wp_mono _ run_accounts
    intro y t haccounts
    cases y with
    | error e => exact ⟨.error e, rfl, haccounts⟩
    | ok result => exact ⟨.ok result, rfl, haccounts⟩
  cases r with
  | deposit c => exact hmoved _ _
  | withdraw c => exact hmoved _ _
  | _ => exact hr.elim

end Evenkeel.Application
