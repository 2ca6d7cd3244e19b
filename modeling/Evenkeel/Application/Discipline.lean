import Evenkeel.Application.MovementMetrics
import Evenkeel.Application.Protocol

/-!
# The Discipline of a Request

In which order a request performs its operations, whatever they answer: a balance changes
inside the wallet's lock only, there is one commit at most, and whoever has entered the lock
leaves it.

- `Stage`: where a request stands with its lock and its commit
- `discipline`: the contract of the order
- `Answer.Retells`: what an answer says about the stage it is given at

## Key Results

- `Request.disciplined`: every request keeps the order, and ends outside its lock
-/

namespace Evenkeel.Application

open Evenkeel.Domain Evenkeel.Effects

/-! ## Stages -/

/-- Where a request stands with the lock of its wallet. -/
inductive LockStage where
  | outside
  | inside (acquired : Bool)
  | left
  deriving DecidableEq

/-- Where a request stands with its commit. -/
inductive CommitStage where
  | ahead
  /-- The commit was not answered with success. -/
  | failed
  | done
  deriving DecidableEq

structure Stage where
  lock : LockStage := .outside
  /-- The wallet was read for its update. -/
  loaded : Bool := false
  commit : CommitStage := .ahead
  /-- The wallet that was added. -/
  opened : Option Wallet := none

/-- Under the lock, with nothing done yet. -/
abbrev Stage.guarded : Stage := { lock := .inside true }

/-- Under the lock, with the wallet at hand. -/
abbrev Stage.working : Stage := { lock := .inside true, loaded := true }

def Stage.next (s : Stage) : (op : Op) → Resp op → Stage
  | .enterLock .., .ok acquired => { s with lock := .inside acquired }
  | .exitLock _, _ => { s with lock := .left }
  | .readWallet _ _ true, .ok _ => { s with loaded := true }
  | .commit, .ok _ => { s with commit := .done }
  | .commit, .error _ => { s with commit := .failed }
  | .addWallet w, _ => { s with opened := some w }
  | _, _ => s

section

variable {s : Stage} {op : Op} {x : Resp op}

/-- Reading a wallet for its update changes no other part of the stage. -/
theorem Stage.next_readWallet (s : Stage) {id : WalletId} {o : OwnerId} {forUpdate : Bool}
    (x : Resp (.readWallet id o forUpdate)) :
    s.next (.readWallet id o forUpdate) x = s ∨
      forUpdate = true ∧ s.next (.readWallet id o forUpdate) x = { s with loaded := true } := by
  cases forUpdate with
  | false => exact .inl rfl
  | true =>
    cases x with
    | error e => exact .inl rfl
    | ok found => exact .inr ⟨rfl, rfl⟩

theorem Stage.next_opened (hop : ∀ w, op ≠ .addWallet w) : (s.next op x).opened = s.opened := by
  cases op with
  | addWallet w => exact absurd rfl (hop w)
  | readWallet =>
    rcases s.next_readWallet x with h | ⟨-, h⟩
    · rw [h]
    · rw [h]
  | enterLock => cases x <;> rfl
  | commit => cases x <;> rfl
  | _ => rfl

theorem Stage.next_commit (hop : op ≠ .commit) : (s.next op x).commit = s.commit := by
  cases op with
  | commit => exact absurd rfl hop
  | readWallet =>
    rcases s.next_readWallet x with h | ⟨-, h⟩
    · rw [h]
    · rw [h]
  | enterLock => cases x <;> rfl
  | _ => rfl

end

/-- The operations that may come next. The lock is that of the wallet the movement names. -/
def Stage.allows (req : Request) (s : Stage) : Op → Prop
  | .reserve .. => s.lock = .outside
  | .readEntry .. => s.lock = .outside
  | .enterLock key _ _ => s = {} ∧ req.movement.map (fun m => lockKey m.walletId) = some key
  | .exitLock key =>
      (∃ acquired, s.lock = .inside acquired) ∧
        req.movement.map (fun m => lockKey m.walletId) = some key
  | .readWallet _ _ forUpdate => forUpdate = true → s = .guarded
  | .addEntry _ => s = .working
  | .updateWallet .. => s = .working
  | .addWallet w => s = {} ∧ ∃ c, req = .openWallet c ∧ w.balance.currency = c.currency
  | .commit => s = .working ∨ ∃ w, s = { opened := some w }
  | .confirm .. => s = { Stage.working with commit := .done }
  | .release _ => (∃ acquired, s.lock = .inside acquired) ∧ s.commit = .ahead
  | _ => True

/-- The order of the operations of a request. -/
def discipline (req : Request) : Contract Op Resp :=
  .tracking (fun _ => True) (fun (s : Stage) event => s.next event.1 event.2) (Stage.allows req)

/-- How a request ends: outside its lock, and what it returns says something about its stage. -/
def Retires {α : Type} (tells : α → Stage → Prop) (x : Except Exn α) (s : Stage) : Prop :=
  (∀ acquired, s.lock ≠ .inside acquired) ∧ ∀ a, x = .ok a → tells a s

theorem Retires.error {α : Type} {tells : α → Stage → Prop} {e : Exn} {s : Stage}
    (h : ∀ acquired, s.lock ≠ .inside acquired) : Retires tells (.error e) s := by
  refine ⟨h, fun a ha => ?_⟩
  cases ha

/-- A replay has issued no commit, and any other movement has committed. -/
def Stage.Moved (s : Stage) (replayed : Bool) : Prop :=
  s.commit = if replayed then .ahead else .done

/-- Whoever only reads issues no commit. -/
def Stage.Untouched (s : Stage) : Prop := s.commit = .ahead

/-- The wallet of the result is the one that was added, and its row was committed. -/
def Stage.Opened (s : Stage) (result : OpenWalletResult) : Prop :=
  s.commit = .done ∧ ∃ w, s.opened = some w ∧ result = ⟨w.id, w.balance.currency⟩

/-- What an answer says about the stage it is given at. -/
def Answer.Retells : Answer → Stage → Prop
  | .opened result, s => s.Opened result
  | .moved result, s => s.Moved result.replayed
  | .applied outcome, s => s.Moved outcome.replayed
  | _, s => s.Untouched

/-! ## A movement -/

section

variable {req : Request} {service : WalletMovementSettings}
  {m : MovementRequest} {s : Stage} {α : Type}

/-- An operation that is allowed at a stage and leaves it as it is. -/
theorem permits_staying (op : Op) (hallowed : s.allows req op)
    (hstay : ∀ x, s.next op x = s) : Permits (discipline req) (· = s) (fun _ => True) op := by
  intro s' hs'
  obtain rfl := hs'
  refine ⟨hallowed, ?_⟩
  intro x s'' hstep
  obtain ⟨-, rfl⟩ := hstep
  exact ⟨hstay x, fun _ _ => trivial⟩

theorem stays_rollback : Permits (discipline req) (· = s) (fun _ => True) .rollback :=
  permits_staying _ trivial fun _ => rfl

theorem stays_observe (observation : Observation) :
    Permits (discipline req) (· = s) (fun _ => True) (.observe observation) :=
  permits_staying _ trivial fun _ => rfl

/-- A refusal stays under the lock. -/
theorem refuseWith_stays {acquired : Bool} (e : Exn) (hlock : s.lock = .inside acquired)
    (hahead : s.commit = .ahead) :
    (discipline req).Keeps (· = s) (fun _ => True) (refuseWith m e : AppM α) := by
  apply Contract.keeps_bind
  · exact stays_rollback.keeps fun | _, _, rfl => rfl
  · intro _
    refine Contract.keeps_bind ?_ fun _ => Contract.keeps_error trivial
    unfold release
    split
    · exact Contract.keeps_ok _
    · exact (permits_staying (.release _) ⟨⟨acquired, hlock⟩, hahead⟩ fun _ => rfl).keeps
        fun | _, _, rfl => rfl

/-- So does the confirmation of a commit. -/
theorem confirm_stays (wallet : Wallet) (entry : LedgerEntry) :
    (discipline req).Keeps (· = { Stage.working with commit := .done }) (fun _ => True)
      (confirm service m wallet entry) := by
  have hobserve : ∀ observation, (discipline req).Keeps
      (· = { Stage.working with commit := .done }) (fun _ => True) (Ports.observe observation) :=
    fun observation => (stays_observe observation).keeps nofun
  unfold confirm
  split
  · exact Contract.keeps_ok _
  · apply Contract.keeps_handle
    · exact (permits_staying (.confirm ..) rfl fun _ => rfl).keeps fun | _, _, rfl => rfl
    · intro r _
      cases r with
      | ok _ => exact hobserve _
      | error e =>
        simp only [confirmed]
        split
        · exact hobserve _
        · exact Contract.keeps_bind (hobserve _) fun _ => Contract.keeps_error trivial

/-- How the body under the lock ends. -/
def Works (acquired : Bool) (x : Except Exn MovementOutcome) (s : Stage) : Prop :=
  s.lock = .inside acquired ∧ ∀ out, x = .ok out → s.commit = .done

theorem Works.error {acquired : Bool} {e : Exn} (h : s.lock = .inside acquired) :
    Works acquired (.error e) s := by
  refine ⟨h, fun out hout => ?_⟩
  cases hout

theorem refuseWith_works {acquired : Bool} (e : Exn) (hlock : s.lock = .inside acquired)
    (hahead : s.commit = .ahead) :
    (discipline req).wp (refuseWith m e) (Works acquired) s := by
  apply Contract.wp_mono _ (Contract.wp_yields (refuseWith_stays e hlock hahead _ rfl)
    (refuseWith_yields (P := fun _ => False) m e))
  intro x s' hx
  obtain ⟨⟨rfl, -⟩, hnone⟩ := hx
  exact ⟨hlock, fun out hout => (hnone out hout : False).elim⟩

theorem write_works (expectedVersion : ℤ) (wallet : Wallet) (balanceAfter : Money)
    (now : Datetime) : (discipline req).wp
      (write service m expectedVersion wallet balanceAfter now) (Works true) .working := by
  unfold write
  -- `uuid7`
  refine ⟨trivial, ?_⟩
  intro (id : UUID) s₁ hstep
  obtain ⟨-, rfl⟩ := hstep
  -- `ledger.add`
  refine ⟨rfl, ?_⟩
  intro x s₂ hstep
  obtain ⟨-, rfl⟩ := hstep
  cases x with
  | error e => exact .error rfl
  | ok _ =>
    -- `wallets.update`, which the lock is held for
    refine ⟨rfl, ?_⟩
    intro x s₃ hstep
    obtain ⟨-, rfl⟩ := hstep
    cases x with
    | error e => exact .error rfl
    | ok updated =>
      cases updated with
      -- the row was not there at that version: nothing has been committed
      | false => exact refuseWith_works _ rfl rfl
      | true =>
        -- `uow.commit`, the first one
        refine ⟨.inl rfl, ?_⟩
        intro x s₄ hstep
        obtain ⟨-, rfl⟩ := hstep
        cases x with
        | error e => exact .error rfl
        | ok _ =>
          -- the confirmation issues no second commit, whatever the store answers
          set entry := LedgerEntry.record ⟨id⟩ wallet.id m.direction m.amount balanceAfter
            m.description now
          show (discipline req).wp (confirm service m wallet entry >>= fun _ => _) _ _
          apply Contract.wp_bind.mpr
          apply Contract.wp_mono _ (confirm_stays wallet entry _ rfl)
          intro x s₅ hx
          obtain ⟨rfl, -⟩ := hx
          cases x with
          | error e => exact .error rfl
          | ok _ =>
            exact ⟨rfl, fun _ _ => rfl⟩

theorem applyLocked_works :
    (discipline req).wp (applyLocked service m) (Works true) .guarded := by
  unfold applyLocked
  refine ⟨fun _ => rfl, ?_⟩
  intro x s₁ hstep
  obtain ⟨-, rfl⟩ := hstep
  cases x with
  | error e => exact .error rfl
  | ok found =>
    cases found with
    | none => exact refuseWith_works _ rfl rfl
    | some wallet =>
      refine ⟨trivial, ?_⟩
      intro (now : Datetime) s₂ hstep
      obtain ⟨-, rfl⟩ := hstep
      simp only [Program.handle_done, Program.onValue_ok]
      split
      · exact write_works _ _ _ _
      · exact refuseWith_works _ rfl rfl
      · exact .error rfl

theorem withLock_works (acquired : Bool) :
    (discipline req).wp (withLock service m acquired) (Works acquired)
      { lock := .inside acquired } := by
  refine ⟨trivial, ?_⟩
  intro _ s₁ hstep
  obtain ⟨-, rfl⟩ := hstep
  cases acquired with
  | true => exact applyLocked_works
  | false => exact refuseWith_works _ rfl rfl

/-- How the `async with` of `apply` ends. -/
def Quits (x : Except Exn MovementOutcome) (s : Stage) : Prop :=
  (∀ acquired, s.lock ≠ .inside acquired) ∧ ∀ out, x = .ok out → s.commit = .done

theorem Quits.error {e : Exn} (h : ∀ acquired, s.lock ≠ .inside acquired) :
    Quits (.error e) s := by
  refine ⟨h, fun out hout => ?_⟩
  cases hout

/-- Whatever happens inside, the lock is left. -/
theorem locked_quits (hm : req.movement = some m) : (discipline req).wp (Program.withContext
      (Ports.enterLock (lockKey m.walletId) service.lockTtlMs service.lockWaitMs)
      (Ports.exitLock (lockKey m.walletId)) (withLock service m))
    Quits {} := by
  have hkey : req.movement.map (fun m => lockKey m.walletId) = some (lockKey m.walletId) := by
    rw [hm]
    rfl
  -- the entry of the lock: where it raises, there is nothing to leave
  refine ⟨⟨rfl, hkey⟩, ?_⟩
  intro x s₁ hstep
  obtain ⟨-, rfl⟩ := hstep
  cases x with
  | error e => exact .error nofun
  | ok acquired =>
    show (discipline req).wp ((withLock service m acquired).tryFinally _) _ _
    apply Contract.wp_handle.mpr
    apply Contract.wp_mono _ (withLock_works acquired)
    -- the exit is reached from every way out of the body
    intro x s₂ hx
    refine ⟨⟨⟨acquired, hx.1⟩, hkey⟩, ?_⟩
    intro left s₃ hstep
    obtain ⟨-, rfl⟩ := hstep
    -- an exit that raises hides what the body did; the commit is remembered all the same
    cases left with
    | error e => exact .error nofun
    | ok _ => exact ⟨nofun, hx.2⟩

theorem claim_stays :
    (discipline req).Keeps (· = {}) (fun _ => True) (claim service m) := by
  apply claim_keeps service m _ fun _ _ => trivial
  intro op hop
  cases op with
  | reserve key fp ttl => exact permits_staying _ rfl fun _ => rfl
  | readEntry id o => exact permits_staying _ rfl fun _ => rfl
  | readWallet id o forUpdate =>
    obtain rfl : forUpdate = false := hop
    exact permits_staying _ (by rintro ⟨⟩) fun _ => rfl
  | rollback => exact stays_rollback
  | _ => exact hop.elim

/-- An outcome of the claim was there before. -/
theorem claim_yields_replayed : (claim service m).Yields fun replayed =>
    ∀ out, replayed = some out → out.replayed = true := by
  unfold claim
  split
  · -- without a key nothing is looked up
    intro replayed h out hout
    obtain rfl := Except.ok.inj h
    cases hout
  · apply Program.yields_bind
    intro reservation
    have hnone : (pure none : AppM (Option MovementOutcome)).Yields fun replayed =>
        ∀ out, replayed = some out → out.replayed = true := by
      intro replayed h out hout
      obtain rfl := Except.ok.inj h
      cases hout
    split
    · -- the key is free, and the movement is made
      exact hnone
    · split
      · -- `CONFLICT` and `IN_PROGRESS` raise
        exact Program.yields_error _
      · exact Program.yields_error _
      · exact hnone
      · -- `COMPLETED`: only here is an outcome built, and it is a replay
        apply Program.yields_bind
        intro entry
        apply Program.yields_bind
        intro wallet
        split
        · apply Program.yields_bind
          intro _ replayed h out hout
          obtain rfl := Except.ok.inj h
          obtain rfl := Option.some.inj hout
          rfl
        · exact hnone

theorem apply_retires (hm : req.movement = some m) : (discipline req).wp (apply service m)
    (Retires fun out s => s.Moved out.replayed) {} := by
  unfold apply
  apply Contract.wp_bind.mpr
  apply Contract.wp_mono _ (Contract.wp_yields (claim_stays _ rfl) claim_yields_replayed)
  intro x s₁ hx
  obtain ⟨⟨rfl, -⟩, hreplayed⟩ := hx
  cases x with
  | error e => exact .error nofun
  | ok replayed =>
    cases replayed with
    | none =>
      -- nothing to replay: what comes out of the lock is fresh and committed
      apply Contract.wp_mono _ (Contract.wp_yields (locked_quits hm) (locked_fresh service m))
      intro x s₂ hx
      obtain ⟨⟨houtside, hcommitted⟩, hfresh⟩ := hx
      refine ⟨houtside, fun out hout => ?_⟩
      have hfalse : out.replayed = false := hfresh out hout
      simpa [Stage.Moved, hfalse] using hcommitted out hout
    | some out =>
      -- a replay: it never came near the lock
      refine ⟨nofun, fun out' hout => ?_⟩
      obtain rfl := Except.ok.inj hout
      have htrue : out.replayed = true := hreplayed _ rfl out rfl
      simp [Stage.Moved, htrue]

theorem limited_stays (settings : MoveMoneySettings) (metricName : String) :
    (discipline req).Keeps (· = {}) (fun _ => True) (limited settings metricName m) := by
  unfold limited
  split
  · apply Contract.keeps_bind
    · exact (permits_staying (.consume ..) trivial fun _ => rfl).keeps fun | _, _, rfl => rfl
    · intro decision
      apply Contract.keeps_bind
      · exact (stays_observe _).keeps nofun
      · intro _
        split
        · exact Contract.keeps_ok _
        · exact Contract.keeps_ok _
  · exact Contract.keeps_ok _

/-- The result of a movement, with its label. -/
def Attempts (x : Except Exn (String × Except Exn MovementResult)) (s : Stage) : Prop :=
  (∀ acquired, s.lock ≠ .inside acquired) ∧
    ∀ label r, x = .ok (label, r) → Retires (fun result s => s.Moved result.replayed) r s

theorem Attempts.error {e : Exn} (h : ∀ acquired, s.lock ≠ .inside acquired) :
    Attempts (.error e) s := by
  refine ⟨h, fun label r hr => ?_⟩
  cases hr

theorem Attempts.refused {label : String} {e : Exn}
    (h : ∀ acquired, s.lock ≠ .inside acquired) : Attempts (.ok (label, .error e)) s := by
  refine ⟨h, fun label r hr => ?_⟩
  cases hr
  exact .error h

theorem attempt_retires (settings : MoveMoneySettings) (metricName : String)
    (hm : req.movement = some m) :
    (discipline req).wp (attempt service settings metricName m) Attempts {} := by
  unfold attempt
  apply Contract.wp_bind.mpr
  apply Contract.wp_mono _ (limited_stays settings metricName _ rfl)
  intro r s₁ hr
  obtain ⟨rfl, -⟩ := hr
  cases r with
  | error e => exact .error nofun
  | ok refusal =>
    cases refusal with
    -- the limiter refuses
    | some refusal => exact .refused nofun
    | none =>
      -- the assessment
      refine ⟨trivial, ?_⟩
      intro x s₂ hstep
      obtain ⟨-, rfl⟩ := hstep
      cases x with
      | error e => exact .error nofun
      | ok decision =>
        simp only [Program.handle_done, Program.onValue_ok]
        split
        · -- the risk is refused
          exact .refused nofun
        · split
          · -- the provider is not available, and the switch is closed
            exact .refused nofun
          · -- the movement goes ahead
            apply Contract.wp_bind.mpr
            apply Contract.wp_mono _ (apply_retires hm)
            intro r s₃ hr
            cases r with
            | error e => exact .error hr.1
            | ok out =>
              refine ⟨hr.1, fun label r h => ?_⟩
              cases h
              refine ⟨hr.1, fun result hresult => ?_⟩
              obtain rfl := Except.ok.inj hresult
              exact hr.2 out rfl

theorem run_retires (settings : MoveMoneySettings) (metricName : String)
    (hm : req.movement = some m) : (discipline req).wp (run service settings metricName m)
      (Retires fun result s => s.Moved result.replayed) {} := by
  apply Contract.wp_handle.mpr
  apply Contract.wp_mono _ (attempt_retires settings metricName hm)
  intro r s₁ hr
  cases r with
  | error e =>
    refine ⟨trivial, ?_⟩
    intro _ s₂ hstep
    obtain ⟨-, rfl⟩ := hstep
    exact .error hr.1
  | ok labelled =>
    obtain ⟨label, result⟩ := labelled
    refine ⟨trivial, ?_⟩
    intro _ s₂ hstep
    obtain ⟨-, rfl⟩ := hstep
    exact hr.2 label result rfl

end

/-! ## Every use case -/

section

variable {req : Request} {service : WalletMovementSettings} {s : Stage} {α β : Type}
  {tells : α → Stage → Prop}

theorem labelled_retires {metricName label : String} {p : AppM α}
    (h : (discipline req).wp p (Retires tells) s) :
    (discipline req).wp (labelled metricName label p) (Retires tells) s := by
  apply Contract.wp_handle.mpr
  apply Contract.wp_mono _ h
  intro x s₁ hx
  cases x with
  | error e =>
    refine ⟨trivial, ?_⟩
    intro _ s₂ hstep
    obtain ⟨-, rfl⟩ := hstep
    exact hx
  | ok a =>
    refine ⟨trivial, ?_⟩
    intro _ s₂ hstep
    obtain ⟨-, rfl⟩ := hstep
    exact hx

/-- A use case that reads commits nothing. -/
theorem onWallet_retires {metricName : String} {walletId : WalletId} {ownerId : OwnerId}
    {p : Wallet → AppM α}
    (hp : ∀ w, (discipline req).wp (p w) (Retires fun _ s => s.Untouched) {}) :
    (discipline req).wp (onWallet metricName walletId ownerId p)
      (Retires fun _ s => s.Untouched) {} := by
  -- the read of the wallet, as its owner sees it
  refine ⟨Bool.noConfusion, ?_⟩
  intro x s₁ hstep
  obtain ⟨-, rfl⟩ := hstep
  cases x with
  | error e =>
    -- the label `error`
    refine ⟨trivial, ?_⟩
    intro _ s₂ hstep
    obtain ⟨-, rfl⟩ := hstep
    exact .error nofun
  | ok found =>
    cases found with
    | none =>
      -- the label `not_found`
      refine ⟨trivial, ?_⟩
      intro _ s₂ hstep
      obtain ⟨-, rfl⟩ := hstep
      exact .error nofun
    | some w => exact labelled_retires (hp w)

theorem openWallet_retires (c : OpenWalletCommand) :
    (discipline (.openWallet c)).wp (openWallet c) (Retires fun result s => s.Opened result)
      {} := by
  apply labelled_retires
  -- `uuid7`
  refine ⟨trivial, ?_⟩
  intro (id : UUID) s₁ hstep
  obtain ⟨-, rfl⟩ := hstep
  -- the clock
  refine ⟨trivial, ?_⟩
  intro (now : Datetime) s₂ hstep
  obtain ⟨-, rfl⟩ := hstep
  -- `wallets.add`: the wallet is new, empty and the caller's own
  refine ⟨⟨rfl, c, rfl, rfl⟩, ?_⟩
  intro x s₃ hstep
  obtain ⟨-, rfl⟩ := hstep
  cases x with
  | error e => exact .error nofun
  | ok _ =>
    -- `uow.commit`
    refine ⟨.inr ⟨_, rfl⟩, ?_⟩
    intro x s₄ hstep
    obtain ⟨-, rfl⟩ := hstep
    cases x with
    | error e => exact .error nofun
    | ok _ =>
      refine ⟨nofun, fun result hresult => ?_⟩
      obtain rfl := Except.ok.inj hresult
      exact ⟨rfl, _, rfl, rfl⟩

/-- What a use case returns, as the answer to its request. -/
theorem answer_retires {p : AppM β} {f : β → Answer} {tells : β → Stage → Prop}
    (h : (discipline req).wp p (Retires tells) s) (hf : ∀ b s, tells b s → (f b).Retells s) :
    (discipline req).wp (f <$> p) (Retires Answer.Retells) s := by
  apply Contract.wp_handle.mpr
  apply Contract.wp_mono _ h
  intro x s₁ hx
  cases x with
  | error e => exact .error hx.1
  | ok b =>
    refine ⟨hx.1, fun a ha => ?_⟩
    obtain rfl := Except.ok.inj ha
    exact hf b s₁ (hx.2 b rfl)

/-- Whatever it is asked for, and whatever the ports answer. -/
theorem Request.disciplined (service : WalletMovementSettings) (settings : MoveMoneySettings)
    (req : Request) :
    (discipline req).wp (req.program service settings) (Retires Answer.Retells) {} := by
  cases req with
  | openWallet c => exact answer_retires (openWallet_retires c) fun _ _ h => h
  | deposit c => exact answer_retires (run_retires settings _ rfl) fun _ _ h => h
  | withdraw c => exact answer_retires (run_retires settings _ rfl) fun _ _ h => h
  | apply m => exact answer_retires (apply_retires rfl) fun _ _ h => h
  | getWallet q =>
    refine answer_retires (onWallet_retires fun w => ?_) fun _ _ h => h
    exact ⟨nofun, fun _ _ => rfl⟩
  | listWallets q =>
    -- the one read that has no wallet of its own
    have hlist : (discipline (.listWallets q)).wp (Application.listWallets q)
        (Retires fun _ s => s.Untouched) {} := by
      refine ⟨trivial, ?_⟩
      intro x s₁ hstep
      obtain ⟨-, rfl⟩ := hstep
      refine ⟨trivial, ?_⟩
      intro _ s₂ hstep
      obtain ⟨-, rfl⟩ := hstep
      exact ⟨nofun, fun _ _ => rfl⟩
    exact answer_retires hlist fun _ _ h => h
  | listLedgerEntries q =>
    refine answer_retires (onWallet_retires fun w => ?_) fun _ _ h => h
    refine ⟨trivial, ?_⟩
    intro x s₁ hstep
    obtain ⟨-, rfl⟩ := hstep
    exact ⟨nofun, fun _ _ => rfl⟩

/-- The protocol and the discipline together. -/
theorem Request.meets_both (service : WalletMovementSettings) (settings : MoveMoneySettings)
    (req : Request) : ((protocol service req).prod (discipline req)).wp
      (req.program service settings) (fun x s => req.Meets x s.1 ∧ Retires Answer.Retells x s.2)
      (Call.initial, {}) :=
  Contract.wp_prod (req.meets_protocol service settings) (req.disciplined service settings)

end

end Evenkeel.Application
