import Evenkeel.Application.Interactors
import Evenkeel.Infrastructure.Deployment

/-!
# What a Committed Movement Reports

`WalletMovementService.apply` alone, with every operation answered in any way at all. Once
the commit has returned there are two more awaits: the confirmation, whose failures are
swallowed, and the exit of the lock, whose failures are not.
-/

namespace Evenkeel.Properties

open Evenkeel.Domain Evenkeel.Application Evenkeel.Effects Evenkeel.Infrastructure

/-! ## Histories of one request -/

abbrev History : Type := List (Event Op Resp)

/-- A commit that returned. -/
def Commits : Event Op Resp → Prop
  | ⟨.commit, .ok _⟩ => True
  | _ => False

/-- A confirmation that was cancelled: whatever else it raises is an `Exception`. -/
def CancelsConfirm : Event Op Resp → Prop
  | ⟨.confirm .., .error e⟩ => e.isException = false
  | _ => False

/-- A lock whose exit raised. -/
def FailsExit : Event Op Resp → Prop
  | ⟨.exitLock _, .error _⟩ => True
  | _ => False

/-- The request returned the outcome of the movement it recorded. -/
def Returns (r : Except Exn MovementOutcome) (t : History) : Prop :=
  ∃ out version, r = .ok out ∧ out.replayed = false ∧ ⟨.addEntry out.entry, .ok ()⟩ ∈ t ∧
    ⟨.updateWallet out.wallet version, .ok true⟩ ∈ t

/-- The operations `apply` performs before it commits. -/
def Early : Op → Prop
  | .commit => False
  | .confirm .. => False
  | .exitLock _ => False
  | _ => True

/-- Nothing but such operations so far. -/
def Before (t : History) : Prop := ∀ event ∈ t, Early event.1

theorem Before.snoc {t : History} (h : Before t) (op : Op) (hop : Early op) (x : Resp op) :
    Before (t ++ [⟨op, x⟩]) := by
  intro event hevent
  rcases List.mem_append.mp hevent with hmem | hmem
  · exact h event hmem
  · obtain rfl := List.mem_singleton.mp hmem
    exact hop

theorem Before.not_commits {t : History} (h : Before t) : ∀ event ∈ t, ¬ Commits event := by
  intro event hevent hcommits
  obtain ⟨op, x⟩ := event
  cases op <;> first | exact hcommits | exact h _ hevent

theorem Before.not_failsExit {t : History} (h : Before t) : ∀ event ∈ t, ¬ FailsExit event := by
  intro event hevent hfails
  obtain ⟨op, x⟩ := event
  cases op <;> first | exact hfails | exact h _ hevent

theorem Before.not_cancelsConfirm {t : History} (h : Before t) :
    ∀ event ∈ t, ¬ CancelsConfirm event := by
  intro event hevent hcancels
  obtain ⟨op, x⟩ := event
  cases op <;> first | exact hcancels | exact h _ hevent

/-- How the body of the lock ends: with nothing committed, with the outcome, or cancelled
    in the confirmation. The lock has not been left yet. -/
structure Body (r : Except Exn MovementOutcome) (t : History) : Prop where
  inside : ∀ event ∈ t, ¬ FailsExit event
  ends : (∃ event ∈ t, Commits event) → (Returns r t ∧ ∀ event ∈ t, ¬ CancelsConfirm event) ∨
    ((∃ event ∈ t, CancelsConfirm event) ∧ ∃ e, r = .error e)

theorem Before.body {t : History} (h : Before t) (r : Except Exn MovementOutcome) : Body r t := by
  refine ⟨h.not_failsExit, ?_⟩
  rintro ⟨event, hevent, hcommits⟩
  exact absurd hcommits (h.not_commits event hevent)

/-! ## The parts of `apply` -/

section

open Program Contract

variable {service : WalletMovementSettings} {m : MovementRequest} {t : History}

/-- Every answer is possible. -/
abbrev anything : Contract Op Resp := recording fun _ => True

theorem refuseWith_before {α : Type} (e : Exn) (h : Before t) :
    anything.wp (refuseWith m e : AppM α) (fun r t' => Before t' ∧ ∃ e, r = .error e) t := by
  refine ⟨trivial, ?_⟩
  intro x t' ht'
  obtain ⟨-, rfl⟩ := ht'
  have hrolled := h.snoc .rollback trivial x
  cases x with
  | error e' => exact ⟨hrolled, e', rfl⟩
  | ok u =>
    unfold release
    cases m.idempotencyKey with
    | none => exact ⟨hrolled, e, rfl⟩
    | some key =>
      refine ⟨trivial, ?_⟩
      intro x t' ht'
      obtain ⟨-, rfl⟩ := ht'
      have hreleased := hrolled.snoc (.release (scopedKey m.ownerId key)) trivial x
      cases x with
      | error e' => exact ⟨hreleased, e', rfl⟩
      | ok u => exact ⟨hreleased, e, rfl⟩

theorem replay_before (record : IdempotencyRecord Receipt) (h : Before t) :
    anything.wp (replay m record) (fun _ t' => Before t') t := by
  refine ⟨trivial, ?_⟩
  intro x t' ht'
  obtain ⟨-, rfl⟩ := ht'
  have hread := h.snoc (.readEntry record.response.entryId m.ownerId) trivial x
  cases x with
  | error e => exact hread
  | ok entry =>
    refine ⟨trivial, ?_⟩
    intro x t' ht'
    obtain ⟨-, rfl⟩ := ht'
    have hloaded := hread.snoc (.readWallet m.walletId m.ownerId false) trivial x
    rcases x with e | (_ | wallet)
    · exact hloaded
    · cases entry <;> exact hloaded
    · cases entry with
      | none => exact hloaded
      | some entry =>
        refine ⟨trivial, ?_⟩
        intro x t' ht'
        obtain ⟨-, rfl⟩ := ht'
        have hrolled := hloaded.snoc .rollback trivial x
        cases x <;> exact hrolled

theorem claim_before (h : Before t) :
    anything.wp (claim service m) (fun _ t' => Before t') t := by
  unfold claim
  cases m.idempotencyKey with
  | none => exact h
  | some key =>
    refine ⟨trivial, ?_⟩
    intro x t' ht'
    obtain ⟨-, rfl⟩ := ht'
    have hreserved := h.snoc (.reserve (scopedKey m.ownerId key) (fingerprint m)
      service.idempotencyTtlSeconds) trivial x
    rcases x with e | ⟨outcome, record⟩
    · exact hreserved
    cases outcome with
    | completed =>
      cases record with
      | none => exact hreserved
      | some record => exact replay_before record hreserved
    | _ => exact hreserved

/-- What `_confirm` adds to the history, and how it ends: only a cancellation gets out. -/
structure Confirmation (r : Except Exn Unit) (u : History) : Prop where
  inside : ∀ event ∈ u, ¬ FailsExit event
  ends : (∃ a, r = .ok a) ∧ (∀ event ∈ u, ¬ CancelsConfirm event) ∨
    (∃ e, r = .error e) ∧ ∃ event ∈ u, CancelsConfirm event

theorem confirm_confirmation {wallet : Wallet} {entry : LedgerEntry} :
    anything.wp (confirm service m wallet entry)
      (fun r t' => ∃ u, t' = t ++ u ∧ Confirmation r u) t := by
  unfold confirm
  cases m.idempotencyKey with
  -- without a key there is nothing to confirm
  | none => exact ⟨[], (List.append_nil t).symm, by simp, .inl ⟨⟨(), rfl⟩, by simp⟩⟩
  | some key =>
    refine ⟨trivial, ?_⟩
    intro x t' ht'
    obtain ⟨-, rfl⟩ := ht'
    cases x with
    | ok u =>
      -- it is confirmed
      refine ⟨trivial, ?_⟩
      intro v t' ht'
      obtain ⟨-, rfl⟩ := ht'
      refine ⟨_, List.append_assoc _ _ _, ?_, .inl ⟨⟨_, rfl⟩, ?_⟩⟩
      · simp [FailsExit]
      · simp [CancelsConfirm]
    | error e =>
      simp only [handle_done, confirmed]
      -- an exception is only logged, and what is none is raised again
      by_cases he : e.isException = true
      · rw [if_pos he]
        refine ⟨trivial, ?_⟩
        intro v t' ht'
        obtain ⟨-, rfl⟩ := ht'
        refine ⟨_, List.append_assoc _ _ _, ?_, .inl ⟨⟨_, rfl⟩, ?_⟩⟩
        · simp [FailsExit]
        · simp [CancelsConfirm, he]
      · rw [if_neg he]
        refine ⟨trivial, ?_⟩
        intro v t' ht'
        obtain ⟨-, rfl⟩ := ht'
        refine ⟨_, List.append_assoc _ _ _, ?_, .inr ⟨⟨e, rfl⟩, ?_⟩⟩
        · simp [FailsExit]
        · exact ⟨_, List.mem_cons_self, by simpa [CancelsConfirm] using he⟩

theorem write_body {wallet : Wallet} {version : ℤ} {balance : Money} {now : Datetime}
    (h : Before t) : anything.wp (write service m version wallet balance now) Body t := by
  refine ⟨trivial, ?_⟩
  intro (id : UUID) t' ht'
  obtain ⟨-, rfl⟩ := ht'
  have hminted := h.snoc .generate trivial id
  set entry := LedgerEntry.record ⟨id⟩ wallet.id m.direction m.amount balance m.description now
    with hentry
  -- the entry is added
  refine ⟨trivial, ?_⟩
  intro x t' ht'
  obtain ⟨-, rfl⟩ := ht'
  have hadded := hminted.snoc (.addEntry entry) trivial x
  cases x with
  | error e => exact hadded.body _
  | ok u =>
    -- and the wallet updated, unless something fails before it is committed
    refine ⟨trivial, ?_⟩
    intro x t' ht'
    obtain ⟨-, rfl⟩ := ht'
    have hupdated := hadded.snoc (.updateWallet wallet version) trivial x
    rcases x with e | (_ | _)
    · exact hupdated.body _
    · exact wp_mono (fun r t' ht' => ht'.1.body r) (refuseWith_before _ hupdated)
    · refine ⟨trivial, ?_⟩
      intro x t' ht'
      obtain ⟨-, rfl⟩ := ht'
      cases x with
      | error e =>
        -- whatever became of it, this commit did not return
        refine ⟨?_, ?_⟩
        · intro event hevent
          rcases List.mem_append.mp hevent with hmem | hmem
          · exact hupdated.not_failsExit event hmem
          · obtain rfl := List.mem_singleton.mp hmem
            exact fun hfails => hfails
        · rintro ⟨event, hevent, hcommits⟩
          rcases List.mem_append.mp hevent with hmem | hmem
          · exact absurd hcommits (hupdated.not_commits event hmem)
          · obtain rfl := List.mem_singleton.mp hmem
            exact hcommits.elim
      | ok u =>
        -- the commit returned: from here on the confirmation decides
        show anything.wp ((confirm service m wallet entry).handle _) _ _
        refine wp_handle.mpr (wp_mono ?_ confirm_confirmation)
        intro r t' ht'
        obtain ⟨v, rfl, hconfirmation⟩ := ht'
        have hinside : ∀ event ∈ t ++ [⟨.generate, id⟩] ++ [⟨.addEntry entry, .ok ()⟩] ++
            [⟨.updateWallet wallet version, .ok true⟩] ++ [⟨.commit, .ok u⟩] ++ v,
            ¬ FailsExit event := by
          intro event hevent
          rcases List.mem_append.mp hevent with hmem | hmem
          · rcases List.mem_append.mp hmem with hmem | hmem
            · exact hupdated.not_failsExit event hmem
            · obtain rfl := List.mem_singleton.mp hmem
              exact fun hfails => hfails
          · exact hconfirmation.inside event hmem
        -- it lets the outcome through, or raises
        rcases hconfirmation.ends with ⟨⟨a, rfl⟩, hconfirmed⟩ | ⟨⟨e, rfl⟩, event, hevent, hcancels⟩
        · refine ⟨hinside, fun _ => .inl ⟨⟨_, version, rfl, rfl, ?_, ?_⟩, ?_⟩⟩
          · -- the entry was added three operations ago, the wallet updated two
            refine List.mem_append_left _ (List.mem_append_left _ (List.mem_append_left _ ?_))
            exact List.mem_append_right _ (List.mem_singleton_self _)
          · refine List.mem_append_left _ (List.mem_append_left _ ?_)
            exact List.mem_append_right _ (List.mem_singleton_self _)
          · intro event hevent
            rcases List.mem_append.mp hevent with hmem | hmem
            · rcases List.mem_append.mp hmem with hmem | hmem
              · exact hupdated.not_cancelsConfirm event hmem
              · obtain rfl := List.mem_singleton.mp hmem
                exact fun hcancels => hcancels
            · exact hconfirmed event hmem
        · refine ⟨hinside, fun _ => .inr ⟨⟨event, ?_, hcancels⟩, e, rfl⟩⟩
          exact List.mem_append_right _ hevent

theorem applyLocked_body (h : Before t) : anything.wp (applyLocked service m) Body t := by
  refine ⟨trivial, ?_⟩
  intro x t' ht'
  obtain ⟨-, rfl⟩ := ht'
  have hread := h.snoc (.readWallet m.walletId m.ownerId true) trivial x
  rcases x with e | (_ | wallet)
  · exact hread.body _
  · exact wp_mono (fun r t' ht' => ht'.1.body r) (refuseWith_before _ hread)
  · refine ⟨trivial, ?_⟩
    intro (now : Datetime) t' ht'
    obtain ⟨-, rfl⟩ := ht'
    have hnow := hread.snoc .now trivial now
    simp only [handle_done, onValue_ok]
    rcases move wallet m.direction m.amount now with (e | signal) | ⟨moved, balance⟩
    · exact wp_mono (fun r t' ht' => ht'.1.body r) (refuseWith_before _ hnow)
    · exact hnow.body _
    · exact write_body hnow

theorem withLock_body (h : Before t) (acquired : Bool) :
    anything.wp (withLock service m acquired) Body t := by
  refine ⟨trivial, ?_⟩
  intro u t' ht'
  obtain ⟨-, rfl⟩ := ht'
  have hobserved := h.snoc (.observe _) trivial u
  cases acquired with
  | true => exact applyLocked_body hobserved
  | false => exact wp_mono (fun r t' ht' => ht'.1.body r) (refuseWith_before _ hobserved)

/-- What is said of a complete history in which the commit returned. -/
def Reported (r : Except Exn MovementOutcome) (t : History) : Prop :=
  (∃ event ∈ t, Commits event) →
    (Returns r t ↔ (∀ event ∈ t, ¬ FailsExit event) ∧ ∀ event ∈ t, ¬ CancelsConfirm event)

theorem Before.reported (h : Before t) (r : Except Exn MovementOutcome) : Reported r t := by
  rintro ⟨event, hevent, hcommits⟩
  exact absurd hcommits (h.not_commits event hevent)

/-- Leaving the lock neither commits nor confirms, and can only spoil a result. -/
theorem Body.leave {key : String} {r : Except Exn MovementOutcome} (h : Body r t)
    (y : Resp (.exitLock key)) :
    anything.wp ((Program.done y : AppM Unit).handle (onValue fun _ => .done r)) Reported
      (t ++ [⟨.exitLock key, y⟩]) := by
  -- whatever happened inside happened before the exit
  have hback : ∀ {P : Event Op Resp → Prop}, ¬ P ⟨.exitLock key, y⟩ →
      (∃ event ∈ t ++ [⟨.exitLock key, y⟩], P event) → ∃ event ∈ t, P event := by
    rintro P hexit ⟨event, hevent, hP⟩
    rcases List.mem_append.mp hevent with hmem | hmem
    · exact ⟨event, hmem, hP⟩
    · obtain rfl := List.mem_singleton.mp hmem
      exact absurd hP hexit
  cases y with
  | error e =>
    -- the exit raises, in place of the outcome
    intro hcommitted
    constructor
    · rintro ⟨out, version, hout, -⟩
      cases hout
    · intro hclean
      exact absurd trivial (hclean.1 _ (List.mem_append_right _ (List.mem_singleton_self _)))
  | ok u =>
    -- the exit succeeds, and the outcome is what the body made it
    intro hcommitted
    have hinside : ∀ event ∈ t ++ [⟨.exitLock key, .ok u⟩], ¬ FailsExit event := by
      intro event hevent hfails
      obtain ⟨event', hevent', hfails'⟩ := hback (P := FailsExit) id ⟨event, hevent, hfails⟩
      exact h.inside event' hevent' hfails'
    rcases h.ends (hback (P := Commits) id hcommitted) with
      ⟨⟨out, version, rfl, hreplayed, hadded, hupdated⟩, hconfirmed⟩ |
      ⟨⟨event, hevent, hcancels⟩, e, rfl⟩
    · constructor
      · intro hreturns
        refine ⟨hinside, fun event hevent hcancels => ?_⟩
        obtain ⟨event', hevent', hcancels'⟩ :=
          hback (P := CancelsConfirm) id ⟨event, hevent, hcancels⟩
        exact hconfirmed event' hevent' hcancels'
      · intro hclean
        exact ⟨out, version, rfl, hreplayed, List.mem_append_left _ hadded,
          List.mem_append_left _ hupdated⟩
    · constructor
      · rintro ⟨out, version, hout, -⟩
        cases hout
      · intro hclean
        exact absurd hcancels (hclean.2 event (List.mem_append_left _ hevent))

theorem apply_reported : anything.wp (apply service m) Reported [] := by
  unfold apply
  have hempty : Before [] := by
    intro event hevent
    cases hevent
  refine wp_bind.mpr (wp_mono ?_ (claim_before hempty))
  intro x t hclaimed
  rcases x with e | (_ | out)
  · exact hclaimed.reported _
  · refine ⟨trivial, ?_⟩
    intro x t' ht'
    obtain ⟨-, rfl⟩ := ht'
    have hentered := hclaimed.snoc
      (.enterLock (lockKey m.walletId) service.lockTtlMs service.lockWaitMs) trivial x
    cases x with
    | error e => exact hentered.reported _
    | ok acquired =>
      show anything.wp ((withLock service m acquired).tryFinally _) _ _
      refine wp_handle.mpr (wp_mono ?_ (withLock_body hentered acquired))
      intro r t' hbody
      refine ⟨trivial, ?_⟩
      intro y t'' ht''
      obtain ⟨-, rfl⟩ := ht''
      exact hbody.leave y
  · exact hclaimed.reported _

end

/-- After a commit that returned, `apply` returns the outcome of the committed movement
    exactly if the lock's exit did not raise and no cancellation hit the confirmation. -/
theorem committed_returns_iff (service : WalletMovementSettings) (m : MovementRequest)
    {t : History} {r : Except Exn MovementOutcome}
    (hperforms : (apply service m).Performs t (.done r)) (hcommitted : ∃ event ∈ t, Commits event) :
    Returns r t ↔ (∀ event ∈ t, ¬ FailsExit event) ∧ ∀ event ∈ t, ¬ CancelsConfirm event := by
  have hreported := Contract.of_recording (u := []) apply_reported hperforms fun _ _ => trivial
  exact hreported hcommitted

/-! A deposit without a key, up to the exit of the lock. -/

private def outage : Exn := dependencyUnavailable "redis" "lock.release"

private def upToTheExit (y : Except Exn Unit) : History :=
  [⟨.enterLock (lockKey Sample.wallet.id) 5000 2000, .ok true⟩,
    ⟨.observe (.lock "wallet_movement" "acquired"), ()⟩,
    ⟨.readWallet Sample.wallet.id Sample.owner true, .ok (some Sample.wallet)⟩, ⟨.now, (0 : ℤ)⟩,
    ⟨.generate, Sample.minted⟩, ⟨.addEntry (Sample.entry Sample.minted), .ok ()⟩,
    ⟨.updateWallet Sample.credited 0, .ok true⟩, ⟨.commit, .ok ()⟩,
    ⟨.exitLock (lockKey Sample.wallet.id), y⟩]

theorem committed_returns_iff_deposit :
    Returns (.ok ⟨Sample.credited, Sample.entry Sample.minted, false, Sample.euro⟩)
      (upToTheExit (.ok ())) := by
  have hperforms : (apply {} (Sample.deposit none)).Performs (upToTheExit (.ok ())) (.done (.ok
      ⟨Sample.credited, Sample.entry Sample.minted, false, Sample.euro⟩)) :=
    .cons _ (.cons _ (.cons _ (.cons _ (.cons _ (.cons _ (.cons _ (.cons _ (.cons _
      (.nil _)))))))))
  refine (committed_returns_iff {} (Sample.deposit none) hperforms ?_).mpr ⟨?_, ?_⟩
  · exact ⟨⟨.commit, .ok ()⟩, by simp [upToTheExit], trivial⟩
  · simp [upToTheExit, FailsExit]
  · simp [upToTheExit, CancelsConfirm]

/-- Redis fails while the lock is released: the money has moved, and the caller is told 503. -/
theorem committed_movement_reported_failed :
    (apply {} (Sample.deposit none)).Performs (upToTheExit (.error outage))
        (.done (.error outage)) ∧
      (∃ event ∈ upToTheExit (.error outage), Commits event) ∧
      ¬ Returns (.error outage) (upToTheExit (.error outage)) := by
  refine ⟨?_, ?_, ?_⟩
  · exact .cons _ (.cons _ (.cons _ (.cons _ (.cons _ (.cons _ (.cons _ (.cons _ (.cons _
      (.nil _)))))))))
  · exact ⟨⟨.commit, .ok ()⟩, by simp [upToTheExit], trivial⟩
  · rintro ⟨out, version, hout, -⟩
    cases hout

end Evenkeel.Properties
