import Evenkeel.Application.Interactors

/-!
# Movements of Wallets That Are Not One's Own

A request of `apply` for a wallet that is not there to be read. Its answer depends on two
things only: what the store answers its claim, and what the lock server answers once the claim
has let it pass.

- `Succeeds`, `lockAnswer`: an operation that did not raise; what the lock server said
- `refusal`, `verdict`: the answer, given the two
- `unowned`: the contract of such a request

## Key Results

- `apply_verdict`: the answer is the verdict
- `verdict_eq_iff`: two requests that are given the same reservation are answered alike if and
  only if the lock server answers them alike
-/

namespace Evenkeel.Application

open Evenkeel.Domain Evenkeel.Effects

/-! ## What the answer depends on -/

/-- The operation did not raise. -/
def Succeeds (event : Event Op Resp) : Prop := ∀ e, failure e event.1 ≠ some event.2

/-- What the lock server has answered. -/
def noteLock (b : Option Bool) : Event Op Resp → Option Bool
  | ⟨.enterLock .., .ok acquired⟩ => some acquired
  | _ => b

/-- What the lock server answered, if it was asked. -/
def lockAnswer (t : List (Event Op Resp)) : Option Bool := t.foldl noteLock none

/-- What `_claim` raises for a key that is in use. -/
def refusal (m : MovementRequest) (reservation : IdempotencyReservation Receipt) : Option Exn :=
  m.idempotencyKey.bind fun key =>
    match reservation.outcome with
    | .conflict => some (.application ⟨.conflict, .idempotencyKeyReused,
        [("idempotency_key", .text key)]⟩)
    | .inProgress => some (.application ⟨.conflict, .movementInProgress,
        [("idempotency_key", .text key)]⟩)
    | _ => none

/-- `WALLET_BUSY`. -/
def walletBusy (m : MovementRequest) : Exn :=
  .application ⟨.conflict, .walletBusy, [("wallet_id", .text m.walletId.value.str)]⟩

/-- The answer of the request, and whether the lock server was asked on the way to it. -/
def verdict (m : MovementRequest) (reservation : IdempotencyReservation Receipt)
    (r : Except Exn MovementOutcome) (lock : Option Bool) : Prop :=
  match refusal m reservation with
  | some e => r = .error e ∧ lock = none
  | none =>
    ∃ acquired, lock = some acquired ∧
      r = .error (if acquired then walletNotFound m.walletId else walletBusy m)

/-- The store answers the claim with `reservation`, the wallet is not there, and nothing
    raises. -/
def Says (reservation : IdempotencyReservation Receipt) (event : Event Op Resp) : Prop :=
  Succeeds event ∧
    match event with
    | ⟨.reserve .., x⟩ => x = .ok reservation
    | ⟨.readWallet .., x⟩ => x = .ok none
    | _ => True

/-- The contract of such a request, which keeps the lock server's answer. -/
def unowned (reservation : IdempotencyReservation Receipt) : Contract Op Resp :=
  .tracking (Says reservation) noteLock fun _ _ => True

section

variable {service : WalletMovementSettings} {m : MovementRequest}
  {reservation : IdempotencyReservation Receipt} {b : Option Bool} {α : Type}

theorem refuseWith_verdict (e : Exn) : (unowned reservation).wp (refuseWith (α := α) m e)
    (fun r b' => r = .error e ∧ b' = b) b := by
  unfold refuseWith
  refine ⟨trivial, ?_⟩
  intro x b₁ hstep
  obtain ⟨⟨hok, -⟩, rfl⟩ := hstep
  cases x with
  | error e' => exact absurd rfl (hok e')
  | ok _ =>
    simp only [Program.handle_done, Program.onValue_ok, release]
    split
    · exact ⟨rfl, rfl⟩
    · refine ⟨trivial, ?_⟩
      intro x b₂ hstep
      obtain ⟨⟨hok, -⟩, rfl⟩ := hstep
      cases x with
      | error e' => exact absurd rfl (hok e')
      | ok _ => exact ⟨rfl, rfl⟩

theorem withLock_verdict (acquired : Bool) :
    (unowned reservation).wp (withLock service m acquired)
      (fun r b' => r = .error (if acquired then walletNotFound m.walletId else walletBusy m) ∧
        b' = b) b := by
  refine ⟨trivial, ?_⟩
  intro _ b₁ hstep
  obtain ⟨-, rfl⟩ := hstep
  cases acquired with
  | false => exact refuseWith_verdict _
  | true =>
    -- the wallet is looked for only behind the lock
    refine ⟨trivial, ?_⟩
    intro x b₂ hstep
    obtain ⟨⟨-, hx⟩, rfl⟩ := hstep
    obtain rfl : x = .ok none := hx
    exact refuseWith_verdict _

theorem locked_verdict (hclaim : refusal m reservation = none) :
    (unowned reservation).wp (Program.withContext
      (Ports.enterLock (lockKey m.walletId) service.lockTtlMs service.lockWaitMs)
      (Ports.exitLock (lockKey m.walletId)) (withLock service m)) (verdict m reservation) none := by
  refine ⟨trivial, ?_⟩
  -- the entry of the lock, whose answer is the one that is kept
  intro x b₁ hstep
  obtain ⟨⟨hok, -⟩, rfl⟩ := hstep
  cases x with
  | error e => exact absurd rfl (hok e)
  | ok acquired =>
    show (unowned reservation).wp ((withLock service m acquired).tryFinally _) _ (some acquired)
    apply Contract.wp_handle.mpr
    apply Contract.wp_mono _ (withLock_verdict acquired)
    intro r b₂ hr
    obtain ⟨rfl, rfl⟩ := hr
    refine ⟨trivial, ?_⟩
    -- its exit, which does not raise here
    intro x b₃ hstep
    obtain ⟨⟨hok, -⟩, rfl⟩ := hstep
    cases x with
    | error e => exact absurd rfl (hok e)
    | ok _ =>
      show verdict m reservation _ (some acquired)
      unfold verdict
      rw [hclaim]
      exact ⟨acquired, rfl, rfl⟩

/-- The claim raises, or lets the request pass: nothing can be replayed without the wallet. -/
theorem claim_verdict : (unowned reservation).wp (claim service m)
    (fun r b => b = none ∧ r = match refusal m reservation with
      | some e => .error e
      | none => .ok none) none := by
  unfold claim refusal
  cases m.idempotencyKey with
  | none => exact ⟨rfl, rfl⟩
  | some key =>
    refine ⟨trivial, ?_⟩
    -- the store answers with the reservation that is given
    intro x b₁ hstep
    obtain ⟨⟨-, hx⟩, rfl⟩ := hstep
    obtain rfl : x = .ok reservation := hx
    obtain ⟨outcome, record⟩ := reservation
    cases outcome with
    | reserved => exact ⟨rfl, rfl⟩
    | conflict => exact ⟨rfl, rfl⟩
    | inProgress => exact ⟨rfl, rfl⟩
    | completed =>
      cases record with
      | none => exact ⟨rfl, rfl⟩
      | some record =>
        refine ⟨trivial, ?_⟩
        -- the entry may be there or not
        intro x b₂ hstep
        obtain ⟨⟨hok, -⟩, rfl⟩ := hstep
        cases x with
        | error e => exact absurd rfl (hok e)
        | ok entry =>
          -- the wallet is not: the replay falls through
          refine ⟨trivial, ?_⟩
          intro x b₃ hstep
          obtain ⟨⟨-, hx⟩, rfl⟩ := hstep
          obtain rfl : x = .ok none := hx
          cases entry <;> exact ⟨rfl, rfl⟩

/-- Whatever else is answered. -/
theorem apply_verdict : (unowned reservation).wp (apply service m) (verdict m reservation)
    none := by
  unfold apply
  apply Contract.wp_bind.mpr
  apply Contract.wp_mono _ claim_verdict
  intro r b hr
  obtain ⟨rfl, rfl⟩ := hr
  cases hclaim : refusal m reservation with
  | some e =>
    show verdict m reservation _ _
    rw [verdict, hclaim]
    exact ⟨rfl, rfl⟩
  | none => exact locked_verdict hclaim

/-- Two such requests are answered alike if, and only if, the lock server answers them alike. -/
theorem verdict_eq_iff {r₁ r₂ : Except Exn MovementOutcome} {b₁ b₂ : Option Bool}
    (h₁ : verdict m reservation r₁ b₁) (h₂ : verdict m reservation r₂ b₂) :
    r₁ = r₂ ↔ b₁ = b₂ := by
  unfold verdict at h₁ h₂
  cases hclaim : refusal m reservation with
  | some e =>
    rw [hclaim] at h₁ h₂
    obtain ⟨rfl, rfl⟩ := h₁
    obtain ⟨rfl, rfl⟩ := h₂
    exact iff_of_true rfl rfl
  | none =>
    rw [hclaim] at h₁ h₂
    obtain ⟨a₁, rfl, rfl⟩ := h₁
    obtain ⟨a₂, rfl, rfl⟩ := h₂
    cases a₁ <;> cases a₂ <;> simp [walletNotFound, walletBusy]

/-- Such a request moves nothing. -/
theorem error_of_verdict {r : Except Exn MovementOutcome} (h : verdict m reservation r b) :
    ∃ e, r = .error e := by
  unfold verdict at h
  split at h
  · exact ⟨_, h.1⟩
  · obtain ⟨acquired, -, hr⟩ := h
    exact ⟨_, hr⟩

/-- A lock that is not refused was granted in both cases, or not asked for in either. -/
theorem lock_eq_of_granted {r₁ r₂ : Except Exn MovementOutcome} {b₁ b₂ : Option Bool}
    (h₁ : verdict m reservation r₁ b₁) (h₂ : verdict m reservation r₂ b₂)
    (hb₁ : b₁ ≠ some false) (hb₂ : b₂ ≠ some false) : b₁ = b₂ := by
  unfold verdict at h₁ h₂
  cases hclaim : refusal m reservation with
  | some e =>
    rw [hclaim] at h₁ h₂
    exact h₁.2.trans h₂.2.symm
  | none =>
    rw [hclaim] at h₁ h₂
    obtain ⟨a₁, rfl, -⟩ := h₁
    obtain ⟨a₂, rfl, -⟩ := h₂
    cases a₁ with
    | false => exact absurd rfl hb₁
    | true =>
      cases a₂ with
      | false => exact absurd rfl hb₂
      | true => rfl

/-- No claim is refused with `WALLET_BUSY`. -/
theorem refusal_ne_busy {e : Exn} (h : refusal m reservation = some e) : e ≠ walletBusy m := by
  obtain ⟨key, -, hkey⟩ := Option.bind_eq_some_iff.mp h
  intro hbusy
  subst hbusy
  split at hkey <;> simp [walletBusy] at hkey

end

end Evenkeel.Application
