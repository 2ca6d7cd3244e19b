import Evenkeel.Application.Interactors

/-!
# The Operations of the Movement Service

Which operations `WalletMovementService.apply` performs, in two parts: the claim of the key,
and the movement behind it. What all operations of a part keep, under any contract, the part
keeps.

- `Op.Claims`, `Op.Moves`: the operations of the two parts
- `Permits`: a contract allows an operation, and every answer keeps an invariant

## Key Results

- `claim_keeps`, `locked_keeps`: each part keeps what its operations keep
- `apply_keeps`: so does the service
-/

namespace Evenkeel.Application

open Evenkeel.Domain Evenkeel.Effects

/-- The code an error is reported with. -/
def Exn.code : Exn → Option ApplicationErrorCode
  | .application e => some e.code
  | _ => none

/-- The exception is no refusal of the movement. -/
def Unrefused (e : Exn) : Prop := e.code ≠ some .movementRefused

/-- The exception is answered with a 503. -/
def Exn.Unavailable (e : Exn) : Prop := ∃ a, e = .application a ∧ a.statusCode = 503

/-- What the service raises of its own accord is neither. -/
def Own (e : Exn) : Prop := Unrefused e ∧ ¬e.Unavailable

theorem own_application {c : ErrorClass} {code : ApplicationErrorCode}
    {details : List (String × Detail)} :
    Own (.application ⟨c, code, details⟩) ↔
      code ≠ .movementRefused ∧ c.defaultStatusCode ≠ 503 := by
  simp [Own, Unrefused, Exn.code, Exn.Unavailable, ApplicationError.statusCode]

theorem own_of_code {e : Exn} (h : e.code = none) : Own e := by
  constructor
  · simp [Unrefused, h]
  · intro hunavailable
    obtain ⟨a, rfl, -⟩ := hunavailable
    cases h

/-- What the service raises of its own accord, by class and code. -/
def serviceErrors : List (ErrorClass × ApplicationErrorCode) :=
  [(.notFound, .walletNotFound), (.conflict, .idempotencyKeyReused),
    (.conflict, .movementInProgress), (.conflict, .walletBusy),
    (.conflict, .walletVersionConflict)]

/-- The service raises `e` itself: one of its errors, or what the wallet raised. -/
def MovementRequest.Raises (request : MovementRequest) : Exn → Prop
  | .application e => (e.errorClass, e.code) ∈ serviceErrors
  | .domain e => ∃ w now, move w request.direction request.amount now = .error (.domain e)
  | _ => True

theorem raises_application {request : MovementRequest} {c : ErrorClass}
    {code : ApplicationErrorCode} {details : List (String × Detail)} :
    request.Raises (.application ⟨c, code, details⟩) ↔ (c, code) ∈ serviceErrors := Iff.rfl

theorem MovementRequest.Raises.own {request : MovementRequest} {e : Exn}
    (h : request.Raises e) : Own e := by
  cases e with
  | application a =>
    obtain ⟨errorClass, code, details⟩ := a
    have hlist : ∀ error ∈ serviceErrors,
        error.2 ≠ .movementRefused ∧ error.1.defaultStatusCode ≠ 503 := by decide
    exact own_application.mpr (hlist _ h)
  | _ => exact own_of_code rfl

/-! ## Operations -/

/-- An operation of `_claim`. -/
def Op.Claims : Op → Prop
  | .reserve .. => True
  | .readEntry .. => True
  | .readWallet _ _ forUpdate => forUpdate = false
  | .rollback => True
  | _ => False

/-- An operation of `apply` behind the claim. -/
def Op.Moves : Op → Prop
  | .enterLock .. => True
  | .exitLock _ => True
  | .readWallet _ _ forUpdate => forUpdate = true
  | .addEntry _ => True
  | .updateWallet .. => True
  | .commit => True
  | .rollback => True
  | .release _ => True
  | .confirm .. => True
  | .now => True
  | .generate => True
  | .observe (.lock ..) => True
  | .observe (.externalCall ..) => True
  | _ => False

/-- Wherever `I` holds, `op` is allowed and every answer keeps `I`; what it raises is in `E`. -/
def Permits (C : Contract Op Resp) (I : C.State → Prop) (E : Exn → Prop) (op : Op) : Prop :=
  ∀ s, I s → C.allowed s op ∧
    ∀ x s', C.step s op x s' → I s' ∧ ∀ e, failure e op = some x → E e

section

variable {C : Contract Op Resp} {I : C.State → Prop} {E : Exn → Prop} {α : Type}

theorem Permits.keeps {op : Op} (h : Permits C I E op) {f : Resp op → Except Exn α}
    (hf : ∀ x e, f x = .error e → failure e op = some x) :
    C.Keeps I E (.request op fun x => .done (f x)) := by
  intro s hs
  obtain ⟨hallowed, hstep⟩ := h s hs
  refine ⟨hallowed, ?_⟩
  intro x s' hx
  obtain ⟨hs', hraises⟩ := hstep x s' hx
  exact ⟨hs', fun e he => hraises e (hf x e he)⟩

variable (service : WalletMovementSettings) (request : MovementRequest)

/-! ## The movement -/

section

variable (hmoves : ∀ op : Op, op.Moves → Permits C I E op)

include hmoves

theorem release_keeps : C.Keeps I E (release request) := by
  unfold release
  split
  · exact Contract.keeps_ok _
  · exact (hmoves (.release _) trivial).keeps fun | _, _, rfl => rfl

theorem refuseWith_keeps {e : Exn} (he : E e) :
    C.Keeps I E (refuseWith request e : AppM α) := by
  apply Contract.keeps_bind
  · exact (hmoves .rollback trivial).keeps fun | _, _, rfl => rfl
  · intro _
    apply Contract.keeps_bind (release_keeps request hmoves)
    intro _
    exact Contract.keeps_error he

theorem confirm_keeps (wallet : Wallet) (entry : LedgerEntry) :
    C.Keeps I E (confirm service request wallet entry) := by
  have hobserve : ∀ operation outcome,
      C.Keeps I E (Ports.observe (.externalCall "idempotency" operation outcome)) :=
    fun operation outcome => (hmoves (.observe (.externalCall ..)) trivial).keeps nofun
  unfold confirm
  split
  · exact Contract.keeps_ok _
  · apply Contract.keeps_handle
    · exact (hmoves (.confirm ..) trivial).keeps fun | _, _, rfl => rfl
    · intro r hr
      cases r with
      | ok _ => exact hobserve _ _
      | error e =>
        simp only [confirmed]
        split
        · exact hobserve _ _
        · apply Contract.keeps_bind (hobserve _ _)
          intro _
          exact Contract.keeps_error (hr e rfl)

variable (hE : ∀ e, request.Raises e → E e)

include hE

theorem write_keeps (expectedVersion : ℤ) (wallet : Wallet) (balanceAfter : Money)
    (now : Datetime) :
    C.Keeps I E (write service request expectedVersion wallet balanceAfter now) := by
  apply Contract.keeps_bind
  · exact (hmoves .generate trivial).keeps nofun
  · intro id
    apply Contract.keeps_bind
    · exact (hmoves (.addEntry _) trivial).keeps fun | _, _, rfl => rfl
    · intro _
      apply Contract.keeps_bind
      · exact (hmoves (.updateWallet ..) trivial).keeps fun | _, _, rfl => rfl
      · intro updated
        split
        · apply Contract.keeps_bind
          · exact (hmoves .commit trivial).keeps fun | _, _, rfl => rfl
          · intro _
            apply Contract.keeps_bind (confirm_keeps service request hmoves _ _)
            exact fun _ => Contract.keeps_ok _
        · exact refuseWith_keeps request hmoves (hE _ (raises_application.mpr (by decide)))

theorem applyLocked_keeps : C.Keeps I E (applyLocked service request) := by
  apply Contract.keeps_bind
  · exact (hmoves (.readWallet ..) rfl).keeps fun | _, _, rfl => rfl
  · intro wallet
    cases wallet with
    | none => exact refuseWith_keeps request hmoves (hE _ (raises_application.mpr (by decide)))
    | some wallet =>
      apply Contract.keeps_bind
      · exact (hmoves .now trivial).keeps nofun
      · intro now
        split
        · exact write_keeps service request hmoves hE _ _ _ _
        · rename_i hmove
          exact refuseWith_keeps request hmoves (hE _ ⟨wallet, now, hmove⟩)
        · exact Contract.keeps_error (hE _ trivial)

/-- The `async with` of `apply`. -/
theorem locked_keeps :
    C.Keeps I E (Program.withContext
      (Ports.enterLock (lockKey request.walletId) service.lockTtlMs service.lockWaitMs)
      (Ports.exitLock (lockKey request.walletId)) (withLock service request)) := by
  apply Contract.keeps_withContext
  · exact (hmoves (.enterLock ..) trivial).keeps fun | _, _, rfl => rfl
  · exact (hmoves (.exitLock _) trivial).keeps fun | _, _, rfl => rfl
  · intro acquired
    apply Contract.keeps_bind
    · exact (hmoves (.observe (.lock ..)) trivial).keeps nofun
    · intro _
      split
      · exact applyLocked_keeps service request hmoves hE
      · exact refuseWith_keeps request hmoves (hE _ (raises_application.mpr (by decide)))

end

/-! ## The claim -/

section

variable (hclaims : ∀ op : Op, op.Claims → Permits C I E op)

include hclaims

theorem replay_keeps (record : IdempotencyRecord Receipt) :
    C.Keeps I E (replay request record) := by
  apply Contract.keeps_bind
  · exact (hclaims (.readEntry ..) trivial).keeps fun | _, _, rfl => rfl
  · intro entry
    apply Contract.keeps_bind
    · exact (hclaims (.readWallet ..) rfl).keeps fun | _, _, rfl => rfl
    · intro wallet
      split
      · apply Contract.keeps_bind
        · exact (hclaims .rollback trivial).keeps fun | _, _, rfl => rfl
        · exact fun _ => Contract.keeps_ok _
      · exact Contract.keeps_ok _

theorem claim_keeps (hE : ∀ e, request.Raises e → E e) : C.Keeps I E (claim service request) := by
  unfold claim
  split
  · exact Contract.keeps_ok _
  · apply Contract.keeps_bind
    · exact (hclaims (.reserve ..) trivial).keeps fun | _, _, rfl => rfl
    · intro reservation
      split
      · exact Contract.keeps_ok _
      · split
        · exact Contract.keeps_error (hE _ (raises_application.mpr (by decide)))
        · exact Contract.keeps_error (hE _ (raises_application.mpr (by decide)))
        · exact Contract.keeps_ok _
        · exact replay_keeps request hclaims _

end

/-! ## The service -/

theorem apply_keeps (hclaims : ∀ op : Op, op.Claims → Permits C I E op)
    (hmoves : ∀ op : Op, op.Moves → Permits C I E op) (hE : ∀ e, request.Raises e → E e) :
    C.Keeps I E (apply service request) := by
  apply Contract.keeps_bind (claim_keeps service request hclaims hE)
  intro replayed
  split
  · exact Contract.keeps_ok _
  · exact locked_keeps service request hmoves hE

end

end Evenkeel.Application
