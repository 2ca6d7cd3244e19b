import Evenkeel.Infrastructure.Bystanders

/-!
# No Existence Oracle on the Write Path

A wallet that is another owner's is to be reported as absent. The read behind the lock does
that, since the owner is a part of its query. The lock is taken before the read, though, under
a name made of the wallet's id alone, so that a request for a wallet which is being moved can
be told `WALLET_BUSY` instead. That is the one way to tell the two apart.
-/

namespace Evenkeel.Properties

open Evenkeel.Domain Evenkeel.Application Evenkeel.Effects Evenkeel.Infrastructure

/-- A run in which request `i` asks to move a wallet that its owner has not got, without
    anything raising on the way, and is answered. Nobody else acts for the owner. -/
structure Course (service : WalletMovementSettings) (settings : MoveMoneySettings) (i : ℕ)
    (m : MovementRequest) where
  requests : ℕ → Request
  now : Instant
  db : Database
  idempotency : Entries Receipt
  history : List (Occurrence Op Resp)
  pool : Pool deployment Exn Answer
  answer : Except Exn Answer
  sound : db.Sound
  unowned : Unowned requests i m db
  run : Pool.Run
    (arrivals service settings requests (World.start now db idempotency)) history pool
  succeeds : ∀ event ∈ Pool.ownEvents i history, Succeeds event
  answered : pool.clients i = .done answer

namespace Course

variable {service : WalletMovementSettings} {settings : MoveMoneySettings} {i : ℕ}
  {m : MovementRequest}

/-- What the lock server answered the request. -/
def lockAnswer (c : Course service settings i m) : Option Bool :=
  Application.lockAnswer (Pool.ownEvents i c.history)

/-- Everything of the owner's is equal at the start of two runs: the wallets, the entries, and
    what the store has for the owner's keys, with the same of it expired. -/
structure Alike (c c' : Course service settings i m) : Prop where
  wallets : c'.db.walletsOf m.ownerId = c.db.walletsOf m.ownerId
  ledger : c'.db.ledgerOf m.ownerId = c.db.ledgerOf m.ownerId
  entries : ∀ key, c'.idempotency (scopedKey m.ownerId key) =
    c.idempotency (scopedKey m.ownerId key)
  expired : ∀ key e, c.idempotency (scopedKey m.ownerId key) = some e →
    (e.expiresAt ≤ monotonic c.now ∧ e.expiresAt ≤ monotonic c'.now) ∨
      (monotonic c.pool.world.now < e.expiresAt ∧ monotonic c'.pool.world.now < e.expiresAt)

/-- `WALLET_NOT_FOUND`, or what a claim is refused with. -/
def Proper (m : MovementRequest) (answer : Except Exn Answer) : Prop :=
  answer = .error (walletNotFound m.walletId) ∨
    ∃ reservation e, refusal m reservation = some e ∧ answer = .error e

/-- How a verdict reads, as the answer to the request. -/
theorem proper_iff {reservation : IdempotencyReservation Receipt}
    {outcome : Except Exn MovementOutcome} {b : Option Bool}
    (h : verdict m reservation outcome b) :
    Proper m (outcome.map .applied) ↔ b ≠ some false := by
  unfold verdict at h
  cases hclaim : refusal m reservation with
  | some e =>
    rw [hclaim] at h
    obtain ⟨rfl, rfl⟩ := h
    exact iff_of_true (.inr ⟨reservation, e, hclaim, rfl⟩) (Option.some_ne_none _).symm
  | none =>
    rw [hclaim] at h
    obtain ⟨acquired, rfl, rfl⟩ := h
    cases acquired with
    | true => exact iff_of_true (.inl rfl) (by decide)
    | false =>
      apply iff_of_false _ (fun hne => hne rfl)
      intro hproper
      rcases hproper with heq | ⟨reservation', e, he, heq⟩
      · cases heq
      · exact refusal_ne_busy he (Except.error.inj heq).symm

/-- The clock of a run does not go back. -/
theorem clock (c : Course service settings i m) : c.now ≤ c.pool.world.now := by
  obtain ⟨g, hinv⟩ := bystander_of_run c.sound c.unowned c.run
  exact hinv.clock

/-- Both runs end with the verdict on one claim. -/
theorem Alike.verdicts {c c' : Course service settings i m} (h : c.Alike c') :
    ∃ reservation outcome outcome', c.answer = outcome.map .applied ∧
      c'.answer = outcome'.map .applied ∧ verdict m reservation outcome c.lockAnswer ∧
      verdict m reservation outcome' c'.lockAnswer := by
  have hclock := monotonic_mono c.clock
  have hclock' := monotonic_mono c'.clock
  have hsteady : ∀ key, Steady c.idempotency c.now c.pool.world.now
      (scopedKey m.ownerId key) := by
    intro key e he
    exact (h.expired key e he).imp (·.1) (·.1)
  have hsteady' : ∀ key, Steady c'.idempotency c'.now c'.pool.world.now
      (scopedKey m.ownerId key) := by
    intro key e he
    rw [h.entries] at he
    exact (h.expired key e he).imp (·.2) (·.2)
  have hclaim : claimAnswer service m c'.idempotency c'.now =
      claimAnswer service m c.idempotency c.now := by
    unfold claimAnswer
    cases m.idempotencyKey with
    | none => rfl
    | some key =>
      refine congrArg (fun x => (Except.toOption x).getD _)
        (Entries.reserve_congr (h.entries key) ?_ _ _)
      intro e he
      rcases h.expired key e he with ⟨hold, hold'⟩ | ⟨hlive, hlive'⟩
      · exact iff_of_true hold hold'
      · exact iff_of_false (not_le.mpr (hclock.trans_lt hlive))
          (not_le.mpr (hclock'.trans_lt hlive'))
  obtain ⟨outcome, hanswer, hverdict⟩ :=
    verdict_of_run c.sound c.unowned c.run hsteady c.succeeds c.answered
  obtain ⟨outcome', hanswer', hverdict'⟩ :=
    verdict_of_run c'.sound c'.unowned c'.run hsteady' c'.succeeds c'.answered
  rw [hclaim] at hverdict'
  exact ⟨_, outcome, outcome', hanswer, hanswer', hverdict, hverdict'⟩

end Course

/-- Two runs that start alike for the owner are answered alike exactly if the lock server says
    the same in both, and as for a wallet that does not exist exactly if it refuses the lock in
    neither. -/
theorem existence_oracle_iff {service : WalletMovementSettings} {settings : MoveMoneySettings}
    {i : ℕ} {m : MovementRequest} {c c' : Course service settings i m} (h : c.Alike c') :
    (c.answer = c'.answer ↔ c.lockAnswer = c'.lockAnswer) ∧
      ((c.answer = c'.answer ∧ Course.Proper m c.answer) ↔
        c.lockAnswer ≠ some false ∧ c'.lockAnswer ≠ some false) := by
  obtain ⟨reservation, outcome, outcome', hanswer, hanswer', hverdict, hverdict'⟩ := h.verdicts
  have hmap : c.answer = c'.answer ↔ outcome = outcome' := by
    rw [hanswer, hanswer']
    constructor
    · intro heq
      obtain ⟨e, rfl⟩ := error_of_verdict hverdict
      obtain ⟨e', rfl⟩ := error_of_verdict hverdict'
      exact congrArg _ (Except.error.inj heq)
    · rintro rfl
      rfl
  have hiff : c.answer = c'.answer ↔ c.lockAnswer = c'.lockAnswer :=
    hmap.trans (verdict_eq_iff hverdict hverdict')
  refine ⟨hiff, ?_⟩
  rw [hiff]
  have hproper : Course.Proper m c.answer ↔ c.lockAnswer ≠ some false := by
    rw [hanswer]
    exact Course.proper_iff hverdict
  rw [hproper]
  constructor
  · intro ⟨hsame, hlock⟩
    exact ⟨hlock, hsame ▸ hlock⟩
  · intro ⟨hlock, hlock'⟩
    exact ⟨lock_eq_of_granted hverdict hverdict' hlock hlock', hlock⟩

/-! Somebody asks to withdraw a euro from a wallet that is not theirs: while its owner moves it,
and where there is no such wallet. -/

private def stranger : OwnerId := ⟨⟨8, by norm_num⟩⟩

private def prying : MovementRequest :=
  ⟨Sample.wallet.id, stranger, Sample.euro, .debit, "withdrawal", none⟩

private def onlookers (j : ℕ) : Request :=
  if j = 0 then .apply prying else .apply (Sample.deposit none)

private theorem onlookers_unowned {db : Database}
    (h : ∀ row ∈ db.walletsOf stranger, row.id ≠ Sample.wallet.id.value) :
    Unowned onlookers 0 prying db := by
  refine ⟨rfl, ?_, h⟩
  intro j hj
  rw [onlookers, if_neg hj]
  decide

/-- The lock is free, and behind it there is no such wallet. -/
private theorem course_granted {db : Database} (hsound : db.Sound)
    (h : ∀ row ∈ db.walletsOf stranger, row.id ≠ Sample.wallet.id.value) :
    ∃ c : Course {} {} 0 prying, c.db = db ∧ c.now = 0 ∧ c.idempotency = (fun _ => none) ∧
      c.answer = .error (walletNotFound prying.walletId) ∧ c.lockAnswer = some true := by
  have hread : .ok none = (db.apply {}).readWallet prying.walletId prying.ownerId := by
    rw [Database.apply_blank ⟨rfl, rfl, rfl⟩]
    exact (readWallet_of_unowned h).symm
  have h₀ := Pool.RunUnder.nil (G := fun _ _ _ _ => True)
    (P := arrivals {} {} onlookers (World.start 0 db fun _ => none))
  have h₁ := h₀.answer 0 rfl (.ok true) _ (.inl (.inl ⟨rfl, rfl⟩)) trivial
  have h₂ := h₁.answer 0 rfl () _ (.inl rfl) trivial
  have h₃ := h₂.answer 0 rfl (.ok none) _ (.inl ⟨hread, rfl⟩) trivial
  have h₄ := h₃.answer 0 rfl (.ok ()) _ (.inl ⟨rfl, rfl⟩) trivial
  have h₅ := h₄.answer 0 rfl (.ok ()) _ (.inl ⟨rfl, rfl⟩) trivial
  refine ⟨⟨onlookers, 0, db, fun _ => none, _, _, _, hsound, onlookers_unowned h, h₅, ?_, rfl⟩,
    rfl, rfl, rfl, rfl, rfl⟩
  iterate 5 refine List.forall_mem_cons.mpr ⟨fun _ h => (nomatch h), ?_⟩
  exact List.forall_mem_nil _

/-- The wallet's owner has the lock, and is about to write. -/
private theorem course_refused : ∃ c : Course {} {} 0 prying, c.db = Sample.database ∧ c.now = 0 ∧
    c.idempotency = (fun _ => none) ∧ c.answer = .error (walletBusy prying) ∧
      c.lockAnswer = some false := by
  have hheld : Function.update (fun _ => none) (lockKey (Sample.deposit none).walletId) (some 1)
      (lockKey prying.walletId) = some 1 := Function.update_self ..
  have h₀ := Pool.RunUnder.nil (G := fun _ _ _ _ => True)
    (P := arrivals {} {} onlookers (World.start 0 Sample.database fun _ => none))
  have h₁ := h₀.answer 1 rfl (.ok true) _ (.inl (.inl ⟨rfl, rfl⟩)) trivial
  have h₂ := h₁.answer 0 rfl (.ok false) _
    (.inl (.inr ⟨rfl, rfl, 1, by decide, hheld⟩)) trivial
  have h₃ := h₂.answer 0 rfl () _ (.inl rfl) trivial
  have h₄ := h₃.answer 0 rfl (.ok ()) _ (.inl ⟨rfl, rfl⟩) trivial
  have h₅ := h₄.answer 0 rfl (.ok ()) _ (.inl ⟨rfl, rfl⟩) trivial
  refine ⟨⟨onlookers, 0, Sample.database, fun _ => none, _, _, _, Database.Sound.opened _ _ _ _ _,
    onlookers_unowned (by decide), h₅, ?_, rfl⟩, rfl, rfl, rfl, rfl, rfl⟩
  iterate 4 refine List.forall_mem_cons.mpr ⟨fun _ h => (nomatch h), ?_⟩
  exact List.forall_mem_nil _

/-- Nothing of the owner's is in the way of comparing them. -/
private theorem alike_of_blank {c c' : Course {} {} 0 prying}
    (hwallets : c'.db.walletsOf stranger = c.db.walletsOf stranger)
    (hledger : c'.db.ledgerOf stranger = c.db.ledgerOf stranger)
    (h : c.idempotency = fun _ => none) (h' : c'.idempotency = fun _ => none) : c.Alike c' := by
  refine ⟨hwallets, hledger, ?_, ?_⟩
  · intro key
    rw [h, h']
  · intro key e he
    rw [h] at he
    cases he

theorem existence_oracle_iff_granted : ∃ c c' : Course {} {} 0 prying,
    c.db = Sample.database ∧ c'.db = { letters := .ascii } ∧
    c.lockAnswer = some true ∧ c'.lockAnswer = some true ∧
      ((c.answer = c'.answer ↔ c.lockAnswer = c'.lockAnswer) ∧
        ((c.answer = c'.answer ∧ Course.Proper prying c.answer) ↔
          c.lockAnswer ≠ some false ∧ c'.lockAnswer ≠ some false)) := by
  obtain ⟨c, hdb, -, hstore, -, hlock⟩ :=
    course_granted (Database.Sound.opened _ _ _ _ _ : Sample.database.Sound) (by decide)
  obtain ⟨c', hdb', -, hstore', -, hlock'⟩ :=
    course_granted (Database.Sound.empty .ascii) (by decide)
  have halike : c.Alike c' := by
    apply alike_of_blank _ _ hstore hstore'
    · rw [hdb, hdb']
      rfl
    · rw [hdb, hdb']
      rfl
  exact ⟨c, c', hdb, hdb', hlock, hlock', existence_oracle_iff halike⟩

/-- While its owner moves it the wallet is reported as busy, which no absent wallet would be. -/
theorem moved_wallet_shows : ∃ c c' : Course {} {} 0 prying, c.Alike c' ∧
    (∃ row ∈ c.db.wallets, row.id = prying.walletId.value) ∧
    (∀ row ∈ c'.db.wallets, row.id ≠ prying.walletId.value) ∧
    c.answer = .error (walletBusy prying) ∧
    c'.answer = .error (walletNotFound prying.walletId) ∧ c.answer ≠ c'.answer := by
  obtain ⟨c, hdb, -, hstore, hanswer, -⟩ := course_refused
  obtain ⟨c', hdb', -, hstore', hanswer', -⟩ :=
    course_granted (Database.Sound.empty .ascii) (by decide)
  refine ⟨c, c', ?_, ?_, ?_, hanswer, hanswer', ?_⟩
  · apply alike_of_blank _ _ hstore hstore'
    · rw [hdb, hdb']
      rfl
    · rw [hdb, hdb']
      rfl
  · rw [hdb]
    exact ⟨_, List.mem_singleton_self _, rfl⟩
  · rw [hdb']
    intro row hrow
    cases hrow
  · rw [hanswer, hanswer']
    intro heq
    cases heq

end Evenkeel.Properties
