import Evenkeel.Infrastructure.Deeds

/-!
# Runs under Locks that Hold

The version check of the guarded update is there for locks whose lease has run out. In a run in
which no lock passes from one request to another while it is held, a wallet that was read under
its lock stays the current one, so the check never fails.

- `LocksHold`: the runs in question, as a guard on their steps
- `Guarded`: the invariant; whoever is inside a lock holds it, and has read what is committed

## Key Results

- `guarded_of_run`: every run under the guard keeps it
- `Guarded.update_matches`: a guarded update finds the row it looks for
-/

namespace Evenkeel.Infrastructure

open Evenkeel.Domain Evenkeel.Application Evenkeel.Effects

/-- No lock is taken from the request that holds it: it gives the lock back itself. -/
def LocksHold : Pool.Guard deployment Exn Answer := fun _ P _ R =>
  ∀ key i, P.world.locks key = some i → R.world.locks key = some i ∨ R.world.locks key = none

/-! ## What an answer does to the locks -/

namespace World

variable {w w' : World} {i : ℕ} {op : Op} {x : Resp op}

/-- A lock changes where it is taken, and where whoever holds it gives it back. -/
theorem Serves.locks (key : String) (h : w.Serves i op x w') :
    w'.locks key = w.locks key ∨
      (∃ ttl wait, op = .enterLock key ttl wait) ∧ w'.locks key = some i ∨
      op = .exitLock key ∧ w.locks key = some i := by
  cases op with
  | enterLock k ttl wait =>
    -- the lock is free and becomes the caller's, or the caller is told it is not its own
    rcases h with ⟨-, rfl⟩ | ⟨-, rfl, -⟩
    · -- only the lock that was asked for changes hands
      by_cases hkey : key = k
      · subst hkey
        exact .inr (.inl ⟨⟨ttl, wait, rfl⟩, Function.update_self ..⟩)
      · exact .inl (Function.update_of_ne hkey _ _)
    · exact .inl rfl
  | exitLock k =>
    obtain ⟨-, rfl⟩ := h
    -- a lock that is not held any more is left alone
    by_cases hheld : w.locks k = some i
    · by_cases hkey : key = k
      · subst hkey
        exact .inr (.inr ⟨rfl, hheld⟩)
      · left
        rw [if_pos hheld]
        exact Function.update_of_ne hkey _ _
    · left
      rw [if_neg hheld]
  | reserve =>
    -- the other operations leave the locks alone
    obtain ⟨-, rfl⟩ := h
    exact .inl rfl
  | confirm =>
    obtain ⟨-, rfl⟩ := h
    exact .inl rfl
  | release =>
    obtain ⟨-, rfl⟩ := h
    exact .inl rfl
  | readWallet =>
    obtain ⟨-, rfl⟩ := h
    exact .inl rfl
  | listByOwner =>
    obtain ⟨-, rfl⟩ := h
    exact .inl rfl
  | readEntry =>
    obtain ⟨-, rfl⟩ := h
    exact .inl rfl
  | listByWallet =>
    obtain ⟨-, rfl⟩ := h
    exact .inl rfl
  | addWallet =>
    obtain ⟨-, -, rfl⟩ := h
    exact .inl rfl
  | addEntry =>
    obtain ⟨-, -, rfl⟩ := h
    exact .inl rfl
  | updateWallet =>
    rcases h with ⟨-, -, row, -, -, rfl⟩ | ⟨-, -, rfl⟩
    · exact .inl rfl
    · exact .inl rfl
  | commit =>
    obtain ⟨-, rfl⟩ := h
    exact .inl rfl
  | rollback =>
    obtain ⟨-, rfl⟩ := h
    exact .inl rfl
  | consume =>
    obtain ⟨-, rfl⟩ := h
    exact .inl rfl
  | assess =>
    obtain ⟨-, rfl⟩ := h
    exact .inl rfl
  | now =>
    obtain rfl : w' = w := h
    exact .inl rfl
  | generate =>
    obtain rfl : w' = w := h
    exact .inl rfl
  | observe =>
    obtain rfl : w' = w := h
    exact .inl rfl

theorem issue_locks (op : Op) : (w.issue i op).locks = w.locks := by
  cases op <;> rfl

theorem Answers.locks (key : String) (h : w.Answers i op x w') :
    w'.locks key = w.locks key ∨
      (∃ ttl wait, op = .enterLock key ttl wait) ∧ w'.locks key = some i ∨
      op = .exitLock key ∧ w.locks key = some i := by
  rcases h with h | ⟨-, rfl | ⟨y, h⟩⟩
  · exact h.locks key
  · left
    rw [issue_locks]
  · exact h.locks key

end World

/-! ## The invariant -/

/-- The wallet a session works on. -/
def Session.Has (wallet : Wallet) : Session → Prop
  | .loaded w => w = wallet
  | .recorded w _ => w = wallet
  | _ => False

/-- Whoever is inside a lock holds it, and a wallet that was read in there is what is
    committed. -/
structure Guarded (requests : ℕ → Request) (t : List (Occurrence Op Resp)) (w : World)
    (g : ℕ → Call × Stage) : Prop where
  tracked : Tracked requests t w fun i => (g i).1
  concurs : ∀ i, Concurs (requests i) (g i)
  named : ∀ i m wallet, (requests i).movement = some m → Session.Has wallet (g i).1.session →
    wallet.id = m.walletId
  held : ∀ i m, (requests i).movement = some m → (g i).2.lock = .inside true →
    w.locks (lockKey m.walletId) = some i
  current : ∀ i m wallet, (requests i).movement = some m → (g i).2.lock = .inside true →
    (g i).2.loaded = true → Session.Has wallet (g i).1.session →
      ∃ row ∈ w.db.wallets, row.Shows wallet

section

variable {service : WalletMovementSettings} {requests : ℕ → Request}
  {t : List (Occurrence Op Resp)} {w w' : World} {g : ℕ → Call × Stage} {i : ℕ} {op : Op}
  {x : Resp op} {wallet : Wallet}

/-- A session has its wallet from the last read. -/
theorem session_has {s : Session} (h : Session.Has wallet (s.next op x))
    (hop : ∀ id o f, op ≠ .readWallet id o f) : Session.Has wallet s := by
  cases op with
  | readWallet id o f => exact absurd rfl (hop id o f)
  | addWallet => cases x <;> exact h.elim
  | addEntry =>
    cases x with
    | error e => exact h.elim
    | ok _ =>
      cases s with
      | loaded => exact h
      | _ => exact h.elim
  | updateWallet =>
    rcases x with e | (_ | _)
    · exact h.elim
    · exact h.elim
    · cases s <;> exact h.elim
  | commit =>
    cases x with
    | error e => exact h.elim
    | ok _ => cases s <;> exact h.elim
  | rollback => cases x <;> exact h.elim
  | _ => exact h

theorem session_has_read {s : Session} {id : WalletId} {o : OwnerId} {f : Bool}
    {x : Resp (.readWallet id o f)} (h : Session.Has wallet (s.next (.readWallet id o f) x)) :
    x = .ok (some wallet) ∨ Session.Has wallet s ∧ ∃ e, x = .error e := by
  rcases x with e | (_ | found)
  · exact .inr ⟨h, e, rfl⟩
  · exact h.elim
  · obtain rfl : found = wallet := h
    exact .inl rfl

/-- Inside a lock, a request has been let in, and has not left. -/
theorem stage_inside {s : Stage} (h : (s.next op x).lock = .inside true)
    (hop : ∀ key ttl wait, op ≠ .enterLock key ttl wait) :
    s.lock = .inside true ∧ ∀ key, op ≠ .exitLock key := by
  cases op with
  | enterLock key ttl wait => exact absurd rfl (hop key ttl wait)
  | exitLock key => cases h
  | readWallet =>
    refine ⟨?_, fun key hkey => by cases hkey⟩
    rcases s.next_readWallet x with hsame | ⟨-, hloaded⟩
    · rwa [hsame] at h
    · rwa [hloaded] at h
  | commit =>
    refine ⟨?_, fun key hkey => by cases hkey⟩
    cases x <;> exact h
  | _ => exact ⟨h, fun key hkey => by cases hkey⟩

namespace Guarded

/-- Whoever is let in holds the lock, and keeps it until it leaves. -/
private theorem held_answered {m : MovementRequest} (h : Guarded requests t w g)
    (hstage : (g i).2.allows (requests i) op) (hans : w.Answers i op x w')
    (hm : (requests i).movement = some m) (hlock : ((g i).2.next op x).lock = .inside true) :
    w'.locks (lockKey m.walletId) = some i := by
  by_cases henter : ∃ key ttl wait, op = .enterLock key ttl wait
  · -- the request has just entered the lock, of the wallet it moves
    obtain ⟨key, ttl, wait, rfl⟩ := henter
    obtain ⟨hblank, hkey⟩ := hstage
    rw [hm] at hkey
    have hkey : lockKey m.walletId = key := Option.some.inj hkey
    rw [hblank] at hlock
    rw [hkey]
    rcases hans with (⟨rfl, rfl⟩ | ⟨rfl, -⟩) | ⟨⟨e, he⟩, -⟩
    · exact Function.update_self key (some i) w.locks
    · -- it was busy
      cases hlock
    · obtain rfl := eq_error_of_failure he
      cases hlock
  · -- it was inside before, and stays
    have hop : ∀ key ttl wait, op ≠ .enterLock key ttl wait := by
      intro key ttl wait heq
      exact henter ⟨key, ttl, wait, heq⟩
    obtain ⟨hinside, hexit⟩ := stage_inside hlock hop
    have hheld := h.held i m hm hinside
    rcases hans.locks (lockKey m.walletId) with hsame | ⟨⟨ttl, wait, heq⟩, -⟩ | ⟨heq, -⟩
    · rw [hsame, hheld]
    · -- the operation is neither an entry nor an exit
      exact absurd heq (hop _ ttl wait)
    · exact absurd heq (hexit _)

/-- Nobody else loses a lock by it. -/
private theorem held_others {key : String} {j : ℕ} (hji : j ≠ i) (hans : w.Answers i op x w')
    (hkept : ∀ key j, w.locks key = some j → w'.locks key = some j ∨ w'.locks key = none)
    (hheld : w.locks key = some j) : w'.locks key = some j := by
  rcases hans.locks key with hsame | ⟨-, htaken⟩ | ⟨-, hgiven⟩
  · rw [hsame, hheld]
  · rcases hkept key j hheld with hstill | hnone
    · exact hstill
    · rw [htaken] at hnone
      cases hnone
  · rw [hheld] at hgiven
    exact absurd (Option.some.inj hgiven) hji

/-- What is committed for somebody else's wallet stays, as its lock is held. -/
private theorem current_others {j : ℕ} {m : MovementRequest} {row : WalletRow}
    (h : Guarded requests t w g) (hopen : .closed i ∉ t)
    (hstage : (g i).2.allows (requests i) op) (hans : w.Answers i op x w') (hji : j ≠ i)
    (hm : (requests j).movement = some m) (hlock : (g j).2.lock = .inside true)
    (hallow : (g i).1.allows service (requests i) op) (hrow : row ∈ w.db.wallets)
    (hid : row.id = m.walletId.value) : row ∈ w'.db.wallets := by
  by_cases hop : op = .commit
  · subst hop
    -- the view of the committing session still has the row, as no update of it has this id
    have hview : row ∈ (w.view i).wallets := by
      apply Database.mem_apply_of_free hrow
      intro u hu heq
      have htracks := h.tracked.tracks i hopen
      cases hsession : (g i).1.session with
      | updated wallet moved e =>
        -- a movement updates the one wallet it has moved
        rw [hsession] at htracks
        obtain ⟨m', x', row', hm', hbooks, -, -, hshows', hwrites⟩ := htracks
        rw [hwrites.updates] at hu
        obtain rfl := List.mem_singleton.mp hu
        have hlocked : (g i).2.lock = .inside true := by
          rcases hstage with hworking | ⟨added, hopened⟩
          · rw [hworking]
          · obtain ⟨c, hc, -⟩ := (h.concurs i).stage added (by rw [hopened])
            rw [hc] at hm'
            cases hm'
        -- both requests would hold the lock of the one wallet
        have hsame : m'.walletId = m.walletId := by
          apply WalletId.ext
          rw [← hid, ← heq, ← hshows'.id, hbooks.moved.id, hbooks.walletId]
        have hi := h.held i m' hm' hlocked
        rw [hsame, h.held j m hm hlock] at hi
        exact hji (Option.some.inj hi)
      | opened wallet =>
        -- an opened wallet comes with no update
        rw [hsession] at htracks
        rw [htracks.2.1.updates] at hu
        cases hu
      | _ =>
        -- nothing else may be committed
        have hready := hallow.1
        rw [hsession] at hready
        exact hready.elim
    -- it is committed and answered, or not committed, or committed without an answer
    rcases hans with ⟨-, rfl⟩ | ⟨-, rfl | ⟨y, -, rfl⟩⟩
    · exact hview
    · exact hrow
    · exact hview
  · rw [(hans.tables hop).1]
    exact hrow

/-- What a request has read under its lock is what is committed. -/
private theorem current_answered {m : MovementRequest} (h : Guarded requests t w g)
    (hopen : .closed i ∉ t) (hm : (requests i).movement = some m)
    (hallow : (g i).1.allows service (requests i) op)
    (hstage : (g i).2.allows (requests i) op) (hans : w.Answers i op x w')
    (hlock : ((g i).2.next op x).lock = .inside true)
    (hloaded : ((g i).2.next op x).loaded = true)
    (hhas : Session.Has wallet ((g i).1.session.next op x)) :
    ∃ row ∈ w'.db.wallets, row.Shows wallet := by
  -- after a commit, the session has no wallet
  by_cases hcommit : op = .commit
  · subst hcommit
    cases x with
    | error e => exact hhas.elim
    | ok _ =>
      cases hsession : (g i).1.session with
      | _ =>
        rw [hsession] at hhas
        exact hhas.elim
  rw [(hans.tables hcommit).1]
  -- what was read before still holds, if the operation concerns neither tables nor lock
  have hstays : ∀ {s : Stage}, s.lock = .inside true → s.loaded = true → (g i).2 = s →
      Session.Has wallet (g i).1.session → ∃ row ∈ w.db.wallets, row.Shows wallet := by
    rintro s hinside hread rfl hold
    exact h.current i m wallet hm hinside hread hold
  cases op with
  | readWallet id o f =>
    -- a clean session reads what is committed
    rcases session_has_read hhas with rfl | ⟨hold, e, rfl⟩
    · have hblank := Database.writes_of_clean (h.tracked.tracks i hopen) hallow.1
      have hview : w.view i = w.db := Database.apply_blank hblank
      rcases hans with ⟨hread, -⟩ | ⟨⟨e, he⟩, -⟩
      · rw [hview] at hread
        obtain ⟨row, hrow, hshows, -⟩ := Database.readWallet_some hread.symm
        exact ⟨row, hrow, hshows⟩
      · cases eq_error_of_failure he
    · cases f with
      | true => exact hstays hlock hloaded rfl hold
      | false => exact hstays hlock hloaded rfl hold
  | enterLock key ttl wait =>
    -- a lock that is only now entered has no wallet read under it
    rw [hstage.1] at hloaded
    cases x <;> cases hloaded
  | exitLock key => cases hlock
  | commit => exact absurd rfl hcommit
  | addWallet => cases x <;> exact hhas.elim
  | _ =>
    have hold := session_has hhas fun id o f heq => by cases heq
    exact hstays hlock hloaded rfl hold

/-- The step lemma: an operation that is allowed, however it is answered. -/
theorem answered {occurrence : Occurrence Op Resp} (h : Guarded requests t w g)
    (hopen : .closed i ∉ t) (hallow : (g i).1.allows service (requests i) op)
    (hstage : (g i).2.allows (requests i) op) (hans : w.Answers i op x w')
    (hkept : ∀ key j, w.locks key = some j → w'.locks key = some j ∨ w'.locks key = none) :
    Guarded requests (t ++ [occurrence]) w' (Function.update g i
      (⟨(g i).1.session.next op x, (g i).1.claim.next op x⟩, (g i).2.next op x)) := by
  have hcalls : ∀ s : Call × Stage, (fun j => (Function.update g i s j).1) =
      Function.update (fun j => (g j).1) i s.1 := fun s => Function.comp_update Prod.fst g i s
  constructor
  · rw [hcalls]
    exact h.tracked.answered hopen hallow hans
  · -- the stage goes on with the session
    intro j
    by_cases hji : j = i
    · subst hji
      rw [Function.update_self]
      exact (h.concurs j).next hstage
    · rw [Function.update_of_ne hji]
      exact h.concurs j
  · -- the wallet a request has read is the one it is asked to move
    intro j m wallet hm hhas
    by_cases hji : j = i
    · subst hji
      rw [Function.update_self] at hhas
      by_cases hread : ∃ id o f, op = .readWallet id o f
      · obtain ⟨id, o, f, rfl⟩ := hread
        rcases session_has_read hhas with rfl | ⟨hold, -⟩
        · have hpromise : wallet.id = id ∧ wallet.ownerId = o := promises_of_answers hans
          rw [hpromise.1, hallow.2.2 m hm]
        · exact h.named j m wallet hm hold
      · refine h.named j m wallet hm (session_has hhas ?_)
        intro id o f heq
        exact hread ⟨id, o, f, heq⟩
    · rw [Function.update_of_ne hji] at hhas
      exact h.named j m wallet hm hhas
  · -- who is inside has the lock
    intro j m hm hlock
    by_cases hji : j = i
    · subst hji
      rw [Function.update_self] at hlock
      exact h.held_answered hstage hans hm hlock
    · rw [Function.update_of_ne hji] at hlock
      exact held_others hji hans hkept (h.held j m hm hlock)
  · -- what is read under the lock is as committed
    intro j m wallet hm hlock hloaded hhas
    by_cases hji : j = i
    · subst hji
      rw [Function.update_self] at hlock hloaded hhas
      exact h.current_answered hopen hm hallow hstage hans hlock hloaded hhas
    · -- no other request commits to this wallet
      rw [Function.update_of_ne hji] at hlock hloaded hhas
      obtain ⟨row, hrow, hshows⟩ := h.current j m wallet hm hlock hloaded hhas
      have hid : row.id = m.walletId.value := by
        rw [← hshows.id, h.named j m wallet hm hhas]
      exact ⟨row, h.current_others hopen hstage hans hji hm hlock hallow hrow hid, hshows⟩

/-- A guarded update finds the row it looks for. -/
theorem update_matches {wallet : Wallet} {version : ℤ} (h : Guarded requests t w g)
    (hopen : .closed i ∉ t)
    (hallow : (g i).1.allows service (requests i) (.updateWallet wallet version))
    (hstage : (g i).2.allows (requests i) (.updateWallet wallet version)) :
    ∃ row ∈ (w.view i).wallets, World.Matches wallet version row := by
  obtain ⟨m, read, entry, hm, hrecorded, hversion, hbooks⟩ := hallow
  have hstage : (g i).2 = .working := hstage
  have htracks := h.tracked.tracks i hopen
  rw [hrecorded] at htracks
  have hview : w.view i = _ := Database.apply_unwritten htracks.1
  obtain ⟨row, hrow, hshows⟩ := h.current i m read hm (by rw [hstage]) (by rw [hstage])
    (by rw [hrecorded]; rfl)
  refine ⟨row, ?_, ?_, ?_⟩
  · rw [hview]
    exact hrow
  · rw [hbooks.moved.id, hshows.id]
  · rw [hversion, hshows.version]

theorem closed (h : Guarded requests t w g) : Guarded requests (t ++ [.closed i]) (w.discard i) g :=
  ⟨h.tracked.closed, h.concurs, h.named, h.held, h.current⟩

theorem drifted {now : Instant} (h : Guarded requests t w g) :
    Guarded requests (t ++ [.drifted]) { w with now := now } g :=
  ⟨h.tracked.drifted, h.concurs, h.named, h.held, h.current⟩

theorem start {now : Instant} {db : Database} {idempotency : Entries Receipt} (h : db.Sound) :
    Guarded requests [] (World.start now db idempotency) fun _ => (Call.initial, {}) := by
  refine ⟨.start h, fun i => ⟨?_, ?_⟩, ?_, ?_, ?_⟩
  · intro wallet hwallet
    cases hwallet
  · intro wallet hwallet
    cases hwallet
  · intro i m wallet _ hhas
    exact hhas.elim
  · intro i m _ hlock
    cases hlock
  · intro i m wallet _ hlock
    cases hlock

end Guarded

/-- The run lemma, for every run in which the locks hold. -/
theorem guarded_of_run {settings : MoveMoneySettings} {now : Instant} {db : Database}
    {idempotency : Entries Receipt} {Q : Pool deployment Exn Answer} (hsound : db.Sound)
    (hrun : Pool.RunUnder LocksHold
      (arrivals service settings requests (World.start now db idempotency)) t Q) :
    ∃ g, Guarded requests t Q.world g ∧
      ∀ i, ((protocol service (requests i)).prod (discipline (requests i))).wp (Q.clients i)
        (fun x s => (requests i).Meets x s.1 ∧ Retires Answer.Retells x s.2) (g i) := by
  have hupholds : Pool.RunUnder.Upholds
      (fun i => (protocol service (requests i)).prod (discipline (requests i))) LocksHold
      (fun i x s => (requests i).Meets x s.1 ∧ Retires Answer.Retells x s.2)
      (Guarded requests) := by
    constructor
    · intro t R R' g i op x hwp hinv hopen hallow hans hG
      exact ⟨(_, _), ⟨⟨promises_of_answers hans, rfl⟩, trivial, rfl⟩,
        hinv.answered hopen hallow.1 hallow.2 hans hG⟩
    · intro t R w g i r hdone hwp hinv hcloses
      obtain rfl : w = R.world.discard i := hcloses
      exact hinv.closed
    · intro t R w g hwp hinv hdrifts hG
      obtain ⟨now, hnow, rfl⟩ := hdrifts
      exact hinv.drifted
  exact hrun.upholds hupholds (fun i => (requests i).meets_both service settings)
    (Guarded.start hsound)

end

end Evenkeel.Infrastructure
