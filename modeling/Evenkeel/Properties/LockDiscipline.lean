import Evenkeel.Effects.Histories
import Evenkeel.Infrastructure.HeldLocks

/-!
# The Discipline of the Locks

What requests do under the locks of their wallets, and what the locks do for them. Nothing is
assumed of the locks at first: they may grant every request, and a lease may run out.
-/

namespace Evenkeel.Properties

open Evenkeel.Domain Evenkeel.Application Evenkeel.Effects Evenkeel.Infrastructure

/-! ## Inside the lock -/

/-- The lock `key` was entered, and has not been left since. -/
def InsideLock (key : String) (u : List (Event Op Resp)) : Prop :=
  ∃ a ttl wait b, u = a ++ ⟨.enterLock key ttl wait, .ok true⟩ :: b ∧
    ∀ k x, ⟨.exitLock k, x⟩ ∉ b

/-- The wallet was read for its update inside its lock, which has not been left since. -/
def Primed (id : WalletId) (u : List (Event Op Resp)) : Prop :=
  ∃ a o found b, u = a ++ ⟨.readWallet id o true, .ok found⟩ :: b ∧ InsideLock (lockKey id) a ∧
    ∀ k x, ⟨.exitLock k, x⟩ ∉ b

/-- The wallet whose row an operation updates, or whose ledger it adds to. -/
def WritesTo (id : WalletId) : Op → Prop
  | .addEntry e => e.walletId = id
  | .updateWallet wallet _ => wallet.id = id
  | _ => False

/-- The stage a request has come to. -/
def stageAfter (u : List (Event Op Resp)) : Stage := u.foldl (fun s e => s.next e.1 e.2) {}

section

variable {service : WalletMovementSettings} {req : Request} {m : MovementRequest}
  {u : List (Event Op Resp)} {e : Event Op Resp}

theorem stageAfter_snoc : stageAfter (u ++ [e]) = (stageAfter u).next e.1 e.2 := by
  simp [stageAfter]

/-- Every operation was one that the protocol and the discipline allowed. -/
def Orderly (service : WalletMovementSettings) (req : Request) (u : List (Event Op Resp)) :
    Prop :=
  ∀ a e b, u = a ++ e :: b →
    (stageAfter a).allows req e.1 ∧ ∃ s : Call, s.allows service req e.1

theorem Orderly.of_append {b : List (Event Op Resp)} (h : Orderly service req (u ++ b)) :
    Orderly service req u := by
  intro a e c hu
  exact h a e (c ++ b) (by simp [hu])

/-- A stage inside the lock has entered it. -/
theorem insideLock_of_stage (h : Orderly service req u) (hm : req.movement = some m)
    (hlock : (stageAfter u).lock = .inside true) : InsideLock (lockKey m.walletId) u := by
  induction u using List.reverseRecOn with
  | nil => cases hlock
  | append_singleton u e ih =>
    rw [stageAfter_snoc] at hlock
    by_cases henter : ∃ key ttl wait, e.1 = .enterLock key ttl wait
    · obtain ⟨op, x⟩ := e
      obtain ⟨key, ttl, wait, rfl⟩ := henter
      obtain ⟨⟨hblank, hkey⟩, -⟩ := h u _ [] rfl
      rw [hm] at hkey
      have hkey : lockKey m.walletId = key := Option.some.inj hkey
      rw [hblank] at hlock
      cases x with
      | error e => cases hlock
      | ok acquired =>
        obtain rfl : acquired = true := LockStage.inside.inj hlock
        rw [hkey]
        exact ⟨u, ttl, wait, [], rfl, fun k x hmem => by cases hmem⟩
    · obtain ⟨hinside, hexit⟩ := stage_inside hlock fun key ttl wait heq =>
        henter ⟨key, ttl, wait, heq⟩
      obtain ⟨a, ttl, wait, b, rfl, hstays⟩ := ih h.of_append hinside
      refine ⟨a, ttl, wait, b ++ [e], by simp, ?_⟩
      intro k x hmem
      rcases List.mem_append.mp hmem with hold | hnew
      · exact hstays k x hold
      · exact hexit k (congrArg Sigma.fst (List.mem_singleton.mp hnew)).symm

/-- A wallet is at hand by the answer to a read for its update. -/
theorem stage_loaded {s : Stage} (h : (s.next e.1 e.2).loaded = true) :
    s.loaded = true ∨ ∃ id o found, e = ⟨.readWallet id o true, .ok found⟩ := by
  obtain ⟨op, x⟩ := e
  cases op with
  | readWallet id o f =>
    cases f with
    | false => exact .inl h
    | true =>
      cases x with
      | error e => exact .inl h
      | ok found => exact .inr ⟨id, o, found, rfl⟩
  | enterLock => cases x <;> exact .inl h
  | commit => cases x <;> exact .inl h
  | _ => exact .inl h

/-- A stage with the wallet at hand has read it inside the lock. -/
theorem primed_of_stage (h : Orderly service req u) (hm : req.movement = some m)
    (hlock : (stageAfter u).lock = .inside true) (hloaded : (stageAfter u).loaded = true) :
    Primed m.walletId u := by
  induction u using List.reverseRecOn with
  | nil => cases hlock
  | append_singleton u e ih =>
    rw [stageAfter_snoc] at hlock hloaded
    obtain ⟨hstage, call, hcall⟩ := h u e [] rfl
    rcases stage_loaded hloaded with hold | ⟨id, o, found, rfl⟩
    · have hop : ∀ key ttl wait, e.1 ≠ .enterLock key ttl wait := by
        intro key ttl wait heq
        rw [heq] at hstage
        rw [hstage.1] at hold
        cases hold
      obtain ⟨hinside, hexit⟩ := stage_inside hlock hop
      obtain ⟨a, o, found, b, rfl, hwithin, hstays⟩ := ih h.of_append hinside hold
      refine ⟨a, o, found, b ++ [e], by simp, hwithin, ?_⟩
      intro k x hmem
      rcases List.mem_append.mp hmem with hmem | hnew
      · exact hstays k x hmem
      · exact hexit k (congrArg Sigma.fst (List.mem_singleton.mp hnew)).symm
    · have hguarded : stageAfter u = .guarded := hstage rfl
      obtain rfl : id = m.walletId := hcall.2.2 m hm
      exact ⟨u, o, found, [], rfl, insideLock_of_stage h.of_append hm (by rw [hguarded]),
        fun k x hmem => by cases hmem⟩

/-- Only entering and leaving a lock change where a request stands with it. -/
theorem stage_lock {s : Stage} (henter : ∀ key ttl wait, e.1 ≠ .enterLock key ttl wait)
    (hexit : ∀ key, e.1 ≠ .exitLock key) : (s.next e.1 e.2).lock = s.lock := by
  obtain ⟨op, x⟩ := e
  cases op with
  | enterLock key ttl wait => exact absurd rfl (henter key ttl wait)
  | exitLock key => exact absurd rfl (hexit key)
  | readWallet =>
    rcases s.next_readWallet x with h | ⟨-, h⟩
    · rw [h]
    · rw [h]
  | commit => cases x <;> rfl
  | _ => rfl

/-- A lock that was entered is the request's, and was left later unless it still is inside. -/
theorem inside_or_left {a b : List (Event Op Resp)} {key : String} {ttl wait : ℤ}
    {acquired : Bool}
    (h : Orderly service req (a ++ ⟨.enterLock key ttl wait, .ok acquired⟩ :: b)) :
    (req.movement.map (fun m => lockKey m.walletId) = some key ∧ ∃ entered,
      (stageAfter (a ++ ⟨.enterLock key ttl wait, .ok acquired⟩ :: b)).lock = .inside entered) ∨
    ∃ x, ⟨.exitLock key, x⟩ ∈ b := by
  induction b using List.reverseRecOn with
  | nil =>
    -- it has just been entered
    obtain ⟨hstage, -⟩ := h a _ [] rfl
    refine .inl ⟨hstage.2, acquired, ?_⟩
    rw [stageAfter_snoc]
    rfl
  | append_singleton b e ih =>
    rw [← List.cons_append, ← List.append_assoc] at h ⊢
    obtain ⟨hstage, -⟩ := h _ e [] rfl
    rw [stageAfter_snoc]
    rcases ih h.of_append with ⟨hkey, entered, hinside⟩ | ⟨x, hx⟩
    · -- the next operation is the exit of this lock, or leaves it as it is
      by_cases hexit : ∃ key', e.1 = .exitLock key'
      · obtain ⟨op, x⟩ := e
        obtain ⟨key', rfl⟩ := hexit
        obtain rfl := Option.some.inj (hkey.symm.trans hstage.2)
        exact .inr ⟨x, by simp⟩
      · left
        refine ⟨hkey, entered, ?_⟩
        rw [stage_lock, hinside]
        · intro key' ttl wait heq
          -- a lock is entered from the outside
          rw [heq] at hstage
          rw [hstage.1] at hinside
          cases hinside
        · intro key' heq
          exact hexit ⟨key', heq⟩
    · -- it has been left before
      exact .inr ⟨x, List.mem_append_left _ hx⟩

/-- A commit is not taken back, and there is none behind it. -/
theorem commit_of_stage {y : Resp .commit} (hmem : ⟨.commit, y⟩ ∈ u)
    (h : Orderly service req u) : (stageAfter u).commit ≠ .ahead := by
  induction u using List.reverseRecOn with
  | nil => cases hmem
  | append_singleton u e ih =>
    rw [stageAfter_snoc]
    by_cases hop : e.1 = .commit
    · obtain ⟨op, x⟩ := e
      obtain rfl : op = .commit := hop
      cases x with
      | error e => exact fun h => by cases h
      | ok _ => exact fun h => by cases h
    · rw [Stage.next_commit hop]
      rcases List.mem_append.mp hmem with hold | hnew
      · exact ih hold h.of_append
      · exact absurd (congrArg Sigma.fst (List.mem_singleton.mp hnew)).symm hop

/-- A wallet is added by a request that opens one. -/
theorem opened_of_stage {wallet : Wallet} (h : Orderly service req u)
    (hopened : (stageAfter u).opened = some wallet) : ∃ c, req = .openWallet c := by
  induction u using List.reverseRecOn with
  | nil => cases hopened
  | append_singleton u e ih =>
    rw [stageAfter_snoc] at hopened
    rcases stage_of_opened hopened with hold | hadd
    · exact ih h.of_append hold
    · obtain ⟨hstage, -⟩ := h u e [] rfl
      rw [hadd] at hstage
      obtain ⟨-, c, hc, -⟩ := hstage
      exact ⟨c, hc⟩

end

/-! ## Whatever the locks do -/

section

variable {service : WalletMovementSettings} {settings : MoveMoneySettings}
  {requests : ℕ → Request} {now : Instant} {db : Database} {idempotency : Entries Receipt}
  {t : List (Occurrence Op Resp)} {Q : Pool deployment Exn Answer}

/-- Every request of a run is orderly. -/
theorem orderly_of_run (hsound : db.Sound)
    (hrun : Pool.Run (arrivals service settings requests (World.start now db idempotency)) t Q)
    (i : ℕ) : Orderly service (requests i) (Pool.ownEvents i t) := by
  intro a e b hown
  obtain ⟨t₁, t₂, R, S, -, rfl, hfirst, hstep, -⟩ := hrun.of_ownEvents hown
  obtain ⟨g, -, hwp⟩ := tracked_of_run hsound hfirst
  cases hstep with
  | @answered _ op resume x w hclient hworld =>
    have hdisciplined := Contract.of_tracking
      ((requests i).disciplined service settings) (hfirst.performs i) fun _ _ => trivial
    have hi := hwp i
    rw [hclient] at hdisciplined hi
    exact ⟨hdisciplined.1, g i, hi.1⟩

/-- In every run and for every request of it, whatever the ports answer: a ledger entry is added,
    a wallet's row is updated, and a movement is committed, only after the wallet was read for
    its update inside its own lock, which has not been left since; nothing is committed twice;
    and a request that has ended has left whatever lock it entered, after it had entered it. -/
theorem lock_discipline (hsound : db.Sound)
    (hrun : Pool.Run (arrivals service settings requests (World.start now db idempotency)) t Q)
    (i : ℕ) :
    (∀ a e b id, Pool.ownEvents i t = a ++ e :: b → WritesTo id e.1 → Primed id a) ∧
    (∀ a x b, Pool.ownEvents i t = a ++ ⟨.commit, x⟩ :: b →
      (∀ m, (requests i).movement = some m → Primed m.walletId a) ∧ ∀ y, ⟨.commit, y⟩ ∉ a) ∧
    (∀ r, Q.clients i = .done r → ∀ a key ttl wait acquired b,
      Pool.ownEvents i t = a ++ ⟨.enterLock key ttl wait, .ok acquired⟩ :: b →
        ∃ x, ⟨.exitLock key, x⟩ ∈ b) := by
  have horderly := orderly_of_run hsound hrun i
  -- what comes before an operation is orderly as well
  have hbefore : ∀ {a e b}, Pool.ownEvents i t = a ++ e :: b →
      Orderly service (requests i) a := by
    intro a e b hown
    rw [hown] at horderly
    exact horderly.of_append
  refine ⟨?_, ?_, ?_⟩
  · -- an update names the movement's wallet, inside the lock
    intro a e b id hown hwrites
    obtain ⟨hstage, call, hcall⟩ := horderly a e b hown
    have hworking : stageAfter a = .working ∧
        ∃ m, (requests i).movement = some m ∧ id = m.walletId := by
      obtain ⟨op, x⟩ := e
      cases op with
      | addEntry entry =>
        obtain ⟨m, wallet, moved, hm, -, hbooks⟩ := hcall
        obtain rfl : entry.walletId = id := hwrites
        exact ⟨hstage, m, hm, hbooks.entryWallet.trans hbooks.walletId⟩
      | updateWallet wallet version =>
        obtain ⟨m, read, entry, hm, -, -, hbooks⟩ := hcall
        obtain rfl : wallet.id = id := hwrites
        exact ⟨hstage, m, hm, hbooks.moved.id.trans hbooks.walletId⟩
      | _ => exact hwrites.elim
    obtain ⟨hworking, m, hm, rfl⟩ := hworking
    exact primed_of_stage (hbefore hown) hm (by rw [hworking]) (by rw [hworking])
  · -- a commit follows such an update, or the opening of a wallet
    intro a x b hown
    obtain ⟨hstage, call, hcall⟩ := horderly a _ b hown
    constructor
    · intro m hm
      rcases hstage with hworking | ⟨wallet, hopened⟩
      · exact primed_of_stage (hbefore hown) hm (by rw [hworking]) (by rw [hworking])
      · -- which has no movement
        have hadded : (stageAfter a).opened = some wallet := by rw [hopened]
        obtain ⟨c, hc⟩ := opened_of_stage (hbefore hown) hadded
        rw [hc] at hm
        cases hm
    · -- and there is no second one
      intro y hmem
      apply commit_of_stage hmem (hbefore hown)
      rcases hstage with hworking | ⟨wallet, hopened⟩
      · rw [hworking]
      · rw [hopened]
  · -- a request that is done is not inside
    intro r hdone a key ttl wait acquired b hown
    rw [hown] at horderly
    rcases inside_or_left horderly with ⟨-, entered, hinside⟩ | hleft
    · have hdisciplined := Contract.of_tracking
        ((requests i).disciplined service settings) (hrun.performs i) fun _ _ => trivial
      rw [hdone, hown] at hdisciplined
      exact absurd hinside (hdisciplined.1 entered)
    · exact hleft

end

theorem lock_discipline_deposit : ∃ t a x b,
    Pool.ownEvents 0 t = a ++ ⟨.commit, x⟩ :: b ∧ Primed Sample.wallet.id a := by
  obtain ⟨t, Q, out, hrun, -, -, hcommit, -⟩ := Sample.run_deposit
  have hmem : (⟨.commit, .ok ()⟩ : Event Op Resp) ∈ Pool.ownEvents 0 t :=
    List.mem_filterMap.mpr ⟨_, hcommit, rfl⟩
  obtain ⟨a, b, hown⟩ := List.append_of_mem hmem
  obtain ⟨-, hcommits, -⟩ := lock_discipline (Database.Sound.opened _ _ _ _ _) hrun 0
  exact ⟨t, a, _, b, hown, (hcommits a _ b hown).1 _ rfl⟩

/-! ## While the locks hold -/

/-- In every run in which no lock is taken from the request that holds it, the version check
    never fails: whatever else goes wrong, no update is answered by a missing row. -/
theorem update_never_conflicts {service : WalletMovementSettings} {settings : MoveMoneySettings}
    {requests : ℕ → Request} {now : Instant} {db : Database} {idempotency : Entries Receipt}
    {t : List (Occurrence Op Resp)} {Q : Pool deployment Exn Answer} (hsound : db.Sound)
    (hrun : Pool.RunUnder LocksHold
      (arrivals service settings requests (World.start now db idempotency)) t Q) :
    ∀ i wallet version, .answered i ⟨.updateWallet wallet version, .ok false⟩ ∉ t := by
  intro i wallet version hmem
  have hown : (⟨.updateWallet wallet version, .ok false⟩ : Event Op Resp) ∈ Pool.ownEvents i t :=
    List.mem_filterMap.mpr ⟨_, hmem, if_pos rfl⟩
  obtain ⟨a, b, hown⟩ := List.append_of_mem hown
  obtain ⟨t₁, t₂, R, S, rfl, -, hfirst, hstep, -⟩ := hrun.of_ownEvents hown
  obtain ⟨g, hguarded, hwp⟩ := guarded_of_run hsound hfirst
  cases hstep with
  | @answered _ op resume x w hclient hworld =>
    have hi := hwp i
    rw [hclient] at hi
    have hopen : .closed i ∉ t₁ := by
      intro hclosed
      obtain ⟨r, hr⟩ := hfirst.done_of_closed hclosed
      rw [hclient] at hr
      cases hr
    have hallow : (g i).1.allows service (requests i) (.updateWallet wallet version) := hi.1.1
    obtain ⟨row, hrow, hmatches⟩ := hguarded.update_matches hopen hallow hi.1.2
    rcases hworld with (⟨hx, -⟩ | ⟨-, hnone, -⟩) | ⟨⟨e, he⟩, -⟩
    · cases hx
    · exact hnone row hrow hmatches
    · cases eq_error_of_failure he

/-- The first deposit gets the lock, another one is turned away, and the update finds its row. -/
theorem update_never_conflicts_deposits : ∃ t Q,
    Pool.RunUnder LocksHold
      (arrivals {} {} Sample.visitors (World.start 0 Sample.database fun _ => none)) t Q ∧
    (∃ wallet version, .answered 0 ⟨.updateWallet wallet version, .ok true⟩ ∈ t) ∧
    ∀ wallet version, .answered 0 ⟨.updateWallet wallet version, .ok false⟩ ∉ t := by
  have hsame : ∀ (t : List (Occurrence Op Resp)) (P R : Pool deployment Exn Answer)
      (o : Occurrence Op Resp), R.world.locks = P.world.locks → LocksHold t P o R := by
    intro t P R o h key i hheld
    rw [h]
    exact .inl hheld
  have h := Pool.RunUnder.nil (G := LocksHold)
    (P := arrivals {} {} Sample.visitors (World.start 0 Sample.database fun _ => none))
  -- the first client has the lock
  have h := h.answer 0 rfl (.ok true) _ (.inl (.inl ⟨rfl, rfl⟩)) fun key i hheld => by cases hheld
  have hheld : Function.update (fun _ => none) (lockKey Sample.wallet.id) (some 0)
      (lockKey Sample.wallet.id) = some 0 := Function.update_self ..
  -- the third is told that the wallet is busy
  have h := h.answer 2 rfl (.ok false) _ (.inl (.inr ⟨rfl, rfl, 0, by decide, hheld⟩))
    (hsame _ _ _ _ rfl)
  -- and the first one moves the money
  have h := h.answer 0 rfl () _ (.inl rfl) (hsame _ _ _ _ rfl)
  have h := h.answer 0 rfl (.ok (some Sample.wallet)) _ (.inl ⟨rfl, rfl⟩) (hsame _ _ _ _ rfl)
  have h := h.answer 0 rfl (0 : ℤ) _ (.inl rfl) (hsame _ _ _ _ rfl)
  have h := h.answer 0 rfl Sample.minted _ (.inl rfl) (hsame _ _ _ _ rfl)
  have h := h.answer 0 rfl (.ok ()) _ (.inl ⟨rfl, World.newEntryId_of_blank
    (by rintro row ⟨⟩) (by rintro (_ | j) <;> rfl), rfl⟩) (hsame _ _ _ _ rfl)
  have h := h.answer 0 rfl (.ok true) _ (.inl (.inl ⟨rfl, World.free_of_blank
    (by rintro (_ | j) hj; exacts [absurd rfl hj, rfl]), .ofWallet Sample.wallet,
    List.mem_singleton_self _, ⟨rfl, rfl⟩, rfl⟩)) (hsame _ _ _ _ rfl)
  exact ⟨_, _, h, ⟨_, _, List.mem_append_right _ (List.mem_singleton_self _)⟩,
    update_never_conflicts (Database.Sound.opened _ _ _ _ _) h 0⟩

end Evenkeel.Properties
