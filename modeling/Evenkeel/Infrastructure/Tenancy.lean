import Evenkeel.Infrastructure.Reservations

/-!
# Tenancy

What the requests of one owner leave alone: the rows of every other owner, in the tables and in
transactions that are still open, and the entries of every other owner's keys.

- `Database.walletsOf`, `Database.ledgerOf`: the rows of an owner
- `World.Spares`: a step leaves an owner alone

## Key Results

- `Database.Posts.walletsOf`, `Database.Posts.ledgerOf`: a step of the books leaves the rows of
  the others alone
- `spares_of_step`: so does every step of a run
-/

namespace Evenkeel.Infrastructure

open Evenkeel.Domain Evenkeel.Application Evenkeel.Effects

/-! ## The rows of an owner -/

namespace Database

/-- The wallets of an owner, in the order in which they were opened. -/
def walletsOf (db : Database) (o : OwnerId) : List WalletRow :=
  db.wallets.filter fun row => row.ownerId = o.value

/-- The entries of an owner's wallets, in the order in which they were committed. -/
def ledgerOf (db : Database) (o : OwnerId) : List LedgerRow := db.ledger.filter (db.owns o)

variable {db db' : Database} {o other : OwnerId}

/-- Whose an entry is depends on its owner's wallets only. -/
theorem owns_congr (h : db'.walletsOf o = db.walletsOf o) (row : LedgerRow) :
    db'.owns o row = db.owns o row := by
  have hfilter : ∀ d : Database,
      d.owns o row = (d.walletsOf o).any fun w => w.id = row.walletId := by
    intro d
    rw [owns, walletsOf, List.any_filter]
    apply List.any_congr rfl
    intro w
    rw [Bool.and_comm, Bool.decide_and]
  rw [hfilter, hfilter, h]

theorem Posts.walletsOf (hposts : db.Posts o db') (hsound : db.Sound) (hother : o ≠ other) :
    db'.walletsOf other = db.walletsOf other := by
  have hvalue : o.value ≠ other.value := fun h => hother (OwnerId.ext h)
  cases hposts with
  | nothing => rfl
  | @opening wallet hopen hnew =>
    -- the new row is the owner's, and no other's
    obtain ⟨id, c, now, rfl⟩ := hopen
    have hnone : [WalletRow.ofWallet (Wallet.open id o c now)].filter
        (fun row => row.ownerId = other.value) = [] := by
      simpa [WalletRow.ofWallet, Wallet.open] using hvalue
    show (db.wallets ++ _).filter _ = _
    rw [List.filter_append, hnone, List.append_nil]
    rfl
  | @movement m w w' e row row' howner hbooks hrow hshows hshows' hnew =>
    -- the row that was replaced, and the one in its place, are the mover's
    have hmover : row.ownerId = o.value := by
      rw [← hshows.ownerId, hbooks.ownerId, howner]
    have hmover' : row'.ownerId = o.value := by
      rw [← hshows'.ownerId, hbooks.moved.ownerId, hbooks.ownerId, howner]
    have hid : row'.id = row.id := by
      rw [← hshows'.id, hbooks.moved.id, hshows.id]
    have hsame : ∀ x ∈ db.wallets, row'.id = x.id → x = row := by
      intro x hx hx'
      exact hsound.row_unique hx hrow (hx'.symm.trans hid)
    show (db.wallets.map _).filter _ = db.wallets.filter _
    rw [List.filter_map]
    -- among the rows of another owner nothing is replaced
    have hfilter : db.wallets.filter
        ((fun x : WalletRow => decide (x.ownerId = other.value)) ∘ fun x =>
          if row'.id = x.id then row' else x) =
        db.wallets.filter fun x => decide (x.ownerId = other.value) := by
      apply List.filter_congr
      intro x hx
      by_cases hx' : row'.id = x.id
      · obtain rfl := hsame x hx hx'
        simp [hid, hmover, hmover']
      · simp [hx']
    rw [hfilter]
    -- so the replacement is the identity there
    refine Eq.trans (List.map_congr_left ?_) (List.map_id _)
    intro x hx
    obtain ⟨hx, howner⟩ := List.mem_filter.mp hx
    apply if_neg
    intro hx'
    obtain rfl := hsame x hx hx'
    exact hvalue (hmover.symm.trans (of_decide_eq_true howner))

theorem Posts.ledgerOf (hposts : db.Posts o db') (hsound : db.Sound) (hother : o ≠ other) :
    db'.ledgerOf other = db.ledgerOf other := by
  have howns : db'.owns other = db.owns other :=
    funext (owns_congr (hposts.walletsOf hsound hother))
  rw [Database.ledgerOf, howns]
  cases hposts with
  | nothing => rfl
  | opening hopen hnew => rfl
  | @movement m w w' e row row' howner hbooks hrow hshows hshows' hnew =>
    have hforeign : db.owns other (.ofEntry e) = false := by
      rw [Bool.eq_false_iff]
      intro howned
      obtain ⟨x, hx, hid, hx'⟩ := owns_iff.mp howned
      have hentry : (LedgerRow.ofEntry e).walletId = row.id := by
        rw [← hshows.id, ← hbooks.entryWallet]
        rfl
      obtain rfl := hsound.row_unique hx hrow (hid.trans hentry)
      rw [← hshows.ownerId, hbooks.ownerId, howner] at hx'
      exact hother (OwnerId.ext hx')
    show (db.ledger ++ [LedgerRow.ofEntry e]).filter _ = db.ledger.filter _
    simp [List.filter_append, hforeign]

end Database

/-! ## A step of a request -/

/-- Everything that is an owner's is left alone: the rows, the writes of transactions that are
    still open, and the entries of the keys. -/
structure World.Spares (requests : ℕ → Request) (o : OwnerId) (w w' : World) : Prop where
  wallets : w'.db.walletsOf o = w.db.walletsOf o
  ledger : w'.db.ledgerOf o = w.db.ledgerOf o
  pending : ∀ j, (requests j).ownerId = o → w'.tx j = w.tx j
  keys : ∀ k, w'.idempotency (scopedKey o k) = w.idempotency (scopedKey o k)

/-- Only a request's own transaction is changed by what it does. -/
theorem World.Answers.tx_of_ne {w w' : World} {i j : ℕ} {op : Op} {x : Resp op}
    (h : w.Answers i op x w') (hj : j ≠ i) : w'.tx j = w.tx j := by
  cases h.change with
  | own hop => exact World.write_tx_of_ne _ hj
  | commit =>
    show (w.discard i).tx j = w.tx j
    exact World.write_tx_of_ne _ hj
  | _ => rfl

/-- A key of another owner is not the key of the request. -/
theorem Request.storeKey_ne {r : Request} {o : OwnerId} (hother : r.ownerId ≠ o) (k : String) :
    r.storeKey ≠ some (scopedKey o k) := by
  intro hkey
  obtain ⟨m, hm, hscoped⟩ := Option.bind_eq_some_iff.mp hkey
  obtain ⟨k', -, hk'⟩ := Option.map_eq_some_iff.mp hscoped
  rw [Request.ownerId_of_movement hm] at hother
  exact hother (scopedKey_injective hk').1

section

variable {service : WalletMovementSettings} {settings : MoveMoneySettings}
  {requests : ℕ → Request} {G : Pool.Guard deployment Exn Answer} {now : Instant}
  {db : Database} {idempotency : Entries Receipt} {t : List (Occurrence Op Resp)}
  {w w' : World} {g : ℕ → Call} {i : ℕ} {o : OwnerId}

theorem Tracked.spares {op : Op} {x : Resp op} (h : Tracked requests t w g)
    (hopen : .closed i ∉ t) (hallow : (g i).allows service (requests i) op)
    (hans : w.Answers i op x w') (hother : (requests i).ownerId ≠ o) :
    World.Spares requests o w w' := by
  have hposts := h.posts hopen hallow hans
  refine ⟨hposts.walletsOf h.sound hother, hposts.ledgerOf h.sound hother, ?_, ?_⟩
  · intro j hj
    apply hans.tx_of_ne
    rintro rfl
    exact hother hj
  · intro k
    refine (hans.frame ?_).2
    exact fun hop => Request.storeKey_ne hother k (storeKey_of_allows hallow hop)

/-- The step lemma: whatever a request does, and when its session is closed. -/
theorem spares_of_step {Q R : Pool deployment Exn Answer} {occurrence : Occurrence Op Resp}
    (hsound : db.Sound)
    (hrun : Pool.RunUnder G
      (arrivals service settings requests (World.start now db idempotency)) t Q)
    (hstep : Pool.Step Q occurrence R) (hclient : occurrence.client = some i)
    (hother : (requests i).ownerId ≠ o) : World.Spares requests o Q.world R.world := by
  obtain ⟨g, htracked, hwp⟩ := tracked_of_run hsound hrun
  cases hstep with
  | @answered i' op resume x w hprogram hworld =>
    -- each operation spares the tables of other owners
    obtain rfl := Option.some.inj hclient
    have hi := hwp i'
    rw [hprogram] at hi
    have hopen : .closed i' ∉ t := by
      intro hclosed
      obtain ⟨r, hr⟩ := hrun.done_of_closed hclosed
      rw [hprogram] at hr
      cases hr
    exact htracked.spares hopen hi.1 hworld hother
  | @closed i' r w hprogram hworld =>
    -- so does the end of a session
    obtain rfl := Option.some.inj hclient
    obtain rfl : w = Q.world.discard i' := hworld
    refine ⟨rfl, rfl, ?_, fun _ => rfl⟩
    -- the sessions of the others are not this one
    intro j hj
    show (Q.world.discard i').tx j = Q.world.tx j
    apply World.write_tx_of_ne
    rintro rfl
    exact hother hj
  | drifted hworld => cases hclient

/-- The run lemma: where no request is an owner's, nothing of that owner is changed. -/
theorem spares_of_run {Q : Pool deployment Exn Answer} (hsound : db.Sound)
    (hrun : Pool.RunUnder G
      (arrivals service settings requests (World.start now db idempotency)) t Q)
    (hothers : ∀ i, (requests i).ownerId ≠ o) :
    World.Spares requests o (World.start now db idempotency) Q.world := by
  induction hrun with
  | nil => exact ⟨rfl, rfl, fun _ _ => rfl, fun _ => rfl⟩
  | @snoc t Q R occurrence hrun hstep _ ih =>
    have hspares : World.Spares requests o Q.world R.world := by
      cases occurrence with
      | answered i event => exact spares_of_step hsound hrun hstep rfl (hothers i)
      | closed i => exact spares_of_step hsound hrun hstep rfl (hothers i)
      | drifted =>
        cases hstep with
        | drifted hworld =>
          obtain ⟨now, -, rfl⟩ := hworld
          exact ⟨rfl, rfl, fun _ _ => rfl, fun _ => rfl⟩
    refine ⟨hspares.wallets.trans ih.wallets, hspares.ledger.trans ih.ledger, ?_, ?_⟩
    · intro j hj
      exact (hspares.pending j hj).trans (ih.pending j hj)
    · intro k
      exact (hspares.keys k).trans (ih.keys k)

end

end Evenkeel.Infrastructure
