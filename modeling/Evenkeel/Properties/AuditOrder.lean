import Evenkeel.Infrastructure.StoredRows

/-!
# The Ledger as an Audit Trail

A ledger is listed by the ids of its entries, which are minted from the clock of the replica
that serves the movement. The order in which the movements were applied is another one: it is
decided by the version of the wallet's row.

- `NewestFirst`: the listing is the order of application, backwards
- `listed_in_audit_order_iff`: the runs that stay so are those in which no movement is applied
  with an id from a clock that is behind
-/

namespace Evenkeel.Properties

open Evenkeel.Accounting Evenkeel.Application Evenkeel.Domain Evenkeel.Effects
open Evenkeel.Infrastructure Evenkeel.Pagination

/-- However the wallet's entries are read page by page, they come in the reverse of the order in
    which they were applied: the balance before each is the balance after the next. -/
def NewestFirst (db : Database) (wallet : WalletRow) : Prop :=
  ∀ limit, 1 ≤ limit → ∃ pages,
    Listing (fun _ cursor => db.listByWallet ⟨wallet.id⟩ ⟨wallet.ownerId⟩ limit cursor) 0 none
      pages ∧
    List.Forall₂ LedgerRow.Shows (db.entriesOf wallet.id).reverse (pages.flatMap (·.items)) ∧
    (pages.flatMap (·.items)).IsChain fun e f =>
      e.balanceAfter.cents - e.direction.signed e.amount.cents = f.balanceAfter.cents

/-- The ids of a wallet's entries ascend in the order of application. -/
def Ascending (db : Database) (walletId : UUID) : Prop :=
  (db.entriesOf walletId).Pairwise fun e f => e.id.int < f.id.int

/-- An entry that the step adds to the ledger has an id above those of its wallet's entries. -/
def Ahead : Pool.Guard deployment Exn Answer := fun _ Q _ R =>
  ∀ e ∈ R.world.db.ledger, e ∉ Q.world.db.ledger →
    ∀ f ∈ Q.world.db.entriesOf e.walletId, f.id.int < e.id.int

/-- Every replica's own ids ascend, whatever the others' clocks say. -/
def MintsInOrder (replica : ℕ → ℕ) (t : List (Occurrence Op Resp)) : Prop :=
  ∀ n, (t.filterMap fun
    | .answered i ⟨.generate, id⟩ => if replica i = n then some id else none
    | _ => none).Pairwise fun (u v : UUID) => u.int < v.int

/-- After the step every wallet's ledger is listed newest first. -/
def ListsInOrder : Pool.Guard deployment Exn Answer := fun _ _ _ R =>
  ∀ wallet ∈ R.world.db.wallets, NewestFirst R.world.db wallet

/-! ## One database -/

section

variable {db : Database} {wallet : WalletRow}

/-- What the query of a wallet's owner finds are the wallet's entries. -/
theorem filter_owned (hwallet : wallet ∈ db.wallets) :
    (db.ledger.filter fun row => row.walletId = wallet.id ∧ db.owns ⟨wallet.ownerId⟩ row) =
      db.entriesOf wallet.id := by
  apply List.filter_congr
  intro row _
  rw [Bool.eq_iff_iff, decide_eq_true_iff, decide_eq_true_iff]
  constructor
  · intro h
    exact h.1
  · intro h
    exact ⟨h, Database.owns_iff.mpr ⟨wallet, hwallet, h.symm, rfl⟩⟩

/-- The listing of a wallet's ledger is by descending ids, whatever the order of application. -/
theorem listed_by_id (hsound : db.Sound) (hfits : ∀ e ∈ db.ledger, e.Fits db.letters)
    (hwallet : wallet ∈ db.wallets) {limit : ℕ} (hlimit : 1 ≤ limit) :
    ∃ pages rows, Listing
        (fun _ cursor => db.listByWallet ⟨wallet.id⟩ ⟨wallet.ownerId⟩ limit cursor) 0 none pages ∧
      List.Forall₂ (fun row item => LedgerRow.toEntity db.letters row = .ok item) rows
        (pages.flatMap (·.items)) ∧
      rows.Pairwise (fun e f => f.id.int < e.id.int) ∧
      ∀ row, row ∈ rows ↔ row ∈ db.entriesOf wallet.id := by
  -- nothing is inserted while the pages are asked for
  have hgrowing : Growing (fun row : LedgerRow => row.id.int) fun _ => db.ledger.filter fun row =>
      row.walletId = wallet.id ∧ db.owns ⟨wallet.ownerId⟩ row := by
    constructor
    · intro n
      have hids := hsound.ledger_nodup.map (f := UUID.int) fun u v => UUID.ext
      rw [List.map_map] at hids
      exact hids.sublist (List.filter_sublist.map _)
    · intro n row hrow
      exact ⟨row, hrow, rfl⟩
  obtain ⟨pages, rows, hlisting, hloaded, hdescending, hcomplete, hmem⟩ := listing_of_growing
    (fun _ cursor => db.listByWallet ⟨wallet.id⟩ ⟨wallet.ownerId⟩ limit cursor)
    (fun n cursor => rfl)
    (fun n row hrow => (hfits row (List.mem_of_mem_filter hrow)).loads.imp fun _ h => h.1)
    hgrowing hlimit
  rw [filter_owned hwallet] at hcomplete hmem
  refine ⟨pages, rows, hlisting, hloaded, hdescending, ?_⟩
  intro row
  constructor
  · -- what is listed belongs to the wallet
    intro hrow
    exact (hmem row hrow).choose_spec
  · -- and what belongs to it is listed, by its id
    intro hrow
    obtain ⟨r, hr, hid⟩ := hcomplete row hrow
    have hr' := (hmem r hr).choose_spec
    rwa [← hsound.entry_unique (List.mem_of_mem_filter hr') (List.mem_of_mem_filter hrow) hid]

/-- The running balances, as the client sees them. -/
theorem isChain_of_shows {rows : List LedgerRow} {items : List LedgerEntry}
    (h : List.Forall₂ LedgerRow.Shows rows items)
    (hchain : rows.IsChain fun e f => e.balanceAfter = f.balanceAfter + e.signedAmount) :
    items.IsChain fun e f =>
      e.balanceAfter.cents - e.direction.signed e.amount.cents = f.balanceAfter.cents := by
  induction h with
  | nil => exact .nil
  | @cons row item rows items hshows hrest ih =>
    rw [List.isChain_cons] at hchain ⊢
    refine ⟨?_, ih hchain.2⟩
    intro f hf
    cases hrest with
    | nil => cases hf
    | @cons row' item' rows items hshows' hrest =>
      obtain rfl := Option.some.inj hf
      have hbalance := hchain.1 row' rfl
      have hsigned : row.signedAmount = item.direction.signed item.amount.cents := by
        rw [LedgerRow.signedAmount, ← hshows.direction, ← hshows.amount]
        cases item.direction with
        | credit => rfl
        | debit => rfl
      rw [hshows.balanceAfter, hshows'.balanceAfter, hbalance, hsigned]
      omega

theorem newestFirst_iff (hsound : db.Sound) (hfits : ∀ e ∈ db.ledger, e.Fits db.letters)
    (hwallet : wallet ∈ db.wallets) : NewestFirst db wallet ↔ Ascending db wallet.id := by
  constructor
  · intro h
    -- by pages of one, which are listed by id, the entries come newest first
    obtain ⟨pages, hlisting, hshows, -⟩ := h 1 (le_refl 1)
    obtain ⟨pages', rows, hlisting', hloaded, hdescending, -⟩ :=
      listed_by_id hsound hfits hwallet (le_refl 1)
    obtain rfl := hlisting.unique hlisting'
    have hitems := pairwise_of_rows hloaded
      (fun row item hload => (LedgerRow.toEntity_ok hload).id) hdescending
    have hids : (db.entriesOf wallet.id).reverse.map (fun row => row.id.int) =
        (pages'.flatMap (·.items)).map fun item => item.id.value.int := by
      rw [← List.forall₂_eq_eq_eq, List.forall₂_map_left_iff, List.forall₂_map_right_iff]
      exact hshows.imp fun row item h => by rw [h.id]
    rw [← List.pairwise_map (f := fun item : LedgerEntry => item.id.value.int)
      (R := fun a b => b < a), ← hids, List.pairwise_map, List.pairwise_reverse] at hitems
    exact hitems
  · intro h limit hlimit
    obtain ⟨pages, rows, hlisting, hloaded, hdescending, hmem⟩ :=
      listed_by_id hsound hfits hwallet hlimit
    -- two lists in descending order with the same members
    obtain rfl : rows = (db.entriesOf wallet.id).reverse := by
      have : Std.Irrefl fun e f : LedgerRow => f.id.int < e.id.int := ⟨fun e => lt_irrefl _⟩
      apply hdescending.eq_of_mem_iff (List.pairwise_reverse.mpr h)
      intro row
      rw [hmem, List.mem_reverse]
    have hshows := hloaded.imp fun row item hload => LedgerRow.toEntity_ok hload
    exact ⟨pages, hlisting, hshows,
      isChain_of_shows hshows (hsound.reconciled wallet hwallet).running.isChain⟩

theorem all_newestFirst_iff (hsound : db.Sound) (hfits : ∀ e ∈ db.ledger, e.Fits db.letters) :
    (∀ wallet ∈ db.wallets, NewestFirst db wallet) ↔ ∀ id, Ascending db id := by
  constructor
  · intro h id
    by_cases hentries : db.entriesOf id = []
    · rw [Ascending, hentries]
      exact .nil
    · obtain ⟨e, rest, hcons⟩ := List.exists_cons_of_ne_nil hentries
      have he : e ∈ db.entriesOf id := hcons ▸ List.mem_cons_self
      obtain ⟨hledger, hid⟩ := List.mem_filter.mp he
      obtain ⟨wallet, hwallet, hsame⟩ := hsound.owned e hledger
      rw [← of_decide_eq_true hid, ← hsame]
      exact (newestFirst_iff hsound hfits hwallet).mp (h wallet hwallet)
  · intro h wallet hwallet
    exact (newestFirst_iff hsound hfits hwallet).mpr (h wallet.id)

end

/-! ## A run -/

/-- The order survives a step exactly if an entry that it adds is ahead. -/
theorem ascending_of_posts {db db' : Database} {o : OwnerId} (hposts : db.Posts o db')
    (hsound : db'.Sound) (h : ∀ id, Ascending db id) :
    (∀ e ∈ db'.ledger, e ∉ db.ledger → ∀ f ∈ db.entriesOf e.walletId, f.id.int < e.id.int) ↔
      ∀ id, Ascending db' id := by
  -- a request that adds no entry changes nothing
  rcases hposts.ledger with hsame | ⟨e, hadded⟩
  · have hentries : ∀ id, db'.entriesOf id = db.entriesOf id := by
      intro id
      rw [Database.entriesOf, hsame]
      rfl
    constructor
    · intro _ id
      rw [Ascending, hentries]
      exact h id
    · intro _ e he hnew
      exact absurd (hsame ▸ he) hnew
  · have hnodup := hsound.ledger_nodup
    rw [hadded, List.map_append, List.nodup_append] at hnodup
    -- the one it adds was not there before
    have hnew : LedgerRow.ofEntry e ∉ db.ledger := by
      intro hold
      exact hnodup.2.2 _ (List.mem_map_of_mem hold) _ (List.mem_singleton_self _) rfl
    have hentries : ∀ id, db'.entriesOf id =
        if (LedgerRow.ofEntry e).walletId = id then db.entriesOf id ++ [.ofEntry e]
        else db.entriesOf id := by
      intro id
      rw [← Database.entriesOf_append db'.wallets, Database.entriesOf, hadded]
      rfl
    constructor
    · -- it comes last in its wallet, so it is above the ids before it
      intro hahead id
      rw [Ascending, hentries]
      split
      · rename_i hid
        subst hid
        rw [List.pairwise_append]
        refine ⟨h _, List.pairwise_singleton _ _, ?_⟩
        intro f hf x hx
        obtain rfl := List.mem_singleton.mp hx
        exact hahead _ (hadded ▸ List.mem_append_right _ (List.mem_singleton_self _)) hnew f hf
      · exact h id
    · -- the ids ascend to the last one, which is the new one
      intro hascending x hx hold f hf
      rw [hadded] at hx
      obtain rfl := List.mem_singleton.mp ((List.mem_append.mp hx).resolve_left hold)
      have hpairwise := hascending (LedgerRow.ofEntry e).walletId
      rw [Ascending, hentries, if_pos rfl, List.pairwise_append] at hpairwise
      exact hpairwise.2.2 f hf _ (List.mem_singleton_self _)

section

variable {service : WalletMovementSettings} {settings : MoveMoneySettings}
  {requests : ℕ → Request} {now : Instant} {letters : Letters} {idempotency : Entries Receipt}
  {t : List (Occurrence Op Resp)} {Q R : Pool deployment Exn Answer}

theorem ledger_fits_of_run {G : Pool.Guard deployment Exn Answer}
    (hrun : Pool.RunUnder G
      (arrivals service settings requests (World.start now { letters } idempotency)) t Q) :
    ∀ e ∈ Q.world.db.ledger, e.Fits Q.world.db.letters := by
  refine entries_fit_of_run ?_ hrun
  intro e he
  cases he

theorem sound_of_run {G : Pool.Guard deployment Exn Answer}
    (hrun : Pool.RunUnder G
      (arrivals service settings requests (World.start now { letters } idempotency)) t Q) :
    Q.world.db.Sound := by
  obtain ⟨g, htracked, -⟩ := tracked_of_run (Database.Sound.empty letters) hrun
  exact htracked.sound

theorem ascending_of_lists
    (hrun : Pool.RunUnder ListsInOrder
      (arrivals service settings requests (World.start now { letters } idempotency)) t Q)
    (id : UUID) : Ascending Q.world.db id := by
  have hfits := ledger_fits_of_run hrun
  have hsound := sound_of_run hrun
  cases hrun with
  | nil => exact .nil
  | snoc hrun hstep hlists => exact (all_newestFirst_iff hsound hfits).mp hlists id

/-- The step lemma: in a run that was in order so far. -/
theorem ahead_iff_lists {occurrence : Occurrence Op Resp}
    (hrun : Pool.Run
      (arrivals service settings requests (World.start now { letters } idempotency)) t Q)
    (hstep : Pool.Step Q occurrence R) (h : ∀ id, Ascending Q.world.db id) :
    Ahead t Q occurrence R ↔ ListsInOrder t Q occurrence R := by
  obtain ⟨o, hposts⟩ := posts_of_step (Database.Sound.empty letters) hrun hstep
  have hrun' := hrun.snoc hstep trivial
  exact (ascending_of_posts hposts (sound_of_run hrun') h).trans
    (all_newestFirst_iff (sound_of_run hrun') (ledger_fits_of_run hrun')).symm

/-- The runs in which every ledger is listed newest first, in every state that is reached, are
    the runs in which each movement is applied with an id above those of its wallet's entries. -/
theorem listed_in_audit_order_iff (service : WalletMovementSettings) (settings : MoveMoneySettings)
    (requests : ℕ → Request) (now : Instant) (letters : Letters)
    (idempotency : Entries Receipt) (t : List (Occurrence Op Resp))
    (Q : Pool deployment Exn Answer) :
    Pool.RunUnder ListsInOrder
        (arrivals service settings requests (World.start now { letters } idempotency)) t Q ↔
      Pool.RunUnder Ahead
        (arrivals service settings requests (World.start now { letters } idempotency)) t Q := by
  constructor
  · intro hrun
    induction hrun with
    | nil => exact .nil
    | snoc hrun hstep hlists ih =>
      exact ih.snoc hstep ((ahead_iff_lists hrun.run hstep (ascending_of_lists hrun)).mpr hlists)
  · intro hrun
    induction hrun with
    | nil => exact .nil
    | snoc hrun hstep hahead ih =>
      exact ih.snoc hstep ((ahead_iff_lists hrun.run hstep (ascending_of_lists ih)).mp hahead)

end

/-! A wallet is opened and a deposit made on one replica; the next deposit is served by a replica
whose clock is behind. -/

private def unevenly : ℕ → Request
  | 0 => .openWallet ⟨Sample.owner, Sample.euro.currency⟩
  | _ => .apply (Sample.deposit none)

private def behind : UUID := ⟨5, by norm_num⟩

theorem clock_behind_is_listed_below :
    ∃ t Q, Pool.Run
        (arrivals {} {} unevenly (World.start 0 { letters := .ascii } fun _ => none)) t Q ∧
      MintsInOrder (fun i => if i = 2 then 1 else 0) t ∧
      ∃ wallet ∈ Q.world.db.wallets, ¬ NewestFirst Q.world.db wallet := by
  have h := Pool.RunUnder.nil (G := fun _ _ _ _ => True)
    (P := arrivals {} {} unevenly (World.start 0 { letters := .ascii } fun _ => none))
  -- the wallet is opened
  have h := h.answer 0 rfl Sample.wallet.id.value _ (.inl rfl) trivial
  have h := h.answer 0 rfl (0 : ℤ) _ (.inl rfl) trivial
  have h := h.answer 0 rfl (.ok ()) _
    (.inl ⟨rfl, ⟨by rintro row ⟨⟩, by rintro j row ⟨⟩⟩, rfl⟩) trivial
  have h := h.answer 0 rfl (.ok ()) _ (.inl ⟨rfl, rfl⟩) trivial
  -- the first deposit
  have h := h.answer 1 rfl (.ok true) _ (.inl (.inl ⟨rfl, rfl⟩)) trivial
  have h := h.answer 1 rfl () _ (.inl rfl) trivial
  have h := h.answer 1 rfl (.ok (some Sample.wallet)) _ (.inl ⟨rfl, rfl⟩) trivial
  have h := h.answer 1 rfl (0 : ℤ) _ (.inl rfl) trivial
  have h := h.answer 1 rfl Sample.minted _ (.inl rfl) trivial
  have h := h.answer 1 rfl (.ok ()) _ (.inl ⟨rfl, World.newEntryId_of_blank (by rintro row ⟨⟩)
    (by rintro (_ | _ | j) <;> rfl), rfl⟩) trivial
  have h := h.answer 1 rfl (.ok true) _ (.inl (.inl ⟨rfl, World.free_of_blank
    (by rintro (_ | _ | j) hj; exacts [rfl, absurd rfl hj, rfl]), .ofWallet Sample.wallet,
    List.mem_singleton_self _, ⟨rfl, rfl⟩, rfl⟩)) trivial
  have h := h.answer 1 rfl (.ok ()) _ (.inl ⟨rfl, rfl⟩) trivial
  have h := h.answer 1 rfl (.ok ()) _ (.inl ⟨rfl, rfl⟩) trivial
  -- the second, on the other replica
  have h := h.answer 2 rfl (.ok true) _ (.inl (.inl ⟨rfl, rfl⟩)) trivial
  have h := h.answer 2 rfl () _ (.inl rfl) trivial
  have h := h.answer 2 rfl (.ok (some Sample.credited)) _ (.inl ⟨rfl, rfl⟩) trivial
  have h := h.answer 2 rfl (0 : ℤ) _ (.inl rfl) trivial
  have h := h.answer 2 rfl behind _ (.inl rfl) trivial
  have h := h.answer 2 rfl (.ok ()) _ (.inl ⟨rfl, World.newEntryId_of_blank
    (by intro row hrow; obtain rfl := List.mem_singleton.mp hrow; decide)
    (by rintro (_ | _ | _ | j) <;> rfl), rfl⟩) trivial
  have h := h.answer 2 rfl (.ok true) _ (.inl (.inl ⟨rfl, World.free_of_blank
    (by rintro (_ | _ | _ | j) hj; exacts [rfl, rfl, absurd rfl hj, rfl]),
    .ofWallet Sample.credited, List.mem_singleton_self _, ⟨rfl, rfl⟩, rfl⟩)) trivial
  have h := h.answer 2 rfl (.ok ()) _ (.inl ⟨rfl, rfl⟩) trivial
  obtain ⟨t, Q, hrun, hminted, wallet, hwallets, hledger⟩ : ∃ t Q,
      Pool.Run
          (arrivals {} {} unevenly (World.start 0 { letters := .ascii } fun _ => none)) t Q ∧
        MintsInOrder (fun i => if i = 2 then 1 else 0) t ∧
        ∃ wallet, Q.world.db.wallets = [wallet] ∧
          (Q.world.db.entriesOf wallet.id).map (·.id.int) = [9, 5] := by
    refine ⟨_, _, h, ?_, _, rfl, rfl⟩
    -- the replicas mint in order, each for itself
    intro n
    match n with
    | 0 => decide
    | 1 => decide
    | n + 2 => exact .nil
  have hmem : wallet ∈ Q.world.db.wallets := hwallets ▸ List.mem_singleton_self _
  refine ⟨t, Q, hrun, hminted, wallet, hmem, ?_⟩
  rw [newestFirst_iff (sound_of_run hrun) (ledger_fits_of_run hrun) hmem, Ascending,
    ← List.pairwise_map (f := fun row : LedgerRow => row.id.int) (R := (· < ·)), hledger]
  decide

end Evenkeel.Properties
