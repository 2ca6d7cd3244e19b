import Evenkeel.Infrastructure.StoredRows

/-!
# Pagination

A client who reads a list page by page, while others write to the tables.

- `pages_cover_every_row`: neither list skips a row or repeats one, and both come to an end
-/

namespace Evenkeel.Properties

open Evenkeel.Domain Evenkeel.Application Evenkeel.Infrastructure Evenkeel.Pagination

/-- The database at each of the client's calls. The rows can be loaded, and each has an id of its
    own; a wallet may be updated, but not be given to another owner. -/
structure Inserting (dbs : ℕ → Database) : Prop where
  letters_kept : ∀ n, (dbs n).letters = (dbs 0).letters
  wallets_load : ∀ n, ∀ row ∈ (dbs n).wallets, ∃ w, row.toEntity (dbs n).letters = .ok w
  wallets_distinct : ∀ n, ((dbs n).wallets.map (·.id)).Nodup
  wallets_kept : ∀ n, ∀ row ∈ (dbs n).wallets,
    ∃ row' ∈ (dbs (n + 1)).wallets, row'.id = row.id ∧ row'.ownerId = row.ownerId
  ledger_load : ∀ n, ∀ row ∈ (dbs n).ledger, ∃ e, row.toEntity (dbs n).letters = .ok e
  ledger_distinct : ∀ n, ((dbs n).ledger.map (·.id)).Nodup
  ledger_kept : ∀ n, ∀ row ∈ (dbs n).ledger, row ∈ (dbs (n + 1)).ledger

/-- The ids of rows that are distinct stay so as numbers, and in a part of the rows. -/
theorem distinct_filter {α : Type} {rows : List α} {id : α → UUID} (h : (rows.map id).Nodup)
    (p : α → Bool) : ((rows.filter p).map fun row => (id row).int).Nodup := by
  have hint : (rows.map fun row => (id row).int).Nodup := by
    have hmap := h.map (f := UUID.int) fun u v => UUID.ext
    rwa [List.map_map] at hmap
  exact hint.sublist (List.filter_sublist.map _)

namespace Inserting

variable {dbs : ℕ → Database} (h : Inserting dbs)

include h in
theorem growing_wallets (ownerId : OwnerId) :
    Growing (fun row : WalletRow => row.id.int)
      fun n => (dbs n).wallets.filter fun row => row.ownerId = ownerId.value where
  distinct n := distinct_filter (h.wallets_distinct n) _
  kept n row hrow := by
    obtain ⟨hmem, howner⟩ := List.mem_filter.mp hrow
    obtain ⟨row', hrow', hid, howner'⟩ := h.wallets_kept n row hmem
    refine ⟨row', List.mem_filter.mpr ⟨hrow', ?_⟩, by rw [hid]⟩
    rw [howner']
    exact howner

include h in
theorem listByOwner_eq (ownerId : OwnerId) (limit n : ℕ) (cursor : Option String) :
    (dbs n).listByOwner ownerId limit cursor = decodeCursor cursor >>= fun after =>
      Database.paginate (Database.slice
        ((dbs n).wallets.filter fun row => row.ownerId = ownerId.value) (·.id) after limit)
        (·.id) (WalletRow.toEntity (dbs 0).letters) limit := by
  rw [← h.letters_kept n]
  rfl

include h in
theorem listByWallet_eq (walletId : WalletId) (ownerId : OwnerId) (limit n : ℕ)
    (cursor : Option String) :
    (dbs n).listByWallet walletId ownerId limit cursor = decodeCursor cursor >>= fun after =>
      Database.paginate (Database.slice ((dbs n).ledger.filter fun row =>
        row.walletId = walletId.value ∧ (dbs n).owns ownerId row) (·.id) after limit)
        (·.id) (LedgerRow.toEntity (dbs 0).letters) limit := by
  rw [← h.letters_kept n]
  rfl

include h in
/-- The join with the wallets loses no entry either. -/
theorem growing_ledger (walletId : WalletId) (ownerId : OwnerId) :
    Growing (fun row : LedgerRow => row.id.int) fun n => (dbs n).ledger.filter fun row =>
      row.walletId = walletId.value ∧ (dbs n).owns ownerId row where
  distinct n := distinct_filter (h.ledger_distinct n) _
  kept n row hrow := by
    obtain ⟨hmem, hmatch⟩ := List.mem_filter.mp hrow
    rw [decide_eq_true_eq] at hmatch
    obtain ⟨w, hw, hid, howner⟩ := Database.owns_iff.mp hmatch.2
    obtain ⟨w', hw', hid', howner'⟩ := h.wallets_kept n w hw
    refine ⟨row, List.mem_filter.mpr ⟨h.ledger_kept n row hmem, ?_⟩, rfl⟩
    rw [decide_eq_true_eq]
    exact ⟨hmatch.1, Database.owns_iff.mpr ⟨w', hw', hid'.trans hid, howner'.trans howner⟩⟩

end Inserting

/-- Whatever is inserted while a client passes one `next_cursor` after the other back, the pages
    come to an end; their items are in strictly descending order of their ids, so that none is
    there twice; each row of the owner, or of the wallet, that was there at the first call is
    among them; and nothing is of anyone else. -/
theorem pages_cover_every_row {dbs : ℕ → Database} (h : Inserting dbs) (ownerId : OwnerId)
    (walletId : WalletId) {limit : ℕ} (hlimit : 1 ≤ limit) :
    (∃ pages, Listing (fun n cursor => (dbs n).listByOwner ownerId limit cursor) 0 none pages ∧
      (∀ pages', Listing (fun n cursor => (dbs n).listByOwner ownerId limit cursor) 0 none pages' →
        pages' = pages) ∧
      (pages.flatMap (·.items)).Pairwise (fun v w => w.id.value.int < v.id.value.int) ∧
      (∀ row ∈ (dbs 0).wallets, row.ownerId = ownerId.value →
        ∃ w ∈ pages.flatMap (·.items), w.id.value = row.id) ∧
      ∀ w ∈ pages.flatMap (·.items), w.ownerId = ownerId ∧
        ∃ n, ∃ row ∈ (dbs n).wallets, row.Shows w) ∧
    ∃ pages, Listing (fun n cursor => (dbs n).listByWallet walletId ownerId limit cursor) 0 none
        pages ∧
      (∀ pages', Listing (fun n cursor => (dbs n).listByWallet walletId ownerId limit cursor) 0 none
        pages' → pages' = pages) ∧
      (pages.flatMap (·.items)).Pairwise (fun e f => f.id.value.int < e.id.value.int) ∧
      (∀ row ∈ (dbs 0).ledger, row.walletId = walletId.value → (dbs 0).owns ownerId row = true →
        ∃ e ∈ pages.flatMap (·.items), e.id.value = row.id) ∧
      ∀ e ∈ pages.flatMap (·.items), e.walletId = walletId ∧
        ∃ n, ∃ row ∈ (dbs n).ledger, row.Shows e ∧ (dbs n).owns ownerId row = true := by
  constructor
  · -- the wallets of an owner
    obtain ⟨pages, rows, hlisting, hloaded, hdescending, hcomplete, hsound⟩ := listing_of_growing
      (fun n cursor => (dbs n).listByOwner ownerId limit cursor)
      (h.listByOwner_eq ownerId limit)
      (fun n row hrow => h.letters_kept n ▸ h.wallets_load n row (List.mem_of_mem_filter hrow))
      (h.growing_wallets ownerId) hlimit
    refine ⟨pages, hlisting, fun pages' => hlisting.unique,
      pairwise_of_rows hloaded (fun row w hw => (WalletRow.toEntity_ok hw).id) hdescending, ?_, ?_⟩
    · -- every row of the beginning is on one of the pages
      intro row hrow howner
      obtain ⟨r, hr, hid⟩ := hcomplete row (List.mem_filter.mpr ⟨hrow, by simpa using howner⟩)
      obtain ⟨w, hw, hload⟩ := exists_of_mem_left hloaded hr
      exact ⟨w, hw, (WalletRow.toEntity_ok hload).id.trans hid⟩
    · -- and what is on them is in the tables at some time
      intro w hw
      obtain ⟨row, hrow, hload⟩ := exists_of_mem_right hloaded hw
      obtain ⟨n, hn⟩ := hsound row hrow
      obtain ⟨hmem, howner⟩ := List.mem_filter.mp hn
      have hshows := WalletRow.toEntity_ok hload
      exact ⟨OwnerId.ext (hshows.ownerId.trans (of_decide_eq_true howner)), n, row, hmem, hshows⟩
  · -- the entries of a wallet, likewise
    obtain ⟨pages, rows, hlisting, hloaded, hdescending, hcomplete, hsound⟩ := listing_of_growing
      (fun n cursor => (dbs n).listByWallet walletId ownerId limit cursor)
      (h.listByWallet_eq walletId ownerId limit)
      (fun n row hrow => h.letters_kept n ▸ h.ledger_load n row (List.mem_of_mem_filter hrow))
      (h.growing_ledger walletId ownerId) hlimit
    refine ⟨pages, hlisting, fun pages' => hlisting.unique,
      pairwise_of_rows hloaded (fun row e he => (LedgerRow.toEntity_ok he).id) hdescending, ?_, ?_⟩
    · intro row hrow hwallet howns
      obtain ⟨r, hr, hid⟩ := hcomplete row (List.mem_filter.mpr ⟨hrow, by simp [hwallet, howns]⟩)
      obtain ⟨e, he, hload⟩ := exists_of_mem_left hloaded hr
      exact ⟨e, he, (LedgerRow.toEntity_ok hload).id.trans hid⟩
    · intro e he
      obtain ⟨row, hrow, hload⟩ := exists_of_mem_right hloaded he
      obtain ⟨n, hn⟩ := hsound row hrow
      obtain ⟨hmem, hmatch⟩ := List.mem_filter.mp hn
      rw [decide_eq_true_eq] at hmatch
      have hshows := LedgerRow.toEntity_ok hload
      exact ⟨WalletId.ext (hshows.walletId.trans hmatch.1), n, row, hmem, hshows, hmatch.2⟩

/-! An owner with two wallets, and two entries in the ledger of one of them. After the first page
two more of each come in, one ahead of the page and one behind it. -/

private def opened (id : UUID) : Wallet := Wallet.open ⟨id⟩ Sample.owner Sample.euro.currency 0

private def small (n : Fin 10) : UUID := ⟨n, by omega⟩

private def ids : ℕ → List UUID
  | 0 => [small 5, small 1]
  | _ + 1 => [small 9, small 5, small 3, small 1]

private def arriving (n : ℕ) : Database where
  wallets := (ids n).map fun id => .ofWallet (opened id)
  ledger := (ids n).map fun id => .ofEntry (Sample.entry id)
  letters := .ascii

private theorem ids_nodup (n : ℕ) : (ids n).Nodup := by
  cases n
  · decide
  · show List.Nodup [_, _, _, _]
    decide

private theorem ids_kept {n : ℕ} {id : UUID} (h : id ∈ ids n) : id ∈ ids (n + 1) := by
  cases n with
  | zero => exact (by decide : ∀ id ∈ ids 0, id ∈ ids 1) id h
  | succ n => exact h

private theorem construct_eur :
    domainCall (CurrencyCode.construct .ascii "EUR") = .ok Sample.euro.currency := rfl

private theorem construct_euro :
    domainCall (Money.construct (numeric Sample.euro.cents) Sample.euro.currency) =
      .ok Sample.euro := rfl

private theorem opened_loads (id : UUID) :
    WalletRow.toEntity .ascii (.ofWallet (opened id)) = .ok (opened id) := by
  simp only [WalletRow.toEntity, bind_eq_ok]
  exact ⟨_, construct_eur, (opened id).balance, rfl, .opened, rfl, rfl⟩

private theorem entry_loads (id : UUID) :
    LedgerRow.toEntity .ascii (.ofEntry (Sample.entry id)) = .ok (Sample.entry id) := by
  simp only [LedgerRow.toEntity, bind_eq_ok]
  exact ⟨_, construct_eur, .credit, rfl, _, construct_euro, _, construct_euro, rfl⟩

private theorem inserting_arriving : Inserting arriving where
  letters_kept n := rfl
  wallets_load n row hrow := by
    obtain ⟨id, -, rfl⟩ := List.mem_map.mp hrow
    exact ⟨_, opened_loads id⟩
  wallets_distinct n := by
    rw [arriving, List.map_map]
    exact (ids_nodup n).map fun _ _ h => h
  wallets_kept n row hrow := by
    obtain ⟨id, hid, rfl⟩ := List.mem_map.mp hrow
    exact ⟨_, List.mem_map_of_mem (ids_kept hid), rfl, rfl⟩
  ledger_load n row hrow := by
    obtain ⟨id, -, rfl⟩ := List.mem_map.mp hrow
    exact ⟨_, entry_loads id⟩
  ledger_distinct n := by
    rw [arriving, List.map_map]
    exact (ids_nodup n).map fun _ _ h => h
  ledger_kept n row hrow := by
    obtain ⟨id, hid, rfl⟩ := List.mem_map.mp hrow
    exact List.mem_map_of_mem (ids_kept hid)

private theorem ids_sorted (n : ℕ) : (ids n).Pairwise fun a b => b.int ≤ a.int := by
  cases n
  · decide
  · show List.Pairwise _ [_, _, _, _]
    decide

/-- A page of one row shows the first id behind the cursor, and is the last if there is no other. -/
private theorem page_arriving {α β : Type} {f : UUID → α} {g : UUID → β} {key : α → UUID}
    {toEntity : α → Except Exn β} (hkey : ∀ id, key (f id) = id)
    (hload : ∀ id, toEntity (f id) = .ok (g id)) {n : ℕ} {after : Option UUID} {id : UUID}
    {rest : List UUID}
    (hbehind : ((ids n).filter fun id => after.all fun u => id.int < u.int) = id :: rest) :
    Database.paginate (Database.slice ((ids n).map f) key after 1) key toEntity 1 =
      .ok ⟨[g id], if rest = [] then none else some (encodeCursor id)⟩ := by
  have hfilter : ((ids n).map f).filter (fun row => after.all fun u => (key row).int < u.int) =
      f id :: rest.map f := by
    rw [List.filter_map]
    simp only [Function.comp_def, hkey, hbehind, List.map_cons]
  have hsorted : ((ids n).map f).Pairwise fun a b => (key b).int ≤ (key a).int := by
    apply List.pairwise_map.mpr
    simp only [hkey]
    exact ids_sorted n
  rw [Database.slice, List.mergeSort_of_pairwise, hfilter]
  · cases rest with
    | nil => simp [Database.paginate, hload]
    | cons => simp [Database.paginate, hload, hkey]
  · exact (hsorted.imp fun hle => decide_eq_true hle).sublist List.filter_sublist

private theorem listByOwner_arriving {n : ℕ} {cursor : Option String} {after : Option UUID}
    (hcursor : decodeCursor cursor = .ok after) {id : UUID} {rest : List UUID}
    (hbehind : ((ids n).filter fun id => after.all fun u => id.int < u.int) = id :: rest) :
    (arriving n).listByOwner Sample.owner 1 cursor =
      .ok ⟨[opened id], if rest = [] then none else some (encodeCursor id)⟩ := by
  have hall : (arriving n).wallets.filter (fun row => row.ownerId = Sample.owner.value) =
      (ids n).map fun id => .ofWallet (opened id) := by
    apply List.filter_eq_self.mpr
    intro row hrow
    obtain ⟨id, -, rfl⟩ := List.mem_map.mp hrow
    exact decide_eq_true rfl
  rw [Database.listByOwner, hcursor, hall]
  exact page_arriving (fun _ => rfl) opened_loads hbehind

private theorem listByWallet_arriving {n : ℕ} {cursor : Option String} {after : Option UUID}
    (hcursor : decodeCursor cursor = .ok after) {id : UUID} {rest : List UUID}
    (hbehind : ((ids n).filter fun id => after.all fun u => id.int < u.int) = id :: rest) :
    (arriving n).listByWallet Sample.wallet.id Sample.owner 1 cursor =
      .ok ⟨[Sample.entry id], if rest = [] then none else some (encodeCursor id)⟩ := by
  have howned : small 1 ∈ ids n := by
    cases n with
    | zero => exact (by decide : small 1 ∈ ids 0)
    | succ n => exact (by decide : small 1 ∈ ids 1)
  have hall : (arriving n).ledger.filter (fun row => row.walletId = Sample.wallet.id.value ∧
      (arriving n).owns Sample.owner row) = (ids n).map fun id => .ofEntry (Sample.entry id) := by
    apply List.filter_eq_self.mpr
    intro row hrow
    obtain ⟨id, -, rfl⟩ := List.mem_map.mp hrow
    exact decide_eq_true ⟨rfl, Database.owns_iff.mpr ⟨_, List.mem_map_of_mem howned, rfl, rfl⟩⟩
  rw [Database.listByWallet, hcursor, hall]
  exact page_arriving (fun _ => rfl) entry_loads hbehind

/-- The pages of a client who walks along both, one row a page. -/
private theorem listing_arriving {β : Type} {call : ℕ → Option String → Except Exn (Page β)}
    {g : UUID → β} (hcall : ∀ {n cursor after}, decodeCursor cursor = .ok after → ∀ {id} rest,
      ((ids n).filter fun id => after.all fun u => id.int < u.int) = id :: rest →
      call n cursor = .ok ⟨[g id], if rest = [] then none else some (encodeCursor id)⟩) :
    Listing call 0 none [⟨[g (small 5)], some (encodeCursor (small 5))⟩,
      ⟨[g (small 3)], some (encodeCursor (small 3))⟩, ⟨[g (small 1)], none⟩] := by
  have hfirst : call 0 none = .ok ⟨[g (small 5)], some (encodeCursor (small 5))⟩ :=
    hcall rfl [small 1] rfl
  have hsecond : call 1 (some (encodeCursor (small 5))) =
      .ok ⟨[g (small 3)], some (encodeCursor (small 3))⟩ :=
    hcall (decodeCursor_encodeCursor _) [small 1] rfl
  have hthird : call 2 (some (encodeCursor (small 3))) = .ok ⟨[g (small 1)], none⟩ :=
    hcall (decodeCursor_encodeCursor _) [] rfl
  exact .next hfirst rfl (.next hsecond rfl (.last hthird rfl))

/-- The client sees what was there at the start and what comes in behind the cursor, and not what
    comes in ahead of it. -/
theorem pages_cover_every_row_arriving : ∃ pages entries,
    Listing (fun n cursor => (arriving n).listByOwner Sample.owner 1 cursor) 0 none pages ∧
      pages.map (fun page => page.items.map (·.id.value.int)) = [[5], [3], [1]] ∧
      (∀ row ∈ (arriving 0).wallets, ∃ w ∈ pages.flatMap (·.items), w.id.value = row.id) ∧
    Listing (fun n cursor => (arriving n).listByWallet Sample.wallet.id Sample.owner 1 cursor) 0
        none entries ∧
      entries.map (fun page => page.items.map (·.id.value.int)) = [[5], [3], [1]] ∧
      ∀ row ∈ (arriving 0).ledger, (arriving 0).owns Sample.owner row = true →
        ∃ e ∈ entries.flatMap (·.items), e.id.value = row.id := by
  obtain ⟨⟨pages, hpages, hunique, -, hwallets, -⟩, entries, hentries, hunique', -, hledger, -⟩ :=
    pages_cover_every_row inserting_arriving Sample.owner Sample.wallet.id (le_refl 1)
  have hseen := hunique _ (listing_arriving fun h _ _ hbehind => listByOwner_arriving h hbehind)
  have hseen' := hunique' _ (listing_arriving fun h _ _ hbehind => listByWallet_arriving h hbehind)
  refine ⟨pages, entries, hpages, ?_, ?_, hentries, ?_, ?_⟩
  · rw [← hseen]
    rfl
  · intro row hrow
    obtain ⟨id, -, rfl⟩ := List.mem_map.mp hrow
    exact hwallets _ hrow rfl
  · rw [← hseen']
    rfl
  · intro row hrow howns
    obtain ⟨id, -, rfl⟩ := List.mem_map.mp hrow
    exact hledger _ hrow rfl howns

end Evenkeel.Properties
