import Evenkeel.Domain.CurrencyCodes
import Evenkeel.Infrastructure.Cursor

/-!
# The Database

The two tables (`infrastructure/sqla/tables.py`), the repositories over them
(`infrastructure/adapters/sqla/*_repository.py`), and a transaction as the writes it has
not committed yet. A `NUMERIC(20, 2)` value is its count of hundredths.

## Key Results

- `WalletRow.toEntity_ok`, `WalletRow.ofWallet_shows`: a loaded wallet says what its row
  says, and so does the row of a stored wallet
- `Database.readWallet_some`, `Database.readEntry_some`: what a query returns is in the
  table and belongs to the owner it was asked for
- `Database.listByOwner_mem`, `Database.listByWallet_mem`: so does all a page holds
-/

namespace Evenkeel.Infrastructure

open Evenkeel.Domain Evenkeel.Application Evenkeel.Python

/-! ## Rows -/

/-- A row of `wallets`. -/
structure WalletRow where
  id : UUID
  ownerId : UUID
  balanceAmount : ℤ
  currency : String
  status : String
  version : ℤ
  createdAt : Datetime
  updatedAt : Datetime

/-- A row of `ledger_entries`. -/
structure LedgerRow where
  id : UUID
  walletId : UUID
  direction : String
  amount : ℤ
  currency : String
  balanceAfter : ℤ
  description : String
  occurredAt : Datetime

/-- A `NUMERIC(20, 2)` value as the driver hands it over. -/
def numeric (cents : ℤ) : Decimal := .finite ⟨decide (cents < 0), cents.natAbs, -2⟩

/-- `WalletStatus(value)`. -/
def parseStatus (value : String) : Option WalletStatus :=
  if value = "open" then some .opened else if value = "closed" then some .closed else none

/-- `LedgerDirection(value)`. -/
def parseDirection (value : String) : Option LedgerDirection :=
  if value = "credit" then some .credit else if value = "debit" then some .debit else none

/-- An exception of the domain layer, on its way through an adapter. -/
def domainCall {α : Type} : Except Raised α → Except Exn α
  | .ok a => .ok a
  | .error e => .error (.ofRaised e)

/-- `SomeEnum(value)`, for a value the enumeration does not have. -/
def enumCall {α : Type} : Option α → Except Exn α
  | some a => .ok a
  | none => .error (.other "ValueError")

namespace WalletRow

/-- `_to_entity` of `wallet_repository.py`. -/
def toEntity (letters : Letters) (row : WalletRow) : Except Exn Wallet := do
  let currency ← domainCall (CurrencyCode.construct letters row.currency)
  let balance ← domainCall (Money.construct (numeric row.balanceAmount) currency)
  let status ← enumCall (parseStatus row.status)
  domainCall (Wallet.construct ⟨row.id⟩ ⟨row.ownerId⟩ balance status row.version row.createdAt
    row.updatedAt)

/-- `_to_row`. -/
def ofWallet (w : Wallet) : WalletRow :=
  ⟨w.id.value, w.ownerId.value, w.balance.cents, w.balance.currency.value, w.status.value,
    w.version, w.createdAt, w.updatedAt⟩

end WalletRow

namespace LedgerRow

/-- `_to_entity` of `ledger_repository.py`. -/
def toEntity (letters : Letters) (row : LedgerRow) : Except Exn LedgerEntry := do
  let currency ← domainCall (CurrencyCode.construct letters row.currency)
  let direction ← enumCall (parseDirection row.direction)
  let amount ← domainCall (Money.construct (numeric row.amount) currency)
  let balanceAfter ← domainCall (Money.construct (numeric row.balanceAfter) currency)
  return ⟨⟨row.id⟩, ⟨row.walletId⟩, direction, amount, balanceAfter, row.description,
    row.occurredAt⟩

/-- The values `SqlaLedgerRepository.add` inserts. -/
def ofEntry (e : LedgerEntry) : LedgerRow :=
  ⟨e.id.value, e.walletId.value, e.direction.value, e.amount.cents, e.amount.currency.value,
    e.balanceAfter.cents, e.description, e.occurredAt⟩

end LedgerRow

/-! ## Tables and transactions -/

/-- The committed rows, in the order they were committed, and the tables of Unicode in which the
    repositories look a currency up when they load a row. -/
structure Database where
  wallets : List WalletRow := []
  ledger : List LedgerRow := []
  letters : Letters

/-- An open transaction: whether a statement has been issued in it, and its writes. -/
structure Transaction where
  active : Bool := false
  newWallets : List WalletRow := []
  updates : List WalletRow := []
  newEntries : List LedgerRow := []

namespace Database

/-- The tables as a transaction sees them, and as they are once it has committed. -/
def apply (db : Database) (tx : Transaction) : Database where
  wallets := (db.wallets ++ tx.newWallets).map fun row =>
    (tx.updates.find? (·.id = row.id)).getD row
  ledger := db.ledger ++ tx.newEntries
  letters := db.letters

variable (db : Database)

/-- `SqlaWalletRepository.read`. -/
def readWallet (walletId : WalletId) (ownerId : OwnerId) : Except Exn (Option Wallet) :=
  match db.wallets.find? fun row => row.id = walletId.value ∧ row.ownerId = ownerId.value with
  | none => .ok none
  | some row => some <$> row.toEntity db.letters

/-- The join of the ledger queries: the entry's wallet belongs to the owner. -/
def owns (ownerId : OwnerId) (row : LedgerRow) : Bool :=
  db.wallets.any fun w => w.id = row.walletId ∧ w.ownerId = ownerId.value

/-- `SqlaLedgerRepository.read`. -/
def readEntry (entryId : LedgerEntryId) (ownerId : OwnerId) : Except Exn (Option LedgerEntry) :=
  match db.ledger.find? fun row => row.id = entryId.value ∧ db.owns ownerId row with
  | none => .ok none
  | some row => some <$> row.toEntity db.letters

/-- `WHERE id < after ORDER BY id DESC LIMIT limit + 1`. -/
def slice {α : Type} (rows : List α) (id : α → UUID) (after : Option UUID) (limit : ℕ) :
    List α :=
  ((rows.filter fun row => after.all fun u => (id row).int < u.int).mergeSort
    fun a b => (id b).int ≤ (id a).int).take (limit + 1)

/-- `_paginate`. -/
def paginate {α β : Type} (rows : List α) (id : α → UUID) (toEntity : α → Except Exn β)
    (limit : ℕ) : Except Exn (Page β) := do
  let visible := rows.take limit
  let items ← visible.mapM toEntity
  return ⟨items,
    if limit < rows.length then visible.getLast?.map fun row => encodeCursor (id row) else none⟩

/-- `SqlaWalletRepository.list_by_owner`. -/
def listByOwner (ownerId : OwnerId) (limit : ℕ) (cursor : Option String) :
    Except Exn (Page Wallet) := do
  let after ← decodeCursor cursor
  paginate (slice (db.wallets.filter fun row => row.ownerId = ownerId.value) (·.id) after limit)
    (·.id) (WalletRow.toEntity db.letters) limit

/-- `SqlaLedgerRepository.list_by_wallet`. -/
def listByWallet (walletId : WalletId) (ownerId : OwnerId) (limit : ℕ)
    (cursor : Option String) : Except Exn (Page LedgerEntry) := do
  let after ← decodeCursor cursor
  paginate (slice
      (db.ledger.filter fun row => row.walletId = walletId.value ∧ db.owns ownerId row) (·.id)
      after limit)
    (·.id) (LedgerRow.toEntity db.letters) limit

end Database

/-! ## Loading and storing -/

theorem bind_eq_ok {ε α β : Type} {x : Except ε α} {f : α → Except ε β} {b : β} :
    (x >>= f) = .ok b ↔ ∃ a, x = .ok a ∧ f a = .ok b := by
  cases x with
  | error e => simp [bind, Except.bind]
  | ok a => simp [bind, Except.bind]

theorem map_eq_ok {ε α β : Type} {x : Except ε α} {f : α → β} {b : β} :
    (f <$> x) = .ok b ↔ ∃ a, x = .ok a ∧ f a = b := by
  cases x with
  | error e => simp [Functor.map, Except.map]
  | ok a => simp [Functor.map, Except.map]

theorem domainCall_ok {α : Type} {r : Except Raised α} {a : α} (h : domainCall r = .ok a) :
    r = .ok a := by
  cases r with
  | error e => cases h
  | ok b => exact congrArg _ (Except.ok.inj h)

theorem enumCall_ok {α : Type} {o : Option α} {a : α} (h : enumCall o = .ok a) :
    o = some a := by
  cases o with
  | none => cases h
  | some b => exact congrArg _ (Except.ok.inj h)

theorem parseStatus_value {s : String} {status : WalletStatus} (h : parseStatus s = some status) :
    status.value = s := by
  unfold parseStatus at h
  split_ifs at h with h₁ h₂
  · cases h
    exact h₁.symm
  · cases h
    exact h₂.symm

theorem parseDirection_value {s : String} {direction : LedgerDirection}
    (h : parseDirection s = some direction) : direction.value = s := by
  unfold parseDirection at h
  split_ifs at h with h₁ h₂
  · cases h
    exact h₁.symm
  · cases h
    exact h₂.symm

theorem parseStatus_of_value (status : WalletStatus) : parseStatus status.value = some status := by
  cases status <;> rfl

theorem parseDirection_of_value (direction : LedgerDirection) :
    parseDirection direction.value = some direction := by
  cases direction <;> rfl

/-- A `NUMERIC(20, 2)` value comes back as it was stored. -/
theorem construct_numeric {cents : ℤ} {c : CurrencyCode} {m : Money}
    (h : Money.construct (numeric cents) c = .ok m) : m.cents = cents ∧ m.currency = c := by
  obtain ⟨hamount, hcurrency⟩ := Money.construct_ok h
  refine ⟨?_, hcurrency⟩
  rw [Money.cents, ← Decimal.finite.inj hamount]
  simp [Number.scaled, Number.signed_decide_natAbs]

theorem wallet_construct_ok {id : WalletId} {ownerId : OwnerId} {balance : Money}
    {status : WalletStatus} {version : ℤ} {createdAt updatedAt : Datetime} {w : Wallet}
    (h : Wallet.construct id ownerId balance status version createdAt updatedAt = .ok w) :
    w.id = id ∧ w.ownerId = ownerId ∧ w.balance = balance ∧ w.status = status ∧
      w.version = version ∧ w.createdAt = createdAt := by
  unfold Wallet.construct refuse at h
  split_ifs at h
  cases h
  exact ⟨rfl, rfl, rfl, rfl, rfl, rfl⟩

/-- The row and the wallet agree in every column a movement looks at. -/
structure WalletRow.Shows (row : WalletRow) (w : Wallet) : Prop where
  id : w.id.value = row.id
  ownerId : w.ownerId.value = row.ownerId
  balance : w.balance.cents = row.balanceAmount
  currency : w.balance.currency.value = row.currency
  status : w.status.value = row.status
  version : w.version = row.version

/-- The row and the entry agree in every column. -/
structure LedgerRow.Shows (row : LedgerRow) (e : LedgerEntry) : Prop where
  id : e.id.value = row.id
  walletId : e.walletId.value = row.walletId
  direction : e.direction.value = row.direction
  amount : e.amount.cents = row.amount
  currency : e.amount.currency.value = row.currency
  balanceAfter : e.balanceAfter.cents = row.balanceAfter
  balanceCurrency : e.balanceAfter.currency.value = row.currency

theorem WalletRow.toEntity_ok {letters : Letters} {row : WalletRow} {w : Wallet}
    (h : row.toEntity letters = .ok w) : row.Shows w := by
  simp only [toEntity, bind_eq_ok] at h
  obtain ⟨currency, hcode, balance, hbalance, status, hstatus, hw⟩ := h
  obtain ⟨hvalue, -⟩ := CurrencyCode.construct_ok (domainCall_ok hcode)
  obtain ⟨hcents, hcurrency⟩ := construct_numeric (domainCall_ok hbalance)
  obtain ⟨hid, howner, hbal, hst, hversion, -⟩ := wallet_construct_ok (domainCall_ok hw)
  exact ⟨by rw [hid], by rw [howner], by rw [hbal, hcents], by rw [hbal, hcurrency, hvalue],
    by rw [hst, parseStatus_value (enumCall_ok hstatus)], hversion⟩

theorem LedgerRow.toEntity_ok {letters : Letters} {row : LedgerRow} {e : LedgerEntry}
    (h : row.toEntity letters = .ok e) : row.Shows e := by
  simp only [toEntity, bind_eq_ok] at h
  obtain ⟨currency, hcode, direction, hdirection, amount, hamount, balance, hbalance, he⟩ := h
  obtain ⟨hvalue, -⟩ := CurrencyCode.construct_ok (domainCall_ok hcode)
  obtain ⟨hcents, hcurrency⟩ := construct_numeric (domainCall_ok hamount)
  obtain ⟨hcents', hcurrency'⟩ := construct_numeric (domainCall_ok hbalance)
  obtain rfl := Except.ok.inj he
  exact ⟨rfl, rfl, parseDirection_value (enumCall_ok hdirection), hcents,
    (congrArg CurrencyCode.value hcurrency).trans hvalue, hcents',
    (congrArg CurrencyCode.value hcurrency').trans hvalue⟩

/-- What has been loaded has passed the checks of `CurrencyCode`. -/
theorem WalletRow.valid_of_toEntity {letters : Letters} {row : WalletRow} {w : Wallet}
    (h : row.toEntity letters = .ok w) : CurrencyCode.Valid letters w.balance.currency.value := by
  rw [(toEntity_ok h).currency]
  simp only [toEntity, bind_eq_ok] at h
  obtain ⟨currency, hcode, -⟩ := h
  exact (CurrencyCode.construct_ok (domainCall_ok hcode)).2

theorem LedgerRow.ofEntry_shows {e : LedgerEntry}
    (h : e.balanceAfter.currency = e.amount.currency) : (ofEntry e).Shows e :=
  ⟨rfl, rfl, rfl, rfl, rfl, rfl, congrArg CurrencyCode.value h⟩

/-! ## What queries return -/

namespace Database

variable {db : Database} {ownerId : OwnerId}

theorem exists_row_of_readWallet {walletId : WalletId} {w : Wallet}
    (h : db.readWallet walletId ownerId = .ok (some w)) :
    ∃ row ∈ db.wallets, row.toEntity db.letters = .ok w := by
  unfold readWallet at h
  split at h
  · cases h
  · rename_i row hfind
    obtain ⟨w', hw, hsome⟩ := map_eq_ok.mp h
    obtain rfl := Option.some.inj hsome
    exact ⟨row, List.mem_of_find?_eq_some hfind, hw⟩

theorem readWallet_some {walletId : WalletId} {w : Wallet}
    (h : db.readWallet walletId ownerId = .ok (some w)) :
    ∃ row ∈ db.wallets, row.Shows w ∧ w.id = walletId ∧ w.ownerId = ownerId := by
  unfold readWallet at h
  split at h
  · cases h
  · rename_i row hfind
    obtain ⟨w', hw, hsome⟩ := map_eq_ok.mp h
    obtain rfl := Option.some.inj hsome
    have hshows := WalletRow.toEntity_ok hw
    have hrow := List.find?_some hfind
    simp only [decide_eq_true_eq] at hrow
    refine ⟨row, List.mem_of_find?_eq_some hfind, hshows, ?_, ?_⟩
    · exact WalletId.ext (hshows.id.trans hrow.1)
    · exact OwnerId.ext (hshows.ownerId.trans hrow.2)

theorem readWallet_none {walletId : WalletId} (h : db.readWallet walletId ownerId = .ok none) :
    ∀ row ∈ db.wallets, row.id = walletId.value → row.ownerId ≠ ownerId.value := by
  unfold readWallet at h
  split at h
  · rename_i hfind
    intro row hmem hid howner
    simpa [hid, howner] using List.find?_eq_none.mp hfind row hmem
  · obtain ⟨w', -, hsome⟩ := map_eq_ok.mp h
    cases hsome

theorem owns_iff {row : LedgerRow} :
    db.owns ownerId row = true ↔
      ∃ w ∈ db.wallets, w.id = row.walletId ∧ w.ownerId = ownerId.value := by
  simp [owns]

theorem readEntry_some {entryId : LedgerEntryId} {e : LedgerEntry}
    (h : db.readEntry entryId ownerId = .ok (some e)) :
    ∃ row ∈ db.ledger, row.Shows e ∧ e.id = entryId ∧ db.owns ownerId row = true := by
  unfold readEntry at h
  split at h
  · cases h
  · rename_i row hfind
    obtain ⟨e', he, hsome⟩ := map_eq_ok.mp h
    obtain rfl := Option.some.inj hsome
    have hshows := LedgerRow.toEntity_ok he
    have hrow := List.find?_some hfind
    simp only [decide_eq_true_eq] at hrow
    exact ⟨row, List.mem_of_find?_eq_some hfind, hshows,
      LedgerEntryId.ext (hshows.id.trans hrow.1), hrow.2⟩

theorem readEntry_none {entryId : LedgerEntryId}
    (h : db.readEntry entryId ownerId = .ok none) :
    ∀ row ∈ db.ledger, row.id = entryId.value → db.owns ownerId row = false := by
  unfold readEntry at h
  split at h
  · rename_i hfind
    intro row hmem hid
    simpa [hid] using List.find?_eq_none.mp hfind row hmem
  · obtain ⟨e', -, hsome⟩ := map_eq_ok.mp h
    cases hsome

theorem mem_of_mem_slice {α : Type} {rows : List α} {id : α → UUID} {after : Option UUID}
    {limit : ℕ} {row : α} (h : row ∈ slice rows id after limit) : row ∈ rows := by
  have hmem := List.mem_of_mem_take h
  rw [List.mem_mergeSort] at hmem
  exact List.mem_of_mem_filter hmem

theorem mem_of_mapM_ok {α β : Type} {f : α → Except Exn β} {rows : List α} {items : List β}
    (h : rows.mapM f = .ok items) {b : β} (hb : b ∈ items) : ∃ a ∈ rows, f a = .ok b := by
  induction rows generalizing items with
  | nil =>
    simp only [List.mapM_nil, pure, Except.pure, Except.ok.injEq] at h
    subst h
    cases hb
  | cons a rows ih =>
    simp only [List.mapM_cons, bind_eq_ok] at h
    obtain ⟨b', hb', rest, hrest, hitems⟩ := h
    obtain rfl := Except.ok.inj hitems
    rcases List.mem_cons.mp hb with rfl | hmem
    · exact ⟨a, List.mem_cons_self, hb'⟩
    · obtain ⟨a', ha', hfa⟩ := ih hrest hmem
      exact ⟨a', List.mem_cons_of_mem _ ha', hfa⟩

theorem paginate_mem {α β : Type} {rows : List α} {id : α → UUID} {toEntity : α → Except Exn β}
    {limit : ℕ} {page : Page β} (h : paginate rows id toEntity limit = .ok page) {b : β}
    (hb : b ∈ page.items) : ∃ a ∈ rows, toEntity a = .ok b := by
  simp only [paginate, bind_eq_ok] at h
  obtain ⟨items, hitems, hpage⟩ := h
  obtain rfl := Except.ok.inj hpage
  obtain ⟨a, ha, hab⟩ := mem_of_mapM_ok hitems hb
  exact ⟨a, List.mem_of_mem_take ha, hab⟩

theorem listByOwner_mem {limit : ℕ} {cursor : Option String} {page : Page Wallet}
    (h : db.listByOwner ownerId limit cursor = .ok page) {w : Wallet} (hw : w ∈ page.items) :
    ∃ row ∈ db.wallets, row.Shows w ∧ row.ownerId = ownerId.value := by
  simp only [listByOwner, bind_eq_ok] at h
  obtain ⟨after, -, hpage⟩ := h
  obtain ⟨row, hrow, hentity⟩ := paginate_mem hpage hw
  have hmem := List.mem_filter.mp (mem_of_mem_slice hrow)
  exact ⟨row, hmem.1, WalletRow.toEntity_ok hentity, by simpa using hmem.2⟩

theorem listByWallet_mem {walletId : WalletId} {limit : ℕ} {cursor : Option String}
    {page : Page LedgerEntry} (h : db.listByWallet walletId ownerId limit cursor = .ok page)
    {e : LedgerEntry} (he : e ∈ page.items) :
    ∃ row ∈ db.ledger, row.Shows e ∧ e.walletId = walletId ∧ db.owns ownerId row = true := by
  simp only [listByWallet, bind_eq_ok] at h
  obtain ⟨after, -, hpage⟩ := h
  obtain ⟨row, hrow, hentity⟩ := paginate_mem hpage he
  have hmem := List.mem_filter.mp (mem_of_mem_slice hrow)
  simp only [decide_eq_true_eq] at hmem
  have hshows := LedgerRow.toEntity_ok hentity
  exact ⟨row, hmem.1, hshows, WalletId.ext (hshows.walletId.trans hmem.2.1), hmem.2.2⟩

end Database

end Evenkeel.Infrastructure
