import Evenkeel.Infrastructure.Deeds
import Evenkeel.Infrastructure.Pages

/-!
# Stored Rows

What the tables accept of a row (`infrastructure/sqla/tables.py`) against what the
repositories accept when they load it again. The two are checked by different programs: the
columns and their `CHECK` constraints by the database, `CurrencyCode`, `Money`, `Wallet` and the
two enumerations by the domain. A currency in lower case passes the first and not the second.

- `WalletRow.Constrained`, `LedgerRow.Constrained`: the row passes the constraints of its table
- `WalletRow.Fits`, `LedgerRow.Fits`: and it holds a currency code, and a value of its enumeration
- `WalletRow.Loads`, `LedgerRow.Loads`: `_to_entity` takes it, and `_to_row` gives it back
- `Keeps`: what requests write has a property that what they have read has

## Key Results

- `WalletRow.loads_iff`, `LedgerRow.fits_iff`: which rows load
- `Database.Fits.readWallet`, `Database.Fits.listByOwner`, ...: over rows that fit, a query
  fails for its cursor only
- `rows_of_run`: such a property holds of every row of a run
- `fits_of_run`: no statement of a run writes a row that does not fit
-/

namespace Evenkeel.Infrastructure

open Evenkeel.Domain Evenkeel.Application Evenkeel.Effects Evenkeel.Python

/-! ## Rows -/

/-- What a `NUMERIC(20, 2)` column can hold. -/
def InRange (cents : ℤ) : Prop := cents.natAbs ≤ 10 ^ 20 - 1

theorem inRange_cents (m : Money) : InRange m.cents := m.natAbs_cents_le

theorem construct_of_inRange {cents : ℤ} (h : InRange cents) (c : CurrencyCode) :
    ∃ m, Money.construct (numeric cents) c = .ok m :=
  Money.construct_of_le c rfl h

theorem inRange_of_construct {cents : ℤ} {c : CurrencyCode} {m : Money}
    (h : Money.construct (numeric cents) c = .ok m) : InRange cents := by
  rw [← (construct_numeric h).1]
  exact inRange_cents m

/-- What the table of wallets asks: `ck_wallets_balance_non_negative`, and room for the values. -/
structure WalletRow.Constrained (row : WalletRow) : Prop where
  balance : InRange row.balanceAmount
  nonneg : 0 ≤ row.balanceAmount
  currency : row.currency.length ≤ 3
  status : row.status.length ≤ 16

/-- What the table of entries asks: `ck_ledger_entries_amount_positive`, and room. -/
structure LedgerRow.Constrained (row : LedgerRow) : Prop where
  amount : InRange row.amount
  positive : 0 < row.amount
  balanceAfter : InRange row.balanceAfter
  currency : row.currency.length ≤ 3
  direction : row.direction.length ≤ 8

/-- And what no constraint asks: a currency code in upper case, and a status that there is. -/
structure WalletRow.Fits (letters : Letters) (row : WalletRow) : Prop
    extends WalletRow.Constrained row where
  valid : CurrencyCode.Valid letters row.currency
  parses : ∃ status, parseStatus row.status = some status

structure LedgerRow.Fits (letters : Letters) (row : LedgerRow) : Prop
    extends LedgerRow.Constrained row where
  valid : CurrencyCode.Valid letters row.currency
  parses : ∃ direction, parseDirection row.direction = some direction

/-- The row can be loaded, and what is loaded is stored as the row it came from. -/
def WalletRow.Loads (letters : Letters) (row : WalletRow) : Prop :=
  ∃ w, row.toEntity letters = .ok w ∧ WalletRow.ofWallet w = row

def LedgerRow.Loads (letters : Letters) (row : LedgerRow) : Prop :=
  ∃ e, row.toEntity letters = .ok e ∧ LedgerRow.ofEntry e = row

theorem domainCall_of_ok {α : Type} {r : Except Raised α} {a : α} (h : r = .ok a) :
    domainCall r = .ok a := by
  rw [h]
  rfl

theorem enumCall_of_some {α : Type} {o : Option α} {a : α} (h : o = some a) :
    enumCall o = .ok a := by
  rw [h]
  rfl

theorem construct_of_valid {letters : Letters} {value : String}
    (h : CurrencyCode.Valid letters value) : CurrencyCode.construct letters value = .ok ⟨value⟩ :=
  if_pos h

theorem length_status (status : WalletStatus) : status.value.length ≤ 16 := by
  cases status <;> decide

theorem length_direction (direction : LedgerDirection) : direction.value.length ≤ 8 := by
  cases direction <;> decide

namespace WalletRow

variable {letters : Letters} {row : WalletRow}

theorem Fits.loads (h : row.Fits letters) : row.Loads letters := by
  obtain ⟨balance, hbalance⟩ := construct_of_inRange h.balance ⟨row.currency⟩
  obtain ⟨status, hstatus⟩ := h.parses
  obtain ⟨hcents, hcurrency⟩ := construct_numeric hbalance
  have hnonneg : ¬ balance.amount.lt Number.zero = true := by
    rw [balance.lt_zero_iff, hcents]
    exact not_lt.mpr h.nonneg
  have hwallet : Wallet.construct ⟨row.id⟩ ⟨row.ownerId⟩ balance status row.version row.createdAt
      row.updatedAt = .ok ⟨⟨row.id⟩, ⟨row.ownerId⟩, balance, status, row.version, row.createdAt,
        row.updatedAt, not_lt.mp (balance.lt_zero_iff.not.mp hnonneg)⟩ := dif_neg hnonneg
  refine ⟨_, bind_eq_ok.mpr ⟨_, domainCall_of_ok (construct_of_valid h.valid), bind_eq_ok.mpr
    ⟨balance, domainCall_of_ok hbalance, bind_eq_ok.mpr
      ⟨status, enumCall_of_some hstatus, domainCall_of_ok hwallet⟩⟩⟩, ?_⟩
  simp only [ofWallet, hcents, hcurrency, parseStatus_value hstatus]

/-- The domain accepts no other rows. -/
theorem loads_iff : row.Loads letters ↔ row.Fits letters := by
  constructor
  · intro h
    obtain ⟨w, hw, -⟩ := h
    have hshows := toEntity_ok hw
    have hvalid := valid_of_toEntity hw
    rw [hshows.currency] at hvalid
    simp only [toEntity, bind_eq_ok] at hw
    obtain ⟨currency, -, balance, hbalance, status, hstatus, hw⟩ := hw
    refine ⟨⟨inRange_of_construct (domainCall_ok hbalance), ?_, hvalid.1.le, ?_⟩, hvalid, status,
      enumCall_ok hstatus⟩
    · rw [← hshows.balance]
      exact w.balance_nonneg
    · rw [← hshows.status]
      exact length_status w.status
  · exact Fits.loads

/-- A row that passes the constraints of its table is refused first of all for its currency. -/
theorem toEntity_of_invalid (h : ¬ CurrencyCode.Valid letters row.currency) :
    row.toEntity letters =
      domainCall (refuse .currencyCodeInvalid [("value", row.currency)]) := by
  simp only [toEntity, CurrencyCode.construct, if_neg h]
  rfl

/-- Whatever wallet is stored, under whatever date of creation. -/
theorem ofWallet_fits {w : Wallet} (h : CurrencyCode.Valid letters w.balance.currency.value)
    (createdAt : Datetime) : Fits letters { ofWallet w with createdAt := createdAt } where
  balance := inRange_cents w.balance
  nonneg := w.balance_nonneg
  currency := h.1.le
  status := length_status w.status
  valid := h
  parses := ⟨w.status, parseStatus_of_value w.status⟩

end WalletRow

namespace LedgerRow

variable {letters : Letters} {row : LedgerRow}

theorem Fits.loads (h : row.Fits letters) : row.Loads letters := by
  obtain ⟨direction, hdirection⟩ := h.parses
  obtain ⟨amount, hamount⟩ := construct_of_inRange h.amount ⟨row.currency⟩
  obtain ⟨balance, hbalance⟩ := construct_of_inRange h.balanceAfter ⟨row.currency⟩
  obtain ⟨hcents, hcurrency⟩ := construct_numeric hamount
  obtain ⟨hcents', -⟩ := construct_numeric hbalance
  refine ⟨_, bind_eq_ok.mpr ⟨_, domainCall_of_ok (construct_of_valid h.valid), bind_eq_ok.mpr
    ⟨direction, enumCall_of_some hdirection, bind_eq_ok.mpr
      ⟨amount, domainCall_of_ok hamount, bind_eq_ok.mpr
        ⟨balance, domainCall_of_ok hbalance, rfl⟩⟩⟩⟩, ?_⟩
  simp only [ofEntry, hcents, hcents', hcurrency, parseDirection_value hdirection]

/-- The entity asks nothing of the amount's sign; the constraint does. -/
theorem fits_iff : row.Fits letters ↔ row.Loads letters ∧ 0 < row.amount := by
  constructor
  · intro h
    exact ⟨h.loads, h.positive⟩
  · intro h
    obtain ⟨⟨e, he, -⟩, hpositive⟩ := h
    have hshows := toEntity_ok he
    simp only [toEntity, bind_eq_ok] at he
    obtain ⟨currency, hcode, direction, hdirection, amount, hamount, balance, hbalance, -⟩ := he
    have hvalid := (CurrencyCode.construct_ok (domainCall_ok hcode)).2
    refine ⟨⟨inRange_of_construct (domainCall_ok hamount), hpositive,
      inRange_of_construct (domainCall_ok hbalance), hvalid.1.le, ?_⟩, hvalid, direction,
      enumCall_ok hdirection⟩
    rw [← hshows.direction]
    exact length_direction e.direction

/-- The entry of a movement is one of a positive amount, in the currency of its wallet. -/
theorem ofEntry_fits {m : MovementRequest} {w w' : Wallet} {e : LedgerEntry}
    (hvalid : CurrencyCode.Valid letters w.balance.currency.value) (h : Books m w w' e) :
    (ofEntry e).Fits letters := by
  have hcode : CurrencyCode.Valid letters (ofEntry e).currency := by
    show CurrencyCode.Valid letters e.amount.currency.value
    rw [h.amount, h.moved.amount_currency]
    exact hvalid
  refine ⟨⟨inRange_cents e.amount, ?_, inRange_cents e.balanceAfter, hcode.1.le,
    length_direction e.direction⟩, hcode, e.direction, parseDirection_of_value e.direction⟩
  show 0 < e.amount.cents
  rw [h.amount]
  exact h.moved.amount_pos

end LedgerRow

/-! ## Queries -/

namespace Database

/-- Every row of a wallet is in `p`, and every row of an entry in `q`. -/
structure Rows (p : WalletRow → Prop) (q : LedgerRow → Prop) (db : Database) : Prop where
  wallets : ∀ row ∈ db.wallets, p row
  ledger : ∀ e ∈ db.ledger, q e

/-- Every row fits. -/
abbrev Fits (db : Database) : Prop :=
  db.Rows (WalletRow.Fits db.letters) (LedgerRow.Fits db.letters)

/-- A page that is asked for with a cursor: the cursor is decoded first. -/
private theorem page_error_iff {α : Type} {cursor : Option String}
    {pageAfter : Option UUID → Except Exn (Page α)}
    (h : ∀ after, ∃ page, pageAfter after = .ok page) {e : Exn} :
    (decodeCursor cursor >>= pageAfter) = .error e ↔ decodeCursor cursor = .error e := by
  cases hafter : decodeCursor cursor with
  | error e' =>
    constructor
    · intro herror
      exact congrArg Except.error (Except.error.inj herror)
    · intro herror
      exact congrArg Except.error (Except.error.inj herror)
  | ok after =>
    obtain ⟨page, hpage⟩ := h after
    have hok : (Except.ok after >>= pageAfter) = .ok page := hpage
    rw [hok]
    constructor
    · intro herror
      cases herror
    · intro herror
      cases herror

namespace Fits

variable {db : Database} (h : db.Fits)
include h

theorem readWallet (walletId : WalletId) (ownerId : OwnerId) :
    ∃ found, db.readWallet walletId ownerId = .ok found := by
  unfold Database.readWallet
  split
  · exact ⟨none, rfl⟩
  · rename_i row hfind
    obtain ⟨w, hw, -⟩ := (h.wallets row (List.mem_of_find?_eq_some hfind)).loads
    exact ⟨some w, map_eq_ok.mpr ⟨w, hw, rfl⟩⟩

theorem readEntry (entryId : LedgerEntryId) (ownerId : OwnerId) :
    ∃ found, db.readEntry entryId ownerId = .ok found := by
  unfold Database.readEntry
  split
  · exact ⟨none, rfl⟩
  · rename_i row hfind
    obtain ⟨e, he, -⟩ := (h.ledger row (List.mem_of_find?_eq_some hfind)).loads
    exact ⟨some e, map_eq_ok.mpr ⟨e, he, rfl⟩⟩

theorem listByOwner (ownerId : OwnerId) (limit : ℕ) (cursor : Option String) (e : Exn) :
    db.listByOwner ownerId limit cursor = .error e ↔ decodeCursor cursor = .error e := by
  refine page_error_iff fun after => ?_
  obtain ⟨items, -, hpage⟩ := paginate_of_loads WalletRow.id limit fun row hrow => by
    obtain ⟨w, hw, -⟩ := (h.wallets row (List.mem_filter.mp (mem_of_mem_slice hrow)).1).loads
    exact ⟨w, hw⟩
  exact ⟨_, hpage⟩

theorem listByWallet (walletId : WalletId) (ownerId : OwnerId) (limit : ℕ)
    (cursor : Option String) (e : Exn) :
    db.listByWallet walletId ownerId limit cursor = .error e ↔ decodeCursor cursor = .error e := by
  refine page_error_iff fun after => ?_
  obtain ⟨items, -, hpage⟩ := paginate_of_loads LedgerRow.id limit fun row hrow => by
    obtain ⟨entry, hentry, -⟩ := (h.ledger row (List.mem_filter.mp (mem_of_mem_slice hrow)).1).loads
    exact ⟨entry, hentry⟩
  exact ⟨_, hpage⟩

end Fits

end Database

/-! ## Runs -/

section

variable (p : WalletRow → Prop) (q : LedgerRow → Prop)

/-- So is every row that the transaction writes. -/
structure Transaction.Rows (tx : Transaction) : Prop where
  newWallets : ∀ row ∈ tx.newWallets, p row
  updates : ∀ row ∈ tx.updates, p row
  newEntries : ∀ e ∈ tx.newEntries, q e

/-- So are the rows of the tables, and those that somebody has written. -/
structure World.Rows (w : World) : Prop where
  db : w.db.Rows p q
  tx : ∀ i, (w.tx i).Rows p q

/-- What the statement writes is in `p` and `q`. -/
def World.Writes : Op → Prop
  | .addWallet w => p (.ofWallet w)
  | .addEntry e => q (.ofEntry e)
  | .updateWallet w _ => ∀ createdAt, p { WalletRow.ofWallet w with createdAt }
  | _ => True

/-- The wallet of a movement was read from a row in `p`. -/
def ReadFrom (letters : Letters) : Session → Prop
  | .loaded w => ∃ row, p row ∧ row.toEntity letters = .ok w
  | .recorded w _ => ∃ row, p row ∧ row.toEntity letters = .ok w
  | _ => True

/-- Requests write what is in `p` and `q`, if what they have read is in `p`. -/
structure Keeps (letters : Letters) (requests : ℕ → Request) : Prop where
  opened : ∀ i c w, requests i = .openWallet c → w.balance.currency = c.currency →
    p (.ofWallet w)
  moved : ∀ row m w w' e createdAt, p row → row.toEntity letters = .ok w → Books m w w' e →
    p { WalletRow.ofWallet w' with createdAt }
  booked : ∀ row m w w' e, p row → row.toEntity letters = .ok w → Books m w w' e →
    q (.ofEntry e)

end

section

variable {p : WalletRow → Prop} {q : LedgerRow → Prop}

theorem Transaction.Rows.blank : Transaction.Rows p q {} where
  newWallets row hrow := by cases hrow
  updates row hrow := by cases hrow
  newEntries e he := by cases he

theorem Database.Rows.apply {db : Database} {tx : Transaction} (h : db.Rows p q)
    (htx : tx.Rows p q) : (db.apply tx).Rows p q := by
  constructor
  · intro row hrow
    obtain ⟨x, hx, rfl⟩ := List.mem_map.mp hrow
    cases hfind : tx.updates.find? (·.id = x.id) with
    | none =>
      rcases List.mem_append.mp hx with hold | hnew
      · exact h.wallets x hold
      · exact htx.newWallets x hnew
    | some u => exact htx.updates u (List.mem_of_find?_eq_some hfind)
  · intro e he
    rcases List.mem_append.mp he with hold | hnew
    · exact h.ledger e hold
    · exact htx.newEntries e hnew

namespace World

variable {w w' : World} {i : ℕ}

theorem Rows.view (h : w.Rows p q) (i : ℕ) : (w.view i).Rows p q := h.db.apply (h.tx i)

theorem Rows.write {f : Transaction → Transaction} (h : w.Rows p q)
    (hf : (f (w.tx i)).Rows p q) : (w.write i f).Rows p q := by
  refine ⟨h.db, fun j => ?_⟩
  by_cases hji : j = i
  · subst hji
    rw [write_tx_self]
    exact hf
  · rw [write_tx_of_ne f hji]
    exact h.tx j

theorem Rows.begin (h : w.Rows p q) (i : ℕ) : (w.begin i).Rows p q :=
  h.write ⟨(h.tx i).newWallets, (h.tx i).updates, (h.tx i).newEntries⟩

theorem Rows.discard (h : w.Rows p q) (i : ℕ) : (w.discard i).Rows p q := h.write .blank

theorem Rows.issue (h : w.Rows p q) (i : ℕ) (op : Op) : (w.issue i op).Rows p q := by
  cases op with
  | readWallet => exact h.begin i
  | addWallet => exact h.begin i
  | updateWallet => exact h.begin i
  | listByOwner => exact h.begin i
  | readEntry => exact h.begin i
  | addEntry => exact h.begin i
  | listByWallet => exact h.begin i
  | _ => exact h

/-- The step lemma, for an operation that takes effect. -/
theorem Rows.serves {op : Op} {x : Resp op} (h : w.Rows p q) (hwrites : Writes p q op)
    (hserves : w.Serves i op x w') : w'.Rows p q := by
  by_cases hop : Statement op
  · cases op with
    | readWallet =>
      obtain ⟨-, rfl⟩ := hserves
      exact h.begin i
    | listByOwner =>
      obtain ⟨-, rfl⟩ := hserves
      exact h.begin i
    | readEntry =>
      obtain ⟨-, rfl⟩ := hserves
      exact h.begin i
    | listByWallet =>
      obtain ⟨-, rfl⟩ := hserves
      exact h.begin i
    | addWallet wallet =>
      -- the new rows are what the operation writes, and the others were there
      obtain ⟨-, -, rfl⟩ := hserves
      refine h.write ⟨?_, (h.tx i).updates, (h.tx i).newEntries⟩
      intro row hrow
      rcases List.mem_append.mp hrow with hold | hnew
      · exact (h.tx i).newWallets row hold
      · obtain rfl := List.mem_singleton.mp hnew
        exact hwrites
    | addEntry e =>
      obtain ⟨-, -, rfl⟩ := hserves
      refine h.write ⟨(h.tx i).newWallets, (h.tx i).updates, ?_⟩
      intro row hrow
      rcases List.mem_append.mp hrow with hold | hnew
      · exact (h.tx i).newEntries row hold
      · obtain rfl := List.mem_singleton.mp hnew
        exact hwrites
    | updateWallet wallet =>
      rcases hserves with ⟨-, -, row, -, -, rfl⟩ | ⟨-, -, rfl⟩
      · refine h.write ⟨(h.tx i).newWallets, ?_, (h.tx i).newEntries⟩
        intro row' hrow'
        rcases List.mem_cons.mp hrow' with rfl | hold
        · exact hwrites row.createdAt
        · exact (h.tx i).updates row' hold
      · exact h.begin i
    | commit =>
      -- what is committed was in the session
      obtain ⟨-, rfl⟩ := hserves
      exact ⟨h.view i, (h.discard i).tx⟩
    | rollback =>
      obtain ⟨-, rfl⟩ := hserves
      exact h.discard i
    | _ => exact hop.elim
  · -- what is no statement leaves the tables and the sessions alone
    obtain ⟨hdb, htx⟩ := Answers.quiet (.inl hserves) hop
    exact ⟨hdb ▸ h.db, fun j => htx ▸ h.tx j⟩

theorem Rows.answers {op : Op} {x : Resp op} (h : w.Rows p q) (hwrites : Writes p q op)
    (hans : w.Answers i op x w') : w'.Rows p q := by
  rcases hans with hserves | ⟨-, rfl | ⟨y, hserves⟩⟩
  · exact h.serves hwrites hserves
  · exact h.issue i op
  · exact h.serves hwrites hserves

/-- Nothing changes the tables of Unicode. -/
theorem letters_of_answers {op : Op} {x : Resp op} (hans : w.Answers i op x w') :
    w'.db.letters = w.db.letters := by
  cases hans.change with
  | _ => rfl

/-- A wallet that is read is read from one of the rows. -/
theorem Rows.read {op : Op} {x : Resp op} {s : Session} (h : w.Rows p q)
    (hs : ReadFrom p w.db.letters s) (hans : w.Answers i op x w') :
    ReadFrom p w.db.letters (s.next op x) := by
  cases op with
  | readWallet id o =>
    rcases x with e | (_ | wallet)
    · exact hs
    · trivial
    · -- the wallet comes from a row of the view
      rcases hans with ⟨hread, -⟩ | ⟨⟨e, he⟩, -⟩
      · obtain ⟨row, hrow, hload⟩ := Database.exists_row_of_readWallet hread.symm
        exact ⟨row, (h.view i).wallets row hrow, hload⟩
      · cases he
  | addEntry e =>
    cases x with
    | error => trivial
    | ok =>
      -- it stays what was read
      cases s with
      | loaded wallet => exact hs
      | _ => trivial
  | updateWallet =>
    rcases x with e | (_ | _)
    · trivial
    · trivial
    · cases s <;> trivial
  | commit =>
    cases x with
    | error => trivial
    | ok => cases s <;> trivial
  | addWallet => cases x <;> trivial
  | rollback => cases x <;> trivial
  | _ => exact hs

end World

/-- A request writes only what fits. -/
theorem writes_of_allows {service : WalletMovementSettings} {letters : Letters}
    {requests : ℕ → Request} {i : ℕ} {s : Call × Stage} {op : Op}
    (hkeeps : Keeps p q letters requests) (hs : ReadFrom p letters s.1.session)
    (h : s.1.allows service (requests i) op) (h' : s.2.allows (requests i) op) :
    World.Writes p q op := by
  cases op with
  | addWallet wallet =>
    obtain ⟨-, c, hc, hcurrency⟩ := h'
    exact hkeeps.opened i c wallet hc hcurrency
  | addEntry e =>
    obtain ⟨m, w, w', -, hsession, hbooks⟩ := h
    rw [hsession] at hs
    obtain ⟨row, hrow, hload⟩ := hs
    exact hkeeps.booked row m w w' e hrow hload hbooks
  | updateWallet w' v =>
    obtain ⟨m, w, e, -, hsession, -, hbooks⟩ := h
    rw [hsession] at hs
    obtain ⟨row, hrow, hload⟩ := hs
    exact fun createdAt => hkeeps.moved row m w w' e createdAt hrow hload hbooks
  | _ => trivial

theorem readFrom_update {letters : Letters} {g : ℕ → Call × Stage} {i : ℕ} {s : Call × Stage}
    (h : ∀ j, ReadFrom p letters (g j).1.session) (hs : ReadFrom p letters s.1.session) (j : ℕ) :
    ReadFrom p letters (Function.update g i s j).1.session := by
  by_cases hji : j = i
  · subst hji
    rw [Function.update_self]
    exact hs
  · rw [Function.update_of_ne hji]
    exact h j

variable {service : WalletMovementSettings} {settings : MoveMoneySettings}
  {requests : ℕ → Request} {G : Pool.Guard deployment Exn Answer} {now : Instant}
  {db : Database} {idempotency : Entries Receipt} {t : List (Occurrence Op Resp)}
  {Q : Pool deployment Exn Answer}

/-- The run lemma. -/
theorem rows_of_run (hrows : db.Rows p q) (hkeeps : Keeps p q db.letters requests)
    (hrun : Pool.RunUnder G
      (arrivals service settings requests (World.start now db idempotency)) t Q) :
    Q.world.db.letters = db.letters ∧ Q.world.Rows p q := by
  have hupholds : Pool.RunUnder.Upholds
      (fun i => (protocol service (requests i)).prod (discipline (requests i))) G
      (fun i x s => (requests i).Meets x s.1 ∧ Retires Answer.Retells x s.2)
      (fun _ w g => w.db.letters = db.letters ∧ w.Rows p q ∧
        ∀ i, ReadFrom p db.letters (g i).1.session) := by
    constructor
    · intro t R R' g i op x hwp hinv hopen hallow hans hG
      -- what a request writes comes from what it has read
      obtain ⟨hletters, hrows, hread⟩ := hinv
      have hwrites := writes_of_allows hkeeps (hread i) hallow.1 hallow.2
      refine ⟨(_, _), ⟨⟨promises_of_answers hans, rfl⟩, trivial, rfl⟩,
        (World.letters_of_answers hans).trans hletters, hrows.answers hwrites hans,
        readFrom_update hread ?_⟩
      rw [← hletters] at hread ⊢
      exact hrows.read (hread i) hans
    · intro t R w g i r hdone hwp hinv hcloses
      -- a session that is closed is empty
      obtain rfl : w = R.world.discard i := hcloses
      exact ⟨hinv.1, hinv.2.1.discard i, hinv.2.2⟩
    · intro t R w g hwp hinv hdrifts hG
      -- time changes no row
      obtain ⟨now, hnow, rfl⟩ := hdrifts
      exact ⟨hinv.1, ⟨hinv.2.1.db, hinv.2.1.tx⟩, hinv.2.2⟩
  have hstart : (World.start now db idempotency).Rows p q := ⟨hrows, fun _ => .blank⟩
  obtain ⟨g, hinv, -⟩ := hrun.upholds hupholds
    (fun i => Request.meets_both service settings (requests i))
    (by exact ⟨rfl, hstart, fun i => trivial⟩)
  exact ⟨hinv.1, hinv.2.1⟩

/-! ### Rows that fit -/

/-- The currency of a wallet that is to be opened is one: a `CurrencyCode` has been checked. -/
def Coded (letters : Letters) : Request → Prop
  | .openWallet c => CurrencyCode.Valid letters c.currency.value
  | _ => True

theorem Keeps.fits {letters : Letters} (h : ∀ i, Coded letters (requests i)) :
    Keeps (WalletRow.Fits letters) (LedgerRow.Fits letters) letters requests where
  opened i c w hc hcurrency := by
    have hcode := h i
    rw [hc] at hcode
    exact WalletRow.ofWallet_fits (hcurrency ▸ hcode) w.createdAt
  moved row m w w' e createdAt _ hload hbooks := by
    have hvalid := WalletRow.valid_of_toEntity hload
    rw [← hbooks.moved.currency] at hvalid
    exact WalletRow.ofWallet_fits hvalid createdAt
  booked row m w w' e _ hload hbooks :=
    LedgerRow.ofEntry_fits (WalletRow.valid_of_toEntity hload) hbooks

/-- No row of any request is refused by the database, and none is there that the repositories
    could not load. -/
theorem fits_of_run (hfits : db.Fits) (hcodes : ∀ i, Coded db.letters (requests i))
    (hrun : Pool.RunUnder G
      (arrivals service settings requests (World.start now db idempotency)) t Q) :
    Q.world.db.Fits ∧ ∀ i, (Q.world.view i).Fits := by
  obtain ⟨hletters, hrows⟩ := rows_of_run hfits (Keeps.fits hcodes) hrun
  rw [← hletters] at hrows
  exact ⟨hrows.db, hrows.view⟩

/-- Entries are booked on wallets that have been loaded, so theirs fit in any case. -/
theorem entries_fit_of_run (hfits : ∀ e ∈ db.ledger, e.Fits db.letters)
    (hrun : Pool.RunUnder G
      (arrivals service settings requests (World.start now db idempotency)) t Q) :
    ∀ e ∈ Q.world.db.ledger, e.Fits Q.world.db.letters := by
  have hkeeps : Keeps (fun _ => True) (LedgerRow.Fits db.letters) db.letters requests := by
    refine ⟨fun _ _ _ _ _ => trivial, fun _ _ _ _ _ _ _ _ _ => trivial, ?_⟩
    intro row m w w' e _ hload hbooks
    exact LedgerRow.ofEntry_fits (WalletRow.valid_of_toEntity hload) hbooks
  obtain ⟨hletters, hrows⟩ := rows_of_run ⟨fun _ _ => trivial, hfits⟩ hkeeps hrun
  rw [hletters]
  exact hrows.db.ledger

end

end Evenkeel.Infrastructure
