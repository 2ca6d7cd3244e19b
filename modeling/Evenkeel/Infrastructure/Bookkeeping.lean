import Evenkeel.Accounting.Running
import Evenkeel.Application.Protocol
import Evenkeel.Infrastructure.Database

/-!
# Bookkeeping

What one committed request does to the two tables, and what that keeps true of them. Here
a request is a single step from one database to the next; that the deployment's
transactions amount to such steps is shown in `Evenkeel.Infrastructure.Sessions`.

- `Database.Posts`: a request opens a wallet, or books one movement, or leaves no trace
- `Database.Unique`: what the tables themselves see to
- `Database.Reconciled`, `Database.Sound`: a wallet agrees with its entries; every wallet does
- `Database.Snapshot`: a wallet that was read is a version the row has or has had

## Key Results

- `Database.Unique.posts`, `Database.Sound.posts`: a step keeps both
- `Database.Grows.of_posts`: rows stay, with their ids, owners and currencies
-/

namespace Evenkeel.Infrastructure

open Evenkeel.Domain Evenkeel.Application Evenkeel.Accounting

/-! ## Reconciliation -/

/-- A ledger row's contribution to the balance: credits count up, debits count down. -/
def LedgerRow.signedAmount (row : LedgerRow) : ℤ :=
  if row.direction = LedgerDirection.credit.value then row.amount else -row.amount

/-- A wallet's ledger entries, in commit order. -/
def Database.entriesOf (db : Database) (walletId : UUID) : List LedgerRow :=
  db.ledger.filter fun e => e.walletId = walletId

/-- The wallet and its ledger entries agree. -/
structure Database.Reconciled (db : Database) (wallet : WalletRow) : Prop where
  currency : ∀ e ∈ db.entriesOf wallet.id, e.currency = wallet.currency
  running : Running LedgerRow.signedAmount LedgerRow.balanceAfter (db.entriesOf wallet.id)
  balance : wallet.balanceAmount = closing LedgerRow.balanceAfter (db.entriesOf wallet.id)
  nonneg : 0 ≤ wallet.balanceAmount
  le_max : wallet.balanceAmount ≤ moneyMaxCents
  version : wallet.version = (db.entriesOf wallet.id).length

namespace Database

/-- The primary keys. -/
structure Unique (db : Database) : Prop where
  wallets_nodup : (db.wallets.map WalletRow.id).Nodup
  ledger_nodup : (db.ledger.map LedgerRow.id).Nodup

/-- Ids are unique, every entry belongs to a wallet, and every wallet is reconciled. -/
structure Sound (db : Database) : Prop extends Unique db where
  owned : ∀ e ∈ db.ledger, ∃ row ∈ db.wallets, row.id = e.walletId
  reconciled : ∀ row ∈ db.wallets, Reconciled db row

/-- Replace the row with `row'`'s id. -/
def replace (db : Database) (row' : WalletRow) : List WalletRow :=
  db.wallets.map fun row => if row'.id = row.id then row' else row

/-- What the transaction of a request of owner `o` makes of the tables when it commits. -/
inductive Posts (db : Database) (o : OwnerId) : Database → Prop where
  | nothing : Posts db o db
  | opening {wallet : Wallet} (hopen : ∃ id c now, wallet = Wallet.open id o c now)
      (hnew : ∀ row ∈ db.wallets, row.id ≠ wallet.id.value) :
      Posts db o { db with wallets := db.wallets ++ [.ofWallet wallet] }
  | movement {m : MovementRequest} {w w' : Wallet} {e : LedgerEntry} {row row' : WalletRow}
      (howner : m.ownerId = o) (hbooks : Books m w w' e) (hrow : row ∈ db.wallets)
      (hshows : row.Shows w) (hshows' : row'.Shows w') (hnew : ∀ x ∈ db.ledger, x.id ≠ e.id.value) :
      Posts db o ⟨db.replace row', db.ledger ++ [.ofEntry e], db.letters⟩

variable {db db' : Database} {o : OwnerId}

theorem Sound.empty (letters : Letters) : Sound { letters } :=
  ⟨⟨List.nodup_nil, List.nodup_nil⟩, by rintro e ⟨⟩, by rintro row ⟨⟩⟩

/-- A wallet's row is determined by its id. -/
theorem Unique.row_unique (h : db.Unique) {row row' : WalletRow} (hrow : row ∈ db.wallets)
    (hrow' : row' ∈ db.wallets) (hid : row.id = row'.id) : row = row' :=
  List.inj_on_of_nodup_map h.wallets_nodup hrow hrow' hid

theorem Unique.entry_unique (h : db.Unique) {e e' : LedgerRow} (he : e ∈ db.ledger)
    (he' : e' ∈ db.ledger) (hid : e.id = e'.id) : e = e' :=
  List.inj_on_of_nodup_map h.ledger_nodup he he' hid

theorem replace_map_id (db : Database) (row' : WalletRow) :
    (db.replace row').map WalletRow.id = db.wallets.map WalletRow.id := by
  rw [replace, List.map_map]
  refine List.map_congr_left fun row _ => ?_
  by_cases h : row'.id = row.id
  · simp [h]
  · simp [h]

/-- A row after the replacement is the new one, or an old one with another id. -/
theorem mem_replace {row' x : WalletRow} (hx : x ∈ db.replace row') :
    (x = row' ∧ ∃ row ∈ db.wallets, row.id = row'.id) ∨ (x ∈ db.wallets ∧ x.id ≠ row'.id) := by
  obtain ⟨row, hrow, rfl⟩ := List.mem_map.mp hx
  by_cases h : row'.id = row.id
  · left
    exact ⟨if_pos h, row, hrow, h.symm⟩
  · right
    rw [if_neg h]
    exact ⟨hrow, Ne.symm h⟩

/-- Every wallet has a row after the replacement. -/
theorem mem_replace_of_mem {row' row : WalletRow} (hrow : row ∈ db.wallets) :
    (if row'.id = row.id then row' else row) ∈ db.replace row' :=
  List.mem_map_of_mem hrow

theorem entriesOf_append (wallets : List WalletRow) (e : LedgerRow) (walletId : UUID) :
    entriesOf ⟨wallets, db.ledger ++ [e], db.letters⟩ walletId =
      if e.walletId = walletId then db.entriesOf walletId ++ [e] else db.entriesOf walletId := by
  by_cases h : e.walletId = walletId
  · simp [entriesOf, h]
  · simp [entriesOf, h]

/-! ## A step keeps the books -/

theorem signedAmount_ofEntry (e : LedgerEntry) :
    (LedgerRow.ofEntry e).signedAmount = e.direction.signed e.amount.cents := by
  cases h : e.direction with
  | credit => simp [LedgerRow.signedAmount, LedgerRow.ofEntry, h, LedgerDirection.signed]
  | debit =>
    simp [LedgerRow.signedAmount, LedgerRow.ofEntry, h, LedgerDirection.signed,
      LedgerDirection.value]

/-- The heart of the matter: one booked movement, seen from its own wallet. -/
theorem Reconciled.movement {m : MovementRequest} {w w' : Wallet} {e : LedgerEntry}
    {row row' : WalletRow} (hbooks : Books m w w' e) (hshows : row.Shows w)
    (hshows' : row'.Shows w') (h : Reconciled db row) :
    Reconciled ⟨db.replace row', db.ledger ++ [.ofEntry e], db.letters⟩ row' := by
  have hid : row'.id = row.id := by
    rw [← hshows'.id, hbooks.moved.id, hshows.id]
  have hwallet : (LedgerRow.ofEntry e).walletId = row.id := by
    rw [← hshows.id, ← hbooks.entryWallet]
    rfl
  have hcurrency : row'.currency = row.currency := by
    rw [← hshows'.currency, hbooks.moved.currency, hshows.currency]
  have hentries : entriesOf ⟨db.replace row', db.ledger ++ [.ofEntry e], db.letters⟩ row'.id =
      db.entriesOf row.id ++ [.ofEntry e] := by
    rw [entriesOf_append, hid, if_pos hwallet]
  have hafter : (LedgerRow.ofEntry e).balanceAfter = row'.balanceAmount := by
    rw [← hshows'.balance, ← hbooks.balanceAfter]
    rfl
  -- the balance the entry carries continues the running balance of the wallet
  have htotal : (LedgerRow.ofEntry e).balanceAfter =
      closing LedgerRow.balanceAfter (db.entriesOf row.id) +
        (LedgerRow.ofEntry e).signedAmount := by
    rw [hafter, ← hshows'.balance, hbooks.moved.balance, hshows.balance, h.balance,
      signedAmount_ofEntry, hbooks.direction, hbooks.amount]
  constructor
  · rw [hentries]
    intro x hx
    rcases List.mem_append.mp hx with hx | hx
    · rw [h.currency x hx, hcurrency]
    · obtain rfl := List.mem_singleton.mp hx
      show e.amount.currency.value = row'.currency
      rw [hbooks.amount, hbooks.moved.amount_currency, hshows.currency, hcurrency]
  · rw [hentries]
    exact h.running.snoc htotal
  · rw [hentries, closing_snoc, hafter]
  · rw [← hshows'.balance]
    exact w'.balance_nonneg
  · rw [← hshows'.balance]
    exact w'.balance.cents_le
  · rw [hentries, ← hshows'.version, hbooks.moved.version, hshows.version, h.version]
    simp

/-- A movement on another wallet, and an opening, leave a wallet's books alone. -/
theorem Reconciled.of_entries {row : WalletRow}
    (hentries : db'.entriesOf row.id = db.entriesOf row.id) (h : Reconciled db row) :
    Reconciled db' row := by
  constructor
  · rw [hentries]
    exact h.currency
  · rw [hentries]
    exact h.running
  · rw [hentries]
    exact h.balance
  · exact h.nonneg
  · exact h.le_max
  · rw [hentries]
    exact h.version

/-- A wallet without entries is reconciled as it is opened. -/
theorem Reconciled.opening {id : WalletId} {o : OwnerId} {c : CurrencyCode} {now : Datetime}
    (h : db.entriesOf id.value = []) : Reconciled db (.ofWallet (Wallet.open id o c now)) := by
  have hentries : db.entriesOf (WalletRow.ofWallet (Wallet.open id o c now)).id = [] := h
  have hbalance : (WalletRow.ofWallet (Wallet.open id o c now)).balanceAmount = 0 :=
    Money.cents_zero c
  constructor
  · rw [hentries]
    intro e he
    cases he
  · rw [hentries]
    exact Running.nil
  · rw [hentries, hbalance]
    rfl
  · rw [hbalance]
  · rw [hbalance]
    decide
  · rw [hentries]
    rfl

/-- New ids are new, and a row that is replaced keeps its id. -/
theorem Unique.posts (h : db.Unique) (hposts : db.Posts o db') : db'.Unique := by
  cases hposts with
  | nothing => exact h
  | opening hopen hnew =>
    refine ⟨?_, h.ledger_nodup⟩
    rw [List.map_append, List.map_singleton]
    refine List.nodup_append.mpr ⟨h.wallets_nodup, List.nodup_singleton _, ?_⟩
    intro a ha b hb
    obtain ⟨row, hrow, rfl⟩ := List.mem_map.mp ha
    obtain rfl := List.mem_singleton.mp hb
    exact hnew row hrow
  | movement howner hbooks hrow hshows hshows' hnew =>
    constructor
    · rw [replace_map_id]
      exact h.wallets_nodup
    · rw [List.map_append, List.map_singleton]
      refine List.nodup_append.mpr ⟨h.ledger_nodup, List.nodup_singleton _, ?_⟩
      intro a ha b hb
      obtain ⟨x, hx, rfl⟩ := List.mem_map.mp ha
      obtain rfl := List.mem_singleton.mp hb
      exact hnew x hx

/-- The step lemma of the books. -/
theorem Sound.posts (h : db.Sound) (hposts : db.Posts o db') : db'.Sound := by
  have hunique := h.toUnique.posts hposts
  cases hposts with
  | nothing => exact h
  | @opening wallet hopen hnew =>
    -- opening: the new wallet has no entries, and the others keep theirs
    obtain ⟨id, c, now, rfl⟩ := hopen
    refine ⟨hunique, ?_, ?_⟩
    · intro e he
      obtain ⟨row, hrow, hid⟩ := h.owned e he
      exact ⟨row, List.mem_append_left _ hrow, hid⟩
    · intro row hrow
      rcases List.mem_append.mp hrow with hrow | hrow
      · refine Reconciled.of_entries ?_ (h.reconciled row hrow)
        rfl
      · obtain rfl := List.mem_singleton.mp hrow
        refine Reconciled.opening (List.filter_eq_nil_iff.mpr fun e he => ?_)
        -- an entry of the new wallet would belong to an old row with its id
        obtain ⟨row, hrow, hid⟩ := h.owned e he
        rw [decide_eq_true_iff, ← hid]
        exact hnew row hrow
  | @movement m w w' e row row' howner hbooks hrow hshows hshows' hnew =>
    -- a movement: one entry more for its wallet, and for no other
    have hid : row'.id = row.id := by
      rw [← hshows'.id, hbooks.moved.id, hshows.id]
    have hwallet : (LedgerRow.ofEntry e).walletId = row.id := by
      rw [← hshows.id, ← hbooks.entryWallet]
      rfl
    refine ⟨hunique, ?_, ?_⟩
    · intro x hx
      -- the entry belongs to a wallet that was there, and no wallet went away
      have hold : ∃ y ∈ db.wallets, y.id = x.walletId := by
        rcases List.mem_append.mp hx with hx | hx
        · exact h.owned x hx
        · obtain rfl := List.mem_singleton.mp hx
          exact ⟨row, hrow, hwallet.symm⟩
      obtain ⟨y, hy, hyid⟩ := hold
      have hmem : y.id ∈ (db.replace row').map WalletRow.id := by
        rw [replace_map_id]
        exact List.mem_map_of_mem hy
      obtain ⟨z, hz, hzid⟩ := List.mem_map.mp hmem
      exact ⟨z, hz, hzid.trans hyid⟩
    · intro x hx
      rcases mem_replace hx with ⟨rfl, -⟩ | ⟨hx, hne⟩
      · exact Reconciled.movement hbooks hshows hshows' (h.reconciled row hrow)
      · refine (h.reconciled x hx).of_entries ?_
        rw [entriesOf_append, if_neg]
        rw [hwallet, ← hid]
        exact Ne.symm hne

/-- A database with nothing but a wallet that was just opened. -/
theorem Sound.opened (id : WalletId) (o : OwnerId) (c : CurrencyCode) (now : Datetime)
    (letters : Letters) : Sound ⟨[.ofWallet (Wallet.open id o c now)], [], letters⟩ :=
  (Sound.empty letters).posts (.opening ⟨id, c, now, rfl⟩ (by rintro row ⟨⟩))

/-! ## What a step keeps of a row -/

/-- `db'` has grown out of `db`: rows stay, with their ids, owners and currencies, their
    versions never go down, and a version never stands for two balances. -/
structure Grows (db db' : Database) : Prop where
  wallet : ∀ row ∈ db.wallets, ∃ row' ∈ db'.wallets, row'.id = row.id ∧
    row'.ownerId = row.ownerId ∧ row'.currency = row.currency ∧ row.version ≤ row'.version ∧
    (row'.version = row.version → row' = row)
  entry : ∀ e ∈ db.ledger, e ∈ db'.ledger

theorem Grows.refl (db : Database) : db.Grows db :=
  ⟨fun row hrow => ⟨row, hrow, rfl, rfl, rfl, le_refl _, fun _ => rfl⟩, fun _ he => he⟩

theorem Grows.of_posts (h : db.Unique) (hposts : db.Posts o db') : db.Grows db' := by
  cases hposts with
  | nothing => exact Grows.refl db
  | opening hopen hnew =>
    constructor
    · intro row hrow
      exact ⟨row, List.mem_append_left _ hrow, rfl, rfl, rfl, le_refl _, fun _ => rfl⟩
    · exact fun e he => he
  | @movement m w w' e row row' howner hbooks hrow hshows hshows' hnew =>
    have hid : row'.id = row.id := by
      rw [← hshows'.id, hbooks.moved.id, hshows.id]
    have hversion : row'.version = row.version + 1 := by
      rw [← hshows'.version, hbooks.moved.version, hshows.version]
    constructor
    · intro x hx
      refine ⟨_, mem_replace_of_mem hx, ?_⟩
      -- ids are unique, so the row with this id is the one that was moved
      by_cases hxid : row'.id = x.id
      · obtain rfl := h.row_unique hx hrow (hxid.symm.trans hid)
        rw [if_pos hxid]
        refine ⟨hid, ?_, ?_, by omega, fun heq => by omega⟩
        · rw [← hshows'.ownerId, hbooks.moved.ownerId, hshows.ownerId]
        · rw [← hshows'.currency, hbooks.moved.currency, hshows.currency]
      · rw [if_neg hxid]
        exact ⟨rfl, rfl, rfl, le_refl _, fun _ => rfl⟩
    · intro x hx
      exact List.mem_append_left _ hx

/-- At most one entry is added, at the end. -/
theorem Posts.ledger (hposts : db.Posts o db') :
    db'.ledger = db.ledger ∨ ∃ e, db'.ledger = db.ledger ++ [.ofEntry e] := by
  cases hposts with
  | nothing => exact .inl rfl
  | opening hopen hnew => exact .inl rfl
  | movement howner hbooks hrow hshows hshows' hnew => exact .inr ⟨_, rfl⟩

/-- `w` was read from its row, which has the same balance as long as it has the same
    version. -/
def Snapshot (db : Database) (w : Wallet) : Prop :=
  ∃ row ∈ db.wallets, row.id = w.id.value ∧ w.version ≤ row.version ∧
    (row.version = w.version → row.Shows w)

theorem Snapshot.of_shows {row : WalletRow} {w : Wallet} (hrow : row ∈ db.wallets)
    (hshows : row.Shows w) : db.Snapshot w :=
  ⟨row, hrow, hshows.id.symm, hshows.version.le, fun _ => hshows⟩

theorem Snapshot.grows {w : Wallet} (h : db.Snapshot w) (hgrows : db.Grows db') :
    db'.Snapshot w := by
  obtain ⟨row, hrow, hid, hle, hshows⟩ := h
  obtain ⟨row', hrow', hid', -, -, hle', heq⟩ := hgrows.wallet row hrow
  refine ⟨row', hrow', hid'.trans hid, hle.trans hle', fun hversion => ?_⟩
  have hrowversion : row.version = w.version := le_antisymm (hversion ▸ hle') hle
  rw [heq (hversion.trans hrowversion.symm)]
  exact hshows hrowversion

end Database

end Evenkeel.Infrastructure
