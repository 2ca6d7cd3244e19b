import Evenkeel.Accounting.Bank
import Evenkeel.Infrastructure.Sessions

/-!
# The Tables as a Bank

The two tables, seen as a bank: a row of `wallets` is an account, and `ledger_entries` is the
journal. What a request commits is then one deed of the bank, under all of the bank's rules.

- `Database.bank`: the bank that sound tables stand for
- `bookingOf`, `Asks`: the deed of a movement, and the deeds a request asks for

## Key Results

- `Database.bank_opening`, `Database.bank_movement`: a commit performs a deed
-/

namespace Evenkeel.Infrastructure

open Evenkeel.Domain Evenkeel.Application Evenkeel.Accounting

abbrev WalletBank := Bank UUID UUID String ℤ

abbrev WalletDeed := Deed UUID UUID String ℤ

/-- The account a row stands for. -/
def WalletRow.account (row : WalletRow) (h : 0 ≤ row.balanceAmount) : Account UUID String ℤ :=
  ⟨row.ownerId, row.currency, row.balanceAmount, h⟩

/-- What a ledger row posts, and to which wallet. -/
def LedgerRow.posting (e : LedgerRow) : UUID × ℤ := (e.walletId, e.signedAmount)

/-- The deed of a movement. -/
def bookingOf (m : MovementRequest) : WalletDeed :=
  .posts m.walletId.value m.ownerId.value m.amount.currency.value
    (m.direction.signed m.amount.cents)

/-- What a request asks of the bank: the one account that it opens, under whatever id, or the
    one amount that it moves. -/
inductive Asks (r : Request) : WalletDeed → Prop where
  | opening {c : OpenWalletCommand} (id : UUID) (h : r = .openWallet c) :
      Asks r (.opens id c.ownerId.value c.currency.value)
  | booking {m : MovementRequest} (h : r.movement = some m) : Asks r (bookingOf m)

namespace Database

variable {db db' : Database} {row : WalletRow} {id : UUID}

theorem posted_eq_closing (h : Reconciled db row) :
    posted row.id (db.ledger.map LedgerRow.posting) = row.balanceAmount := by
  rw [h.balance, h.running.closing_eq, posted, List.filter_map, List.map_map]
  rfl

/-- The bank behind the tables. -/
def bank (db : Database) (h : db.Sound) : WalletBank where
  accounts id :=
    match hfind : db.wallets.find? (·.id = id) with
    | none => none
    | some row => some (row.account (h.reconciled row (List.mem_of_find?_eq_some hfind)).nonneg)
  journal := db.ledger.map LedgerRow.posting
  balanced := by
    intro id a ha
    split at ha
    · cases ha
    · rename_i row hfind
      obtain rfl := Option.some.inj ha
      obtain rfl : row.id = id := by simpa using List.find?_some hfind
      exact (posted_eq_closing (h.reconciled row (List.mem_of_find?_eq_some hfind))).symm
  booked := by
    intro p hp
    obtain ⟨e, he, rfl⟩ := List.mem_map.mp hp
    obtain ⟨row, hrow, hid⟩ := h.owned e he
    split
    · rename_i hnone
      have hne := List.find?_eq_none.mp hnone row hrow
      simp [hid, LedgerRow.posting] at hne
    · exact Option.some_ne_none _

@[simp] theorem bank_journal (h : db.Sound) :
    (db.bank h).journal = db.ledger.map LedgerRow.posting := rfl

theorem bank_account_some (h : db.Sound) (hrow : row ∈ db.wallets) :
    (db.bank h).accounts row.id = some (row.account (h.reconciled row hrow).nonneg) := by
  simp only [bank]
  split
  · rename_i hnone
    have hne := List.find?_eq_none.mp hnone row hrow
    simp at hne
  · rename_i row' hfind
    have hid : row'.id = row.id := by simpa using List.find?_some hfind
    obtain rfl := h.row_unique (List.mem_of_find?_eq_some hfind) hrow hid
    rfl

theorem bank_account_none (h : db.Sound) (hnew : ∀ row ∈ db.wallets, row.id ≠ id) :
    (db.bank h).accounts id = none := by
  simp only [bank]
  split
  · rfl
  · rename_i row hfind
    exact absurd (by simpa using List.find?_some hfind)
      (hnew row (List.mem_of_find?_eq_some hfind))

/-- Where the rows are the same, the account is. -/
theorem bank_account_congr {h : db.Sound} {h' : db'.Sound}
    (hsame : ∀ row, row.id = id → (row ∈ db'.wallets ↔ row ∈ db.wallets)) :
    (db'.bank h').accounts id = (db.bank h).accounts id := by
  by_cases hex : ∃ row ∈ db.wallets, row.id = id
  · obtain ⟨row, hrow, rfl⟩ := hex
    rw [bank_account_some h hrow, bank_account_some h' ((hsame row rfl).mpr hrow)]
  · have hnew : ∀ row ∈ db.wallets, row.id ≠ id := by
      intro row hrow hid
      exact hex ⟨row, hrow, hid⟩
    rw [bank_account_none h hnew, bank_account_none h']
    intro row hrow hid
    exact hnew row ((hsame row hid).mp hrow) hid

/-! ## A commit is a deed -/

/-- A wallet that is opened is an account that is opened. -/
theorem bank_opening {walletId : WalletId} {o : OwnerId} {c : CurrencyCode} {now : Datetime}
    (h : db.Sound) (hnew : ∀ row ∈ db.wallets, row.id ≠ walletId.value)
    (h' : Sound { db with wallets := db.wallets ++ [.ofWallet (Wallet.open walletId o c now)] }) :
    (db.bank h).perform moneyMaxCents (.opens walletId.value o.value c.value) =
      some (bank _ h') := by
  rw [Bank.perform_opens _ _ (bank_account_none h hnew)]
  refine congrArg some (Bank.ext_of_data ?_ rfl)
  funext id
  -- the new account, and the others as they were
  by_cases hid : id = walletId.value
  · subst hid
    have hmem : WalletRow.ofWallet (Wallet.open walletId o c now) ∈
        db.wallets ++ [.ofWallet (Wallet.open walletId o c now)] :=
      List.mem_append_right _ (List.mem_singleton_self _)
    refine Eq.trans ?_ (bank_account_some h' hmem).symm
    refine (Function.update_self ..).trans (congrArg some (Account.ext rfl rfl ?_))
    exact (Money.cents_zero c).symm
  · refine (Function.update_of_ne hid _ _).trans (Eq.symm (bank_account_congr ?_))
    intro row hrow
    have hne : row ≠ .ofWallet (Wallet.open walletId o c now) := by
      rintro rfl
      exact hid hrow.symm
    simp [hne]

/-- A movement that is booked is an amount that is posted. -/
theorem bank_movement {m : MovementRequest} {w w' : Wallet} {e : LedgerEntry}
    {row row' : WalletRow} (h : db.Sound) (hbooks : Books m w w' e) (hrow : row ∈ db.wallets)
    (hshows : row.Shows w) (hshows' : row'.Shows w')
    (h' : Sound ⟨db.replace row', db.ledger ++ [.ofEntry e], db.letters⟩) :
    (db.bank h).perform moneyMaxCents (bookingOf m) = some (bank _ h') := by
  -- wallet, row and request name the same account, holder and currency
  have hid : row.id = m.walletId.value := by
    rw [← hshows.id, hbooks.walletId]
  have howner : row.ownerId = m.ownerId.value := by
    rw [← hshows.ownerId, hbooks.ownerId]
  have hcurrency : row.currency = m.amount.currency.value := by
    rw [← hshows.currency, hbooks.moved.amount_currency]
  have hid' : row'.id = row.id := by
    rw [← hshows'.id, hbooks.moved.id, hshows.id]
  have hafter : row'.balanceAmount = row.balanceAmount + m.direction.signed m.amount.cents := by
    rw [← hshows'.balance, hbooks.moved.balance, hshows.balance]
  have hmem : row' ∈ db.replace row' := by
    have hreplaced : (if row'.id = row.id then row' else row) ∈ db.replace row' :=
      mem_replace_of_mem hrow
    rwa [if_pos hid'] at hreplaced
  -- the row that was written is one that can be read back, so the balance is in range
  have hnonneg := (h'.reconciled row' hmem).nonneg
  have hle := (h'.reconciled row' hmem).le_max
  rw [hafter] at hnonneg hle
  rw [bookingOf, ← hid, ← howner, ← hcurrency]
  refine (Bank.perform_posts (bank_account_some h hrow) hnonneg hle).trans
    (congrArg some (Bank.ext_of_data ?_ ?_))
  · -- the accounts
    funext id
    by_cases heq : id = row.id
    · subst heq
      refine (Function.update_self ..).trans (Eq.trans ?_ (hid' ▸ bank_account_some h' hmem).symm)
      refine congrArg some (Account.ext ?_ ?_ hafter.symm)
      · show row.ownerId = row'.ownerId
        rw [← hshows.ownerId, ← hshows'.ownerId, hbooks.moved.ownerId]
      · show row.currency = row'.currency
        rw [← hshows.currency, ← hshows'.currency, hbooks.moved.currency]
    · refine (Function.update_of_ne heq _ _).trans (Eq.symm (bank_account_congr ?_))
      intro x hx
      have hne : row'.id ≠ x.id := by
        rw [hid', hx]
        exact Ne.symm heq
      constructor
      · intro hxmem
        rcases mem_replace hxmem with ⟨rfl, -⟩ | ⟨hold, -⟩
        · exact absurd rfl hne
        · exact hold
      · intro hxmem
        have hreplaced : (if row'.id = x.id then row' else x) ∈ db.replace row' :=
          mem_replace_of_mem hxmem
        rwa [if_neg hne] at hreplaced
  · -- the journal
    show _ = (db.ledger ++ [LedgerRow.ofEntry e]).map LedgerRow.posting
    rw [List.map_append, List.map_singleton]
    refine congrArg (fun p => db.ledger.map LedgerRow.posting ++ [p]) (Prod.ext ?_ ?_)
    · show row.id = e.walletId.value
      rw [hid, hbooks.entryWallet, hbooks.walletId]
    · show _ = (LedgerRow.ofEntry e).signedAmount
      rw [signedAmount_ofEntry, hbooks.direction, hbooks.amount]

end Database

end Evenkeel.Infrastructure
