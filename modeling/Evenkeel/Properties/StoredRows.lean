import Evenkeel.Infrastructure.StoredRows

/-!
# Stored Rows

Whatever a run has stored can be read again.
-/

namespace Evenkeel.Properties

open Evenkeel.Domain Evenkeel.Application Evenkeel.Effects Evenkeel.Infrastructure

/-- The tables pass their own constraints, and the repositories can read everything in them. -/
structure Readable (db : Database) : Prop where
  wallets : ∀ row ∈ db.wallets, row.Constrained ∧ row.Loads db.letters
  ledger : ∀ e ∈ db.ledger, e.Constrained ∧ e.Loads db.letters
  readWallet : ∀ walletId ownerId, ∃ found, db.readWallet walletId ownerId = .ok found
  readEntry : ∀ entryId ownerId, ∃ found, db.readEntry entryId ownerId = .ok found
  listByOwner : ∀ ownerId limit cursor e,
    db.listByOwner ownerId limit cursor = .error e ↔ decodeCursor cursor = .error e
  listByWallet : ∀ walletId ownerId limit cursor e,
    db.listByWallet walletId ownerId limit cursor = .error e ↔ decodeCursor cursor = .error e

/-- The domain accepts no other rows than those that fit. -/
theorem readable_iff {db : Database} : Readable db ↔ db.Fits := by
  constructor
  · intro h
    refine ⟨fun row hrow => WalletRow.loads_iff.mp (h.wallets row hrow).2, fun e he => ?_⟩
    obtain ⟨hconstrained, hloads⟩ := h.ledger e he
    exact LedgerRow.fits_iff.mpr ⟨hloads, hconstrained.positive⟩
  · intro h
    exact
      { wallets := fun row hrow => ⟨(h.wallets row hrow).toConstrained, (h.wallets row hrow).loads⟩
        ledger := fun e he => ⟨(h.ledger e he).toConstrained, (h.ledger e he).loads⟩
        readWallet := h.readWallet
        readEntry := h.readEntry
        listByOwner := h.listByOwner
        listByWallet := h.listByWallet }

section

variable {service : WalletMovementSettings} {settings : MoveMoneySettings}
  {requests : ℕ → Request} {now : Instant} {db : Database} {idempotency : Entries Receipt}
  {t : List (Occurrence Op Resp)} {Q : Pool deployment Exn Answer}

/-- A currency code that is stored was there before, or a request to open a wallet names it. -/
theorem currency_of_run {code : String → Prop} (hdb : db.Rows (fun row => code row.currency)
    (fun e => code e.currency))
    (hrequests : ∀ i c, requests i = .openWallet c → code c.currency.value)
    (hrun : Pool.Run (arrivals service settings requests (World.start now db idempotency)) t Q) :
    Q.world.Rows (fun row => code row.currency) fun e => code e.currency := by
  refine (rows_of_run hdb ?_ hrun).2
  constructor
  · intro i c w hc hcurrency
    show code w.balance.currency.value
    rw [hcurrency]
    exact hrequests i c hc
  · intro row m w w' e createdAt hrow hload hbooks
    show code w'.balance.currency.value
    rw [hbooks.moved.currency, (WalletRow.toEntity_ok hload).currency]
    exact hrow
  · intro row m w w' e hrow hload hbooks
    show code e.amount.currency.value
    rw [hbooks.amount, hbooks.moved.amount_currency, (WalletRow.toEntity_ok hload).currency]
    exact hrow

/-- Whatever the requests, their order and their failures, and whatever the tables of Unicode:
    every row that is in the tables, or that a transaction has written, passes the constraints of
    its table, is loaded by its repository and comes back as it was stored, if the rows that were
    there at the start do. So a query is refused for its cursor only. The currency codes are
    those of the rows at the start and of the requests that open wallets. -/
theorem stored_rows_load (hreadable : Readable db) (hcodes : ∀ i, Coded db.letters (requests i))
    (hrun : Pool.Run (arrivals service settings requests (World.start now db idempotency)) t Q) :
    (∀ i, Readable (Q.world.view i)) ∧ Readable Q.world.db ∧
      ∀ code : String → Prop,
        db.Rows (fun row => code row.currency) (fun e => code e.currency) →
        (∀ i c, requests i = .openWallet c → code c.currency.value) →
        Q.world.Rows (fun row => code row.currency) fun e => code e.currency := by
  obtain ⟨hdb, hview⟩ := fits_of_run (readable_iff.mp hreadable) hcodes hrun
  exact ⟨fun i => readable_iff.mpr (hview i), readable_iff.mpr hdb,
    fun code hrows hrequests => currency_of_run hrows hrequests hrun⟩

end

/-- The table would take this row, and no repository loads it. -/
example :
    ({ WalletRow.ofWallet Sample.wallet with currency := "eur" } : WalletRow).toEntity .ascii =
      domainCall (refuse .currencyCodeInvalid [("value", "eur")]) :=
  WalletRow.toEntity_of_invalid (by decide)

/-- The entry of a deposit can be read as soon as it is committed. -/
theorem stored_rows_load_deposit : ∃ Q : Pool deployment Exn Answer,
    Q.world.view 1 =
        ⟨[.ofWallet Sample.credited], [.ofEntry (Sample.entry Sample.minted)], .ascii⟩ ∧
      Readable (Q.world.view 1) := by
  obtain ⟨t, Q, out, hrun, -, -, -, -, hview, -⟩ := Sample.run_deposit
  refine ⟨Q, hview, (stored_rows_load (readable_iff.mpr ⟨?_, ?_⟩) ?_ hrun).1 1⟩
  · intro row hrow
    obtain rfl := List.mem_singleton.mp hrow
    exact WalletRow.ofWallet_fits (w := Sample.wallet) (by decide) 0
  · intro e he
    cases he
  · intro i
    unfold Sample.visitors
    split_ifs <;> trivial

end Evenkeel.Properties
