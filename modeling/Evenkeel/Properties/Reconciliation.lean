import Evenkeel.Infrastructure.Sessions

/-!
# The Ledger and the Balances Reconcile

Whatever requests arrive and however their operations interleave and fail, the committed
tables agree with each other. The lock plays no part in it, and neither does
`SELECT … FOR UPDATE`: the version in the `WHERE` clause of the update is enough.
-/

namespace Evenkeel.Properties

open Evenkeel.Domain Evenkeel.Application Evenkeel.Effects Evenkeel.Infrastructure

/-- In every reachable database, every wallet is reconciled with its ledger entries. -/
theorem ledger_reconciles {service : WalletMovementSettings} {settings : MoveMoneySettings}
    {requests : ℕ → Request} {now : Instant} {letters : Letters}
    {idempotency : Entries Receipt} {t : List (Occurrence Op Resp)}
    {Q : Pool deployment Exn Answer}
    (hrun : Pool.Run
      (arrivals service settings requests (World.start now { letters } idempotency)) t Q) :
    ∀ wallet ∈ Q.world.db.wallets, Q.world.db.Reconciled wallet := by
  obtain ⟨g, hinv, -⟩ := tracked_of_run (Database.Sound.empty letters) hrun
  exact hinv.sound.reconciled

/-! A run on empty tables: the first request opens a wallet, and the next two deposit a euro
each, one after the other. -/

private def customers : ℕ → Request
  | 0 => .openWallet ⟨Sample.owner, ⟨"EUR"⟩⟩
  | _ + 1 => .apply (Sample.deposit none)

theorem ledger_reconciles_deposits :
    ∃ t Q, Pool.Run
        (arrivals {} {} customers (World.start 0 { letters := .ascii } fun _ => none)) t Q ∧
      Q.world.db.wallets = [.ofWallet Sample.twiceCredited] ∧
      Q.world.db.ledger.map LedgerRow.id = [Sample.minted, Sample.mintedNext] ∧
      ∀ wallet ∈ Q.world.db.wallets, Q.world.db.Reconciled wallet := by
  have hrun : ∃ t Q, Pool.Run
      (arrivals {} {} customers (World.start 0 { letters := .ascii } fun _ => none)) t Q ∧
      Q.world.db.wallets = [.ofWallet Sample.twiceCredited] ∧
      Q.world.db.ledger.map LedgerRow.id = [Sample.minted, Sample.mintedNext] := by
    have h := Pool.RunUnder.nil (G := fun _ _ _ _ => True)
      (P := arrivals {} {} customers (World.start 0 { letters := .ascii } fun _ => none))
    -- the wallet: mint an id, read the clock, insert, commit
    have h := h.answer 0 rfl Sample.wallet.id.value _ (.inl rfl) trivial
    have h := h.answer 0 rfl (0 : ℤ) _ (.inl rfl) trivial
    have h := h.answer 0 rfl (.ok ()) _
      (.inl ⟨rfl, ⟨by rintro row ⟨⟩, by rintro j row ⟨⟩⟩, rfl⟩) trivial
    have h := h.answer 0 rfl (.ok ()) _ (.inl ⟨rfl, rfl⟩) trivial
    -- the first deposit, from the acquisition of the lock to its release
    have h := h.answer 1 rfl (.ok true) _ (.inl (.inl ⟨rfl, rfl⟩)) trivial
    have h := h.answer 1 rfl () _ (.inl rfl) trivial
    have h := h.answer 1 rfl (.ok (some Sample.wallet)) _ (.inl ⟨rfl, rfl⟩) trivial
    have h := h.answer 1 rfl (0 : ℤ) _ (.inl rfl) trivial
    have h := h.answer 1 rfl Sample.minted _ (.inl rfl) trivial
    have h := h.answer 1 rfl (.ok ()) _ (.inl ⟨rfl, World.newEntryId_of_blank (by rintro row ⟨⟩)
      (by rintro (_ | _ | j) <;> rfl), rfl⟩) trivial
    have h := h.answer 1 rfl (.ok true) _ (.inl (.inl ⟨rfl, World.free_of_blank
      (by rintro (_ | _ | j) hj; exacts [rfl, absurd rfl hj, rfl]), .ofWallet Sample.wallet,
      List.mem_singleton_self _, ⟨rfl, rfl⟩, rfl⟩)) trivial
    have h := h.answer 1 rfl (.ok ()) _ (.inl ⟨rfl, rfl⟩) trivial
    have h := h.answer 1 rfl (.ok ()) _ (.inl ⟨rfl, rfl⟩) trivial
    -- and the second, on the wallet that the first one left
    have h := h.answer 2 rfl (.ok true) _ (.inl (.inl ⟨rfl, rfl⟩)) trivial
    have h := h.answer 2 rfl () _ (.inl rfl) trivial
    have h := h.answer 2 rfl (.ok (some Sample.credited)) _ (.inl ⟨rfl, rfl⟩) trivial
    have h := h.answer 2 rfl (0 : ℤ) _ (.inl rfl) trivial
    have h := h.answer 2 rfl Sample.mintedNext _ (.inl rfl) trivial
    have h := h.answer 2 rfl (.ok ()) _ (.inl ⟨rfl, World.newEntryId_of_blank
      (by intro row hrow; obtain rfl := List.mem_singleton.mp hrow; decide)
      (by rintro (_ | _ | _ | j) <;> rfl), rfl⟩) trivial
    have h := h.answer 2 rfl (.ok true) _ (.inl (.inl ⟨rfl, World.free_of_blank
      (by rintro (_ | _ | _ | j) hj; exacts [rfl, rfl, absurd rfl hj, rfl]),
      .ofWallet Sample.credited, List.mem_singleton_self _, ⟨rfl, rfl⟩, rfl⟩)) trivial
    have h := h.answer 2 rfl (.ok ()) _ (.inl ⟨rfl, rfl⟩) trivial
    have h := h.answer 2 rfl (.ok ()) _ (.inl ⟨rfl, rfl⟩) trivial
    exact ⟨_, _, h, rfl, rfl⟩
  obtain ⟨t, Q, hrun, hwallets, hledger⟩ := hrun
  exact ⟨t, Q, hrun, hwallets, hledger, ledger_reconciles hrun⟩

end Evenkeel.Properties
