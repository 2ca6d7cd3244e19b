import Evenkeel.Infrastructure.Disclosures
import Evenkeel.Presentation.Tools

/-!
# Tenants Are Isolated

The owner is a parameter of every query and a part of every key, and the one statement that
does not ask for it, the update of a wallet, is only reached through a wallet that was read
under its owner. So the requests of one owner neither change what is another's nor are they
answered with it, whichever ids and keys they name.
-/

namespace Evenkeel.Properties

open Evenkeel.Domain Evenkeel.Application Evenkeel.Effects Evenkeel.Infrastructure
open Evenkeel.Presentation (Readers ToolCall)

/-- An answer that holds nothing of an owner. -/
structure Withholds (o : OwnerId) (db : Database) (a : Answer) : Prop where
  wallets : ∀ id ∈ a.walletIds, ∀ row ∈ db.walletsOf o, row.id ≠ id.value
  entries : ∀ id ∈ a.entryIds, ∀ row ∈ db.ledgerOf o, row.id ≠ id.value
  owners : ∀ w ∈ a.heldWallets, w.ownerId ≠ o

/-- A row has one owner. -/
theorem withholds_of_holds {o other : OwnerId} {db : Database} {a : Answer} (hsound : db.Sound)
    (hholds : Holds o db a) (hother : o ≠ other) : Withholds other db a := by
  have hvalue : o.value ≠ other.value := fun h => hother (OwnerId.ext h)
  have hrow : ∀ {x y : WalletRow}, x ∈ db.wallets → y ∈ db.wallets → x.ownerId = o.value →
      y.ownerId = other.value → y.id ≠ x.id := by
    intro x y hx hy hxo hyo hid
    obtain rfl := hsound.row_unique hy hx hid
    exact hvalue (hxo.symm.trans hyo)
  constructor
  · intro id hid row hmem
    obtain ⟨x, hx, hxid, howner⟩ := hholds.wallets id hid
    obtain ⟨hmem, howner'⟩ := List.mem_filter.mp hmem
    rw [← hxid]
    exact hrow hx hmem howner (of_decide_eq_true howner')
  · intro id hid row hmem heq
    obtain ⟨x, hx, hxid, howns⟩ := hholds.entries id hid
    obtain ⟨hmem, howns'⟩ := List.mem_filter.mp hmem
    obtain rfl := hsound.entry_unique hmem hx (heq.trans hxid.symm)
    -- one entry, whose wallet would be both owners'
    obtain ⟨v, hv, hvid, hvowner⟩ := Database.owns_iff.mp howns
    obtain ⟨v', hv', hvid', hvowner'⟩ := Database.owns_iff.mp howns'
    exact hrow hv hv' hvowner hvowner' (hvid'.trans hvid.symm)
  · intro w hw howner
    exact hother ((hholds.owners w hw).symm.trans howner)

/-- In every run, no step of a request of another owner changes a wallet of `o`, an entry of
    one, or what the store has under a key of `o`, and no answer to such a request holds any. -/
theorem tenants_are_isolated {service : WalletMovementSettings} {settings : MoveMoneySettings}
    {requests : ℕ → Request} {now : Instant} {db : Database} {idempotency : Entries Receipt}
    {t : List (Occurrence Op Resp)} {Q : Pool deployment Exn Answer} {i : ℕ} {o : OwnerId}
    (hsound : db.Sound)
    (hrun : Pool.Run
      (arrivals service settings requests (World.start now db idempotency)) t Q)
    (hother : (requests i).ownerId ≠ o) :
    (∀ occurrence R, Pool.Step Q occurrence R → occurrence.client = some i →
      World.Spares requests o Q.world R.world) ∧
    ∀ a, Q.clients i = .done (.ok a) → Withholds o Q.world.db a := by
  constructor
  · intro occurrence R hstep hclient
    exact spares_of_step hsound hrun hstep hclient hother
  · intro a hanswer
    obtain ⟨hsound', hholds⟩ := answers_own hsound hrun hanswer
    exact withholds_of_holds hsound' hholds hother

/-! Next to a wallet that is there already, another owner opens one and is answered. -/

private def neighbour : OpenWalletCommand := ⟨⟨⟨10, by norm_num⟩⟩, ⟨"EUR"⟩⟩

private def besides : Wallet :=
  Wallet.open ⟨⟨3, by norm_num⟩⟩ neighbour.ownerId neighbour.currency 0

theorem tenants_are_isolated_neighbour :
    ∃ t Q a, Pool.Run (arrivals {} {} (fun _ => .openWallet neighbour)
        (World.start 0 Sample.database fun _ => none)) t Q ∧
      Q.clients 0 = .done (.ok a) ∧ a.walletIds = [besides.id] ∧
      (∀ occurrence R, Pool.Step Q occurrence R → occurrence.client = some 0 →
        World.Spares (fun _ => .openWallet neighbour) Sample.owner Q.world R.world) ∧
      Withholds Sample.owner Q.world.db a := by
  have hrun : ∃ t Q a, Pool.Run (arrivals {} {} (fun _ => .openWallet neighbour)
        (World.start 0 Sample.database fun _ => none)) t Q ∧
      Q.clients 0 = .done (.ok a) ∧ a.walletIds = [besides.id] := by
    have hnew : ∀ row ∈ Sample.database.wallets, row.id ≠ besides.id.value := by decide
    have h₀ := Pool.RunUnder.nil (G := fun _ _ _ _ => True) (P := arrivals {} {}
      (fun _ => .openWallet neighbour) (World.start 0 Sample.database fun _ => none))
    have h₁ := h₀.answer 0 rfl besides.id.value _ (.inl rfl) trivial
    have h₂ := h₁.answer 0 rfl (0 : ℤ) _ (.inl rfl) trivial
    have h₃ := h₂.answer 0 rfl (.ok ()) _
      (.inl ⟨rfl, ⟨hnew, by rintro j row ⟨⟩⟩, rfl⟩) trivial
    have h₄ := h₃.answer 0 rfl (.ok ()) _ (.inl ⟨rfl, rfl⟩) trivial
    have h₅ := h₄.answer 0 rfl () _ (.inl rfl) trivial
    exact ⟨_, _, _, h₅, rfl, rfl⟩
  obtain ⟨t, Q, a, hrun, hanswer, hids⟩ := hrun
  have hother : neighbour.ownerId ≠ Sample.owner := by decide
  obtain ⟨hspares, hwithholds⟩ := tenants_are_isolated (Database.Sound.opened _ _ _ _ _) hrun hother
  exact ⟨t, Q, a, hrun, hanswer, hids, hspares, hwithholds a hanswer⟩

/-! ## Tools -/

/-- Whatever is written in the arguments of tool calls: a run of them changes nothing that is
    another owner's than those of their servers, and answers with nothing of it. -/
theorem tools_act_for_their_owners (readers : Readers) (owners : ℕ → OwnerId)
    (calls : ℕ → ToolCall) {service : WalletMovementSettings} {settings : MoveMoneySettings}
    {requests : ℕ → Request} {now : Instant} {db : Database} {idempotency : Entries Receipt}
    {t : List (Occurrence Op Resp)} {Q : Pool deployment Exn Answer} {o : OwnerId}
    (hsound : db.Sound)
    (hrequests : ∀ i, (calls i).command readers (owners i) = .ok (requests i))
    (hothers : ∀ i, owners i ≠ o)
    (hrun : Pool.Run
      (arrivals service settings requests (World.start now db idempotency)) t Q) :
    World.Spares requests o (World.start now db idempotency) Q.world ∧
      ∀ i a, Q.clients i = .done (.ok a) → Withholds o Q.world.db a := by
  have howner : ∀ i, (requests i).ownerId ≠ o := by
    intro i
    rw [ToolCall.command_ownerId (hrequests i)]
    exact hothers i
  refine ⟨spares_of_run hsound hrun howner, fun i a hanswer => ?_⟩
  obtain ⟨hsound', hholds⟩ := answers_own hsound hrun hanswer
  exact withholds_of_holds hsound' hholds (howner i)

private def asciiReaders : Readers where
  letters := Letters.ascii
  decimal _ := none
  uuid s := if s = Sample.wallet.id.value.str then some Sample.wallet.id.value else none
  repr s := "'" ++ s ++ "'"

/-- A tool of the neighbour is asked for the wallet that is not the neighbour's. -/
theorem tools_act_for_their_owners_neighbour :
    ∃ t Q e, Pool.Run (arrivals {} {} (fun _ => .getWallet ⟨Sample.wallet.id, neighbour.ownerId⟩)
        (World.start 0 Sample.database fun _ => none)) t Q ∧ Q.clients 0 = .done (.error e) ∧
      Q.world.db.walletsOf Sample.owner = Sample.database.walletsOf Sample.owner := by
  have h := Pool.RunUnder.nil (G := fun _ _ _ _ => True) (P := arrivals {} {}
    (fun _ => .getWallet ⟨Sample.wallet.id, neighbour.ownerId⟩)
    (World.start 0 Sample.database fun _ => none))
  have h := h.answer 0 rfl (.ok none) _ (.inl ⟨rfl, rfl⟩) trivial
  have h := h.answer 0 rfl () _ (.inl rfl) trivial
  have hcommand : ToolCall.command asciiReaders neighbour.ownerId
      (.getWallet Sample.wallet.id.value.str) =
        .ok (.getWallet ⟨Sample.wallet.id, neighbour.ownerId⟩) := by
    simp [ToolCall.command, Presentation.toolWalletId, asciiReaders]
  have hspares := (tools_act_for_their_owners asciiReaders (fun _ => neighbour.ownerId)
    (fun _ => .getWallet Sample.wallet.id.value.str) (o := Sample.owner)
    (Database.Sound.opened _ _ _ _ _) (fun _ => hcommand) (fun _ => by decide) h).1
  exact ⟨_, _, _, h, rfl, hspares.wallets⟩

end Evenkeel.Properties
