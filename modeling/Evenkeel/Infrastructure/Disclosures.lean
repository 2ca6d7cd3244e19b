import Evenkeel.Application.Sights
import Evenkeel.Infrastructure.Tenancy

/-!
# Disclosures

What a request has seen is its owner's: every query asks for the rows of an owner, and whatever
a request writes itself it writes for its own.

- `Known`: what was seen is an owner's, in the committed tables
- `Sighted`: that it is, for every request, over what the sessions keep track of

## Key Results

- `Sighted.answered`: every operation a request may perform keeps it so
- `answers_own`: so a request is answered with rows of its owner only
-/

namespace Evenkeel.Infrastructure

open Evenkeel.Domain Evenkeel.Application Evenkeel.Effects

/-! ## What is known -/

/-- What was seen are rows of the owner. -/
structure Known (o : OwnerId) (db : Database) (s : Sight) : Prop where
  wallets : ∀ id ∈ s.wallets, ∃ row ∈ db.wallets, row.id = id.value ∧ row.ownerId = o.value
  entries : ∀ id ∈ s.entries, ∃ row ∈ db.ledger, row.id = id.value ∧ db.owns o row = true

section

variable {db db' : Database} {o : OwnerId} {s s' : Sight}

theorem Database.Grows.owns (h : db.Grows db') {row : LedgerRow} (hrow : db.owns o row = true) :
    db'.owns o row = true := by
  obtain ⟨x, hx, hid, howner⟩ := Database.owns_iff.mp hrow
  obtain ⟨x', hx', hid', howner', -⟩ := h.wallet x hx
  exact Database.owns_iff.mpr ⟨x', hx', hid'.trans hid, howner'.trans howner⟩

/-- Rows stay, and so do their owners. -/
theorem Known.grows (h : Known o db s) (hgrows : db.Grows db') : Known o db' s := by
  constructor
  · intro id hid
    obtain ⟨row, hrow, hrowId, howner⟩ := h.wallets id hid
    obtain ⟨row', hrow', hid', howner', -⟩ := hgrows.wallet row hrow
    exact ⟨row', hrow', hid'.trans hrowId, howner'.trans howner⟩
  · intro id hid
    obtain ⟨row, hrow, hrowId, howns⟩ := h.entries id hid
    exact ⟨row, hgrows.entry row hrow, hrowId, hgrows.owns howns⟩

/-- More of the owner's rows are seen. -/
theorem Known.see (h : Known o db s) (ws : List WalletId) (es : List LedgerEntryId)
    (hwallets : s'.wallets = ws ++ s.wallets) (hentries : s'.entries = es ++ s.entries)
    (hws : ∀ id ∈ ws, ∃ row ∈ db.wallets, row.id = id.value ∧ row.ownerId = o.value)
    (hes : ∀ id ∈ es, ∃ row ∈ db.ledger, row.id = id.value ∧ db.owns o row = true) :
    Known o db s' := by
  constructor
  · intro id hid
    rw [hwallets] at hid
    rcases List.mem_append.mp hid with hnew | hold
    · exact hws id hnew
    · exact h.wallets id hold
  · intro id hid
    rw [hentries] at hid
    rcases List.mem_append.mp hid with hnew | hold
    · exact hes id hnew
    · exact h.entries id hold

/-- An owned entry is an entry of a wallet that is the owner's. -/
theorem exists_wallet_of_owns {row : LedgerRow} {e : LedgerEntry} (hshows : row.Shows e)
    (howns : db.owns o row = true) :
    ∃ x ∈ db.wallets, x.id = e.walletId.value ∧ x.ownerId = o.value := by
  obtain ⟨x, hx, hid, howner⟩ := Database.owns_iff.mp howns
  exact ⟨x, hx, hid.trans hshows.walletId.symm, howner⟩

end

/-! ## Every step -/

/-- Every request knows rows of its owner only, and its session holds what it has written. -/
structure Sighted (requests : ℕ → Request) (t : List (Occurrence Op Resp)) (w : World)
    (g : ℕ → Call × Sight) : Prop where
  tracked : Tracked requests t w fun i => (g i).1
  known : ∀ i, Known (requests i).ownerId w.db (g i).2
  pends : ∀ i, (g i).1.session.Pends (g i).2
  unwritten : ∀ i, (g i).2.wrote = false → (g i).1.session.Clean

section

variable {service : WalletMovementSettings} {settings : MoveMoneySettings}
  {requests : ℕ → Request} {t : List (Occurrence Op Resp)} {w w' : World}
  {g : ℕ → Call × Sight} {i : ℕ} {o : OwnerId} {op : Op} {x : Resp op}

/-- Before it has written anything a request sees the committed tables. -/
theorem Sighted.view (h : Sighted requests t w g) (hopen : .closed i ∉ t)
    (hclean : (g i).1.session.Clean) : w.view i = w.db :=
  Database.apply_blank (Database.writes_of_clean (h.tracked.tracks i hopen) hclean)

/-- A commit shows a request its own writes. -/
theorem Sighted.known_commit (h : Sighted requests t w g) (hopen : .closed i ∉ t)
    (hready : (g i).1.session.Ready) (hgrows : w.db.Grows (w.view i)) :
    Known (requests i).ownerId (w.view i) ((g i).2.next .commit (.ok ())) := by
  have hpends := h.pends i
  have htracks := h.tracked.tracks i hopen
  refine ((h.known i).grows hgrows).see (g i).2.newWallets (g i).2.newEntries rfl rfl ?_ ?_
  -- once for the wallets and once for the entries
  all_goals
    intro id hid
    cases hs : (g i).1.session with
    | opened wallet =>
      rw [hs] at hpends htracks
      obtain ⟨hwallets, hentries⟩ := hpends
      obtain ⟨-, hwrites, c, u, now, rfl⟩ := htracks
      first
        | -- the wallet that was opened
          rw [hwallets] at hid
          obtain rfl := List.mem_singleton.mp hid
          have hview : w.view i = _ := Database.apply_insert hwrites
          rw [hview]
          exact ⟨_, List.mem_append_right _ (List.mem_singleton_self _), rfl, rfl⟩
        | rw [hentries] at hid
          cases hid
    | updated wallet moved e =>
      rw [hs] at hpends htracks
      obtain ⟨hwallets, hentries⟩ := hpends
      obtain ⟨m, row, row', hm, hbooks, hrow, hshows, -, hwrites⟩ := htracks
      first
        | -- the entry that was recorded, for a wallet that was the owner's before
          rw [hentries] at hid
          obtain rfl := List.mem_singleton.mp hid
          have hview : w.view i = _ := Database.apply_update hwrites
          refine ⟨.ofEntry e, ?_, rfl, hgrows.owns (Database.owns_iff.mpr ⟨row, hrow, ?_, ?_⟩)⟩
          · rw [hview]
            exact List.mem_append_right _ (List.mem_singleton_self _)
          · rw [← hshows.id, ← hbooks.entryWallet]
            rfl
          · rw [← hshows.ownerId, hbooks.ownerId, Request.ownerId_of_movement hm]
        | rw [hwallets] at hid
          cases hid
    | _ =>
      rw [hs] at hready
      exact hready.elim

/-- What an answer shows a request is its owner's. -/
theorem Sighted.known_answered (h : Sighted requests t w g) (hopen : .closed i ∉ t)
    (hallow : (g i).1.allows service (requests i) op) (hsees : sighting.allowed (g i).2 op)
    (hans : w.Answers i op x w') :
    Known (requests i).ownerId w'.db ((g i).2.next op x) := by
  have hgrows : w.db.Grows w'.db := .of_posts h.tracked.unique (h.tracked.posts hopen hallow hans)
  have hold := (h.known i).grows hgrows
  -- the commit, by which the session's own writes come into sight
  by_cases hcommit : op = .commit
  · subst hcommit
    rcases hans with ⟨rfl, rfl⟩ | ⟨⟨e, he⟩, -⟩
    · exact h.known_commit hopen hallow.1 hgrows
    · obtain rfl := eq_error_of_failure he
      exact ⟨hold.wallets, hold.entries⟩
  -- nothing else changes the tables; what is read is read from them
  have hdb := (hans.tables hcommit).1
  rw [hdb] at hold ⊢
  cases op with
  | readWallet id o f =>
    -- a clean session sees the committed rows
    obtain ⟨hclean, rfl, -⟩ := hallow
    rcases hans with ⟨rfl, -⟩ | ⟨⟨e, he⟩, -⟩
    · rw [h.view hopen hclean]
      rcases hread : w.db.readWallet id (requests i).ownerId with e | (_ | wallet)
      · exact hold
      · exact hold
      · obtain ⟨row, hrow, hshows, -, howner⟩ := Database.readWallet_some hread
        refine hold.see [wallet.id] [] rfl rfl ?_ ?_
        · intro id' hid'
          obtain rfl := List.mem_singleton.mp hid'
          exact ⟨row, hrow, hshows.id.symm, by rw [← hshows.ownerId, howner]⟩
        · exact fun _ hid' => nomatch hid'
    · obtain rfl := eq_error_of_failure he
      exact hold
  | listByOwner o limit cursor =>
    obtain rfl : o = (requests i).ownerId := hallow
    rcases hans with ⟨rfl, -⟩ | ⟨⟨e, he⟩, -⟩
    · -- so does one that has written nothing
      rw [h.view hopen (h.unwritten i hsees)]
      rcases hlist : w.db.listByOwner (requests i).ownerId limit cursor with e | page
      · exact hold
      · refine hold.see (page.items.map (·.id)) [] rfl rfl ?_ ?_
        · intro id' hid'
          obtain ⟨wallet, hwallet, rfl⟩ := List.mem_map.mp hid'
          obtain ⟨row, hrow, hshows, howner⟩ := Database.listByOwner_mem hlist hwallet
          exact ⟨row, hrow, hshows.id.symm, howner⟩
        · exact fun _ hid' => nomatch hid'
    · obtain rfl := eq_error_of_failure he
      exact hold
  | readEntry id o =>
    obtain ⟨hclean, rfl, -⟩ := hallow
    rcases hans with ⟨rfl, -⟩ | ⟨⟨e, he⟩, -⟩
    · rw [h.view hopen hclean]
      rcases hread : w.db.readEntry id (requests i).ownerId with e | (_ | entry)
      · exact hold
      · exact hold
      · obtain ⟨row, hrow, hshows, -, howns⟩ := Database.readEntry_some hread
        -- the entry, and the wallet it belongs to, which is the owner's by the join
        refine hold.see [entry.walletId] [entry.id] rfl rfl ?_ ?_
        · intro id' hid'
          obtain rfl := List.mem_singleton.mp hid'
          exact exists_wallet_of_owns hshows howns
        · intro id' hid'
          obtain rfl := List.mem_singleton.mp hid'
          exact ⟨row, hrow, hshows.id.symm, howns⟩
    · obtain rfl := eq_error_of_failure he
      exact hold
  | listByWallet id o limit cursor =>
    -- the wallet was loaded first, and the session is clean since
    obtain ⟨rfl, wallet, hloaded, -⟩ := hallow
    rcases hans with ⟨rfl, -⟩ | ⟨⟨e, he⟩, -⟩
    · rw [h.view hopen (by rw [hloaded]; trivial)]
      rcases hlist : w.db.listByWallet id (requests i).ownerId limit cursor with e | page
      · exact hold
      · refine hold.see (page.items.map (·.walletId)) (page.items.map (·.id)) rfl rfl ?_ ?_
        · intro id' hid'
          obtain ⟨entry, hentry, rfl⟩ := List.mem_map.mp hid'
          obtain ⟨row, -, hshows, -, howns⟩ := Database.listByWallet_mem hlist hentry
          exact exists_wallet_of_owns hshows howns
        · intro id' hid'
          obtain ⟨entry, hentry, rfl⟩ := List.mem_map.mp hid'
          obtain ⟨row, hrow, hshows, -, howns⟩ := Database.listByWallet_mem hlist hentry
          exact ⟨row, hrow, hshows.id.symm, howns⟩
    · obtain rfl := eq_error_of_failure he
      exact hold
  | commit => exact absurd rfl hcommit
  -- writes and rollbacks show nothing
  | rollback => exact ⟨hold.wallets, hold.entries⟩
  | addWallet wallet => cases x <;> exact ⟨hold.wallets, hold.entries⟩
  | addEntry entry => cases x <;> exact ⟨hold.wallets, hold.entries⟩
  | updateWallet wallet version => exact ⟨hold.wallets, hold.entries⟩
  | _ => exact hold

/-- A step of one request, and what the others know of it. -/
theorem Sighted.step {occurrence : Occurrence Op Resp} {c : Call} {s : Sight}
    (h : Sighted requests t w g)
    (htracked : Tracked requests (t ++ [occurrence]) w'
      (Function.update (fun j => (g j).1) i c))
    (hgrows : w.db.Grows w'.db) (hknown : Known (requests i).ownerId w'.db s)
    (hpends : c.session.Pends s) (hwritten : s.wrote = false → c.session.Clean) :
    Sighted requests (t ++ [occurrence]) w' (Function.update g i (c, s)) := by
  have hcalls : (fun j => (Function.update g i (c, s) j).1) =
      Function.update (fun j => (g j).1) i c := by
    funext j
    by_cases hji : j = i
    · subst hji
      simp
    · simp [Function.update_of_ne hji]
  constructor
  · rw [hcalls]
    exact htracked
  all_goals
    -- the request itself, and the others, for whom the tables have only grown
    intro j
    by_cases hji : j = i
    · subst hji
      rw [Function.update_self]
      assumption
    · rw [Function.update_of_ne hji]
      first
        | exact (h.known j).grows hgrows
        | exact h.pends j
        | exact h.unwritten j

/-- The step lemma: an operation the protocol allows, however it is answered. -/
theorem Sighted.answered {occurrence : Occurrence Op Resp} (h : Sighted requests t w g)
    (hopen : .closed i ∉ t) (hallow : (g i).1.allows service (requests i) op)
    (hsees : sighting.allowed (g i).2 op) (hans : w.Answers i op x w') :
    Sighted requests (t ++ [occurrence]) w' (Function.update g i
      (⟨(g i).1.session.next op x, (g i).1.claim.next op x⟩, (g i).2.next op x)) := by
  apply h.step (h.tracked.answered hopen hallow hans)
  · exact .of_posts h.tracked.unique (h.tracked.posts hopen hallow hans)
  · exact h.known_answered hopen hallow hsees hans
  · exact (h.pends i).next hallow x
  · exact Session.clean_next (h.unwritten i)

theorem Sighted.start {now : Instant} {db : Database} {idempotency : Entries Receipt}
    (h : db.Sound) :
    Sighted requests [] (World.start now db idempotency) fun _ => (Call.initial, {}) := by
  refine ⟨.start h, fun i => ⟨?_, ?_⟩, fun i => ⟨rfl, rfl⟩, fun i _ => trivial⟩
  · exact fun _ hid => nomatch hid
  · exact fun _ hid => nomatch hid

variable {G : Pool.Guard deployment Exn Answer} {now : Instant} {db : Database}
  {idempotency : Entries Receipt} {Q : Pool deployment Exn Answer}

/-- The run lemma: whatever the schedule and the faults. -/
theorem sighted_of_run (hsound : db.Sound)
    (hrun : Pool.RunUnder G
      (arrivals service settings requests (World.start now db idempotency)) t Q) :
    ∃ g, Sighted requests t Q.world g ∧
      ∀ i, ((protocol service (requests i)).prod sighting).wp (Q.clients i)
        (fun x s => (requests i).Meets x s.1 ∧ Application.Tells x s.2) (g i) := by
  have hupholds : Pool.RunUnder.Upholds (fun i => (protocol service (requests i)).prod sighting) G
      (fun i x s => (requests i).Meets x s.1 ∧ Application.Tells x s.2) (Sighted requests) := by
    constructor
    · -- an answer, an end, or a step that is nobody's
      intro t R R' g i op x hwp hinv hopen hallow hans hG
      exact ⟨(_, _), ⟨⟨promises_of_answers hans, rfl⟩, trivial, rfl⟩,
        hinv.answered hopen hallow.1 hallow.2 hans⟩
    · intro t R w g i r hdone hwp hinv hcloses
      obtain rfl : w = R.world.discard i := hcloses
      exact ⟨hinv.tracked.closed, hinv.known, hinv.pends, hinv.unwritten⟩
    · intro t R w g hwp hinv hdrifts hG
      obtain ⟨now, hnow, rfl⟩ := hdrifts
      exact ⟨hinv.tracked.drifted, hinv.known, hinv.pends, hinv.unwritten⟩
  apply hrun.upholds hupholds _ (Sighted.start hsound)
  intro i
  exact Contract.wp_prod (Request.meets_protocol service settings (requests i))
    (Request.tells_sighted service settings (requests i))

/-- What an answer holds is the owner's, as the tables have it. -/
structure Holds (o : OwnerId) (db : Database) (a : Answer) : Prop where
  wallets : ∀ id ∈ a.walletIds, ∃ row ∈ db.wallets, row.id = id.value ∧ row.ownerId = o.value
  entries : ∀ id ∈ a.entryIds, ∃ row ∈ db.ledger, row.id = id.value ∧ db.owns o row = true
  owners : ∀ w ∈ a.heldWallets, w.ownerId = o

/-- A request is answered with rows of its owner only. -/
theorem answers_own {a : Answer} (hsound : db.Sound)
    (hrun : Pool.RunUnder G
      (arrivals service settings requests (World.start now db idempotency)) t Q)
    (hanswer : Q.clients i = .done (.ok a)) :
    Q.world.db.Sound ∧ Holds (requests i).ownerId Q.world.db a := by
  obtain ⟨g, hsighted, hwp⟩ := sighted_of_run hsound hrun
  have hi := hwp i
  rw [hanswer] at hi
  obtain ⟨hmeets, htells⟩ := hi
  obtain ⟨hwallets, hentries⟩ := htells a rfl
  refine ⟨hsighted.tracked.sound, ?_, ?_, (hmeets.2 a rfl).heldWallets⟩
  · intro id hid
    exact (hsighted.known i).wallets id (hwallets hid)
  · intro id hid
    exact (hsighted.known i).entries id (hentries hid)

end

end Evenkeel.Infrastructure
