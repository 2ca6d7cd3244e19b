import Evenkeel.Infrastructure.Bookkeeping
import Evenkeel.Infrastructure.Deployment

/-!
# Sessions over the Database

How the promises of the requests and the guarantees of the database fit together. Each
request's writes are exactly those its session state says, the writes of different
requests do not meet, and so every commit is one step of the books.

- `Transaction.Tracks`: the uncommitted writes of a request, by its session state
- `World.Exclusive`: the writes of different requests do not meet
- `Followed`: both, for every request
- `Tracked`: so, over sound books

## Key Results

- `promises_of_answers`: the deployment answers as the protocol relies on
- `Followed.answered`, `Followed.closed`, `Followed.drifted`: every step of a run keeps
  `Followed`
- `Followed.posts`: every step of a run is a step of the books
-/

namespace Evenkeel.Infrastructure

open Evenkeel.Domain Evenkeel.Application Evenkeel.Effects

/-! ## A transaction and its session -/

/-- The writes of a transaction. -/
structure Transaction.Writes (tx : Transaction) (newWallets updates : List WalletRow)
    (newEntries : List LedgerRow) : Prop where
  newWallets : tx.newWallets = newWallets
  updates : tx.updates = updates
  newEntries : tx.newEntries = newEntries

/-- The writes of request `r` in each session state, over the committed tables `db`. -/
def Transaction.Tracks (tx : Transaction) (r : Request) (db : Database) : Session → Prop
  | .idle => tx.Writes [] [] []
  | .loaded w => tx.Writes [] [] [] ∧ db.Snapshot w
  | .recorded w e => tx.Writes [] [] [.ofEntry e] ∧ db.Snapshot w
  | .updated w w' e => ∃ m row row', r.movement = some m ∧ Books m w w' e ∧ row ∈ db.wallets ∧
      row.Shows w ∧ row'.Shows w' ∧ tx.Writes [] [row'] [.ofEntry e]
  | .opened w => r.movement = none ∧ tx.Writes [.ofWallet w] [] [] ∧
      ∃ id c now, w = Wallet.open id r.ownerId c now
  | .committed _ _ => tx.Writes [] [] []
  | .created _ => tx.Writes [] [] []
  | .spoiled => True

namespace Database

variable {db db' : Database} {tx : Transaction} {r : Request} {s : Session}

theorem apply_unwritten {es : List LedgerRow} (h : tx.Writes [] [] es) :
    db.apply tx = ⟨db.wallets, db.ledger ++ es, db.letters⟩ := by
  simp [apply, h.newWallets, h.updates, h.newEntries]

theorem apply_blank (h : tx.Writes [] [] []) : db.apply tx = db := by
  rw [apply_unwritten h, List.append_nil]

theorem apply_update {row' : WalletRow} {es : List LedgerRow} (h : tx.Writes [] [row'] es) :
    db.apply tx = ⟨db.replace row', db.ledger ++ es, db.letters⟩ := by
  have hrow : ∀ row : WalletRow,
      ([row'].find? (·.id = row.id)).getD row = if row'.id = row.id then row' else row := by
    intro row
    by_cases hid : row'.id = row.id
    · simp [hid]
    · simp [hid]
  simp only [apply, replace, h.newWallets, h.updates, h.newEntries, List.append_nil, hrow]

theorem apply_insert {row : WalletRow} (h : tx.Writes [row] [] []) :
    db.apply tx = { db with wallets := db.wallets ++ [row] } := by
  simp [apply, h.newWallets, h.updates, h.newEntries]

/-- Updates keep ids, so the ids of the rows are those of the table and the inserts. -/
theorem exists_of_mem_apply {row : WalletRow} (h : row ∈ (db.apply tx).wallets) :
    ∃ x ∈ db.wallets ++ tx.newWallets, x.id = row.id := by
  obtain ⟨x, hx, rfl⟩ := List.mem_map.mp h
  refine ⟨x, hx, ?_⟩
  cases hfind : tx.updates.find? (·.id = x.id) with
  | none => rfl
  | some u => simpa [eq_comm] using List.find?_some hfind

/-- A row no update aims at stays. -/
theorem mem_apply_of_free {row : WalletRow} (hrow : row ∈ db.wallets)
    (hfree : ∀ u ∈ tx.updates, u.id ≠ row.id) : row ∈ (db.apply tx).wallets := by
  refine List.mem_map.mpr ⟨row, List.mem_append_left _ hrow, ?_⟩
  have hnone : tx.updates.find? (·.id = row.id) = none := by
    refine List.find?_eq_none.mpr fun u hu => ?_
    simpa using hfree u hu
  rw [hnone]
  rfl

/-- A commit of what belongs together is a step of the books. -/
theorem posts_of_ready (htracks : tx.Tracks r db s) (hready : s.Ready)
    (hwallets : ∀ r ∈ tx.newWallets, ∀ row ∈ db.wallets, row.id ≠ r.id)
    (hentries : ∀ e ∈ tx.newEntries, ∀ x ∈ db.ledger, x.id ≠ e.id) :
    db.Posts r.ownerId (db.apply tx) := by
  cases s with
  | updated w w' e =>
    obtain ⟨m, row, row', hm, hbooks, hrow, hshows, hshows', hwrites⟩ := htracks
    rw [apply_update hwrites]
    refine .movement (Request.ownerId_of_movement hm).symm hbooks hrow hshows hshows' fun x hx => ?_
    exact hentries (.ofEntry e) (by rw [hwrites.newEntries]; exact List.mem_singleton_self _) x hx
  | opened w =>
    obtain ⟨-, hwrites, hopen⟩ := htracks
    rw [apply_insert hwrites]
    refine .opening hopen fun row hrow => ?_
    exact hwallets (.ofWallet w) (by rw [hwrites.newWallets]; exact List.mem_singleton_self _)
      row hrow
  | _ => exact hready.elim

/-- What other requests commit does not disturb a session whose rows they leave alone. -/
theorem tracks_grows (htracks : tx.Tracks r db s) (hgrows : db.Grows db')
    (hkept : ∀ row ∈ db.wallets, (∃ u ∈ tx.updates, u.id = row.id) → row ∈ db'.wallets) :
    tx.Tracks r db' s := by
  cases s with
  | loaded w => exact ⟨htracks.1, htracks.2.grows hgrows⟩
  | recorded w e => exact ⟨htracks.1, htracks.2.grows hgrows⟩
  | updated w w' e =>
    obtain ⟨m, row, row', hm, hbooks, hrow, hshows, hshows', hwrites⟩ := htracks
    have hid : row'.id = row.id := by
      rw [← hshows'.id, hbooks.moved.id, hshows.id]
    have hmem : row' ∈ tx.updates := by
      rw [hwrites.updates]
      exact List.mem_singleton_self _
    exact ⟨m, row, row', hm, hbooks, hkept row hrow ⟨row', hmem, hid⟩, hshows, hshows',
      hwrites⟩
  | idle => exact htracks
  | opened w => exact htracks
  | committed w e => exact htracks
  | created w => exact htracks
  | spoiled => trivial

/-- Only the writes of a transaction matter. -/
theorem tracks_congr {tx' : Transaction} (htracks : tx.Tracks r db s)
    (hwallets : tx'.newWallets = tx.newWallets) (hupdates : tx'.updates = tx.updates)
    (hentries : tx'.newEntries = tx.newEntries) : tx'.Tracks r db s := by
  have hwrites : ∀ {ws us es}, tx.Writes ws us es → tx'.Writes ws us es := fun h =>
    ⟨hwallets.trans h.newWallets, hupdates.trans h.updates, hentries.trans h.newEntries⟩
  cases s with
  | loaded w => exact ⟨hwrites htracks.1, htracks.2⟩
  | recorded w e => exact ⟨hwrites htracks.1, htracks.2⟩
  | updated w w' e =>
    obtain ⟨m, row, row', hm, hbooks, hrow, hshows, hshows', h⟩ := htracks
    exact ⟨m, row, row', hm, hbooks, hrow, hshows, hshows', hwrites h⟩
  | opened w => exact ⟨htracks.1, hwrites htracks.2.1, htracks.2.2⟩
  | idle => exact hwrites htracks
  | committed w e => exact hwrites htracks
  | created w => exact hwrites htracks
  | spoiled => trivial

/-- Before the first write, and after the last, a request sees the committed wallets. -/
theorem writes_of_clean (htracks : tx.Tracks r db s) (hclean : s.Clean) : tx.Writes [] [] [] := by
  cases s with
  | idle => exact htracks
  | loaded w => exact htracks.1
  | _ => exact hclean.elim

end Database

/-! ## Different transactions -/

namespace World

variable {w w' : World} {i : ℕ}

@[simp] theorem write_db (f : Transaction → Transaction) : (w.write i f).db = w.db := rfl

@[simp] theorem write_tx_self (f : Transaction → Transaction) :
    (w.write i f).tx i = f (w.tx i) := by
  simp [write]

theorem write_tx_of_ne {j : ℕ} (f : Transaction → Transaction) (h : j ≠ i) :
    (w.write i f).tx j = w.tx j := by
  simp [write, Function.update_of_ne h]

/-- The writes of different requests do not meet, and new ids are new. -/
structure Exclusive (w : World) : Prop where
  updates : ∀ i j, i ≠ j → ∀ r ∈ (w.tx i).updates, ∀ r' ∈ (w.tx j).updates, r.id ≠ r'.id
  newWallet : ∀ i, ∀ r ∈ (w.tx i).newWallets, ∀ row ∈ w.db.wallets, row.id ≠ r.id
  newWallets : ∀ i j, i ≠ j → ∀ r ∈ (w.tx i).newWallets, ∀ r' ∈ (w.tx j).newWallets,
    r.id ≠ r'.id
  newEntry : ∀ i, ∀ e ∈ (w.tx i).newEntries, ∀ x ∈ w.db.ledger, x.id ≠ e.id
  newEntries : ∀ i j, i ≠ j → ∀ e ∈ (w.tx i).newEntries, ∀ e' ∈ (w.tx j).newEntries,
    e.id ≠ e'.id

/-- Forgetting writes keeps them apart. -/
theorem Exclusive.shrink (h : w.Exclusive) (hdb : w'.db = w.db)
    (hwallets : ∀ j, (w'.tx j).newWallets ⊆ (w.tx j).newWallets)
    (hupdates : ∀ j, (w'.tx j).updates ⊆ (w.tx j).updates)
    (hentries : ∀ j, (w'.tx j).newEntries ⊆ (w.tx j).newEntries) : w'.Exclusive := by
  constructor
  · intro i j hij r hr r' hr'
    exact h.updates i j hij r (hupdates i hr) r' (hupdates j hr')
  · intro i r hr row hrow
    exact h.newWallet i r (hwallets i hr) row (hdb ▸ hrow)
  · intro i j hij r hr r' hr'
    exact h.newWallets i j hij r (hwallets i hr) r' (hwallets j hr')
  · intro i e he x hx
    exact h.newEntry i e (hentries i he) x (hdb ▸ hx)
  · intro i j hij e he e' he'
    exact h.newEntries i j hij e (hentries i he) e' (hentries j he')

theorem Exclusive.begin (h : w.Exclusive) (i : ℕ) : (w.begin i).Exclusive := by
  have hsame : ∀ j, ((w.begin i).tx j).newWallets = (w.tx j).newWallets ∧
      ((w.begin i).tx j).updates = (w.tx j).updates ∧
      ((w.begin i).tx j).newEntries = (w.tx j).newEntries := by
    intro j
    by_cases hji : j = i
    · subst hji
      simp [World.begin]
    · simp [World.begin, write_tx_of_ne _ hji]
  exact h.shrink rfl (fun j => (hsame j).1 ▸ List.Subset.refl _)
    (fun j => (hsame j).2.1 ▸ List.Subset.refl _) (fun j => (hsame j).2.2 ▸ List.Subset.refl _)

theorem Exclusive.discard (h : w.Exclusive) (i : ℕ) : (w.discard i).Exclusive := by
  have hsub : ∀ j, ((w.discard i).tx j).newWallets ⊆ (w.tx j).newWallets ∧
      ((w.discard i).tx j).updates ⊆ (w.tx j).updates ∧
      ((w.discard i).tx j).newEntries ⊆ (w.tx j).newEntries := by
    intro j
    by_cases hji : j = i
    · subst hji
      simp [World.discard]
    · simp [World.discard, write_tx_of_ne _ hji]
  exact h.shrink rfl (fun j => (hsub j).1) (fun j => (hsub j).2.1) (fun j => (hsub j).2.2)

/-- A commit turns pending ids into committed ones, which were new to everybody else. -/
theorem Exclusive.commit (h : w.Exclusive) (hdb : w'.db = w.view i)
    (htx : w'.tx = (w.discard i).tx) : w'.Exclusive := by
  have hd := h.discard i
  -- the committing session is empty now, and the others are as before
  have hblank : (w'.tx i).newWallets = [] ∧ (w'.tx i).newEntries = [] := by
    rw [htx]
    simp [World.discard]
  have hother : ∀ j, j ≠ i → w'.tx j = w.tx j := by
    intro j hj
    rw [htx, World.discard, write_tx_of_ne _ hj]
  constructor
  · rw [htx]
    exact hd.updates
  · -- a row that is to be opened is neither a row of before nor one of this commit
    intro j r hr row hrow
    by_cases hji : j = i
    · subst hji
      rw [hblank.1] at hr
      cases hr
    rw [hother j hji] at hr
    rw [hdb] at hrow
    obtain ⟨x, hx, hid⟩ := Database.exists_of_mem_apply hrow
    rw [← hid]
    rcases List.mem_append.mp hx with hx | hx
    · exact h.newWallet j r hr x hx
    · exact h.newWallets i j (Ne.symm hji) x hx r hr
  · rw [htx]
    exact hd.newWallets
  · -- and an entry to be added no entry of either
    intro j e he x hx
    by_cases hji : j = i
    · subst hji
      rw [hblank.2] at he
      cases he
    rw [hother j hji] at he
    rw [hdb] at hx
    rcases List.mem_append.mp hx with hx | hx
    · exact h.newEntry j e he x hx
    · exact h.newEntries i j (Ne.symm hji) x hx e he
  · rw [htx]
    exact hd.newEntries

/-- What one write adds to the pending writes of its transaction. -/
theorem Exclusive.write {f : Transaction → Transaction} (h : w.Exclusive)
    (hupdates : ∀ r ∈ (f (w.tx i)).updates, r ∈ (w.tx i).updates ∨ w.Free i r.id)
    (hwallets : ∀ r ∈ (f (w.tx i)).newWallets, r ∈ (w.tx i).newWallets ∨ w.NewWalletId r.id)
    (hentries : ∀ e ∈ (f (w.tx i)).newEntries, e ∈ (w.tx i).newEntries ∨ w.NewEntryId e.id) :
    (w.write i f).Exclusive := by
  -- everything is symmetric in the two transactions, of which at most one has changed
  have hsymm : ∀ {β : Type} {p : ℕ → β → Prop} {id : β → UUID},
      (∀ j, j ≠ i → ∀ a, p i a → ∀ b, p j b → id a ≠ id b) →
      (∀ j k, j ≠ k → j ≠ i → k ≠ i → ∀ a, p j a → ∀ b, p k b → id a ≠ id b) →
      ∀ j k, j ≠ k → ∀ a, p j a → ∀ b, p k b → id a ≠ id b := by
    intro β p id hi hothers j k hjk a ha b hb
    by_cases hji : j = i
    · subst hji
      exact hi k (Ne.symm hjk) a ha b hb
    by_cases hki : k = i
    · subst hki
      exact Ne.symm (hi j hji b hb a ha)
    exact hothers j k hjk hji hki a ha b hb
  constructor
  · -- no two sessions update the same row
    refine hsymm (p := fun j r => r ∈ ((w.write i f).tx j).updates) ?_ ?_
    · intro j hj a ha b hb
      rw [write_tx_self] at ha
      rw [write_tx_of_ne f hj] at hb
      rcases hupdates a ha with hold | hfree
      · exact h.updates i j (Ne.symm hj) a hold b hb
      · exact Ne.symm (hfree j hj b hb)
    · intro j k hjk hj hk a ha b hb
      rw [write_tx_of_ne f hj] at ha
      rw [write_tx_of_ne f hk] at hb
      exact h.updates j k hjk a ha b hb
  · -- no row that is to be opened exists
    intro j r hr row hrow
    by_cases hji : j = i
    · subst hji
      rw [write_tx_self] at hr
      rcases hwallets r hr with hold | hnew
      · exact h.newWallet j r hold row hrow
      · exact hnew.1 row hrow
    · rw [write_tx_of_ne f hji] at hr
      exact h.newWallet j r hr row hrow
  · -- nor is it opened in two sessions
    refine hsymm (p := fun j r => r ∈ ((w.write i f).tx j).newWallets) ?_ ?_
    · intro j hj a ha b hb
      rw [write_tx_self] at ha
      rw [write_tx_of_ne f hj] at hb
      rcases hwallets a ha with hold | hnew
      · exact h.newWallets i j (Ne.symm hj) a hold b hb
      · exact Ne.symm (hnew.2 j b hb)
    · intro j k hjk hj hk a ha b hb
      rw [write_tx_of_ne f hj] at ha
      rw [write_tx_of_ne f hk] at hb
      exact h.newWallets j k hjk a ha b hb
  · -- no entry that is to be added exists
    intro j e he x hx
    by_cases hji : j = i
    · subst hji
      rw [write_tx_self] at he
      rcases hentries e he with hold | hnew
      · exact h.newEntry j e hold x hx
      · exact hnew.1 x hx
    · rw [write_tx_of_ne f hji] at he
      exact h.newEntry j e he x hx
  · -- nor is it added in two sessions
    refine hsymm (p := fun j e => e ∈ ((w.write i f).tx j).newEntries) ?_ ?_
    · intro j hj a ha b hb
      rw [write_tx_self] at ha
      rw [write_tx_of_ne f hj] at hb
      rcases hentries a ha with hold | hnew
      · exact h.newEntries i j (Ne.symm hj) a hold b hb
      · exact Ne.symm (hnew.2 j b hb)
    · intro j k hjk hj hk a ha b hb
      rw [write_tx_of_ne f hj] at ha
      rw [write_tx_of_ne f hk] at hb
      exact h.newEntries j k hjk a ha b hb

/-! ## What an answer does to the world -/

/-- The key of the idempotency store an operation is about. -/
def storeKey : Op → Option String
  | .reserve key _ _ => some key
  | .confirm key _ _ => some key
  | .release key => some key
  | _ => none

/-- Operations that are statements of the database, or end a transaction. -/
def Statement : Op → Prop
  | .readWallet .. => True
  | .addWallet _ => True
  | .updateWallet .. => True
  | .listByOwner .. => True
  | .readEntry .. => True
  | .addEntry _ => True
  | .listByWallet .. => True
  | .commit => True
  | .rollback => True
  | _ => False

/-- What an operation of request `i` can change: one entry of the store, the locks, the
    request's own transaction, or, if it is a commit, the committed tables. -/
inductive Change (w : World) (i : ℕ) : Op → World → Prop where
  | store {op : Op} {s : Entries Receipt} (hop : ¬ Statement op)
      (hs : ∀ key, storeKey op ≠ some key → s key = w.idempotency key) :
      Change w i op { w with idempotency := s }
  | locks {op : Op} {l : String → Option ℕ} (hop : ¬ Statement op) :
      Change w i op { w with locks := l }
  | own {op : Op} {f : Transaction → Transaction} (hop : Statement op) :
      Change w i op (w.write i f)
  | commit : Change w i .commit
      { w.discard i with db := w.view i, commits := w.commits ++ [(i, w.tx i)] }
  | lost : Change w i .commit w
  | failed : Change w i .rollback w

theorem Serves.change {op : Op} {x : Resp op} (h : w.Serves i op x w') : Change w i op w' := by
  have hsame : ∀ {op : Op}, ¬ Statement op → Change w i op w := fun hop => .locks hop
  cases op with
  | reserve k fp ttl =>
    -- the operations of the store change its entry for the one key
    obtain ⟨-, rfl⟩ := h
    exact .store id fun key hkey => Entries.reserve_frame fun heq => hkey (congrArg some heq.symm)
  | confirm k response ttl =>
    obtain ⟨-, rfl⟩ := h
    exact .store id fun key hkey => Entries.confirm_frame fun heq => hkey (congrArg some heq.symm)
  | release k =>
    obtain ⟨-, rfl⟩ := h
    exact .store id fun key hkey => Entries.release_frame fun heq => hkey (congrArg some heq.symm)
  | enterLock =>
    -- those of the lock change locks
    rcases h with ⟨-, rfl⟩ | ⟨-, rfl, -⟩
    · exact .locks id
    · exact hsame id
  | exitLock k =>
    obtain ⟨-, rfl⟩ := h
    by_cases hlock : w.locks k = some i
    · rw [if_pos hlock]
      exact .locks id
    · rw [if_neg hlock]
      exact hsame id
  | readWallet =>
    -- statements change the session of their caller
    obtain ⟨-, rfl⟩ := h
    exact .own trivial
  | addWallet =>
    obtain ⟨-, -, rfl⟩ := h
    exact .own trivial
  | updateWallet =>
    rcases h with ⟨-, -, row, -, -, rfl⟩ | ⟨-, -, rfl⟩
    · exact .own trivial
    · exact .own trivial
  | listByOwner =>
    obtain ⟨-, rfl⟩ := h
    exact .own trivial
  | readEntry =>
    obtain ⟨-, rfl⟩ := h
    exact .own trivial
  | addEntry =>
    obtain ⟨-, -, rfl⟩ := h
    exact .own trivial
  | listByWallet =>
    obtain ⟨-, rfl⟩ := h
    exact .own trivial
  | commit =>
    -- a commit changes the tables
    obtain ⟨-, rfl⟩ := h
    exact .commit
  | rollback =>
    obtain ⟨-, rfl⟩ := h
    exact .own trivial
  | consume =>
    -- nothing else changes the world
    obtain ⟨-, rfl⟩ := h
    exact hsame id
  | assess =>
    obtain ⟨-, rfl⟩ := h
    exact hsame id
  | now =>
    obtain rfl : w' = w := h
    exact hsame id
  | generate =>
    obtain rfl : w' = w := h
    exact hsame id
  | observe =>
    obtain rfl : w' = w := h
    exact hsame id

theorem change_issue (op : Op) : Change w i op (w.issue i op) := by
  have hsame : ∀ {op : Op}, ¬ Statement op → Change w i op w := fun hop => .locks hop
  have hbegin : ∀ {op : Op}, Statement op → Change w i op (w.begin i) := fun hop => .own hop
  cases op with
  | commit => exact .lost
  | rollback => exact .failed
  | readWallet => exact hbegin trivial
  | addWallet => exact hbegin trivial
  | updateWallet => exact hbegin trivial
  | listByOwner => exact hbegin trivial
  | readEntry => exact hbegin trivial
  | addEntry => exact hbegin trivial
  | listByWallet => exact hbegin trivial
  | _ => exact hsame id

theorem Answers.change {op : Op} {x : Resp op} (h : w.Answers i op x w') :
    Change w i op w' := by
  rcases h with h | ⟨-, rfl | ⟨y, h⟩⟩
  · exact h.change
  · exact change_issue op
  · exact h.change

theorem Answers.quiet {op : Op} {x : Resp op} (h : w.Answers i op x w') (hop : ¬ Statement op) :
    w'.db = w.db ∧ w'.tx = w.tx := by
  cases h.change with
  | store => exact ⟨rfl, rfl⟩
  | locks => exact ⟨rfl, rfl⟩
  | own hstatement => exact absurd hstatement hop
  | commit => exact absurd trivial hop
  | lost => exact ⟨rfl, rfl⟩
  | failed => exact ⟨rfl, rfl⟩

/-- An operation does not change the clock, nor any entry of the store but its own. -/
theorem Answers.frame {op : Op} {x : Resp op} {key : String} (h : w.Answers i op x w')
    (hkey : storeKey op ≠ some key) :
    w'.now = w.now ∧ w'.idempotency key = w.idempotency key := by
  cases h.change with
  | store hop hs => exact ⟨rfl, hs key hkey⟩
  | _ => exact ⟨rfl, rfl⟩

/-- Time passes between operations only. -/
theorem Answers.clock {op : Op} {x : Resp op} (h : w.Answers i op x w') : w'.now = w.now := by
  cases h.change with
  | _ => rfl

/-- Only a commit changes the committed tables. -/
theorem Answers.tables {op : Op} {x : Resp op} (h : w.Answers i op x w') (hop : op ≠ .commit) :
    w'.db = w.db ∧ w'.commits = w.commits := by
  cases h.change with
  | commit => exact absurd rfl hop
  | _ => exact ⟨rfl, rfl⟩

/-- Nobody takes a commit back. -/
theorem Answers.mem_commits {op : Op} {x : Resp op} {c : ℕ × Transaction}
    (h : w.Answers i op x w') (hc : c ∈ w.commits) : c ∈ w'.commits := by
  cases h.change with
  | commit => exact List.mem_append_left _ hc
  | _ => exact hc

/-- Only a commit of its own commits a request. -/
theorem Answers.mem_commits_of_ne {op : Op} {x : Resp op} {c : ℕ × Transaction}
    (h : w.Answers i op x w') (hop : op ≠ .commit) (hc : c ∈ w'.commits) : c ∈ w.commits := by
  rwa [(h.tables hop).2] at hc

/-- A commit is new where it is that of the request itself, with what it had written. -/
theorem Answers.mem_commits_new {op : Op} {x : Resp op} {c : ℕ × Transaction}
    (h : w.Answers i op x w') (hc : c ∈ w'.commits) :
    c ∈ w.commits ∨ op = .commit ∧ c = (i, w.tx i) ∧ w'.db = w.view i := by
  cases h.change with
  | commit =>
    rcases List.mem_append.mp hc with hmem | hmem
    · exact .inl hmem
    · exact .inr ⟨rfl, List.mem_singleton.mp hmem, rfl⟩
  | _ => exact .inl hc

end World

theorem session_next_quiet {s : Session} {op : Op} {x : Resp op} (hop : ¬ World.Statement op) :
    s.next op x = s := by
  cases op <;> first | rfl | exact absurd trivial hop

theorem eq_error_of_failure {α : Type} {e : Exn} {x : Except Exn α}
    (h : some (Except.error e) = some x) : x = .error e :=
  (Option.some.inj h).symm

/-! ## Promises -/

/-- What the queries filter by is what the protocol relies on. -/
theorem promises_of_answers {w w' : World} {i : ℕ} {op : Op} {x : Resp op}
    (h : w.Answers i op x w') : Promises op x := by
  cases op with
  | readWallet id o f =>
    -- a wallet is found by its id and its owner
    rcases h with ⟨rfl, -⟩ | ⟨⟨e, he⟩, -⟩
    · rcases hread : (w.view i).readWallet id o with e | (_ | wallet)
      · trivial
      · trivial
      · obtain ⟨row, -, -, hid, howner⟩ := Database.readWallet_some hread
        exact ⟨hid, howner⟩
    · obtain rfl := eq_error_of_failure he
      trivial
  | readEntry id o =>
    -- an entry by its id
    rcases h with ⟨rfl, -⟩ | ⟨⟨e, he⟩, -⟩
    · rcases hread : (w.view i).readEntry id o with e | (_ | entry)
      · trivial
      · trivial
      · obtain ⟨row, -, -, hid, -⟩ := Database.readEntry_some hread
        exact hid
    · obtain rfl := eq_error_of_failure he
      trivial
  | listByOwner o limit cursor =>
    -- the listed wallets are the owner's
    rcases h with ⟨rfl, -⟩ | ⟨⟨e, he⟩, -⟩
    · rcases hlist : (w.view i).listByOwner o limit cursor with e | page
      · trivial
      · intro wallet hwallet
        obtain ⟨row, -, hshows, howner⟩ := Database.listByOwner_mem hlist hwallet
        exact OwnerId.ext (hshows.ownerId.trans howner)
    · obtain rfl := eq_error_of_failure he
      trivial
  | listByWallet id o limit cursor =>
    -- the listed entries are the wallet's
    rcases h with ⟨rfl, -⟩ | ⟨⟨e, he⟩, -⟩
    · rcases hlist : (w.view i).listByWallet id o limit cursor with e | page
      · trivial
      · intro entry hentry
        obtain ⟨row, -, -, hwallet, -⟩ := Database.listByWallet_mem hlist hentry
        exact hwallet
    · obtain rfl := eq_error_of_failure he
      trivial
  | _ => trivial

/-! ## Every step keeps track -/

/-- Ids are unique, and every running request's writes are what its session state says. -/
structure Followed (requests : ℕ → Request) (t : List (Occurrence Op Resp)) (w : World)
    (g : ℕ → Call) : Prop where
  unique : w.db.Unique
  exclusive : w.Exclusive
  tracks : ∀ i, .closed i ∉ t → (w.tx i).Tracks (requests i) w.db (g i).session

namespace Followed

variable {service : WalletMovementSettings} {requests : ℕ → Request}
  {t : List (Occurrence Op Resp)} {w w' : World} {g : ℕ → Call} {i : ℕ}

/-- A step of request `i` that leaves the other transactions and their rows alone. -/
private theorem step {o : OwnerId} {occurrence : Occurrence Op Resp} {s' : Call}
    (h : Followed requests t w g) (hposts : w.db.Posts o w'.db) (hexclusive : w'.Exclusive)
    (hself : (w'.tx i).Tracks (requests i) w'.db s'.session)
    (hothers : ∀ j, j ≠ i → w'.tx j = w.tx j)
    (hkept : ∀ j, j ≠ i → ∀ row ∈ w.db.wallets, (∃ u ∈ (w.tx j).updates, u.id = row.id) →
      row ∈ w'.db.wallets) :
    Followed requests (t ++ [occurrence]) w' (Function.update g i s') := by
  refine ⟨h.unique.posts hposts, hexclusive, fun j hj => ?_⟩
  by_cases hji : j = i
  · subst hji
    rw [Function.update_self]
    exact hself
  · rw [Function.update_of_ne hji, hothers j hji]
    refine Database.tracks_grows (h.tracks j ?_) (.of_posts h.unique hposts) (hkept j hji)
    exact fun hmem => hj (List.mem_append_left _ hmem)

/-- A step that only changes request `i`'s own transaction. -/
private theorem step_own {occurrence : Occurrence Op Resp} {s' : Call}
    {f : Transaction → Transaction} (h : Followed requests t w g)
    (hexclusive : (w.write i f).Exclusive)
    (hself : (f (w.tx i)).Tracks (requests i) w.db s'.session) :
    Followed requests (t ++ [occurrence]) (w.write i f) (Function.update g i s') := by
  refine h.step (o := (requests i).ownerId) .nothing hexclusive ?_ ?_ fun j hj row hrow _ => hrow
  · rw [World.write_tx_self]
    exact hself
  · exact fun j hj => World.write_tx_of_ne f hj

/-- A statement that only opens the transaction. -/
private theorem step_begin {occurrence : Occurrence Op Resp} {s' : Call}
    (h : Followed requests t w g)
    (hself : (w.tx i).Tracks (requests i) w.db s'.session) :
    Followed requests (t ++ [occurrence]) (w.begin i) (Function.update g i s') :=
  h.step_own (h.exclusive.begin i) (Database.tracks_congr hself rfl rfl rfl)

private theorem step_quiet {occurrence : Occurrence Op Resp} {op : Op} {x : Resp op} {c : Claim}
    (h : Followed requests t w g) (hopen : .closed i ∉ t) (hop : ¬ World.Statement op)
    (hans : w.Answers i op x w') :
    Followed requests (t ++ [occurrence]) w'
      (Function.update g i ⟨(g i).session.next op x, c⟩) := by
  obtain ⟨hdb, htx⟩ := hans.quiet hop
  refine h.step (o := (requests i).ownerId) ?_ ?_ ?_ ?_ ?_
  · rw [hdb]
    exact .nothing
  · refine h.exclusive.shrink hdb ?_ ?_ ?_
    all_goals
      intro j
      rw [htx]
      exact List.Subset.refl _
  · show (w'.tx i).Tracks _ w'.db ((g i).session.next op x)
    rw [session_next_quiet hop, htx, hdb]
    exact h.tracks i hopen
  · intro j _
    rw [htx]
  · intro j _ row hrow _
    rw [hdb]
    exact hrow

private theorem step_readWallet {occurrence : Occurrence Op Resp} {id : WalletId} {o : OwnerId}
    {f : Bool} {x : Resp (.readWallet id o f)} {c : Claim} (h : Followed requests t w g)
    (hopen : .closed i ∉ t) (hclean : (g i).session.Clean)
    (hans : w.Answers i (.readWallet id o f) x w') :
    Followed requests (t ++ [occurrence]) w'
      (Function.update g i ⟨(g i).session.next (.readWallet id o f) x, c⟩) := by
  have hblank := Database.writes_of_clean (h.tracks i hopen) hclean
  have hview : w.view i = w.db := Database.apply_blank hblank
  rcases hans with ⟨rfl, rfl⟩ | ⟨⟨e, he⟩, hw⟩
  · refine h.step_begin ?_
    rcases hread : (w.view i).readWallet id o with e | (_ | wallet)
    · exact h.tracks i hopen
    · exact hblank
    · obtain ⟨row, hrow, hshows, -, -⟩ := Database.readWallet_some hread
      exact ⟨hblank, .of_shows (hview ▸ hrow) hshows⟩
  · obtain rfl := eq_error_of_failure he
    obtain rfl : w' = w.begin i := by
      rcases hw with rfl | ⟨y, -, rfl⟩
      · rfl
      · rfl
    exact h.step_begin (h.tracks i hopen)

private theorem step_addWallet {occurrence : Occurrence Op Resp} {wallet : Wallet}
    {x : Resp (.addWallet wallet)} {c : Claim} (h : Followed requests t w g)
    (hopen : .closed i ∉ t)
    (hallow : (g i).allows service (requests i) (.addWallet wallet))
    (hans : w.Answers i (.addWallet wallet) x w') :
    Followed requests (t ++ [occurrence]) w'
      (Function.update g i ⟨(g i).session.next (.addWallet wallet) x, c⟩) := by
  obtain ⟨hmovement, hidle, hopened⟩ := hallow
  -- the session of a request that opens a wallet has written nothing yet
  have hblank : (w.tx i).Writes [] [] [] := by
    have := h.tracks i hopen
    rwa [hidle] at this
  -- the new id is in no table and no session
  have hexclusive : w.NewWalletId wallet.id.value → (w.write i fun tx => { tx with
      active := true, newWallets := tx.newWallets ++ [.ofWallet wallet] }).Exclusive := by
    intro hnew
    refine h.exclusive.write (fun r hr => .inl hr) (fun r hr => ?_) (fun e he => .inl he)
    rcases List.mem_append.mp hr with hr | hr
    · exact .inl hr
    · obtain rfl := List.mem_singleton.mp hr
      exact .inr hnew
  rcases hans with ⟨rfl, hnew, rfl⟩ | ⟨⟨e, he⟩, hw⟩
  · refine h.step_own (hexclusive hnew)
      ⟨hmovement, ⟨?_, hblank.updates, hblank.newEntries⟩, hopened⟩
    simp [hblank.newWallets]
  · obtain rfl := eq_error_of_failure he
    -- an operation that failed may have been carried out
    rcases hw with rfl | ⟨y, -, hnew, rfl⟩
    · exact h.step_begin trivial
    · exact h.step_own (hexclusive hnew) trivial

private theorem step_addEntry {occurrence : Occurrence Op Resp} {entry : LedgerEntry}
    {x : Resp (.addEntry entry)} {c : Claim} (h : Followed requests t w g)
    (hopen : .closed i ∉ t)
    (hallow : (g i).allows service (requests i) (.addEntry entry))
    (hans : w.Answers i (.addEntry entry) x w') :
    Followed requests (t ++ [occurrence]) w'
      (Function.update g i ⟨(g i).session.next (.addEntry entry) x, c⟩) := by
  obtain ⟨m, wal, wal', -, hloaded, -⟩ := hallow
  -- a loaded wallet is read, and nothing is written yet
  have htracks : (w.tx i).Writes [] [] [] ∧ w.db.Snapshot wal := by
    have := h.tracks i hopen
    rwa [hloaded] at this
  obtain ⟨hblank, hsnapshot⟩ := htracks
  -- as for a wallet
  have hexclusive : w.NewEntryId entry.id.value → (w.write i fun tx => { tx with
      active := true, newEntries := tx.newEntries ++ [.ofEntry entry] }).Exclusive := by
    intro hnew
    refine h.exclusive.write (fun r hr => .inl hr) (fun r hr => .inl hr) (fun e he => ?_)
    rcases List.mem_append.mp he with he | he
    · exact .inl he
    · obtain rfl := List.mem_singleton.mp he
      exact .inr hnew
  rcases hans with ⟨rfl, hnew, rfl⟩ | ⟨⟨e, he⟩, hw⟩
  · rw [hloaded]
    refine h.step_own (hexclusive hnew) ⟨⟨hblank.newWallets, hblank.updates, ?_⟩, hsnapshot⟩
    simp [hblank.newEntries]
  · obtain rfl := eq_error_of_failure he
    -- an operation that failed may have been carried out
    rcases hw with rfl | ⟨y, -, hnew, rfl⟩
    · exact h.step_begin trivial
    · exact h.step_own (hexclusive hnew) trivial

/-- The guarded update: the row it found still is the wallet that was read. -/
private theorem step_updateWallet {occurrence : Occurrence Op Resp} {wallet : Wallet}
    {version : ℤ} {x : Resp (.updateWallet wallet version)} {c : Claim}
    (h : Followed requests t w g) (hopen : .closed i ∉ t)
    (hallow : (g i).allows service (requests i) (.updateWallet wallet version))
    (hans : w.Answers i (.updateWallet wallet version) x w') :
    Followed requests (t ++ [occurrence]) w'
      (Function.update g i ⟨(g i).session.next (.updateWallet wallet version) x, c⟩) := by
  obtain ⟨m, wal, entry, hm, hrecorded, hversion, hbooks⟩ := hallow
  -- the entry is written, and the wallet is still as it was read
  have htracks : (w.tx i).Writes [] [] [.ofEntry entry] ∧ w.db.Snapshot wal := by
    have := h.tracks i hopen
    rwa [hrecorded] at this
  obtain ⟨hwrites, hsnapshot⟩ := htracks
  -- the row is in the updates of no other session
  have hexclusive : ∀ row : WalletRow, w.Free i wallet.id.value → (w.write i fun tx => { tx with
      active := true
      updates := { WalletRow.ofWallet wallet with createdAt := row.createdAt } :: tx.updates
      }).Exclusive := by
    intro row hfree
    refine h.exclusive.write (fun r hr => ?_) (fun r hr => .inl hr) (fun e he => .inl he)
    rcases List.mem_cons.mp hr with rfl | hr
    · exact .inr hfree
    · exact .inl hr
  rcases hans with (⟨rfl, hfree, row, hrow, hmatches, rfl⟩ | ⟨rfl, -, rfl⟩) | ⟨⟨e, he⟩, hw⟩
  · rw [hrecorded]
    refine h.step_own (hexclusive row hfree) ?_
    -- the row has the wallet's id and the version that was read, so it is the wallet's row
    obtain ⟨row₀, hrow₀, hid₀, -, hshows⟩ := hsnapshot
    have hmem : row ∈ w.db.wallets := by
      have hview : w.view i = _ := Database.apply_unwritten hwrites
      rwa [hview] at hrow
    obtain rfl : row = row₀ :=
      h.unique.row_unique hmem hrow₀ (by rw [hmatches.1, hbooks.moved.id, hid₀])
    refine ⟨m, row, { WalletRow.ofWallet wallet with createdAt := row.createdAt },
      hm, hbooks, hmem, hshows (hmatches.2.trans hversion),
      ⟨rfl, rfl, rfl, rfl, rfl, rfl⟩, ⟨hwrites.newWallets, ?_, hwrites.newEntries⟩⟩
    simp [hwrites.updates]
  · -- no row with this version: nothing is updated
    exact h.step_begin trivial
  · obtain rfl := eq_error_of_failure he
    -- an operation that failed may have been carried out
    rcases hw with rfl | ⟨y, ⟨-, hfree, row, -, -, rfl⟩ | ⟨-, -, rfl⟩⟩
    · exact h.step_begin trivial
    · exact h.step_own (hexclusive row hfree) trivial
    · exact h.step_begin trivial

/-- What a commit makes of the world, whether or not its answer arrives. -/
private theorem posts_of_commit (h : Followed requests t w g) (hopen : .closed i ∉ t)
    (hready : (g i).session.Ready) : w.db.Posts (requests i).ownerId (w.view i) :=
  Database.posts_of_ready (h.tracks i hopen) hready (h.exclusive.newWallet i)
    (h.exclusive.newEntry i)

private theorem step_commit {occurrence : Occurrence Op Resp} {x : Resp .commit} {c : Claim}
    (h : Followed requests t w g) (hopen : .closed i ∉ t) (hready : (g i).session.Ready)
    (hans : w.Answers i .commit x w') :
    Followed requests (t ++ [occurrence]) w'
      (Function.update g i ⟨(g i).session.next .commit x, c⟩) := by
  -- the commit is carried out, whatever the caller hears of it
  have hcommit : ∀ {s' : Call}, (Transaction.Tracks {} (requests i) (w.view i) s'.session) →
      Followed requests (t ++ [occurrence]) { w.discard i with
        db := w.view i, commits := w.commits ++ [(i, w.tx i)] } (Function.update g i s') := by
    intro s' hself
    refine h.step (h.posts_of_commit hopen hready) (h.exclusive.commit rfl rfl) ?_ ?_ ?_
    · -- the session begins anew
      show ((w.discard i).tx i).Tracks _ _ _
      rw [World.discard, World.write_tx_self]
      exact hself
    · intro j hj
      show (w.discard i).tx j = w.tx j
      exact World.write_tx_of_ne _ hj
    · -- a row that another session updates is not touched by this commit
      rintro j hj row hrow ⟨u, hu, hid⟩
      refine Database.mem_apply_of_free hrow fun u' hu' => ?_
      rw [← hid]
      exact h.exclusive.updates i j (Ne.symm hj) u' hu' u hu
  rcases hans with ⟨rfl, rfl⟩ | ⟨⟨e, he⟩, hw⟩
  · refine hcommit ?_
    cases hs : (g i).session with
    | updated => exact ⟨rfl, rfl, rfl⟩
    | opened => exact ⟨rfl, rfl, rfl⟩
    | _ => rw [hs] at hready; exact hready.elim
  · obtain rfl := eq_error_of_failure he
    rcases hw with rfl | ⟨y, -, rfl⟩
    · refine h.step (o := (requests i).ownerId) .nothing h.exclusive trivial (fun j _ => rfl) ?_
      exact fun j _ row hrow _ => hrow
    · exact hcommit trivial

private theorem step_rollback {occurrence : Occurrence Op Resp} {x : Resp .rollback} {c : Claim}
    (h : Followed requests t w g) (hans : w.Answers i .rollback x w') :
    Followed requests (t ++ [occurrence]) w'
      (Function.update g i ⟨(g i).session.next .rollback x, c⟩) := by
  rcases hans with ⟨rfl, rfl⟩ | ⟨⟨e, he⟩, hw⟩
  · exact h.step_own (h.exclusive.discard i) ⟨rfl, rfl, rfl⟩
  · obtain rfl := eq_error_of_failure he
    rcases hw with rfl | ⟨y, -, rfl⟩
    · refine h.step (o := (requests i).ownerId) .nothing h.exclusive trivial (fun j _ => rfl) ?_
      exact fun j _ row hrow _ => hrow
    · exact h.step_own (h.exclusive.discard i) trivial

/-- The step lemma: an operation the protocol allows, however it is answered. -/
theorem answered {occurrence : Occurrence Op Resp} {op : Op} {x : Resp op} {c : Claim}
    (h : Followed requests t w g) (hopen : .closed i ∉ t)
    (hallow : (g i).allows service (requests i) op) (hans : w.Answers i op x w') :
    Followed requests (t ++ [occurrence]) w'
      (Function.update g i ⟨(g i).session.next op x, c⟩) := by
  have hbegin : ∀ {s' : Call}, w' = w.begin i → s'.session = (g i).session →
      Followed requests (t ++ [occurrence]) w' (Function.update g i s') := by
    rintro s' rfl hs
    refine h.step_begin ?_
    rw [hs]
    exact h.tracks i hopen
  cases op with
  | readWallet id o f => exact h.step_readWallet hopen hallow.1 hans
  | listByOwner =>
    refine hbegin ?_ rfl
    rcases hans with ⟨-, rfl⟩ | ⟨-, rfl | ⟨y, -, rfl⟩⟩ <;> rfl
  | readEntry =>
    refine hbegin ?_ rfl
    rcases hans with ⟨-, rfl⟩ | ⟨-, rfl | ⟨y, -, rfl⟩⟩ <;> rfl
  | listByWallet =>
    refine hbegin ?_ rfl
    rcases hans with ⟨-, rfl⟩ | ⟨-, rfl | ⟨y, -, rfl⟩⟩ <;> rfl
  | addWallet => exact h.step_addWallet hopen hallow hans
  | addEntry => exact h.step_addEntry hopen hallow hans
  | updateWallet => exact h.step_updateWallet hopen hallow hans
  | commit => exact h.step_commit hopen hallow.1 hans
  | rollback => exact h.step_rollback hans
  | _ => exact h.step_quiet hopen id hans

/-- Every step of a run is a step of the books. -/
theorem posts {op : Op} {x : Resp op} (h : Followed requests t w g) (hopen : .closed i ∉ t)
    (hallow : (g i).allows service (requests i) op) (hans : w.Answers i op x w') :
    w.db.Posts (requests i).ownerId w'.db := by
  by_cases hop : op = .commit
  · subst hop
    rcases hans with ⟨-, rfl⟩ | ⟨-, rfl | ⟨y, -, rfl⟩⟩
    · exact h.posts_of_commit hopen hallow.1
    · exact .nothing
    · exact h.posts_of_commit hopen hallow.1
  · rw [(hans.tables hop).1]
    exact .nothing

/-- A finished request's writes are forgotten. -/
theorem closed (h : Followed requests t w g) :
    Followed requests (t ++ [.closed i]) (w.discard i) g := by
  refine ⟨h.unique, h.exclusive.discard i, fun j hj => ?_⟩
  rw [List.mem_append, not_or] at hj
  have hji : j ≠ i := by
    rintro rfl
    exact hj.2 (List.mem_singleton_self _)
  have hsame : (w.discard i).tx j = w.tx j := World.write_tx_of_ne _ hji
  rw [hsame]
  exact h.tracks j hj.1

theorem drifted {now : Instant} (h : Followed requests t w g) :
    Followed requests (t ++ [.drifted]) { w with now := now } g := by
  refine ⟨h.unique, ⟨h.exclusive.updates, h.exclusive.newWallet, h.exclusive.newWallets,
    h.exclusive.newEntry, h.exclusive.newEntries⟩, fun j hj => ?_⟩
  exact h.tracks j fun hmem => hj (List.mem_append_left _ hmem)

theorem start {now : Instant} {db : Database} {idempotency : Entries Receipt} (h : db.Unique) :
    Followed requests [] (World.start now db idempotency) fun _ => Call.initial := by
  refine ⟨h, ⟨?_, ?_, ?_, ?_, ?_⟩, fun i _ => ⟨rfl, rfl, rfl⟩⟩
  · rintro i j - r ⟨⟩
  · rintro i r ⟨⟩
  · rintro i j - r ⟨⟩
  · rintro i e ⟨⟩
  · rintro i j - e ⟨⟩

end Followed

/-- Over sound books. -/
structure Tracked (requests : ℕ → Request) (t : List (Occurrence Op Resp)) (w : World)
    (g : ℕ → Call) : Prop extends Followed requests t w g where
  sound : w.db.Sound

namespace Tracked

variable {service : WalletMovementSettings} {requests : ℕ → Request}
  {t : List (Occurrence Op Resp)} {w w' : World} {g : ℕ → Call} {i : ℕ}

theorem answered {occurrence : Occurrence Op Resp} {op : Op} {x : Resp op} {c : Claim}
    (h : Tracked requests t w g) (hopen : .closed i ∉ t)
    (hallow : (g i).allows service (requests i) op) (hans : w.Answers i op x w') :
    Tracked requests (t ++ [occurrence]) w'
      (Function.update g i ⟨(g i).session.next op x, c⟩) :=
  ⟨h.toFollowed.answered hopen hallow hans, h.sound.posts (h.posts hopen hallow hans)⟩

theorem closed (h : Tracked requests t w g) :
    Tracked requests (t ++ [.closed i]) (w.discard i) g :=
  ⟨h.toFollowed.closed, h.sound⟩

theorem drifted {now : Instant} (h : Tracked requests t w g) :
    Tracked requests (t ++ [.drifted]) { w with now := now } g :=
  ⟨h.toFollowed.drifted, h.sound⟩

theorem start {now : Instant} {db : Database} {idempotency : Entries Receipt} (h : db.Sound) :
    Tracked requests [] (World.start now db idempotency) fun _ => Call.initial :=
  ⟨.start h.toUnique, h⟩

end Tracked

/-- The run lemma: whatever the schedule and the faults, with or without a guard. -/
theorem tracked_of_run {service : WalletMovementSettings} {settings : MoveMoneySettings}
    {requests : ℕ → Request} {G : Pool.Guard deployment Exn Answer} {now : Instant}
    {db : Database} {idempotency : Entries Receipt} {t : List (Occurrence Op Resp)}
    {Q : Pool deployment Exn Answer} (hsound : db.Sound)
    (hrun : Pool.RunUnder G
      (arrivals service settings requests (World.start now db idempotency)) t Q) :
    ∃ g, Tracked requests t Q.world g ∧
      ∀ i, (protocol service (requests i)).wp (Q.clients i) (requests i).Meets (g i) := by
  have hupholds : Pool.RunUnder.Upholds (fun i => protocol service (requests i)) G
      (fun i => (requests i).Meets) (Tracked requests) := by
    constructor
    · intro t R R' g i op x hwp hinv hopen hallow hans hG
      exact ⟨_, ⟨promises_of_answers hans, rfl⟩, hinv.answered hopen hallow hans⟩
    · intro t R w g i r hdone hwp hinv hcloses
      obtain rfl : w = R.world.discard i := hcloses
      exact hinv.closed
    · intro t R w g hwp hinv hdrifts hG
      obtain ⟨now, hnow, rfl⟩ := hdrifts
      exact hinv.drifted
  exact hrun.upholds hupholds (fun i => Request.meets_protocol service settings (requests i))
    (Tracked.start hsound)

/-- Each step of a run is a step of the books, or none. -/
theorem posts_of_step {service : WalletMovementSettings} {settings : MoveMoneySettings}
    {requests : ℕ → Request} {G : Pool.Guard deployment Exn Answer} {now : Instant}
    {db : Database} {idempotency : Entries Receipt} {t : List (Occurrence Op Resp)}
    {Q R : Pool deployment Exn Answer} {occurrence : Occurrence Op Resp} (hsound : db.Sound)
    (hrun : Pool.RunUnder G
      (arrivals service settings requests (World.start now db idempotency)) t Q)
    (hstep : Pool.Step Q occurrence R) : ∃ o, Q.world.db.Posts o R.world.db := by
  obtain ⟨g, htracked, hwp⟩ := tracked_of_run hsound hrun
  cases hstep with
  | @answered i op resume x w hclient hworld =>
    have hi := hwp i
    rw [hclient] at hi
    have hopen : .closed i ∉ t := by
      intro hclosed
      obtain ⟨r, hr⟩ := hrun.done_of_closed hclosed
      rw [hclient] at hr
      cases hr
    exact ⟨_, htracked.posts hopen hi.1 hworld⟩
  | @closed i r w hclient hworld =>
    obtain rfl : w = Q.world.discard i := hworld
    exact ⟨(requests i).ownerId, .nothing⟩
  | @drifted w hworld =>
    obtain ⟨time, -, rfl⟩ := hworld
    exact ⟨(requests 0).ownerId, .nothing⟩

end Evenkeel.Infrastructure
