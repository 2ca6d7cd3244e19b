import Evenkeel.Application.Protocol
import Evenkeel.Effects.Interleaving
import Evenkeel.Infrastructure.Database
import Evenkeel.Infrastructure.Idempotency

/-!
# The Deployment

One database, one idempotency store, one lock server and one clock, shared by any number
of requests that are being served at the same time. Request `i` has a session, and so a
transaction, of its own.

What is assumed of PostgreSQL is in `World.Serves`: a statement sees the committed rows
and its own transaction's writes; an `UPDATE` that changes a row holds it until its
transaction ends; a primary key is unique among committed and uncommitted rows; a commit
makes the writes visible at once. `SELECT … FOR UPDATE` is given no power at all, and the
lock may grant every request, since a lease can always have run out.

Any operation may also fail, before or after it took effect: the store, the lock and the
database are reached over a network, and the request may be cancelled while it waits.
-/

namespace Evenkeel.Infrastructure

open Evenkeel.Domain Evenkeel.Application Evenkeel.Effects

structure World where
  now : Instant
  db : Database
  tx : ℕ → Transaction
  idempotency : Entries Receipt
  /-- The request that holds a lock, by the lock's name. -/
  locks : String → Option ℕ
  /-- Every transaction that was committed, with its request; nothing reads it. -/
  commits : List (ℕ × Transaction)

namespace World

variable (w : World) (i : ℕ)

/-- The tables as request `i` sees them. -/
def view : Database := w.db.apply (w.tx i)

/-- Change request `i`'s transaction. -/
def write (f : Transaction → Transaction) : World :=
  { w with tx := Function.update w.tx i (f (w.tx i)) }

/-- A statement opens the transaction it runs in. -/
def begin : World := w.write i fun tx => { tx with active := true }

/-- The writes of request `i` are forgotten. -/
def discard : World := w.write i fun _ => {}

/-- No other transaction holds the wallet's row. -/
def Free (id : UUID) : Prop := ∀ j, j ≠ i → ∀ row ∈ (w.tx j).updates, row.id ≠ id

/-- The id is not a primary key yet, nor about to become one. -/
def NewWalletId (id : UUID) : Prop :=
  (∀ row ∈ w.db.wallets, row.id ≠ id) ∧ ∀ j, ∀ row ∈ (w.tx j).newWallets, row.id ≠ id

def NewEntryId (id : UUID) : Prop :=
  (∀ row ∈ w.db.ledger, row.id ≠ id) ∧ ∀ j, ∀ row ∈ (w.tx j).newEntries, row.id ≠ id

/-- The row an `UPDATE … WHERE id = … AND version = …` looks for. -/
def Matches (wallet : Wallet) (expectedVersion : ℤ) (row : WalletRow) : Prop :=
  row.id = wallet.id.value ∧ row.version = expectedVersion

/-- How each operation of request `i` is answered when nothing fails. -/
def Serves : (op : Op) → Resp op → World → Prop
  | .reserve key fp ttl, x, w' =>
      x = (w.idempotency.reserve w.now key fp ttl).1 ∧
        w' = { w with idempotency := (w.idempotency.reserve w.now key fp ttl).2 }
  | .confirm key response ttl, x, w' =>
      x = (w.idempotency.confirm w.now key response ttl).1 ∧
        w' = { w with idempotency := (w.idempotency.confirm w.now key response ttl).2 }
  | .release key, x, w' =>
      x = .ok () ∧ w' = { w with idempotency := w.idempotency.release w.now key }
  | .enterLock key _ _, x, w' =>
      (x = .ok true ∧ w' = { w with locks := Function.update w.locks key (some i) }) ∨
        (x = .ok false ∧ w' = w ∧ ∃ j, j ≠ i ∧ w.locks key = some j)
  | .exitLock key, x, w' =>
      x = .ok () ∧ w' = if w.locks key = some i
        then { w with locks := Function.update w.locks key none } else w
  | .readWallet id o _, x, w' => x = (w.view i).readWallet id o ∧ w' = w.begin i
  | .listByOwner o limit cursor, x, w' =>
      x = (w.view i).listByOwner o limit cursor ∧ w' = w.begin i
  | .readEntry id o, x, w' => x = (w.view i).readEntry id o ∧ w' = w.begin i
  | .listByWallet id o limit cursor, x, w' =>
      x = (w.view i).listByWallet id o limit cursor ∧ w' = w.begin i
  | .addWallet wallet, x, w' =>
      x = .ok () ∧ w.NewWalletId wallet.id.value ∧ w' = w.write i fun tx =>
        { tx with active := true, newWallets := tx.newWallets ++ [.ofWallet wallet] }
  | .addEntry entry, x, w' =>
      x = .ok () ∧ w.NewEntryId entry.id.value ∧ w' = w.write i fun tx =>
        { tx with active := true, newEntries := tx.newEntries ++ [.ofEntry entry] }
  | .updateWallet wallet expectedVersion, x, w' =>
      (x = .ok true ∧ w.Free i wallet.id.value ∧
        ∃ row ∈ (w.view i).wallets, Matches wallet expectedVersion row ∧
          w' = w.write i fun tx =>
            { tx with
              active := true
              updates :=
                { WalletRow.ofWallet wallet with createdAt := row.createdAt } :: tx.updates }) ∨
        (x = .ok false ∧ (∀ row ∈ (w.view i).wallets, ¬ Matches wallet expectedVersion row) ∧
          w' = w.begin i)
  | .commit, x, w' =>
      x = .ok () ∧ w' = { w.discard i with
        db := w.view i, commits := w.commits ++ [(i, w.tx i)] }
  | .rollback, x, w' => x = .ok () ∧ w' = w.discard i
  | .consume .., x, w' => (∃ decision, x = .ok decision) ∧ w' = w
  | .assess _, x, w' => (∃ decision, x = .ok decision) ∧ w' = w
  | .now, _, w' => w' = w
  | .generate, _, w' => w' = w
  | .observe _, _, w' => w' = w

/-- Issuing a statement, which opens a transaction even if the statement fails. -/
def issue (op : Op) : World :=
  match op with
  | .readWallet .. => w.begin i
  | .addWallet _ => w.begin i
  | .updateWallet .. => w.begin i
  | .listByOwner .. => w.begin i
  | .readEntry .. => w.begin i
  | .addEntry _ => w.begin i
  | .listByWallet .. => w.begin i
  | _ => w

/-- An operation fails, before or after it took effect. -/
def Fails (op : Op) (x : Resp op) (w' : World) : Prop :=
  (∃ e, failure e op = some x) ∧ (w' = w.issue i op ∨ ∃ y, w.Serves i op y w')

def Answers (op : Op) (x : Resp op) (w' : World) : Prop :=
  w.Serves i op x w' ∨ w.Fails i op x w'

end World

/-- Requests share the world; a finished request's session is closed, and time passes. -/
def deployment : Environment Op Resp where
  World := World
  answers i w := w.Answers i
  closes i w w' := w' = w.discard i
  drifts w w' := ∃ t, w.now ≤ t ∧ w' = { w with now := t }

/-- A world in which nothing is going on: no transaction, no lock, no commit yet. -/
def World.start (now : Instant) (db : Database) (idempotency : Entries Receipt) : World :=
  ⟨now, db, fun _ => {}, idempotency, fun _ => none, []⟩

/-- Requests that have arrived and not begun yet, in a world. -/
def arrivals (service : WalletMovementSettings) (settings : MoveMoneySettings)
    (requests : ℕ → Request) (w : World) : Pool deployment Exn Answer where
  world := w
  clients i := (requests i).program service settings

/-! ## A small deployment -/

/-- In a world where no other request has updated anything, every row is free. -/
theorem World.free_of_blank {w : World} {i : ℕ} {id : UUID}
    (h : ∀ j, j ≠ i → (w.tx j).updates = []) : w.Free i id := by
  intro j hj row hrow
  rw [h j hj] at hrow
  cases hrow

theorem World.newEntryId_of_blank {w : World} {id : UUID} (hdb : ∀ row ∈ w.db.ledger, row.id ≠ id)
    (htx : ∀ j, (w.tx j).newEntries = []) : w.NewEntryId id := by
  refine ⟨hdb, fun j row hrow => ?_⟩
  rw [htx j] at hrow
  cases hrow

namespace Sample

/-- An owner with one wallet, and a deposit of one euro to it. -/
def owner : OwnerId := ⟨⟨7, by norm_num⟩⟩

def euro : Money :=
  ⟨⟨false, 100, -2⟩, ⟨"EUR"⟩, by decide, ⟨false, 100, -2⟩, by decide, by decide⟩

def wallet : Wallet := Wallet.open ⟨⟨1, by norm_num⟩⟩ owner euro.currency 0

def database : Database := ⟨[.ofWallet wallet], [], .ascii⟩

def deposit (key : Option String) : MovementRequest :=
  ⟨wallet.id, owner, euro, .credit, "deposit", key⟩

/-- The wallet after the deposit. -/
def credited : Wallet := { wallet with balance := euro, version := 1, balance_nonneg := by decide }

/-- The wallet after a second one. -/
def twiceCredited : Wallet where
  __ := wallet
  balance := ⟨⟨false, 200, -2⟩, ⟨"EUR"⟩, by decide, ⟨false, 200, -2⟩, by decide, by decide⟩
  version := 2
  balance_nonneg := by decide

/-- The next id the generator mints. -/
def minted : UUID := ⟨9, by norm_num⟩

def mintedNext : UUID := ⟨12, by norm_num⟩

def entry (id : UUID) : LedgerEntry := .record ⟨id⟩ wallet.id .credit euro euro "deposit" 0

/-- When a claim that was made at time 0 expires. -/
def tomorrow : Python.Binary64 := .ofRat (86400 : ℤ)

theorem expiry_zero_day : expiry 0 86400 = some tomorrow :=
  expiry_zero (by norm_num) (by norm_num)

theorem zero_lt_tomorrow : monotonic 0 < tomorrow := by decide +kernel

theorem lives_zero : Lives 0 86400 0 := by
  refine ⟨by norm_num, fun t ht => ?_⟩
  obtain rfl := Option.some.inj (expiry_zero_day.symm.trans ht)
  exact zero_lt_tomorrow

section

variable {w : World} {s : Entries Receipt} {i : ℕ} {key fp : String} {earlier : Option Receipt}
  {receipt : Receipt}

/-- The first claim of a key. -/
theorem serves_claim (hnow : w.now = 0) (hentry : w.idempotency key = none) :
    w.Serves i (.reserve key fp 86400) (.ok ⟨.reserved, none⟩) { w with
      idempotency := Function.update w.idempotency key (some ⟨fp, tomorrow, none⟩) } := by
  refine ⟨?_, ?_⟩ <;> simp [hnow, Entries.reserve, Entries.live, hentry, expiry_zero_day]

theorem serves_confirm (hnow : w.now = 0)
    (hstore : w.idempotency = Function.update s key (some ⟨fp, tomorrow, earlier⟩)) :
    w.Serves i (.confirm key receipt 86400) (.ok ()) { w with
      idempotency := Function.update w.idempotency key (some ⟨fp, tomorrow, some receipt⟩) } := by
  have hentry : w.idempotency key = some ⟨fp, tomorrow, earlier⟩ := by simp [hstore]
  have hlive : w.idempotency.live 0 key = _ := Entries.live_of_lt hentry zero_lt_tomorrow
  refine ⟨?_, ?_⟩ <;> simp [hnow, Entries.confirm, hlive, expiry_zero_day]

/-- A later claim is answered with what was confirmed. -/
theorem serves_replay (hnow : w.now = 0)
    (hstore : w.idempotency = Function.update s key (some ⟨fp, tomorrow, some receipt⟩)) :
    w.Serves i (.reserve key fp 86400) (.ok ⟨.completed, some ⟨key, fp, receipt⟩⟩) w := by
  have hentry : w.idempotency key = some ⟨fp, tomorrow, some receipt⟩ := by simp [hstore]
  have httl : (0 : ℤ) < 86400 := by norm_num
  have hreserve : w.idempotency.reserve 0 key fp 86400 =
      (.ok ⟨.completed, some ⟨key, fp, receipt⟩⟩, w.idempotency) := by
    simpa using Entries.reserve_of_live hentry zero_lt_tomorrow fp httl
  rw [← hnow] at hreserve
  refine ⟨?_, ?_⟩ <;> rw [hreserve]

end

example : move wallet .credit euro 0 = .ok (credited, euro) := rfl

example : database.readWallet wallet.id owner = .ok (some wallet) := rfl

end Sample

end Evenkeel.Infrastructure
