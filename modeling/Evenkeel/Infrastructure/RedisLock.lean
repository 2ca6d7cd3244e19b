import Mathlib.Algebra.Order.Ring.Int
import Evenkeel.Effects.Lease
import Evenkeel.Redis.Keyspace

/-!
# The Redis Lock

`infrastructure/adapters/redis/locking.py`: `SET NX PX` to take a lock, compare-and-delete to
give it back. The handles are clients of this server as `Evenkeel.Effects.Lease` has them.

- `RedisLock`: a handle of `RedisDistributedLock.lock`
- `lockServer`: the two commands, and keys that expire at some time after their TTL

## Key Results

- `stored_of_step`: the key of a live handle stores its token, for as long as its lease
- `holds_of_step`: nothing but time and its own release ends a lease
-/

namespace Evenkeel.Infrastructure

open Evenkeel.Effects Evenkeel.Redis

/-- `_RedisLock`, as it is made. The key is without its prefix. -/
structure RedisLock where
  key : String
  token : String
  ttlMs : ℤ
  waitTimeoutMs : ℤ := 0
  retryIntervalMs : ℤ := 25
  deriving DecidableEq

namespace RedisLock

def name (key : String) : String := "lock:" ++ key

/-- `SET key token PX ttl NX`. -/
def acquire (handle : RedisLock) (now : Millis) (db : Keyspace String Millis) :
    Option Millis × Keyspace String Millis :=
  match db.setNX (name handle.key) handle.token (now + handle.ttlMs) with
  | (true, db) => (some (now + handle.ttlMs), db)
  | (false, db) => (none, db)

/-- `_RELEASE_SCRIPT`. -/
def release (handle : RedisLock) (db : Keyspace String Millis) : Keyspace String Millis :=
  if db.get (name handle.key) = some handle.token then db.del (name handle.key) else db

end RedisLock

/-- Every handle has a token of its own and a positive TTL. Redis drops a key at any time
    after its TTL. -/
def lockServer (token : ℕ → String) :
    LeaseServer RedisLock (Keyspace String Millis) Millis String where
  start := fun _ => none
  origin := 0
  admits h handle := decide (handle.token = token h ∧ 0 < handle.ttlMs)
  waitTimeoutMs handle := handle.waitTimeoutMs
  attempt handle now db := handle.acquire now db
  release handle _ db := handle.release db
  drift key now db := db.evict key now

abbrev RedisLockClients : Type := LeaseClients RedisLock (Keyspace String Millis) Millis

abbrev RedisLockEvent : Type := LeaseEvent RedisLock Millis String

abbrev LockBooks : Type := Books RedisLock (Keyspace String Millis) Millis

abbrev LockAction : Type := LeaseAction RedisLock Millis String

namespace LockBooks

/-- Handle `h` of the key was granted the lock, has not given it back, and is inside its
    lease. -/
def Holds (b : LockBooks) (key : String) (h : ℕ) : Prop :=
  ∃ lease ends, b.leases h = some lease ∧ lease.request.key = key ∧
    lease.ends = some ends ∧ b.now < ends

/-- The actions that may end the lease of handle `h`: time, and its own release. -/
def Ends (h : ℕ) : LockAction → Prop
  | .tick _ => True
  | .release j => j = h
  | _ => False

/-- The key of a live handle stores its token, for as long as its lease. -/
structure Stored (token : ℕ → String) (b : LockBooks) : Prop where
  token : ∀ h lease, b.leases h = some lease → lease.request.token = token h
  stored : ∀ h lease ends, b.leases h = some lease → lease.ends = some ends → b.now < ends →
    b.store (RedisLock.name lease.request.key) = some ⟨lease.request.token, some ends⟩

variable {token : ℕ → String} {b b' : LockBooks} {h j : ℕ} {lease found : Lease RedisLock Millis}
  {key : String} {action : LockAction} {ends : Millis}

theorem stored_start (token : ℕ → String) : Stored token ⟨0, fun _ => none, fun _ => none⟩ := by
  constructor
  · intro h lease hnone
    cases hnone
  · intro h lease ends hnone
    cases hnone

/-- Two live handles of one key are one. -/
theorem Stored.unique (hstored : Stored token b) (htoken : Function.Injective token)
    (hh : b.Holds key h) (hj : b.Holds key j) : h = j := by
  obtain ⟨lease, ends, hlease, hkey, hends, hlt⟩ := hh
  obtain ⟨found, ends', hfound, hkey', hends', hlt'⟩ := hj
  have hcell := hstored.stored h lease ends hlease hends hlt
  have hcell' := hstored.stored j found ends' hfound hends' hlt'
  rw [hkey] at hcell
  rw [hkey', hcell, Option.some.injEq, Cell.mk.injEq] at hcell'
  have htokens := hcell'.1
  rw [hstored.token h lease hlease, hstored.token j found hfound] at htokens
  exact htoken htokens

/-- A `SET` finds no live handle where it is granted, and does nothing where it is not. -/
theorem acquire_cases (handle : RedisLock) (now : Millis) (db : Keyspace String Millis) :
    (db (RedisLock.name handle.key) = none ∧ handle.acquire now db =
      (some (now + handle.ttlMs),
        db.set (RedisLock.name handle.key) handle.token (now + handle.ttlMs))) ∨
      (db (RedisLock.name handle.key) ≠ none ∧ handle.acquire now db = (none, db)) := by
  unfold RedisLock.acquire Keyspace.setNX
  cases hdb : db (RedisLock.name handle.key) with
  | none => simp
  | some cell => simp

/-- The release of a handle leaves the key of every other live one. -/
theorem Stored.release_frame (hstored : Stored token b) (htoken : Function.Injective token)
    (hlease : b.leases h = some lease) (hfound : b.leases j = some found) (hj : j ≠ h)
    (hends : found.ends = some ends) (hlt : b.now < ends) :
    lease.request.release b.store (RedisLock.name found.request.key) =
      b.store (RedisLock.name found.request.key) := by
  unfold RedisLock.release
  by_cases hget : b.store.get (RedisLock.name lease.request.key) = some lease.request.token
  · rw [if_pos hget]
    apply Keyspace.del_of_ne
    intro hkey
    have hcell := hstored.stored j found ends hfound hends hlt
    rw [hkey] at hcell
    simp only [Keyspace.get, hcell, Option.map_some, Option.some.injEq] at hget
    rw [hstored.token h lease hlease, hstored.token j found hfound] at hget
    exact hj (htoken hget)
  · rw [if_neg hget]

/-- A key that has run out is no live handle's. -/
theorem Stored.evict_frame (hstored : Stored token b) {name : String} {cell : Cell String Millis}
    (hcell : b.store name = some cell) (helapsed : cell.elapsed b.now = true)
    (hfound : b.leases j = some found) (hends : found.ends = some ends) (hlt : b.now < ends) :
    b.store.del name (RedisLock.name found.request.key) =
      b.store (RedisLock.name found.request.key) := by
  apply Keyspace.del_of_ne
  intro hname
  have hstore := hstored.stored j found ends hfound hends hlt
  obtain rfl := Option.some.inj ((hname ▸ hstore).symm.trans hcell)
  obtain ⟨t, ht, hle⟩ := Keyspace.elapsed_iff.mp helapsed
  obtain rfl : ends = t := Option.some.inj ht
  exact absurd hlt (not_lt.mpr hle)

theorem stored_of_step (htoken : Function.Injective token) (hstored : Stored token b)
    (hstep : b.step (lockServer token) action = some b') : Stored token b' := by
  cases action with
  | create h handle =>
    obtain ⟨-, hadmits, rfl⟩ := Books.of_create hstep
    constructor
    · -- every lease has its own token
      intro j found hfound
      rcases Books.of_update hfound with ⟨rfl, rfl⟩ | ⟨-, hfound⟩
      · exact (of_decide_eq_true hadmits).1
      · exact hstored.token j found hfound
    · -- a new one has not been granted yet
      intro j found ends hfound hends hlt
      rcases Books.of_update hfound with ⟨rfl, rfl⟩ | ⟨-, hfound⟩
      · cases hends
      · exact hstored.stored j found ends hfound hends hlt
  | attempt h =>
    obtain ⟨lease, hlease, rfl⟩ := Books.of_attempt hstep
    constructor
    · intro j found hfound
      rcases Books.of_update hfound with ⟨rfl, rfl⟩ | ⟨-, hfound⟩
      · exact hstored.token j lease hlease
      · exact hstored.token j found hfound
    · intro j found ends hfound hends hlt
      -- the lock is free and is granted, or is not
      rcases acquire_cases lease.request b.now b.store with ⟨hnone, heq⟩ | ⟨-, heq⟩
      · simp only [lockServer, heq] at hfound ⊢
        -- what is granted is in the store
        rcases Books.of_update hfound with ⟨rfl, rfl⟩ | ⟨-, hfound⟩
        · obtain rfl := Option.some.inj hends
          exact Keyspace.set_self
        · -- the lease of another key is not touched
          have hcell := hstored.stored j found ends hfound hends hlt
          have hname : RedisLock.name found.request.key ≠ RedisLock.name lease.request.key :=
            fun hname => by simp [hname, hnone] at hcell
          rwa [Keyspace.set_of_ne hname]
      · simp only [lockServer, heq, Option.none_or] at hfound ⊢
        rcases Books.of_update hfound with ⟨rfl, rfl⟩ | ⟨-, hfound⟩
        · exact hstored.stored j lease ends hlease hends hlt
        · exact hstored.stored j found ends hfound hends hlt
  | release h =>
    obtain ⟨lease, hlease, rfl⟩ := Books.of_release hstep
    constructor
    · intro j found hfound
      rcases Books.of_update hfound with ⟨rfl, rfl⟩ | ⟨-, hfound⟩
      · exact hstored.token j lease hlease
      · exact hstored.token j found hfound
    · intro j found ends hfound hends hlt
      -- what is released is no lease any more
      rcases Books.of_update hfound with ⟨rfl, rfl⟩ | ⟨hj, hfound⟩
      · cases hends
      · have hframe := hstored.release_frame htoken hlease hfound hj hends hlt
        exact hframe.trans (hstored.stored j found ends hfound hends hlt)
  | drift name =>
    obtain ⟨store, hdrift, rfl⟩ := Books.of_drift hstep
    obtain ⟨cell, hcell, helapsed, rfl⟩ := Keyspace.of_evict hdrift
    -- the server drops only cells that are over
    refine ⟨hstored.token, ?_⟩
    intro j found ends hfound hends hlt
    have hframe := hstored.evict_frame hcell helapsed hfound hends hlt
    exact hframe.trans (hstored.stored j found ends hfound hends hlt)
  | tick t =>
    -- what has not ended has not ended before
    obtain ⟨hle, rfl⟩ := Books.of_tick hstep
    refine ⟨hstored.token, ?_⟩
    intro j found ends hfound hends hlt
    exact hstored.stored j found ends hfound hends (hle.trans_lt hlt)

theorem stored_of_run (htoken : Function.Injective token)
    {t : List (Transition RedisLockClients RedisLockEvent)} {s : RedisLockClients}
    (hrun : (LeaseClients.machine (lockServer token)).Run t s) : Stored token s.books := by
  refine LeaseClients.books_of_run (S := lockServer token) (stored_start token) ?_ hrun
  intro b action b' hstored hstep
  exact stored_of_step htoken hstored hstep

/-- Nothing but time and its own release ends the lease of a handle, or touches its key. -/
theorem holds_of_step (htoken : Function.Injective token) (hstored : Stored token b)
    (hstep : b.step (lockServer token) action = some b') (hholds : b.Holds key j)
    (haction : ¬ Ends j action) :
    b'.Holds key j ∧ b'.store (RedisLock.name key) = b.store (RedisLock.name key) := by
  obtain ⟨found, ends, hfound, rfl, hends, hlt⟩ := hholds
  cases action with
  | create h handle =>
    -- a new handle is another one
    obtain ⟨hnone, -, rfl⟩ := Books.of_create hstep
    have hj : j ≠ h := fun hj => by simp [← hj, hfound] at hnone
    exact ⟨⟨found, ends, (Function.update_of_ne hj ..).trans hfound, rfl, hends, hlt⟩, rfl⟩
  | attempt h =>
    obtain ⟨lease, hlease, rfl⟩ := Books.of_attempt hstep
    have hcell := hstored.stored j found ends hfound hends hlt
    rcases acquire_cases lease.request b.now b.store with ⟨hnone, heq⟩ | ⟨-, heq⟩
    · -- what is granted is the lock of another key
      have hname : RedisLock.name found.request.key ≠ RedisLock.name lease.request.key :=
        fun hname => by simp [← hname, hcell] at hnone
      have hj : j ≠ h := by
        rintro rfl
        obtain rfl := Option.some.inj (hlease.symm.trans hfound)
        exact hname rfl
      simp only [lockServer, heq]
      exact ⟨⟨found, ends, (Function.update_of_ne hj ..).trans hfound, rfl, hends, hlt⟩,
        Keyspace.set_of_ne hname⟩
    · -- what is refused changes nothing
      simp only [lockServer, heq, Option.none_or]
      have hsame : Function.update b.leases h (some ⟨lease.request, lease.ends⟩) = b.leases := by
        rw [Function.update_eq_self_iff, hlease]
      rw [hsame]
      exact ⟨⟨found, ends, hfound, rfl, hends, hlt⟩, trivial⟩
  | release h =>
    -- the release is of another handle, as the token says
    obtain ⟨lease, hlease, rfl⟩ := Books.of_release hstep
    have hj : j ≠ h := fun hj => haction hj.symm
    exact ⟨⟨found, ends, (Function.update_of_ne hj ..).trans hfound, rfl, hends, hlt⟩,
      hstored.release_frame htoken hlease hfound hj hends hlt⟩
  | drift name =>
    obtain ⟨store, hdrift, rfl⟩ := Books.of_drift hstep
    obtain ⟨cell, hcell, helapsed, rfl⟩ := Keyspace.of_evict hdrift
    exact ⟨⟨found, ends, hfound, rfl, hends, hlt⟩,
      hstored.evict_frame hcell helapsed hfound hends hlt⟩
  | tick t => exact absurd trivial haction

end LockBooks

end Evenkeel.Infrastructure
