import Mathlib.Algebra.Order.Ring.Int
import Mathlib.Logic.Function.Basic
import Mathlib.Tactic.Common

/-!
# A Redis Keyspace

Keys with a value and an expiry time, and the commands on them that scripts are made of. A
script runs alone, so each command is a function of the keyspace.

- `Keyspace.get`, `set`, `setNX`, `del`, `pexpire`, `pttl`: the commands
- `Keyspace.purge`: the keyspace as it is once every key is gone whose TTL has elapsed
- `Keyspace.evict`: one such key goes, at some time after

A server that is assumed to drop keys on time is read through `purge`; for one that may take
its time, `evict` is a step of its own.
-/

namespace Evenkeel.Redis

/-- Milliseconds of the server's clock. -/
abbrev Millis : Type := ℤ

/-- What a key holds, on a clock `T`. Without `expiresAt` it is kept for good. -/
structure Cell (ν T : Type) where
  value : ν
  expiresAt : Option T := none

abbrev Keyspace (ν T : Type) : Type := String → Option (Cell ν T)

variable {ν T : Type}

namespace Keyspace

variable (db : Keyspace ν T) (key : String)

/-- `GET`. -/
def get : Option ν := (db key).map (·.value)

/-- `SET` with an expiry time. -/
def set (value : ν) (expiresAt : T) : Keyspace ν T :=
  Function.update db key (some ⟨value, some expiresAt⟩)

/-- `SET … NX`: whether it was done. -/
def setNX (value : ν) (expiresAt : T) : Bool × Keyspace ν T :=
  match db key with
  | none => (true, db.set key value expiresAt)
  | some _ => (false, db)

/-- `DEL`. -/
def del : Keyspace ν T := Function.update db key none

/-- A new value for a key, which keeps its expiry time; a new key has none. -/
def put (value : ν) : Keyspace ν T :=
  Function.update db key (some ⟨value, (db key).bind (·.expiresAt)⟩)

/-- `PEXPIRE`, at an absolute time. -/
def pexpire (expiresAt : T) : Keyspace ν T :=
  Function.update db key ((db key).map fun cell => { cell with expiresAt := some expiresAt })

/-- `PTTL`. -/
def pttl (db : Keyspace ν Millis) (key : String) (now : Millis) : ℤ :=
  match db key with
  | none => -2
  | some ⟨_, none⟩ => -1
  | some ⟨_, some t⟩ => t - now

variable {db key} {key' : String} {value : ν} {t : T}

@[simp] theorem set_self : db.set key value t key = some ⟨value, some t⟩ :=
  Function.update_self ..

@[simp] theorem set_of_ne (h : key' ≠ key) : db.set key value t key' = db key' :=
  Function.update_of_ne h ..

@[simp] theorem del_self : db.del key key = none := Function.update_self ..

@[simp] theorem del_of_ne (h : key' ≠ key) : db.del key key' = db key' :=
  Function.update_of_ne h ..

@[simp] theorem put_self : db.put key value key = some ⟨value, (db key).bind (·.expiresAt)⟩ :=
  Function.update_self ..

@[simp] theorem put_of_ne (h : key' ≠ key) : db.put key value key' = db key' :=
  Function.update_of_ne h ..

@[simp] theorem pexpire_self :
    db.pexpire key t key = (db key).map fun cell => { cell with expiresAt := some t } :=
  Function.update_self ..

@[simp] theorem pexpire_of_ne (h : key' ≠ key) : db.pexpire key t key' = db key' :=
  Function.update_of_ne h ..

end Keyspace

/-! ## Expiry -/

variable [LinearOrder T]

/-- The TTL has run out. -/
def Cell.elapsed (cell : Cell ν T) (now : T) : Bool :=
  match cell.expiresAt with
  | none => false
  | some t => decide (t ≤ now)

namespace Keyspace

/-- Every key whose TTL has elapsed is gone. -/
def purge (db : Keyspace ν T) (now : T) : Keyspace ν T := fun key =>
  (db key).filter fun cell => !cell.elapsed now

/-- The key is dropped, if its TTL has elapsed. -/
def evict (db : Keyspace ν T) (key : String) (now : T) : Option (Keyspace ν T) :=
  match db key with
  | none => none
  | some cell => if cell.elapsed now then some (db.del key) else none

variable {db : Keyspace ν T} {key : String} {cell : Cell ν T} {now : T}

theorem elapsed_iff : cell.elapsed now = true ↔ ∃ t, cell.expiresAt = some t ∧ t ≤ now := by
  unfold Cell.elapsed
  cases cell.expiresAt with
  | none => simp
  | some t => simp

/-- What is seen at a time is what is kept and has not run out. -/
theorem purge_eq_some_iff :
    db.purge now key = some cell ↔ db key = some cell ∧ cell.elapsed now = false := by
  simp [purge, Option.filter_eq_some_iff]

theorem purge_of_elapsed (hcell : db key = some cell) (h : cell.elapsed now = true) :
    db.purge now key = none := by
  simp only [purge, hcell]
  simp [Option.filter, h]

theorem purge_of_none (hnone : db key = none) : db.purge now key = none := by
  simp [purge, hnone]

theorem purge_of_live (hcell : db key = some cell) (h : cell.elapsed now = false) :
    db.purge now key = some cell :=
  purge_eq_some_iff.mpr ⟨hcell, h⟩

@[simp] theorem purge_purge : (db.purge now).purge now = db.purge now := by
  funext key
  cases hcell : db.purge now key with
  | none => exact purge_of_none hcell
  | some cell => exact purge_of_live hcell (purge_eq_some_iff.mp hcell).2

/-- What a key shows depends on nothing but the key. -/
theorem purge_congr {db' : Keyspace ν T} (h : db' key = db key) :
    db'.purge now key = db.purge now key := by
  simp only [purge, h]

/-- What has gone stays away. -/
theorem purge_mono {now' : T} (hnone : db.purge now key = none) (hle : now ≤ now') :
    db.purge now' key = none := by
  cases hcell : db key with
  | none => exact purge_of_none hcell
  | some cell =>
    apply purge_of_elapsed hcell
    cases helapsed : cell.elapsed now with
    | false => simp [purge_of_live hcell helapsed] at hnone
    | true =>
      obtain ⟨t, ht, hlt⟩ := elapsed_iff.mp helapsed
      exact elapsed_iff.mpr ⟨t, ht, hlt.trans hle⟩

/-- What is there was there. -/
theorem purge_of_le {now' : T} (hcell : db.purge now' key = some cell) (hle : now ≤ now') :
    db.purge now key = some cell := by
  obtain ⟨hstored, hlive⟩ := purge_eq_some_iff.mp hcell
  apply purge_of_live hstored
  cases helapsed : cell.elapsed now with
  | false => rfl
  | true =>
    obtain ⟨t, ht, hlt⟩ := elapsed_iff.mp helapsed
    exact absurd (elapsed_iff.mpr ⟨t, ht, hlt.trans hle⟩) (by simp [hlive])

/-- Only a key that has run out is dropped. -/
theorem of_evict {db' : Keyspace ν T} (h : db.evict key now = some db') :
    ∃ cell, db key = some cell ∧ cell.elapsed now = true ∧ db' = db.del key := by
  unfold evict at h
  cases hcell : db key with
  | none => simp [hcell] at h
  | some cell =>
    by_cases helapsed : cell.elapsed now = true
    · simp only [hcell, helapsed, if_true, Option.some.injEq] at h
      exact ⟨cell, rfl, helapsed, h.symm⟩
    · simp [hcell, helapsed] at h

end Keyspace

end Evenkeel.Redis
