import Evenkeel.Redis.Keyspace

/-!
# Sorted Sets

Members with scores, and the commands on the keys that hold them. A key whose set has become
empty is gone; a command that changes a set leaves the expiry time of its key.

- `items`: the members under a key
- `zadd`, `zrem`, `zcard`, `zremrangebyscore`: the commands

## Key Results

- `items_zadd`, `items_zrem`, `items_zremrangebyscore`: what they do to the members
-/

namespace Evenkeel.Redis

/-- Members and their scores; a member is in it once. -/
abbrev SortedSet : Type := List (String × ℤ)

namespace SortedSet

def remove (set : SortedSet) (member : String) : SortedSet :=
  set.filter fun item => item.1 ≠ member

def add (set : SortedSet) (member : String) (score : ℤ) : SortedSet :=
  set.remove member ++ [(member, score)]

end SortedSet

namespace Keyspace

variable (db : Keyspace SortedSet Millis) (key : String)

/-- The members under a key, none if it is missing. -/
def items : SortedSet := (db.get key).getD []

/-- A key keeps its expiry time with a new set, and goes with an empty one. -/
def putSet (set : SortedSet) : Keyspace SortedSet Millis :=
  if set = [] then db.del key else db.put key set

def zadd (member : String) (score : ℤ) : Keyspace SortedSet Millis :=
  db.putSet key ((db.items key).add member score)

def zrem (member : String) : Keyspace SortedSet Millis :=
  db.putSet key ((db.items key).remove member)

def zcard : ℕ := (db.items key).length

/-- `ZREMRANGEBYSCORE key -inf max`. -/
def zremrangebyscore (max : ℤ) : Keyspace SortedSet Millis :=
  db.putSet key ((db.items key).filter fun item => max < item.2)

variable {db key} {key' member : String} {score max : ℤ} {set : SortedSet} {now t : Millis}
  {cell : Cell SortedSet Millis}

theorem items_of_eq {db' : Keyspace SortedSet Millis} (h : db' key = db key) :
    db'.items key = db.items key := by
  simp [items, get, h]

@[simp] theorem putSet_of_ne (h : key' ≠ key) : db.putSet key set key' = db key' := by
  unfold putSet
  by_cases hset : set = []
  · simp [hset, h]
  · simp [hset, h]

@[simp] theorem items_putSet : (db.putSet key set).items key = set := by
  unfold putSet
  by_cases hset : set = []
  · simp [hset, items, get]
  · simp [hset, items, get]

/-- A set that is made smaller was there, and runs out when it would have. -/
theorem of_putSet (h : db.putSet key set key = some cell) (hset : db key = none → set = []) :
    ∃ old, db key = some old ∧ cell.expiresAt = old.expiresAt := by
  unfold putSet at h
  by_cases hempty : set = []
  · simp [hempty] at h
  · simp only [hempty, if_false, put_self, Option.some.injEq] at h
    cases hold : db key with
    | none => exact absurd (hset hold) hempty
    | some old =>
      refine ⟨old, rfl, ?_⟩
      rw [← h, hold]
      rfl

theorem of_zrem (h : db.zrem key member key = some cell) :
    ∃ old, db key = some old ∧ cell.expiresAt = old.expiresAt :=
  of_putSet h fun hnone => by simp [items, get, hnone, SortedSet.remove]

theorem of_zremrangebyscore (h : db.zremrangebyscore key max key = some cell) :
    ∃ old, db key = some old ∧ cell.expiresAt = old.expiresAt :=
  of_putSet h fun hnone => by simp [items, get, hnone]

@[simp] theorem items_zadd :
    (db.zadd key member score).items key = (db.items key).add member score := items_putSet

@[simp] theorem items_zrem :
    (db.zrem key member).items key = (db.items key).remove member := items_putSet

@[simp] theorem items_zremrangebyscore : (db.zremrangebyscore key max).items key =
    (db.items key).filter fun item => max < item.2 := items_putSet

@[simp] theorem items_pexpire : (db.pexpire key t).items key = db.items key := by
  simp only [items, get, pexpire_self, Option.map_map]
  rfl

/-- What is seen of a key whose cell has not run out. -/
theorem items_purge (h : ∀ cell, db key = some cell → cell.elapsed now = false) :
    (db.purge now).items key = db.items key := by
  apply items_of_eq
  cases hcell : db key with
  | none => simp [purge, hcell]
  | some cell => exact purge_eq_some_iff.mpr ⟨hcell, h cell hcell⟩

/-- Nothing is seen of one that has. -/
theorem items_purge_of_elapsed (hcell : db key = some cell) (h : cell.elapsed now = true) :
    (db.purge now).items key = [] := by
  simp [items, get, purge_of_elapsed hcell h]

end Keyspace

end Evenkeel.Redis
