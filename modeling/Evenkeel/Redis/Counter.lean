import Mathlib.Tactic.NormNum
import Evenkeel.Redis.Keyspace

/-!
# Counters

Keys that hold integers, and the doubles that a script counts with.

- `Keyspace.incrBy`: `INCRBY`, on integers of 64 bits
- `luaNumber`: an integer as Lua has it
-/

namespace Evenkeel.Redis

/-- Whether Redis can hold the integer. -/
def fitsInt64 (n : ℤ) : Bool := decide (-2 ^ 63 ≤ n ∧ n < 2 ^ 63)

/-- The double closest to an integer, the even one if two are. -/
def luaNumber (n : ℤ) : ℤ :=
  let unit := 2 ^ (Nat.log2 n.natAbs + 1 - 53)
  let quotient := n.natAbs / unit
  let rest := 2 * (n.natAbs % unit)
  let rounded :=
    if unit < rest ∨ (rest = unit ∧ quotient % 2 = 1) then quotient + 1 else quotient
  n.sign * (rounded * unit : ℕ)

example : luaNumber (2 ^ 53 + 1) = 2 ^ 53 := by decide

namespace Keyspace

/-- `INCRBY`: the new value, unless it or the increment is out of range. -/
def incrBy (db : Keyspace ℤ Millis) (key : String) (increment : ℤ) :
    Option (ℤ × Keyspace ℤ Millis) :=
  let value := (db.get key).getD 0 + increment
  if fitsInt64 increment && fitsInt64 value then some (value, db.put key value) else none

end Keyspace

end Evenkeel.Redis
