import Evenkeel.Python.JsonLimits

/-!
# Outbound Calls

`infrastructure/adapters/http/transport.py`.

- `readCapped`, `decodeObject`: the body of a response, whoever sent it

## Key Results

- `readCapped_eq`: the segments a body arrives in make no difference
- `decodeObject_ok_iff`: a body is decoded or found to be no object, within the limits
-/

namespace Evenkeel.Infrastructure

open Evenkeel.Python

/-! ## Bodies -/

/-- `read_capped`. Each read returns what is buffered, which is the next segment or the part
    of it that was asked for; `left` is what may still be read. -/
def readCapped : List (List UInt8) → ℕ → List UInt8
  | [], _ => []
  | segment :: segments, left =>
    let chunk := segment.take left
    -- an empty read is the end of the stream
    if chunk = [] then []
    else if left ≤ chunk.length then chunk
    else chunk ++ readCapped segments (left - chunk.length)

/-- However it arrives, what is read of a body is its beginning, up to the cap. -/
theorem readCapped_eq {segments : List (List UInt8)} (h : ∀ s ∈ segments, s ≠ []) (left : ℕ) :
    readCapped segments left = segments.flatten.take left := by
  induction segments generalizing left with
  | nil => simp [readCapped]
  | cons segment segments ih =>
    have hsegment : segment ≠ [] := h segment List.mem_cons_self
    have hrest := ih fun s hs => h s (List.mem_cons_of_mem _ hs)
    rw [readCapped, List.flatten_cons]
    split
    · rename_i hempty
      -- only a read of nothing at all is empty
      have hleft : left = 0 := by simpa [hsegment] using hempty
      simp [hleft]
    · split
      · rename_i _ hfull
        have hlength : left ≤ segment.length := by
          simp only [List.length_take] at hfull
          omega
        rw [List.take_append_of_le_length hlength]
      · rename_i _ hmore
        have hlength : segment.length < left := by
          simp only [List.length_take] at hmore
          omega
        rw [List.take_of_length_le hlength.le, hrest, List.take_append,
          List.take_of_length_le hlength.le]

/-- `decode_object`: `except (json.JSONDecodeError, UnicodeDecodeError)`, and no more. -/
def decodeObject (py : Interpreter) (raw : List UInt8) : Except JsonError (Option Dict) :=
  match loadsBytes py raw with
  | .ok (.obj items) => .ok (some items)
  | .ok _ => .ok none
  | .error .decode => .ok none
  | .error .unicode => .ok none
  | .error e => .error e

variable {py : Interpreter}

/-- `decode_object` raises what it does not name. -/
theorem decodeObject_error {raw : List UInt8} {e : JsonError}
    (h : decodeObject py raw = .error e) : Limited (loadsBytes py raw) := by
  unfold decodeObject at h
  split at h
  · cases h
  · cases h
  · cases h
  · cases h
  · rename_i e' hdecode hunicode heq
    rw [heq, limited_error]
    cases e' with
    | decode => exact absurd rfl hdecode
    | unicode => exact absurd rfl hunicode
    | value => exact .inl rfl
    | recursion => exact .inr rfl

theorem decodeObject_some {raw : List UInt8} {items : Dict}
    (h : decodeObject py raw = .ok (some items)) : loadsBytes py raw = .ok (.obj items) := by
  unfold decodeObject at h
  split at h <;> cases h
  assumption

theorem decodeObject_none {raw : List UInt8} (h : decodeObject py raw = .ok none) :
    (∀ items, loadsBytes py raw ≠ .ok (.obj items)) ∧ ¬Limited (loadsBytes py raw) := by
  unfold decodeObject at h
  split at h
  · cases h
  · rename_i v hobject heq
    rw [heq]
    refine ⟨?_, limited_ok v⟩
    intro items hitems
    exact hobject items (Except.ok.inj hitems)
  · rename_i heq
    simp [heq]
  · rename_i heq
    simp [heq]
  · cases h

theorem decodeObject_ok_iff {raw : List UInt8} :
    (∃ body, decodeObject py raw = .ok body) ↔ ¬Limited (loadsBytes py raw) := by
  constructor
  · intro hok hlimited
    obtain ⟨body, hbody⟩ := hok
    cases body with
    | none => exact (decodeObject_none hbody).2 hlimited
    | some items =>
      rw [decodeObject_some hbody] at hlimited
      exact limited_ok _ hlimited
  · intro hwithin
    cases hdecode : decodeObject py raw with
    | ok body => exact ⟨body, rfl⟩
    | error e => exact absurd (decodeObject_error hdecode) hwithin

namespace Sample

/-- An interpreter that takes each byte for a character, and no header for a number. -/
def latin : Interpreter where
  limits := { depth := 10000 }
  decode raw := some (raw.map fun b => Char.ofNat b.toNat)
  float _ := none

/-- One that cannot decode anything. -/
def deaf : Interpreter where
  limits := { depth := 10000 }
  decode _ := none
  float _ := none

end Sample

end Evenkeel.Infrastructure
