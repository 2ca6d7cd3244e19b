import Evenkeel.Logging.Redaction

/-!
# Comparing Log Records

Two records that differ only where nobody is to look, and the places of one record.

- `Same`: equality of records, up to the values of some keys
- `follow`, `outline`: the places of a record, and what is there

## Key Results

- `same_redactionProcessor`: records that differ in hidden values are the same when redacted
- `outline_redactionProcessor`: redaction changes nothing else
-/

namespace Evenkeel.Logging

variable {κ σ : Type}

/-! ## Equality of records -/

/-- Two values are the same but for what the hidden keys hold. The keys of two dicts and two
    scalars are compared as the parameters say. -/
inductive Same (order : List (Key κ) → List (Key κ) → Prop) (equal : σ → σ → Prop)
    (hidden : Key κ → Prop) : Value κ σ → Value κ σ → Prop where
  | dict {keys keys' : List (Key κ)} {distinct : keys.Nodup} {distinct' : keys'.Nodup}
      {values : {k // k ∈ keys} → Value κ σ} {values' : {k // k ∈ keys'} → Value κ σ}
      (hkeys : order keys keys')
      (hvalues : ∀ k (h : k ∈ keys) (h' : k ∈ keys'), ¬hidden k →
        Same order equal hidden (values ⟨k, h⟩) (values' ⟨k, h'⟩)) :
      Same order equal hidden (.dict keys distinct values) (.dict keys' distinct' values')
  | list {n : ℕ} {items items' : Fin n → Value κ σ}
      (hitems : ∀ i, Same order equal hidden (items i) (items' i)) :
      Same order equal hidden (.list n items) (.list n items')
  | tuple {n : ℕ} {items items' : Fin n → Value κ σ}
      (hitems : ∀ i, Same order equal hidden (items i) (items' i)) :
      Same order equal hidden (.tuple n items) (.tuple n items')
  | text (s : String) : Same order equal hidden (.text s) (.text s)
  | scalar {s s' : σ} (hequal : equal s s') : Same order equal hidden (.scalar s) (.scalar s')

theorem EventDict.eq_of_toValue {e e' : EventDict κ σ} (h : e.toValue = e'.toValue) : e = e' := by
  obtain ⟨keys, distinct, values⟩ := e
  obtain ⟨keys', distinct', values'⟩ := e'
  cases h
  rfl

/-- No key is hidden. -/
def nothing (_ : Key κ) : Prop := False

/-- With nothing hidden, and in the same order, the same values are equal. -/
theorem eq_of_same {v v' : Value κ σ} (h : Same Eq Eq nothing v v') : v = v' := by
  induction h with
  | dict hkeys hvalues ih =>
    subst hkeys
    congr 1
    funext ⟨k, hk⟩
    exact ih k hk hk id
  | list hitems ih => rw [funext ih]
  | tuple hitems ih => rw [funext ih]
  | text s => rfl
  | scalar hequal => rw [hequal]

section

variable {unicode : Unicode} {other : κ → String} {order : List (Key κ) → List (Key κ) → Prop}
  {equal : σ → σ → Prop}

/-- The keys whose values a record does not show. -/
def sensitive (unicode : Unicode) (other : κ → String) (key : Key κ) : Prop :=
  key.isSensitive unicode other = true

/-- A sensitive key has the marker for its value, whatever it was. -/
theorem same_marked {k : Key κ} {v v' : Value κ σ}
    (h : ¬sensitive unicode other k → Same order equal nothing v v') :
    Same order equal nothing (if k.isSensitive unicode other then .text redacted else v)
      (if k.isSensitive unicode other then .text redacted else v') := by
  split
  · exact .text redacted
  · rename_i hshown
    exact h hshown

theorem same_redactSensitive {v v' : Value κ σ}
    (h : Same order equal (sensitive unicode other) v v') :
    Same order equal nothing (redactSensitive unicode other v)
      (redactSensitive unicode other v') := by
  induction h with
  | dict hkeys hvalues ih =>
    rw [redactSensitive, redactSensitive]
    apply Same.dict hkeys
    intro k h h' _
    exact same_marked (ih k h h')
  | list hitems ih => exact .list ih
  | tuple hitems ih => exact .tuple ih
  | text s => exact .text s
  | scalar hequal => exact .scalar hequal

end

/-! ## The fields of a record -/

/-- A record with every field replaced. -/
def EventDict.map (f : Key κ → Value κ σ → Value κ σ) (e : EventDict κ σ) : EventDict κ σ where
  keys := e.keys
  distinct := e.distinct
  values := fun k => f k.val (e.values k)

/-- What the first pass makes of a field. -/
def redactField (unicode : Unicode) (other : κ → String) (key : Key κ) (value : Value κ σ) :
    Value κ σ :=
  if key.isSensitive unicode other then .text redacted else redactSensitive unicode other value

/-- What the second pass makes of it: the message is text. -/
def redactEvent [DecidableEq κ] (unicode : Unicode) (key : Key κ) : Value κ σ → Value κ σ
  | .text s => if key = .text "event" then .text (redactMessage unicode s) else .text s
  | value => value

section

variable [DecidableEq κ] {unicode : Unicode} {other : κ → String}

theorem redactEvent_of_ne {key : Key κ} (h : key ≠ .text "event") (value : Value κ σ) :
    redactEvent unicode key value = value := by
  cases value with
  | text s => exact if_neg h
  | _ => rfl

theorem EventDict.get?_of_mem (e : EventDict κ σ) {k : Key κ} (hk : k ∈ e.keys) :
    e.get? k = some (e.values ⟨k, hk⟩) := dif_pos hk

theorem EventDict.get?_map (f : Key κ → Value κ σ → Value κ σ) (e : EventDict κ σ) (k : Key κ) :
    (e.map f).get? k = (e.get? k).map (f k) := by
  by_cases hk : k ∈ e.keys
  · rw [EventDict.get?_of_mem e hk, Option.map_some]
    exact dif_pos hk
  · have hnone : e.get? k = none := dif_neg hk
    rw [hnone, Option.map_none]
    exact dif_neg hk

theorem redactionProcessor_eq (e : EventDict κ σ) : redactionProcessor unicode other e =
    e.map fun k v => redactEvent unicode k (redactField unicode other k v) := by
  have hitems : redactItems unicode other e = e.map (redactField unicode other) := rfl
  rw [redactionProcessor, hitems]
  split
  · -- there is a message
    rename_i event hget
    rw [EventDict.replace, EventDict.map, EventDict.map, EventDict.mk.injEq]
    refine ⟨rfl, heq_of_eq (funext fun ⟨k, hk⟩ => ?_)⟩
    dsimp only
    split
    · rename_i hevent
      subst hevent
      rw [EventDict.get?_map, EventDict.get?_of_mem e hk] at hget
      have hfield : redactField unicode other (.text "event") (e.values ⟨.text "event", hk⟩) =
        .text event := Option.some.inj hget
      rw [hfield, redactEvent, if_pos rfl]
    · rename_i hevent
      exact (redactEvent_of_ne hevent _).symm
  · -- there is none
    rename_i hnone
    rw [EventDict.map, EventDict.map, EventDict.mk.injEq]
    refine ⟨rfl, heq_of_eq (funext fun ⟨k, hk⟩ => ?_)⟩
    dsimp only
    by_cases hevent : k = .text "event"
    · subst hevent
      cases hfield : redactField unicode other (.text "event") (e.values ⟨.text "event", hk⟩) with
      | text s =>
        refine absurd ?_ (hnone s)
        rw [EventDict.get?_map, EventDict.get?_of_mem e hk, Option.map_some, hfield]
      | _ => rfl
    · exact (redactEvent_of_ne hevent _).symm

theorem same_redactEvent {order : List (Key κ) → List (Key κ) → Prop} {equal : σ → σ → Prop}
    {key : Key κ} {v v' : Value κ σ} (h : Same order equal nothing v v') :
    Same order equal nothing (redactEvent unicode key v) (redactEvent unicode key v') := by
  cases h with
  | text s =>
    rw [redactEvent]
    split
    · exact .text _
    · exact .text s
  | dict hkeys hvalues => exact .dict hkeys hvalues
  | list hitems => exact .list hitems
  | tuple hitems => exact .tuple hitems
  | scalar hequal => exact .scalar hequal

/-- What the sensitive keys of a record hold decides nothing. -/
theorem same_redactionProcessor {order : List (Key κ) → List (Key κ) → Prop}
    {equal : σ → σ → Prop} {e e' : EventDict κ σ}
    (h : Same order equal (sensitive unicode other) e.toValue e'.toValue) :
    Same order equal nothing (redactionProcessor unicode other e).toValue
      (redactionProcessor unicode other e').toValue := by
  rw [redactionProcessor_eq, redactionProcessor_eq]
  cases h with
  | dict hkeys hvalues =>
    apply Same.dict hkeys
    intro k hk hk' _
    apply same_redactEvent
    exact same_marked fun hshown => same_redactSensitive (hvalues k hk hk' hshown)

end

/-! ## The places of a record -/

/-- One step from a value to a part of it. -/
inductive Step (κ : Type) where
  | key (k : Key κ)
  | index (i : ℕ)

/-- What is at a place. -/
def Value.follow [DecidableEq κ] : Value κ σ → List (Step κ) → Option (Value κ σ)
  | value, [] => some value
  | .dict keys _ values, .key k :: path =>
    if h : k ∈ keys then (values ⟨k, h⟩).follow path else none
  | .list n items, .index i :: path => if h : i < n then (items ⟨i, h⟩).follow path else none
  | .tuple n items, .index i :: path => if h : i < n then (items ⟨i, h⟩).follow path else none
  | _, _ => none

/-- A value without what its parts are. -/
inductive Outline (κ σ : Type) where
  | dict (keys : List (Key κ))
  | list (n : ℕ)
  | tuple (n : ℕ)
  | text (s : String)
  | scalar (s : σ)

def Value.outline : Value κ σ → Outline κ σ
  | .dict keys _ _ => .dict keys
  | .list n _ => .list n
  | .tuple n _ => .tuple n
  | .text s => .text s
  | .scalar s => .scalar s

/-- The way to a place leads through no sensitive key. -/
def InSight (unicode : Unicode) (other : κ → String) (path : List (Step κ)) : Prop :=
  ∀ k, .key k ∈ path → ¬sensitive unicode other k

section

variable [DecidableEq κ] {unicode : Unicode} {other : κ → String}

omit [DecidableEq κ] in
theorem InSight.tail {step : Step κ} {path : List (Step κ)}
    (h : InSight unicode other (step :: path)) : InSight unicode other path :=
  fun k hk => h k (List.mem_cons_of_mem _ hk)

/-- What is in sight stays as it is, where it is. -/
theorem outline_redactSensitive {path : List (Step κ)} (h : InSight unicode other path)
    (v : Value κ σ) : ((redactSensitive unicode other v).follow path).map Value.outline =
      (v.follow path).map Value.outline := by
  induction path generalizing v with
  | nil => cases v <;> rfl
  | cons step path ih =>
    have hpath := ih h.tail
    -- each container is followed by its own steps; what does not fit leads nowhere on both sides
    cases v with
    | dict keys distinct values =>
      cases step with
      | index i => rfl
      | key k =>
        -- a key on the way to something in sight is not sensitive
        have hshown : ¬k.isSensitive unicode other = true := h k List.mem_cons_self
        rw [redactSensitive, Value.follow, Value.follow]
        by_cases hk : k ∈ keys
        · rw [dif_pos hk, dif_pos hk, if_neg hshown]
          exact hpath _
        · rw [dif_neg hk, dif_neg hk]
    | list n items =>
      cases step with
      | key k => rfl
      | index i =>
        rw [redactSensitive, Value.follow, Value.follow]
        split
        · exact hpath _
        · rfl
    | tuple n items =>
      cases step with
      | key k => rfl
      | index i =>
        rw [redactSensitive, Value.follow, Value.follow]
        split
        · exact hpath _
        · rfl
    | text s => cases step <;> rfl
    | scalar s => cases step <;> rfl

theorem EventDict.follow_toValue (e : EventDict κ σ) (k : Key κ) (path : List (Step κ)) :
    e.toValue.follow (.key k :: path) = (e.get? k).bind (·.follow path) := by
  rw [EventDict.get?, EventDict.toValue, Value.follow]
  split <;> rfl

/-- The place of the message, where there is one. -/
def IsMessage (e : EventDict κ σ) (path : List (Step κ)) : Prop :=
  path = [.key (.text "event")] ∧ ∃ s, e.get? (.text "event") = some (.text s)

/-- A text has no parts, so nothing behind a field notices the second pass. -/
theorem follow_redactEvent {key : Key κ} {path : List (Step κ)} (h : path ≠ [])
    (v : Value κ σ) : (redactEvent unicode key v).follow path = v.follow path := by
  obtain ⟨step, path, rfl⟩ := List.exists_cons_of_ne_nil h
  cases v with
  | text s =>
    rw [redactEvent]
    split
    · cases step <;> rfl
    · rfl
  | _ => rfl

theorem outline_redactionProcessor {e : EventDict κ σ} {path : List (Step κ)}
    (h : InSight unicode other path) (hmessage : ¬IsMessage e path) :
    ((redactionProcessor unicode other e).toValue.follow path).map Value.outline =
      (e.toValue.follow path).map Value.outline := by
  rw [redactionProcessor_eq]
  cases path with
  | nil => rfl
  | cons step path =>
    cases step with
    | index i => rfl
    | key k =>
      -- the first step is a field of the event, and it is not sensitive
      have hshown : ¬k.isSensitive unicode other = true := h k List.mem_cons_self
      rw [EventDict.follow_toValue, EventDict.follow_toValue, EventDict.get?_map]
      cases hget : e.get? k with
      | none => rfl
      | some v =>
        rw [Option.map_some, Option.bind_some, Option.bind_some, redactField, if_neg hshown]
        -- the message itself is the one field the second pass rewrites
        by_cases hpath : path = []
        · subst hpath
          by_cases hevent : k = .text "event"
          · -- a field that is not a text does not become one
            subst hevent
            cases v with
            | text s => exact absurd ⟨rfl, s, hget⟩ hmessage
            | _ => rfl
          · rw [redactEvent_of_ne hevent]
            exact outline_redactSensitive h.tail v
        · -- below a field the second pass changes nothing
          rw [follow_redactEvent hpath]
          exact outline_redactSensitive h.tail v

end

end Evenkeel.Logging
