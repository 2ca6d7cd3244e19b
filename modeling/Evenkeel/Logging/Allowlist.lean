import Evenkeel.Logging.Redaction

/-!
# Allowlists

`allowlisted` of `logging.py`: of a payload that somebody else wrote, the values under the
named keys are kept, and every other value is replaced by a marker. The keys are kept.
-/

namespace Evenkeel.Logging

variable {κ σ : Type}

/-- `result[key] = value`: a key that is there keeps its place. -/
def assign {α : Type} (key : String) (value : α) : List (String × α) → List (String × α)
  | [] => [(key, value)]
  | item :: rest =>
    if item.1 = key then (key, value) :: rest else item :: assign key value rest

section

variable (other : κ → String) (allow : List String)

/-- The value under a key, or the marker. A key that is no string is in no set of strings. -/
def allowedValue (key : Key κ) (value : Value κ σ) : Value κ σ :=
  match key with
  | .text s => if s ∈ allow then value else .text redacted
  | .other _ => .text redacted

/-- The loop of `allowlisted`, over the items that are left. -/
def allowItems (total maxItems : ℕ) :
    ℕ → List (Key κ × Value κ σ) → List (String × Value κ σ) → List (String × Value κ σ)
  | _, [], result => result
  | index, (key, value) :: rest, result =>
    if maxItems ≤ index then
      assign "..." (.text (toString (total - maxItems) ++ " more keys")) result
    else
      allowItems total maxItems (index + 1) rest
        (assign (key.str other) (allowedValue allow key value) result)

/-- `payload.items()`. -/
def EventDict.items (payload : EventDict κ σ) : List (Key κ × Value κ σ) :=
  payload.keys.attach.map fun key => (key.val, payload.values key)

/-- `allowlisted`. -/
def allowlisted (payload : Option (EventDict κ σ)) (maxItems : ℕ) : List (String × Value κ σ) :=
  match payload with
  | none => []
  | some payload => allowItems other allow payload.keys.length maxItems 0 payload.items []

end

/-! ## What is published -/

section

variable {other : κ → String} {allow : List String}

theorem mem_assign {α : Type} {key : String} {value : α} {items : List (String × α)}
    {item : String × α} (h : item ∈ assign key value items) :
    item = (key, value) ∨ item ∈ items := by
  induction items with
  | nil => exact .inl (List.mem_singleton.mp h)
  | cons first rest ih =>
    rw [assign] at h
    split_ifs at h with hkey
    · rcases List.mem_cons.mp h with hnew | hold
      · exact .inl hnew
      · exact .inr (List.mem_cons_of_mem _ hold)
    · rcases List.mem_cons.mp h with hfirst | hrest
      · exact .inr (hfirst ▸ List.mem_cons_self)
      · rcases ih hrest with hnew | hold
        · exact .inl hnew
        · exact .inr (List.mem_cons_of_mem _ hold)

/-- Where two payloads agree under the keys that are allowed, nobody can tell them apart. -/
theorem allowItems_congr {total maxItems index : ℕ} {items items' : List (Key κ × Value κ σ)}
    {result : List (String × Value κ σ)}
    (h : List.Forall₂ (fun item item' => item.1 = item'.1 ∧
      ∀ s, item.1 = .text s → s ∈ allow → item.2 = item'.2) items items') :
    allowItems other allow total maxItems index items result =
      allowItems other allow total maxItems index items' result := by
  induction h generalizing index result with
  | nil => rfl
  | @cons item item' rest rest' hitem _ ih =>
    obtain ⟨key, value⟩ := item
    obtain ⟨key', value'⟩ := item'
    obtain ⟨rfl, hvalue⟩ := hitem
    have hsame : allowedValue allow key value = allowedValue allow key value' := by
      cases key with
      | text s =>
        by_cases hs : s ∈ allow
        · have heq : value = value' := hvalue s rfl hs
          rw [heq]
        · simp [allowedValue, hs]
      | other k => rfl
    rw [allowItems, allowItems, hsame, ih]

/-- The same keys in the same order, and the same values under those that are allowed. -/
def AgreeOn (allow : List String) (payload payload' : EventDict κ σ) : Prop :=
  List.Forall₂ (fun item item' => item.1 = item'.1 ∧
    ∀ s, item.1 = .text s → s ∈ allow → item.2 = item'.2) payload.items payload'.items

theorem agreeOn_of_values {keys : List (Key κ)} {distinct : keys.Nodup}
    {values values' : {k // k ∈ keys} → Value κ σ}
    (h : ∀ k s, k.val = .text s → s ∈ allow → values k = values' k) :
    AgreeOn allow ⟨keys, distinct, values⟩ ⟨keys, distinct, values'⟩ := by
  unfold AgreeOn EventDict.items
  rw [List.forall₂_map_left_iff, List.forall₂_map_right_iff]
  exact List.forall₂_same.mpr fun k _ => ⟨rfl, fun s hs hallow => h k s hs hallow⟩

theorem allowlisted_congr {payload payload' : EventDict κ σ} {maxItems : ℕ}
    (h : AgreeOn allow payload payload') :
    allowlisted other allow (some payload) maxItems =
      allowlisted other allow (some payload') maxItems := by
  have hlength : payload.keys.length = payload'.keys.length := by
    simpa [EventDict.items] using h.length_eq
  simp only [allowlisted, hlength]
  exact allowItems_congr h

/-- A value that is published was under an allowed key, or says nothing. -/
theorem mem_allowItems {total maxItems index : ℕ} {items : List (Key κ × Value κ σ)}
    {result : List (String × Value κ σ)} {item : String × Value κ σ}
    (h : item ∈ allowItems other allow total maxItems index items result) :
    item ∈ result ∨ (item.1 ∈ allow ∧ (Key.text item.1, item.2) ∈ items) ∨
      item.2 = .text redacted ∨
      item = ("...", .text (toString (total - maxItems) ++ " more keys")) := by
  induction items generalizing index result with
  | nil => exact .inl h
  | cons first rest ih =>
    obtain ⟨key, value⟩ := first
    rw [allowItems] at h
    split_ifs at h with hlimit
    · -- beyond the limit only the marker is added
      rcases mem_assign h with hnew | hold
      · exact .inr (.inr (.inr hnew))
      · exact .inl hold
    · rcases ih h with hresult | ⟨hallowed, hitem⟩ | hmarker | hmore
      · -- an item of this step: shown, if its key is a text that is allowed, else redacted
        rcases mem_assign hresult with rfl | hold
        · cases key with
          | text s =>
            by_cases hs : s ∈ allow
            · right
              left
              simp [Key.str, allowedValue, hs]
            · right
              right
              left
              simp [allowedValue, hs]
          -- a key that is no text is never allowed
          | other k => exact .inr (.inr (.inl rfl))
        · exact .inl hold
      · exact .inr (.inl ⟨hallowed, List.mem_cons_of_mem _ hitem⟩)
      · exact .inr (.inr (.inl hmarker))
      · exact .inr (.inr (.inr hmore))

/-- Of a whole payload: what is under no allowed key is the marker, or how many keys there are
    left. -/
theorem mem_allowlisted {payload : EventDict κ σ} {maxItems : ℕ} {item : String × Value κ σ}
    (h : item ∈ allowlisted other allow (some payload) maxItems) :
    (item.1 ∈ allow ∧ (Key.text item.1, item.2) ∈ payload.items) ∨ item.2 = .text redacted ∨
      item = ("...", .text (toString (payload.keys.length - maxItems) ++ " more keys")) := by
  rcases mem_allowItems h with hnone | hshown
  · cases hnone
  · exact hshown

end

end Evenkeel.Logging
