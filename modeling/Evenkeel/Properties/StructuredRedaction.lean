import Evenkeel.Logging.InlineContext
import Evenkeel.Logging.Records

/-!
# Redaction of a Record Gives Nothing Away

Whatever the sensitive keys of a record hold, `redaction_processor` returns the same record,
and outside of them it changes the message only.
-/

namespace Evenkeel.Properties

open Evenkeel.Logging

/-- Two records that are equal but for what sensitive keys hold are equal when they are
    redacted, key for key in the same order, or as dicts are equal, whatever their order and
    however scalars are compared. Every place in sight but the message has what it had. -/
theorem redaction_noninterfering {κ σ : Type} [DecidableEq κ] (unicode : Unicode)
    (other : κ → String) :
    (∀ e e' : EventDict κ σ, Same Eq Eq (sensitive unicode other) e.toValue e'.toValue →
      redactionProcessor unicode other e = redactionProcessor unicode other e') ∧
    (∀ (equal : σ → σ → Prop) (e e' : EventDict κ σ),
      Same List.Perm equal (sensitive unicode other) e.toValue e'.toValue →
      Same List.Perm equal nothing (redactionProcessor unicode other e).toValue
        (redactionProcessor unicode other e').toValue) ∧
    ∀ (e : EventDict κ σ) (path : List (Step κ)), InSight unicode other path →
      ¬IsMessage e path →
      ((redactionProcessor unicode other e).toValue.follow path).map Value.outline =
        (e.toValue.follow path).map Value.outline := by
  refine ⟨?_, ?_, ?_⟩
  · intro e e' h
    exact EventDict.eq_of_toValue (eq_of_same (same_redactionProcessor h))
  · intro equal e e' h
    exact same_redactionProcessor h
  · intro e path h hmessage
    exact outline_redactionProcessor h hmessage

/-! ## Two users sign in -/

/-- The user of a record has an API key. -/
private def signInField (apiKey : Value Empty ℕ) (key : Key Empty) : Value Empty ℕ :=
  if key = .text "event" then .text "signed in"
  else .tuple 1 fun _ => .dict [.text "api_key"] (List.nodup_singleton _) fun _ => apiKey

private def signIn (keys : List (Key Empty)) (distinct : keys.Nodup) (apiKey : Value Empty ℕ) :
    EventDict Empty ℕ where
  keys := keys
  distinct := distinct
  values := fun k => signInField apiKey k.val

private def eventFirst : List (Key Empty) := [.text "event", .text "user"]

private def userFirst : List (Key Empty) := [.text "user", .text "event"]

private theorem same_signInField {order : List (Key Empty) → List (Key Empty) → Prop}
    (hrefl : order [.text "api_key"] [.text "api_key"]) (v v' : Value Empty ℕ)
    (key : Key Empty) :
    Same order Eq (sensitive .asciiOnly nofun) (signInField v key) (signInField v' key) := by
  rw [signInField, signInField]
  split
  · exact .text _
  · apply Same.tuple
    intro i
    apply Same.dict hrefl
    intro k hk _ hshown
    rw [List.mem_singleton.mp hk] at hshown
    have hsensitive : (Key.text "api_key" : Key Empty).isSensitive .asciiOnly nofun = true := by
      decide
    exact absurd hsensitive hshown

private theorem same_signIn {order : List (Key Empty) → List (Key Empty) → Prop}
    {keys keys' : List (Key Empty)} {distinct : keys.Nodup} {distinct' : keys'.Nodup}
    (h : order keys keys') (hrefl : order [.text "api_key"] [.text "api_key"])
    (v v' : Value Empty ℕ) :
    Same order Eq (sensitive .asciiOnly nofun) (signIn keys distinct v).toValue
      (signIn keys' distinct' v').toValue := by
  apply Same.dict h
  intro k _ _ _
  exact same_signInField hrefl v v' k

/-- Whether the key is a text or a list is nowhere to be seen, and the user stays in its place. -/
theorem signIn_shows_no_key :
    redactionProcessor .asciiOnly nofun (signIn eventFirst (by decide) (.text "s3cret")) =
      redactionProcessor .asciiOnly nofun
        (signIn eventFirst (by decide) (.list 2 fun i => .scalar i)) ∧
    Same List.Perm Eq nothing
      (redactionProcessor .asciiOnly nofun
        (signIn eventFirst (by decide) (.text "s3cret"))).toValue
      (redactionProcessor .asciiOnly nofun
        (signIn userFirst (by decide) (.text "s3cret too"))).toValue ∧
    ((redactionProcessor .asciiOnly nofun
      (signIn eventFirst (by decide) (.text "s3cret"))).toValue.follow
        [.key (.text "user"), .index 0]).map Value.outline = some (.dict [.text "api_key"]) := by
  obtain ⟨hequal, hsame, hplace⟩ :=
    redaction_noninterfering (κ := Empty) (σ := ℕ) .asciiOnly nofun
  refine ⟨?_, ?_, ?_⟩
  · exact hequal _ _ (same_signIn rfl rfl _ _)
  · exact hsame Eq _ _ (same_signIn (List.Perm.swap _ _ _) (List.Perm.refl _) _ _)
  · rw [hplace]
    · rfl
    · intro k hk
      obtain rfl : k = .text "user" := by simpa using hk
      have hshown : (Key.text "user" : Key Empty).isSensitive .asciiOnly nofun = false := by
        decide
      rw [sensitive, hshown]
      exact Bool.false_ne_true
    · intro hmessage
      exact absurd hmessage.1 (by simp)

end Evenkeel.Properties
