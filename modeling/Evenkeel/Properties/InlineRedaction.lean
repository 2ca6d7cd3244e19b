import Evenkeel.Logging.InlineContext
import Evenkeel.Logging.Redaction

/-!
# Secrets that a Message Gives Away

`redact_message` is to hide in a message what `redact_sensitive` hides in a record. The two
were written apart: `_INLINE_SECRET` has no word for a cookie or a secret key, knows no
digits in a name, keeps a scheme in either case, and looks at a key only where no earlier key
has taken it for its value.
-/

namespace Evenkeel.Properties

open Evenkeel.Domain Evenkeel.Logging

/-- A message in which a key that is sensitive in a record has a value. -/
structure SecretMention (unicode : Unicode) extends Mention unicode where
  sensitive : isSensitive unicode (String.ofList key) = true
  value_no_scheme : String.ofList value ∉ schemes

namespace SecretMention

variable {unicode : Unicode} (mention : SecretMention unicode)

def message : List Char :=
  mention.before ++ mention.key ++ mention.separator ++ mention.value ++ mention.after

/-- The value of the key is part of what a marker stands for. -/
def Hidden : Prop :=
  Redacts (pieces unicode none mention.message)
    (mention.before ++ mention.key ++ mention.separator) mention.value

/-- A key without characters is not sensitive. -/
theorem key_ne : mention.key ≠ [] := by
  intro hnil
  have hsensitive := mention.sensitive
  rw [hnil] at hsensitive
  have hempty : isSensitive unicode (String.ofList []) = false := rfl
  rw [hempty] at hsensitive
  cases hsensitive

theorem message_eq : mention.message = mention.before ++ mention.tail := by
  simp [message, Mention.tail, Mention.ending]

/-- What stands in front of the key lets the scan begin there. -/
theorem before_start : Mention.BlankEnd mention.before ∨
    mention.before = [] ∧ (none : Option Char).any unicode.word = false := by
  by_cases hnil : mention.before = []
  · exact .inr ⟨hnil, rfl⟩
  · left
    refine ⟨mention.before.getLast hnil, List.getLast?_eq_some_getLast hnil, ?_⟩
    exact mention.before_blank _ (List.getLast?_eq_some_getLast hnil)

end SecretMention

/-- The value of a sensitive key is hidden if and only if
    - nothing in front is open at the key, some end of the key is a name that `_INLINE_SECRET`
      knows, and the value is no scheme with more text behind it, or
    - an earlier key is still waiting for its value, and only `=` stands behind the key, or
    - an earlier key has a quotation for its value that is closed behind the value. -/
theorem hidden_iff (unicode : Unicode) (mention : SecretMention unicode) :
    mention.Hidden ↔ mention.Hides (standing unicode.word mention.closes none mention.before) := by
  rw [SecretMention.Hidden, mention.message_eq, List.append_assoc]
  exact mention.redacts_iff mention.key_ne mention.before none mention.before_start

/-! ## A cookie -/

/-- `cookie=abc123`. -/
private def cookie : SecretMention .asciiOnly where
  before := []
  key := "cookie".toList
  separator := ['=']
  value := "abc123".toList
  after := []
  key_chars := by
    have hall : "cookie".toList.all Char.isAlphanum = true := by decide
    exact fun c hc => .inl (List.all_eq_true.mp hall c hc)
  separator_eq := .inl rfl
  value_ne := by decide
  value_chars := by
    have hall : "abc123".toList.all Char.isAlphanum = true := by decide
    exact List.all_eq_true.mp hall
  before_blank := nofun
  after_blank := nofun
  sensitive := by decide
  value_no_scheme := by decide

/-- A record keeps the value of a cookie to itself, a message does not. -/
theorem cookie_is_published :
    ¬∀ (unicode : Unicode) (mention : SecretMention unicode), mention.Hidden := by
  intro hall
  have hhidden := hall .asciiOnly cookie
  rw [SecretMention.Hidden, cookie.message_eq, List.append_assoc] at hhidden
  have hrecognised := (cookie.redacts_iff cookie.key_ne [] none (.inr ⟨rfl, rfl⟩)).mp hhidden
  rw [standing] at hrecognised
  obtain ⟨⟨a, b, hkey, -, -, hends⟩, -⟩ := hrecognised
  have hnone : ∀ b ∈ "cookie".toList.tails, endsInKeyWord b = false := by decide
  have hsuffix : b <:+ "cookie".toList := ⟨a, hkey.symm⟩
  rw [hnone b ((List.mem_tails _ _).mpr hsuffix)] at hends
  cases hends

end Evenkeel.Properties
