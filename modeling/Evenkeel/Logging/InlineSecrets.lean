import Evenkeel.Domain.Entities
import Evenkeel.Patterns.Backtracking

/-!
# Secrets inside a Message

`_INLINE_SECRET` and `redact_message` of `logging.py`.

- `Unicode`: what is taken from the character database
- `inlineSecret`: the pattern, group by group
- `redactMessage`, `Redacts`: what becomes of a message, and of a part of it
-/

namespace Evenkeel.Logging

open Evenkeel.Domain Evenkeel.Patterns

/-! ## Characters -/

/-- `str.casefold` and `str.isalnum` of one character. -/
structure Unicode where
  casefold : Char → List Char
  isalnum : Char → Bool
  casefold_ascii : ∀ c, c.toNat < 128 → casefold c = [c.toLower]
  isalnum_ascii : ∀ c, c.toNat < 128 → isalnum c = c.isAlphanum
  isalnum_space : ∀ c, isSpace c = true → isalnum c = false

/-- `\w`. -/
def Unicode.word (unicode : Unicode) (c : Char) : Bool := unicode.isalnum c || c = '_'

/-- What a letter of a pattern matches under `(?i)`: either case, and for three letters
    characters beyond ASCII that have this letter as a case. -/
def ignoreCase (letter c : Char) : Bool :=
  c.toLower = letter.toLower || letter.toLower = 'i' && (c = '\u0130' || c = '\u0131') ||
    letter.toLower = 'k' && c = '\u212a' || letter.toLower = 's' && c = '\u017f'

/-- `[a-z_-]` under `(?i)`. -/
def nameChar (c : Char) : Bool :=
  c.isAlpha || c = '_' || c = '-' || c ∈ ['\u0130', '\u0131', '\u212a', '\u017f']

/-- `\S`. -/
def notSpace (c : Char) : Bool := !isSpace c

/-! ## The pattern -/

def redacted : String := "***REDACTED***"

def literal (text : String) : Pattern := .literal ignoreCase text.toList

def keyWord : Pattern :=
  .alt (literal "password") (.alt (literal "token") (.alt (literal "secret")
    (.alt (.seq (literal "api") (.seq (.opt (.set fun c => c = '_' || c = '-')) (literal "key")))
      (literal "authorization"))))

def separator : Pattern :=
  .seq (.many isSpace) (.seq (.set fun c => c = '=' || c = ':') (.many isSpace))

def scheme : Pattern :=
  .seq (.alt (literal "Bearer") (.alt (literal "Basic") (.alt (literal "Token")
    (literal "Digest")))) (.plus isSpace)

def quoted (quote : Char) : Pattern :=
  .seq (.set (· = quote)) (.seq (.many (· ≠ quote)) (.set (· = quote)))

def credential : Pattern := .alt (quoted '"') (.alt (quoted '\x27') (.plus notSpace))

/-- `_INLINE_SECRET`. -/
def inlineSecret : Pattern :=
  .seq .boundary (.seq (.group 1 (.seq (.many nameChar) keyWord)) (.seq (.group 2 separator)
    (.seq (.opt (.group 3 scheme)) (.group 4 credential))))

/-! ## What becomes of a message -/

def kept (m : Match) : List Char := m.group 1 ++ m.group 2 ++ m.group 3

/-- The replacement of `redact_message`. -/
def renderPiece : Piece → List Char
  | .copied c => [c]
  | .found m => kept m ++ redacted.toList

/-- What a piece was. -/
def pieceText : Piece → List Char
  | .copied c => [c]
  | .found m => m.text

/-- A text behind `before` is part of what a marker stands for. -/
def Redacts (pieces : List Piece) (before value : List Char) : Prop :=
  ∃ left m right h₁ h₂, pieces = left ++ .found m :: right ∧
    left.flatMap pieceText ++ kept m ++ h₁ = before ∧ m.group 4 = h₁ ++ value ++ h₂

section

variable (unicode : Unicode)

def pieces (prev : Option Char) (s : List Char) : List Piece :=
  inlineSecret.scan unicode.word false prev s

/-- `redact_message`. -/
def redactMessage (message : String) : String :=
  String.ofList ((pieces unicode none message.toList).flatMap renderPiece)

end

end Evenkeel.Logging
