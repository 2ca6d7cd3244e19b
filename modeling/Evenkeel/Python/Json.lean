import Mathlib.Data.Rat.Defs
import Evenkeel.Python.Text

/-!
# The `json` Module

`json.loads` as a scanner that is fed one character after the other, with the two limits of
the interpreter that it runs into, and `json.dumps` with `sort_keys=True`.

- `Json`: what `loads` builds and `dumps` writes
- `Scanner.step`: one character, with the open brackets on a stack
- `loads`, `dumps`: the whole text; `JsonError` has the exceptions they raise
-/

namespace Evenkeel.Python

/-! ## Values -/

/-- A JSON value. Nothing in this project computes with the numbers in one, so a number is the
    literal it is written with. An object is a `dict`, its items in insertion order. -/
inductive Json where
  | null
  | bool (b : Bool)
  | number (literal : List Char)
  | str (s : String)
  | arr (items : List Json)
  | obj (items : List (String × Json))

/-- The items of a `dict`. -/
abbrev Dict : Type := List (String × Json)

namespace Dict

def get (key : String) : Dict → Option Json
  | [] => none
  | (k, v) :: rest => if k = key then some v else get key rest

/-- `d[key] = v`: the last value counts, in the place of the first. -/
def set (key : String) (v : Json) : Dict → Dict
  | [] => [(key, v)]
  | (k, old) :: rest => if k = key then (k, v) :: rest else (k, old) :: set key v rest

theorem set_of_new {key : String} {v : Json} {d : Dict} (h : ∀ item ∈ d, item.1 ≠ key) :
    d.set key v = d ++ [(key, v)] := by
  induction d with
  | nil => rfl
  | cons item rest ih =>
    have hne : item.1 ≠ key := h item List.mem_cons_self
    rw [set, if_neg hne, ih fun i hi => h i (List.mem_cons_of_mem _ hi), List.cons_append]

end Dict

/-- What `json.loads` and `json.dumps` raise. -/
inductive JsonError where
  /-- `JSONDecodeError`: the text is not JSON. -/
  | decode
  /-- `UnicodeDecodeError`: the bytes are not a text. -/
  | unicode
  /-- A `ValueError` that is neither: an integer beyond the digit limit. -/
  | value
  /-- `RecursionError`: brackets nested beyond the recursion limit. -/
  | recursion
  deriving DecidableEq, Repr

/-- `sys.get_int_max_str_digits()`, and how many brackets may be open at once. -/
structure Limits where
  digits : ℕ := 4300
  depth : ℕ

/-- The floats, as far as anything here tells them apart. -/
inductive PyFloat where
  | finite (q : ℚ)
  | inf
  | negInf
  | nan

/-! ## Numbers -/

/-- How far a number literal has been read. The exponent of a number without a fraction is
    told apart, since the number before it would be an integer. -/
inductive Numeral where
  | minus
  | zero
  | int
  | dot
  | fraction
  | exponent (fractional : Bool)
  | sign (fractional : Bool)
  | power
  deriving DecidableEq, Repr

def isNonZeroDigit (c : Char) : Bool := '1' ≤ c && c ≤ '9'

def isDigit (c : Char) : Bool := '0' ≤ c && c ≤ '9'

def isExponent (c : Char) : Bool := c = 'e' || c = 'E'

/-- The number literal that begins with `c`. -/
def Numeral.start (c : Char) : Option Numeral :=
  if c = '-' then some .minus
  else if c = '0' then some .zero
  else if isNonZeroDigit c then some .int
  else none

/-- The literal goes on with `c`, or is over. -/
def Numeral.step (c : Char) : Numeral → Option Numeral
  | .minus => if c = '0' then some .zero else if isNonZeroDigit c then some .int else none
  | .zero => if c = '.' then some .dot else if isExponent c then some (.exponent false) else none
  | .int =>
    if isDigit c then some .int
    else if c = '.' then some .dot
    else if isExponent c then some (.exponent false)
    else none
  | .dot => if isDigit c then some .fraction else none
  | .fraction =>
    if isDigit c then some .fraction
    else if isExponent c then some (.exponent true)
    else none
  | .exponent fractional =>
    if isDigit c then some .power
    else if c = '+' || c = '-' then some (.sign fractional)
    else none
  | .sign _ => if isDigit c then some .power else none
  | .power => if isDigit c then some .power else none

/-- The digits of the integer part, so far. -/
def Numeral.count (c : Char) (digits : ℕ) : Numeral → ℕ
  | .zero => 1
  | .int => if isDigit c then digits + 1 else digits
  | _ => digits

/-- What is read is over: the number, or the reason why there is none. A literal that breaks
    off behind an integer leaves a text that is not JSON, but the integer is read first. -/
def Numeral.value (limits : Limits) (digits : ℕ) (literal : List Char) :
    Numeral → Except JsonError Json
  | .zero | .int =>
    if limits.digits < digits then .error .value else .ok (.number literal)
  | .fraction | .power => .ok (.number literal)
  | .dot | .exponent false | .sign false =>
    if limits.digits < digits then .error .value else .error .decode
  | .minus | .exponent true | .sign true => .error .decode

/-! ## The scanner -/

/-- An open bracket: the items before, or the members before and the key of this one. -/
inductive Frame where
  | arr (items : List Json)
  | obj (members : Dict) (key : String)

/-- What the scanner is in the middle of. A string is a key if it has the members before it;
    `high` is a high surrogate that waits for its low one. -/
inductive Scan where
  | value
  | first
  | key (first : Bool) (members : Dict)
  | colon (members : Dict) (key : String)
  | string (members : Option Dict) (chars : List Char) (high : Option ℕ)
  | escape (members : Option Dict) (chars : List Char) (high : Option ℕ)
  | unicode (members : Option Dict) (chars : List Char) (high : Option ℕ) (left code : ℕ)
  | word (left : List Char) (v : Json)
  | number (numeral : Numeral) (digits : ℕ) (chars : List Char)
  | done (v : Json)

structure Scanner where
  scan : Scan := .value
  stack : List Frame := []

def isSpace (c : Char) : Bool := c = ' ' || c = '\t' || c = '\n' || c = '\r'

def hexValue (c : Char) : Option ℕ :=
  if isDigit c then some (c.toNat - 48)
  else if 'a' ≤ c && c ≤ 'f' then some (c.toNat - 87)
  else if 'A' ≤ c && c ≤ 'F' then some (c.toNat - 55)
  else none

/-- A lone surrogate. A Python string can hold it; here the replacement character does. -/
def replacement : Char := Char.ofNat 0xfffd

def flush (chars : List Char) : Option ℕ → List Char
  | none => chars
  | some _ => replacement :: chars

/-- The character of an escape other than `\u`. -/
def unescape (c : Char) : Option Char :=
  if c = '"' then some '"'
  else if c = '\\' then some '\\'
  else if c = '/' then some '/'
  else if c = 'b' then some (Char.ofNat 8)
  else if c = 'f' then some (Char.ofNat 12)
  else if c = 'n' then some '\n'
  else if c = 'r' then some '\r'
  else if c = 't' then some '\t'
  else none

/-- A `\uXXXX` that has been read. -/
def unit (members : Option Dict) (chars : List Char) (high : Option ℕ) (code : ℕ) : Scan :=
  let lone :=
    if 0xd800 ≤ code ∧ code < 0xdc00 then .string members (flush chars high) (some code)
    else if 0xdc00 ≤ code ∧ code < 0xe000 then
      .string members (replacement :: flush chars high) none
    else .string members (Char.ofNat code :: flush chars high) none
  match high with
  | none => lone
  | some h =>
    if 0xdc00 ≤ code ∧ code < 0xe000 then
      .string members (Char.ofNat (0x10000 + (h - 0xd800) * 1024 + (code - 0xdc00)) :: chars) none
    else lone

/-- The closing quote. -/
def closeString (members : Option Dict) (chars : List Char) : Scan :=
  match members with
  | none => .done (.str (String.ofList chars.reverse))
  | some members => .colon members (String.ofList chars.reverse)

namespace Scanner

variable (limits : Limits)

/-- The character that a value begins with. -/
def begin (stack : List Frame) (c : Char) : Except JsonError Scanner :=
  if c = '"' then .ok ⟨.string none [] none, stack⟩
  else if c = '{' then
    if limits.depth ≤ stack.length then .error .recursion else .ok ⟨.key true [], stack⟩
  else if c = '[' then
    if limits.depth ≤ stack.length then .error .recursion else .ok ⟨.first, .arr [] :: stack⟩
  else if c = 'n' then .ok ⟨.word ['u', 'l', 'l'] .null, stack⟩
  else if c = 't' then .ok ⟨.word ['r', 'u', 'e'] (.bool true), stack⟩
  else if c = 'f' then .ok ⟨.word ['a', 'l', 's', 'e'] (.bool false), stack⟩
  else if c = 'N' then .ok ⟨.word ['a', 'N'] (.number ['N', 'a', 'N']), stack⟩
  else if c = 'I' then
    .ok ⟨.word "nfinity".toList (.number "Infinity".toList), stack⟩
  else
    match Numeral.start c with
    | some numeral => .ok ⟨.number numeral (numeral.count c 0) [c], stack⟩
    | none => .error .decode

/-- A character behind a value. -/
def after (stack : List Frame) (v : Json) (c : Char) : Except JsonError Scanner :=
  if isSpace c then .ok ⟨.done v, stack⟩
  else
    match stack with
    | [] => .error .decode
    | .arr items :: stack =>
      if c = ',' then .ok ⟨.value, .arr (items ++ [v]) :: stack⟩
      else if c = ']' then .ok ⟨.done (.arr (items ++ [v])), stack⟩
      else .error .decode
    | .obj members key :: stack =>
      if c = ',' then .ok ⟨.key false (members.set key v), stack⟩
      else if c = '}' then .ok ⟨.done (.obj (members.set key v)), stack⟩
      else .error .decode

def step (s : Scanner) (c : Char) : Except JsonError Scanner :=
  match s.scan with
  | .value => if isSpace c then .ok s else begin limits s.stack c
  | .first =>
    if isSpace c then .ok s
    else if c = ']' then .ok ⟨.done (.arr []), s.stack.tail⟩
    else begin limits s.stack c
  | .key first members =>
    if isSpace c then .ok s
    else if c = '"' then .ok ⟨.string (some members) [] none, s.stack⟩
    else if first && c = '}' then .ok ⟨.done (.obj members), s.stack⟩
    else .error .decode
  | .colon members key =>
    if isSpace c then .ok s
    else if c = ':' then .ok ⟨.value, .obj members key :: s.stack⟩
    else .error .decode
  | .string members chars high =>
    if c = '"' then .ok ⟨closeString members (flush chars high), s.stack⟩
    else if c = '\\' then .ok ⟨.escape members chars high, s.stack⟩
    -- a control character
    else if c.toNat < 32 then .error .decode
    else .ok ⟨.string members (c :: flush chars high) none, s.stack⟩
  | .escape members chars high =>
    if c = 'u' then .ok ⟨.unicode members chars high 4 0, s.stack⟩
    else
      match unescape c with
      | some d => .ok ⟨.string members (d :: flush chars high) none, s.stack⟩
      | none => .error .decode
  | .unicode members chars high left code =>
    match hexValue c with
    | none => .error .decode
    | some d =>
      if left ≤ 1 then .ok ⟨unit members chars high (code * 16 + d), s.stack⟩
      else .ok ⟨.unicode members chars high (left - 1) (code * 16 + d), s.stack⟩
  | .word left v =>
    match left with
    | [] => after s.stack v c
    | [d] => if c = d then .ok ⟨.done v, s.stack⟩ else .error .decode
    | d :: left => if c = d then .ok ⟨.word left v, s.stack⟩ else .error .decode
  | .number numeral digits chars =>
    match numeral.step c with
    | some numeral' => .ok ⟨.number numeral' (numeral'.count c digits) (c :: chars), s.stack⟩
    | none =>
      if numeral = .minus ∧ c = 'I' then
        .ok ⟨.word "nfinity".toList (.number "-Infinity".toList), s.stack⟩
      else
        match numeral.value limits digits chars.reverse with
        | .error e => .error e
        | .ok v => after s.stack v c
  | .done v => after s.stack v c

/-- The end of the text. -/
def finish (s : Scanner) : Except JsonError Json :=
  match s.scan, s.stack with
  | .done v, [] => .ok v
  | .number numeral digits chars, stack =>
    match numeral.value limits digits chars.reverse, stack with
    | .ok v, [] => .ok v
    | .ok _, _ :: _ => .error .decode
    | .error e, _ => .error e
  | _, _ => .error .decode

/-- The rest of the text. -/
def run (s : Scanner) : List Char → Except JsonError Json
  | [] => s.finish limits
  | c :: rest =>
    match s.step limits c with
    | .error e => .error e
    | .ok s => s.run rest

end Scanner

/-- `json.loads` of a text. A byte order mark is refused, as in the source. -/
def loads (limits : Limits) (text : List Char) : Except JsonError Json :=
  if text.head? = some (Char.ofNat 0xfeff) then .error .decode
  else Scanner.run limits {} text

/-- What the interpreter brings along. `decode` is `bytes.decode` with the encoding that
    `json` detects, `none` if it raises; `float` is the constructor of floats, `none` if the
    text is not a number. -/
structure Interpreter where
  limits : Limits
  decode : List UInt8 → Option (List Char)
  float : String → Option PyFloat

/-- `json.loads` of bytes, where a byte order mark belongs to the encoding. -/
def loadsBytes (py : Interpreter) (raw : List UInt8) : Except JsonError Json :=
  match py.decode raw with
  | none => .error .unicode
  | some text => Scanner.run py.limits {} text

/-! ## Writing -/

mutual

/-- `json.dumps`, for a value that it can write. -/
def Json.text : Json → List Char
  | .null => "null".toList
  | .bool true => "true".toList
  | .bool false => "false".toList
  | .number literal => literal
  | .str s => jsonString s
  | .arr items => '[' :: (textItems items ++ [']'])
  | .obj items => '{' :: (textMembers items ++ ['}'])

def textItems : List Json → List Char
  | [] => []
  | [v] => v.text
  | v :: rest => v.text ++ ',' :: ' ' :: textItems rest

def textMembers : List (String × Json) → List Char
  | [] => []
  | [(k, v)] => jsonString k ++ ':' :: ' ' :: v.text
  | (k, v) :: rest => jsonString k ++ ':' :: ' ' :: (v.text ++ ',' :: ' ' :: textMembers rest)

end

end Evenkeel.Python
