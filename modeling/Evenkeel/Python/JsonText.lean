import Mathlib.Data.String.Basic
import Mathlib.Tactic.IntervalCases
import Evenkeel.Python.Json

/-!
# Reading What Was Written

`json.dumps` with `sort_keys=True`, and `json.loads` of its texts.

- `dumps`: the text of a value, unless a limit of the interpreter is in the way
- `Json.Canonical`: keys in order and numbers as literals, so that equal values are one value

## Key Results

- `run_jsonString`: the scanner reads a written string as it was
- `run_text`: and any other value within the limits
- `loads_dumps`: what is written is read back
- `quoted_infix_iff`: where a word in quotes occurs inside a written string
- `jsonObject_injective`: objects of texts are written apart
-/

namespace Evenkeel.Python

/-! ## Strings -/

namespace Scanner

variable {limits : Limits} {stack : List Frame} {members : Option Dict} {chars : List Char}
  {high : Option ℕ}

/-- One character of the text. -/
theorem run_cons {s t : Scanner} {c : Char} (h : s.step limits c = .ok t) (rest : List Char) :
    Scanner.run limits s (c :: rest) = Scanner.run limits t rest := by
  rw [Scanner.run, h]

theorem hexValue_hexDigit {d : ℕ} (h : d < 16) : hexValue (hexDigit d) = some d := by
  revert d
  decide

/-- Four digits of an escape are a code unit. -/
theorem run_unicode {u : ℕ} (hu : u < 65536) (tail : List Char) :
    Scanner.run limits ⟨.unicode members chars high 4 0, stack⟩
        (hexDigit (u / 4096 % 16) :: hexDigit (u / 256 % 16) :: hexDigit (u / 16 % 16) ::
          hexDigit (u % 16) :: tail) =
      Scanner.run limits ⟨unit members chars high u, stack⟩ tail := by
  have hdigit : ∀ n : ℕ, hexValue (hexDigit (n % 16)) = some (n % 16) :=
    fun n => hexValue_hexDigit (Nat.mod_lt _ (by decide))
  have hcode : (((u / 4096 % 16) * 16 + u / 256 % 16) * 16 + u / 16 % 16) * 16 + u % 16 = u := by
    omega
  rw [run_cons (t := ⟨.unicode members chars high 3 (u / 4096 % 16), stack⟩),
    run_cons (t := ⟨.unicode members chars high 2 ((u / 4096 % 16) * 16 + u / 256 % 16), stack⟩),
    run_cons (t := ⟨.unicode members chars high 1
      (((u / 4096 % 16) * 16 + u / 256 % 16) * 16 + u / 16 % 16), stack⟩),
    run_cons (t := ⟨unit members chars high u, stack⟩)]
  · simp [step, hdigit, hcode]
  · simp [step, hdigit]
  · simp [step, hdigit]
  · simp [step, hdigit]

/-- An escaped code unit, in a string. -/
theorem run_escapeUnit {u : ℕ} (hu : u < 65536) (tail : List Char) :
    Scanner.run limits ⟨.string members chars high, stack⟩ (escapeUnit u ++ tail) =
      Scanner.run limits ⟨unit members chars high u, stack⟩ tail := by
  simp only [escapeUnit, List.cons_append, List.nil_append]
  rw [run_cons (t := ⟨.escape members chars high, stack⟩),
    run_cons (t := ⟨.unicode members chars high 4 0, stack⟩), run_unicode hu]
  · simp [step]
  · simp [step]

theorem not_surrogate (c : Char) : c.toNat < 0xd800 ∨ 0xe000 ≤ c.toNat ∧ c.toNat < 0x110000 := by
  rcases c.valid with h | ⟨h, h'⟩
  · exact .inl h
  · exact .inr ⟨h, h'⟩

theorem toNat_lt (c : Char) : c.toNat < 0x110000 := by
  rcases not_surrogate c with h | ⟨-, h⟩
  · omega
  · exact h

/-- A code unit that is a character. -/
theorem unit_of_char {c : Char} (hbmp : c.toNat < 65536) :
    unit members chars none c.toNat = .string members (c :: chars) none := by
  have hhigh : ¬ (0xd800 ≤ c.toNat ∧ c.toNat < 0xdc00) := by
    rcases not_surrogate c with h | h
    · omega
    · omega
  have hlow : ¬ (0xdc00 ≤ c.toNat ∧ c.toNat < 0xe000) := by
    rcases not_surrogate c with h | h
    · omega
    · omega
  simp only [unit, hhigh, hlow, if_false, Char.ofNat_toNat, flush]

/-- The first code unit of two waits for the second. -/
theorem unit_of_high {u : ℕ} (hlow : 0xd800 ≤ u) (hhigh : u < 0xdc00) :
    unit members chars none u = .string members chars (some u) := by
  simp only [unit, hlow, hhigh, and_self, if_true, flush]

theorem unit_of_pair {h u : ℕ} (hlow : 0xdc00 ≤ u) (hhigh : u < 0xe000) :
    unit members chars (some h) u =
      .string members (Char.ofNat (0x10000 + (h - 0xd800) * 1024 + (u - 0xdc00)) :: chars)
        none := by
  simp only [unit, hlow, hhigh, and_self, if_true]

/-- A written character is read as it was. -/
theorem run_escapeChar (c : Char) (tail : List Char) :
    Scanner.run limits ⟨.string members chars none, stack⟩ (escapeChar c ++ tail) =
      Scanner.run limits ⟨.string members (c :: chars) none, stack⟩ tail := by
  -- the escapes of two characters
  have hpair : ∀ d : Char, unescape d = some c → d ≠ 'u' →
      Scanner.run limits ⟨.string members chars none, stack⟩ ('\\' :: d :: tail) =
        Scanner.run limits ⟨.string members (c :: chars) none, stack⟩ tail := by
    intro d hd hu
    rw [run_cons (t := ⟨.escape members chars none, stack⟩) (by simp [step]),
      run_cons (t := ⟨.string members (c :: chars) none, stack⟩) (by simp [step, hd, hu, flush])]
  unfold escapeChar
  split
  · -- the quote and the backslash, then the control characters with a letter of their own
    rename_i hc
    exact hpair '"' (by simp [unescape, hc]) (by decide)
  split
  · rename_i hc
    exact hpair '\\' (by simp [unescape, hc]) (by decide)
  split
  · rename_i hc
    exact hpair 'n' (by simp [unescape, hc]) (by decide)
  split
  · rename_i hc
    exact hpair 'r' (by simp [unescape, hc]) (by decide)
  split
  · rename_i hc
    exact hpair 't' (by simp [unescape, hc]) (by decide)
  split
  · rename_i hc
    have hchar : Char.ofNat 12 = c := by rw [← hc, Char.ofNat_toNat]
    exact hpair 'f' (by simpa [unescape] using hchar) (by decide)
  split
  · rename_i hc
    have hchar : Char.ofNat 8 = c := by rw [← hc, Char.ofNat_toNat]
    exact hpair 'b' (by simpa [unescape] using hchar) (by decide)
  split
  · -- a character that is written as it is
    rename_i hquote hslash _ _ _ _ _ hprintable
    refine run_cons (t := ⟨.string members (c :: chars) none, stack⟩) ?_ tail
    simp [step, hquote, hslash, flush, not_lt.mpr hprintable.1]
  split
  · -- one `\u` escape, or two for a character beyond the first plane
    rename_i hbmp
    rw [run_escapeUnit hbmp, unit_of_char hbmp]
  · rename_i hastral
    have hbound := toNat_lt c
    rw [List.append_assoc, run_escapeUnit (by omega), unit_of_high (by omega) (by omega),
      run_escapeUnit (by omega), unit_of_pair (by omega) (by omega)]
    have hcode : 0x10000 + (0xd800 + (c.toNat - 0x10000) / 1024 % 1024 - 0xd800) * 1024 +
        (0xdc00 + (c.toNat - 0x10000) % 1024 - 0xdc00) = c.toNat := by
      omega
    rw [hcode, Char.ofNat_toNat]

theorem run_escape (cs : List Char) (tail : List Char) :
    Scanner.run limits ⟨.string members chars none, stack⟩ (cs.flatMap escapeChar ++ tail) =
      Scanner.run limits ⟨.string members (cs.reverse ++ chars) none, stack⟩ tail := by
  induction cs generalizing chars with
  | nil => rfl
  | cons c cs ih =>
    rw [List.flatMap_cons, List.append_assoc, run_escapeChar, ih, List.reverse_cons,
      List.append_assoc]
    rfl

/-- The rest of a written string, behind its opening quote. -/
theorem run_jsonString (s : String) (tail : List Char) :
    Scanner.run limits ⟨.string members [] none, stack⟩
        (s.toList.flatMap escapeChar ++ '"' :: tail) =
      Scanner.run limits ⟨closeString members s.toList.reverse, stack⟩ tail := by
  rw [run_escape, List.append_nil]
  exact run_cons (by simp [step, flush]) tail

end Scanner

/-! ## Quotes in a written string -/

theorem escapeUnit_no_quote (u : ℕ) : '"' ∉ escapeUnit u := by
  have hdigit : ∀ d < 16, hexDigit d ≠ '"' := by decide
  have hmod : ∀ n : ℕ, '"' ≠ hexDigit (n % 16) :=
    fun n => (hdigit _ (Nat.mod_lt n (by decide))).symm
  simp [escapeUnit, hmod]

/-- What a character other than a quote is written as has no quote in it. -/
theorem escapeChar_no_quote {c : Char} (hc : c ≠ '"') : '"' ∉ escapeChar c := by
  unfold escapeChar
  rw [if_neg hc]
  repeat' split
  all_goals simp [escapeUnit_no_quote, hc.symm]

/-- A character is written as itself, or behind a backslash. -/
theorem escapeChar_begins (c : Char) :
    (c ≠ '"' ∧ c ≠ '\\' ∧ escapeChar c = [c]) ∨ ∃ cs, escapeChar c = '\\' :: cs := by
  unfold escapeChar
  by_cases hquote : c = '"'
  · right
    exact ⟨['"'], by rw [if_pos hquote]⟩
  by_cases hslash : c = '\\'
  · right
    exact ⟨['\\'], by rw [if_neg hquote, if_pos hslash]⟩
  rw [if_neg hquote, if_neg hslash]
  repeat' split
  all_goals simp [hquote, hslash, escapeUnit]

theorem infix_append_of_not_mem {α : Type} {a : α} {p l r : List α} (h : a ∉ l) :
    a :: p <:+: l ++ r ↔ a :: p <:+: r := by
  induction l with
  | nil => rfl
  | cons b l ih =>
    have hne : a ≠ b := fun hab => h (hab ▸ List.mem_cons_self)
    rw [List.cons_append, List.infix_cons_iff, List.cons_prefix_cons,
      ih fun hl => h (List.mem_cons_of_mem b hl)]
    simp [hne]

/-- A written string that begins with a plain word and its quote is that word. -/
theorem quoted_prefix_iff {w : List Char} (hw : ∀ c ∈ w, Plain c) (cs tail : List Char) :
    w ++ ['"'] <+: cs.flatMap escapeChar ++ '"' :: tail ↔ cs = w := by
  induction w generalizing cs with
  | nil =>
    -- the word is over: the quote that comes next has to be the one that closes
    cases cs with
    | nil => simp
    | cons c cs =>
      -- an escape begins with a backslash, any other character with itself
      rcases escapeChar_begins c with ⟨hquote, -, hc⟩ | ⟨rest, hc⟩
      · simp [hc, hquote.symm]
      · simp [hc]
  | cons a w ih =>
    obtain ⟨-, -, haquote, haslash⟩ := hw a List.mem_cons_self
    cases cs with
    | nil => simp [haquote]
    | cons c cs =>
      rcases escapeChar_begins c with ⟨-, -, hc⟩ | ⟨rest, hc⟩
      · -- the character stands for itself
        rw [List.flatMap_cons, hc, List.cons_append, List.append_assoc, List.cons_append,
          List.nil_append, List.cons_prefix_cons, ih fun d hd => hw d (List.mem_cons_of_mem a hd),
          List.cons.injEq, eq_comm]
      · -- an escaped character is not plain
        have hne : c ≠ a := by
          rintro rfl
          rw [escapeChar_plain (hw c List.mem_cons_self)] at hc
          simp only [List.cons.injEq] at hc
          exact haslash hc.1
        simp [hc, haslash, hne]

/-- Inside a written string, a plain word in quotes is the end of a string with a quote
    before that word. -/
theorem quoted_infix_iff {w : List Char} (hw : ∀ c ∈ w, Plain c) (cs tail : List Char)
    (htail : '"' ∉ tail) :
    '"' :: (w ++ ['"']) <:+: cs.flatMap escapeChar ++ '"' :: tail ↔ '"' :: w <:+ cs := by
  induction cs with
  | nil =>
    -- behind the closing quote there is no other one
    have hshort : ¬ w ++ ['"'] <+: tail := by
      intro hbegins
      exact htail (hbegins.subset (List.mem_append_right w (List.mem_singleton_self _)))
    have hrest : ¬ '"' :: (w ++ ['"']) <:+: tail := fun h => htail (h.subset List.mem_cons_self)
    simp [List.infix_cons_iff, hshort, hrest]
  | cons c cs ih =>
    rw [List.flatMap_cons, List.append_assoc, List.suffix_cons_iff, ← ih]
    by_cases hc : c = '"'
    · subst hc
      -- the quote is written behind a backslash, and may be the one before the word
      have hescape : escapeChar '"' = ['\\', '"'] := rfl
      rw [hescape, List.cons_append, List.cons_append, List.nil_append, List.infix_cons_iff,
        List.infix_cons_iff, List.cons_prefix_cons, List.cons_prefix_cons, quoted_prefix_iff hw,
        List.cons.injEq]
      simp [eq_comm]
    · -- without a quote nothing new can begin here
      rw [infix_append_of_not_mem (escapeChar_no_quote hc)]
      simp [Ne.symm hc]

/-! ## Values that are written -/

/-- How the rest of a number literal is read: where it stands then, and its digits. -/
def Numeral.scanFrom (n : Numeral) (digits : ℕ) : List Char → Option (Numeral × ℕ)
  | [] => some (n, digits)
  | c :: rest =>
    match n.step c with
    | none => none
    | some n => n.scanFrom (n.count c digits) rest

def Numeral.scan : List Char → Option (Numeral × ℕ)
  | [] => none
  | c :: rest =>
    match Numeral.start c with
    | none => none
    | some n => n.scanFrom (n.count c 0) rest

/-- The literal of a number. -/
def IsNumber (literal : List Char) : Prop :=
  ∃ n digits, Numeral.scan literal = some (n, digits) ∧
    n ∈ [Numeral.zero, .int, .fraction, .power]

mutual

/-- Objects have their keys in order, each once. As a `dict` is compared without its order,
    every value is equal to one such value. -/
def Json.Canonical : Json → Prop
  | .number literal => IsNumber literal
  | .arr items => CanonicalItems items
  | .obj items => items.Pairwise (fun a b => a.1 < b.1) ∧ CanonicalMembers items
  | _ => True

def CanonicalItems : List Json → Prop
  | [] => True
  | v :: rest => v.Canonical ∧ CanonicalItems rest

def CanonicalMembers : List (String × Json) → Prop
  | [] => True
  | (_, v) :: rest => v.Canonical ∧ CanonicalMembers rest

end

mutual

/-- The limits on what is written: the digits of an integer, and how deep brackets nest. -/
def Json.check (limits : Limits) (level : ℕ) : Json → Except JsonError Unit
  | .number literal =>
    match Numeral.scan literal with
    | none => .ok ()
    | some (n, digits) => (n.value limits digits literal).map fun _ => ()
  | .arr items =>
    if limits.depth ≤ level then .error .recursion else checkItems limits (level + 1) items
  | .obj items =>
    if limits.depth ≤ level then .error .recursion else checkMembers limits (level + 1) items
  | _ => .ok ()

def checkItems (limits : Limits) (level : ℕ) : List Json → Except JsonError Unit
  | [] => .ok ()
  | v :: rest =>
    match v.check limits level with
    | .error e => .error e
    | .ok () => checkItems limits level rest

def checkMembers (limits : Limits) (level : ℕ) : List (String × Json) → Except JsonError Unit
  | [] => .ok ()
  | (_, v) :: rest =>
    match v.check limits level with
    | .error e => .error e
    | .ok () => checkMembers limits level rest

end

mutual

/-- `sort_keys=True`. -/
def Json.sortKeys : Json → Json
  | .arr items => .arr (sortItems items)
  | .obj items => .obj ((sortMembers items).mergeSort fun a b => decide (a.1 ≤ b.1))
  | v => v

def sortItems : List Json → List Json
  | [] => []
  | v :: rest => v.sortKeys :: sortItems rest

def sortMembers : List (String × Json) → List (String × Json)
  | [] => []
  | (k, v) :: rest => (k, v.sortKeys) :: sortMembers rest

end

/-- `json.dumps(v, sort_keys=True)`. -/
def dumps (limits : Limits) (v : Json) : Except JsonError (List Char) :=
  match v.check limits 0 with
  | .error e => .error e
  | .ok () => .ok v.sortKeys.text

mutual

theorem sortKeys_of_canonical : ∀ v : Json, v.Canonical → v.sortKeys = v
  | .null, _ => rfl
  | .bool _, _ => rfl
  | .number _, _ => rfl
  | .str _, _ => rfl
  | .arr items, h => congrArg Json.arr (sortItems_of_canonical items h)
  | .obj items, h => by
    have hmembers := sortMembers_of_canonical items h.2
    have hsorted : items.Pairwise fun a b => decide (a.1 ≤ b.1) = true :=
      h.1.imp fun hlt => decide_eq_true (le_of_lt hlt)
    rw [Json.sortKeys, hmembers, List.mergeSort_of_pairwise hsorted]

theorem sortItems_of_canonical : ∀ items : List Json, CanonicalItems items → sortItems items = items
  | [], _ => rfl
  | v :: rest, h => by
    rw [sortItems, sortKeys_of_canonical v h.1, sortItems_of_canonical rest h.2]

theorem sortMembers_of_canonical :
    ∀ items : List (String × Json), CanonicalMembers items → sortMembers items = items
  | [], _ => rfl
  | (k, v) :: rest, h => by
    rw [sortMembers, sortKeys_of_canonical v h.1, sortMembers_of_canonical rest h.2]

end

/-! ## The round trip -/

/-- What may stand behind a value. -/
def Ends : List Char → Prop
  | [] => True
  | c :: _ => c ∈ [',', ']', '}']

namespace Scanner

variable {limits : Limits} {stack : List Frame}

theorem run_scanFrom {n n' : Numeral} {digits digits' : ℕ} {cs : List Char}
    (h : n.scanFrom digits cs = some (n', digits')) (chars rest : List Char) :
    Scanner.run limits ⟨.number n digits chars, stack⟩ (cs ++ rest) =
      Scanner.run limits ⟨.number n' digits' (cs.reverse ++ chars), stack⟩ rest := by
  induction cs generalizing n digits chars with
  | nil =>
    obtain ⟨rfl, rfl⟩ := Prod.mk.inj (Option.some.inj h)
    rfl
  | cons c cs ih =>
    rw [Numeral.scanFrom] at h
    cases hstep : n.step c with
    | none => simp [hstep] at h
    | some m =>
      simp only [hstep] at h
      rw [List.cons_append, run_cons (t := ⟨.number m (m.count c digits) (c :: chars), stack⟩),
        ih h, List.reverse_cons, List.append_assoc]
      · rfl
      · simp [step, hstep]

/-- A number is over where something else begins. -/
theorem run_number_end {n : Numeral} {digits : ℕ} {chars rest : List Char} {v : Json}
    (hn : n ∈ [Numeral.zero, .int, .fraction, .power])
    (hvalue : n.value limits digits chars.reverse = .ok v) (hrest : Ends rest) :
    Scanner.run limits ⟨.number n digits chars, stack⟩ rest =
      Scanner.run limits ⟨.done v, stack⟩ rest := by
  cases rest with
  | nil =>
    cases stack with
    | nil => simp [Scanner.run, finish, hvalue]
    | cons frame stack => simp [Scanner.run, finish, hvalue]
  | cons c tail =>
    have hall : ∀ n ∈ [Numeral.zero, .int, .fraction, .power],
        ([',', ']', '}'].all fun c => n.step c = none) = true := by decide
    have hover : n.step c = none := of_decide_eq_true (List.all_eq_true.mp (hall n hn) c hrest)
    have hminus : ¬ (n = .minus ∧ c = 'I') := by
      rintro ⟨rfl, -⟩
      simp at hn
    rw [Scanner.run, Scanner.run]
    simp only [step, hover, hminus, if_false, hvalue]

theorem run_number {literal rest : List Char} (h : IsNumber literal)
    (hcheck : (Json.number literal).check limits stack.length = .ok ()) (hrest : Ends rest) :
    Scanner.run limits ⟨.value, stack⟩ (literal ++ rest) =
      Scanner.run limits ⟨.done (.number literal), stack⟩ rest := by
  obtain ⟨n, digits, hscan, hn⟩ := h
  -- the limits were checked for this value, so its end raises nothing
  have hvalue : n.value limits digits literal = .ok (.number literal) := by
    simp only [Json.check, hscan] at hcheck
    simp only [List.mem_cons, List.not_mem_nil, or_false] at hn
    -- the two numerals without a fraction or an exponent count their digits
    obtain rfl | rfl | rfl | rfl := hn
    · by_cases hdigits : limits.digits < digits
      · simp [Numeral.value, hdigits, Except.map] at hcheck
      · simp [Numeral.value, hdigits]
    · by_cases hdigits : limits.digits < digits
      · simp [Numeral.value, hdigits, Except.map] at hcheck
      · simp [Numeral.value, hdigits]
    · rfl
    · rfl
  cases literal with
  | nil => simp [Numeral.scan] at hscan
  | cons c cs =>
    cases hstart : Numeral.start c with
    | none => simp [Numeral.scan, hstart] at hscan
    | some m =>
      simp only [Numeral.scan, hstart] at hscan
      -- no other kind of value begins with this character
      have hne : ∀ d, Numeral.start d = none → c ≠ d := by
        rintro d hd rfl
        simp [hd] at hstart
      have hfirst : (⟨.value, stack⟩ : Scanner).step limits c =
          .ok ⟨.number m (m.count c 0) [c], stack⟩ := by
        simp [step, begin, isSpace, hstart, hne ' ' (by decide), hne '\t' (by decide),
          hne '\n' (by decide), hne '\r' (by decide), hne '"' (by decide), hne '\x7b' (by decide),
          hne '[' (by decide), hne 'n' (by decide), hne 't' (by decide), hne 'f' (by decide),
          hne 'N' (by decide), hne 'I' (by decide)]
      rw [List.cons_append, run_cons hfirst, run_scanFrom hscan]
      exact run_number_end hn (by simpa using hvalue) hrest

theorem textItems_cons (v w : Json) (items : List Json) :
    textItems (v :: w :: items) = v.text ++ ',' :: ' ' :: textItems (w :: items) := by
  rw [textItems]
  exact List.cons_ne_nil _ _

theorem textMembers_cons (k : String) (v : Json) (item : String × Json)
    (items : List (String × Json)) : textMembers ((k, v) :: item :: items) =
      jsonString k ++ ':' :: ' ' :: (v.text ++ ',' :: ' ' :: textMembers (item :: items)) := by
  rw [textMembers]
  exact List.cons_ne_nil _ _

/-- Where a value may begin, or a list end, a value begins as it does elsewhere. -/
theorem run_first {c : Char} (hspace : isSpace c = false) (hclose : c ≠ ']') (rest : List Char) :
    Scanner.run limits ⟨.first, stack⟩ (c :: rest) =
      Scanner.run limits ⟨.value, stack⟩ (c :: rest) := by
  rw [Scanner.run, Scanner.run]
  simp [step, hspace, hclose]

/-- The text of a value begins with neither a blank, a bracket that closes, nor a byte order
    mark. -/
theorem text_begins (v : Json) (h : v.Canonical) :
    ∃ c cs, v.text = c :: cs ∧ isSpace c = false ∧ c ≠ ']' ∧ c ≠ Char.ofNat 0xfeff := by
  cases v with
  | null => exact ⟨'n', _, rfl, rfl, by decide, by decide⟩
  | bool b =>
    cases b with
    | true => exact ⟨'t', _, rfl, rfl, by decide, by decide⟩
    | false => exact ⟨'f', _, rfl, rfl, by decide, by decide⟩
  | number literal =>
    -- a number begins with a digit or a minus
    obtain ⟨n, digits, hscan, -⟩ := h
    cases literal with
    | nil => simp [Numeral.scan] at hscan
    | cons c cs =>
      have hne : ∀ d, Numeral.start d = none → c ≠ d := by
        rintro d hd rfl
        simp [Numeral.scan, hd] at hscan
      refine ⟨c, cs, rfl, ?_, hne ']' (by decide), hne _ (by decide)⟩
      simp [isSpace, hne ' ' (by decide), hne '\t' (by decide), hne '\n' (by decide),
        hne '\r' (by decide)]
  | str s => exact ⟨'"', _, rfl, rfl, by decide, by decide⟩
  | arr items => exact ⟨'[', textItems items ++ [']'], by rw [Json.text], rfl, by decide, by decide⟩
  | obj items =>
    exact ⟨'\x7b', textMembers items ++ ['\x7d'], by rw [Json.text], rfl, by decide, by decide⟩

theorem checkItems_cons {level : ℕ} {v : Json} {rest : List Json}
    (h : checkItems limits level (v :: rest) = .ok ()) :
    v.check limits level = .ok () ∧ checkItems limits level rest = .ok () := by
  rw [checkItems] at h
  cases hv : v.check limits level with
  | error e => simp [hv] at h
  | ok u => exact ⟨rfl, by simpa [hv] using h⟩

theorem checkMembers_cons {level : ℕ} {k : String} {v : Json} {rest : List (String × Json)}
    (h : checkMembers limits level ((k, v) :: rest) = .ok ()) :
    v.check limits level = .ok () ∧ checkMembers limits level rest = .ok () := by
  rw [checkMembers] at h
  cases hv : v.check limits level with
  | error e => simp [hv] at h
  | ok u => exact ⟨rfl, by simpa [hv] using h⟩

/-- A key that comes after all others is new. -/
theorem new_of_sorted {before items : Dict} {k : String} {v : Json}
    (h : (before ++ (k, v) :: items).Pairwise (fun a b => a.1 < b.1)) :
    ∀ item ∈ before, item.1 ≠ k := by
  intro item hitem
  have hlt := (List.pairwise_append.mp h).2.2 item hitem (k, v) List.mem_cons_self
  exact hlt.ne

/-- A key and what stands between it and its value. -/
theorem run_key {first : Bool} {members : Dict} (k : String) (rest : List Char) :
    Scanner.run limits ⟨.key first members, stack⟩ (jsonString k ++ ':' :: ' ' :: rest) =
      Scanner.run limits ⟨.value, .obj members k :: stack⟩ rest := by
  rw [jsonString, List.cons_append, run_cons (t := ⟨.string (some members) [] none, stack⟩)
    (by simp [step, isSpace]), List.append_assoc]
  refine (run_jsonString k _).trans ?_
  rw [closeString, List.reverse_reverse, String.ofList_toList]
  exact (run_cons (t := ⟨.value, .obj members k :: stack⟩) (by simp [step, isSpace]) _).trans
    (run_cons (by simp [step, isSpace]) rest)

mutual

/-- The scanner reads a written value as it was. -/
theorem run_text : ∀ (v : Json), v.Canonical → ∀ (stack : List Frame),
    v.check limits stack.length = .ok () → ∀ rest, Ends rest →
    Scanner.run limits ⟨.value, stack⟩ (v.text ++ rest) = Scanner.run limits ⟨.done v, stack⟩ rest
  | .null, _, _, _, _, _ => rfl
  | .bool true, _, _, _, _, _ => rfl
  | .bool false, _, _, _, _, _ => rfl
  | .number literal, h, stack, hcheck, rest, hrest => by
    rw [Json.text]
    exact run_number h hcheck hrest
  | .str s, _, stack, _, rest, _ => by
    rw [Json.text, jsonString, List.cons_append, List.append_assoc,
      run_cons (t := ⟨.string none [] none, stack⟩) (by simp [step, begin, isSpace])]
    refine (run_jsonString s rest).trans ?_
    rw [closeString, List.reverse_reverse, String.ofList_toList]
  | .arr items, h, stack, hcheck, rest, _ => by
    rw [Json.check] at hcheck
    split at hcheck
    · cases hcheck
    · rename_i hdepth
      rw [Json.text, List.cons_append, List.append_assoc,
        run_cons (t := ⟨.first, .arr [] :: stack⟩) (by simp [step, begin, isSpace, hdepth])]
      cases items with
      | nil => exact run_cons (by simp [step, isSpace]) rest
      | cons v items =>
        -- the first item begins with a character that is neither a blank nor the closing bracket
        obtain ⟨c, cs, htext, hspace, hclose, -⟩ := text_begins v h.1
        have hhead : ∃ cs', textItems (v :: items) ++ ([']'] ++ rest) = c :: cs' := by
          cases items with
          | nil => exact ⟨_, by rw [textItems, htext]; rfl⟩
          | cons w items => exact ⟨_, by rw [textItems_cons, htext]; rfl⟩
        obtain ⟨cs', hcs'⟩ := hhead
        rw [hcs', run_first hspace hclose, ← hcs']
        exact run_textItems (v :: items) (List.cons_ne_nil _ _) h [] stack hcheck rest
  | .obj items, h, stack, hcheck, rest, _ => by
    rw [Json.check] at hcheck
    split at hcheck
    · cases hcheck
    · rename_i hdepth
      rw [Json.text, List.cons_append, List.append_assoc,
        run_cons (t := ⟨.key true [], stack⟩) (by simp [step, begin, isSpace, hdepth])]
      cases items with
      | nil => exact run_cons (by simp [step, isSpace]) rest
      | cons item items =>
        exact run_textMembers (item :: items) (List.cons_ne_nil _ _) h.2 true [] h.1 stack hcheck
          rest

/-- The items of an array, behind those before them. -/
theorem run_textItems : ∀ (items : List Json), items ≠ [] → CanonicalItems items →
    ∀ (before : List Json) (stack : List Frame),
    checkItems limits (stack.length + 1) items = .ok () → ∀ rest,
    Scanner.run limits ⟨.value, .arr before :: stack⟩ (textItems items ++ ([']'] ++ rest)) =
      Scanner.run limits ⟨.done (.arr (before ++ items)), stack⟩ rest
  | [], hne, _, _, _, _, _ => absurd rfl hne
  | [v], _, h, before, stack, hcheck, rest => by
    have hv := (checkItems_cons hcheck).1
    rw [textItems, run_text v h.1 (.arr before :: stack) hv _ (by simp [Ends])]
    exact run_cons (by simp [step, after, isSpace]) rest
  | v :: w :: items, _, h, before, stack, hcheck, rest => by
    obtain ⟨hv, hitems⟩ := checkItems_cons hcheck
    rw [textItems_cons, List.append_assoc,
      run_text v h.1 (.arr before :: stack) hv _ (by simp [Ends]), List.cons_append,
      List.cons_append, run_cons (t := ⟨.value, .arr (before ++ [v]) :: stack⟩)
        (by simp [step, after, isSpace]),
      run_cons (t := ⟨.value, .arr (before ++ [v]) :: stack⟩) (by simp [step, isSpace]),
      run_textItems (w :: items) (List.cons_ne_nil _ _) h.2 (before ++ [v]) stack hitems rest,
      List.append_assoc]
    rfl

/-- The members of an object, whose keys come after those before them. -/
theorem run_textMembers : ∀ (items : List (String × Json)), items ≠ [] → CanonicalMembers items →
    ∀ (first : Bool) (before : Dict), (before ++ items).Pairwise (fun a b => a.1 < b.1) →
    ∀ (stack : List Frame), checkMembers limits (stack.length + 1) items = .ok () → ∀ rest,
    Scanner.run limits ⟨.key first before, stack⟩ (textMembers items ++ (['}'] ++ rest)) =
      Scanner.run limits ⟨.done (.obj (before ++ items)), stack⟩ rest
  | [], hne, _, _, _, _, _, _, _ => absurd rfl hne
  | [(k, v)], _, h, first, before, hsorted, stack, hcheck, rest => by
    -- the keys are in order, so the member is new
    have hv := (checkMembers_cons hcheck).1
    have hset := Dict.set_of_new (v := v) (new_of_sorted hsorted)
    rw [textMembers, List.append_assoc, List.cons_append, List.cons_append, run_key,
      run_text v h.1 (.obj before k :: stack) hv _ (by simp [Ends]), ← hset]
    exact run_cons (by simp [step, after, isSpace]) rest
  | (k, v) :: item :: items, _, h, first, before, hsorted, stack, hcheck, rest => by
    obtain ⟨hv, hitems⟩ := checkMembers_cons hcheck
    have hset := Dict.set_of_new (v := v) (new_of_sorted hsorted)
    have hsorted' : ((before ++ [(k, v)]) ++ item :: items).Pairwise (fun a b => a.1 < b.1) := by
      rwa [List.append_assoc]
    rw [textMembers_cons, List.append_assoc, List.cons_append, List.cons_append, run_key,
      List.append_assoc, run_text v h.1 (.obj before k :: stack) hv _ (by simp [Ends]),
      List.cons_append, List.cons_append,
      run_cons (t := ⟨.key false (before ++ [(k, v)]), stack⟩)
        (by simp [step, after, isSpace, hset]),
      run_cons (t := ⟨.key false (before ++ [(k, v)]), stack⟩) (by simp [step, isSpace]),
      run_textMembers (item :: items) (List.cons_ne_nil _ _) h.2 false (before ++ [(k, v)])
        hsorted' stack hitems rest, List.append_assoc]
    rfl

end

end Scanner

/-- What is written is read back. -/
theorem loads_dumps {limits : Limits} {v : Json} {text : List Char} (h : v.Canonical)
    (hdumps : dumps limits v = .ok text) : loads limits text = .ok v := by
  unfold dumps at hdumps
  cases hcheck : v.check limits 0 with
  | error e => simp [hcheck] at hdumps
  | ok u =>
    simp only [hcheck, Except.ok.injEq, sortKeys_of_canonical v h] at hdumps
    have hrun := Scanner.run_text v h [] hcheck [] trivial
    rw [List.append_nil, hdumps] at hrun
    obtain ⟨c, cs, htext, -, -, hne⟩ := Scanner.text_begins v h
    have hmark : text.head? ≠ some (Char.ofNat 0xfeff) := by
      rw [← hdumps, htext, List.head?_cons, ne_eq, Option.some.injEq]
      exact hne
    rw [loads, if_neg hmark]
    exact hrun

/-! ## Objects of texts -/

/-- The members of such an object, as values. -/
def textValues (members : List (String × String)) : List (String × Json) :=
  members.map fun item => (item.1, .str item.2)

theorem textMembers_textValues (members : List (String × String)) :
    textMembers (textValues members) = jsonMembers members := by
  induction members with
  | nil => rfl
  | cons item rest ih =>
    cases rest with
    | nil => rfl
    | cons next rest =>
      obtain ⟨k, v⟩ := item
      have hcons : textValues ((k, v) :: next :: rest) =
          (k, .str v) :: (next.1, .str next.2) :: textValues rest := rfl
      rw [hcons, Scanner.textMembers_cons, jsonMembers, ← ih]
      · simp [textValues, Json.text]
      · exact List.cons_ne_nil _ _

theorem dumps_textValues (limits : Limits) (hdepth : 0 < limits.depth)
    {members : List (String × String)} (hsorted : (members.map Prod.fst).Pairwise (· < ·)) :
    (Json.obj (textValues members)).Canonical ∧
      dumps limits (.obj (textValues members)) = .ok (jsonObject members).toList := by
  have hmembers : ∀ members, CanonicalMembers (textValues members) ∧
      ∀ level, checkMembers limits level (textValues members) = .ok () := by
    intro members
    induction members with
    | nil => exact ⟨trivial, fun _ => rfl⟩
    | cons item rest ih => exact ⟨⟨trivial, ih.1⟩, ih.2⟩
  have hcanonical : (Json.obj (textValues members)).Canonical := by
    refine ⟨?_, (hmembers members).1⟩
    rw [textValues, List.pairwise_map]
    exact List.pairwise_map.mp hsorted
  refine ⟨hcanonical, ?_⟩
  have hcheck : (Json.obj (textValues members)).check limits 0 = .ok () := by
    rw [Json.check, if_neg (by omega)]
    exact (hmembers members).2 1
  rw [dumps, hcheck]
  simp only [sortKeys_of_canonical _ hcanonical, Json.text, textMembers_textValues, jsonObject,
    String.toList_ofList]

/-- Such objects are written apart, whatever their texts are. -/
theorem jsonObject_injective {ms ms' : List (String × String)}
    (hsorted : (ms.map Prod.fst).Pairwise (· < ·))
    (hsorted' : (ms'.map Prod.fst).Pairwise (· < ·)) (h : jsonObject ms = jsonObject ms') :
    ms = ms' := by
  obtain ⟨hcanonical, hdumps⟩ := dumps_textValues { depth := 1 } one_pos hsorted
  obtain ⟨hcanonical', hdumps'⟩ := dumps_textValues { depth := 1 } one_pos hsorted'
  have hread := loads_dumps hcanonical hdumps
  rw [h, loads_dumps hcanonical' hdumps'] at hread
  have hvalues : textValues ms' = textValues ms := by
    injection hread with hobj
    injection hobj
  have hinjective : Function.Injective
      fun item : String × String => (item.1, Json.str item.2) := by
    intro a b hab
    simp only [Prod.mk.injEq, Json.str.injEq] at hab
    exact Prod.ext hab.1 hab.2
  exact (List.map_injective_iff.mpr hinjective hvalues).symm

end Evenkeel.Python
