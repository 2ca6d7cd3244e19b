import Evenkeel.Logging.InlineSecrets

/-!
# What `_INLINE_SECRET` Matches

The pattern backtracks, but only one way through it ever succeeds: a name is the whole run of
the characters a name has, blanks are skipped as far as they go, and the credential is a quoted
text if the quote is closed.

- `opening`, `afterScheme`, `secret`: the parts of a match, read without backtracking

## Key Results

- `head?_of_opening`, `head?_of_none`: what the pattern matches
-/

namespace Evenkeel.Logging

open Evenkeel.Domain Evenkeel.Patterns

/-! ## Characters -/

theorem isUpper_eq (c : Char) : c.isUpper = decide (c.val ≥ 'A'.val ∧ c.val ≤ 'Z'.val) := rfl

theorem isLower_eq (c : Char) : c.isLower = (c.val ≥ 'a'.val && c.val ≤ 'z'.val) := rfl

theorem isAlpha_eq (c : Char) : c.isAlpha = (c.isUpper || c.isLower) := rfl

/-- `Char.toLower` changes nothing but a capital letter. -/
theorem toLower_cases (c : Char) :
    c.toLower = c ∨ c.isUpper = true ∧ c.toLower.isLower = true := by
  unfold Char.toLower
  split
  · rename_i h
    right
    constructor
    · simpa [isUpper_eq] using h
    · obtain ⟨hlo, hhi⟩ := h
      simp only [isLower_eq, Bool.and_eq_true, decide_eq_true_eq, ge_iff_le,
        UInt32.le_iff_toNat_le, UInt32.toNat_add] at hlo hhi ⊢
      have hbounds : 'A'.val.toNat = 65 ∧ 'Z'.val.toNat = 90 ∧ 'a'.val.toNat = 97 ∧
        'z'.val.toNat = 122 ∧ ('a'.val - 'A'.val).toNat = 32 := by decide
      omega
  · exact .inl rfl

theorem eq_of_toLower {c l : Char} (hl : l.isLower = false) (h : c.toLower = l) : c = l := by
  rcases toLower_cases c with heq | ⟨-, hlower⟩
  · rw [← heq, h]
  · rw [h, hl] at hlower
    cases hlower

/-- A symbol has no other case. -/
theorem ignoreCase_symbol {l c : Char} (hl : l = '_' ∨ l = '-') :
    ignoreCase l c = true ↔ c = l := by
  have hsymbol : l.isLower = false ∧ l.toLower = l ∧ l ≠ 'i' ∧ l ≠ 'k' ∧ l ≠ 's' := by
    rcases hl with rfl | rfl <;> decide
  obtain ⟨hlower, heq, hi, hk, hs⟩ := hsymbol
  simp only [ignoreCase, heq, hi, hk, hs, decide_false, Bool.false_and, Bool.or_false,
    decide_eq_true_eq]
  constructor
  · exact eq_of_toLower hlower
  · intro h
    rw [h, heq]

/-- Whatever matches a character of a name may stand in a name. -/
theorem nameChar_of_ignoreCase {l c : Char} (hl : l.isAlpha = true ∨ l = '_' ∨ l = '-')
    (h : ignoreCase l c = true) : nameChar c = true := by
  rcases hl with halpha | hsymbol
  · simp only [ignoreCase, Bool.or_eq_true, Bool.and_eq_true, decide_eq_true_eq] at h
    rcases h with ((hcase | ⟨-, hi⟩) | ⟨-, hk⟩) | ⟨-, hs⟩
    · -- a letter matches itself in either case
      have hc : c.isAlpha = true := by
        rcases toLower_cases c with heq | ⟨hupper, -⟩
        · rw [← heq, hcase, isAlpha_eq]
          rcases toLower_cases l with heq' | ⟨-, hlower⟩
          · rw [heq']
            exact halpha
          · rw [hlower, Bool.or_true]
        · rw [isAlpha_eq, hupper, Bool.true_or]
      simp [nameChar, hc]
    · -- what else `re.IGNORECASE` lets through: the two Turkish letters, the Kelvin sign, the
      -- long s
      rcases hi with rfl | rfl <;> decide
    · rw [hk]
      decide
    · rw [hs]
      decide
  · rw [(ignoreCase_symbol hsymbol).mp h]
    rcases hsymbol with rfl | rfl <;> decide

theorem isSpace_of_nameChar {c : Char} (h : nameChar c = true) : isSpace c = false := by
  simp only [nameChar, Bool.or_eq_true, decide_eq_true_eq, List.mem_cons, List.not_mem_nil,
    or_false] at h
  rcases h with ((halpha | rfl) | rfl) | hbeyond
  · simp only [isAlpha_eq, isUpper_eq, isLower_eq, Bool.or_eq_true, Bool.and_eq_true,
      decide_eq_true_eq, ge_iff_le, UInt32.le_iff_toNat_le] at halpha
    have hbounds : 'A'.val.toNat = 65 ∧ 'Z'.val.toNat = 90 ∧ 'a'.val.toNat = 97 ∧
      'z'.val.toNat = 122 := by decide
    have hnat : c.toNat = c.val.toNat := rfl
    simp only [isSpace, decide_eq_false_iff_not, List.mem_cons, List.not_mem_nil, or_false]
    omega
  · decide
  · decide
  · rcases hbeyond with rfl | rfl | rfl | rfl <;> decide

/-! ## Words -/

/-- A text spells a word. -/
def spells : List Char → List Char → Bool
  | [], [] => true
  | c :: w, d :: t => ignoreCase c d && spells w t
  | _, _ => false

def keyWords : List String :=
  ["password", "token", "secret", "apikey", "api_key", "api-key", "authorization"]

def schemes : List String := ["Bearer", "Basic", "Token", "Digest"]

def isKeyWord (t : List Char) : Bool := keyWords.any fun w => spells w.toList t

def isScheme (t : List Char) : Bool := schemes.any fun w => spells w.toList t

theorem spells_iff {w t : List Char} :
    spells w t = true ↔ List.Forall₂ (fun c d => ignoreCase c d = true) w t := by
  induction w generalizing t with
  | nil => cases t <;> simp [spells]
  | cons c w ih => cases t <;> simp [spells, ih]

theorem spells_append {w w' t : List Char} : spells (w ++ w') t = true ↔
    ∃ t₁ t₂, t = t₁ ++ t₂ ∧ spells w t₁ = true ∧ spells w' t₂ = true := by
  induction w generalizing t with
  | nil =>
    constructor
    · intro h
      exact ⟨[], t, rfl, rfl, h⟩
    · intro h
      obtain ⟨t₁, t₂, rfl, h₁, h₂⟩ := h
      cases t₁ with
      | nil => exact h₂
      | cons d t₁ => cases h₁
  | cons c w ih =>
    cases t with
    | nil =>
      -- nothing left to spell the first letter with
      simp only [List.cons_append, spells, Bool.false_eq_true, false_iff, not_exists, not_and]
      intro t₁ t₂ ht h₁
      cases t₁ with
      | nil => cases h₁
      | cons d t₁ => cases ht
    | cons d t =>
      rw [List.cons_append, spells, Bool.and_eq_true, ih]
      constructor
      · intro h
        obtain ⟨hd, t₁, t₂, rfl, h₁, h₂⟩ := h
        exact ⟨d :: t₁, t₂, rfl, by rw [spells, hd, h₁, Bool.and_self], h₂⟩
      · intro h
        obtain ⟨t₁, t₂, ht, h₁, h₂⟩ := h
        -- the first part spells a letter, so it takes the first one of the text
        cases t₁ with
        | nil => cases h₁
        | cons e t₁ =>
          rw [List.cons_append, List.cons.injEq] at ht
          obtain ⟨rfl, rfl⟩ := ht
          rw [spells, Bool.and_eq_true] at h₁
          exact ⟨h₁.1, t₁, t₂, rfl, h₁.2, h₂⟩

/-- A word of characters that a name has is spelled with characters that a name has. -/
theorem nameChar_of_spells {w t : List Char}
    (hw : ∀ c ∈ w, c.isAlpha = true ∨ c = '_' ∨ c = '-') (h : spells w t = true) :
    ∀ c ∈ t, nameChar c = true := by
  induction w generalizing t with
  | nil =>
    cases t with
    | nil => simp
    | cons d t => cases h
  | cons c w ih =>
    cases t with
    | nil => cases h
    | cons d t =>
      rw [spells, Bool.and_eq_true] at h
      obtain ⟨hc, hw⟩ := List.forall_mem_cons.mp hw
      exact List.forall_mem_cons.mpr ⟨nameChar_of_ignoreCase hc h.1, ih hw h.2⟩

theorem nameChar_of_isKeyWord {t : List Char} (h : isKeyWord t = true) :
    ∀ c ∈ t, nameChar c = true := by
  obtain ⟨w, hw, hspells⟩ := List.any_eq_true.mp h
  have hletters : ∀ w ∈ keyWords,
      (w.toList.all fun c => c.isAlpha || (c = '_' || c = '-')) = true := by
    decide
  exact nameChar_of_spells (by simpa using hletters w hw) hspells

theorem nameChar_of_isScheme {t : List Char} (h : isScheme t = true) :
    ∀ c ∈ t, nameChar c = true := by
  obtain ⟨w, hw, hspells⟩ := List.any_eq_true.mp h
  have hletters : ∀ w ∈ schemes,
      (w.toList.all fun c => c.isAlpha || (c = '_' || c = '-')) = true := by
    decide
  exact nameChar_of_spells (by simpa using hletters w hw) hspells

section

variable {word : Char → Bool} {prev : Option Char} {s : List Char} {m : Match}

theorem mem_literal {w : String} : m ∈ (literal w).run word prev s ↔
    m.text ++ m.rest = s ∧ spells w.toList m.text = true ∧ m.groups = [] := by
  rw [literal, mem_run_literal, spells_iff]

/-- `api[_-]?key` spells one of three words. -/
theorem mem_apiKey : m ∈ (Pattern.seq (literal "api")
      (.seq (.opt (.set fun c => c = '_' || c = '-')) (literal "key"))).run word prev s ↔
    m.text ++ m.rest = s ∧ (spells "apikey".toList m.text = true ∨
      spells "api_key".toList m.text = true ∨ spells "api-key".toList m.text = true) ∧
      m.groups = [] := by
  constructor
  · -- what a match is
    intro h
    refine ⟨append_of_mem_run h, ?_⟩
    obtain ⟨m₁, h₁, m₂, h₂, rfl⟩ := mem_run_seq.mp h
    obtain ⟨m₃, h₃, m₄, h₄, rfl⟩ := mem_run_seq.mp h₂
    obtain ⟨-, hapi, hg₁⟩ := mem_literal.mp h₁
    obtain ⟨-, hkey, hg₄⟩ := mem_literal.mp h₄
    -- the optional character is absent, `_` or `-`
    have hopt : (m₃.text = [] ∨ m₃.text = ['_'] ∨ m₃.text = ['-']) ∧ m₃.groups = [] := by
      rcases mem_run_opt.mp h₃ with hset | hnone
      · obtain ⟨c, hc, -, htext, hg₃⟩ := mem_run_set.mp hset
        simp only [Bool.or_eq_true, decide_eq_true_eq] at hc
        rw [htext]
        rcases hc with rfl | rfl
        · exact ⟨.inr (.inl rfl), hg₃⟩
        · exact ⟨.inr (.inr rfl), hg₃⟩
      · rw [hnone]
        exact ⟨.inl rfl, rfl⟩
    obtain ⟨htext, hg₃⟩ := hopt
    refine ⟨?_, by simp [Match.append, hg₁, hg₃, hg₄]⟩
    rcases htext with htext | htext | htext
    · -- `apikey`, `api_key` and `api-key`
      refine .inl (spells_append (w := "api".toList).mpr ⟨m₁.text, m₄.text, ?_, hapi, hkey⟩)
      simp [Match.append, htext]
    · refine .inr (.inl (spells_append (w := "api".toList).mpr
        ⟨m₁.text, '_' :: m₄.text, ?_, hapi, ?_⟩))
      · simp [Match.append, htext]
      · exact Bool.and_eq_true_iff.mpr ⟨by decide, hkey⟩
    · refine .inr (.inr (spells_append (w := "api".toList).mpr
        ⟨m₁.text, '-' :: m₄.text, ?_, hapi, ?_⟩))
      · simp [Match.append, htext]
      · exact Bool.and_eq_true_iff.mpr ⟨by decide, hkey⟩
  · intro h
    obtain ⟨text, groups, rest⟩ := m
    obtain ⟨rfl, hspells, rfl⟩ := h
    -- whatever stands between the two parts
    have hbuild : ∀ {t₁ u t₂ : List Char}, spells "api".toList t₁ = true →
        (∀ prev s, ⟨u, [], s⟩ ∈ (Pattern.opt (.set fun c => c = '_' || c = '-')).run word prev
          (u ++ s)) →
        spells "key".toList t₂ = true → (⟨t₁ ++ (u ++ t₂), [], rest⟩ : Match) ∈
          (Pattern.seq (literal "api") (.seq (.opt (.set fun c => c = '_' || c = '-'))
            (literal "key"))).run word prev (t₁ ++ (u ++ t₂) ++ rest) := by
      intro t₁ u t₂ hapi hu hkey
      apply mem_run_seq.mpr
      refine ⟨⟨t₁, [], u ++ (t₂ ++ rest)⟩, mem_literal.mpr ⟨?_, hapi, rfl⟩, ⟨u ++ t₂, [], rest⟩,
        ?_, rfl⟩
      · simp
      · apply mem_run_seq.mpr
        exact ⟨⟨u, [], t₂ ++ rest⟩, hu _ _, ⟨t₂, [], rest⟩, mem_literal.mpr ⟨rfl, hkey, rfl⟩, rfl⟩
    have hsymbol : ∀ {c : Char}, c = '_' ∨ c = '-' → ∀ prev s, (⟨[c], [], s⟩ : Match) ∈
        (Pattern.opt (.set fun c => c = '_' || c = '-')).run word prev ([c] ++ s) := by
      intro c hc prev s
      exact mem_run_opt.mpr (.inl (mem_run_set.mpr ⟨c, by simpa using hc, rfl, rfl, rfl⟩))
    -- a text that spells a symbol first begins with it
    have hsplit : ∀ {c : Char} {t : List Char}, c = '_' ∨ c = '-' →
        spells (c :: "key".toList) t = true →
        ∃ t₂, t = [c] ++ t₂ ∧ spells "key".toList t₂ = true := by
      intro c t hc ht
      obtain ⟨t₂, t₃, rfl, hc', hkey⟩ := spells_append (w := [c]).mp ht
      cases t₂ with
      | nil => cases hc'
      | cons d t₂ =>
        cases t₂ with
        | nil =>
          simp only [spells, Bool.and_true] at hc'
          rw [(ignoreCase_symbol hc).mp hc']
          exact ⟨t₃, rfl, hkey⟩
        | cons e t₂ => simp [spells] at hc'
    rcases hspells with hspells | hspells | hspells
    · obtain ⟨t₁, t₂, rfl, hapi, hkey⟩ := spells_append (w := "api".toList).mp hspells
      exact hbuild (u := []) hapi (fun _ _ => mem_run_opt.mpr (.inr rfl)) hkey
    · obtain ⟨t₁, t₂, rfl, hapi, hrest⟩ := spells_append (w := "api".toList).mp hspells
      obtain ⟨t₃, rfl, hkey⟩ := hsplit (.inl rfl) hrest
      exact hbuild hapi (hsymbol (.inl rfl)) hkey
    · obtain ⟨t₁, t₂, rfl, hapi, hrest⟩ := spells_append (w := "api".toList).mp hspells
      obtain ⟨t₃, rfl, hkey⟩ := hsplit (.inr rfl) hrest
      exact hbuild hapi (hsymbol (.inr rfl)) hkey

theorem either {p q r t : Prop} : (p ∧ q ∧ t) ∨ (p ∧ r ∧ t) ↔ p ∧ (q ∨ r) ∧ t := by tauto

theorem mem_keyWord : m ∈ keyWord.run word prev s ↔
    m.text ++ m.rest = s ∧ isKeyWord m.text = true ∧ m.groups = [] := by
  simp only [keyWord, mem_run_alt, mem_literal, mem_apiKey, isKeyWord, keyWords, List.any_cons,
    List.any_nil, Bool.or_false, Bool.or_eq_true, either, or_assoc]

end

/-! ## The parts of a match -/

def endsInKeyWord (name : List Char) : Bool := name.tails.any isKeyWord

/-- A text that opens with a name and a separator: both of them, and what follows. -/
def opening (word : Char → Bool) (prev : Option Char) (s : List Char) :
    Option (List Char × List Char) :=
  let name := s.takeWhile nameChar
  let rest := s.dropWhile nameChar
  match rest.dropWhile isSpace with
  | [] => none
  | x :: body =>
    if isBoundary word prev s.head? && endsInKeyWord name && (x = '=' || x = ':') then
      some (name ++ (rest.takeWhile isSpace ++ x :: body.takeWhile isSpace),
        body.dropWhile isSpace)
    else none

/-- A scheme and the blanks behind it, if anything follows them. -/
def afterScheme (body : List Char) : List Char × List Char :=
  let rest := body.dropWhile notSpace
  if isScheme (body.takeWhile notSpace) && !(rest.dropWhile isSpace).isEmpty then
    (body.takeWhile notSpace ++ rest.takeWhile isSpace, rest.dropWhile isSpace)
  else ([], body)

def isQuote (c : Char) : Bool := c = '"' || c = '\x27'

/-- The credential, and what follows. -/
def secret : List Char → List Char × List Char
  | [] => ([], [])
  | c :: more =>
    if isQuote c && c ∈ more then
      (c :: more.takeWhile (· ≠ c) ++ [c], (more.dropWhile (· ≠ c)).drop 1)
    else ((c :: more).takeWhile notSpace, (c :: more).dropWhile notSpace)

section

variable {word : Char → Bool} {prev : Option Char} {s : List Char} {m : Match}

theorem mem_name : m ∈ (Pattern.group 1 (.seq (.many nameChar) keyWord)).run word prev s ↔
    m.text ++ m.rest = s ∧ (∀ c ∈ m.text, nameChar c = true) ∧ endsInKeyWord m.text = true ∧
      m.groups = [(1, m.text)] := by
  rw [mem_run_group]
  constructor
  · intro h
    obtain ⟨m', hm', rfl⟩ := h
    have happend := append_of_mem_run hm'
    obtain ⟨m₁, h₁, m₂, h₂, rfl⟩ := mem_run_seq.mp hm'
    obtain ⟨-, hname, hg₁⟩ := mem_spans.mp h₁
    obtain ⟨-, hkey, hg₂⟩ := mem_keyWord.mp h₂
    -- the last part of the name is the key word, and the part before it is a name too
    refine ⟨happend, ?_, ?_, ?_⟩
    · intro c hc
      rcases List.mem_append.mp hc with hc | hc
      · exact hname c hc
      · exact nameChar_of_isKeyWord hkey c hc
    · exact List.any_eq_true.mpr ⟨m₂.text, (List.mem_tails _ _).mpr ⟨m₁.text, rfl⟩, hkey⟩
    · simp [Match.append, hg₁, hg₂]
  · intro h
    obtain ⟨text, groups, rest⟩ := m
    dsimp only at h
    obtain ⟨rfl, hname, hends, rfl⟩ := h
    -- the other way round: the name is cut where the key word begins
    obtain ⟨w, hw, hkey⟩ := List.any_eq_true.mp hends
    obtain ⟨a, rfl⟩ := (List.mem_tails _ _).mp hw
    refine ⟨⟨a ++ w, [], rest⟩, mem_run_seq.mpr ⟨⟨a, [], w ++ rest⟩, mem_spans.mpr ⟨?_, ?_, rfl⟩,
      ⟨w, [], rest⟩, mem_keyWord.mpr ⟨rfl, hkey, rfl⟩, rfl⟩, rfl⟩
    · simp
    · exact fun c hc => hname c (List.mem_append_left _ hc)

theorem mem_separator : m ∈ (Pattern.group 2 separator).run word prev s ↔
    ∃ ws x ws', (∀ c ∈ ws, isSpace c = true) ∧ (x = '=' ∨ x = ':') ∧
      (∀ c ∈ ws', isSpace c = true) ∧ m.text = ws ++ x :: ws' ∧ m.text ++ m.rest = s ∧
      m.groups = [(2, m.text)] := by
  rw [mem_run_group]
  constructor
  · intro h
    obtain ⟨m', hm', rfl⟩ := h
    have happend := append_of_mem_run hm'
    obtain ⟨m₁, h₁, m₂, h₂, rfl⟩ := mem_run_seq.mp hm'
    obtain ⟨m₃, h₃, m₄, h₄, rfl⟩ := mem_run_seq.mp h₂
    obtain ⟨-, hws, hg₁⟩ := mem_spans.mp h₁
    obtain ⟨x, hx, -, htext, hg₃⟩ := mem_run_set.mp h₃
    obtain ⟨-, hws', hg₄⟩ := mem_spans.mp h₄
    -- blanks, the symbol, blanks
    refine ⟨m₁.text, x, m₄.text, hws, by simpa using hx, hws', ?_, happend, ?_⟩
    · simp [Match.append, htext]
    · simp [Match.append, hg₁, hg₃, hg₄]
  · intro h
    obtain ⟨text, groups, rest⟩ := m
    dsimp only at h
    obtain ⟨ws, x, ws', hws, hx, hws', rfl, rfl, rfl⟩ := h
    refine ⟨⟨ws ++ x :: ws', [], rest⟩, mem_run_seq.mpr ⟨⟨ws, [], x :: ws' ++ rest⟩,
      mem_spans.mpr ⟨by simp, hws, rfl⟩, ⟨x :: ws', [], rest⟩, mem_run_seq.mpr
        ⟨⟨[x], [], ws' ++ rest⟩, mem_run_set.mpr ⟨x, by simpa using hx, rfl, rfl, rfl⟩,
          ⟨ws', [], rest⟩, mem_spans.mpr ⟨rfl, hws', rfl⟩, rfl⟩, rfl⟩, rfl⟩

theorem mem_scheme : m ∈ (Pattern.group 3 scheme).run word prev s ↔
    ∃ w ws, isScheme w = true ∧ ws ≠ [] ∧ (∀ c ∈ ws, isSpace c = true) ∧ m.text = w ++ ws ∧
      m.text ++ m.rest = s ∧ m.groups = [(3, m.text)] := by
  -- the four words
  have hword : ∀ {prev s m}, m ∈ (Pattern.alt (literal "Bearer") (.alt (literal "Basic")
      (.alt (literal "Token") (literal "Digest")))).run word prev s ↔
      m.text ++ m.rest = s ∧ isScheme m.text = true ∧ m.groups = [] := by
    intro prev s m
    simp only [mem_run_alt, mem_literal, isScheme, schemes, List.any_cons, List.any_nil,
      Bool.or_false, Bool.or_eq_true, either]
  rw [mem_run_group]
  constructor
  · intro h
    obtain ⟨m', hm', rfl⟩ := h
    have happend := append_of_mem_run hm'
    obtain ⟨m₁, h₁, m₂, h₂, rfl⟩ := mem_run_seq.mp hm'
    obtain ⟨-, hscheme, hg₁⟩ := hword.mp h₁
    obtain ⟨-, hne, hws, hg₂⟩ := mem_run_plus.mp h₂
    exact ⟨m₁.text, m₂.text, hscheme, hne, hws, rfl, happend, by simp [Match.append, hg₁, hg₂]⟩
  · intro h
    obtain ⟨text, groups, rest⟩ := m
    dsimp only at h
    obtain ⟨w, ws, hscheme, hne, hws, rfl, rfl, rfl⟩ := h
    exact ⟨⟨w ++ ws, [], rest⟩, mem_run_seq.mpr ⟨⟨w, [], ws ++ rest⟩,
      hword.mpr ⟨by simp, hscheme, rfl⟩, ⟨ws, [], rest⟩, mem_run_plus.mpr ⟨rfl, hne, hws, rfl⟩,
      rfl⟩, rfl⟩

theorem mem_quoted {q : Char} : m ∈ (quoted q).run word prev s ↔
    ∃ inner, q ∉ inner ∧ m.text = q :: inner ++ [q] ∧ m.text ++ m.rest = s ∧ m.groups = [] := by
  constructor
  · intro h
    have happend := append_of_mem_run h
    obtain ⟨m₁, h₁, m₂, h₂, rfl⟩ := mem_run_seq.mp h
    obtain ⟨m₃, h₃, m₄, h₄, rfl⟩ := mem_run_seq.mp h₂
    obtain ⟨c, hc, -, htext₁, hg₁⟩ := mem_run_set.mp h₁
    obtain ⟨-, hinner, hg₃⟩ := mem_spans.mp h₃
    obtain ⟨d, hd, -, htext₄, hg₄⟩ := mem_run_set.mp h₄
    -- the same quote at both ends
    obtain rfl : c = q := by simpa using hc
    obtain rfl : d = c := by simpa using hd
    refine ⟨m₃.text, fun hq => ?_, ?_, happend, ?_⟩
    · simpa using hinner d hq
    · simp [Match.append, htext₁, htext₄]
    · simp [Match.append, hg₁, hg₃, hg₄]
  · intro h
    obtain ⟨text, groups, rest⟩ := m
    obtain ⟨inner, hinner, rfl, rfl, rfl⟩ := h
    refine mem_run_seq.mpr ⟨⟨[q], [], inner ++ [q] ++ rest⟩,
      mem_run_set.mpr ⟨q, by simp, rfl, rfl, rfl⟩, ⟨inner ++ [q], [], rest⟩, mem_run_seq.mpr
        ⟨⟨inner, [], [q] ++ rest⟩, mem_spans.mpr ⟨by simp, ?_, rfl⟩, ⟨[q], [], rest⟩,
          mem_run_set.mpr ⟨q, by simp, rfl, rfl, rfl⟩, rfl⟩, by simp [Match.append]⟩
    intro c hc
    simp only [decide_eq_true_eq]
    exact fun heq => hinner (heq ▸ hc)

/-! ## The credential -/

theorem run_quoted_of_not_mem {q : Char} {more : List Char} (h : q ∉ more) :
    (quoted q).run word prev (q :: more) = [] := by
  apply List.eq_nil_iff_forall_not_mem.mpr
  intro m hm
  obtain ⟨inner, -, htext, happend, -⟩ := mem_quoted.mp hm
  rw [htext, List.cons_append, List.cons_append, List.cons.injEq] at happend
  exact h (by simp [← happend.2])

theorem run_quoted_of_ne {q c : Char} {more : List Char} (h : c ≠ q) :
    (quoted q).run word prev (c :: more) = [] := by
  apply List.eq_nil_iff_forall_not_mem.mpr
  intro m hm
  obtain ⟨inner, -, htext, happend, -⟩ := mem_quoted.mp hm
  rw [htext, List.cons_append, List.cons_append, List.cons.injEq] at happend
  exact h happend.1.symm

/-- A text up to the first of a character. -/
theorem takeWhile_ne {q : Char} {a b : List Char} (h : q ∉ a) :
    (a ++ q :: b).takeWhile (· ≠ q) = a ∧ (a ++ q :: b).dropWhile (· ≠ q) = q :: b := by
  have ha : ∀ c ∈ a, (fun c => decide (c ≠ q)) c = true := by
    intro c hc
    exact decide_eq_true fun heq => h (heq ▸ hc)
  have hb : Ends (fun c => decide (c ≠ q)) (q :: b) := by
    intro c hc
    cases hc
    simp
  exact ⟨takeWhile_of_ends ha hb, dropWhile_of_ends ha hb⟩

theorem head?_quoted {q : Char} {a b : List Char} (h : q ∉ a) :
    ((quoted q).run word prev (q :: (a ++ q :: b))).head? = some ⟨q :: a ++ [q], [], b⟩ := by
  apply head?_of_unique
  · exact mem_quoted.mpr ⟨a, h, rfl, by simp, rfl⟩
  · intro m hm
    obtain ⟨text, groups, rest⟩ := m
    obtain ⟨inner, hinner, rfl, happend, rfl⟩ := mem_quoted.mp hm
    simp only [List.cons_append, List.append_assoc, List.nil_append, List.cons.injEq,
      true_and] at happend
    have htake := congrArg (List.takeWhile (· ≠ q)) happend
    have hdrop := congrArg (List.dropWhile (· ≠ q)) happend
    rw [(takeWhile_ne hinner).1, (takeWhile_ne h).1] at htake
    rw [(takeWhile_ne hinner).2, (takeWhile_ne h).2, List.cons.injEq] at hdrop
    rw [htake, hdrop.2]

/-- A credential that begins here: the closed quotation, or all up to the next blank. -/
theorem head?_credential {c : Char} {more : List Char} (hc : isSpace c = false) :
    (credential.run word prev (c :: more)).head? =
      some ⟨(secret (c :: more)).1, [], (secret (c :: more)).2⟩ := by
  have hplain : ((Pattern.plus notSpace).run word prev (c :: more)).head? =
      some ⟨(c :: more).takeWhile notSpace, [], (c :: more).dropWhile notSpace⟩ :=
    head?_plus (by simp [notSpace, hc])
  have hclosed : ∀ {q}, c = q → q ∈ more → ∃ a b, q ∉ a ∧ more = a ++ q :: b := by
    intro q _ hmem
    obtain ⟨a, b, rfl, ha⟩ := List.eq_append_cons_of_mem hmem
    exact ⟨a, b, ha, rfl⟩
  simp only [credential, Pattern.run, List.head?_append]
  -- the quotation is closed: the alternative of its own quote matches, and comes before the word
  by_cases hquote : isQuote c = true ∧ c ∈ more
  · obtain ⟨hq, hmem⟩ := hquote
    obtain ⟨a, b, ha, rfl⟩ := hclosed rfl hmem
    have hsecret : secret (c :: (a ++ c :: b)) = (c :: a ++ [c], b) := by
      rw [secret, if_pos (by simp [hq]), (takeWhile_ne ha).1, (takeWhile_ne ha).2]
      rfl
    rw [hsecret]
    simp only [isQuote, Bool.or_eq_true, decide_eq_true_eq] at hq
    rcases hq with rfl | rfl
    · -- a double quote is tried first, then a single one
      rw [head?_quoted ha]
      rfl
    · rw [run_quoted_of_ne (by decide), head?_quoted ha]
      rfl
  · have hsecret : secret (c :: more) =
        ((c :: more).takeWhile notSpace, (c :: more).dropWhile notSpace) := by
      rw [secret, if_neg (by simpa using hquote)]
    -- otherwise neither quotation matches, whatever the character is
    have hnone : ∀ q, isQuote q = true → (quoted q).run word prev (c :: more) = [] := by
      intro q hq
      by_cases heq : c = q
      · subst heq
        exact run_quoted_of_not_mem fun hmem => hquote ⟨hq, hmem⟩
      · exact run_quoted_of_ne heq
    rw [hnone '"' (by decide), hnone '\x27' (by decide), hsecret, hplain]
    rfl

theorem run_credential_of_ends (h : Ends notSpace s) : credential.run word prev s = [] := by
  cases s with
  | nil => simp [credential, quoted, Pattern.run, Pattern.plus]
  | cons c more =>
    have hc : notSpace c = false := h c rfl
    have hne : c ≠ '"' ∧ c ≠ '\x27' := by
      constructor
      · intro heq
        subst heq
        exact absurd hc (by decide)
      · intro heq
        subst heq
        exact absurd hc (by decide)
    simp [credential, Pattern.run, run_quoted_of_ne hne.1, run_quoted_of_ne hne.2, Pattern.plus,
      hc]

/-! ## What follows the separator -/

/-- The last two groups. -/
def rest34 : Pattern := .seq (.opt (.group 3 scheme)) (.group 4 credential)

/-- They begin with no blank. -/
theorem run_rest34_of_ends (h : Ends notSpace s) : rest34.run word prev s = [] := by
  apply run_seq_of_none
  intro m hm
  rcases mem_run_opt.mp hm with hscheme | rfl
  · obtain ⟨w, ws, hw, -, -, htext, rfl, -⟩ := mem_scheme.mp hscheme
    -- a scheme begins with a letter
    cases w with
    | nil => cases hw
    | cons c w =>
      have hc := isSpace_of_nameChar (nameChar_of_isScheme hw c List.mem_cons_self)
      have hends := h c (by rw [htext]; rfl)
      rw [notSpace, hc] at hends
      cases hends
  · rw [Pattern.run, run_credential_of_ends h, List.map_nil]

/-- The one scheme that a credential can follow. -/
def schemeMatch (s : List Char) : Match :=
  let rest := s.dropWhile notSpace
  ⟨s.takeWhile notSpace ++ rest.takeWhile isSpace,
    [(3, s.takeWhile notSpace ++ rest.takeWhile isSpace)], rest.dropWhile isSpace⟩

theorem scheme_unique (hm : m ∈ (Pattern.group 3 scheme).run word prev s)
    (hends : ¬Ends notSpace m.rest) :
    m = schemeMatch s ∧ isScheme (s.takeWhile notSpace) = true ∧
      (s.dropWhile notSpace).dropWhile isSpace ≠ [] := by
  obtain ⟨text, groups, rest⟩ := m
  obtain ⟨w, ws, hscheme, hne, hws, htext, hs, hgroups⟩ := mem_scheme.mp hm
  dsimp only at htext hs hgroups hends
  subst htext hs hgroups
  -- a scheme has no blank in it, so it is the whole word
  have hw : ∀ c ∈ w, notSpace c = true := by
    intro c hc
    rw [notSpace, isSpace_of_nameChar (nameChar_of_isScheme hscheme c hc), Bool.not_false]
  have hblank : Ends notSpace (ws ++ rest) := by
    intro c hc
    cases ws with
    | nil => exact absurd rfl hne
    | cons d ws =>
      cases hc
      rw [notSpace, hws c List.mem_cons_self, Bool.not_true]
  -- all the blanks are taken, or the credential would begin with one and fail
  have hrest : Ends isSpace rest := by
    intro c hc
    cases hspace : isSpace c with
    | false => rfl
    | true =>
      refine absurd (fun d hd => ?_) hends
      rw [hc] at hd
      cases hd
      rw [notSpace, hspace, Bool.not_true]
  have htake : (w ++ ws ++ rest).takeWhile notSpace = w := by
    rw [List.append_assoc]
    exact takeWhile_of_ends hw hblank
  have hdrop : (w ++ ws ++ rest).dropWhile notSpace = ws ++ rest := by
    rw [List.append_assoc]
    exact dropWhile_of_ends hw hblank
  refine ⟨?_, ?_, ?_⟩
  · rw [schemeMatch, htake, hdrop, takeWhile_of_ends hws hrest, dropWhile_of_ends hws hrest]
  · rw [htake]
    exact hscheme
  · rw [hdrop, dropWhile_of_ends hws hrest]
    intro hnil
    exact hends (by rw [hnil]; intro c hc; cases hc)

/-- The groups of a match behind the first two. -/
def lastGroups (scheme value : List Char) : List (ℕ × List Char) :=
  if scheme = [] then [(4, value)] else [(3, scheme), (4, value)]

theorem head?_rest34 {c : Char} {more : List Char} (hc : isSpace c = false) :
    (rest34.run word prev (c :: more)).head? =
      some ⟨(afterScheme (c :: more)).1 ++ (secret (afterScheme (c :: more)).2).1,
        lastGroups (afterScheme (c :: more)).1 (secret (afterScheme (c :: more)).2).1,
        (secret (afterScheme (c :: more)).2).2⟩ := by
  have hgroup : ∀ {prev d more'}, isSpace d = false →
      ((Pattern.group 4 credential).run word prev (d :: more')).head? =
        some ⟨(secret (d :: more')).1, [(4, (secret (d :: more')).1)],
          (secret (d :: more')).2⟩ := by
    intro prev d more' hd
    rw [Pattern.run, List.head?_map, head?_credential hd]
    rfl
  rw [rest34, head?_opt_seq]
  -- a scheme is taken only if a credential is left behind it
  by_cases htaken : isScheme ((c :: more).takeWhile notSpace) = true ∧
      ((c :: more).dropWhile notSpace).dropWhile isSpace ≠ []
  · obtain ⟨hscheme, hne⟩ := htaken
    obtain ⟨d, more', hbody⟩ := List.exists_cons_of_ne_nil hne
    have hd : isSpace d = false := by
      have hends := ends_dropWhile isSpace ((c :: more).dropWhile notSpace)
      exact hends d (by rw [hbody]; rfl)
    have hmem : schemeMatch (c :: more) ∈ (Pattern.group 3 scheme).run word prev (c :: more) := by
      refine mem_scheme.mpr ⟨_, _, hscheme, fun hnil => ?_, all_of_mem_takeWhile, rfl, ?_, rfl⟩
      · -- behind the scheme comes a blank
        have hends := ends_dropWhile notSpace (c :: more)
        have hsplit := List.takeWhile_append_dropWhile (p := isSpace)
          (l := (c :: more).dropWhile notSpace)
        rw [hnil, hbody, List.nil_append] at hsplit
        have hnot := hends d (by rw [← hsplit]; rfl)
        rw [notSpace, hd] at hnot
        cases hnot
      · simp [schemeMatch]
    have hafter : afterScheme (c :: more) = ((schemeMatch (c :: more)).text, d :: more') := by
      simp [afterScheme, schemeMatch, hscheme, hbody]
    have hrest : (schemeMatch (c :: more)).rest = d :: more' := hbody
    have htext : (schemeMatch (c :: more)).text ≠ [] := by
      intro hnil
      simp only [schemeMatch, List.append_eq_nil_iff] at hnil
      rw [hnil.1] at hscheme
      cases hscheme
    rw [head?_seq_of_unique hmem, hafter, hrest, hgroup hd, lastGroups, if_neg htext]
    · rfl
    · -- of the matches of the scheme only this one lets the credential begin
      intro m hm
      by_cases hends : Ends notSpace m.rest
      · right
        rw [Pattern.run, run_credential_of_ends hends, List.map_nil]
      · exact .inl (scheme_unique hm hends).1
  · -- no scheme: the credential begins at once
    have hafter : afterScheme (c :: more) = ([], c :: more) := by
      rw [afterScheme, if_neg]
      simpa using htaken
    rw [run_seq_of_none, List.head?_nil, Option.none_or, hgroup hc, hafter]
    · rfl
    · -- and no match of the scheme could go on
      intro m hm
      by_cases hends : Ends notSpace m.rest
      · rw [Pattern.run, run_credential_of_ends hends, List.map_nil]
      · exact absurd (scheme_unique hm hends).2 htaken

/-! ## The name and the separator -/

theorem ne_nil_of_not_ends {p : Char → Bool} (h : ¬Ends p s) :
    ∃ c more, s = c :: more ∧ p c = true := by
  cases s with
  | nil => exact absurd (fun c hc => by cases hc) h
  | cons c more =>
    cases hc : p c with
    | true => exact ⟨c, more, rfl, hc⟩
    | false =>
      refine absurd (fun d hd => ?_) h
      cases hd
      exact hc

theorem ends_cons {p : Char → Bool} {c : Char} {more : List Char} (h : p c = false) :
    Ends p (c :: more) := by
  intro d hd
  cases hd
  exact h

theorem notSpace_iff {c : Char} : notSpace c = true ↔ isSpace c = false := by
  simp [notSpace]

/-- The separator of a text, if it has one. -/
def separatorMatch (s : List Char) (x : Char) (body : List Char) : Match :=
  ⟨s.takeWhile isSpace ++ x :: body.takeWhile isSpace,
    [(2, s.takeWhile isSpace ++ x :: body.takeWhile isSpace)], body.dropWhile isSpace⟩

theorem separator_unique (hm : m ∈ (Pattern.group 2 separator).run word prev s)
    (hends : ¬Ends notSpace m.rest) : ∃ x body, s.dropWhile isSpace = x :: body ∧
      (x = '=' ∨ x = ':') ∧ m = separatorMatch s x body := by
  obtain ⟨text, groups, rest⟩ := m
  obtain ⟨ws, x, ws', hws, hx, hws', htext, hs, hgroups⟩ := mem_separator.mp hm
  dsimp only at htext hs hgroups hends
  subst htext hs hgroups
  have hxspace : isSpace x = false := by
    rcases hx with rfl | rfl <;> decide
  obtain ⟨c, more, rfl, hc⟩ := ne_nil_of_not_ends hends
  have hrest : Ends isSpace (c :: more) := ends_cons (notSpace_iff.mp hc)
  have hbehind : Ends isSpace (x :: (ws' ++ c :: more)) := ends_cons hxspace
  have hassoc : ws ++ x :: ws' ++ c :: more = ws ++ x :: (ws' ++ c :: more) := by simp
  refine ⟨x, ws' ++ c :: more, ?_, hx, ?_⟩
  · rw [hassoc]
    exact dropWhile_of_ends hws hbehind
  · rw [separatorMatch, hassoc, takeWhile_of_ends hws hbehind, takeWhile_of_ends hws' hrest,
      dropWhile_of_ends hws' hrest]

theorem mem_separatorMatch {x : Char} {body : List Char} (h : s.dropWhile isSpace = x :: body)
    (hx : x = '=' ∨ x = ':') :
    separatorMatch s x body ∈ (Pattern.group 2 separator).run word prev s := by
  refine mem_separator.mpr ⟨_, x, _, all_of_mem_takeWhile, hx, all_of_mem_takeWhile, rfl, ?_, rfl⟩
  simp only [separatorMatch, List.append_assoc, List.cons_append, List.takeWhile_append_dropWhile]
  rw [← h, List.takeWhile_append_dropWhile]

/-- The last three groups. -/
def rest234 : Pattern := .seq (.group 2 separator) rest34

theorem head?_rest234 {x c : Char} {body more : List Char} (h : s.dropWhile isSpace = x :: body)
    (hx : x = '=' ∨ x = ':') (hbody : body.dropWhile isSpace = c :: more) :
    (rest234.run word prev s).head? =
      some ((separatorMatch s x body).append
        ⟨(afterScheme (c :: more)).1 ++ (secret (afterScheme (c :: more)).2).1,
          lastGroups (afterScheme (c :: more)).1 (secret (afterScheme (c :: more)).2).1,
          (secret (afterScheme (c :: more)).2).2⟩) := by
  have hc : isSpace c = false := by
    have hends := ends_dropWhile isSpace body
    exact hends c (by rw [hbody]; rfl)
  have hrest : (separatorMatch s x body).rest = c :: more := hbody
  rw [rest234, head?_seq_of_unique (mem_separatorMatch h hx), hrest, head?_rest34 hc]
  · rfl
  · -- a separator that leaves a blank lets no credential begin, so it takes them all
    intro m hm
    by_cases hends : Ends notSpace m.rest
    · exact .inr (run_rest34_of_ends hends)
    · obtain ⟨y, body', hs, -, rfl⟩ := separator_unique hm hends
      rw [h] at hs
      cases hs
      exact .inl rfl

/-- Without a separator and something behind it there is no match. -/
theorem run_rest234_of_none
    (h : ∀ x body, s.dropWhile isSpace = x :: body → x = '=' ∨ x = ':' →
      body.dropWhile isSpace = []) : rest234.run word prev s = [] := by
  apply run_seq_of_none
  intro m hm
  by_cases hends : Ends notSpace m.rest
  · exact run_rest34_of_ends hends
  · obtain ⟨x, body, hs, hx, rfl⟩ := separator_unique hm hends
    have hnil : (separatorMatch s x body).rest = [] := h x body hs hx
    rw [hnil] at hends
    exact absurd (fun c hc => by cases hc) hends

/-- A separator does not begin within a name. -/
theorem run_rest234_of_name (h : ¬Ends nameChar s) : rest234.run word prev s = [] := by
  obtain ⟨c, more, rfl, hc⟩ := ne_nil_of_not_ends h
  apply run_rest234_of_none
  intro x body hs hx
  have hspace := isSpace_of_nameChar hc
  rw [List.dropWhile_cons, if_neg (by simp [hspace]), List.cons.injEq] at hs
  obtain ⟨rfl, -⟩ := hs
  rcases hx with rfl | rfl <;> exact absurd hc (by decide)

/-- The name of a text. -/
def nameMatch (s : List Char) : Match :=
  ⟨s.takeWhile nameChar, [(1, s.takeWhile nameChar)], s.dropWhile nameChar⟩

theorem name_unique (hm : m ∈ (Pattern.group 1 (.seq (.many nameChar) keyWord)).run word prev s)
    (hends : Ends nameChar m.rest) :
    m = nameMatch s ∧ endsInKeyWord (s.takeWhile nameChar) = true := by
  obtain ⟨text, groups, rest⟩ := m
  obtain ⟨hs, hname, hkey, hgroups⟩ := mem_name.mp hm
  dsimp only at hs hname hkey hgroups hends
  subst hs hgroups
  rw [nameMatch, takeWhile_of_ends hname hends, dropWhile_of_ends hname hends]
  exact ⟨rfl, hkey⟩

theorem mem_nameMatch (h : endsInKeyWord (s.takeWhile nameChar) = true) :
    nameMatch s ∈ (Pattern.group 1 (.seq (.many nameChar) keyWord)).run word prev s :=
  mem_name.mpr ⟨List.takeWhile_append_dropWhile, all_of_mem_takeWhile, h, rfl⟩

/-! ## The match -/

/-- A match whose name and separator are `head`, in front of `body`. -/
structure Reads (m : Match) (head body : List Char) : Prop where
  kept_eq : kept m = head ++ (afterScheme body).1
  secret_eq : m.group 4 = (secret (afterScheme body).2).1
  text_eq : m.text = kept m ++ m.group 4
  rest_eq : m.rest = (secret (afterScheme body).2).2

theorem run_inlineSecret : inlineSecret.run word prev s =
    if isBoundary word prev s.head? then
      (Pattern.seq (.group 1 (.seq (.many nameChar) keyWord)) rest234).run word prev s
    else [] :=
  run_boundary_seq

theorem opening_eq_some {head body : List Char} (h : opening word prev s = some (head, body)) :
    ∃ x rest, (s.dropWhile nameChar).dropWhile isSpace = x :: rest ∧
      isBoundary word prev s.head? = true ∧ endsInKeyWord (s.takeWhile nameChar) = true ∧
      (x = '=' ∨ x = ':') ∧ body = rest.dropWhile isSpace ∧
      head = s.takeWhile nameChar ++ (separatorMatch (s.dropWhile nameChar) x rest).text := by
  rw [opening] at h
  split at h
  · cases h
  · rename_i x rest hrest
    split at h
    · rename_i hwhen
      simp only [Bool.and_eq_true, Bool.or_eq_true, decide_eq_true_eq] at hwhen
      cases h
      exact ⟨x, rest, hrest, hwhen.1.1, hwhen.1.2, hwhen.2, rfl, rfl⟩
    · cases h

/-- Where a text opens with a name and a separator and goes on, it matches. -/
theorem head?_of_opening {head body : List Char} (h : opening word prev s = some (head, body))
    (hbody : body ≠ []) :
    ∃ m, (inlineSecret.run word prev s).head? = some m ∧ Reads m head body := by
  obtain ⟨x, rest, hrest, hboundary, hkey, hx, rfl, rfl⟩ := opening_eq_some h
  obtain ⟨c, more, hmore⟩ := List.exists_cons_of_ne_nil hbody
  -- of the matches of the name only the longest one lets the separator begin
  have hunique : ∀ m ∈ (Pattern.group 1 (.seq (.many nameChar) keyWord)).run word prev s,
      m = nameMatch s ∨ rest234.run word (m.last prev) m.rest = [] := by
    intro m hm
    by_cases hends : Ends nameChar m.rest
    · exact .inl (name_unique hm hends).1
    · exact .inr (run_rest234_of_name hends)
  have hname : (nameMatch s).rest = s.dropWhile nameChar := rfl
  rw [run_inlineSecret, if_pos hboundary, head?_seq_of_unique (mem_nameMatch hkey) hunique, hname,
    head?_rest234 hrest hx hmore]
  refine ⟨_, rfl, ?_⟩
  rw [hmore]
  -- with a scheme or without one, the groups are the parts that were found
  by_cases hscheme : (afterScheme (c :: more)).1 = []
  · constructor <;>
      simp [kept, Match.group, Match.append, nameMatch, separatorMatch, lastGroups, hscheme,
        List.lookup_cons]
  · constructor <;>
      simp [kept, Match.group, Match.append, nameMatch, separatorMatch, lastGroups, hscheme,
        List.lookup_cons]

/-- Elsewhere it does not. -/
theorem head?_of_none
    (h : ∀ head body, opening word prev s = some (head, body) → body = []) :
    (inlineSecret.run word prev s).head? = none := by
  rw [run_inlineSecret]
  split
  · rename_i hboundary
    rw [run_seq_of_none, List.head?_nil]
    intro m hm
    -- the name goes on, or it is the whole name and there is nothing behind it
    by_cases hends : Ends nameChar m.rest
    · obtain ⟨rfl, hkey⟩ := name_unique hm hends
      apply run_rest234_of_none
      intro x body hs hx
      have hs : (s.dropWhile nameChar).dropWhile isSpace = x :: body := hs
      apply h (s.takeWhile nameChar ++ (separatorMatch (s.dropWhile nameChar) x body).text)
      rw [opening]
      simp only [hs, hboundary, hkey, Bool.true_and]
      rw [if_pos (by simpa using hx)]
      rfl
    · exact run_rest234_of_name hends
  · rfl

/-- No match is empty. -/
theorem text_ne_of_mem (hm : m ∈ inlineSecret.run word prev s) : m.text ≠ [] := by
  rw [run_inlineSecret] at hm
  split at hm
  · obtain ⟨m₁, h₁, m₂, -, rfl⟩ := mem_run_seq.mp hm
    obtain ⟨-, -, hkey, -⟩ := mem_name.mp h₁
    intro hnil
    rw [(List.append_eq_nil_iff.mp hnil).1] at hkey
    revert hkey
    decide
  · cases hm

end

end Evenkeel.Logging
