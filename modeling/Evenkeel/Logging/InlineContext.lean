import Evenkeel.Logging.InlineMatches

/-!
# A Secret in Its Surroundings

Which text in front of a key decides what becomes of its value, and how.

- `Standing`, `standing`: how the text before a key leaves the scan
- `Recognised`, `SchemeFollowed`: what decides where it leaves the key alone

## Key Results

- `pieces_of_opening`, `pieces_of_none`: one step of the scan
- `Mention.redacts_iff`: when the value of a key in a message is redacted
-/

namespace Evenkeel.Logging

open Evenkeel.Domain Evenkeel.Patterns

/-! ## One step of the scan -/

section

variable {unicode : Unicode} {prev : Option Char} {s : List Char}

theorem pieces_nil : pieces unicode prev [] = [] :=
  scan_nil fun _ _ _ => text_ne_of_mem

theorem pieces_of_opening {head body : List Char}
    (h : opening unicode.word prev s = some (head, body)) (hbody : body ≠ []) :
    ∃ m, pieces unicode prev s = .found m :: pieces unicode (m.last prev) m.rest ∧
      Reads m head body := by
  obtain ⟨m, hm, hreads⟩ := head?_of_opening h hbody
  exact ⟨m, scan_of_some (fun _ _ _ => text_ne_of_mem) hm, hreads⟩

theorem pieces_of_none {c : Char} {rest : List Char}
    (h : ∀ head body, opening unicode.word prev (c :: rest) = some (head, body) → body = []) :
    pieces unicode prev (c :: rest) = .copied c :: pieces unicode (some c) rest :=
  scan_of_none (head?_of_none h)

theorem opening_append {word : Char → Bool} {head body : List Char}
    (h : opening word prev s = some (head, body)) : head ++ body = s ∧ head ≠ [] := by
  obtain ⟨x, rest, hrest, -, -, -, rfl, rfl⟩ := opening_eq_some h
  constructor
  · simp only [separatorMatch, List.append_assoc, List.cons_append,
      List.takeWhile_append_dropWhile]
    rw [← hrest, List.takeWhile_append_dropWhile, List.takeWhile_append_dropWhile]
  · simp [separatorMatch]

theorem secret_append (s : List Char) : (secret s).1 ++ (secret s).2 = s := by
  cases s with
  | nil => rfl
  | cons c more =>
    rw [secret]
    split
    · rename_i hquote
      simp only [Bool.and_eq_true, decide_eq_true_eq] at hquote
      obtain ⟨a, b, rfl, ha⟩ := List.eq_append_cons_of_mem hquote.2
      rw [(takeWhile_ne ha).1, (takeWhile_ne ha).2]
      simp
    · exact List.takeWhile_append_dropWhile

end

/-! ## What is redacted -/

section

variable {value before : List Char} {rest : List Piece}

/-- A piece that ends before the value leaves it to the others. -/
theorem redacts_copied {c : Char} :
    Redacts (.copied c :: rest) (c :: before) value ↔ Redacts rest before value := by
  constructor
  · intro h
    obtain ⟨left, m, right, h₁, h₂, hpieces, hbefore, hvalue⟩ := h
    cases left with
    | nil => cases hpieces
    | cons piece left =>
      rw [List.cons_append, List.cons.injEq] at hpieces
      obtain ⟨rfl, rfl⟩ := hpieces
      rw [List.flatMap_cons, pieceText, List.singleton_append, List.cons_append, List.cons_append,
        List.cons.injEq] at hbefore
      exact ⟨left, m, right, h₁, h₂, rfl, hbefore.2, hvalue⟩
  · intro h
    obtain ⟨left, m, right, h₁, h₂, rfl, rfl, hvalue⟩ := h
    exact ⟨.copied c :: left, m, right, h₁, h₂, rfl, rfl, hvalue⟩

theorem redacts_found {m : Match} (htext : m.text = kept m ++ m.group 4) (hvalue : value ≠ []) :
    Redacts (.found m :: rest) (m.text ++ before) value ↔ Redacts rest before value := by
  constructor
  · intro h
    obtain ⟨left, m', right, h₁, h₂, hpieces, hbefore, hgroup⟩ := h
    cases left with
    | nil =>
      rw [List.nil_append, List.cons.injEq] at hpieces
      obtain ⟨hm, -⟩ := hpieces
      cases hm
      have hlength := congrArg List.length hbefore
      rw [htext, hgroup] at hlength
      simp only [List.flatMap_nil, List.nil_append, List.length_append] at hlength
      exact absurd (List.length_eq_zero_iff.mp (by omega)) hvalue
    | cons piece left =>
      rw [List.cons_append, List.cons.injEq] at hpieces
      obtain ⟨rfl, rfl⟩ := hpieces
      rw [List.flatMap_cons, pieceText, List.append_assoc, List.append_assoc,
        List.append_cancel_left_eq, ← List.append_assoc] at hbefore
      exact ⟨left, m', right, h₁, h₂, rfl, hbefore, hgroup⟩
  · intro h
    obtain ⟨left, m', right, h₁, h₂, rfl, rfl, hgroup⟩ := h
    exact ⟨.found m :: left, m', right, h₁, h₂, rfl, by simp [pieceText], hgroup⟩

/-- What a match keeps is not redacted. -/
theorem not_redacts_kept {m : Match} (htext : m.text = kept m ++ m.group 4)
    (hlength : before.length < (kept m).length) :
    ¬Redacts (.found m :: rest) before value := by
  intro h
  obtain ⟨left, m', right, h₁, h₂, hpieces, hbefore, -⟩ := h
  have hbefore := congrArg List.length hbefore
  cases left with
  | nil =>
    rw [List.nil_append, List.cons.injEq] at hpieces
    obtain ⟨hm, -⟩ := hpieces
    cases hm
    simp only [List.flatMap_nil, List.nil_append, List.length_append] at hbefore
    omega
  | cons piece left =>
    rw [List.cons_append, List.cons.injEq] at hpieces
    obtain ⟨rfl, -⟩ := hpieces
    simp only [List.flatMap_cons, pieceText, htext, List.length_append] at hbefore
    omega

/-- Nor is the beginning of a text. -/
theorem not_redacts_here {unicode : Unicode} {prev : Option Char} (s : List Char) :
    ¬Redacts (pieces unicode prev s) [] value := by
  cases s with
  | nil =>
    rw [pieces_nil]
    intro h
    obtain ⟨left, m, right, h₁, h₂, hpieces, -, -⟩ := h
    cases left <;> cases hpieces
  | cons c rest =>
    by_cases hnone : ∀ head body,
        opening unicode.word prev (c :: rest) = some (head, body) → body = []
    · rw [pieces_of_none hnone]
      intro h
      obtain ⟨left, m, right, h₁, h₂, hpieces, hbefore, -⟩ := h
      cases left with
      | nil => cases hpieces
      | cons piece left =>
        rw [List.cons_append, List.cons.injEq] at hpieces
        obtain ⟨rfl, -⟩ := hpieces
        cases hbefore
    · simp only [not_forall] at hnone
      obtain ⟨head, body, hopening, hbody⟩ := hnone
      obtain ⟨m, hpieces, hreads⟩ := pieces_of_opening hopening hbody
      rw [hpieces]
      apply not_redacts_kept hreads.text_eq
      have hhead := List.length_pos_iff.mpr (opening_append hopening).2
      rw [hreads.kept_eq, List.length_append, List.length_nil]
      omega

end

/-! ## The text in front -/

/-- How a text leaves the scan for the key behind it. -/
inductive Standing where
  /-- The key is looked at on its own. -/
  | settled
  /-- An earlier key is still waiting for its value. -/
  | due
  /-- The value of an earlier key is a quotation that has not been closed yet. -/
  | quoted

/-- A scheme and the blanks behind it, whatever follows. -/
def openScheme (body : List Char) : List Char × List Char :=
  let rest := body.dropWhile notSpace
  if isScheme (body.takeWhile notSpace) then
    (body.takeWhile notSpace ++ rest.takeWhile isSpace, rest.dropWhile isSpace)
  else ([], body)

theorem openScheme_append (body : List Char) :
    (openScheme body).1 ++ (openScheme body).2 = body := by
  rw [openScheme]
  split <;> simp

/-- A text is read from left to right, the earlier keys with their values, and the other
    characters one by one; `closes` says which quotations are closed behind the key. -/
def standing (word closes : Char → Bool) (prev : Option Char) (s : List Char) : Standing :=
  match s with
  | [] => .settled
  | c :: rest =>
    match _h : opening word prev (c :: rest) with
    | none => standing word closes (some c) rest
    | some (head, body) =>
      match _hbody : (openScheme body).2 with
      | [] => .due
      | q :: more =>
        if isQuote q && q ∉ more && closes q then .quoted
        else
          standing word closes
            ((head ++ (openScheme body).1 ++ (secret (q :: more)).1).getLast?.or prev)
            (secret (q :: more)).2
termination_by s.length
decreasing_by
  · simp
  · obtain ⟨hsplit, hhead⟩ := opening_append _h
    have hlength := congrArg List.length hsplit
    have hscheme := congrArg List.length (openScheme_append body)
    have hsecret := congrArg List.length (secret_append (q :: more))
    have hpos := List.length_pos_iff.mpr hhead
    rw [List.length_append] at hlength hscheme hsecret
    rw [_hbody] at hscheme
    omega

/-! ## The key -/

/-- Some end of the key begins at a boundary, consists of what a name has, and ends in a
    word that `_INLINE_SECRET` knows. -/
def Recognised (word : Char → Bool) (prev : Option Char) (key : List Char) : Prop :=
  ∃ a b, key = a ++ b ∧ isBoundary word (a.getLast?.or prev) b.head? = true ∧
    (∀ c ∈ b, nameChar c = true) ∧ endsInKeyWord b = true

/-- The value is taken for a scheme, with the credential behind it. -/
def SchemeFollowed (value after : List Char) : Prop :=
  isScheme value = true ∧ after.dropWhile isSpace ≠ []

/-- What stands in front of a text that is not empty does not matter behind it. -/
theorem getLast?_cons_or {α : Type} (c d : α) (a : List α) (prev : Option α) :
    (c :: d :: a).getLast?.or prev = (d :: a).getLast?.or (some c) := by
  rw [List.getLast?_cons_cons, List.getLast?_cons]
  rfl

theorem recognised_cons {word : Char → Bool} {prev : Option Char} {c : Char}
    {key : List Char} : Recognised word prev (c :: key) ↔
      (isBoundary word prev (some c) = true ∧ (∀ d ∈ c :: key, nameChar d = true) ∧
        endsInKeyWord (c :: key) = true) ∨ Recognised word (some c) key := by
  constructor
  · intro h
    obtain ⟨a, b, hkey, hboundary, hname, hends⟩ := h
    cases a with
    | nil =>
      obtain rfl : c :: key = b := hkey
      exact .inl ⟨hboundary, hname, hends⟩
    | cons d a =>
      rw [List.cons_append, List.cons.injEq] at hkey
      obtain ⟨rfl, rfl⟩ := hkey
      refine .inr ⟨a, b, rfl, ?_, hname, hends⟩
      cases a with
      | nil => exact hboundary
      | cons e a => rwa [getLast?_cons_or] at hboundary
  · intro h
    rcases h with ⟨hboundary, hname, hends⟩ | ⟨a, b, rfl, hboundary, hname, hends⟩
    · exact ⟨[], c :: key, rfl, hboundary, hname, hends⟩
    · refine ⟨c :: a, b, rfl, ?_, hname, hends⟩
      cases a with
      | nil => exact hboundary
      | cons e a => rwa [getLast?_cons_or]

theorem not_recognised_nil {word : Char → Bool} {prev : Option Char} :
    ¬Recognised word prev [] := by
  intro h
  obtain ⟨a, b, hkey, -, -, hends⟩ := h
  obtain ⟨-, rfl⟩ := List.append_eq_nil_iff.mp hkey.symm
  revert hends
  decide

/-- In front of the key only this matters: whether a word goes on. -/
theorem recognised_congr {word : Char → Bool} {prev prev' : Option Char} {key : List Char}
    (h : prev.any word = prev'.any word) :
    Recognised word prev key ↔ Recognised word prev' key := by
  cases key with
  | nil => simp [not_recognised_nil]
  | cons c key =>
    rw [recognised_cons, recognised_cons, isBoundary, isBoundary, h]

/-! ## A key with its value in a message -/

/-- A message in which a key has a value, with blanks around both. -/
structure Mention (unicode : Unicode) where
  before : List Char
  key : List Char
  separator : List Char
  value : List Char
  after : List Char
  key_chars : ∀ c ∈ key, c.isAlphanum = true ∨ c = '_' ∨ c = '-'
  separator_eq : separator = ['='] ∨ separator = [':', ' ']
  value_ne : value ≠ []
  value_chars : ∀ c ∈ value, unicode.isalnum c = true
  before_blank : ∀ c ∈ before.getLast?, isSpace c = true
  after_blank : ∀ c ∈ after.head?, isSpace c = true

namespace Mention

variable {unicode : Unicode} (mention : Mention unicode)

/-- The value and what follows it. -/
def ending : List Char := mention.value ++ mention.after

/-- The key and what follows it. -/
def tail : List Char := mention.key ++ (mention.separator ++ mention.ending)

theorem alphanum_bounds {c : Char} (h : c.isAlphanum = true) :
    (48 ≤ c.toNat ∧ c.toNat ≤ 57) ∨ (65 ≤ c.toNat ∧ c.toNat ≤ 90) ∨
      (97 ≤ c.toNat ∧ c.toNat ≤ 122) := by
  have hbounds : 'A'.val.toNat = 65 ∧ 'Z'.val.toNat = 90 ∧ 'a'.val.toNat = 97 ∧
    'z'.val.toNat = 122 ∧ '0'.val.toNat = 48 ∧ '9'.val.toNat = 57 := by decide
  have hnat : c.toNat = c.val.toNat := rfl
  simp only [Char.isAlphanum, isAlpha_eq, isUpper_eq, isLower_eq, Char.isDigit,
    Bool.or_eq_true, Bool.and_eq_true, decide_eq_true_eq, ge_iff_le,
    UInt32.le_iff_toNat_le] at h
  omega

/-- A character of a key is no blank, no quote and no separator. -/
theorem plain_of_key {c : Char} (h : c.isAlphanum = true ∨ c = '_' ∨ c = '-') :
    isSpace c = false ∧ isQuote c = false ∧ c ≠ '=' ∧ c ≠ ':' := by
  rcases h with halnum | rfl | rfl
  · have hbounds := alphanum_bounds halnum
    refine ⟨?_, ?_, ?_, ?_⟩
    · simp only [isSpace, decide_eq_false_iff_not, List.mem_cons, List.not_mem_nil, or_false]
      omega
    · simp only [isQuote, Bool.or_eq_false_iff, decide_eq_false_iff_not]
      constructor
      · intro heq
        rw [heq] at halnum
        revert halnum
        decide
      · intro heq
        rw [heq] at halnum
        revert halnum
        decide
    · intro heq
      rw [heq] at halnum
      revert halnum
      decide
    · intro heq
      rw [heq] at halnum
      revert halnum
      decide
  · decide
  · decide

theorem plain_of_value {c : Char} (h : unicode.isalnum c = true) :
    isSpace c = false ∧ isQuote c = false := by
  constructor
  · cases hspace : isSpace c with
    | false => rfl
    | true =>
      rw [unicode.isalnum_space c hspace] at h
      cases h
  · cases hquote : isQuote c with
    | false => rfl
    | true =>
      simp only [isQuote, Bool.or_eq_true, decide_eq_true_eq] at hquote
      rcases hquote with rfl | rfl
      · rw [unicode.isalnum_ascii _ (by decide)] at h
        revert h
        decide
      · rw [unicode.isalnum_ascii _ (by decide)] at h
        revert h
        decide

theorem ending_cons : ∃ c rest, mention.ending = c :: rest ∧ isSpace c = false := by
  obtain ⟨c, rest, hvalue⟩ := List.exists_cons_of_ne_nil mention.value_ne
  refine ⟨c, rest ++ mention.after, by rw [ending, hvalue]; rfl, ?_⟩
  exact (plain_of_value (mention.value_chars c (by rw [hvalue]; simp))).1

theorem value_notSpace : ∀ c ∈ mention.value, notSpace c = true := by
  intro c hc
  rw [notSpace, (plain_of_value (mention.value_chars c hc)).1, Bool.not_false]

theorem after_ends : Ends notSpace mention.after := by
  intro c hc
  rw [notSpace, mention.after_blank c hc, Bool.not_true]

theorem afterScheme_ending : afterScheme mention.ending =
    if isScheme mention.value && !(mention.after.dropWhile isSpace).isEmpty then
      (mention.value ++ mention.after.takeWhile isSpace, mention.after.dropWhile isSpace)
    else ([], mention.ending) := by
  rw [afterScheme, ending, takeWhile_of_ends mention.value_notSpace mention.after_ends,
    dropWhile_of_ends mention.value_notSpace mention.after_ends]

theorem secret_ending : secret mention.ending = (mention.value, mention.after) := by
  obtain ⟨c, rest, hvalue⟩ := List.exists_cons_of_ne_nil mention.value_ne
  have hquote := (plain_of_value (mention.value_chars c (by rw [hvalue]; simp))).2
  have hending : mention.ending = c :: (rest ++ mention.after) := by
    rw [ending, hvalue]
    rfl
  rw [hending, secret, hquote]
  simp only [Bool.false_and, Bool.false_eq_true, if_false]
  rw [← hending, ending, takeWhile_of_ends mention.value_notSpace mention.after_ends,
    dropWhile_of_ends mention.value_notSpace mention.after_ends]

/-! ### A key that is looked at on its own -/

theorem opening_of_not_name {word : Char → Bool} {prev : Option Char} {c : Char}
    {rest : List Char} (hc : nameChar c = false) : opening word prev (c :: rest) = none := by
  have hname : (c :: rest).takeWhile nameChar = [] := by simp [hc]
  have hempty : endsInKeyWord [] = false := by decide
  rw [opening, hname, hempty]
  simp only [Bool.and_false, Bool.false_and, Bool.false_eq_true, if_false]
  split <;> rfl

theorem ending_ends : Ends isSpace mention.ending := by
  obtain ⟨c, rest, hending, hc⟩ := mention.ending_cons
  rw [hending]
  exact ends_cons hc

/-- What stands from some point of the key on opens with it, or with nothing. -/
theorem opening_key {word : Char → Bool} {prev : Option Char} {c : Char} {t : List Char}
    (ht : ∀ d ∈ c :: t, d.isAlphanum = true ∨ d = '_' ∨ d = '-') :
    opening word prev (c :: t ++ (mention.separator ++ mention.ending)) =
      if isBoundary word prev (some c) = true ∧ (c :: t).all nameChar = true ∧
        endsInKeyWord (c :: t) = true
      then some (c :: t ++ mention.separator, mention.ending) else none := by
  by_cases hall : ∀ d ∈ c :: t, nameChar d = true
  · have hends : Ends nameChar (mention.separator ++ mention.ending) := by
      rcases mention.separator_eq with hsep | hsep <;> rw [hsep] <;> exact ends_cons (by decide)
    have htake := takeWhile_of_ends hall hends
    have hdrop := dropWhile_of_ends hall hends
    have hblank := takeWhile_append_of_ends [] mention.ending_ends
    have hrest : mention.ending.takeWhile isSpace = [] ∧
        mention.ending.dropWhile isSpace = mention.ending := by simpa using hblank
    have hspace : isSpace '=' = false ∧ isSpace ':' = false ∧ isSpace ' ' = true := by decide
    rw [opening, htake, hdrop]
    simp only [List.all_eq_true.mpr hall, true_and]
    rcases mention.separator_eq with hsep | hsep
    · simp [hsep, hrest, hspace]
    · simp [hsep, hrest, hspace]
  · rw [if_neg fun h => hall (List.all_eq_true.mp h.2.1)]
    simp only [not_forall] at hall
    obtain ⟨d, hd, hname⟩ := hall
    have hdrop := (takeWhile_append_of_mem hd (by simpa using hname)
      (mention.separator ++ mention.ending)).2
    have hne : (c :: t).dropWhile nameChar ≠ [] := by
      intro hnil
      exact hname (List.dropWhile_eq_nil_iff.mp hnil d hd)
    obtain ⟨e, more, hmore⟩ := List.exists_cons_of_ne_nil hne
    -- a digit is no separator
    have he := ht e ((List.dropWhile_sublist _).subset (by rw [hmore]; simp))
    obtain ⟨hspace, -, hequals, hcolon⟩ := plain_of_key he
    rw [opening, hdrop, hmore]
    simp [hspace, hequals, hcolon]

/-- From some point of the key on, the value is redacted if the key is recognised there and
    the value is not taken for a scheme. -/
theorem redacts_key {prev : Option Char} {t : List Char}
    (ht : ∀ d ∈ t, d.isAlphanum = true ∨ d = '_' ∨ d = '-') :
    Redacts (pieces unicode prev (t ++ (mention.separator ++ mention.ending)))
        (t ++ mention.separator) mention.value ↔
      Recognised unicode.word prev t ∧ ¬SchemeFollowed mention.value mention.after := by
  induction t generalizing prev with
  | nil =>
    -- the key has been used up: a separator opens nothing, so it is copied, and the value stands
    -- at the front of what is scanned next
    have hnot : ¬Redacts (pieces unicode prev (mention.separator ++ mention.ending))
        mention.separator mention.value := by
      have hcopied : ∀ prev c rest, nameChar c = false →
          pieces unicode prev (c :: rest) = .copied c :: pieces unicode (some c) rest := by
        intro prev c rest hc
        apply pieces_of_none
        rw [opening_of_not_name hc]
        intro head body h
        cases h
      rcases mention.separator_eq with hsep | hsep
      · rw [hsep, List.singleton_append, hcopied _ _ _ (by decide), redacts_copied]
        exact not_redacts_here _
      · rw [hsep, List.cons_append, List.singleton_append, hcopied _ _ _ (by decide),
          redacts_copied, hcopied _ _ _ (by decide), redacts_copied]
        exact not_redacts_here _
    simp [not_recognised_nil, hnot]
  | cons c t ih =>
    have htail : ∀ d ∈ t, d.isAlphanum = true ∨ d = '_' ∨ d = '-' := fun d hd =>
      ht d (List.mem_cons_of_mem _ hd)
    have hopening := @opening_key _ mention unicode.word prev _ _ ht
    rw [recognised_cons]
    split at hopening
    · -- the key is recognised from here on: the match takes the separator along
      rename_i hhere
      rw [List.all_eq_true] at hhere
      obtain ⟨d, more, hending, -⟩ := mention.ending_cons
      obtain ⟨m, hpieces, hreads⟩ := pieces_of_opening hopening (by rw [hending]; simp)
      rw [hpieces, and_congr_left fun _ => iff_true_intro (Or.inl hhere), true_and]
      have hscheme := mention.afterScheme_ending
      by_cases hfollowed : SchemeFollowed mention.value mention.after
      · -- the value is kept as a scheme
        rw [if_pos (by simpa [SchemeFollowed] using hfollowed)] at hscheme
        have hlength := List.length_pos_iff.mpr mention.value_ne
        have hkept : ¬Redacts (.found m :: pieces unicode (m.last prev) m.rest)
            (c :: t ++ mention.separator) mention.value := by
          apply not_redacts_kept hreads.text_eq
          rw [hreads.kept_eq, hscheme]
          simp only [List.length_append]
          omega
        exact iff_of_false hkept (not_not.mpr hfollowed)
      · -- the fourth group is the value, and it alone is replaced
        rw [if_neg (by simpa [SchemeFollowed] using hfollowed)] at hscheme
        have hgroup := hreads.secret_eq
        have hkept := hreads.kept_eq
        rw [hscheme] at hgroup hkept
        rw [mention.secret_ending] at hgroup
        refine iff_of_true ⟨[], m, _, [], [], rfl, ?_, ?_⟩ hfollowed
        · simpa using hkept
        · simpa using hgroup
    · -- not from here: the character is copied, and the rest of the key is tried
      rename_i hnot
      rw [List.all_eq_true] at hnot
      have hcopied : pieces unicode prev (c :: t ++ (mention.separator ++ mention.ending)) =
          .copied c :: pieces unicode (some c) (t ++ (mention.separator ++ mention.ending)) := by
        apply pieces_of_none
        intro head body h
        have hsome := hopening.symm.trans h
        cases hsome
      rw [hcopied, List.cons_append, redacts_copied, ih htail, or_iff_right hnot]

/-! ### A key behind other text -/

/-- A text that ends in a blank. -/
def BlankEnd (s : List Char) : Prop := ∃ c ∈ s.getLast?, isSpace c = true

theorem BlankEnd.mem {s : List Char} (h : BlankEnd s) : ∃ c ∈ s, isSpace c = true := by
  obtain ⟨c, hc, hspace⟩ := h
  exact ⟨c, List.mem_of_getLast? hc, hspace⟩

theorem BlankEnd.of_append {a s : List Char} (h : BlankEnd (a ++ s)) (hs : s ≠ []) :
    BlankEnd s := by
  rwa [BlankEnd, List.getLast?_append_of_ne_nil _ hs] at h

theorem key_notSpace : ∀ c ∈ mention.key, notSpace c = true := by
  intro c hc
  rw [notSpace, (plain_of_key (mention.key_chars c hc)).1, Bool.not_false]

/-- Up to the next blank, `=` takes the value along. -/
theorem firstWord_equals (hsep : mention.separator = ['=']) :
    mention.tail.takeWhile notSpace = mention.key ++ '=' :: mention.value ∧
      mention.tail.dropWhile notSpace = mention.after := by
  have htail : mention.tail = (mention.key ++ '=' :: mention.value) ++ mention.after := by
    rw [tail, ending, hsep]
    simp
  have hall : ∀ c ∈ mention.key ++ '=' :: mention.value, notSpace c = true := by
    intro c hc
    rcases List.mem_append.mp hc with hc | hc
    · exact mention.key_notSpace c hc
    · rcases List.mem_cons.mp hc with rfl | hc
      · decide
      · exact mention.value_notSpace c hc
  rw [htail]
  exact ⟨takeWhile_of_ends hall mention.after_ends, dropWhile_of_ends hall mention.after_ends⟩

/-- A colon leaves it behind. -/
theorem firstWord_colon (hsep : mention.separator = [':', ' ']) :
    mention.tail.takeWhile notSpace = mention.key ++ [':'] ∧
      mention.tail.dropWhile notSpace = ' ' :: mention.ending := by
  have htail : mention.tail = (mention.key ++ [':']) ++ ' ' :: mention.ending := by
    rw [tail, hsep]
    simp
  have hall : ∀ c ∈ mention.key ++ [':'], notSpace c = true := by
    intro c hc
    rcases List.mem_append.mp hc with hc | hc
    · exact mention.key_notSpace c hc
    · rw [List.mem_singleton.mp hc]
      decide
  have hends : Ends notSpace (' ' :: mention.ending) := ends_cons (by decide)
  rw [htail]
  exact ⟨takeWhile_of_ends hall hends, dropWhile_of_ends hall hends⟩

/-- The key, the separator and the value hold no quote. -/
theorem not_mem_of_quote {q : Char} (hq : isQuote q = true) :
    q ∉ mention.key ∧ q ∉ mention.separator ∧ q ∉ mention.value := by
  refine ⟨fun h => ?_, fun h => ?_, fun h => ?_⟩
  · rw [(plain_of_key (mention.key_chars q h)).2.1] at hq
    cases hq
  · have hquotes : isQuote '=' = false ∧ isQuote ':' = false ∧ isQuote ' ' = false := by decide
    rcases mention.separator_eq with hsep | hsep
    · rw [hsep, List.mem_singleton] at h
      rw [h, hquotes.1] at hq
      cases hq
    · rw [hsep] at h
      simp only [List.mem_cons, List.not_mem_nil, or_false] at h
      rcases h with rfl | rfl
      · rw [hquotes.2.1] at hq
        cases hq
      · rw [hquotes.2.2] at hq
        cases hq
  · rw [(plain_of_value (mention.value_chars q h)).2] at hq
    cases hq

theorem mem_tail_of_quote {q : Char} (hq : isQuote q = true) :
    q ∈ mention.tail ↔ q ∈ mention.after := by
  simp [tail, ending, mention.not_mem_of_quote hq]

section

variable (hkey : mention.key ≠ [])

include hkey

theorem tail_cons : ∃ c rest, mention.tail = c :: rest ∧
    (c.isAlphanum = true ∨ c = '_' ∨ c = '-') := by
  obtain ⟨c, rest, h⟩ := List.exists_cons_of_ne_nil hkey
  exact ⟨c, rest ++ (mention.separator ++ mention.ending), by rw [tail, h]; rfl,
    mention.key_chars c (by rw [h]; simp)⟩

theorem tail_ends : Ends isSpace mention.tail := by
  obtain ⟨c, rest, htail, hc⟩ := mention.tail_cons hkey
  rw [htail]
  exact ends_cons (plain_of_key hc).1

/-- An earlier key has its name and its separator in front of the key. -/
theorem opening_before {word : Char → Bool} {prev : Option Char} {s : List Char}
    (hs : BlankEnd s) : opening word prev (s ++ mention.tail) =
      (opening word prev s).map fun parts => (parts.1, parts.2 ++ mention.tail) := by
  -- the blank at the end stops every scan before the key is reached
  obtain ⟨c, hc, hspace⟩ := hs.mem
  have hname : nameChar c = false := by
    cases h : nameChar c with
    | false => rfl
    | true =>
      rw [isSpace_of_nameChar h] at hspace
      cases hspace
  obtain ⟨htake, hdrop⟩ := takeWhile_append_of_mem hc hname mention.tail
  obtain ⟨htake', hdrop'⟩ :=
    takeWhile_append_of_ends (s.dropWhile nameChar) (mention.tail_ends hkey)
  have hhead : (s ++ mention.tail).head? = s.head? := by
    cases s with
    | nil => cases hc
    | cons d s => rfl
  rw [opening, opening, htake, hdrop, htake', hdrop', hhead]
  -- whether a separator follows is decided before the key too
  cases hblank : (s.dropWhile nameChar).dropWhile isSpace with
  | nil =>
    obtain ⟨d, rest, htail, hd⟩ := mention.tail_cons hkey
    obtain ⟨-, -, hequals, hcolon⟩ := plain_of_key hd
    simp [htail, hequals, hcolon]
  | cons x body =>
    obtain ⟨htake'', hdrop''⟩ := takeWhile_append_of_ends body (mention.tail_ends hkey)
    simp only [List.cons_append, htake'', hdrop'']
    split <;> rfl

/-- So has its scheme. -/
theorem afterScheme_before {body : List Char} (hbody : body = [] ∨ BlankEnd body) :
    afterScheme (body ++ mention.tail) =
      ((openScheme body).1, (openScheme body).2 ++ mention.tail) := by
  rcases hbody with rfl | hblank
  · -- the key itself is no scheme
    have hscheme : isScheme (mention.tail.takeWhile notSpace) = false := by
      cases hscheme : isScheme (mention.tail.takeWhile notSpace) with
      | false => rfl
      | true =>
        have hall := nameChar_of_isScheme hscheme
        rcases mention.separator_eq with hsep | hsep
        · rw [(mention.firstWord_equals hsep).1] at hall
          exact absurd (hall '=' (by simp)) (by decide)
        · rw [(mention.firstWord_colon hsep).1] at hall
          exact absurd (hall ':' (by simp)) (by decide)
    rw [List.nil_append, afterScheme, hscheme]
    rfl
  · -- the word that may be a scheme ends inside, so what follows it is not empty either way
    obtain ⟨c, hc, hspace⟩ := hblank.mem
    have hnot : notSpace c = false := by rw [notSpace, hspace, Bool.not_true]
    obtain ⟨htake, hdrop⟩ := takeWhile_append_of_mem hc hnot mention.tail
    obtain ⟨htake', hdrop'⟩ :=
      takeWhile_append_of_ends (body.dropWhile notSpace) (mention.tail_ends hkey)
    obtain ⟨d, rest, htail, -⟩ := mention.tail_cons hkey
    have hne : (((body.dropWhile notSpace).dropWhile isSpace) ++ mention.tail).isEmpty = false := by
      rw [htail]
      simp
    rw [afterScheme, openScheme, htake, hdrop, htake', hdrop', hne]
    cases isScheme (body.takeWhile notSpace) <;> rfl

/-- A value that is due is no quotation. -/
theorem secret_tail : secret mention.tail =
    (mention.tail.takeWhile notSpace, mention.tail.dropWhile notSpace) := by
  obtain ⟨c, rest, htail, hc⟩ := mention.tail_cons hkey
  rw [htail, secret, (plain_of_key hc).2.1]
  rfl

omit hkey in
/-- A quotation that is closed behind the key takes the value along. -/
theorem secret_quoted {q : Char} {more : List Char} (hq : isQuote q = true) (hmore : q ∉ more)
    (hafter : q ∈ mention.after) : ∃ h₂ rest, secret (q :: more ++ mention.tail) =
      (q :: more ++ (mention.key ++ mention.separator) ++ mention.value ++ h₂, rest) := by
  obtain ⟨a, b, hsplit, ha⟩ := List.eq_append_cons_of_mem hafter
  obtain ⟨hkeys, hseparators, hvalues⟩ := mention.not_mem_of_quote hq
  have hmem : q ∈ more ++ mention.tail :=
    List.mem_append_right _ ((mention.mem_tail_of_quote hq).mpr hafter)
  have hfront : q ∉ more ++ (mention.key ++ mention.separator) ++ mention.value ++ a := by
    simp [hmore, hkeys, hseparators, hvalues, ha]
  have htext : more ++ mention.tail =
      (more ++ (mention.key ++ mention.separator) ++ mention.value ++ a) ++ q :: b := by
    rw [tail, ending, hsplit]
    simp
  refine ⟨a ++ [q], b, ?_⟩
  rw [List.cons_append, secret, if_pos (by simpa [hq] using hmem), htext, (takeWhile_ne hfront).1,
    (takeWhile_ne hfront).2]
  simp

omit hkey in
/-- Any other credential of an earlier key ends in front of the key. -/
theorem secret_before {q : Char} {more : List Char} (hblank : BlankEnd (q :: more))
    (hopen : ¬(isQuote q = true ∧ q ∉ more ∧ q ∈ mention.after)) :
    secret (q :: more ++ mention.tail) =
        ((secret (q :: more)).1, (secret (q :: more)).2 ++ mention.tail) ∧
      BlankEnd (secret (q :: more)).2 := by
  by_cases hclosed : isQuote q = true ∧ q ∈ more
  · -- the quotation is closed before the key
    obtain ⟨hq, hmem⟩ := hclosed
    obtain ⟨a, b, rfl, ha⟩ := List.eq_append_cons_of_mem hmem
    have hshort : secret (q :: (a ++ q :: b)) = (q :: a ++ [q], b) := by
      rw [secret, if_pos (by simp [hq]), (takeWhile_ne ha).1, (takeWhile_ne ha).2]
      rfl
    have hlong : secret (q :: (a ++ q :: b) ++ mention.tail) =
        (q :: a ++ [q], b ++ mention.tail) := by
      rw [List.cons_append, List.append_assoc, List.cons_append, secret, if_pos (by simp [hq]),
        (takeWhile_ne ha).1, (takeWhile_ne ha).2]
      rfl
    rw [hshort, hlong]
    refine ⟨rfl, ?_⟩
    have hsplit : q :: (a ++ q :: b) = (q :: a ++ [q]) ++ b := by simp
    rw [hsplit] at hblank
    apply hblank.of_append
    intro hnil
    -- the closing quote is no blank
    rw [hnil, List.append_nil] at hblank
    obtain ⟨c, hc, hspace⟩ := hblank
    rw [List.getLast?_concat] at hc
    cases hc
    simp only [isQuote, Bool.or_eq_true, decide_eq_true_eq] at hq
    rcases hq with rfl | rfl <;> exact absurd hspace (by decide)
  · -- no quotation: the secret runs to the next blank, and one comes before the key
    have hlong : ¬(isQuote q = true ∧ q ∈ more ++ mention.tail) := by
      intro h
      obtain ⟨hq, hmem⟩ := h
      rcases List.mem_append.mp hmem with hmem | hmem
      · exact hclosed ⟨hq, hmem⟩
      · exact hopen ⟨hq, fun hmore => hclosed ⟨hq, hmore⟩, (mention.mem_tail_of_quote hq).mp hmem⟩
    obtain ⟨c, hc, hspace⟩ := hblank.mem
    have hnot : notSpace c = false := by rw [notSpace, hspace, Bool.not_true]
    obtain ⟨htake, hdrop⟩ := takeWhile_append_of_mem hc hnot mention.tail
    have hshort : secret (q :: more) =
        ((q :: more).takeWhile notSpace, (q :: more).dropWhile notSpace) := by
      rw [secret, if_neg (by simpa using hclosed)]
    constructor
    · rw [hshort, ← htake, ← hdrop, List.cons_append, secret, if_neg (by simpa using hlong)]
    · rw [hshort]
      rw [← List.takeWhile_append_dropWhile (p := notSpace) (l := q :: more)] at hblank
      apply hblank.of_append
      intro hnil
      have hall := List.dropWhile_eq_nil_iff.mp hnil c hc
      rw [hnot] at hall
      cases hall

/-! ### The scan of the whole message -/

/-- The condition under which the value is redacted, for what stands in front of the key. -/
def Hides (standing : Standing) : Prop :=
  match standing with
  | .settled => Recognised unicode.word none mention.key ∧
      ¬SchemeFollowed mention.value mention.after
  | .due => mention.separator = ['=']
  | .quoted => True

/-- Which quotations are closed behind the key. -/
def closes (q : Char) : Bool := q ∈ mention.after

/-- A value that is due is redacted up to the next blank. -/
theorem redacts_due {m : Match} {s : List Char} (hkept : kept m = s)
    (hgroup : m.group 4 = (secret mention.tail).1) (htext : m.text = kept m ++ m.group 4)
    (hrest : m.rest = (secret mention.tail).2) (prev : Option Char) :
    Redacts (.found m :: pieces unicode prev m.rest)
      (s ++ (mention.key ++ mention.separator)) mention.value ↔ mention.separator = ['='] := by
  rw [mention.secret_tail hkey] at hgroup hrest
  rcases mention.separator_eq with hsep | hsep
  · -- the earlier key swallows the whole of `key=value`, the value included
    obtain ⟨hword, -⟩ := mention.firstWord_equals hsep
    refine iff_of_true ⟨[], m, _, mention.key ++ mention.separator, [], rfl, ?_, ?_⟩ hsep
    · rw [hkept]
      rfl
    · rw [hgroup, hword, hsep]
      simp
  · -- behind `key:` there is a blank: the earlier key takes the word `key:`, and the value is
    -- left
    obtain ⟨hword, hending⟩ := mention.firstWord_colon hsep
    have hbefore : s ++ (mention.key ++ mention.separator) = m.text ++ [' '] := by
      rw [htext, hkept, hgroup, hword, hsep]
      simp
    rw [hbefore, redacts_found htext mention.value_ne, hrest, hending, hsep]
    have hcopied : pieces unicode prev (' ' :: mention.ending) =
        .copied ' ' :: pieces unicode (some ' ') mention.ending := by
      apply pieces_of_none
      rw [opening_of_not_name (by decide)]
      intro head body h
      cases h
    rw [hcopied, redacts_copied]
    exact iff_of_false (not_redacts_here _) (by decide)

omit hkey in
theorem word_of_space {c : Char} (h : isSpace c = true) : unicode.word c = false := by
  have hline : c ≠ '_' := by
    intro heq
    rw [heq] at h
    revert h
    decide
  simp [Unicode.word, unicode.isalnum_space c h, hline]

theorem redacts_iff (s : List Char) (prev : Option Char)
    (hs : BlankEnd s ∨ s = [] ∧ prev.any unicode.word = false) :
    Redacts (pieces unicode prev (s ++ mention.tail))
        (s ++ (mention.key ++ mention.separator)) mention.value ↔
      mention.Hides (standing unicode.word mention.closes prev s) := by
  induction hn : s.length using Nat.strong_induction_on generalizing s prev with
  | _ n ih =>
    cases s with
    | nil =>
      -- nothing in front any more: the key decides for itself, and `prev` matters only as a word
      have hprev : prev.any unicode.word = (none : Option Char).any unicode.word := by
        rcases hs with hblank | ⟨-, hprev⟩
        · obtain ⟨c, hc, -⟩ := hblank
          cases hc
        · exact hprev
      rw [standing, List.nil_append, List.nil_append, tail,
        mention.redacts_key mention.key_chars, Hides, recognised_congr hprev]
    | cons c rest =>
      have hblank : BlankEnd (c :: rest) := by
        rcases hs with hblank | ⟨hnil, -⟩
        · exact hblank
        · cases hnil
      have hbefore := @opening_before _ mention hkey unicode.word prev _ hblank
      rw [standing]
      split
      · -- nothing begins here
        rename_i hnone
        have hcopied : pieces unicode prev (c :: rest ++ mention.tail) =
            .copied c :: pieces unicode (some c) (rest ++ mention.tail) := by
          apply pieces_of_none
          intro head body h
          rw [hnone] at hbefore
          have hsome := hbefore.symm.trans h
          cases hsome
        rw [hcopied, List.cons_append, redacts_copied]
        apply ih rest.length (by rw [← hn]; simp) _ _ _ rfl
        by_cases hnil : rest = []
        · subst hnil
          obtain ⟨d, hd, hspace⟩ := hblank
          cases hd
          exact .inr ⟨rfl, word_of_space hspace⟩
        · exact .inl (BlankEnd.of_append (a := [c]) hblank hnil)
      · -- an earlier key
        rename_i head body hsome
        rw [hsome] at hbefore
        obtain ⟨hsplit, hhead⟩ := opening_append hsome
        obtain ⟨d, more, htail, -⟩ := mention.tail_cons hkey
        obtain ⟨m, hpieces, hreads⟩ := pieces_of_opening hbefore (by simp [htail])
        have hbody : body = [] ∨ BlankEnd body := by
          by_cases hnil : body = []
          · exact .inl hnil
          · rw [← hsplit] at hblank
            exact .inr (hblank.of_append hnil)
        have hscheme := openScheme_append body
        have hkept := hreads.kept_eq
        have hgroup := hreads.secret_eq
        have hrest := hreads.rest_eq
        rw [mention.afterScheme_before hkey hbody] at hkept hgroup hrest
        rw [hpieces]
        split
        · -- the earlier key is still waiting: what it takes is this key, with or without the
          -- value
          rename_i hdue
          rw [hdue, List.nil_append] at hgroup hrest
          rw [hdue, List.append_nil] at hscheme
          exact mention.redacts_due hkey (by rw [hkept, hscheme, hsplit]) hgroup hreads.text_eq
            hrest _
        · rename_i q more' hcredential
          rw [hcredential] at hscheme hgroup hrest
          have hblank' : BlankEnd (q :: more') := by
            rcases hbody with rfl | hbody
            · exact absurd hscheme (by simp)
            · rw [← hscheme] at hbody
              exact hbody.of_append (List.cons_ne_nil _ _)
          have hwhole : c :: rest = kept m ++ q :: more' := by
            rw [hkept, List.append_assoc, hscheme, hsplit]
          split
          · -- an open quotation runs over the key to its closing quote, and the value is inside
            rename_i hquoted
            simp only [Bool.and_eq_true, decide_eq_true_eq, closes] at hquoted
            obtain ⟨⟨hquote, hopen⟩, hclosed⟩ := hquoted
            obtain ⟨h₂, rest', hsecret⟩ := mention.secret_quoted hquote hopen hclosed
            rw [hsecret] at hgroup
            refine iff_of_true
              ⟨[], m, _, q :: more' ++ (mention.key ++ mention.separator), h₂, rfl, ?_, hgroup⟩
              trivial
            rw [hwhole]
            simp
          · -- the earlier value is over before the key: the scan goes on behind it
            rename_i hquoted
            simp only [Bool.and_eq_true, decide_eq_true_eq, closes, not_and] at hquoted
            have hopen : ¬(isQuote q = true ∧ q ∉ more' ∧ q ∈ mention.after) := by
              intro h
              exact hquoted ⟨h.1, h.2.1⟩ h.2.2
            obtain ⟨hsecret, hleft⟩ := mention.secret_before hblank' hopen
            rw [hsecret] at hgroup hrest
            have htext : m.text = head ++ (openScheme body).1 ++ (secret (q :: more')).1 := by
              rw [hreads.text_eq, hkept, hgroup]
            have hfront : c :: rest ++ (mention.key ++ mention.separator) =
                m.text ++ ((secret (q :: more')).2 ++ (mention.key ++ mention.separator)) := by
              rw [hwhole, hreads.text_eq, hgroup]
              conv_lhs => rw [← secret_append (q :: more')]
              simp
            -- what is left is shorter, since a match has a head
            have hshort : (secret (q :: more')).2.length < n := by
              have hlength := congrArg List.length hwhole
              have hcredentials := congrArg List.length (secret_append (q :: more'))
              have hpos := List.length_pos_iff.mpr hhead
              rw [hkept] at hlength
              simp only [List.length_append] at hlength hcredentials
              rw [hn] at hlength
              omega
            rw [hfront, redacts_found hreads.text_eq mention.value_ne, hrest, Match.last, htext]
            exact ih _ hshort _ _ (.inl hleft) rfl

end

end Mention

/-- A character database of ASCII. -/
def Unicode.asciiOnly : Unicode where
  casefold := fun c => [c.toLower]
  isalnum := Char.isAlphanum
  casefold_ascii := fun _ _ => rfl
  isalnum_ascii := fun _ _ => rfl
  isalnum_space := by
    intro c hspace
    cases halnum : c.isAlphanum with
    | false => rfl
    | true =>
      rw [(Mention.plain_of_key (.inl halnum)).1] at hspace
      cases hspace

end Evenkeel.Logging
