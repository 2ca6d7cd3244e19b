import Mathlib.Data.List.Basic
import Mathlib.Data.List.TakeWhile
import Mathlib.Order.Basic

/-!
# Patterns That Backtrack

Regular expressions as a backtracking matcher reads them: a pattern has a list of ways to match
at a position, in the order in which they are tried, and a search takes the first that goes
through.

- `Pattern`, `Pattern.run`: the ways to match, with what each group captured
- `Pattern.find`, `Pattern.scan`: the search for one match, and for all that do not overlap

## Key Results

- `mem_run_*`: what matches, construct by construct
- `head?_flatMap_of_unique`: a choice that only one way survives is no choice
- `scan_of_some`, `scan_of_none`: how a text is scanned with a pattern that matches no empty text
-/

namespace Evenkeel.Patterns

/-! ## Patterns -/

inductive Pattern where
  | empty
  /-- One character of a class. -/
  | set (p : Char → Bool)
  /-- As many characters of a class as possible, or fewer. -/
  | many (p : Char → Bool)
  | seq (a b : Pattern)
  | alt (a b : Pattern)
  /-- Preferably `a`, or nothing. -/
  | opt (a : Pattern)
  | group (n : ℕ) (a : Pattern)
  /-- A word begins or ends here. -/
  | boundary

namespace Pattern

/-- One character or more. -/
def plus (p : Char → Bool) : Pattern := .seq (.set p) (.many p)

/-- A text, where `same` says which characters stand for which. -/
def literal (same : Char → Char → Bool) : List Char → Pattern
  | [] => .empty
  | c :: rest => .seq (.set (same c)) (literal same rest)

end Pattern

/-- One way to match: the text, what the groups captured of it, and what is left. -/
structure Match where
  text : List Char
  groups : List (ℕ × List Char)
  rest : List Char

namespace Match

/-- What group `n` captured; nothing if it took no part. -/
def group (m : Match) (n : ℕ) : List Char := (m.groups.lookup n).getD []

/-- One match behind another. -/
def append (m m' : Match) : Match := ⟨m.text ++ m'.text, m.groups ++ m'.groups, m'.rest⟩

/-- The character in front of what is left. -/
def last (m : Match) (prev : Option Char) : Option Char := m.text.getLast?.or prev

end Match

/-- The ways to split off characters of a class, the longest first. -/
def spans (p : Char → Bool) : List Char → List Match
  | [] => [⟨[], [], []⟩]
  | c :: rest =>
    if p c then (spans p rest).map (fun m => ⟨c :: m.text, [], m.rest⟩) ++ [⟨[], [], c :: rest⟩]
    else [⟨[], [], c :: rest⟩]

section

variable (word : Char → Bool)

/-- A boundary stands between a character of a word and one that is none. -/
def isBoundary (prev next : Option Char) : Bool := prev.any word != next.any word

/-- The ways to match, in the order in which they are tried. -/
def Pattern.run : Pattern → Option Char → List Char → List Match
  | .empty, _, s => [⟨[], [], s⟩]
  | .set _, _, [] => []
  | .set p, _, c :: rest => if p c then [⟨[c], [], rest⟩] else []
  | .many p, _, s => spans p s
  | .seq a b, prev, s => (a.run prev s).flatMap fun m => (b.run (m.last prev) m.rest).map m.append
  | .alt a b, prev, s => a.run prev s ++ b.run prev s
  | .opt a, prev, s => a.run prev s ++ [⟨[], [], s⟩]
  | .group n a, prev, s => (a.run prev s).map fun m => ⟨m.text, (n, m.text) :: m.groups, m.rest⟩
  | .boundary, prev, s => if isBoundary word prev s.head? then [⟨[], [], s⟩] else []

/-- The first way that goes through; where a search must advance, none that is empty. -/
def Pattern.find (pattern : Pattern) (mustAdvance : Bool) (prev : Option Char) (s : List Char) :
    Option Match :=
  ((pattern.run word prev s).filter fun m => !mustAdvance || !m.text.isEmpty).head?

end

/-! ## What matches -/

section

variable {word : Char → Bool} {p : Char → Bool} {a b : Pattern} {prev : Option Char}
  {s : List Char} {m : Match}

attribute [local simp] Pattern.run

theorem mem_spans : m ∈ spans p s ↔
    m.text ++ m.rest = s ∧ (∀ c ∈ m.text, p c = true) ∧ m.groups = [] := by
  obtain ⟨text, groups, rest⟩ := m
  induction s generalizing text groups rest with
  | nil =>
    simp only [spans, List.mem_singleton, Match.mk.injEq, List.append_eq_nil_iff]
    constructor
    · intro h
      obtain ⟨rfl, rfl, rfl⟩ := h
      simp
    · intro h
      obtain ⟨⟨rfl, rfl⟩, -, rfl⟩ := h
      simp
  | cons c s ih =>
    rw [spans]
    constructor
    · intro h
      split at h
      · -- the longer matches come first, and the empty one last
        rename_i hc
        rcases List.mem_append.mp h with hmore | hnone
        · obtain ⟨m', hm', heq⟩ := List.mem_map.mp hmore
          cases heq
          obtain ⟨rfl, hall, -⟩ := (ih m'.text m'.groups m'.rest).mp hm'
          exact ⟨rfl, List.forall_mem_cons.mpr ⟨hc, hall⟩, rfl⟩
        · cases List.mem_singleton.mp hnone
          simp
      · cases List.mem_singleton.mp h
        simp
    · intro h
      obtain ⟨heq, hall, rfl⟩ := h
      -- the empty match is there whatever the character is
      cases text with
      | nil =>
        cases heq
        split <;> simp
      | cons d text =>
        rw [List.cons_append, List.cons.injEq] at heq
        obtain ⟨rfl, rfl⟩ := heq
        obtain ⟨hd, hall⟩ := List.forall_mem_cons.mp hall
        rw [if_pos hd]
        apply List.mem_append_left
        exact List.mem_map.mpr ⟨⟨text, [], rest⟩, (ih _ _ _).mpr ⟨rfl, hall, rfl⟩, rfl⟩

/-- The longest way is tried first. -/
theorem head?_spans (p : Char → Bool) (s : List Char) :
    (spans p s).head? = some ⟨s.takeWhile p, [], s.dropWhile p⟩ := by
  induction s with
  | nil => rfl
  | cons c s ih =>
    cases hc : p c with
    | true => simp [spans, hc, ih]
    | false => simp [spans, hc]

theorem mem_run_set : m ∈ (Pattern.set p).run word prev s ↔
    ∃ c, p c = true ∧ s = c :: m.rest ∧ m.text = [c] ∧ m.groups = [] := by
  obtain ⟨text, groups, rest⟩ := m
  cases s with
  | nil => simp [Pattern.run]
  | cons c s =>
    simp only [Pattern.run]
    split
    · rename_i hc
      simp only [List.mem_singleton, Match.mk.injEq, List.cons.injEq]
      constructor
      · intro h
        obtain ⟨rfl, rfl, rfl⟩ := h
        exact ⟨c, hc, ⟨rfl, rfl⟩, rfl, rfl⟩
      · intro h
        obtain ⟨d, -, ⟨rfl, rfl⟩, rfl, rfl⟩ := h
        exact ⟨rfl, rfl, rfl⟩
    · rename_i hc
      constructor
      · intro h
        cases h
      · intro h
        obtain ⟨d, hd, hs, -⟩ := h
        cases hs
        exact absurd hd hc

theorem mem_run_seq : m ∈ (a.seq b).run word prev s ↔
    ∃ m₁ ∈ a.run word prev s, ∃ m₂ ∈ b.run word (m₁.last prev) m₁.rest, m₁.append m₂ = m := by
  simp [Pattern.run]

theorem mem_run_alt : m ∈ (a.alt b).run word prev s ↔
    m ∈ a.run word prev s ∨ m ∈ b.run word prev s := by
  simp [Pattern.run]

theorem mem_run_opt : m ∈ a.opt.run word prev s ↔ m ∈ a.run word prev s ∨ m = ⟨[], [], s⟩ := by
  simp [Pattern.run]

theorem mem_run_group {n : ℕ} : m ∈ (a.group n).run word prev s ↔
    ∃ m' ∈ a.run word prev s, ⟨m'.text, (n, m'.text) :: m'.groups, m'.rest⟩ = m := by
  simp [Pattern.run]

theorem mem_run_plus : m ∈ (Pattern.plus p).run word prev s ↔
    m.text ++ m.rest = s ∧ m.text ≠ [] ∧ (∀ c ∈ m.text, p c = true) ∧ m.groups = [] := by
  rw [Pattern.plus, mem_run_seq]
  constructor
  · intro h
    obtain ⟨m₁, h₁, m₂, h₂, rfl⟩ := h
    obtain ⟨c, hc, rfl, htext, hgroups⟩ := mem_run_set.mp h₁
    obtain ⟨happend, hall, hgroups'⟩ := mem_spans.mp h₂
    refine ⟨?_, ?_, ?_, ?_⟩
    · rw [Match.append, htext, List.singleton_append, List.cons_append, happend]
    · simp [Match.append, htext]
    · rw [Match.append, htext]
      exact List.forall_mem_cons.mpr ⟨hc, hall⟩
    · rw [Match.append, hgroups, hgroups', List.append_nil]
  · intro h
    obtain ⟨text, groups, rest⟩ := m
    obtain ⟨rfl, hne, hall, rfl⟩ := h
    cases text with
    | nil => exact absurd rfl hne
    | cons c text =>
      obtain ⟨hc, hall⟩ := List.forall_mem_cons.mp hall
      exact ⟨⟨[c], [], text ++ rest⟩, mem_run_set.mpr ⟨c, hc, rfl, rfl, rfl⟩, ⟨text, [], rest⟩,
        mem_spans.mpr ⟨rfl, hall, rfl⟩, rfl⟩

theorem mem_run_literal {same : Char → Char → Bool} {w : List Char} :
    m ∈ (Pattern.literal same w).run word prev s ↔
      m.text ++ m.rest = s ∧ List.Forall₂ (fun c d => same c d = true) w m.text ∧
        m.groups = [] := by
  -- a literal is a sequence of one-character sets
  induction w generalizing prev s m with
  | nil =>
    obtain ⟨text, groups, rest⟩ := m
    simp only [Pattern.literal, Pattern.run, List.mem_singleton, Match.mk.injEq]
    constructor
    · intro h
      obtain ⟨rfl, rfl, rfl⟩ := h
      exact ⟨rfl, .nil, rfl⟩
    · intro h
      obtain ⟨rfl, hspells, rfl⟩ := h
      cases hspells
      exact ⟨rfl, rfl, rfl⟩
  | cons c w ih =>
    rw [Pattern.literal, mem_run_seq]
    constructor
    · intro h
      obtain ⟨m₁, h₁, m₂, h₂, rfl⟩ := h
      obtain ⟨d, hd, rfl, htext, hgroups⟩ := mem_run_set.mp h₁
      obtain ⟨happend, hspells, hgroups'⟩ := ih.mp h₂
      refine ⟨?_, ?_, ?_⟩
      · rw [Match.append, htext, List.singleton_append, List.cons_append, happend]
      · rw [Match.append, htext]
        exact .cons hd hspells
      · rw [Match.append, hgroups, hgroups', List.append_nil]
    · intro h
      obtain ⟨text, groups, rest⟩ := m
      obtain ⟨rfl, hspells, rfl⟩ := h
      cases hspells with
      | @cons _ d _ text hd hspells =>
        exact ⟨⟨[d], [], text ++ rest⟩, mem_run_set.mpr ⟨d, hd, rfl, rfl, rfl⟩,
          ⟨text, [], rest⟩, ih.mpr ⟨rfl, hspells, rfl⟩, rfl⟩

/-- What matches is what comes next. -/
theorem append_of_mem_run {pattern : Pattern} (h : m ∈ pattern.run word prev s) :
    m.text ++ m.rest = s := by
  -- no part of a pattern drops or adds a character: one case for each part
  induction pattern generalizing prev s m with
  | empty =>
    rw [List.mem_singleton.mp h]
    rfl
  | set p =>
    obtain ⟨c, -, rfl, htext, -⟩ := mem_run_set.mp h
    rw [htext]
    rfl
  | many p => exact (mem_spans.mp h).1
  | seq a b iha ihb =>
    obtain ⟨m₁, h₁, m₂, h₂, rfl⟩ := mem_run_seq.mp h
    rw [Match.append, List.append_assoc, ihb h₂, iha h₁]
  | alt a b iha ihb => exact (mem_run_alt.mp h).elim iha ihb
  | opt a iha =>
    rcases mem_run_opt.mp h with hmem | rfl
    · exact iha hmem
    · rfl
  | group n a iha =>
    obtain ⟨m', hm', rfl⟩ := mem_run_group.mp h
    have happend := iha hm'
    exact happend
  | boundary =>
    rw [Pattern.run] at h
    split at h
    · rw [List.mem_singleton.mp h]
      rfl
    · cases h

end

/-! ## Runs of a class -/

/-- No character of the class comes next. -/
def Ends (p : Char → Bool) (s : List Char) : Prop := ∀ c ∈ s.head?, p c = false

section

variable {p : Char → Bool} {a b s : List Char}

theorem ends_dropWhile (p : Char → Bool) (s : List Char) : Ends p (s.dropWhile p) := by
  intro c hc
  have hnot := List.head?_dropWhile_not p s
  rw [hc] at hnot
  simpa using hnot

theorem takeWhile_of_ends (ha : ∀ c ∈ a, p c = true) (hb : Ends p b) :
    (a ++ b).takeWhile p = a := by
  rw [List.takeWhile_append_of_pos ha]
  cases b with
  | nil => simp
  | cons c b => simp [hb c rfl]

theorem dropWhile_of_ends (ha : ∀ c ∈ a, p c = true) (hb : Ends p b) :
    (a ++ b).dropWhile p = b := by
  rw [List.dropWhile_append_of_pos ha]
  cases b with
  | nil => rfl
  | cons c b => simp [hb c rfl]

/-- What follows does not matter to a run that ends before it. -/
theorem takeWhile_append_of_mem {c : Char} (hc : c ∈ a) (hp : p c = false) (b : List Char) :
    (a ++ b).takeWhile p = a.takeWhile p ∧ (a ++ b).dropWhile p = a.dropWhile p ++ b := by
  have hne : a.dropWhile p ≠ [] := by
    intro hnil
    have hall := List.dropWhile_eq_nil_iff.mp hnil c hc
    rw [hp] at hall
    cases hall
  have hlength : (a.takeWhile p).length ≠ a.length := by
    intro heq
    have hsplit := congrArg List.length (List.takeWhile_append_dropWhile (p := p) (l := a))
    rw [List.length_append, heq, Nat.add_eq_left, List.length_eq_zero_iff] at hsplit
    exact hne hsplit
  constructor
  · rw [List.takeWhile_append, if_neg hlength]
  · rw [List.dropWhile_append, if_neg (by simpa using hne)]

/-- Nor does it where the class does not go on. -/
theorem takeWhile_append_of_ends (a : List Char) (hb : Ends p b) :
    (a ++ b).takeWhile p = a.takeWhile p ∧ (a ++ b).dropWhile p = a.dropWhile p ++ b := by
  by_cases hall : ∀ c ∈ a, p c = true
  · rw [takeWhile_of_ends hall hb, dropWhile_of_ends hall hb,
      List.takeWhile_eq_self_iff.mpr hall, List.dropWhile_eq_nil_iff.mpr hall]
    exact ⟨rfl, rfl⟩
  · simp only [not_forall] at hall
    obtain ⟨c, hc, hp⟩ := hall
    exact takeWhile_append_of_mem hc (by simpa using hp) b

theorem all_of_mem_takeWhile : ∀ c ∈ s.takeWhile p, p c = true := fun _ => List.mem_takeWhile_imp

end

/-! ## Which way is taken -/

/-- If all that follows on any other way fails, only one way counts. -/
theorem head?_flatMap_of_unique {α β : Type} {l : List α} {f : α → List β} {x : α} (hx : x ∈ l)
    (hunique : ∀ y ∈ l, y = x ∨ f y = []) : (l.flatMap f).head? = (f x).head? := by
  induction l with
  | nil => cases hx
  | cons y l ih =>
    have hrest : ∀ z ∈ l, z = x ∨ f z = [] := fun z hz => hunique z (List.mem_cons_of_mem _ hz)
    rw [List.flatMap_cons, List.head?_append]
    -- only `x` has results, so `y` is `x`
    cases hhead : (f y).head? with
    | some z =>
      rcases hunique y List.mem_cons_self with rfl | hempty
      · exact hhead.symm
      · rw [hempty] at hhead
        cases hhead
    | none =>
      -- `y` has none, so it is skipped; it may have been `x` itself
      rw [Option.none_or]
      by_cases hmem : x ∈ l
      · exact ih hmem hrest
      · obtain rfl := (List.mem_cons.mp hx).resolve_right hmem
        rw [hhead, List.head?_eq_none_iff, List.flatMap_eq_nil_iff]
        intro z hz
        rcases hrest z hz with rfl | hempty
        · exact absurd hz hmem
        · exact hempty

/-- If there is only one way, it is taken. -/
theorem head?_of_unique {α : Type} {l : List α} {x : α} (hx : x ∈ l) (h : ∀ y ∈ l, y = x) :
    l.head? = some x := by
  cases l with
  | nil => cases hx
  | cons y l => rw [List.head?_cons, h y List.mem_cons_self]

section

variable {word : Char → Bool} {a b : Pattern} {prev : Option Char} {s : List Char}

/-- Of one character or more, as many as there are. -/
theorem head?_plus {p : Char → Bool} {c : Char} (hc : p c = true) :
    ((Pattern.plus p).run word prev (c :: s)).head? =
      some ⟨(c :: s).takeWhile p, [], (c :: s).dropWhile p⟩ := by
  simp [Pattern.plus, Pattern.run, hc, head?_spans, Match.append]

theorem head?_seq_of_unique {m : Match} (hm : m ∈ a.run word prev s)
    (hunique : ∀ m' ∈ a.run word prev s, m' = m ∨ b.run word (m'.last prev) m'.rest = []) :
    ((a.seq b).run word prev s).head? = (b.run word (m.last prev) m.rest).head?.map m.append := by
  rw [Pattern.run, head?_flatMap_of_unique hm, List.head?_map]
  intro m' hm'
  rcases hunique m' hm' with rfl | hempty
  · exact .inl rfl
  · exact .inr (by rw [hempty, List.map_nil])

theorem run_seq_of_none
    (hnone : ∀ m ∈ a.run word prev s, b.run word (m.last prev) m.rest = []) :
    (a.seq b).run word prev s = [] := by
  rw [Pattern.run, List.flatMap_eq_nil_iff]
  intro m hm
  rw [hnone m hm, List.map_nil]

theorem map_append_empty (s : List Char) (l : List Match) :
    l.map (Match.append ⟨[], [], s⟩) = l :=
  List.map_id' l

theorem run_boundary_seq : (Pattern.boundary.seq b).run word prev s =
    if isBoundary word prev s.head? then b.run word prev s else [] := by
  cases h : isBoundary word prev s.head? <;>
    simp [Pattern.run, h, map_append_empty, Match.last]

/-- An option is taken if the rest goes through behind it. -/
theorem head?_opt_seq : ((a.opt.seq b).run word prev s).head? =
    (((a.seq b).run word prev s).head?).or ((b.run word prev s).head?) := by
  simp only [Pattern.run, List.flatMap_append, List.head?_append, List.flatMap_singleton,
    Match.last, List.getLast?_nil, Option.none_or, map_append_empty]

end

/-! ## Scanning -/

/-- What a scan makes of a text. -/
inductive Piece where
  | copied (c : Char)
  | found (m : Match)

section

variable {word : Char → Bool} {pattern : Pattern} {mustAdvance : Bool} {prev : Option Char}
  {s : List Char} {m : Match}

theorem append_of_find (h : pattern.find word mustAdvance prev s = some m) :
    m.text ++ m.rest = s :=
  append_of_mem_run (List.mem_of_mem_filter (List.mem_of_mem_head? h))

theorem text_ne_of_find (h : pattern.find word true prev s = some m) : m.text ≠ [] := by
  have hkept := (List.mem_filter.mp (List.mem_of_mem_head? h)).2
  simpa using hkept

end

/-- The pieces of a text, from left to right. Behind an empty match the search must advance. -/
def Pattern.scan (word : Char → Bool) (pattern : Pattern) (mustAdvance : Bool)
    (prev : Option Char) (s : List Char) : List Piece :=
  match _h : pattern.find word mustAdvance prev s with
  | some m =>
    if _htext : m.text = [] then .found m :: pattern.scan word true prev s
    else .found m :: pattern.scan word false (m.last prev) m.rest
  | none =>
    match s with
    | [] => []
    | c :: rest => .copied c :: pattern.scan word false (some c) rest
termination_by (s.length, if mustAdvance then 0 else 1)
decreasing_by
  · cases mustAdvance with
    | true => exact absurd _htext (text_ne_of_find _h)
    | false => exact Prod.Lex.right _ (by simp)
  · apply Prod.Lex.left
    have hlength := congrArg List.length (append_of_find _h)
    have hpos := List.length_pos_iff.mpr _htext
    rw [List.length_append] at hlength
    omega
  · exact Prod.Lex.left _ _ (by simp)

theorem find_eq (word : Char → Bool) (pattern : Pattern) (prev : Option Char)
    (s : List Char) : pattern.find word false prev s = (pattern.run word prev s).head? := by
  simp [Pattern.find]

section

variable {word : Char → Bool} {pattern : Pattern} {prev : Option Char}
  (hnonempty : ∀ prev s, ∀ m ∈ pattern.run word prev s, m.text ≠ [])

include hnonempty

theorem scan_nil : pattern.scan word false prev [] = [] := by
  rw [Pattern.scan]
  split
  · rename_i m hm
    rw [find_eq] at hm
    have hmem := List.mem_of_mem_head? hm
    exact absurd (List.append_eq_nil_iff.mp (append_of_mem_run hmem)).1 (hnonempty _ _ m hmem)
  · rfl

/-- A match is found where its first way goes through. -/
theorem scan_of_some {s : List Char} {m : Match} (h : (pattern.run word prev s).head? = some m) :
    pattern.scan word false prev s = .found m :: pattern.scan word false (m.last prev) m.rest := by
  have htext := hnonempty prev s m (List.mem_of_mem_head? h)
  rw [Pattern.scan]
  split
  · rename_i m' hm
    rw [find_eq, h] at hm
    cases hm
    rw [dif_neg htext]
  · rename_i hm
    rw [find_eq, h] at hm
    cases hm

omit hnonempty in
/-- Elsewhere a character is copied. -/
theorem scan_of_none {c : Char} {rest : List Char}
    (h : (pattern.run word prev (c :: rest)).head? = none) :
    pattern.scan word false prev (c :: rest) =
      .copied c :: pattern.scan word false (some c) rest := by
  rw [Pattern.scan]
  split
  · rename_i m hm
    rw [find_eq, h] at hm
    cases hm
  · rfl

end

end Evenkeel.Patterns
