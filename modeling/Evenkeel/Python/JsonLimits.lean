import Evenkeel.Python.Json

/-!
# Texts Beyond the Limits

`json.loads` raises what is not a `JSONDecodeError` on two kinds of text: an integer with too
many digits, or a bracket inside too many others, ahead of anything that is not JSON.

- `Limited`: the exception is of this kind
- `Scanner.Overruns`: the rest of a text is of these kinds

## Key Results

- `Scanner.limited_run`: the one is raised exactly on the other
- `Scanner.run_agrees`: otherwise the limits make no difference
-/

namespace Evenkeel.Python

/-- A limit of the interpreter was in the way. -/
def Limited {α : Type} : Except JsonError α → Prop
  | .error .value => True
  | .error .recursion => True
  | _ => False

@[simp] theorem limited_ok {α : Type} (a : α) : ¬Limited (.ok a) := id

@[simp] theorem limited_error {α : Type} (e : JsonError) :
    Limited (.error e : Except JsonError α) ↔ e = .value ∨ e = .recursion := by
  cases e <;> simp [Limited]

/-- The literal has an integer part and no fraction, so that an integer is read of it. -/
def Numeral.integral : Numeral → Bool
  | .zero => true
  | .int => true
  | .dot => true
  | .exponent fractional => !fractional
  | .sign fractional => !fractional
  | _ => false

theorem Numeral.limited_value {limits : Limits} {digits : ℕ} {numeral : Numeral}
    (literal : List Char) : Limited (numeral.value limits digits literal) ↔
      numeral.integral = true ∧ limits.digits < digits := by
  by_cases hlong : limits.digits < digits
  · unfold Numeral.value
    split
    all_goals simp [Numeral.integral, hlong]
  · unfold Numeral.value
    split
    all_goals simp [hlong]

namespace Scanner

variable (limits : Limits)

/-- The literal that is being read has too many digits, and `next` is not part of it. -/
def LongInteger (s : Scanner) (next : Option Char) : Prop :=
  match s.scan with
  | .number numeral digits _ =>
    numeral.integral = true ∧ limits.digits < digits ∧ ∀ c ∈ next, numeral.step c = none
  | _ => False

/-- A value begins here, and its bracket is inside too many others. -/
def TooDeep (s : Scanner) (c : Char) : Prop :=
  (s.scan = .value ∨ s.scan = .first) ∧ (c = '{' ∨ c = '[') ∧ limits.depth ≤ s.stack.length

/-- The rest of the text is JSON until a limit is in the way. -/
def Overruns (s : Scanner) : List Char → Prop
  | [] => s.LongInteger limits none
  | c :: rest => s.TooDeep limits c ∨ s.LongInteger limits (some c) ∨
      ∃ s', s.step limits c = .ok s' ∧ s'.Overruns rest

variable {limits}

theorem not_limited_after (stack : List Frame) (v : Json) (c : Char) :
    ¬Limited (after stack v c) := by
  unfold after
  split
  · simp
  · split
    · simp
    · split
      · simp
      · split <;> simp
    · split
      · simp
      · split <;> simp

theorem limited_begin {stack : List Frame} {c : Char} :
    Limited (begin limits stack c) ↔ (c = '{' ∨ c = '[') ∧ limits.depth ≤ stack.length := by
  unfold begin
  by_cases hbrace : c = '{'
  · subst hbrace
    by_cases hdeep : limits.depth ≤ stack.length
    · simp [hdeep]
    · simp [hdeep]
  · by_cases hbracket : c = '['
    · subst hbracket
      by_cases hdeep : limits.depth ≤ stack.length
      · simp [hdeep]
      · simp [hdeep]
    · simp only [hbrace, hbracket, if_false, or_self, false_and, iff_false]
      repeat' split
      all_goals simp

theorem limited_step {s : Scanner} {c : Char} :
    Limited (s.step limits c) ↔ s.TooDeep limits c ∨ s.LongInteger limits (some c) := by
  obtain ⟨scan, stack⟩ := s
  cases scan with
  | value =>
    -- only an opening bracket can be too deep here
    by_cases hspace : isSpace c = true
    · have hno : ¬(c = '{' ∨ c = '[') := by
        rintro (rfl | rfl)
        · exact absurd hspace (by decide)
        · exact absurd hspace (by decide)
      simp [step, hspace, TooDeep, LongInteger, hno]
    · simp [step, hspace, limited_begin, TooDeep, LongInteger]
  | first =>
    -- as for any value, but a closing bracket ends the array
    by_cases hspace : isSpace c = true
    · have hno : ¬(c = '{' ∨ c = '[') := by
        rintro (rfl | rfl)
        · exact absurd hspace (by decide)
        · exact absurd hspace (by decide)
      simp [step, hspace, TooDeep, LongInteger, hno]
    · by_cases hclose : c = ']'
      · subst hclose
        simp [step, isSpace, TooDeep, LongInteger]
      · simp [step, hspace, hclose, limited_begin, TooDeep, LongInteger]
  | number numeral digits chars =>
    -- a number that goes on is not converted yet
    simp only [step, TooDeep, LongInteger, reduceCtorEq, or_self, false_and, false_or,
      Option.mem_def, Option.some.injEq, forall_eq']
    cases hstep : numeral.step c with
    | some numeral' => simp
    | none =>
      -- it ends here, and `int` is given its digits
      by_cases hinfinity : numeral = .minus ∧ c = 'I'
      · simp [hinfinity, Numeral.integral]
      · simp only [hinfinity, if_false, and_true]
        cases hvalue : numeral.value limits digits chars.reverse with
        | error e =>
          rw [← Numeral.limited_value chars.reverse, hvalue]
          simp
        | ok v =>
          rw [← Numeral.limited_value chars.reverse, hvalue]
          simp [not_limited_after]
  | _ =>
    -- nothing else looks at a limit
    simp only [step, TooDeep, LongInteger, reduceCtorEq, or_self, false_and, iff_false]
    repeat' split
    all_goals simp [not_limited_after]

/-- The digits of an integer are counted. -/
theorem run_digits {stack : List Frame} {c : Char} (hc : isDigit c = true) (n digits : ℕ)
    (chars rest : List Char) :
    run limits ⟨.number .int digits chars, stack⟩ (List.replicate n c ++ rest) =
      run limits ⟨.number .int (digits + n) (List.replicate n c ++ chars), stack⟩ rest := by
  induction n generalizing digits chars with
  | zero => rfl
  | succ n ih =>
    have hstep : step limits ⟨.number .int digits chars, stack⟩ c =
        .ok ⟨.number .int (digits + 1) (c :: chars), stack⟩ := by
      simp [step, Numeral.step, Numeral.count, hc]
    have hchars : List.replicate n c ++ c :: chars = List.replicate (n + 1) c ++ chars := by
      rw [List.replicate_succ', List.append_assoc, List.singleton_append]
    have hcount : digits + 1 + n = digits + (n + 1) := by omega
    rw [← hchars, ← hcount, List.replicate_succ, List.cons_append, run, hstep]
    exact ih (digits + 1) (c :: chars)

/-- And then they are too many. -/
theorem run_long {stack : List Frame} {digits : ℕ} {chars rest : List Char} {c : Char}
    (hlong : limits.digits < digits) (hc : Numeral.step c .int = none) :
    run limits ⟨.number .int digits chars, stack⟩ (c :: rest) = .error .value := by
  simp [run, step, hc, Numeral.value, hlong]

theorem limited_finish {s : Scanner} : Limited (s.finish limits) ↔ s.LongInteger limits none := by
  obtain ⟨scan, stack⟩ := s
  cases scan with
  | number numeral digits chars =>
    simp only [finish, LongInteger, Option.not_mem_none, false_implies, implies_true, and_true]
    rw [← Numeral.limited_value chars.reverse]
    cases numeral.value limits digits chars.reverse with
    | error e => rfl
    | ok v => cases stack <;> simp
  | _ =>
    simp only [finish, LongInteger, iff_false]
    cases stack <;> simp

theorem limited_run {s : Scanner} {text : List Char} :
    Limited (s.run limits text) ↔ s.Overruns limits text := by
  induction text generalizing s with
  | nil => exact limited_finish
  | cons c rest ih =>
    rw [run, Overruns, ← or_assoc, ← limited_step]
    cases hstep : s.step limits c with
    | error e => simp
    | ok s' => simp [ih]

/-! ### Other limits -/

variable (limits limits' : Limits)

theorem begin_agrees (stack : List Frame) (c : Char) : Limited (begin limits stack c) ∨
    Limited (begin limits' stack c) ∨ begin limits stack c = begin limits' stack c := by
  rw [limited_begin, limited_begin]
  by_cases hbracket : c = '{' ∨ c = '['
  · by_cases hdeep : limits.depth ≤ stack.length
    · exact .inl ⟨hbracket, hdeep⟩
    · by_cases hdeep' : limits'.depth ≤ stack.length
      · exact .inr (.inl ⟨hbracket, hdeep'⟩)
      · right
        right
        unfold begin
        simp only [hdeep, hdeep', if_false]
  · right
    right
    unfold begin
    simp only [not_or.mp hbracket, if_false]

theorem value_agrees (numeral : Numeral) (digits : ℕ) (literal : List Char) :
    Limited (numeral.value limits digits literal) ∨
      Limited (numeral.value limits' digits literal) ∨
      numeral.value limits digits literal = numeral.value limits' digits literal := by
  rw [Numeral.limited_value, Numeral.limited_value]
  by_cases hintegral : numeral.integral = true
  · by_cases hlong : limits.digits < digits
    · exact .inl ⟨hintegral, hlong⟩
    · by_cases hlong' : limits'.digits < digits
      · exact .inr (.inl ⟨hintegral, hlong'⟩)
      · right
        right
        unfold Numeral.value
        simp only [hlong, hlong', if_false]
  · right
    right
    unfold Numeral.value
    split
    all_goals simp_all [Numeral.integral]

theorem step_agrees (s : Scanner) (c : Char) : Limited (s.step limits c) ∨
    Limited (s.step limits' c) ∨ s.step limits c = s.step limits' c := by
  obtain ⟨scan, stack⟩ := s
  cases scan with
  | value =>
    -- where a value begins, one of the two bounds may be passed
    simp only [step]
    split
    · exact .inr (.inr rfl)
    · exact begin_agrees limits limits' stack c
  | first =>
    simp only [step]
    split
    · exact .inr (.inr rfl)
    · split
      · exact .inr (.inr rfl)
      · exact begin_agrees limits limits' stack c
  | number numeral digits chars =>
    -- where a number ends, the other one
    simp only [step]
    split
    · exact .inr (.inr rfl)
    · split
      · exact .inr (.inr rfl)
      · rcases value_agrees limits limits' numeral digits chars.reverse
          with h | h | h
        · -- the first scanner stops
          left
          split
          · simpa [*] using h
          · simp [*] at h
        · -- the second one does
          right
          left
          split
          · simpa [*] using h
          · simp [*] at h
        · -- neither does, and they read the same number
          right
          right
          rw [h]
  | _ => exact .inr (.inr rfl)

theorem finish_agrees (s : Scanner) : Limited (s.finish limits) ∨ Limited (s.finish limits') ∨
    s.finish limits = s.finish limits' := by
  obtain ⟨scan, stack⟩ := s
  cases scan with
  | number numeral digits chars =>
    simp only [limited_finish, LongInteger, Option.not_mem_none, false_implies, implies_true,
      and_true]
    rw [← Numeral.limited_value chars.reverse, ← Numeral.limited_value chars.reverse]
    rcases value_agrees limits limits' numeral digits chars.reverse
      with h | h | h
    · exact .inl h
    · exact .inr (.inl h)
    · right
      right
      simp only [finish, h]
  | _ => exact .inr (.inr (by cases stack <;> rfl))

/-- Under other limits a text is read to the same, unless one of the two is in the way. -/
theorem run_agrees (s : Scanner) (text : List Char) : Limited (s.run limits text) ∨
    Limited (s.run limits' text) ∨ s.run limits text = s.run limits' text := by
  induction text generalizing s with
  | nil => exact finish_agrees limits limits' s
  | cons c rest ih =>
    rw [run, run]
    rcases step_agrees limits limits' s c with h | h | h
    · left
      cases hstep : s.step limits c with
      | error e => simpa [hstep] using h
      | ok s' => simp [hstep] at h
    · right
      left
      cases hstep : s.step limits' c with
      | error e => simpa [hstep] using h
      | ok s' => simp [hstep] at h
    · rw [h]
      cases s.step limits' c with
      | error e => exact .inr (.inr rfl)
      | ok s' => exact ih s'

end Scanner

/-- `json.loads` of bytes that are no text never comes to a limit. -/
theorem limited_loadsBytes {py : Interpreter} {raw : List UInt8} :
    Limited (loadsBytes py raw) ↔
      ∃ text, py.decode raw = some text ∧ Scanner.Overruns py.limits {} text := by
  unfold loadsBytes
  cases py.decode raw with
  | none => simp
  | some text => simp [Scanner.limited_run]

end Evenkeel.Python
