import Mathlib.Algebra.Order.BigOperators.Group.List
import Mathlib.Algebra.Order.Group.Defs
import Mathlib.Tactic.Abel

/-!
# Fixed Windows

Amounts that are taken at certain times, each in a window. Windows begin when they are first
used rather than on a grid, and another one begins only when the last is over. All but the first
last for a fixed width at least.

- `Taken`: an amount, when it was taken, and when its window had begun
- `total`: the sum of the amounts that satisfy a condition
- `Windowed`: the windows follow each other, and are bounded
- `Lasting`: all but the first are long enough

## Key Results

- `Windowed.snoc`: one more amount, in the latest window or a new one
- `Windowed.interval_le`: any stretch of time as long as a window meets two windows at most
-/

namespace Evenkeel.Accounting

/-- An amount that was taken at `now`, in the window that began at `start`. -/
structure Taken (T G : Type*) where
  start : T
  now : T
  amount : G

variable {T G : Type*} [AddCommGroup T] [LinearOrder T] [IsOrderedAddMonoid T]
  [AddCommGroup G] [LinearOrder G] [IsOrderedAddMonoid G]

/-! ## Totals -/

section

omit [AddCommGroup T] [LinearOrder T] [IsOrderedAddMonoid T] [LinearOrder G] [IsOrderedAddMonoid G]

/-- The sum of the amounts that satisfy `p`. -/
def total (p : Taken T G → Bool) (log : List (Taken T G)) : G :=
  ((log.filter p).map Taken.amount).sum

@[simp] theorem total_nil (p : Taken T G → Bool) : total p [] = 0 := rfl

theorem total_cons (p : Taken T G → Bool) (e : Taken T G) (log : List (Taken T G)) :
    total p (e :: log) = (if p e then e.amount else 0) + total p log := by
  unfold total
  by_cases hp : p e
  · simp [hp]
  · simp [hp]

theorem total_append (p : Taken T G → Bool) (log log' : List (Taken T G)) :
    total p (log ++ log') = total p log + total p log' := by
  simp [total]

theorem total_eq_zero {p : Taken T G → Bool} {log : List (Taken T G)}
    (h : ∀ e ∈ log, ¬ p e = true) : total p log = 0 := by
  unfold total
  rw [List.filter_eq_nil_iff.mpr h]
  rfl

/-- Every amount is on one side of a further condition. -/
theorem total_split (p q : Taken T G → Bool) (log : List (Taken T G)) :
    total p log = total (fun e => p e && q e) log + total (fun e => p e && !q e) log := by
  induction log with
  | nil => simp
  | cons e log ih =>
    rw [total_cons, total_cons, total_cons, ih]
    cases p e <;> cases q e <;> simp <;> abel

end

section

omit [AddCommGroup T] [LinearOrder T] [IsOrderedAddMonoid T]

theorem total_mono {p q : Taken T G → Bool} {log : List (Taken T G)}
    (hnonneg : ∀ e ∈ log, 0 ≤ e.amount) (h : ∀ e ∈ log, p e = true → q e = true) :
    total p log ≤ total q log := by
  induction log with
  | nil => exact le_rfl
  | cons e log ih =>
    have hrest := ih (fun e' he' => hnonneg e' (List.mem_cons_of_mem _ he'))
      fun e' he' => h e' (List.mem_cons_of_mem _ he')
    have he := h e List.mem_cons_self
    have hamount := hnonneg e List.mem_cons_self
    rw [total_cons, total_cons]
    refine add_le_add ?_ hrest
    split_ifs with hp hq
    · exact le_rfl
    · exact absurd (he hp) hq
    · exact hamount
    · exact le_rfl

theorem total_nonneg {p : Taken T G → Bool} {log : List (Taken T G)}
    (hnonneg : ∀ e ∈ log, 0 ≤ e.amount) : 0 ≤ total p log := by
  apply List.sum_nonneg
  intro x hx
  obtain ⟨e, he, rfl⟩ := List.mem_map.mp hx
  exact hnonneg e (List.mem_filter.mp he).1

end

/-! ## Windows -/

/-- A log of what was taken in windows one after the other, in each of them at most `limit`. -/
structure Windowed (limit : G) (log : List (Taken T G)) : Prop where
  nonneg : ∀ e ∈ log, 0 ≤ e.amount
  begun : ∀ e ∈ log, e.start ≤ e.now
  ended : ∀ e ∈ log, ∀ e' ∈ log, e.start < e'.start → e.now < e'.start
  bounded : ∀ start, total (fun e => e.start = start) log ≤ limit

/-- Every window but the first lasts for `width` at least. -/
def Lasting (width : T) (log : List (Taken T G)) : Prop :=
  ∀ e ∈ log, ∀ e' ∈ log, ∀ e'' ∈ log, e.start < e'.start → e'.start < e''.start →
    e'.start + width ≤ e''.start

variable {width : T} {limit : G} {log : List (Taken T G)}

omit [AddCommGroup T] [IsOrderedAddMonoid T] [IsOrderedAddMonoid G] in
theorem Windowed.nil (h : 0 ≤ limit) : Windowed limit ([] : List (Taken T G)) :=
  ⟨nofun, nofun, nofun, fun _ => h⟩

omit [AddCommGroup T] [IsOrderedAddMonoid T] [IsOrderedAddMonoid G] in
/-- One more amount, in the window of the last ones or in a new one. -/
theorem Windowed.snoc {e : Taken T G} (h : Windowed limit log) (hamount : 0 ≤ e.amount)
    (hbegun : e.start ≤ e.now) (hover : ∀ e' ∈ log, e'.start = e.start ∨ e'.now < e.start)
    (hroom : total (fun e' => e'.start = e.start) log + e.amount ≤ limit) :
    Windowed limit (log ++ [e]) := by
  have hcases : ∀ e' ∈ log ++ [e], e' ∈ log ∨ e' = e := by
    intro e' he'
    rwa [List.mem_append, List.mem_singleton] at he'
  constructor
  · intro e' he'
    rcases hcases e' he' with hlog | rfl
    · exact h.nonneg e' hlog
    · exact hamount
  · intro e' he'
    rcases hcases e' he' with hlog | rfl
    · exact h.begun e' hlog
    · exact hbegun
  · -- of two windows the later one begins when the earlier is over; the new one is the latest
    intro e₁ he₁ e₂ he₂ hlt
    rcases hcases e₁ he₁ with hlog₁ | rfl <;> rcases hcases e₂ he₂ with hlog₂ | rfl
    · exact h.ended e₁ hlog₁ e₂ hlog₂ hlt
    · exact (hover e₁ hlog₁).resolve_left hlt.ne
    · -- nothing was taken in a later window than the latest
      rcases hover e₂ hlog₂ with heq | hearlier
      · exact absurd heq hlt.ne'
      · exact absurd ((h.begun e₂ hlog₂).trans_lt hearlier) (not_lt.mpr hlt.le)
    · exact absurd hlt (lt_irrefl _)
  · -- bounded: the new one counts in its own window only, where there is room for it
    intro start
    rw [total_append, total_cons, total_nil, add_zero]
    by_cases hstart : e.start = start
    · subst hstart
      rw [if_pos (decide_eq_true rfl)]
      exact hroom
    · rw [if_neg (by simpa using hstart), add_zero]
      exact h.bounded start

omit [IsOrderedAddMonoid T] in
/-- What was taken in one window only. -/
theorem Windowed.total_le {p : Taken T G → Bool} (h : Windowed limit log)
    (hsame : ∀ e ∈ log, ∀ e' ∈ log, p e = true → p e' = true → e.start = e'.start) :
    total p log ≤ limit := by
  by_cases hnone : ∃ e ∈ log, p e = true
  · obtain ⟨e, he, hp⟩ := hnone
    refine (total_mono h.nonneg ?_).trans (h.bounded e.start)
    intro e' he' hp'
    exact decide_eq_true (hsame e' he' e he hp' hp)
  · rw [total_eq_zero fun e he hp => hnone ⟨e, he, hp⟩]
    exact (total_nonneg h.nonneg).trans (h.bounded 0)

omit [IsOrderedAddMonoid T] in
/-- What was taken in two windows at most. -/
theorem Windowed.total_le_two {p : Taken T G → Bool} (h : Windowed limit log)
    (htwo : ∀ a ∈ log, ∀ b ∈ log, ∀ c ∈ log, p a = true → p b = true → p c = true →
      a.start < b.start → ¬ b.start < c.start) : total p log ≤ limit + limit := by
  -- the window of one that is counted, and then one other window
  by_cases hsome : ∃ a ∈ log, p a = true
  · obtain ⟨a, ha, hpa⟩ := hsome
    rw [total_split p fun e => e.start = a.start]
    apply add_le_add
    · apply h.total_le
      intro e he e' he' hp hp'
      simp only [Bool.and_eq_true, decide_eq_true_eq] at hp hp'
      rw [hp.2, hp'.2]
    · apply h.total_le
      intro e he e' he' hp hp'
      simp only [Bool.and_eq_true, Bool.not_eq_true', decide_eq_false_iff_not] at hp hp'
      -- two more windows besides that of `a` would be three
      by_contra hne
      have hforth := htwo a ha e he e' he' hpa hp.1 hp'.1
      have hback := htwo a ha e' he' e he hpa hp'.1 hp.1
      have hmid := htwo e he a ha e' he' hp.1 hpa hp'.1
      have hmid' := htwo e' he' a ha e he hp'.1 hpa hp.1
      have hlast := htwo e he e' he' a ha hp.1 hp'.1 hpa
      have hlast' := htwo e' he' e he a ha hp'.1 hp.1 hpa
      grind
  · rw [total_eq_zero fun e he hp => hsome ⟨e, he, hp⟩]
    have hlimit : 0 ≤ limit := (total_nonneg h.nonneg).trans (h.bounded 0)
    exact add_nonneg hlimit hlimit

/-- Of three windows that meet a stretch of time, the one in the middle lies in it, so that the
    stretch is longer than a window. -/
theorem Windowed.interval_le (h : Windowed limit log) (hlasting : Lasting width log) (since : T) :
    total (fun e => since ≤ e.now ∧ e.now < since + width) log ≤ limit + limit := by
  apply h.total_le_two
  intro a ha b hb c hc hpa hpb hpc hab hbc
  rw [decide_eq_true_eq] at hpa hpc
  have hlate : since + width ≤ c.now :=
    calc since + width ≤ b.start + width :=
          add_le_add_left (hpa.1.trans (h.ended a ha b hb hab).le) width
      _ ≤ c.start := hlasting a ha b hb c hc hab hbc
      _ ≤ c.now := h.begun c hc
  exact absurd hpc.2 (not_lt.mpr hlate)

end Evenkeel.Accounting
