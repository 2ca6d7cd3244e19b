import Mathlib.Data.List.Induction
import Mathlib.Tactic.Common

/-!
# Machines

A system whose steps are functions of events, for parties too small to be programs of their
own: what happens next is the event, and what it leads to is computed.

- `Machine.Run`: the transitions that a machine made one after the other
- `Run.invariant`: the invariant rule, under a guard on the steps
- `Run.forall_of_guard`: what all steps under the guard do, for whole runs
- `Run.forall_iff`: a guard that characterises the good transitions, for whole runs
-/

namespace Evenkeel.Effects

/-- `step s e` is the state after the event `e` in `s`, or `none` if it cannot happen there. -/
structure Machine (State Event : Type) where
  start : State
  step : State → Event → Option State

structure Transition (State Event : Type) where
  before : State
  event : Event
  after : State

namespace Machine

variable {State Event : Type}

inductive Run (M : Machine State Event) : List (Transition State Event) → State → Prop where
  | nil : Run M [] M.start
  | snoc {t : List (Transition State Event)} {s s' : State} {e : Event} :
      Run M t s → M.step s e = some s' → Run M (t ++ [⟨s, e, s'⟩]) s'

/-- The state after a list of events. -/
def exec (M : Machine State Event) (es : List Event) : Option State :=
  es.foldlM M.step M.start

variable {M : Machine State Event} {t : List (Transition State Event)} {s s' : State}

/-- The machine whose steps are held to a check of the state and the event. -/
def under (M : Machine State Event) (check : State → Event → Bool) : Machine State Event where
  start := M.start
  step s e := if check s e then M.step s e else none

/-- What the events lead to is reached by a run with these events. -/
theorem run_of_exec {es : List Event} (h : M.exec es = some s) :
    ∃ t, M.Run t s ∧ t.map (·.event) = es := by
  induction es using List.reverseRecOn generalizing s with
  | nil =>
    obtain rfl := Option.some.inj h
    exact ⟨[], .nil, rfl⟩
  | append_singleton es e ih =>
    simp only [exec, List.foldlM_append, List.foldlM_cons, List.foldlM_nil, bind_pure,
      Option.bind_eq_bind, Option.bind_eq_some_iff] at h
    obtain ⟨mid, hmid, hstep⟩ := h
    obtain ⟨t, hrun, hevents⟩ := ih hmid
    exact ⟨_, hrun.snoc hstep, by simp [hevents]⟩

/-- A run to a state that evaluates as wanted. -/
theorem run_of_exec_any {es : List Event} {wanted : State → Bool}
    (h : (M.exec es).any wanted = true) :
    ∃ t s, M.Run t s ∧ t.map (·.event) = es ∧ wanted s = true := by
  obtain ⟨s, hs, hwanted⟩ := (Option.any_eq_true wanted _).mp h
  obtain ⟨t, hrun, hevents⟩ := run_of_exec hs
  exact ⟨t, s, hrun, hevents, hwanted⟩

/-- A run that is held to the check is a run, and all its steps pass. -/
theorem Run.of_under {check : State → Event → Bool} (h : (M.under check).Run t s) :
    M.Run t s ∧ ∀ τ ∈ t, check τ.before τ.event = true := by
  induction h with
  | nil =>
    refine ⟨.nil, ?_⟩
    intro τ hτ
    cases hτ
  | snoc _ hstep ih =>
    obtain ⟨hrun, hearlier⟩ := ih
    simp only [under, Option.ite_none_right_eq_some] at hstep
    obtain ⟨hcheck, hstep⟩ := hstep
    refine ⟨hrun.snoc hstep, ?_⟩
    intro τ hτ
    rcases List.mem_append.mp hτ with hold | hnew
    · exact hearlier τ hold
    · obtain rfl := List.mem_singleton.mp hnew
      exact hcheck

/-- The last transition of a run is a step from where the run before it ends. -/
theorem Run.last {τ : Transition State Event} (h : M.Run (t ++ [τ]) s) :
    M.Run t τ.before ∧ M.step τ.before τ.event = some τ.after ∧ s = τ.after := by
  generalize hall : t ++ [τ] = all at h
  cases h with
  | nil => simp at hall
  | snoc hrun hstep =>
    obtain ⟨rfl, hτ⟩ := List.append_inj' hall rfl
    obtain rfl := List.singleton_inj.mp hτ
    exact ⟨hrun, hstep, rfl⟩

/-- A run begins with a run. -/
theorem Run.of_append {u : List (Transition State Event)} (h : M.Run (t ++ u) s) :
    ∃ s', M.Run t s' := by
  induction u using List.reverseRecOn generalizing s with
  | nil => exact ⟨s, by simpa using h⟩
  | append_singleton u τ ih =>
    rw [← List.append_assoc] at h
    exact ih h.last.1

/-- Each transition of a run is a step from where a run before it ends. -/
theorem Run.of_mem {τ : Transition State Event} (h : M.Run t s) (hτ : τ ∈ t) :
    ∃ u, M.Run u τ.before ∧ M.step τ.before τ.event = some τ.after := by
  obtain ⟨u, v, rfl⟩ := List.append_of_mem hτ
  rw [List.append_cons] at h
  obtain ⟨s', hprefix⟩ := h.of_append
  exact ⟨u, hprefix.last.1, hprefix.last.2.1⟩

/-- What holds at the start, and is kept by every step that meets the guard, holds after a
    run whose steps all meet it. -/
theorem Run.invariant {I : State → Prop} {G : State → Event → Prop} (hstart : I M.start)
    (hkeep : ∀ s e s', I s → G s e → M.step s e = some s' → I s') (hrun : M.Run t s)
    (hguard : ∀ τ ∈ t, G τ.before τ.event) : I s := by
  induction hrun with
  | nil => exact hstart
  | snoc _ hstep ih =>
    have hearlier := ih fun τ hτ => hguard τ (List.mem_append_left _ hτ)
    exact hkeep _ _ _ hearlier
      (hguard _ (List.mem_append_right _ (List.mem_singleton_self _))) hstep

/-- What every step does from a state with the invariant, if it meets the guard, is so of the
    transitions of a run whose steps all meet it. -/
theorem Run.forall_of_guard {I : State → Prop} {G : State → Event → Prop}
    {P : Transition State Event → Prop} (hstart : I M.start)
    (hkeep : ∀ s e s', I s → G s e → M.step s e = some s' → I s')
    (hgood : ∀ s e s', I s → G s e → M.step s e = some s' → P ⟨s, e, s'⟩)
    (hrun : M.Run t s) (hguard : ∀ τ ∈ t, G τ.before τ.event) : ∀ τ ∈ t, P τ := by
  induction hrun with
  | nil =>
    intro τ hτ
    cases hτ
  | @snoc t _ _ _ hrun hstep ih =>
    intro τ hτ
    have hearlier : ∀ τ ∈ t, G τ.before τ.event := fun τ hτ => hguard τ (List.mem_append_left _ hτ)
    rcases List.mem_append.mp hτ with hold | hnew
    · exact ih hearlier τ hold
    · obtain rfl := List.mem_singleton.mp hnew
      exact hgood _ _ _ (hrun.invariant hstart hkeep hearlier) (hguard _ hτ) hstep

/-- Where, under the invariant, a transition is good exactly if its step meets the guard, the
    transitions of a run are all good exactly if its steps all meet it. -/
theorem Run.forall_iff {I : State → Prop} {G : State → Event → Prop}
    {P : Transition State Event → Prop} (hstart : I M.start)
    (hkeep : ∀ s e s', I s → G s e → M.step s e = some s' → I s')
    (hexact : ∀ s e s', I s → M.step s e = some s' → (P ⟨s, e, s'⟩ ↔ G s e))
    (hrun : M.Run t s) : (∀ τ ∈ t, P τ) ↔ ∀ τ ∈ t, G τ.before τ.event := by
  induction hrun with
  | nil => simp
  | snoc hrun hstep ih =>
    simp only [List.mem_append, List.mem_singleton, or_imp, forall_and, forall_eq, ih]
    -- the invariant is there for the last step once the earlier ones have met the guard
    exact and_congr_right fun hguard => hexact _ _ _ (hrun.invariant hstart hkeep hguard) hstep

end Machine

end Evenkeel.Effects
