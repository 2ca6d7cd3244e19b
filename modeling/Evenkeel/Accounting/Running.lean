import Mathlib.Algebra.BigOperators.Group.List.Basic
import Mathlib.Data.List.Chain

/-!
# Running Totals

A list of postings, each of which carries an amount and the total it was written with. The
totals run if each of them is the sum of all amounts up to its own.

- `Running`, `closing`: the property, and the total after the last posting
- `Running.snoc`: a posting written with the closing total plus its amount keeps it
- `Running.closing_eq`: the closing total is the sum of all amounts
- `Running.isChain`: read backwards, each total is the next one plus the posting's amount
-/

namespace Evenkeel.Accounting

variable {α G : Type*} [AddMonoid G] {amount total : α → G} {l : List α} {a : α}

/-- Every total is the sum of the amounts up to it. -/
def Running (amount total : α → G) (l : List α) : Prop :=
  ∀ k (h : k < l.length), total l[k] = ((l.take (k + 1)).map amount).sum

/-- The last total, or zero. -/
def closing (total : α → G) (l : List α) : G := (l.getLast?.map total).getD 0

@[simp] theorem Running.nil : Running amount total [] := by
  intro k h
  cases h

@[simp] theorem closing_snoc : closing total (l ++ [a]) = total a := by
  simp [closing]

theorem Running.closing_eq (h : Running amount total l) :
    closing total l = (l.map amount).sum := by
  rcases List.eq_nil_or_concat l with rfl | ⟨l', a, rfl⟩
  · rfl
  · rw [List.concat_eq_append] at h ⊢
    have hlast := h l'.length (by simp)
    simpa using hlast

theorem Running.snoc (h : Running amount total l)
    (ha : total a = closing total l + amount a) : Running amount total (l ++ [a]) := by
  intro k hk
  rw [List.length_append, List.length_singleton] at hk
  rcases Nat.lt_succ_iff_lt_or_eq.mp hk with hlt | rfl
  · rw [List.getElem_append_left hlt, List.take_append_of_le_length (by exact hlt)]
    exact h k hlt
  · have hall : (l ++ [a]).take (l.length + 1) = l ++ [a] := List.take_of_length_le (by simp)
    rw [hall]
    simp [ha, h.closing_eq]

theorem Running.of_snoc (h : Running amount total (l ++ [a])) :
    Running amount total l ∧ total a = closing total l + amount a := by
  have hinit : Running amount total l := by
    intro k hk
    have hsame := h k (by simp only [List.length_append]; omega)
    rwa [List.getElem_append_left hk, List.take_append_of_le_length (by exact hk)] at hsame
  have hlast := h l.length (by simp)
  refine ⟨hinit, ?_⟩
  rw [hinit.closing_eq]
  simpa using hlast

theorem Running.isChain (h : Running amount total l) :
    l.reverse.IsChain fun a b => total a = total b + amount a := by
  induction l using List.reverseRecOn with
  | nil => exact .nil
  | append_singleton l a ih =>
    obtain ⟨hinit, hlast⟩ := h.of_snoc
    rw [List.reverse_append, List.reverse_singleton, List.singleton_append, List.isChain_cons]
    refine ⟨?_, ih hinit⟩
    intro b hb
    rw [Option.mem_def, List.head?_reverse] at hb
    rw [hlast, closing, hb]
    rfl

end Evenkeel.Accounting
