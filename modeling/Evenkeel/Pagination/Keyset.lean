import Mathlib.Data.List.Sort
import Mathlib.Order.RelClasses
import Mathlib.Order.Defs.LinearOrder
import Mathlib.Order.WellFounded

/-!
# Keyset Pagination

Reading a table in pages, the greatest key first, each page beginning below the last key of the
one before. Rows may be inserted between two pages.

- `window`: the first rows below a key
- `Walk`: the pages of a reader who stops where there is no more

## Key Results

- `Walk.exists`: the walk ends
- `Walk.descending`, `Walk.sound`, `Walk.complete`: no row is read twice, and every row that was
  there at the beginning is read
-/

namespace Evenkeel.Pagination

variable {α K : Type} [LinearOrder K] (key : α → K)

/-! ## One query -/

/-- The first `count` rows below `after`, the greatest key first. -/
def window (rows : List α) (after : Option K) (count : ℕ) : List α :=
  ((rows.filter fun row => after.all fun k => key row < k).mergeSort
    fun a b => key b ≤ key a).take count

variable {key} {rows : List α} {after : Option K} {count : ℕ} {row : α}

theorem mem_of_mem_window (h : row ∈ window key rows after count) :
    row ∈ rows ∧ ∀ k ∈ after, key row < k := by
  have hmem := List.mem_of_mem_take h
  rw [List.mem_mergeSort, List.mem_filter] at hmem
  refine ⟨hmem.1, ?_⟩
  intro k hk
  obtain rfl := Option.mem_def.mp hk
  simpa using hmem.2

/-- The rows, all of them, in the order in which the window has them. -/
private theorem pairwise_sorted (hdistinct : (rows.map key).Nodup) :
    ((rows.filter fun row => after.all fun k => key row < k).mergeSort
      fun a b => key b ≤ key a).Pairwise fun a b => key b < key a := by
  set below := rows.filter fun row => after.all fun k => key row < k with hbelow
  have hsorted : (below.mergeSort fun a b => decide (key b ≤ key a)).Pairwise
      fun a b => decide (key b ≤ key a) = true := by
    apply List.pairwise_mergeSort
    · intro a b c hab hbc
      simp only [decide_eq_true_eq] at hab hbc ⊢
      exact hbc.trans hab
    · intro a b
      simpa using le_total (key b) (key a)
  have hnodup : (below.mergeSort fun a b => key b ≤ key a).Pairwise
      fun a b => key a ≠ key b := by
    have hbelow : (below.map key).Nodup := hdistinct.sublist (List.filter_sublist.map key)
    have hperm := (List.mergeSort_perm below fun a b => key b ≤ key a).map key
    exact List.pairwise_map.mp (hperm.nodup_iff.mpr hbelow)
  apply (hsorted.and hnodup).imp
  intro a b h
  exact lt_of_le_of_ne (of_decide_eq_true h.1) (Ne.symm h.2)

theorem pairwise_window (hdistinct : (rows.map key).Nodup) :
    (window key rows after count).Pairwise fun a b => key b < key a :=
  (pairwise_sorted hdistinct).sublist (List.take_sublist _ _)

/-- A row below the key that is left out is below all that are not, and the window is full. -/
theorem lt_of_not_mem_window (hdistinct : (rows.map key).Nodup) (hrow : row ∈ rows)
    (hbelow : ∀ k ∈ after, key row < k) (hout : row ∉ window key rows after count) :
    (window key rows after count).length = count ∧
      ∀ r ∈ window key rows after count, key row < key r := by
  set sorted := (rows.filter fun row => after.all fun k => key row < k).mergeSort
    fun a b => key b ≤ key a with hsorted
  have hwindow : window key rows after count = sorted.take count := rfl
  have hmem : row ∈ sorted := by
    rw [hsorted, List.mem_mergeSort, List.mem_filter]
    refine ⟨hrow, ?_⟩
    cases after with
    | none => rfl
    | some k => simpa using hbelow k rfl
  rw [hwindow] at hout ⊢
  -- the row is behind the cut
  have hdrop : row ∈ sorted.drop count := by
    rw [← List.take_append_drop count sorted, List.mem_append] at hmem
    exact hmem.resolve_left hout
  constructor
  · -- something was cut off, so the page is full
    rw [List.length_take, min_eq_left]
    by_contra hlt
    rw [List.drop_of_length_le (not_le.mp hlt).le] at hdrop
    cases hdrop
  · -- what is on the page sorts before what was cut off
    have hpairwise : sorted.Pairwise fun a b => key b < key a := pairwise_sorted hdistinct
    rw [← List.take_append_drop count sorted, List.pairwise_append] at hpairwise
    intro r hr
    exact hpairwise.2.2 r hr row hdrop

/-! ## A walk

A page has at most `limit` rows, and one more is asked for to see if there is another page. -/

variable (key) in
/-- The pages from the `n`-th query on, where `tables n` is what that query finds. -/
inductive Walk (tables : ℕ → List α) (limit : ℕ) : ℕ → Option K → List (List α) → Prop where
  | last {n : ℕ} {after : Option K}
      (hlast : (window key (tables n) after (limit + 1)).length ≤ limit) :
      Walk tables limit n after [(window key (tables n) after (limit + 1)).take limit]
  | next {n : ℕ} {after : Option K} {row : α} {pages : List (List α)}
      (hmore : limit < (window key (tables n) after (limit + 1)).length)
      (hrow : ((window key (tables n) after (limit + 1)).take limit).getLast? = some row)
      (hwalk : Walk tables limit (n + 1) (some (key row)) pages) :
      Walk tables limit n after ((window key (tables n) after (limit + 1)).take limit :: pages)

/-- The tables of the queries: the keys are distinct, and none is ever gone. -/
structure Growing (key : α → K) (tables : ℕ → List α) : Prop where
  distinct : ∀ n, ((tables n).map key).Nodup
  kept : ∀ n, ∀ row ∈ tables n, ∃ row' ∈ tables (n + 1), key row' = key row

variable {tables : ℕ → List α} {limit n : ℕ} {pages : List (List α)}

theorem mem_of_mem_visible
    (h : row ∈ (window key (tables n) after (limit + 1)).take limit) :
    row ∈ tables n ∧ ∀ k ∈ after, key row < k :=
  mem_of_mem_window (List.mem_of_mem_take h)

/-- What is on a page is from the table that its query has found. -/
theorem Walk.sound (h : Walk key tables limit n after pages) :
    ∀ page ∈ pages, ∀ row ∈ page, ∃ m, row ∈ tables m := by
  induction h with
  | @last n after hlast =>
    intro page hpage row hrow
    obtain rfl := List.mem_singleton.mp hpage
    exact ⟨n, (mem_of_mem_visible hrow).1⟩
  | @next n after last pages hmore hlast hwalk ih =>
    intro page hpage row hrow
    rcases List.mem_cons.mp hpage with rfl | hpage
    · exact ⟨n, (mem_of_mem_visible hrow).1⟩
    · exact ih page hpage row hrow

theorem Walk.lt_cursor (h : Walk key tables limit n after pages) :
    ∀ row ∈ pages.flatten, ∀ k ∈ after, key row < k := by
  induction h with
  | last hlast =>
    intro row hrow
    rw [List.flatten_cons, List.flatten_nil, List.append_nil] at hrow
    exact (mem_of_mem_visible hrow).2
  | next hmore hlast hwalk ih =>
    intro row hrow k hk
    rw [List.flatten_cons, List.mem_append] at hrow
    rcases hrow with hrow | hrow
    · exact (mem_of_mem_visible hrow).2 k hk
    · exact (ih row hrow _ rfl).trans ((mem_of_mem_visible (List.mem_of_getLast? hlast)).2 k hk)

/-- The rows of a page are at least the last one of them. -/
private theorem le_of_getLast {l : List α} {last : α} (h : l.Pairwise fun a b => key b < key a)
    (hlast : l.getLast? = some last) (hrow : row ∈ l) : key last ≤ key row := by
  obtain ⟨init, rfl⟩ := List.getLast?_eq_some_iff.mp hlast
  rcases List.mem_append.mp hrow with hinit | hsingle
  · exact ((List.pairwise_append.mp h).2.2 row hinit last (List.mem_singleton_self _)).le
  · obtain rfl := List.mem_singleton.mp hsingle
    exact le_refl _

theorem Walk.descending (hgrowing : Growing key tables)
    (h : Walk key tables limit n after pages) :
    pages.flatten.Pairwise fun a b => key b < key a := by
  induction h with
  | @last n after hlast =>
    rw [List.flatten_cons, List.flatten_nil, List.append_nil]
    exact (pairwise_window (hgrowing.distinct n)).sublist (List.take_sublist _ _)
  | @next n after last pages hmore hlast hwalk ih =>
    have hpage : ((window key (tables n) after (limit + 1)).take limit).Pairwise
        fun a b => key b < key a :=
      (pairwise_window (hgrowing.distinct n)).sublist (List.take_sublist limit _)
    rw [List.flatten_cons, List.pairwise_append]
    refine ⟨hpage, ih, ?_⟩
    intro a ha b hb
    exact (hwalk.lt_cursor b hb _ rfl).trans_le (le_of_getLast hpage hlast ha)

/-- A row that is there at a query of the walk, and below its cursor, is on a page. -/
theorem Walk.complete (hgrowing : Growing key tables)
    (h : Walk key tables limit n after pages) (hrow : row ∈ tables n)
    (hbelow : ∀ k ∈ after, key row < k) : ∃ r ∈ pages.flatten, key r = key row := by
  induction h generalizing row with
  | @last n after hlast =>
    -- the last page takes everything that is left
    refine ⟨row, ?_, rfl⟩
    rw [List.flatten_cons, List.flatten_nil, List.append_nil, List.take_of_length_le hlast]
    by_contra hout
    have hfull := (lt_of_not_mem_window (hgrowing.distinct n) hrow hbelow hout).1
    omega
  | @next n after last pages hmore hlast hwalk ih =>
    -- a page, and the rest of the walk below its last row
    rw [List.flatten_cons]
    by_cases hin : row ∈ (window key (tables n) after (limit + 1)).take limit
    · exact ⟨row, List.mem_append_left _ hin, rfl⟩
    · -- the page is a window of its own, so the row is below the last one on it
      have hpage : (window key (tables n) after (limit + 1)).take limit =
          window key (tables n) after limit := by
        simp only [window, List.take_take, min_eq_left (Nat.le_succ limit)]
      rw [hpage] at hin hlast
      have hlt := (lt_of_not_mem_window (hgrowing.distinct n) hrow hbelow hin).2 last
        (List.mem_of_getLast? hlast)
      -- the row is still there at the next page, under its key
      obtain ⟨row', hrow', hkey⟩ := hgrowing.kept n row hrow
      obtain ⟨r, hr, heq⟩ := ih hrow' (by
        intro k hk
        obtain rfl := Option.some.inj (Option.mem_def.mp hk)
        rwa [hkey])
      exact ⟨r, List.mem_append_right _ hr, heq.trans hkey⟩

/-- A query leads to the end if the next one does, whatever the last row of its page is. -/
theorem Walk.exists_of_next (hlimit : 0 < limit)
    (hnext : ∀ row, (∀ k ∈ after, key row < k) →
      ∃ pages, Walk key tables limit (n + 1) (some (key row)) pages) :
    ∃ pages, Walk key tables limit n after pages := by
  by_cases hmore : limit < (window key (tables n) after (limit + 1)).length
  · obtain ⟨row, hrow⟩ : ∃ row,
        ((window key (tables n) after (limit + 1)).take limit).getLast? = some row := by
      apply Option.ne_none_iff_exists'.mp
      rw [ne_eq, List.getLast?_eq_none_iff, List.take_eq_nil_iff, not_or]
      constructor
      · omega
      · intro hnil
        simp [hnil] at hmore
    obtain ⟨pages, hwalk⟩ := hnext row (mem_of_mem_visible (List.mem_of_getLast? hrow)).2
    exact ⟨_, .next hmore hrow hwalk⟩
  · exact ⟨_, .last (not_lt.mp hmore)⟩

/-- However many rows are inserted meanwhile, the cursors descend, so the walk ends. -/
theorem Walk.exists [WellFoundedLT K] (hlimit : 0 < limit) (n : ℕ) (after : Option K) :
    ∃ pages, Walk key tables limit n after pages := by
  have hsome : ∀ (k : K) (n : ℕ), ∃ pages, Walk key tables limit n (some k) pages := by
    intro k
    induction k using WellFoundedLT.induction with
    | ind k ih =>
      intro n
      apply Walk.exists_of_next hlimit
      intro row hrow
      exact ih (key row) (hrow k rfl) (n + 1)
  apply Walk.exists_of_next hlimit
  intro row _
  exact hsome (key row) (n + 1)

end Evenkeel.Pagination
