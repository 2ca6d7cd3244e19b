import Evenkeel.Infrastructure.Database
import Evenkeel.Pagination.Keyset

/-!
# Pages

`list_by_owner` and `list_by_wallet` as keyset pagination: the pages of a client who passes
every `next_cursor` back are those of a walk.

- `Listing`: the pages of such a client

## Key Results

- `listing_of_walk`: each walk over the rows is a listing, row by row
- `listing_of_growing`: so the client comes to an end, having seen every row once
- `Listing.unique`: there is no other listing
-/

namespace Evenkeel.Infrastructure

open Evenkeel.Domain Evenkeel.Application Evenkeel.Pagination Evenkeel.Python

/-! ## Listings -/

/-- The pages that a client gets from the `n`-th call on, passing each `next_cursor` back until
    there is none. -/
inductive Listing {β : Type} (call : ℕ → Option String → Except Exn (Page β)) :
    ℕ → Option String → List (Page β) → Prop where
  | last {n : ℕ} {cursor : Option String} {page : Page β} (hpage : call n cursor = .ok page)
      (hlast : page.nextCursor = none) : Listing call n cursor [page]
  | next {n : ℕ} {cursor : Option String} {page : Page β} {next : String} {pages : List (Page β)}
      (hpage : call n cursor = .ok page) (hnext : page.nextCursor = some next)
      (hrest : Listing call (n + 1) (some next) pages) : Listing call n cursor (page :: pages)

theorem Listing.unique {β : Type} {call : ℕ → Option String → Except Exn (Page β)} {n : ℕ}
    {cursor : Option String} {pages pages' : List (Page β)} (h : Listing call n cursor pages)
    (h' : Listing call n cursor pages') : pages' = pages := by
  induction h generalizing pages' with
  | last hpage hlast =>
    cases h' with
    | last hpage' hlast' =>
      rw [Except.ok.inj (hpage.symm.trans hpage')]
    | next hpage' hnext' hrest' =>
      rw [← Except.ok.inj (hpage.symm.trans hpage'), hlast] at hnext'
      cases hnext'
  | next hpage hnext hrest ih =>
    cases h' with
    | last hpage' hlast' =>
      rw [← Except.ok.inj (hpage.symm.trans hpage'), hnext] at hlast'
      cases hlast'
    | next hpage' hnext' hrest' =>
      obtain rfl := Except.ok.inj (hpage.symm.trans hpage')
      obtain rfl := Option.some.inj (hnext.symm.trans hnext')
      rw [ih hrest']

/-! ## Listings are walks -/

section

variable {α β : Type} {id : α → UUID} {toEntity : α → Except Exn β}

theorem slice_eq_window (rows : List α) (id : α → UUID) (after : Option UUID) (limit : ℕ) :
    Database.slice rows id after limit =
      window (fun row => (id row).int) rows (after.map (·.int)) (limit + 1) := by
  cases after <;> rfl

theorem mapM_of_loads {rows : List α} (h : ∀ row ∈ rows, ∃ item, toEntity row = .ok item) :
    ∃ items, rows.mapM toEntity = .ok items ∧
      List.Forall₂ (fun row item => toEntity row = .ok item) rows items := by
  induction rows with
  | nil => exact ⟨[], rfl, .nil⟩
  | cons row rows ih =>
    obtain ⟨item, hitem⟩ := h row List.mem_cons_self
    obtain ⟨items, hitems, hrows⟩ := ih fun r hr => h r (List.mem_cons_of_mem _ hr)
    refine ⟨item :: items, ?_, .cons hitem hrows⟩
    simp only [List.mapM_cons, hitem, hitems, bind, Except.bind, pure, Except.pure]

theorem paginate_of_loads (id : α → UUID) (limit : ℕ) {rows : List α}
    (h : ∀ row ∈ rows, ∃ item, toEntity row = .ok item) :
    ∃ items, List.Forall₂ (fun row item => toEntity row = .ok item) (rows.take limit) items ∧
      Database.paginate rows id toEntity limit = .ok ⟨items, if limit < rows.length then
        (rows.take limit).getLast?.map fun row => encodeCursor (id row) else none⟩ := by
  obtain ⟨items, hitems, hrows⟩ := mapM_of_loads fun row hrow => h row (List.mem_of_mem_take hrow)
  refine ⟨items, hrows, ?_⟩
  simp only [Database.paginate, hitems, bind, Except.bind, pure, Except.pure]

/-- A walk over the rows is what the client sees, with an entity for each row. -/
theorem listing_of_walk {tables : ℕ → List α} {limit n : ℕ} {key : Option ℕ}
    {rows : List (List α)} {call : ℕ → Option String → Except Exn (Page β)}
    (hcall : ∀ n cursor, call n cursor = do
      let after ← decodeCursor cursor
      Database.paginate (Database.slice (tables n) id after limit) id toEntity limit)
    (hloads : ∀ n, ∀ row ∈ tables n, ∃ item, toEntity row = .ok item)
    (hwalk : Walk (fun row => (id row).int) tables limit n key rows) {cursor : Option String}
    {after : Option UUID} (hcursor : decodeCursor cursor = .ok after)
    (hafter : key = after.map (·.int)) :
    ∃ pages, Listing call n cursor pages ∧
      List.Forall₂ (List.Forall₂ fun row item => toEntity row = .ok item) rows
        (pages.map (·.items)) := by
  induction hwalk generalizing cursor after with
  | @last n key hlast =>
    -- the last page has no cursor
    subst hafter
    rw [← slice_eq_window] at hlast ⊢
    obtain ⟨items, hrows, hpage⟩ := paginate_of_loads id limit
      fun row (hrow : row ∈ Database.slice (tables n) id after limit) =>
        hloads n row (Database.mem_of_mem_slice hrow)
    rw [if_neg (not_lt.mpr hlast)] at hpage
    refine ⟨[⟨items, none⟩], .last ?_ rfl, .cons hrows .nil⟩
    rw [hcall, hcursor]
    exact hpage
  | @next n key last rows hmore hrow hwalk ih =>
    -- the cursor of a page leads to the next one
    subst hafter
    rw [← slice_eq_window] at hmore hrow ⊢
    obtain ⟨items, hrows, hpage⟩ := paginate_of_loads id limit
      fun row (hrow : row ∈ Database.slice (tables n) id after limit) =>
        hloads n row (Database.mem_of_mem_slice hrow)
    rw [if_pos hmore, hrow] at hpage
    obtain ⟨pages, hlisting, hpages⟩ := ih (decodeCursor_encodeCursor (id last)) rfl
    refine ⟨⟨items, some (encodeCursor (id last))⟩ :: pages, .next ?_ rfl hlisting,
      .cons hrows hpages⟩
    rw [hcall, hcursor]
    exact hpage

/-- Whatever is inserted between the calls, the client comes to an end, with each row once that
    was there at the beginning. The items are the rows of a walk, loaded. -/
theorem listing_of_growing {tables : ℕ → List α} {limit : ℕ}
    (call : ℕ → Option String → Except Exn (Page β))
    (hcall : ∀ n cursor, call n cursor = do
      let after ← decodeCursor cursor
      Database.paginate (Database.slice (tables n) id after limit) id toEntity limit)
    (hloads : ∀ n, ∀ row ∈ tables n, ∃ item, toEntity row = .ok item)
    (hgrowing : Growing (fun row => (id row).int) tables) (hlimit : 0 < limit) :
    ∃ pages rows, Listing call 0 none pages ∧
      List.Forall₂ (fun row item => toEntity row = .ok item) rows (pages.flatMap (·.items)) ∧
      rows.Pairwise (fun a b => (id b).int < (id a).int) ∧
      (∀ row ∈ tables 0, ∃ r ∈ rows, id r = id row) ∧ ∀ r ∈ rows, ∃ n, r ∈ tables n := by
  obtain ⟨rows, hwalk⟩ : ∃ rows, Walk (fun row => (id row).int) tables limit 0 none rows :=
    Walk.exists hlimit 0 none
  obtain ⟨pages, hlisting, hpages⟩ :=
    listing_of_walk hcall hloads hwalk (rfl : decodeCursor none = .ok none) rfl
  refine ⟨pages, rows.flatten, hlisting, ?_, hwalk.descending hgrowing, ?_, ?_⟩
  · rw [List.flatMap_def]
    exact List.rel_flatten hpages
  · intro row hrow
    obtain ⟨r, hr, hkey⟩ := hwalk.complete hgrowing hrow (by simp)
    exact ⟨r, hr, UUID.ext hkey⟩
  · intro r hr
    obtain ⟨page, hpage, hr⟩ := List.mem_flatten.mp hr
    exact hwalk.sound page hpage r hr

theorem exists_of_mem_left {R : α → β → Prop} {rows : List α} {items : List β}
    (h : List.Forall₂ R rows items) {row : α} (hrow : row ∈ rows) : ∃ item ∈ items, R row item := by
  induction h with
  | nil => cases hrow
  | @cons first item rows items hfirst hrows ih =>
    rcases List.mem_cons.mp hrow with rfl | hrest
    · exact ⟨item, List.mem_cons_self, hfirst⟩
    · obtain ⟨i, hi, hR⟩ := ih hrest
      exact ⟨i, List.mem_cons_of_mem _ hi, hR⟩

theorem exists_of_mem_right {R : α → β → Prop} {rows : List α} {items : List β}
    (h : List.Forall₂ R rows items) {item : β} (hitem : item ∈ items) : ∃ row ∈ rows, R row item :=
  exists_of_mem_left h.flip hitem

/-- Loaded rows are in the order of the rows. -/
theorem pairwise_of_rows {rows : List α} {items : List β} {itemId : β → UUID}
    (h : List.Forall₂ (fun row item => toEntity row = .ok item) rows items)
    (hid : ∀ row item, toEntity row = .ok item → itemId item = id row)
    (hrows : rows.Pairwise fun a b => (id b).int < (id a).int) :
    items.Pairwise fun a b => (itemId b).int < (itemId a).int := by
  have hids : rows.map (fun row => (id row).int) = items.map fun item => (itemId item).int := by
    rw [← List.forall₂_eq_eq_eq, List.forall₂_map_left_iff, List.forall₂_map_right_iff]
    exact h.imp fun row item h => by rw [hid row item h]
  rw [← List.pairwise_map (f := fun row => (id row).int) (R := fun a b => b < a), hids] at hrows
  exact List.pairwise_map.mp hrows

end

end Evenkeel.Infrastructure
