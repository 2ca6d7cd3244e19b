import Mathlib.Logic.Function.Basic
import Evenkeel.Effects.Program

/-!
# Interleaved Programs

Any number of programs running against one shared world, one operation at a time and in
any order.

- `Environment`: how the world answers a client's operation, what it does once a client
  has ended, and how it changes on its own
- `Pool.Step`, `Pool.RunUnder`, `Pool.Run`: one step, and runs of any length; a run may be
  restricted by a guard on its steps
- `Pool.RunUnder.upholds`: the invariant rule. Programs are checked once, each alone,
  against a contract; the invariant only has to survive steps the contract allows
- `Environment.Executes`: one program alone, while everybody else may change the world
  within a given relation between any two of its operations
- `Environment.Executes.run`: such an execution, undisturbed, in a run

There are as many clients as natural numbers. A client that is never scheduled is a client
that never arrives, so a run has any finite number of them.
-/

namespace Evenkeel.Effects

variable {ι : Type} {ρ : ι → Type} {ε α : Type}

/-! ## Environments and pools -/

/-- A shared world. `answers i w op x w'`: in `w`, client `i`'s operation `op` may be
    answered `x`, leaving `w'`. -/
structure Environment (ι : Type) (ρ : ι → Type) where
  World : Type
  answers : ℕ → World → (op : ι) → ρ op → World → Prop
  /-- What may happen to the world once client `i`'s program has ended. -/
  closes : ℕ → World → World → Prop
  /-- What the world may do on its own. -/
  drifts : World → World → Prop

/-- A world and the programs its clients still have to run. -/
structure Pool (E : Environment ι ρ) (ε α : Type) where
  world : E.World
  clients : ℕ → Program ι ρ ε α

/-- What one step of a pool was. -/
inductive Occurrence (ι : Type) (ρ : ι → Type) where
  | answered (client : ℕ) (event : Event ι ρ)
  | closed (client : ℕ)
  | drifted

/-- The client whose step it was. -/
def Occurrence.client : Occurrence ι ρ → Option ℕ
  | .answered i _ => some i
  | .closed i => some i
  | .drifted => none

namespace Pool

variable {E : Environment ι ρ}

inductive Step : Pool E ε α → Occurrence ι ρ → Pool E ε α → Prop where
  | answered {P : Pool E ε α} {i : ℕ} {op : ι} {resume : ρ op → Program ι ρ ε α} {x : ρ op}
      {w : E.World} (hclient : P.clients i = .request op resume)
      (hworld : E.answers i P.world op x w) :
      Step P (.answered i ⟨op, x⟩) ⟨w, Function.update P.clients i (resume x)⟩
  | closed {P : Pool E ε α} {i : ℕ} {r : Except ε α} {w : E.World}
      (hclient : P.clients i = .done r) (hworld : E.closes i P.world w) :
      Step P (.closed i) ⟨w, P.clients⟩
  | drifted {P : Pool E ε α} {w : E.World} (hworld : E.drifts P.world w) :
      Step P .drifted ⟨w, P.clients⟩

/-- A condition on a step: the history before it, the pool before it, what it was, and the
    pool after it. -/
abbrev Guard (E : Environment ι ρ) (ε α : Type) : Type :=
  List (Occurrence ι ρ) → Pool E ε α → Occurrence ι ρ → Pool E ε α → Prop

/-- Runs from `P` all of whose steps meet the guard `G`, with their history. -/
inductive RunUnder (G : Guard E ε α) (P : Pool E ε α) :
    List (Occurrence ι ρ) → Pool E ε α → Prop where
  | nil : RunUnder G P [] P
  | snoc {t : List (Occurrence ι ρ)} {Q R : Pool E ε α} {o : Occurrence ι ρ} :
      RunUnder G P t Q → Step Q o R → G t Q o R → RunUnder G P (t ++ [o]) R

/-- Runs without a guard. -/
abbrev Run (P : Pool E ε α) : List (Occurrence ι ρ) → Pool E ε α → Prop :=
  RunUnder (fun _ _ _ _ => True) P

/-- One client's own events in a history. -/
def ownEvents (i : ℕ) (t : List (Occurrence ι ρ)) : List (Event ι ρ) :=
  t.filterMap fun
    | .answered j e => if j = i then some e else none
    | .closed _ => none
    | .drifted => none

@[simp] theorem ownEvents_nil (i : ℕ) : ownEvents (ι := ι) (ρ := ρ) i [] = [] := rfl

theorem ownEvents_append (i : ℕ) (t u : List (Occurrence ι ρ)) :
    ownEvents i (t ++ u) = ownEvents i t ++ ownEvents i u := by
  simp [ownEvents, List.filterMap_append]

theorem ownEvents_answered (i j : ℕ) (e : Event ι ρ) :
    ownEvents i [.answered j e] = if j = i then [e] else [] := by
  by_cases h : j = i <;> simp [ownEvents, h]

@[simp] theorem ownEvents_closed (i j : ℕ) :
    ownEvents (ι := ι) (ρ := ρ) i [.closed j] = [] := rfl

@[simp] theorem ownEvents_drifted (i : ℕ) :
    ownEvents (ι := ι) (ρ := ρ) i [.drifted] = [] := rfl

theorem mem_ownEvents_snoc {i : ℕ} {t : List (Occurrence ι ρ)} {e : Event ι ρ} :
    e ∈ ownEvents i (t ++ [.answered i e]) := by
  rw [ownEvents_append, ownEvents_answered, if_pos rfl]
  exact List.mem_append_right _ (List.mem_singleton_self e)

theorem eq_of_mem_ownEvents_singleton {i : ℕ} {o : Occurrence ι ρ} {e : Event ι ρ}
    (h : e ∈ ownEvents i [o]) : o = .answered i e := by
  cases o with
  | answered j e' =>
    rw [ownEvents_answered] at h
    split at h
    · rename_i hji
      rw [List.mem_singleton.mp h, hji]
    · cases h
  | closed j => cases h
  | drifted => cases h

namespace RunUnder

variable {G : Guard E ε α} {P Q : Pool E ε α} {t : List (Occurrence ι ρ)}

/-- One more answer, as it is written when a run is built by hand. -/
theorem answer {op : ι} {resume : ρ op → Program ι ρ ε α} (h : RunUnder G P t Q) (i : ℕ)
    (hclient : Q.clients i = .request op resume) (x : ρ op) (w : E.World)
    (hworld : E.answers i Q.world op x w)
    (hG : G t Q (.answered i ⟨op, x⟩) ⟨w, Function.update Q.clients i (resume x)⟩) :
    RunUnder G P (t ++ [.answered i ⟨op, x⟩]) ⟨w, Function.update Q.clients i (resume x)⟩ :=
  .snoc h (.answered hclient hworld) hG

/-- Dropping the guard. -/
theorem run (h : RunUnder G P t Q) : Run P t Q := by
  induction h with
  | nil => exact .nil
  | snoc _ hs _ ih => exact .snoc ih hs trivial

/-- What a client performed in a run is what its own program performs. -/
theorem performs (h : RunUnder G P t Q) (i : ℕ) :
    (P.clients i).Performs (ownEvents i t) (Q.clients i) := by
  induction h with
  | nil => exact .nil _
  | @snoc t Q R o _ hs _ ih =>
    rw [ownEvents_append]
    cases hs with
    | @answered j op resume x w hclient hworld =>
      rw [ownEvents_answered]
      by_cases hji : j = i
      · subst hji
        simp only [if_true, Function.update_self]
        exact (hclient ▸ ih).snoc x
      · have hne : i ≠ j := fun h => hji h.symm
        simpa [hji, Function.update_of_ne hne] using ih
    | closed hclient hworld => simpa using ih
    | drifted hworld => simpa using ih

/-- A client whose end has been noticed has ended. -/
theorem done_of_closed (h : RunUnder G P t Q) {i : ℕ} (hi : .closed i ∈ t) :
    ∃ r, Q.clients i = .done r := by
  induction h with
  | nil => cases hi
  | @snoc t Q R o _ hs _ ih =>
    rcases List.mem_append.mp hi with hmem | hmem
    · -- a client that is done makes no request any more, so it stays done
      obtain ⟨r, hr⟩ := ih hmem
      refine ⟨r, ?_⟩
      cases hs with
      | @answered j op resume x w hclient hworld =>
        have hne : i ≠ j := by
          rintro rfl
          rw [hclient] at hr
          cases hr
        simpa [Function.update_of_ne hne] using hr
      | closed hclient hworld => exact hr
      | drifted hworld => exact hr
    · -- it is closed by this step
      obtain rfl := List.mem_singleton.mp hmem
      cases hs with
      | @closed i r w hclient hworld => exact ⟨r, hclient⟩

/-! ## The invariant rule -/

/-- What has to be shown of an invariant that relates the world to the states `g i` of the
    clients in their contracts: every allowed operation of a client that is still running,
    however it is answered, takes its contract somewhere and keeps the invariant. -/
structure Upholds (C : ℕ → Contract ι ρ) (G : Guard E ε α)
    (Post : (i : ℕ) → Except ε α → (C i).State → Prop)
    (Inv : List (Occurrence ι ρ) → E.World → ((i : ℕ) → (C i).State) → Prop) : Prop where
  answered : ∀ {t : List (Occurrence ι ρ)} {R R' : Pool E ε α} {g : (i : ℕ) → (C i).State}
    {i : ℕ} {op : ι} {x : ρ op}, (∀ j, (C j).wp (R.clients j) (Post j) (g j)) →
    Inv t R.world g → .closed i ∉ t → (C i).allowed (g i) op →
    E.answers i R.world op x R'.world → G t R (.answered i ⟨op, x⟩) R' →
    ∃ s', (C i).step (g i) op x s' ∧
      Inv (t ++ [.answered i ⟨op, x⟩]) R'.world (Function.update g i s')
  closed : ∀ {t : List (Occurrence ι ρ)} {R : Pool E ε α} {w : E.World}
    {g : (i : ℕ) → (C i).State} {i : ℕ} {r : Except ε α}, R.clients i = .done r →
    (∀ j, (C j).wp (R.clients j) (Post j) (g j)) →
    Inv t R.world g → E.closes i R.world w → Inv (t ++ [.closed i]) w g
  drifted : ∀ {t : List (Occurrence ι ρ)} {R : Pool E ε α} {w : E.World}
    {g : (i : ℕ) → (C i).State}, (∀ j, (C j).wp (R.clients j) (Post j) (g j)) →
    Inv t R.world g → E.drifts R.world w → G t R .drifted ⟨w, R.clients⟩ →
    Inv (t ++ [.drifted]) w g

/-- Every run keeps the invariant, and every client stays within its contract. -/
theorem upholds {C : ℕ → Contract ι ρ} {Post : (i : ℕ) → Except ε α → (C i).State → Prop}
    {Inv : List (Occurrence ι ρ) → E.World → ((i : ℕ) → (C i).State) → Prop}
    {g₀ : (i : ℕ) → (C i).State} (hup : Upholds C G Post Inv)
    (hwp : ∀ i, (C i).wp (P.clients i) (Post i) (g₀ i)) (hinit : Inv [] P.world g₀)
    (h : RunUnder G P t Q) :
    ∃ g : (i : ℕ) → (C i).State, Inv t Q.world g ∧
      ∀ i, (C i).wp (Q.clients i) (Post i) (g i) := by
  induction h with
  | nil => exact ⟨g₀, hinit, hwp⟩
  | @snoc t Q R o hrun hs hG ih =>
    obtain ⟨g, hInv, hg⟩ := ih
    -- only the client that is answered moves; the contract says how its record changes
    cases hs with
    | @answered i op resume x w hclient hworld =>
      have hi := hg i
      rw [hclient] at hi
      -- a client that still asks has not been closed
      have hopen : .closed i ∉ t := by
        intro hclosed
        obtain ⟨r, hr⟩ := hrun.done_of_closed hclosed
        rw [hclient] at hr
        cases hr
      obtain ⟨s', hs', hInv'⟩ := hup.answered hg hInv hopen hi.1 hworld hG
      refine ⟨Function.update g i s', hInv', fun j => ?_⟩
      by_cases hji : j = i
      · subst hji
        simp only [Function.update_self]
        exact hi.2 x s' hs'
      · simpa [Function.update_of_ne hji] using hg j
    | closed hclient hworld => exact ⟨g, hup.closed hclient hg hInv hworld, hg⟩
    | drifted hworld => exact ⟨g, hup.drifted hg hInv hworld hG, hg⟩

end RunUnder

end Pool

/-! ## One program alone -/

namespace Environment

variable (E : Environment ι ρ) (R : E.World → E.World → Prop) (i : ℕ)

/-- A complete execution of client `i`'s program. Before each of its operations everybody
    else may move the world along `R`. -/
inductive Executes : Program ι ρ ε α → E.World → List (Event ι ρ) → Except ε α → E.World →
    Prop where
  | done (r : Except ε α) (w : E.World) : Executes (.done r) w [] r w
  | request {op : ι} {resume : ρ op → Program ι ρ ε α} {x : ρ op} {w w₁ w₂ w₃ : E.World}
      {t : List (Event ι ρ)} {r : Except ε α} (hothers : R w w₁)
      (hworld : E.answers i w₁ op x w₂) (hrest : Executes (resume x) w₂ t r w₃) :
      Executes (.request op resume) w (⟨op, x⟩ :: t) r w₃

/-- The contract whose states are the worlds a lone program sees, with its events so far. -/
def alone : Contract ι ρ where
  State := E.World × List (Event ι ρ)
  allowed _ _ := True
  step s op x s' :=
    (∃ w, R s.1 w ∧ E.answers i w op x s'.1) ∧ s'.2 = s.2 ++ [⟨op, x⟩]

variable {E R i}

/-- What is proved against `alone` holds of every complete execution. -/
theorem of_alone {p : Program ι ρ ε α} {Q : Except ε α → E.World × List (Event ι ρ) → Prop}
    {w w' : E.World} {u t : List (Event ι ρ)} {r : Except ε α}
    (h : (E.alone R i).wp p Q (w, u)) (hp : E.Executes R i p w t r w') :
    Q r (w', u ++ t) := by
  induction hp generalizing u with
  | done r w =>
    rw [List.append_nil]
    exact h
  | @request op resume x w w₁ w₂ w₃ t r hothers hworld _ ih =>
    have := ih (h.2 x (w₂, u ++ [⟨op, x⟩]) ⟨⟨w₁, hothers, hworld⟩, rfl⟩)
    rwa [List.append_assoc] at this

/-- A complete execution that nobody disturbs is a part of a run. -/
theorem Executes.run {P Q : Pool E ε α} {p : Program ι ρ ε α} {w : E.World}
    {t : List (Occurrence ι ρ)} {u : List (Event ι ρ)} {r : Except ε α}
    (h : E.Executes Eq i p Q.world u r w) (hclient : Q.clients i = p) (hrun : Pool.Run P t Q) :
    Pool.Run P (t ++ u.map (.answered i)) ⟨w, Function.update Q.clients i (.done r)⟩ := by
  generalize hworld : Q.world = w₀ at h
  induction h generalizing t Q with
  | done r w =>
    subst hworld
    rw [← hclient, Function.update_eq_self, List.map_nil, List.append_nil]
    exact hrun
  | @request op resume x w w₁ w₂ w₃ u r hothers hanswers hrest ih =>
    subst hworld hothers
    have hnext := ih (Function.update_self i (resume x) Q.clients)
      (hrun.answer i hclient x w₂ hanswers trivial) rfl
    rw [Function.update_idem] at hnext
    rwa [List.map_cons, List.append_cons]

/-- A history only grows. -/
theorem alone_extends (p : Program ι ρ ε α) (s : E.World × List (Event ι ρ)) :
    (E.alone R i).wp p (fun _ s' => ∃ u, s'.2 = s.2 ++ u) s := by
  induction p generalizing s with
  | done r => exact ⟨[], (List.append_nil _).symm⟩
  | request op resume ih =>
    refine ⟨trivial, ?_⟩
    intro x s' hs'
    refine Contract.wp_mono ?_ (ih x s')
    rintro r s'' ⟨u, hu⟩
    exact ⟨⟨op, x⟩ :: u, by rw [hu, hs'.2, List.append_assoc, List.singleton_append]⟩

end Environment

end Evenkeel.Effects
