import Mathlib.Data.List.Basic

/-!
# Effectful Programs

Coroutines as trees: a program has either ended, with a value or an exception, or it
waits for the answer to one operation and goes on with whatever comes back.

- `Program ι ρ ε α`: programs over operations `ι`, answered in `ρ`
- `Program.handle`: sequencing that sees exceptions too; `bind`, `try`/`finally` and
  context managers are instances of it
- `Program.expand`: every operation replaced by a program of a lower layer
- `Contract`: a labelled transition system a program is checked against, by the weakest
  precondition `Contract.wp`
- `Contract.Keeps`: a program that keeps an invariant and raises only what is expected
- `Program.Performs`: which operations a program performs, and with which answers
- `Program.Yields`: what a program can return

The operations say nothing about what answers them. A single program under a hostile
environment is `Contract.recording`; many programs over one shared world are in
`Evenkeel.Effects.Interleaving`.
-/

namespace Evenkeel.Effects

variable {ι κ : Type} {ρ : ι → Type} {σ : κ → Type} {ε α β γ : Type}

/-! ## Programs -/

/-- A program over operations `ι` with answers `ρ`, exceptions `ε` and result `α`. -/
inductive Program (ι : Type) (ρ : ι → Type) (ε α : Type) : Type where
  /-- The program has returned a value or raised an exception. -/
  | done (result : Except ε α) : Program ι ρ ε α
  /-- The program waits for the answer to `op`. -/
  | request (op : ι) (resume : ρ op → Program ι ρ ε α) : Program ι ρ ε α

namespace Program

/-- Run `p`, then go on with its result, whether it is a value or an exception. -/
def handle (p : Program ι ρ ε α) (f : Except ε α → Program ι ρ ε β) : Program ι ρ ε β :=
  match p with
  | .done r => f r
  | .request op resume => .request op fun x => (resume x).handle f

/-- The continuation of `bind`: exceptions pass through untouched. -/
def onValue (f : α → Program ι ρ ε β) : Except ε α → Program ι ρ ε β
  | .ok a => f a
  | .error e => .done (.error e)

instance : Monad (Program ι ρ ε) where
  pure a := .done (.ok a)
  bind p f := p.handle (onValue f)

/-- Raise an exception. -/
def raise (e : ε) : Program ι ρ ε α := .done (.error e)

/-- Perform an operation that cannot raise. -/
def call (op : ι) : Program ι ρ ε (ρ op) := .request op fun x => .done (.ok x)

/-- `try: p; finally: cleanup`: an exception of the clean-up replaces the result. -/
def tryFinally (p : Program ι ρ ε α) (cleanup : Program ι ρ ε Unit) : Program ι ρ ε α :=
  p.handle fun r => cleanup.handle (onValue fun _ => .done r)

/-- `async with`: enter, run the body, and leave by whatever way the body ended. An
    exception of the entry leaves nothing to exit. -/
def withContext (enter : Program ι ρ ε γ) (leave : Program ι ρ ε Unit)
    (body : γ → Program ι ρ ε α) : Program ι ρ ε α :=
  enter.handle (onValue fun c => (body c).tryFinally leave)

/-- Replace every operation by the program that implements it. -/
def expand (g : (op : ι) → Program κ σ ε (ρ op)) : Program ι ρ ε α → Program κ σ ε α
  | .done r => .done r
  | .request op resume => (g op).handle (onValue fun x => (resume x).expand g)

/-- The result of a program as a value, exceptions included. -/
def settle (p : Program ι ρ ε α) : Program ι ρ ε (Except ε α) :=
  p.handle fun r => .done (.ok r)

@[simp] theorem handle_done (r : Except ε α) (f : Except ε α → Program ι ρ ε β) :
    (done r).handle f = f r := rfl

@[simp] theorem handle_request (op : ι) (resume : ρ op → Program ι ρ ε α)
    (f : Except ε α → Program ι ρ ε β) :
    (request op resume).handle f = request op fun x => (resume x).handle f := rfl

@[simp] theorem onValue_ok (f : α → Program ι ρ ε β) (a : α) :
    onValue f (.ok a) = f a := rfl

@[simp] theorem onValue_error (f : α → Program ι ρ ε β) (e : ε) :
    onValue f (.error e) = .done (.error e) := rfl

theorem bind_eq (p : Program ι ρ ε α) (f : α → Program ι ρ ε β) :
    p >>= f = p.handle (onValue f) := rfl

end Program

/-! ## Executions of one program -/

/-- One performed operation together with its answer. -/
abbrev Event (ι : Type) (ρ : ι → Type) : Type := Σ op : ι, ρ op

/-- `Performs p t q`: from `p`, after the operations and answers `t`, `q` is left. -/
inductive Program.Performs :
    Program ι ρ ε α → List (Event ι ρ) → Program ι ρ ε α → Prop where
  | nil (p : Program ι ρ ε α) : Performs p [] p
  | cons {op : ι} {resume : ρ op → Program ι ρ ε α} (x : ρ op)
      {t : List (Event ι ρ)} {q : Program ι ρ ε α} :
      Performs (resume x) t q → Performs (.request op resume) (⟨op, x⟩ :: t) q

namespace Program.Performs

theorem append {p q r : Program ι ρ ε α} {t u : List (Event ι ρ)}
    (h₁ : Performs p t q) (h₂ : Performs q u r) : Performs p (t ++ u) r := by
  induction h₁ with
  | nil p => exact h₂
  | cons x _ ih => exact .cons x (ih h₂)

theorem snoc {p : Program ι ρ ε α} {t : List (Event ι ρ)} {op : ι}
    {resume : ρ op → Program ι ρ ε α} (h : Performs p t (.request op resume)) (x : ρ op) :
    Performs p (t ++ [⟨op, x⟩]) (resume x) :=
  h.append (.cons x (.nil _))

/-- A program that ends hands over to its continuation. -/
theorem handle {p : Program ι ρ ε α} {t u : List (Event ι ρ)} {r : Except ε α}
    {f : Except ε α → Program ι ρ ε β} {q : Program ι ρ ε β}
    (hp : Performs p t (.done r)) (hf : Performs (f r) u q) :
    Performs (p.handle f) (t ++ u) q := by
  generalize hdone : Program.done r = d at hp
  induction hp with
  | nil p =>
    subst hdone
    exact hf
  | cons x _ ih => exact .cons x (ih hdone)

/-- The continuation may have nothing left to do. -/
theorem handle_ends {p : Program ι ρ ε α} {t : List (Event ι ρ)} {r : Except ε α}
    {f : Except ε α → Program ι ρ ε β} {r' : Except ε β}
    (hp : Performs p t (.done r)) (hf : f r = .done r') : Performs (p.handle f) t (.done r') := by
  have h := handle hp (f := f) (.nil _)
  rwa [List.append_nil, hf] at h

/-- Until it ends, a continuation waits. -/
theorem within_handle {p q : Program ι ρ ε α} {t : List (Event ι ρ)}
    (hp : Performs p t q) (f : Except ε α → Program ι ρ ε β) :
    Performs (p.handle f) t (q.handle f) := by
  induction hp with
  | nil p => exact .nil _
  | cons x _ ih => exact .cons x ih

/-- The operations and their answers decide what is left. -/
theorem unique {p q r : Program ι ρ ε α} {t : List (Event ι ρ)} (hq : Performs p t q)
    (hr : Performs p t r) : q = r := by
  induction hq with
  | nil p =>
    cases hr
    rfl
  | cons x _ ih =>
    cases hr with
    | cons _ hrest => exact ih hrest

end Program.Performs

/-! ## Returned values -/

/-- Whatever is answered, a value that `p` returns satisfies `P`. -/
def Program.Yields (P : α → Prop) : Program ι ρ ε α → Prop
  | .done r => ∀ a, r = .ok a → P a
  | .request _ resume => ∀ x, (resume x).Yields P

namespace Program

variable {P : α → Prop} {P' : β → Prop} {p : Program ι ρ ε α}

theorem yields_handle {f : Except ε α → Program ι ρ ε β} (hp : p.Yields P)
    (hok : ∀ a, P a → (f (.ok a)).Yields P') (herror : ∀ e, (f (.error e)).Yields P') :
    (p.handle f).Yields P' := by
  induction p with
  | done r =>
    cases r with
    | ok a => exact hok a (hp a rfl)
    | error e => exact herror e
  | request op resume ih => exact fun x => ih x (hp x)

theorem yields_error (e : ε) : (done (.error e) : Program ι ρ ε α).Yields P := by
  intro a ha
  cases ha

theorem yields_any (p : Program ι ρ ε α) : p.Yields fun _ => True := by
  induction p with
  | done r => exact fun _ _ => trivial
  | request op resume ih => exact fun x => ih x

theorem yields_bind (p : Program ι ρ ε α) {f : α → Program ι ρ ε β}
    (hf : ∀ a, (f a).Yields P') : (p >>= f).Yields P' :=
  yields_handle (yields_any p) (fun a _ => hf a) yields_error

theorem yields_tryFinally {cleanup : Program ι ρ ε Unit} (hp : p.Yields P) :
    (p.tryFinally cleanup).Yields P := by
  apply yields_handle hp
  · intro a ha
    apply yields_bind
    intro _ b hb
    cases hb
    exact ha
  · intro e
    apply yields_bind
    intro _
    exact yields_error e

end Program

/-- The answers of an execution are steps from `s` to `s'`. -/
def Follows {τ : Type} (step : τ → (op : ι) → ρ op → τ → Prop) : τ → List (Event ι ρ) → τ → Prop
  | s, [], s' => s = s'
  | s, ⟨op, x⟩ :: t, s' => ∃ m, step s op x m ∧ Follows step m t s'

/-! ## Contracts and weakest preconditions -/

/-- A labelled transition system that a program is checked against. `allowed` is what the
    program promises before an operation; `step` is what the answer does to the state, and
    has no successor for an answer the environment promises not to give. -/
structure Contract (ι : Type) (ρ : ι → Type) where
  State : Type
  allowed : State → ι → Prop
  step : State → (op : ι) → ρ op → State → Prop

namespace Contract

variable {C : Contract ι ρ} {s : C.State}

/-- `C.wp p Q s`: from state `s`, every operation `p` performs is allowed, and if `p` ends
    then `Q` holds of its result and the state reached. -/
def wp (C : Contract ι ρ) : Program ι ρ ε α → (Except ε α → C.State → Prop) → C.State → Prop
  | .done r, Q, s => Q r s
  | .request op resume, Q, s =>
      C.allowed s op ∧ ∀ x s', C.step s op x s' → C.wp (resume x) Q s'

@[simp] theorem wp_done (r : Except ε α) (Q : Except ε α → C.State → Prop) :
    C.wp (.done r : Program ι ρ ε α) Q s = Q r s := rfl

theorem wp_request (op : ι) (resume : ρ op → Program ι ρ ε α)
    (Q : Except ε α → C.State → Prop) :
    C.wp (.request op resume) Q s =
      (C.allowed s op ∧ ∀ x s', C.step s op x s' → C.wp (resume x) Q s') := rfl

theorem wp_mono {p : Program ι ρ ε α} {Q Q' : Except ε α → C.State → Prop}
    (hQ : ∀ r s, Q r s → Q' r s) (h : C.wp p Q s) : C.wp p Q' s := by
  induction p generalizing s with
  | done r => exact hQ r s h
  | request op resume ih =>
    exact ⟨h.1, fun x s' hs => ih x (h.2 x s' hs)⟩

theorem wp_and {p : Program ι ρ ε α} {Q Q' : Except ε α → C.State → Prop} (h : C.wp p Q s)
    (h' : C.wp p Q' s) : C.wp p (fun r s' => Q r s' ∧ Q' r s') s := by
  induction p generalizing s with
  | done r => exact ⟨h, h'⟩
  | request op resume ih =>
    exact ⟨h.1, fun x s' hs => ih x (h.2 x s' hs) (h'.2 x s' hs)⟩

/-- The sequencing rule: the second program is checked from wherever the first one ends. -/
theorem wp_handle {p : Program ι ρ ε α} {f : Except ε α → Program ι ρ ε β}
    {Q : Except ε β → C.State → Prop} :
    C.wp (p.handle f) Q s ↔ C.wp p (fun r s' => C.wp (f r) Q s') s := by
  induction p generalizing s with
  | done r => rfl
  | request op resume ih =>
    simp only [Program.handle_request, wp_request]
    exact and_congr_right fun _ => forall₃_congr fun x s' _ => ih x

theorem wp_bind {p : Program ι ρ ε α} {f : α → Program ι ρ ε β}
    {Q : Except ε β → C.State → Prop} :
    C.wp (p >>= f) Q s ↔ C.wp p (fun r s' => C.wp (Program.onValue f r) Q s') s := by
  rw [Program.bind_eq, wp_handle]

/-- The product of two contracts: both promises, both states. -/
def prod (C D : Contract ι ρ) : Contract ι ρ where
  State := C.State × D.State
  allowed s op := C.allowed s.1 op ∧ D.allowed s.2 op
  step s op x s' := C.step s.1 op x s'.1 ∧ D.step s.2 op x s'.2

/-- A program that meets two contracts meets their product. -/
theorem wp_prod {C D : Contract ι ρ} {p : Program ι ρ ε α} {s : C.State} {s' : D.State}
    {Q : Except ε α → C.State → Prop} {Q' : Except ε α → D.State → Prop}
    (h : C.wp p Q s) (h' : D.wp p Q' s') :
    (C.prod D).wp p (fun r t => Q r t.1 ∧ Q' r t.2) (s, s') := by
  induction p generalizing s s' with
  | done r => exact ⟨h, h'⟩
  | request op resume ih =>
    refine ⟨⟨h.1, h'.1⟩, ?_⟩
    rintro x ⟨t, t'⟩ ⟨ht, ht'⟩
    exact ih x (h.2 x t ht) (h'.2 x t' ht')

/-- What a checked program returns is what it yields. -/
theorem wp_yields {p : Program ι ρ ε α} {P : α → Prop} {Q : Except ε α → C.State → Prop}
    (h : C.wp p Q s) (hp : p.Yields P) :
    C.wp p (fun r s' => Q r s' ∧ ∀ a, r = .ok a → P a) s := by
  induction p generalizing s with
  | done r => exact ⟨h, hp⟩
  | request op resume ih =>
    refine ⟨h.1, ?_⟩
    intro x s' hstep
    exact ih x (h.2 x s' hstep) (hp x)

/-- What is left of a checked program is checked from the state reached. -/
theorem wp_of_follows {p q : Program ι ρ ε α} {Q : Except ε α → C.State → Prop} {s' : C.State}
    {t : List (Event ι ρ)} (h : C.wp p Q s) (hp : p.Performs t q)
    (hfollows : Follows C.step s t s') : C.wp q Q s' := by
  induction hp generalizing s with
  | nil p =>
    obtain rfl : s = s' := hfollows
    exact h
  | cons x _ ih =>
    obtain ⟨m, hstep, hrest⟩ := hfollows
    exact ih (h.2 x m hstep) hrest

/-- A checked program ends, if whatever it may ask for is answered. -/
theorem wp_completes {p : Program ι ρ ε α} {Q : Except ε α → C.State → Prop} (h : C.wp p Q s)
    (hanswers : ∀ s op, C.allowed s op → ∃ x s', C.step s op x s') :
    ∃ t r s', p.Performs t (.done r) ∧ Follows C.step s t s' ∧ Q r s' := by
  induction p generalizing s with
  | done r => exact ⟨[], r, s, .nil _, rfl, h⟩
  | request op resume ih =>
    obtain ⟨x, m, hstep⟩ := hanswers s op h.1
    obtain ⟨t, r, s', hperforms, hfollows, hQ⟩ := ih x (h.2 x m hstep)
    exact ⟨⟨op, x⟩ :: t, r, s', .cons x hperforms, ⟨m, hstep, hfollows⟩, hQ⟩

/-- What the steps of allowed operations keep holds wherever a checked program comes. -/
theorem invariant_of_follows {p q : Program ι ρ ε α} {Q : Except ε α → C.State → Prop}
    {s' : C.State} {t : List (Event ι ρ)} {I : C.State → Prop} (h : C.wp p Q s) (hs : I s)
    (hkeep : ∀ s op x s', I s → C.allowed s op → C.step s op x s' → I s')
    (hp : p.Performs t q) (hfollows : Follows C.step s t s') : I s' := by
  induction hp generalizing s with
  | nil p =>
    obtain rfl : s = s' := hfollows
    exact hs
  | cons x _ ih =>
    obtain ⟨m, hstep, hrest⟩ := hfollows
    exact ih (h.2 x m hstep) (hkeep _ _ x m hs h.1 hstep) hrest

/-! ## Layers -/

/-- A program is checked against what its operations promise, and the implementation of each
    operation against the operations below. `Rel` says which states of the upper contract the
    lower one may be in, wherever an operation is over. -/
theorem wp_expand {D : Contract ι ρ} {C : Contract κ σ} {g : (op : ι) → Program κ σ ε (ρ op)}
    {Rel : D.State → C.State → Prop}
    (hg : ∀ d s op, Rel d s → D.allowed d op →
      C.wp (g op) (fun r s' => ∃ x d', r = .ok x ∧ D.step d op x d' ∧ Rel d' s') s)
    {p : Program ι ρ ε α} {Q : Except ε α → D.State → Prop} {d : D.State} {s : C.State}
    (hp : D.wp p Q d) (hrel : Rel d s) :
    C.wp (p.expand g) (fun r s' => ∃ d', Q r d' ∧ Rel d' s') s := by
  induction p generalizing d s with
  | done r => exact ⟨d, hp, hrel⟩
  | request op resume ih =>
    rw [Program.expand, wp_handle]
    apply wp_mono _ (hg d s op hrel hp.1)
    intro r s' hr
    obtain ⟨x, d', rfl, hstep, hrel'⟩ := hr
    exact ih x (hp.2 x d' hstep) hrel'

/-! ## Invariants -/

/-- From wherever `I` holds, `p` performs allowed operations only and keeps `I`; an exception
    it ends with is one of `E`. -/
def Keeps (C : Contract ι ρ) (I : C.State → Prop) (E : ε → Prop) (p : Program ι ρ ε α) : Prop :=
  ∀ s, I s → C.wp p (fun r s' => I s' ∧ ∀ e, r = .error e → E e) s

variable {I : C.State → Prop} {E : ε → Prop}

theorem keeps_ok (a : α) : C.Keeps I E (.done (.ok a)) := by
  intro s hs
  exact ⟨hs, by simp⟩

theorem keeps_error {e : ε} (he : E e) : C.Keeps I E (.done (.error e) : Program ι ρ ε α) := by
  intro s hs
  refine ⟨hs, ?_⟩
  simpa using he

theorem keeps_handle {p : Program ι ρ ε α} {f : Except ε α → Program ι ρ ε β}
    (hp : C.Keeps I E p) (hf : ∀ r, (∀ e, r = .error e → E e) → C.Keeps I E (f r)) :
    C.Keeps I E (p.handle f) := by
  intro s hs
  rw [wp_handle]
  apply wp_mono _ (hp s hs)
  intro r s' hr
  exact hf r hr.2 s' hr.1

theorem keeps_bind {p : Program ι ρ ε α} {f : α → Program ι ρ ε β}
    (hp : C.Keeps I E p) (hf : ∀ a, C.Keeps I E (f a)) : C.Keeps I E (p >>= f) := by
  apply keeps_handle hp
  intro r hr
  cases r with
  | ok a => exact hf a
  | error e => exact keeps_error (hr e rfl)

theorem keeps_tryFinally {p : Program ι ρ ε α} {cleanup : Program ι ρ ε Unit}
    (hp : C.Keeps I E p) (hcleanup : C.Keeps I E cleanup) :
    C.Keeps I E (p.tryFinally cleanup) := by
  apply keeps_handle hp
  intro r hr
  apply keeps_bind hcleanup
  intro _ s hs
  exact ⟨hs, hr⟩

theorem keeps_withContext {enter : Program ι ρ ε γ} {leave : Program ι ρ ε Unit}
    {body : γ → Program ι ρ ε α} (henter : C.Keeps I E enter) (hleave : C.Keeps I E leave)
    (hbody : ∀ c, C.Keeps I E (body c)) : C.Keeps I E (enter.withContext leave body) :=
  keeps_bind henter fun c => keeps_tryFinally (hbody c) hleave

/-- A program that changes nothing goes before another. -/
theorem wp_bind_of_keeps {p : Program ι ρ ε α} {f : α → Program ι ρ ε β}
    {Q : Except ε β → C.State → Prop} (hp : C.Keeps (· = s) E p)
    (hf : ∀ a, C.wp (f a) Q s) (herror : ∀ e, E e → Q (.error e) s) : C.wp (p >>= f) Q s := by
  rw [wp_bind]
  apply wp_mono _ (hp s rfl)
  intro r s' hr
  obtain ⟨rfl, hr⟩ := hr
  cases r with
  | ok a => exact hf a
  | error e => exact herror e (hr e rfl)

/-- A clean-up that changes nothing goes behind another program. -/
theorem wp_tryFinally_of_keeps {p : Program ι ρ ε α} {cleanup : Program ι ρ ε Unit}
    {Q : Except ε α → C.State → Prop} (hp : C.wp p Q s)
    (hcleanup : ∀ s, C.Keeps (· = s) E cleanup) (herror : ∀ e s, E e → Q (.error e) s) :
    C.wp (p.tryFinally cleanup) Q s := by
  unfold Program.tryFinally
  rw [wp_handle]
  apply wp_mono _ hp
  intro r s' hr
  exact wp_bind_of_keeps (hcleanup s') (fun _ => hr) fun e he => herror e s' he

/-! ## Tracking contracts -/

/-- A contract whose state is computed from the events. `R` restricts the answers the
    environment gives. -/
def tracking {τ : Type} (R : Event ι ρ → Prop) (next : τ → Event ι ρ → τ)
    (allowed : τ → ι → Prop) : Contract ι ρ where
  State := τ
  allowed := allowed
  step s op x s' := R ⟨op, x⟩ ∧ s' = next s ⟨op, x⟩

/-- What is proved against a tracking contract holds after every execution, also of what is
    left of the program. -/
theorem of_tracking {τ : Type} {R : Event ι ρ → Prop} {next : τ → Event ι ρ → τ}
    {allowed : τ → ι → Prop} {p q : Program ι ρ ε α} {Q : Except ε α → τ → Prop}
    {t : List (Event ι ρ)} {s : τ} (h : (tracking R next allowed).wp p Q s)
    (hp : p.Performs t q) (hR : ∀ e ∈ t, R e) :
    (tracking R next allowed).wp q Q (t.foldl next s) := by
  induction hp generalizing s with
  | nil p => exact h
  | cons x _ ih =>
    have hx := hR _ List.mem_cons_self
    exact ih (h.2 x _ ⟨hx, rfl⟩) fun e he => hR e (List.mem_cons_of_mem _ he)

/-! ## The recording contract -/

/-- The contract that only records: everything is allowed, and the state is the list of
    events so far. `R` restricts the answers the environment gives. -/
def recording (R : Event ι ρ → Prop) : Contract ι ρ where
  State := List (Event ι ρ)
  allowed _ _ := True
  step t op x t' := R ⟨op, x⟩ ∧ t' = t ++ [⟨op, x⟩]

/-- What is proved against `recording` holds of every complete execution. -/
theorem of_recording {R : Event ι ρ → Prop} {p : Program ι ρ ε α}
    {Q : Except ε α → List (Event ι ρ) → Prop} {u t : List (Event ι ρ)} {r : Except ε α}
    (h : (recording R).wp p Q u) (hp : p.Performs t (.done r)) (hR : ∀ e ∈ t, R e) :
    Q r (u ++ t) := by
  generalize hq : Program.done r = q at hp
  induction hp generalizing u with
  | nil p =>
    subst hq
    rw [List.append_nil]
    exact h
  | cons x _ ih =>
    have hx := hR _ List.mem_cons_self
    have := ih (h.2 x _ ⟨hx, rfl⟩) (fun e he => hR e (List.mem_cons_of_mem _ he)) hq
    rwa [List.append_assoc] at this

end Contract

end Evenkeel.Effects
