import Mathlib.Data.List.Basic
import Mathlib.Tactic.Common

/-!
# The Lock of `asyncio`

A `locked` flag and a queue of waiting tasks. No task runs between the lines of another, so
every operation is a function of the lock; `acquire` is cut at its one await, where the task
queues up (`acquire`) and where it is run again (`resume`).

- `AsyncioLock.Owned`: the flag is set for every holder, there is one holder at most, and
  nobody is being woken while somebody holds the lock

## Key Results

- `Owned.of_acquire`, `Owned.of_resume`: whoever gets the lock finds nobody holding it
- `Owned.queue`, `Owned.interrupt`, `Owned.give_up`, `Owned.release`: the other operations
-/

namespace Evenkeel.Python

/-- The future that a waiting task awaits. -/
inductive Future
  | pending
  | woken
  | cancelled
  deriving DecidableEq, Repr

/-- A task in the queue. `cancelling` is set if it is cancelled after it was woken, which its
    future cannot show any more. -/
structure Waiter where
  task : ℕ
  future : Future := .pending
  cancelling : Bool := false
  deriving DecidableEq, Repr

/-- `Task.cancel`, for a task that awaits the future. -/
def Waiter.cancel (w : Waiter) : Waiter :=
  match w.future with
  | .pending => { w with future := .cancelled }
  | .woken => { w with cancelling := true }
  | .cancelled => w

/-- Cancelling a waiter never wakes it. -/
theorem Waiter.cancel_woken {w : Waiter} (h : w.cancel.future = .woken) : w.future = .woken := by
  unfold Waiter.cancel at h
  split at h
  · simp at h
  · assumption
  · simp_all

structure AsyncioLock where
  locked : Bool := false
  waiters : List Waiter := []
  deriving DecidableEq, Repr

namespace AsyncioLock

/-- `_wake_up_first`. -/
def wakeUpFirst (l : AsyncioLock) : AsyncioLock :=
  match l.waiters with
  | [] => l
  | w :: ws =>
    -- a future that is done, woken or cancelled, is left alone
    if w.future = .pending then { l with waiters := { w with future := .woken } :: ws } else l

/-- `acquire` up to its await: whether the task has the lock already. -/
def acquire (l : AsyncioLock) (task : ℕ) : Bool × AsyncioLock :=
  if !l.locked && l.waiters.all fun w => w.future = .cancelled then
    (true, { l with locked := true })
  else
    (false, { l with waiters := l.waiters ++ [{ task }] })

/-- `release`; `none` is the `RuntimeError` of a lock that is not acquired. -/
def release (l : AsyncioLock) : Option AsyncioLock :=
  if l.locked then some ({ l with locked := false } : AsyncioLock).wakeUpFirst else none

/-- The task is cancelled, by a timeout or by somebody else, while it waits. -/
def interrupt (l : AsyncioLock) (task : ℕ) : AsyncioLock :=
  { l with waiters := l.waiters.map fun w => if w.task = task then w.cancel else w }

/-- The task takes its future out of the queue. -/
def leave (l : AsyncioLock) (task : ℕ) : AsyncioLock :=
  { l with waiters := l.waiters.eraseP fun w => w.task = task }

/-- `acquire` from its await on: whether the task has the lock, or was cancelled. `none` if
    the task is not to be run. -/
def resume (l : AsyncioLock) (task : ℕ) : Option (Bool × AsyncioLock) :=
  match l.waiters.find? fun w => w.task = task with
  | none => none
  | some w =>
    if w.future = .pending then none
    else if w.future = .cancelled || w.cancelling then
      -- its turn, if it had been given one, goes to the next in the queue
      some (false, if l.locked then l.leave task else (l.leave task).wakeUpFirst)
    else some (true, { l.leave task with locked := true })

/-- Nobody waits who could still be given the lock. -/
def Unawaited (l : AsyncioLock) : Prop := ∀ w ∈ l.waiters, w.future = .cancelled

instance (l : AsyncioLock) : Decidable l.Unawaited :=
  inferInstanceAs (Decidable (∀ w ∈ l.waiters, w.future = .cancelled))

theorem acquire_iff {l : AsyncioLock} {task : ℕ} :
    (l.acquire task).1 = true ↔ l.locked = false ∧ l.Unawaited := by
  unfold acquire Unawaited
  split
  · rename_i hfree
    simpa using hfree
  · rename_i htaken
    simpa using htaken

/-- Waking a task does not cancel it. -/
theorem wakeUpFirst_unawaited {l : AsyncioLock} : l.wakeUpFirst.Unawaited ↔ l.Unawaited := by
  unfold wakeUpFirst
  split
  · rfl
  · rename_i w ws hws
    split
    · rename_i hpending
      simp [Unawaited, hws, hpending]
    · rfl

/-! ## Holders -/

/-- The lock serves the holders in `holds`, who are the tasks, handles or other parties that
    were given it and have not released it. -/
structure Owned {ι : Type} (l : AsyncioLock) (holds : ι → Prop) : Prop where
  locked : ∀ i, holds i → l.locked = true
  unique : ∀ i j, holds i → holds j → i = j
  turn : l.locked = true → ∀ w ∈ l.waiters, w.future ≠ .woken
  first : ∀ w ∈ l.waiters.tail, w.future ≠ .woken

variable {ι : Type} {l l' : AsyncioLock} {holds : ι → Prop} {task : ℕ}

theorem Owned.fresh : Owned {} fun _ : ι => False where
  locked i h := h.elim
  unique i j h := h.elim
  turn h := by simp at h
  first w hw := by simp at hw

/-- The parties that count as holders may become fewer. -/
theorem Owned.mono (h : l.Owned holds) {fewer : ι → Prop} (hfewer : ∀ i, fewer i → holds i) :
    l.Owned fewer where
  locked i hi := h.locked i (hfewer i hi)
  unique i j hi hj := h.unique i j (hfewer i hi) (hfewer j hj)
  turn := h.turn
  first := h.first

/-- Nobody holds a lock whose flag is down. -/
theorem Owned.vacant (h : l.Owned holds) (hlocked : l.locked = false) (i : ι) : ¬ holds i := by
  intro hi
  have := h.locked i hi
  simp [hlocked] at this

/-- A queue whose tail nobody is woken in, on a lock that is now taken. -/
theorem Owned.taken (i : ι) (h : ∀ w ∈ l.waiters, w.future ≠ .woken) :
    ({ l with locked := true } : AsyncioLock).Owned (· = i) where
  locked _ _ := rfl
  unique j k hj hk := by rw [hj, hk]
  turn _ := h
  first w hw := h w (List.mem_of_mem_tail hw)

@[simp] theorem wakeUpFirst_locked : l.wakeUpFirst.locked = l.locked := by
  unfold wakeUpFirst
  split
  · rfl
  · split <;> rfl

/-- Waking the first in the queue is safe while the flag is down. -/
theorem Owned.of_wake (hlocked : l.locked = false)
    (hfirst : ∀ w ∈ l.waiters.tail, w.future ≠ .woken) :
    l.wakeUpFirst.Owned fun _ : ι => False := by
  have htail : l.wakeUpFirst.waiters.tail = l.waiters.tail := by
    unfold wakeUpFirst
    split
    · rfl
    · rename_i w ws hws
      split <;> simp [hws]
  refine ⟨fun _ h => h.elim, fun _ _ h => h.elim, fun h => ?_, ?_⟩
  · simp [hlocked] at h
  · rwa [htail]

/-! ## Operations -/

theorem acquire_true (h : l.acquire task = (true, l')) :
    l.locked = false ∧ (∀ w ∈ l.waiters, w.future = .cancelled) ∧
      l' = { l with locked := true } := by
  unfold acquire at h
  split at h
  · rename_i hfree
    simp only [Bool.and_eq_true, Bool.not_eq_true', List.all_eq_true, decide_eq_true_eq] at hfree
    exact ⟨hfree.1, hfree.2, (congrArg Prod.snd h).symm⟩
  · simp at h

theorem acquire_false (h : l.acquire task = (false, l')) :
    l' = { l with waiters := l.waiters ++ [{ task }] } := by
  unfold acquire at h
  split at h
  · simp at h
  · exact (congrArg Prod.snd h).symm

/-- A task that gets the lock at once finds nobody holding it. -/
theorem Owned.of_acquire (h : l.Owned holds) (hacquire : l.acquire task = (true, l')) (i : ι) :
    (∀ j, ¬ holds j) ∧ l'.Owned (· = i) := by
  obtain ⟨hlocked, hcancelled, rfl⟩ := acquire_true hacquire
  refine ⟨h.vacant hlocked, Owned.taken i fun w hw => ?_⟩
  rw [hcancelled w hw]
  decide

theorem Owned.queue (h : l.Owned holds) (hacquire : l.acquire task = (false, l')) :
    l'.Owned holds := by
  obtain rfl := acquire_false hacquire
  refine ⟨h.locked, h.unique, ?_, ?_⟩
  · intro hlocked w hw
    rcases List.mem_append.mp hw with hw | hw
    · exact h.turn hlocked w hw
    · simp [List.mem_singleton.mp hw]
  · intro w hw
    cases hws : l.waiters with
    | nil => simp [hws] at hw
    | cons v vs =>
      simp only [hws, List.cons_append, List.tail_cons, List.mem_append, List.mem_singleton] at hw
      rcases hw with hw | rfl
      · apply h.first
        simpa [hws] using hw
      · simp

theorem Owned.release (h : l.Owned holds) (hrelease : l.release = some l') :
    l'.Owned fun _ : ι => False := by
  unfold AsyncioLock.release at hrelease
  split at hrelease
  · obtain rfl := Option.some.inj hrelease
    exact Owned.of_wake rfl h.first
  · simp at hrelease

theorem Owned.interrupt (h : l.Owned holds) (task : ℕ) : (l.interrupt task).Owned holds := by
  -- no waiter is woken by being cancelled
  have hwoken : ∀ w : Waiter,
      (if w.task = task then w.cancel else w).future = .woken → w.future = .woken := by
    intro w hw
    split at hw
    · exact Waiter.cancel_woken hw
    · exact hw
  refine ⟨h.locked, h.unique, ?_, ?_⟩
  · intro hlocked w hw
    obtain ⟨v, hv, rfl⟩ := List.mem_map.mp hw
    exact fun hv' => h.turn hlocked v hv (hwoken v hv')
  · intro w hw
    rw [AsyncioLock.interrupt, ← List.map_tail] at hw
    obtain ⟨v, hv, rfl⟩ := List.mem_map.mp hw
    exact fun hv' => h.first v hv (hwoken v hv')

/-- Only the first in the queue is ever woken, and only while nobody has the lock. -/
theorem Owned.head_of_woken (h : l.Owned holds) {w : Waiter} (hw : w ∈ l.waiters)
    (hwoken : w.future = .woken) : l.locked = false ∧ l.waiters = w :: l.waiters.tail := by
  constructor
  · by_contra hlocked
    exact h.turn (by simpa using hlocked) w hw hwoken
  · cases hws : l.waiters with
    | nil => simp [hws] at hw
    | cons v vs =>
      rcases List.mem_cons.mp (hws ▸ hw) with rfl | hv
      · rfl
      · exact absurd hwoken (h.first w (by simpa [hws] using hv))

/-- Leaving the queue wakes nobody. -/
theorem Owned.leave (h : l.Owned holds) (task : ℕ) : (l.leave task).Owned holds := by
  refine ⟨h.locked, h.unique, fun hlocked w hw => ?_, fun w hw => ?_⟩
  · exact h.turn hlocked w (List.mem_of_mem_eraseP hw)
  · apply h.first
    cases hws : l.waiters with
    | nil => simp [AsyncioLock.leave, hws] at hw
    | cons v vs =>
      simp only [AsyncioLock.leave, hws, List.eraseP_cons] at hw
      cases hv : decide (v.task = task) with
      | true =>
        simp only [hv, cond_true] at hw
        exact List.mem_of_mem_tail hw
      | false =>
        simp only [hv, cond_false, List.tail_cons] at hw
        exact List.mem_of_mem_eraseP hw

theorem resume_true (h : l.resume task = some (true, l')) :
    ∃ w ∈ l.waiters, w.task = task ∧ w.future = .woken ∧
      l' = { l.leave task with locked := true } := by
  unfold resume at h
  split at h
  · simp at h
  · rename_i w hfind
    have htask : w.task = task := by simpa using List.find?_some hfind
    refine ⟨w, List.mem_of_find?_eq_some hfind, htask, ?_⟩
    cases hfuture : w.future with
    | pending => simp [hfuture] at h
    | cancelled => simp [hfuture] at h
    | woken =>
      simp only [hfuture, reduceCtorEq, if_false, decide_false, Bool.false_or] at h
      split at h
      · simp at h
      · simp only [Option.some.injEq, Prod.mk.injEq, true_and] at h
        exact ⟨rfl, h.symm⟩

theorem resume_false (h : l.resume task = some (false, l')) :
    l' = if l.locked then l.leave task else (l.leave task).wakeUpFirst := by
  unfold resume at h
  split at h
  · simp at h
  · split at h
    · simp at h
    · split at h
      · simp only [Option.some.injEq, Prod.mk.injEq, true_and] at h
        exact h.symm
      · simp at h

/-- A task that was woken, and gets the lock, finds nobody holding it. -/
theorem Owned.of_resume (h : l.Owned holds) (hresume : l.resume task = some (true, l')) (i : ι) :
    (∀ j, ¬ holds j) ∧ l'.Owned (· = i) := by
  obtain ⟨w, hw, htask, hwoken, rfl⟩ := resume_true hresume
  obtain ⟨hlocked, hws⟩ := h.head_of_woken hw hwoken
  refine ⟨h.vacant hlocked, Owned.taken (l := l.leave task) i ?_⟩
  -- the task was the first in the queue, so that the rest of it is left
  intro v hv
  rw [AsyncioLock.leave, hws, List.eraseP_cons_of_pos (by simpa using htask)] at hv
  exact h.first v hv

/-- A task that was cancelled leaves the lock to whoever has it. -/
theorem Owned.give_up (h : l.Owned holds) (hresume : l.resume task = some (false, l')) :
    l'.Owned holds := by
  have hleft := h.leave task
  rw [resume_false hresume]
  split
  · exact hleft
  · rename_i hlocked
    have hfree : l.locked = false := by simpa using hlocked
    have hwake : (l.leave task).wakeUpFirst.Owned fun _ : ι => False :=
      Owned.of_wake hfree hleft.first
    exact hwake.mono fun i hi => h.vacant hfree i hi

end AsyncioLock

end Evenkeel.Python
