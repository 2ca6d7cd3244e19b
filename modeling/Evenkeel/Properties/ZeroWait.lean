import Evenkeel.Infrastructure.MemoryLock

/-!
# Locks That Do Not Wait

A handle without a wait looks at the flag of the lock, and queues up behind whoever has been
woken for it and has not run yet.
-/

namespace Evenkeel.Properties

open Evenkeel.Effects Evenkeel.Infrastructure Evenkeel.Python

/-- The transition, if it is the entry of a handle that is not to wait, has not left the task
    waiting. -/
def Immediate (τ : Transition LockPort LockEvent) : Prop :=
  ∀ task h handle, τ.event = .enter task h → τ.before.handles h = some handle →
    handle.waitTimeoutMs ≤ 0 → τ.after.entering task = none

/-- The event, if it is such an entry, finds a lock that is held inside its lease, or that
    nobody waits for. -/
def Unobstructed (s : LockPort) (event : LockEvent) : Prop :=
  ∀ task h handle, event = .enter task h → s.handles h = some handle →
    handle.waitTimeoutMs ≤ 0 → (s.holder handle.key).Unobstructed s.now

/-- In every run of any number of handles, keys and tasks, an entry that is not to wait does not
    wait exactly where the lock is held inside its lease or nobody waits for it. -/
theorem zero_wait_immediate_iff {t : List (Transition LockPort LockEvent)} {s : LockPort}
    (hrun : LockPort.machine.Run t s) :
    ∀ τ ∈ t, Immediate τ ↔ Unobstructed τ.before τ.event := by
  intro τ hτ
  obtain ⟨u, -, hstep⟩ := hrun.of_mem hτ
  have hentry : ∀ task h handle, τ.event = .enter task h → τ.before.handles h = some handle →
      handle.waitTimeoutMs ≤ 0 → (τ.after.entering task = none ↔
        (τ.before.holder handle.key).Unobstructed τ.before.now) := by
    intro task h handle hevent hhandle hwait
    have hafter : τ.before.entering task = none ∧
        τ.before.enter task h handle = τ.after := by
      rw [hevent] at hstep
      change LockPort.step τ.before (.enter task h) = some τ.after at hstep
      simp only [LockPort.step, hhandle] at hstep
      split at hstep
      · rename_i hidle hsome
        rw [Option.some.inj hsome]
        exact ⟨hidle, Option.some.inj hstep⟩
      · cases hstep
    rw [← hafter.2]
    exact LockPort.entering_of_enter hafter.1 hwait
  constructor
  · intro himmediate task h handle hevent hhandle hwait
    exact (hentry task h handle hevent hhandle hwait).mp
      (himmediate task h handle hevent hhandle hwait)
  · intro hclear task h handle hevent hhandle hwait
    exact (hentry task h handle hevent hhandle hwait).mpr
      (hclear task h handle hevent hhandle hwait)

/-- Two handles, the second of which is refused. -/
theorem zero_wait_immediate_iff_refused : ∃ t s, LockPort.machine.Run t s ∧
    t.map (·.event) = [.lock 0 "k" 1000 0, .lock 1 "k" 1000 0, .enter 0 0, .enter 1 1] ∧
    ∀ τ ∈ t, Immediate τ := by
  have h := Machine.Run.nil (M := LockPort.machine)
  have h := h.snoc (e := .lock 0 "k" 1000 0) rfl
  have h := h.snoc (e := .lock 1 "k" 1000 0) rfl
  have h := h.snoc (e := .enter 0 0) rfl
  have h := h.snoc (e := .enter 1 1) rfl
  have hiff := zero_wait_immediate_iff h
  refine ⟨_, _, h, rfl, ?_⟩
  intro τ hτ
  apply (hiff τ hτ).mpr
  simp only [List.nil_append, List.cons_append, List.mem_cons, List.not_mem_nil, or_false] at hτ
  intro task j handle hevent hhandle _
  obtain rfl | rfl | rfl | rfl := hτ
  · cases hevent
  · cases hevent
  · cases hevent
    cases hhandle
    exact .inr (by decide)
  · cases hevent
    cases hhandle
    exact .inl ⟨rfl, by with_unfolding_all decide⟩

/-- Handle `2` is not to wait, and its lock is not free for the asking. -/
private def awaited (s : LockPort) : Bool :=
  match s.handles 2 with
  | some handle => decide (handle.waitTimeoutMs ≤ 0) && s.entering 2 == none &&
      !decide ((s.holder handle.key).Unobstructed s.now)
  | none => false

/-- The holder has left, and the task that waits for the lock has been woken and has not run
    yet: a handle that is not to wait queues up behind it. -/
theorem zero_wait_queues : ∃ t s, LockPort.machine.Run t s ∧
    t.map (·.event) = [.lock 0 "k" 1000 0, .lock 1 "k" 1000 500, .lock 2 "k" 1000 0, .enter 0 0,
      .enter 1 1, .exit 0, .enter 2 2] ∧ ∃ τ ∈ t, ¬Immediate τ := by
  have hexec : (LockPort.machine.exec [.lock 0 "k" 1000 0, .lock 1 "k" 1000 500,
      .lock 2 "k" 1000 0, .enter 0 0, .enter 1 1, .exit 0]).any awaited = true := by
    with_unfolding_all decide
  obtain ⟨t, s, hrun, hevents, hawaited⟩ := Machine.run_of_exec_any hexec
  unfold awaited at hawaited
  split at hawaited
  · rename_i handle hhandle
    simp only [Bool.and_eq_true, decide_eq_true_eq, beq_iff_eq, Bool.not_eq_true',
      decide_eq_false_iff_not] at hawaited
    obtain ⟨⟨hwait, hidle⟩, hobstructed⟩ := hawaited
    have hstep : LockPort.machine.step s (.enter 2 2) = some (s.enter 2 2 handle) := by
      show LockPort.step s (.enter 2 2) = _
      simp only [LockPort.step, hidle, hhandle]
    refine ⟨_, _, hrun.snoc hstep, by simp [hevents], ⟨s, .enter 2 2, s.enter 2 2 handle⟩, ?_, ?_⟩
    · exact List.mem_append_right _ (List.mem_singleton_self _)
    · intro himmediate
      have hnone := himmediate 2 2 handle rfl hhandle hwait
      exact hobstructed ((LockPort.entering_of_enter hidle hwait).mp hnone)
  · cases hawaited

end Evenkeel.Properties
