import Evenkeel.Infrastructure.MemoryLock
import Evenkeel.Infrastructure.RedisLock

/-!
# Mutual Exclusion across Leases

The in-memory lock keeps at most one live handle a key in exactly those runs in which nobody
who was overtaken exits while the one who overtook it is still at work. The Redis lock, whose
handles have tokens, keeps it in every run.
-/

namespace Evenkeel.Properties

open Evenkeel.Effects Evenkeel.Infrastructure

/-- In every run of any number of handles, keys and tasks: after every step each live handle
    has the lock of its key and is the only live one, exactly if no handle ever exits while
    another one's lease on the key is live. -/
theorem leases_exclusive_iff {t : List (Transition LockPort LockEvent)} {s : LockPort}
    (hrun : LockPort.machine.Run t s) :
    (∀ τ ∈ t, τ.after.Exclusive) ↔ ∀ τ ∈ t, τ.before.Courteous τ.event :=
  hrun.forall_iff LockPort.kept_start LockPort.kept_of_step fun s event s' hkept hstep =>
    LockPort.exclusive_iff_courteous s event s' hkept hstep

/-- A handle that exits after its lease, with nobody else there, and another one after it. -/
theorem leases_exclusive_iff_late : ∃ t s, LockPort.machine.Run t s ∧ s.Live "k" 1 ∧
    ∀ τ ∈ t, τ.after.Exclusive := by
  have h := Machine.Run.nil (M := LockPort.machine)
  have h := h.snoc (e := .lock 0 "k" 1000 0) rfl
  have h := h.snoc (e := .enter 0 0) rfl
  have h := h.snoc (e := .tick 2) rfl
  have h := h.snoc (e := .exit 0) rfl
  have h := h.snoc (e := .lock 1 "k" 1000 0) rfl
  have h := h.snoc (e := .enter 0 1) rfl
  refine ⟨_, _, h, ⟨_, rfl, rfl, rfl, by with_unfolding_all decide⟩,
    (leases_exclusive_iff h).mpr ?_⟩
  simp only [List.nil_append, List.cons_append, List.forall_mem_cons, List.not_mem_nil,
    false_implies, implies_true, and_true]
  refine ⟨?_, ?_, ?_, ?_, ?_, ?_⟩
  · rintro h handle ⟨⟩
  · rintro h handle ⟨⟩
  · rintro h handle ⟨⟩
  · rintro h handle ⟨⟩ - - (_ | j) ⟨other, hother, -⟩
    · rfl
    · cases hother
  · rintro h handle ⟨⟩
  · rintro h handle ⟨⟩

/-- The exit of a handle whose lease was reclaimed frees the lock of the one that reclaimed
    it, and a third handle gets it as well. -/
theorem overtaken_exit_breaks_exclusion :
    ∃ t s, LockPort.machine.Run t s ∧ s.Live "k" 1 ∧ s.Live "k" 2 := by
  have hexec : (LockPort.machine.exec [.lock 0 "k" 1000 0, .lock 1 "k" 60000 0,
      .lock 2 "k" 60000 0, .enter 0 0, .tick 2, .enter 1 1, .exit 0, .enter 2 2]).any
      (fun s => decide (s.Live "k" 1 ∧ s.Live "k" 2)) = true := by
    with_unfolding_all decide
  obtain ⟨t, s, hrun, -, hlive⟩ := Machine.run_of_exec_any hexec
  exact ⟨t, s, hrun, of_decide_eq_true hlive⟩

/-! ## With tokens -/

/-- In every run of any number of handles, keys and clients, with commands that take effect
    late or never and keys that expire at any time after their TTL: no two handles of a key
    hold it, and no event but time and its own release ends the lease of a handle or touches
    the key that stores it. -/
theorem redis_leases_exclude {token : ℕ → String} (htoken : Function.Injective token)
    {t : List (Transition RedisLockClients RedisLockEvent)} {s : RedisLockClients}
    (hrun : (LeaseClients.machine (lockServer token)).Run t s) :
    (∀ key h j, LockBooks.Holds s.books key h → LockBooks.Holds s.books key j → h = j) ∧
      ∀ τ ∈ t, ∀ key j, LockBooks.Holds τ.before.books key j →
        (∀ action, τ.event.action = some action → ¬ LockBooks.Ends j action) →
        LockBooks.Holds τ.after.books key j ∧
          τ.after.store (RedisLock.name key) = τ.before.store (RedisLock.name key) := by
  constructor
  · intro key h j hh hj
    exact (LockBooks.stored_of_run htoken hrun).unique htoken hh hj
  · intro τ hτ key j hholds hevent
    obtain ⟨u, hbefore, hstep⟩ := hrun.of_mem hτ
    obtain ⟨-, hsame⟩ | ⟨action, haction, hbooks⟩ := LeaseClients.books_of_step hstep
    · have hstore : τ.after.store = τ.before.store := congrArg Books.store hsame
      exact ⟨hsame ▸ hholds, congrFun hstore _⟩
    · have hstored := LockBooks.stored_of_run htoken hbefore
      exact LockBooks.holds_of_step htoken hstored hbooks hholds (hevent action haction)

/-- A handle exits long after its lease, when the key is another one's. -/
theorem redis_leases_exclude_late :
    ∃ t s, (LeaseClients.machine (lockServer unaryToken)).Run t s ∧
      (t.map (·.event)).getLast? = some (.execute (.release 0)) ∧
      LockBooks.Holds s.books "k" 1 ∧ ∀ h, LockBooks.Holds s.books "k" h → h = 1 := by
  have h := Machine.Run.nil (M := LeaseClients.machine (lockServer unaryToken))
  have h := h.snoc (e := .create 0 { key := "k", token := "", ttlMs := 1000 }) rfl
  have h := h.snoc (e := .enter 0 0) rfl
  have h := h.snoc (e := .execute (.attempt 0)) rfl
  have h := h.snoc (e := .resume 0 0) rfl
  have h := h.snoc (e := .tick 2000) rfl
  have h := h.snoc (e := .drift "lock:k") rfl
  have h := h.snoc (e := .create 1 { key := "k", token := "x", ttlMs := 1000 }) rfl
  have h := h.snoc (e := .enter 1 0) rfl
  have h := h.snoc (e := .execute (.attempt 1)) rfl
  have h := h.snoc (e := .exit 0) rfl
  have h := h.snoc (e := .execute (.release 0)) rfl
  refine ⟨_, _, h, rfl, ⟨_, 3000, rfl, rfl, rfl, by decide⟩, fun j hj => ?_⟩
  apply (redis_leases_exclude unaryToken_injective h).1 "k" j 1 hj
  exact ⟨_, 3000, rfl, rfl, rfl, by decide⟩

end Evenkeel.Properties
