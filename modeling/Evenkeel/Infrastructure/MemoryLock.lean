import Mathlib.Data.Rat.Defs
import Mathlib.Algebra.Order.Ring.Rat
import Mathlib.Logic.Function.Basic
import Evenkeel.Effects.Machine
import Evenkeel.Python.AsyncioLock

/-!
# The In-Memory Lock

One `asyncio.Lock` a key, with a lease on it: an expired lease is taken away by whoever
enters next. The handles do not know each other, and the lock does not know who has it.

- `LockPort.step`: what one event does, on any number of handles, keys and tasks
- `LockPort.Live`: a handle that was given the lock, has not exited, and is inside its lease
- `LockPort.Exclusive`: a live handle has its lock, alone
- `LockPort.Courteous`: no handle exits while another one's lease is live
- `Holder.Unobstructed`: a lock that answers at once

## Key Results

- `kept_of_step`: a courteous step keeps the lock of every key with its live handle
- `exclusive_iff_courteous`: and no other step leaves it there
- `entering_of_enter`: when a handle that is not to wait has to
-/

namespace Evenkeel.Infrastructure

open Evenkeel.Effects Evenkeel.Python

/-! ## Holders and handles -/

/-- `_Holder`. Times are seconds of `time.monotonic`. -/
structure Holder where
  primitive : AsyncioLock := {}
  expiresAt : ℚ := 0

def Holder.leaseExpired (holder : Holder) (now : ℚ) : Bool :=
  holder.primitive.locked && decide (holder.expiresAt ≤ now)

/-- An expired lease ends when the next handle enters. -/
def Holder.reclaim (holder : Holder) (now : ℚ) : Holder :=
  if holder.leaseExpired now then
    { holder with primitive := holder.primitive.release.getD holder.primitive }
  else holder

/-- `_InProcessLock`, with the key of its holder. `leaseEnds` is when the lease of its own
    acquisition ends; the code writes that to the holder only. -/
structure InProcessLock where
  key : String
  ttlMs : ℤ
  waitTimeoutMs : ℤ
  acquired : Bool := false
  leaseEnds : ℚ := 0

def InProcessLock.Live (handle : InProcessLock) (now : ℚ) : Prop :=
  handle.acquired = true ∧ now < handle.leaseEnds

/-- `InMemoryDistributedLock`, the handles it has given out, and the handle in whose
    `__aenter__` a task waits. -/
structure LockPort where
  now : ℚ := 0
  holders : String → Option Holder := fun _ => none
  handles : ℕ → Option InProcessLock := fun _ => none
  entering : ℕ → Option ℕ := fun _ => none

inductive LockEvent where
  | lock (h : ℕ) (key : String) (ttlMs waitTimeoutMs : ℤ)
  | enter (task h : ℕ)
  /-- The task is cancelled, by `wait_for` at its timeout or by somebody else. -/
  | interrupt (task : ℕ)
  | resume (task : ℕ)
  | exit (h : ℕ)
  | tick (seconds : ℚ)

namespace LockPort

def holder (s : LockPort) (key : String) : Holder :=
  (s.holders key).getD {}

def write (s : LockPort) (key : String) (x : Holder) (h : ℕ) (handle : InProcessLock) :
    LockPort :=
  { s with
    holders := Function.update s.holders key (some x)
    handles := Function.update s.handles h (some handle) }

/-- The last lines of `__aenter__`, where the task has the primitive. -/
def grant (s : LockPort) (primitive : AsyncioLock) (h : ℕ) (handle : InProcessLock) : LockPort :=
  let expiresAt := s.now + handle.ttlMs / 1000
  s.write handle.key ⟨primitive, expiresAt⟩ h
    { handle with acquired := true, leaseEnds := expiresAt }

/-- `__aenter__` up to its await. -/
def enter (s : LockPort) (task h : ℕ) (handle : InProcessLock) : LockPort :=
  let holder := (s.holder handle.key).reclaim s.now
  if handle.waitTimeoutMs ≤ 0 ∧ holder.primitive.locked = true then
    s.write handle.key holder h handle
  else
    match holder.primitive.acquire task with
    | (true, primitive) => s.grant primitive h handle
    | (false, primitive) =>
      { s.write handle.key { holder with primitive } h handle with
        entering := Function.update s.entering task (some h) }

/-- `__aexit__`. -/
def exit (s : LockPort) (h : ℕ) (handle : InProcessLock) : LockPort :=
  if handle.acquired then
    let holder := s.holder handle.key
    -- nothing tells whose lock it is by now
    let primitive :=
      if holder.primitive.locked then holder.primitive.release.getD holder.primitive
      else holder.primitive
    s.write handle.key { holder with primitive } h { handle with acquired := false }
  else s

def step (s : LockPort) : LockEvent → Option LockPort
  | .lock h key ttlMs waitTimeoutMs =>
    match s.handles h with
    | none => some (s.write key (s.holder key) h { key, ttlMs, waitTimeoutMs })
    | some _ => none
  | .enter task h =>
    match s.entering task, s.handles h with
    | none, some handle => some (s.enter task h handle)
    | _, _ => none
  | .interrupt task =>
    match (s.entering task).bind s.handles, s.entering task with
    | some handle, some h =>
      let holder := s.holder handle.key
      some (s.write handle.key { holder with primitive := holder.primitive.interrupt task } h
        handle)
    | _, _ => none
  | .resume task =>
    match (s.entering task).bind s.handles, s.entering task with
    | some handle, some h =>
      let left : LockPort := { s with entering := Function.update s.entering task none }
      let holder := s.holder handle.key
      match holder.primitive.resume task with
      | none => none
      | some (true, primitive) => some (left.grant primitive h handle)
      -- a timeout returns the handle as it is, a cancellation nothing at all
      | some (false, primitive) => some (left.write handle.key { holder with primitive } h handle)
    | _, _ => none
  | .exit h => (s.handles h).map (s.exit h)
  | .tick seconds => if 0 ≤ seconds then some { s with now := s.now + seconds } else none

/-- The lock as it is when the process starts. -/
def machine : Machine LockPort LockEvent := ⟨{}, step⟩

/-! ## Mutual exclusion -/

/-- Handle `h` of the key was given the lock, has not exited, and is inside its lease. -/
def Live (s : LockPort) (key : String) (h : ℕ) : Prop :=
  ∃ handle, s.handles h = some handle ∧ handle.key = key ∧ handle.Live s.now

instance (s : LockPort) (key : String) (h : ℕ) : Decidable (s.Live key h) :=
  match hhandle : s.handles h with
  | none => isFalse fun ⟨_, hfound, _⟩ => by simp [hhandle] at hfound
  | some handle =>
    decidable_of_iff (handle.key = key ∧ handle.acquired = true ∧ s.now < handle.leaseEnds)
      ⟨fun hlive => ⟨handle, hhandle, hlive⟩, fun ⟨found, hfound, hlive⟩ => by
        rwa [Option.some.inj (hhandle.symm.trans hfound)]⟩

/-- A live handle has the lock of its key, and is the only one. -/
structure Exclusive (s : LockPort) : Prop where
  unique : ∀ key h h', s.Live key h → s.Live key h' → h = h'
  locked : ∀ key h, s.Live key h → (s.holder key).primitive.locked = true

/-- No handle that has not exited does so while another one of its key is live. -/
def Courteous (s : LockPort) (event : LockEvent) : Prop :=
  ∀ h handle, event = .exit h → s.handles h = some handle → handle.acquired = true →
    ∀ h', s.Live handle.key h' → h' = h

/-- The primitive serves the live handles of the key, whose leases it has. -/
structure Kept (s : LockPort) (key : String) : Prop where
  owned : (s.holder key).primitive.Owned (s.Live key)
  lease : ∀ h handle, s.handles h = some handle → handle.key = key → handle.Live s.now →
    handle.leaseEnds ≤ (s.holder key).expiresAt

variable {s s' : LockPort} {key key' : String} {x : Holder} {h j : ℕ} {handle : InProcessLock}

@[simp] theorem holder_write_self : (s.write key x h handle).holder key = x := by
  simp [holder, write]

@[simp] theorem holder_write_of_ne (hkey : key' ≠ key) :
    (s.write key x h handle).holder key' = s.holder key' := by
  simp [holder, write, hkey]

@[simp] theorem handles_write_self : (s.write key x h handle).handles h = some handle := by
  simp [write]

@[simp] theorem handles_write_of_ne (hj : j ≠ h) :
    (s.write key x h handle).handles j = s.handles j := by
  simp [write, hj]

/-- A live handle after a write is the one written, or was live before. -/
theorem live_of_write (hlive : (s.write key x h handle).Live key' j) :
    (j = h ∧ handle.key = key' ∧ handle.Live s.now) ∨ (j ≠ h ∧ s.Live key' j) := by
  obtain ⟨found, hfound, hkey, hlive⟩ := hlive
  by_cases hj : j = h
  · subst hj
    obtain rfl := Option.some.inj (handles_write_self.symm.trans hfound)
    exact .inl ⟨rfl, hkey, hlive⟩
  · rw [handles_write_of_ne hj] at hfound
    exact .inr ⟨hj, found, hfound, hkey, hlive⟩

/-- A write concerns its own key only. -/
theorem Kept.of_write_ne (hkept : s.Kept key') (hkey : key' ≠ key) (hhandle : handle.key = key) :
    (s.write key x h handle).Kept key' := by
  have hlive : ∀ j, (s.write key x h handle).Live key' j → j ≠ h ∧ s.Live key' j := by
    intro j hj
    rcases live_of_write hj with ⟨-, hk, -⟩ | hj
    · exact absurd (hk.symm.trans hhandle) hkey
    · exact hj
  constructor
  · rw [holder_write_of_ne hkey]
    exact hkept.owned.mono fun j hj => (hlive j hj).2
  · intro j found hfound hk hl
    have hj := (hlive j ⟨found, hfound, hk, hl⟩).1
    rw [handles_write_of_ne hj] at hfound
    rw [holder_write_of_ne hkey]
    exact hkept.lease j found hfound hk hl

/-- A write that gives nobody a lease keeps the ones there are. -/
theorem Kept.of_write (hkept : s.Kept key)
    (howned : x.primitive.Owned ((s.write key x h handle).Live key))
    (hexpires : x.expiresAt = (s.holder key).expiresAt)
    (hsame : handle.Live s.now → s.handles h = some handle) :
    (s.write key x h handle).Kept key := by
  constructor
  · rw [holder_write_self]
    exact howned
  · intro j found hfound hk hl
    rw [holder_write_self, hexpires]
    by_cases hj : j = h
    · subst hj
      obtain rfl := Option.some.inj (handles_write_self.symm.trans hfound)
      exact hkept.lease j handle (hsame hl) hk hl
    · rw [handles_write_of_ne hj] at hfound
      exact hkept.lease j found hfound hk hl

/-- The lock is given to a handle while no other is live. -/
theorem Kept.of_grant {primitive : AsyncioLock} (hnone : ∀ j, ¬ s.Live handle.key j)
    (howned : primitive.Owned (· = h)) : (s.grant primitive h handle).Kept handle.key := by
  have hlive : ∀ j, (s.grant primitive h handle).Live handle.key j → j = h := by
    intro j hj
    rcases live_of_write hj with ⟨hj, -⟩ | ⟨-, hj⟩
    · exact hj
    · exact absurd hj (hnone j)
  constructor
  · rw [grant, holder_write_self]
    exact howned.mono hlive
  · intro j found hfound hk hl
    obtain rfl := hlive j ⟨found, hfound, hk, hl⟩
    obtain rfl := Option.some.inj (handles_write_self.symm.trans hfound)
    rw [grant, holder_write_self]

/-! ## Steps -/

theorem Kept.entering (hkept : s.Kept key) (entering : ℕ → Option ℕ) :
    ({ s with entering } : LockPort).Kept key :=
  ⟨hkept.owned, hkept.lease⟩

/-- A write that leaves the handle as it is, and the primitive to whoever has it. -/
theorem kept_of_update (hkept : ∀ key, s.Kept key) (hhandle : s.handles h = some handle)
    (howned : x.primitive.Owned (s.Live handle.key))
    (hexpires : x.expiresAt = (s.holder handle.key).expiresAt) (key : String) :
    (s.write handle.key x h handle).Kept key := by
  by_cases hkey : key = handle.key
  · subst hkey
    refine (hkept _).of_write (howned.mono fun j hj => ?_) hexpires fun _ => hhandle
    rcases live_of_write hj with ⟨rfl, -, hl⟩ | ⟨-, hj⟩
    · exact ⟨handle, hhandle, rfl, hl⟩
    · exact hj
  · exact (hkept key).of_write_ne hkey rfl

theorem kept_of_grant {primitive : AsyncioLock} (hkept : ∀ key, s.Kept key)
    (hnone : ∀ j, ¬ s.Live handle.key j) (howned : primitive.Owned (· = h)) (key : String) :
    (s.grant primitive h handle).Kept key := by
  by_cases hkey : key = handle.key
  · subst hkey
    exact Kept.of_grant hnone howned
  · exact (hkept key).of_write_ne hkey rfl

/-- Only a lease that nobody lives on any more is reclaimed. -/
theorem Kept.reclaim (hkept : s.Kept key) :
    ((s.holder key).reclaim s.now).primitive.Owned (s.Live key) ∧
      ((s.holder key).reclaim s.now).expiresAt = (s.holder key).expiresAt := by
  unfold Holder.reclaim
  split
  · rename_i hexpired
    simp only [Holder.leaseExpired, Bool.and_eq_true, decide_eq_true_eq] at hexpired
    have hnone : ∀ j, ¬ s.Live key j := by
      rintro j ⟨handle, hhandle, hkey, hacquired, hlease⟩
      have := hkept.lease j handle hhandle hkey ⟨hacquired, hlease⟩
      exact absurd (hlease.trans_le this) (not_lt.mpr hexpired.2)
    refine ⟨?_, rfl⟩
    cases hrelease : (s.holder key).primitive.release with
    | none => exact hkept.owned
    | some primitive => exact (hkept.owned.release hrelease).mono hnone
  · exact ⟨hkept.owned, rfl⟩

theorem kept_of_enter (hkept : ∀ key, s.Kept key) (task : ℕ)
    (hhandle : s.handles h = some handle) (key : String) :
    (s.enter task h handle).Kept key := by
  obtain ⟨howned, hexpires⟩ := (hkept handle.key).reclaim
  unfold enter
  dsimp only
  split
  · exact kept_of_update hkept hhandle howned hexpires key
  · split
    · rename_i primitive hacquire
      -- at once, or after the reclaim
      obtain ⟨hnone, howned'⟩ := howned.of_acquire hacquire h
      exact kept_of_grant hkept hnone howned' key
    · rename_i primitive hacquire
      apply Kept.entering
      exact kept_of_update (x := { (s.holder handle.key).reclaim s.now with primitive }) hkept
        hhandle (howned.queue hacquire) hexpires key

/-- An exit that meets the guard ends no lease but its own. -/
theorem kept_of_exit (hkept : ∀ key, s.Kept key)
    (hguard : handle.acquired = true → ∀ j, s.Live handle.key j → j = h) (key : String) :
    (s.exit h handle).Kept key := by
  unfold exit
  split
  · rename_i hacquired
    dsimp only
    by_cases hkey : key = handle.key
    · subst hkey
      refine (hkept _).of_write ?_ rfl fun hl => absurd hl.1 (by simp)
      have hnone : ∀ x j, ¬ (s.write handle.key x h { handle with acquired := false }).Live
          handle.key j := by
        intro x j hj
        rcases live_of_write hj with ⟨-, -, hl⟩ | ⟨hne, hj⟩
        · exact absurd hl.1 (by simp)
        · exact hne (hguard hacquired j hj)
      split
      · cases hrelease : (s.holder handle.key).primitive.release with
        | none => exact (hkept _).owned.mono fun j hj => absurd hj (hnone _ j)
        | some primitive => exact ((hkept _).owned.release hrelease).mono (hnone _)
      · exact (hkept _).owned.mono fun j hj => absurd hj (hnone _ j)
    · exact (hkept key).of_write_ne hkey rfl
  · exact hkept key

theorem kept_of_step (s : LockPort) (event : LockEvent) (s' : LockPort)
    (hkept : ∀ key, s.Kept key) (hguard : s.Courteous event) (hstep : s.step event = some s') :
    ∀ key, s'.Kept key := by
  intro key'
  cases event with
  | lock h key ttlMs waitTimeoutMs =>
    simp only [step] at hstep
    split at hstep
    · rename_i hhandle
      obtain rfl := Option.some.inj hstep
      -- a new handle holds nothing, as long as it has not entered
      by_cases hkey : key' = key
      · subst hkey
        refine (hkept _).of_write ((hkept _).owned.mono fun j hj => ?_) rfl fun hl =>
          absurd hl.1 (by simp)
        -- nothing is live that was not before
        rcases live_of_write hj with ⟨-, -, hl⟩ | ⟨-, hj⟩
        · exact absurd hl.1 (by simp)
        · exact hj
      · exact (hkept key').of_write_ne hkey rfl
    · simp at hstep
  | enter task h =>
    simp only [step] at hstep
    split at hstep
    · rename_i handle hentering hhandle
      obtain rfl := Option.some.inj hstep
      exact kept_of_enter hkept task hhandle key'
    · simp at hstep
  | interrupt task =>
    simp only [step] at hstep
    split at hstep
    · rename_i handle h hhandle hentering
      obtain rfl := Option.some.inj hstep
      -- a cancelled waiter leaves the queue
      rw [hentering] at hhandle
      exact kept_of_update (x := { s.holder handle.key with primitive := _ }) hkept hhandle
        ((hkept _).owned.interrupt task) rfl key'
    · simp at hstep
  | resume task =>
    simp only [step] at hstep
    split at hstep
    · rename_i handle h hhandle hentering
      rw [hentering] at hhandle
      have hleft := fun key => (hkept key).entering (Function.update s.entering task none)
      split at hstep
      · simp at hstep
      · rename_i primitive hresume
        obtain rfl := Option.some.inj hstep
        -- its own turn, that it was woken for
        obtain ⟨hnone, howned⟩ := (hkept handle.key).owned.of_resume hresume h
        exact kept_of_grant hleft hnone howned key'
      · -- it was cancelled after it was woken
        rename_i primitive hresume
        obtain rfl := Option.some.inj hstep
        exact kept_of_update (x := { s.holder handle.key with primitive }) hleft hhandle
          ((hkept _).owned.give_up hresume) rfl key'
    · simp at hstep
  | exit h =>
    -- only a lease that is its own is given back
    simp only [step, Option.map_eq_some_iff] at hstep
    obtain ⟨handle, hhandle, rfl⟩ := hstep
    exact kept_of_exit hkept (hguard h handle rfl hhandle) key'
  | tick seconds =>
    simp only [step] at hstep
    split at hstep
    · rename_i hseconds
      obtain rfl := Option.some.inj hstep
      -- a lease that is not over yet was not over before
      have hlive : ∀ handle : InProcessLock, handle.Live (s.now + seconds) → handle.Live s.now :=
        fun handle hl => ⟨hl.1, (le_add_of_nonneg_right hseconds).trans_lt hl.2⟩
      constructor
      · apply (hkept key').owned.mono
        rintro j ⟨handle, hhandle, hkey, hl⟩
        exact ⟨handle, hhandle, hkey, hlive handle hl⟩
      · intro j handle hhandle hkey hl
        exact (hkept key').lease j handle hhandle hkey (hlive handle hl)
    · simp at hstep

theorem kept_start (key : String) : LockPort.Kept {} key where
  owned := by
    apply AsyncioLock.Owned.fresh.mono
    rintro j ⟨handle, hhandle, -⟩
    simp at hhandle
  lease h handle hhandle := by simp at hhandle

theorem Kept.exclusive (hkept : ∀ key, s.Kept key) : s.Exclusive where
  unique key h h' := (hkept key).owned.unique h h'
  locked key h := (hkept key).owned.locked h

/-- What is left of the other's lock after an exit that does not meet the guard. -/
theorem unlocked_of_exit (hacquired : handle.acquired = true) :
    ((s.exit h handle).holder handle.key).primitive.locked = false := by
  rw [exit, if_pos hacquired]
  dsimp only
  rw [holder_write_self]
  split
  · rename_i hlocked
    rw [AsyncioLock.release, if_pos hlocked]
    simp
  · rename_i hlocked
    simpa using hlocked

theorem live_exit_of_ne (hacquired : handle.acquired = true) (hj : j ≠ h)
    (hlive : s.Live key j) : (s.exit h handle).Live key j := by
  obtain ⟨other, hother, hkey, hl⟩ := hlive
  rw [exit, if_pos hacquired]
  exact ⟨other, (handles_write_of_ne hj).trans hother, hkey, hl⟩

/-- Where the locks are with their live handles, a step leaves them there exactly if it meets
    the guard. -/
theorem exclusive_iff_courteous (s : LockPort) (event : LockEvent) (s' : LockPort)
    (hkept : ∀ key, s.Kept key) (hstep : s.step event = some s') :
    s'.Exclusive ↔ s.Courteous event := by
  constructor
  · rintro hexclusive h handle rfl hhandle hacquired j hlive
    simp only [step, hhandle, Option.map_some, Option.some.injEq] at hstep
    subst hstep
    by_contra hj
    have hlocked := hexclusive.locked _ _ (live_exit_of_ne hacquired hj hlive)
    rw [unlocked_of_exit hacquired] at hlocked
    simp at hlocked
  · intro hguard
    exact Kept.exclusive (kept_of_step s event s' hkept hguard hstep)

end LockPort

/-! ## Entering without waiting -/

/-- The lock is held inside its lease, or nobody waits for it. -/
def Holder.Unobstructed (holder : Holder) (now : ℚ) : Prop :=
  holder.primitive.locked = true ∧ now < holder.expiresAt ∨ holder.primitive.Unawaited

instance (holder : Holder) (now : ℚ) : Decidable (holder.Unobstructed now) :=
  inferInstanceAs (Decidable (_ ∧ _ ∨ _))

/-- The answer is there at once: refused by the flag, or given the lock. -/
theorem Holder.answers_iff (holder : Holder) (now : ℚ) (task : ℕ) :
    ((holder.reclaim now).primitive.locked = true ∨
      ((holder.reclaim now).primitive.acquire task).1 = true) ↔ holder.Unobstructed now := by
  unfold Holder.reclaim Holder.Unobstructed
  split
  · -- the reclaim clears the flag, and wakes whoever is the first in the queue
    rename_i hexpired
    simp only [Holder.leaseExpired, Bool.and_eq_true, decide_eq_true_eq] at hexpired
    rw [AsyncioLock.release, if_pos hexpired.1, Option.getD_some, AsyncioLock.acquire_iff,
      AsyncioLock.wakeUpFirst_locked, AsyncioLock.wakeUpFirst_unawaited]
    have hover : ¬now < holder.expiresAt := not_lt.mpr hexpired.2
    simp [hover, AsyncioLock.Unawaited]
  · rename_i hlive
    simp only [Holder.leaseExpired, Bool.and_eq_true, decide_eq_true_eq, not_and,
      not_le] at hlive
    rw [AsyncioLock.acquire_iff]
    cases hlocked : holder.primitive.locked with
    | true => simp [hlive hlocked]
    | false => simp

namespace LockPort

/-- A handle that is not to wait leaves its task waiting exactly where somebody waits already
    for a lock that is free, or whose lease is over. -/
theorem entering_of_enter {s : LockPort} {task h : ℕ} {handle : InProcessLock}
    (hidle : s.entering task = none) (hwait : handle.waitTimeoutMs ≤ 0) :
    (s.enter task h handle).entering task = none ↔
      (s.holder handle.key).Unobstructed s.now := by
  rw [← Holder.answers_iff _ _ task]
  unfold enter
  dsimp only
  split
  · rename_i hrefused
    simp [write, hidle, hrefused.2]
  · rename_i hfree
    have hunlocked : ((s.holder handle.key).reclaim s.now).primitive.locked = false := by
      simpa [hwait] using hfree
    split
    · rename_i hacquire
      simp [grant, write, hidle, hacquire]
    · rename_i hacquire
      simp [hunlocked, hacquire]

end LockPort

end Evenkeel.Infrastructure
