import Mathlib.Algebra.Order.Ring.Rat
import Mathlib.Logic.Function.Basic
import Mathlib.Tactic.Linarith
import Evenkeel.Effects.Machine
import Evenkeel.Python.AsyncioLock
import Evenkeel.Infrastructure.Idempotency
import Evenkeel.Infrastructure.KeySet

/-!
# The Key Cache

`JwksCache.get`, called by any number of tasks. A call runs from one of its two awaits to the
next without being interrupted: the lock, and the fetch.

- `Issuer.step`: what one event does
- `Issuer.Accounted`: the invariant, which relates the fields of the cache to the fetches
- `Issuer.Decides`: the call that an event gives the lock to

## Key Results

- `accounted_of_step`: every step keeps the invariant
- `answered_of_step`: how an event can come to answer a call
-/

namespace Evenkeel.Infrastructure

open Evenkeel.Application Evenkeel.Effects Evenkeel.Python

structure JwksPolicy where
  ttlSeconds : ℚ := 600
  minRefreshSeconds : ℚ := 30
  maxStaleSeconds : ℚ := 3600

/-- `_unavailable`. -/
def jwksUnavailable : Exn :=
  .application ⟨.dependencyUnavailable, .dependencyUnavailable, [("dependency", .text "jwks")]⟩

/-! ## The cache -/

/-- `JwksCache`. A time is `none` while it is `-math.inf`. -/
structure JwksCache (Key : Type) where
  keys : KeySet Key := fun _ => none
  fetchedAt : Option Instant := none
  lastAttempt : Option Instant := none
  lastAttemptFailed : Bool := false
  lock : AsyncioLock := {}

namespace JwksCache

variable {Key : Type} (policy : JwksPolicy) (cache : JwksCache Key) (now : Instant)

def withLock (lock : AsyncioLock) : JwksCache Key := { cache with lock }

/-- `_age() >= limit`. -/
def older (limit : ℚ) : Bool :=
  match cache.fetchedAt with
  | none => true
  | some t => decide (limit ≤ now - t)

def stale : Bool := cache.older now policy.ttlSeconds

/-- The last attempt was started less than the floor ago. -/
def throttled : Bool :=
  match cache.lastAttempt with
  | none => false
  | some t => decide (now - t < policy.minRefreshSeconds)

def serveWithinGrace (key : Option Key) : Except Exn (Option Key) :=
  match key with
  | none => .error jwksUnavailable
  | some k =>
    if cache.older now policy.maxStaleSeconds then .error jwksUnavailable else .ok (some k)

/-- The key that is served without the lock. -/
def fastPath (kid : String) : Option Key :=
  match cache.keys kid with
  | none => none
  | some k => if !cache.stale policy now || cache.lock.locked then some k else none

/-- What a call does under the lock, up to the fetch: `none` is to refresh. -/
def underLock (kid : String) : Option (Except Exn (Option Key)) :=
  if (cache.keys kid).isSome && !cache.stale policy now then some (.ok (cache.keys kid))
  else if cache.throttled policy now then
    if cache.lastAttemptFailed then some (cache.serveWithinGrace policy now (cache.keys kid))
    else some (.ok (cache.keys kid))
  else none

/-- The rest of `_refresh` and of `get` once the fetch has ended; `key` is the one that was
    cached before. -/
def ended (kid : String) (key : Option Key) (result : Except FetchFault (KeySet Key)) :
    JwksCache Key × Except Exn (Option Key) :=
  match result with
  | .ok keys =>
    ({ cache with keys, fetchedAt := some now, lastAttemptFailed := false }, .ok (keys kid))
  | .error (.caught _) =>
    ({ cache with lastAttemptFailed := true }, cache.serveWithinGrace policy now key)
  -- no `except` clause applies
  | .error (.escaped e) => (cache, .error e)

/-- The end of `async with self._lock`, which raises if the lock is not acquired. -/
def leave (result : Except Exn (Option Key)) : JwksCache Key × Except Exn (Option Key) :=
  match cache.lock.release with
  | some lock => (cache.withLock lock, result)
  | none => (cache, .error (.other "RuntimeError"))

/-! ### Inversion -/

variable {policy}

theorem serveWithinGrace_ok {cache : JwksCache Key} {now : Instant} {key key' : Option Key}
    (h : cache.serveWithinGrace policy now key = .ok key') :
    key' = key ∧ key.isSome ∧ cache.older now policy.maxStaleSeconds = false := by
  unfold JwksCache.serveWithinGrace at h
  split at h
  · simp at h
  · split at h
    · simp at h
    · rename_i holder
      exact ⟨(Except.ok.inj h).symm, rfl, by simpa using holder⟩

/-- What is served under the lock is what is cached. -/
theorem underLock_ok {now : Instant} {cache : JwksCache Key} {kid : String} {key : Option Key}
    (h : cache.underLock policy now kid = some (.ok key)) :
    key = cache.keys kid ∧ (cache.stale policy now = false ∨
      cache.older now policy.maxStaleSeconds = false ∨
      cache.throttled policy now = true ∧ cache.lastAttemptFailed = false) := by
  unfold JwksCache.underLock at h
  split at h
  · rename_i hfresh
    simp only [Bool.and_eq_true, Bool.not_eq_true'] at hfresh
    exact ⟨(Except.ok.inj (Option.some.inj h)).symm, .inl hfresh.2⟩
  · split at h
    · rename_i hthrottled
      split at h
      · obtain ⟨hkey, -, holder⟩ := serveWithinGrace_ok (Option.some.inj h)
        exact ⟨hkey, .inr (.inl holder)⟩
      · rename_i hfailed
        exact ⟨(Except.ok.inj (Option.some.inj h)).symm,
          .inr (.inr ⟨hthrottled, by simpa using hfailed⟩)⟩
    · simp at h

theorem serveWithinGrace_error {cache : JwksCache Key} {now : Instant} {key : Option Key} {e : Exn}
    (h : cache.serveWithinGrace policy now key = .error e) : e = jwksUnavailable := by
  unfold JwksCache.serveWithinGrace at h
  split at h
  · simpa using h.symm
  · split at h
    · simpa using h.symm
    · simp at h

/-- Nothing else is raised under the lock. -/
theorem underLock_error {now : Instant} {cache : JwksCache Key} {kid : String} {e : Exn}
    (h : cache.underLock policy now kid = some (.error e)) : e = jwksUnavailable := by
  unfold JwksCache.underLock at h
  split at h
  · simp at h
  · split at h
    · split at h
      · exact serveWithinGrace_error (Option.some.inj h)
      · simp at h
    · simp at h

end JwksCache

/-! ## Calls -/

/-- A call of `get`. One that fetches has the key that was cached when it got the lock. -/
inductive Get (Key : Type) where
  | idle
  | waiting (kid : String)
  | fetching (kid : String) (key : Option Key)
  | done (kid : String) (result : Except Exn (Option Key))

/-- A fetch, for the record: the code does not keep it. -/
structure Fetch (Key : Type) where
  caller : ℕ
  startedAt : Instant
  ended : Option (Except FetchFault (KeySet Key)) := none

/-- The cache, the calls, and what an observer has seen: the fetches, the last one started
    first, and the key set that was fetched last, with its time. -/
structure Issuer (Key : Type) where
  now : Instant := 0
  cache : JwksCache Key := {}
  calls : ℕ → Get Key := fun _ => .idle
  fetches : List (Fetch Key) := []
  published : Option (KeySet Key × Instant) := none

inductive JwksEvent where
  | get (i : ℕ) (kid : String)
  | interrupt (i : ℕ)
  /-- A call that waits for the lock is run again. -/
  | resume (i : ℕ)
  /-- The issuer's response to the fetch of a call. -/
  | respond (i : ℕ) (status : ℕ) (segments : List (List UInt8))
  /-- There is none: an error of the client, or the call is cancelled. -/
  | fault (i : ℕ) (fault : FetchFault)
  | tick (seconds : ℚ)

namespace Issuer

variable {Key : Type} (policy : JwksPolicy) (py : Interpreter) (jwt : PyJwt Key)

def put (w : Issuer Key) (cache : JwksCache Key) (i : ℕ) (call : Get Key) : Issuer Key :=
  { w with cache, calls := Function.update w.calls i call }

/-- `_refresh` up to its await, by the call that has the lock. -/
def startFetch (w : Issuer Key) (cache : JwksCache Key) (i : ℕ) (kid : String) : Issuer Key :=
  { w.put { cache with lastAttempt := some w.now } i (.fetching kid (cache.keys kid)) with
    fetches := ⟨i, w.now, none⟩ :: w.fetches }

/-- A call that has just been given the lock, up to the fetch. -/
def enter (w : Issuer Key) (i : ℕ) (kid : String) (lock : AsyncioLock) : Issuer Key :=
  let cache := w.cache.withLock lock
  match cache.underLock policy w.now kid with
  | some result => w.put (cache.leave result).1 i (.done kid (cache.leave result).2)
  | none => w.startFetch cache i kid

/-- How the fetch of a call ended. -/
def record (w : Issuer Key) (i : ℕ) (result : Except FetchFault (KeySet Key)) : Issuer Key :=
  { w with
    fetches := w.fetches.map fun f => if f.caller = i then { f with ended := some result } else f
    published :=
      match result with
      | .ok keys => some (keys, w.now)
      | .error _ => w.published }

/-- The fetch of a call has ended. -/
def settle (w : Issuer Key) (i : ℕ) (kid : String) (key : Option Key)
    (result : Except FetchFault (KeySet Key)) : Issuer Key :=
  let ended := w.cache.ended policy w.now kid key result
  (w.record i result).put (ended.1.leave ended.2).1 i (.done kid (ended.1.leave ended.2).2)

def step (w : Issuer Key) : JwksEvent → Option (Issuer Key)
  | .get i kid =>
    match w.calls i with
    | .idle =>
      match w.cache.fastPath policy w.now kid with
      | some key => some (w.put w.cache i (.done kid (.ok (some key))))
      | none =>
        match w.cache.lock.acquire i with
        | (true, lock) => some (w.enter policy i kid lock)
        | (false, lock) => some (w.put (w.cache.withLock lock) i (.waiting kid))
    | _ => none
  | .interrupt i =>
    match w.calls i with
    | .waiting kid => some (w.put (w.cache.withLock (w.cache.lock.interrupt i)) i (.waiting kid))
    | _ => none
  | .resume i =>
    match w.calls i with
    | .waiting kid =>
      match w.cache.lock.resume i with
      | none => none
      | some (true, lock) => some (w.enter policy i kid lock)
      | some (false, lock) => some (w.put (w.cache.withLock lock) i (.done kid (.error .cancelled)))
    | _ => none
  | .respond i status segments =>
    match w.calls i with
    | .fetching kid key => some (w.settle policy i kid key (fetch jwt py status segments))
    | _ => none
  | .fault i fault =>
    match w.calls i with
    | .fetching kid key => some (w.settle policy i kid key (.error fault))
    | _ => none
  | .tick seconds => if 0 ≤ seconds then some { w with now := w.now + seconds } else none

/-- The cache as it is when the process starts. -/
def machine : Machine (Issuer Key) JwksEvent := ⟨{}, step policy py jwt⟩

/-! ## The invariant -/

def Fetching (w : Issuer Key) (i : ℕ) : Prop :=
  ∃ kid key, w.calls i = .fetching kid key

/-- What the fields say of the last fetch. If it was abandoned, they say nothing: what
    `lastAttemptFailed` has is left from the fetch before. -/
def Attempts (w : Issuer Key) : Prop :=
  match w.fetches with
  | [] => w.cache.lastAttempt = none
  | f :: rest =>
    w.cache.lastAttempt = some f.startedAt ∧ (∀ g ∈ rest, g.startedAt ≤ f.startedAt) ∧
      match f.ended with
      | none => w.Fetching f.caller
      | some (.ok keys) =>
        w.cache.keys = keys ∧ w.cache.lastAttemptFailed = false ∧
          ∃ t, w.cache.fetchedAt = some t ∧ f.startedAt ≤ t
      | some (.error (.caught _)) => w.cache.lastAttemptFailed = true
      | some (.error (.escaped _)) => True

structure Accounted (w : Issuer Key) : Prop where
  owned : w.cache.lock.Owned w.Fetching
  captured : ∀ i kid key, w.calls i = .fetching kid key → key = w.cache.keys kid
  flight : ∀ i, w.Fetching i → ∃ f rest, w.fetches = f :: rest ∧ f.caller = i ∧ f.ended = none
  attempts : w.Attempts
  published :
    (w.published = none ∧ w.cache.fetchedAt = none ∧ w.cache.keys = fun _ => none) ∨
      ∃ t, w.published = some (w.cache.keys, t) ∧ w.cache.fetchedAt = some t
  past : (∀ t, w.cache.lastAttempt = some t → t ≤ w.now) ∧
    ∀ t, w.cache.fetchedAt = some t → t ≤ w.now
  spaced : (w.fetches.map (·.startedAt)).Pairwise fun later earlier =>
    policy.minRefreshSeconds ≤ later - earlier

variable {policy} {py} {jwt} {w w' : Issuer Key} {i j : ℕ} {kid : String} {lock : AsyncioLock}

@[simp] theorem put_calls_self {cache : JwksCache Key} {call : Get Key} :
    (w.put cache i call).calls i = call := by
  simp [put]

@[simp] theorem put_calls_of_ne {cache : JwksCache Key} {call : Get Key} (hj : j ≠ i) :
    (w.put cache i call).calls j = w.calls j := by
  simp [put, hj]

theorem fetching_put_of_not {call : Get Key} (hcall : ∀ kid key, call ≠ .fetching kid key)
    (hi : ¬ w.Fetching i) {cache : JwksCache Key} :
    (w.put cache i call).Fetching j ↔ w.Fetching j := by
  by_cases hj : j = i
  · subst hj
    constructor
    · intro h
      obtain ⟨kid, key, h⟩ := h
      rw [put_calls_self] at h
      exact absurd h (hcall kid key)
    · intro h
      exact absurd h hi
  · simp [Fetching, hj]

theorem Attempts.of_put (h : w.Attempts) {call : Get Key}
    (hcall : ∀ kid key, call ≠ .fetching kid key) (hi : ¬ w.Fetching i) :
    (w.put (w.cache.withLock lock) i call).Attempts := by
  unfold Attempts at h ⊢
  simp only [put, JwksCache.withLock]
  split
  · rename_i hnone
    simpa only [hnone] using h
  · rename_i f rest hsome
    simp only [hsome] at h
    refine ⟨h.1, h.2.1, ?_⟩
    have hended := h.2.2
    split
    · rename_i hnone
      simp only [hnone] at hended
      exact (fetching_put_of_not hcall hi).mpr hended
    · rename_i hok
      simpa only [hok] using hended
    · rename_i hcaught
      simpa only [hcaught] using hended
    · trivial

/-- A step that touches nothing but the lock and a call that does not fetch. -/
theorem Accounted.of_lock (h : w.Accounted policy) {call : Get Key}
    (hcall : ∀ kid key, call ≠ .fetching kid key) (hi : ¬ w.Fetching i)
    (howned : lock.Owned w.Fetching) :
    (w.put (w.cache.withLock lock) i call).Accounted policy := by
  have hfetching : ∀ j, (w.put (w.cache.withLock lock) i call).Fetching j ↔ w.Fetching j :=
    fun j => fetching_put_of_not hcall hi
  refine ⟨howned.mono fun j hj => (hfetching j).mp hj, ?_,
    fun j hj => h.flight j ((hfetching j).mp hj), h.attempts.of_put hcall hi, h.published,
    h.past, h.spaced⟩
  intro j kid key hj
  have hne : j ≠ i := by
    intro hji
    subst hji
    exact hi ((hfetching j).mp ⟨kid, key, hj⟩)
  rw [put_calls_of_ne hne] at hj
  exact h.captured j kid key hj

/-- Whoever holds the lock can give it back. -/
theorem leave_of_locked {cache : JwksCache Key} (h : cache.lock.locked = true)
    (result : Except Exn (Option Key)) : ∃ lock, cache.lock.release = some lock ∧
      cache.leave result = (cache.withLock lock, result) := by
  obtain ⟨lock, hlock⟩ : ∃ lock, cache.lock.release = some lock := by
    simp [AsyncioLock.release, h]
  exact ⟨lock, hlock, by simp only [JwksCache.leave, hlock]⟩

/-- Every fetch so far was started at the last attempt, or before. -/
theorem Accounted.startedAt_le (h : w.Accounted policy) {f : Fetch Key} (hf : f ∈ w.fetches) :
    ∃ t, w.cache.lastAttempt = some t ∧ f.startedAt ≤ t ∧ t ≤ w.now := by
  have hattempts := h.attempts
  unfold Attempts at hattempts
  split at hattempts
  · rename_i hnone
    simp [hnone] at hf
  · rename_i g rest hsome
    refine ⟨g.startedAt, hattempts.1, ?_, h.past.1 _ hattempts.1⟩
    rcases List.mem_cons.mp (hsome ▸ hf) with rfl | hf
    · exact le_refl _
    · exact hattempts.2.1 f hf

/-- A fetch is started by nobody but the call that has the lock, the floor after the last. -/
theorem Accounted.of_startFetch (h : w.Accounted policy) (hnone : ∀ j, ¬ w.Fetching j)
    (howned : lock.Owned (· = i))
    (hfloor : ∀ t, w.cache.lastAttempt = some t → policy.minRefreshSeconds ≤ w.now - t) :
    (w.startFetch (w.cache.withLock lock) i kid).Accounted policy := by
  -- nobody else fetches
  have hfetching : ∀ j, (w.startFetch (w.cache.withLock lock) i kid).Fetching j → j = i := by
    intro j hj
    by_contra hne
    simp only [Fetching, startFetch, put, Function.update_of_ne hne] at hj
    exact hnone j hj
  have hi : (w.startFetch (w.cache.withLock lock) i kid).calls i =
      .fetching kid (w.cache.keys kid) := by
    simp [startFetch, put, JwksCache.withLock]
  refine ⟨howned.mono hfetching, ?_, ?_, ?_, h.published, ?_, ?_⟩
  · -- the key that is fetched anew was taken from the cache as it is
    intro j kid' key hj
    obtain rfl := hfetching j ⟨kid', key, hj⟩
    rw [hi] at hj
    simp only [Get.fetching.injEq] at hj
    obtain ⟨rfl, rfl⟩ := hj
    rfl
  · -- the fetch is the latest one, and has not ended
    intro j hj
    exact ⟨⟨i, w.now, none⟩, w.fetches, rfl, (hfetching j hj).symm, rfl⟩
  · -- the last attempt is this one
    refine ⟨rfl, ?_, ⟨_, _, hi⟩⟩
    intro g hg
    obtain ⟨t, -, hle, hnow⟩ := h.startedAt_le hg
    exact hle.trans hnow
  · -- it is not in the future
    refine ⟨?_, h.past.2⟩
    intro t ht
    obtain rfl := Option.some.inj ht
    exact le_refl _
  · -- and the floor lies between it and those before
    simp only [startFetch, List.map_cons, List.pairwise_cons, List.mem_map]
    refine ⟨?_, h.spaced⟩
    intro t ht
    obtain ⟨g, hg, rfl⟩ := ht
    obtain ⟨t, hlast, hle, -⟩ := h.startedAt_le hg
    have := hfloor t hlast
    linarith

theorem not_throttled {cache : JwksCache Key} {now : Instant}
    (h : cache.underLock policy now kid = none) :
    ∀ t, cache.lastAttempt = some t → policy.minRefreshSeconds ≤ now - t := by
  intro t ht
  unfold JwksCache.underLock at h
  split at h
  · simp at h
  · split at h
    · split at h <;> simp at h
    · rename_i hthrottled
      simpa [JwksCache.throttled, ht] using hthrottled

theorem Accounted.of_enter (h : w.Accounted policy) (hnone : ∀ j, ¬ w.Fetching j)
    (howned : lock.Owned (· = i)) : (w.enter policy i kid lock).Accounted policy := by
  unfold enter
  dsimp only
  split
  · rename_i result _
    obtain ⟨lock', hrelease, hleave⟩ := leave_of_locked
      (show (w.cache.withLock lock).lock.locked = true from howned.locked i rfl) result
    rw [hleave]
    apply h.of_lock (by simp) (hnone i)
    exact (howned.release hrelease).mono hnone
  · rename_i hrefresh
    exact h.of_startFetch hnone howned (not_throttled hrefresh)

/-- The fields that the end of a fetch leaves as they are. -/
theorem ended_fields (cache : JwksCache Key) (now : Instant) (kid : String) (key : Option Key)
    (result : Except FetchFault (KeySet Key)) :
    (cache.ended policy now kid key result).1.lock = cache.lock ∧
      (cache.ended policy now kid key result).1.lastAttempt = cache.lastAttempt := by
  unfold JwksCache.ended
  split <;> exact ⟨rfl, rfl⟩

theorem record_startedAt (w : Issuer Key) (i : ℕ) (result : Except FetchFault (KeySet Key)) :
    (w.record i result).fetches.map (·.startedAt) = w.fetches.map (·.startedAt) := by
  simp only [record, List.map_map]
  apply List.map_congr_left
  intro f _
  simp only [Function.comp_apply]
  split <;> rfl

theorem record_head {f : Fetch Key} {rest : List (Fetch Key)} (hfetches : w.fetches = f :: rest)
    (result : Except FetchFault (KeySet Key)) : ∃ rest',
      (w.record f.caller result).fetches = { f with ended := some result } :: rest' := by
  simp only [record, hfetches, List.map_cons, if_true]
  exact ⟨_, rfl⟩

/-- What the end of a fetch leaves of the cache, with the lock given back. -/
theorem settle_eq (h : w.Accounted policy) {key : Option Key}
    (hi : w.calls i = .fetching kid key) (result : Except FetchFault (KeySet Key)) :
    ∃ lock, lock.Owned (fun _ : ℕ => False) ∧
      w.settle policy i kid key result =
        (w.record i result).put ((w.cache.ended policy w.now kid key result).1.withLock lock) i
          (.done kid (w.cache.ended policy w.now kid key result).2) := by
  have hlocked : (w.cache.ended policy w.now kid key result).1.lock.locked = true := by
    rw [(ended_fields _ _ _ _ _).1]
    exact h.owned.locked i ⟨kid, key, hi⟩
  obtain ⟨lock, hrelease, hleave⟩ :=
    leave_of_locked hlocked (w.cache.ended policy w.now kid key result).2
  refine ⟨lock, ?_, ?_⟩
  · rw [(ended_fields _ _ _ _ _).1] at hrelease
    exact h.owned.release hrelease
  · simp only [settle, record, hleave]

theorem Accounted.of_settle (h : w.Accounted policy) {key : Option Key}
    (hi : w.calls i = .fetching kid key) (result : Except FetchFault (KeySet Key)) :
    (w.settle policy i kid key result).Accounted policy := by
  obtain ⟨lock, howned, hsettle⟩ := settle_eq h hi result
  -- the fetch that is settled is the last one
  obtain ⟨f, rest, hfetches, rfl, -⟩ := h.flight i ⟨kid, key, hi⟩
  rw [hsettle]
  -- the one call that was fetching is done
  have hnone : ∀ j, ¬ ((w.record f.caller result).put
      ((w.cache.ended policy w.now kid key result).1.withLock lock) f.caller
      (.done kid (w.cache.ended policy w.now kid key result).2)).Fetching j := by
    intro j hj
    by_cases hne : j = f.caller
    · subst hne
      simp [Fetching, put] at hj
    · simp only [Fetching, put, Function.update_of_ne hne] at hj
      exact hne (h.owned.unique j f.caller hj ⟨kid, key, hi⟩)
  have hlast := h.attempts
  simp only [Attempts, hfetches] at hlast
  obtain ⟨hlast, hrest, -⟩ := hlast
  refine ⟨howned.mono hnone, fun j kid' key' hj => absurd ⟨kid', key', hj⟩ (hnone j),
    fun j hj => absurd hj (hnone j), ?_, ?_, ?_, ?_⟩
  · -- the fields say what the fetch has come to
    simp only [Attempts, put, record, hfetches, List.map_cons, if_true, JwksCache.withLock,
      (ended_fields _ _ _ _ _).2, hlast, true_and, List.mem_map, forall_exists_index, and_imp]
    refine ⟨?_, ?_⟩
    · rintro g g' hg' rfl
      split <;> exact hrest g' hg'
    · -- the refresh failed or did not, as the cache says
      cases result with
      | ok keys => exact ⟨rfl, rfl, w.now, rfl, h.past.1 _ hlast⟩
      | error e =>
        cases e with
        | caught => rfl
        | escaped => trivial
  · -- a document takes the place of the one before
    cases result with
    | ok keys => exact .inr ⟨w.now, rfl, rfl⟩
    | error e =>
      cases e with
      | caught => exact h.published
      | escaped => exact h.published
  · -- neither time is in the future
    refine ⟨?_, ?_⟩
    · simp only [put, record, JwksCache.withLock, (ended_fields _ _ _ _ _).2]
      exact h.past.1
    · cases result with
      | ok keys =>
        intro t ht
        obtain rfl := Option.some.inj ht
        exact le_refl _
      | error e =>
        cases e with
        | caught => exact h.past.2
        | escaped => exact h.past.2
  · -- when it started has not changed
    have hspaced := h.spaced
    rw [← record_startedAt w f.caller result] at hspaced
    exact hspaced

theorem accounted_start : Accounted policy ({} : Issuer Key) where
  owned := AsyncioLock.Owned.fresh.mono fun i hi => by
    obtain ⟨kid, key, hi⟩ := hi
    simp at hi
  captured i kid key hi := by simp at hi
  flight i hi := by
    obtain ⟨kid, key, hi⟩ := hi
    simp at hi
  attempts := rfl
  published := .inl ⟨rfl, rfl, rfl⟩
  past := ⟨fun t ht => by simp at ht, fun t ht => by simp at ht⟩
  spaced := List.Pairwise.nil

/-- Every step keeps the invariant, whatever the policy. -/
theorem accounted_of_step (w : Issuer Key) (event : JwksEvent) (w' : Issuer Key)
    (h : w.Accounted policy) (hstep : w.step policy py jwt event = some w') :
    w'.Accounted policy := by
  cases event with
  | get i kid =>
    simp only [step] at hstep
    split at hstep
    · rename_i hidle
      have hi : ¬ w.Fetching i := by simp [Fetching, hidle]
      -- the fast path leaves the lock alone
      split at hstep
      · obtain rfl := Option.some.inj hstep
        exact h.of_lock (by simp) hi h.owned
      · -- otherwise the lock is taken or the call queues for it
        split at hstep
        · rename_i lock hacquire
          obtain rfl := Option.some.inj hstep
          obtain ⟨hnone, howned⟩ := h.owned.of_acquire hacquire i
          exact h.of_enter hnone howned
        · rename_i lock hacquire
          obtain rfl := Option.some.inj hstep
          exact h.of_lock (by simp) hi (h.owned.queue hacquire)
    · simp at hstep
  | interrupt i =>
    -- a cancelled waiter
    simp only [step] at hstep
    split at hstep
    · rename_i kid hwaiting
      obtain rfl := Option.some.inj hstep
      exact h.of_lock (by simp) (by simp [Fetching, hwaiting]) (h.owned.interrupt i)
    · simp at hstep
  | resume i =>
    simp only [step] at hstep
    split at hstep
    · rename_i kid hwaiting
      -- the lock comes to the waiter, unless it was cancelled
      split at hstep
      · simp at hstep
      · rename_i lock hresume
        obtain rfl := Option.some.inj hstep
        obtain ⟨hnone, howned⟩ := h.owned.of_resume hresume i
        exact h.of_enter hnone howned
      · rename_i lock hresume
        obtain rfl := Option.some.inj hstep
        exact h.of_lock (by simp) (by simp [Fetching, hwaiting]) (h.owned.give_up hresume)
    · simp at hstep
  | respond i status segments =>
    -- a fetch ends, with a response or a fault
    simp only [step] at hstep
    split at hstep
    · rename_i kid key hi
      obtain rfl := Option.some.inj hstep
      exact h.of_settle hi _
    · simp at hstep
  | fault i fault =>
    simp only [step] at hstep
    split at hstep
    · rename_i kid key hi
      obtain rfl := Option.some.inj hstep
      exact h.of_settle hi _
    · simp at hstep
  | tick seconds =>
    -- all the times lie further back
    simp only [step] at hstep
    split at hstep
    · rename_i hseconds
      obtain rfl := Option.some.inj hstep
      refine ⟨h.owned, h.captured, h.flight, h.attempts, h.published, ?_, h.spaced⟩
      constructor
      · intro t ht
        exact (h.past.1 t ht).trans (le_add_of_nonneg_right hseconds)
      · intro t ht
        exact (h.past.2 t ht).trans (le_add_of_nonneg_right hseconds)
    · simp at hstep

theorem accounted_of_run {t : List (Transition (Issuer Key) JwksEvent)}
    (hrun : (machine policy py jwt).Run t w) : w.Accounted policy :=
  hrun.invariant (G := fun _ _ => True) accounted_start
    (fun w event w' h _ hstep => accounted_of_step w event w' h hstep) fun _ _ => trivial

/-! ## Abandoned fetches -/

/-- The step gives call `i` its answer. -/
def Answers (τ : Transition (Issuer Key) JwksEvent) (i : ℕ) (kid : String)
    (result : Except Exn (Option Key)) : Prop :=
  (∀ kid result, τ.before.calls i ≠ .done kid result) ∧ τ.after.calls i = .done kid result

variable (policy) in
/-- The event gives call `i`, for `kid`, the lock. -/
def Decides (w : Issuer Key) (event : JwksEvent) (i : ℕ) (kid : String) : Prop :=
  match event with
  | .get j id => j = i ∧ id = kid ∧ w.calls i = .idle ∧
      w.cache.fastPath policy w.now kid = none ∧ (w.cache.lock.acquire i).1 = true
  | .resume j => j = i ∧ w.calls i = .waiting kid ∧
      ∃ lock, w.cache.lock.resume i = some (true, lock)
  | _ => False

/-- What an answer that comes without a fetch leaves as it is. -/
structure Unfetched (w w' : Issuer Key) : Prop where
  now : w'.now = w.now
  keys : w'.cache.keys = w.cache.keys
  fetches : w'.fetches = w.fetches
  published : w'.published = w.published

/-- How an answer has come about. -/
inductive Answered (policy : JwksPolicy) (py : Interpreter) (jwt : PyJwt Key) (w w' : Issuer Key)
    (event : JwksEvent) (i : ℕ) (kid : String) : Except Exn (Option Key) → Prop where
  | fast {key : Key} (hevent : event = .get i kid)
      (hkey : w.cache.fastPath policy w.now kid = some key) (hsame : w.Unfetched w') :
      Answered policy py jwt w w' event i kid (.ok (some key))
  | locked {result : Except Exn (Option Key)} (hdecides : w.Decides policy event i kid)
      (hresult : w.cache.underLock policy w.now kid = some result) (hsame : w.Unfetched w') :
      Answered policy py jwt w w' event i kid result
  | cancelled : Answered policy py jwt w w' event i kid (.error .cancelled)
  | fetched {key : Option Key} {result : Except FetchFault (KeySet Key)}
      (hfetching : w.calls i = .fetching kid key) (hw' : w' = w.settle policy i kid key result)
      (hevent : (∃ status segments, event = .respond i status segments ∧
        result = fetch jwt py status segments) ∨ ∃ fault, event = .fault i fault ∧
        result = .error fault) :
      Answered policy py jwt w w' event i kid (w.cache.ended policy w.now kid key result).2

theorem enter_of_some {result : Except Exn (Option Key)} (howned : lock.Owned (· = i))
    (hresult : w.cache.underLock policy w.now kid = some result) :
    (w.enter policy i kid lock).calls i = .done kid result ∧
      w.Unfetched (w.enter policy i kid lock) := by
  have hunder : (w.cache.withLock lock).underLock policy w.now kid = some result := hresult
  obtain ⟨lock', -, hleave⟩ := leave_of_locked
    (show (w.cache.withLock lock).lock.locked = true from howned.locked i rfl) result
  simp only [enter, hunder, hleave]
  exact ⟨by simp [put], rfl, rfl, rfl, rfl⟩

theorem enter_of_none (hresult : w.cache.underLock policy w.now kid = none) :
    (w.enter policy i kid lock).calls i = .fetching kid (w.cache.keys kid) := by
  have hunder : (w.cache.withLock lock).underLock policy w.now kid = none := hresult
  simp only [enter, hunder]
  simp [startFetch, put, JwksCache.withLock]

theorem enter_of_ne (hj : j ≠ i) : (w.enter policy i kid lock).calls j = w.calls j := by
  unfold enter
  dsimp only
  split <;> simp [startFetch, put, hj]

/-- The call that is given the lock is answered with what it finds there. -/
theorem Decides.answers (h : w.Accounted policy) {event : JwksEvent}
    (hdecides : w.Decides policy event i kid) (hstep : w.step policy py jwt event = some w')
    {result : Except Exn (Option Key)}
    (hresult : w.cache.underLock policy w.now kid = some result) :
    Answers ⟨w, event, w'⟩ i kid result ∧ w.Unfetched w' := by
  cases event with
  | get j id =>
    obtain ⟨rfl, rfl, hidle, hfast, hacquire⟩ := hdecides
    rcases hlock : w.cache.lock.acquire j with ⟨acquired, lock⟩
    rw [hlock] at hacquire
    dsimp only at hacquire
    subst hacquire
    simp only [step, hidle, hfast, hlock, Option.some.injEq] at hstep
    subst hstep
    have henter := enter_of_some (h.owned.of_acquire hlock j).2 hresult
    exact ⟨⟨by simp [hidle], henter.1⟩, henter.2⟩
  | resume j =>
    obtain ⟨rfl, hwaiting, lock, hlock⟩ := hdecides
    simp only [step, hwaiting, hlock, Option.some.injEq] at hstep
    subst hstep
    have henter := enter_of_some (h.owned.of_resume hlock j).2 hresult
    exact ⟨⟨by simp [hwaiting], henter.1⟩, henter.2⟩
  | _ => exact absurd hdecides id

/-- A call that is served without the lock is. -/
theorem answers_of_fastPath {key : Key} (hidle : w.calls i = .idle)
    (hkey : w.cache.fastPath policy w.now kid = some key)
    (hstep : w.step policy py jwt (.get i kid) = some w') :
    Answers ⟨w, .get i kid, w'⟩ i kid (.ok (some key)) ∧ w.Unfetched w' := by
  simp only [step, hidle, hkey, Option.some.injEq] at hstep
  subst hstep
  exact ⟨⟨by simp [hidle], by simp [put]⟩, rfl, rfl, rfl, rfl⟩

theorem answered_of_step (h : w.Accounted policy) {event : JwksEvent}
    (hstep : w.step policy py jwt event = some w') {result : Except Exn (Option Key)}
    (hanswers : Answers ⟨w, event, w'⟩ i kid result) :
    Answered policy py jwt w w' event i kid result := by
  obtain ⟨hbefore, hafter⟩ := hanswers
  dsimp only at hbefore hafter
  -- a call that another one's step concerns is not answered
  have hself : ∀ j (cache : JwksCache Key) call, w' = w.put cache j call → j = i := by
    intro j cache call hw'
    by_contra hj
    rw [hw', put_calls_of_ne (Ne.symm hj)] at hafter
    exact hbefore _ _ hafter
  -- nor does the end of a fetch answer another call
  have hsettle : ∀ j id key r, w' = w.settle policy j id key r → j = i := by
    intro j id key r hw'
    by_contra hj
    rw [hw'] at hafter
    simp only [settle, put, record, Function.update_of_ne (Ne.symm hj)] at hafter
    exact hbefore _ _ hafter
  -- nor does entering the lock
  have henter : ∀ j id lock, w' = w.enter policy j id lock → j = i := by
    intro j id lock hw'
    by_contra hj
    rw [hw', enter_of_ne (Ne.symm hj)] at hafter
    exact hbefore _ _ hafter
  cases event with
  | get j id =>
    simp only [step] at hstep
    split at hstep
    · rename_i hidle
      -- the fast path, before any lock
      split at hstep
      · rename_i key hkey
        obtain rfl := Option.some.inj hstep
        obtain rfl := hself _ _ _ rfl
        simp only [put_calls_self, Get.done.injEq] at hafter
        obtain ⟨rfl, rfl⟩ := hafter
        exact .fast rfl hkey ⟨rfl, rfl, rfl, rfl⟩
      · rename_i hfast
        -- under the lock, the cache is asked again
        split at hstep
        · rename_i lock hacquire
          obtain rfl := Option.some.inj hstep
          obtain rfl := henter _ _ _ rfl
          -- it may have no answer, and a fetch begins
          cases hresult : w.cache.underLock policy w.now id with
          | none =>
            rw [enter_of_none hresult] at hafter
            cases hafter
          | some found =>
            obtain ⟨hdone, hsame⟩ := enter_of_some (h.owned.of_acquire hacquire j).2 hresult
            rw [hdone] at hafter
            cases hafter
            exact .locked ⟨rfl, rfl, hidle, hfast, by rw [hacquire]⟩ hresult hsame
        · -- the call queues, and is not answered
          obtain rfl := Option.some.inj hstep
          obtain rfl := hself _ _ _ rfl
          simp at hafter
    · simp at hstep
  | interrupt j =>
    simp only [step] at hstep
    split at hstep
    · obtain rfl := Option.some.inj hstep
      obtain rfl := hself _ _ _ rfl
      simp at hafter
    · simp at hstep
  | resume j =>
    simp only [step] at hstep
    split at hstep
    · rename_i id hwaiting
      split at hstep
      · simp at hstep
      · rename_i lock hresume
        obtain rfl := Option.some.inj hstep
        obtain rfl := henter _ _ _ rfl
        -- woken with the lock, it asks the cache again
        cases hresult : w.cache.underLock policy w.now id with
        | none =>
          rw [enter_of_none hresult] at hafter
          cases hafter
        | some found =>
          obtain ⟨hdone, hsame⟩ := enter_of_some (h.owned.of_resume hresume j).2 hresult
          rw [hdone] at hafter
          cases hafter
          exact .locked ⟨rfl, hwaiting, lock, hresume⟩ hresult hsame
      · -- woken without it, it was cancelled
        obtain rfl := Option.some.inj hstep
        obtain rfl := hself _ _ _ rfl
        simp only [put_calls_self, Get.done.injEq] at hafter
        obtain ⟨rfl, rfl⟩ := hafter
        exact .cancelled
    · simp at hstep
  | respond j status segments =>
    simp only [step] at hstep
    split at hstep
    · rename_i id key hfetching
      obtain rfl := Option.some.inj hstep
      obtain rfl := hsettle _ _ _ _ rfl
      -- the answer is decided by the outcome of the fetch
      obtain ⟨lock, -, heq⟩ := settle_eq h hfetching (fetch jwt py status segments)
      rw [heq] at hafter
      simp only [put_calls_self, Get.done.injEq] at hafter
      obtain ⟨rfl, rfl⟩ := hafter
      exact .fetched hfetching rfl (.inl ⟨status, segments, rfl, rfl⟩)
    · simp at hstep
  | fault j fault =>
    simp only [step] at hstep
    split at hstep
    · rename_i id key hfetching
      obtain rfl := Option.some.inj hstep
      obtain rfl := hsettle _ _ _ _ rfl
      obtain ⟨lock, -, heq⟩ := settle_eq h hfetching (.error fault)
      rw [heq] at hafter
      simp only [put_calls_self, Get.done.injEq] at hafter
      obtain ⟨rfl, rfl⟩ := hafter
      exact .fetched hfetching rfl (.inr ⟨fault, rfl, rfl⟩)
    · simp at hstep
  | tick seconds =>
    simp only [step] at hstep
    split at hstep
    · obtain rfl := Option.some.inj hstep
      exact absurd hafter (hbefore _ _)
    · simp at hstep

/-! ## Publications -/

/-- The event is a response whose key set is fetched. -/
def Publishes (py : Interpreter) (jwt : PyJwt Key) (event : JwksEvent) (keys : KeySet Key) :
    Prop :=
  ∃ i status segments, event = .respond i status segments ∧
    fetch jwt py status segments = .ok keys

/-- The key set that was fetched last, after one more event. -/
def publish (py : Interpreter) (jwt : PyJwt Key) (found : Option (KeySet Key)) :
    JwksEvent → Option (KeySet Key)
  | .respond _ status segments =>
    match fetch jwt py status segments with
    | .ok keys => some keys
    | .error _ => found
  | _ => found

/-- The key set that was fetched last in a run. -/
def latest (py : Interpreter) (jwt : PyJwt Key) (t : List (Transition (Issuer Key) JwksEvent)) :
    Option (KeySet Key) :=
  t.foldl (fun found τ => publish py jwt found τ.event) none

variable {found : Option (KeySet Key)} {keys : KeySet Key} {event : JwksEvent}
  {t : List (Transition (Issuer Key) JwksEvent)}

theorem publish_of_publishes (h : Publishes py jwt event keys) :
    publish py jwt found event = some keys := by
  obtain ⟨i, status, segments, rfl, hfetch⟩ := h
  simp only [publish, hfetch]

theorem publish_of_not (h : ∀ keys, ¬ Publishes py jwt event keys) :
    publish py jwt found event = found := by
  unfold publish
  split
  · rename_i i status segments
    cases hfetch : fetch jwt py status segments with
    | ok keys => exact absurd ⟨i, status, segments, rfl, hfetch⟩ (h keys)
    | error e => rfl
  · rfl

/-- A key set that was fetched last was fetched. -/
theorem publishes_of_latest (h : latest py jwt t = some keys) :
    ∃ τ ∈ t, Publishes py jwt τ.event keys := by
  induction t using List.reverseRecOn with
  | nil => simp [latest] at h
  | append_singleton t τ ih =>
    by_cases hτ : ∃ keys, Publishes py jwt τ.event keys
    · obtain ⟨keys', hkeys'⟩ := hτ
      simp only [latest, List.foldl_append, List.foldl_cons, List.foldl_nil,
        publish_of_publishes hkeys', Option.some.injEq] at h
      exact ⟨τ, by simp, h ▸ hkeys'⟩
    · simp only [latest, List.foldl_append, List.foldl_cons, List.foldl_nil,
        publish_of_not (not_exists.mp hτ)] at h
      obtain ⟨σ, hσ, hpublishes⟩ := ih h
      exact ⟨σ, List.mem_append_left _ hσ, hpublishes⟩

/-- Nothing is fetched in the second part of a run: the first part tells what was. -/
theorem latest_append {u : List (Transition (Issuer Key) JwksEvent)}
    (h : ∀ τ ∈ u, ∀ keys, ¬ Publishes py jwt τ.event keys) :
    latest py jwt (t ++ u) = latest py jwt t := by
  induction u using List.reverseRecOn with
  | nil => simp
  | append_singleton u τ ih =>
    have hτ := h τ (by simp)
    rw [← List.append_assoc, latest, List.foldl_append, List.foldl_cons, List.foldl_nil,
      publish_of_not hτ]
    exact ih fun σ hσ => h σ (List.mem_append_left _ hσ)

theorem enter_published : (w.enter policy i kid lock).published = w.published := by
  unfold enter
  dsimp only
  split <;> rfl

/-- The record of what was published is kept as the events have it. -/
theorem published_of_step (hstep : w.step policy py jwt event = some w') :
    w'.published.map Prod.fst = publish py jwt (w.published.map Prod.fst) event := by
  cases event with
  | get i kid =>
    simp only [step] at hstep
    split at hstep
    · -- the fast path publishes nothing
      split at hstep
      · obtain rfl := Option.some.inj hstep
        rfl
      · split at hstep
        · obtain rfl := Option.some.inj hstep
          rw [enter_published]
          rfl
        · obtain rfl := Option.some.inj hstep
          rfl
    · simp at hstep
  | interrupt i =>
    simp only [step] at hstep
    split at hstep
    · obtain rfl := Option.some.inj hstep
      rfl
    · simp at hstep
  | resume i =>
    simp only [step] at hstep
    split at hstep
    · split at hstep
      · simp at hstep
      · obtain rfl := Option.some.inj hstep
        rw [enter_published]
        rfl
      · obtain rfl := Option.some.inj hstep
        rfl
    · simp at hstep
  | respond i status segments =>
    simp only [step] at hstep
    split at hstep
    · obtain rfl := Option.some.inj hstep
      -- a response is published if it holds a document
      simp only [settle, put, record, publish]
      split <;> rfl
    · simp at hstep
  | fault i fault =>
    simp only [step] at hstep
    split at hstep
    · obtain rfl := Option.some.inj hstep
      rfl
    · simp at hstep
  | tick seconds =>
    simp only [step] at hstep
    split at hstep
    · obtain rfl := Option.some.inj hstep
      rfl
    · simp at hstep

theorem published_eq_latest (hrun : (machine policy py jwt).Run t w) :
    w.published.map Prod.fst = latest py jwt t := by
  induction hrun with
  | nil => rfl
  | snoc _ hstep ih =>
    rw [published_of_step hstep, ih, latest, latest, List.foldl_append]
    rfl

/-- A key is served from the key set that is cached as it is served. -/
theorem served_is_cached (h : w.Accounted policy) (hstep : w.step policy py jwt event = some w')
    {key : Key} (hanswers : Answers ⟨w, event, w'⟩ i kid (.ok (some key))) :
    w'.cache.keys kid = some key := by
  generalize hresult : (Except.ok (some key) : Except Exn (Option Key)) = result at hanswers
  cases answered_of_step h hstep hanswers with
  | fast hevent hkey hsame =>
    -- the fast path reads the cache
    obtain rfl := Option.some.inj (Except.ok.inj hresult)
    rw [hsame.keys]
    unfold JwksCache.fastPath at hkey
    split at hkey
    · simp at hkey
    · rename_i k hk
      split at hkey
      · rw [hk, hkey]
      · simp at hkey
  | locked hdecides hfound hsame =>
    -- and so does the path under the lock
    subst hresult
    rw [hsame.keys]
    exact (JwksCache.underLock_ok hfound).1.symm
  | cancelled => simp at hresult
  | @fetched held outcome hfetching hw' hevent =>
    obtain ⟨lock, -, heq⟩ := settle_eq h hfetching outcome
    rw [hw', heq]
    cases outcome with
    -- the answer is that of the document, which the cache has now
    | ok keys => exact (Except.ok.inj hresult).symm
    | error e =>
      cases e with
      | caught e =>
        -- the key from before the fetch: nobody else has fetched meanwhile
        obtain rfl := h.captured i kid held hfetching
        exact (JwksCache.serveWithinGrace_ok hresult.symm).1.symm
      | escaped e => simp [JwksCache.ended] at hresult

end Issuer

end Evenkeel.Infrastructure
