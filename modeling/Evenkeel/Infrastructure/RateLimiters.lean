import Evenkeel.Effects.Machine
import Evenkeel.Infrastructure.Idempotency
import Evenkeel.Redis.Counter

/-!
# Rate Limiters

`InMemoryRateLimiter` and `RedisRateLimiter`: a counter for each key in a fixed window, side
by side under one policy. The in-memory limiter refuses before it counts, the other one
counts before it refuses; the one has its window in float seconds, the other in milliseconds.

- `Windows.consume`, `consumeScript`, `consumeRedis`: the two `consume`s
- `Limiters.machine`: both, on the same calls and the same clock
- `Alike`: whether a call has the same answer from both
- `InStep`: whether a call finds a window in both or in neither
- `InOrder`: whether a call that would fit is not counted out by refused ones

## Key Results

- `related_of_step`: as long as calls are in step, the windows of the two begin together
- `alike_iff_inOrder`: the answers to a call agree exactly if it is in order
-/

namespace Evenkeel.Infrastructure

open Evenkeel.Application Evenkeel.Effects Evenkeel.Python Evenkeel.Redis

/-! ## In memory -/

/-- `_windows`: when the window of a key began, and what has been used in it. -/
abbrev Windows : Type := String → Option (Binary64 × ℤ)

def compositeKey (policy : RateLimitPolicy) (key : String) : String :=
  policy.name ++ ":" ++ key

/-- The window that a call finds: the one there is, unless it is over. -/
def Windows.current (windows : Windows) (now : Binary64) (key : String)
    (policy : RateLimitPolicy) : Binary64 × ℤ :=
  let (startedAt, used) := (windows (compositeKey policy key)).getD (now, 0)
  if policy.windowSeconds ≤ now - startedAt then (now, 0) else (startedAt, used)

/-- `InMemoryRateLimiter.consume`. -/
def Windows.consume (windows : Windows) (now : Binary64) (key : String)
    (policy : RateLimitPolicy) (cost : ℤ) : RateLimitDecision × Windows :=
  let (startedAt, used) := windows.current now key policy
  if policy.limit < used + cost then
    (⟨false, max 0 (policy.limit - used), max 0 (policy.windowSeconds - (now - startedAt))⟩,
      Function.update windows (compositeKey policy key) (some (startedAt, used)))
  else
    (⟨true, max 0 (policy.limit - (used + cost)), 0⟩,
      Function.update windows (compositeKey policy key) (some (startedAt, used + cost)))

/-! ## On Redis -/

def limiterKey (policy : RateLimitPolicy) (key : String) : String :=
  "rl:" ++ policy.name ++ ":" ++ key

/-- `_CONSUME_SCRIPT`. The reply is missing if a command in it raised; what was done before
    that stays done. -/
def consumeScript (db : Keyspace ℤ Millis) (now : Millis) (key : String) (cost windowMs : ℤ) :
    Option (ℤ × ℤ) × Keyspace ℤ Millis :=
  let db := db.purge now
  match db.incrBy key cost with
  | none => (none, db)
  | some (current, db) =>
    if luaNumber current = luaNumber cost then
      if fitsInt64 (now + windowMs) then
        let db := db.pexpire key (now + windowMs)
        (some (luaNumber current, luaNumber (db.pttl key now)), db)
      else (none, db)
    else (some (luaNumber current, luaNumber (db.pttl key now)), db)

/-- `int(policy.window_seconds * 1000)`. -/
def windowMs (policy : RateLimitPolicy) : ℤ := (policy.windowSeconds * 1000).trunc

/-- A number of milliseconds, in seconds. -/
def seconds (ms : Millis) : Binary64 := .ofRat ((ms : ℚ) / 1000)

/-- `RedisRateLimiter.consume`. -/
def consumeRedis (db : Keyspace ℤ Millis) (now : Millis) (key : String) (policy : RateLimitPolicy)
    (cost : ℤ) : Except Exn RateLimitDecision × Keyspace ℤ Millis :=
  -- `int` of an infinity
  if (policy.windowSeconds * 1000).Overflows then (.error overflowError, db)
  else
    match consumeScript db now (limiterKey policy key) cost (windowMs policy) with
    | (none, db) => (.error (dependencyUnavailable "redis" "rate_limit.consume"), db)
    | (some (current, ttlMs), db) =>
      let retryAfter : Binary64 := if 0 < ttlMs then max 0 (seconds ttlMs) else 0
      if policy.limit < current then (.ok ⟨false, 0, retryAfter⟩, db)
      else (.ok ⟨true, max 0 (policy.limit - current), 0⟩, db)

/-! ## Side by side -/

/-- Both limiters, and the time of the last call in milliseconds. -/
structure Limiters where
  now : Millis := 0
  windows : Windows := fun _ => none
  db : Keyspace ℤ Millis := fun _ => none

/-- A call of `consume`, at a time. -/
structure Consume where
  key : String
  cost : ℤ
  now : Millis

namespace Limiters

variable (policy : RateLimitPolicy)

def step (s : Limiters) (call : Consume) : Option Limiters :=
  if s.now ≤ call.now ∧ 1 ≤ call.cost then
    some ⟨call.now, (s.windows.consume (seconds call.now) call.key policy call.cost).2,
      (consumeRedis s.db call.now call.key policy call.cost).2⟩
  else none

def machine : Machine Limiters Consume := ⟨{}, step policy⟩

/-- What is used of the key's window, and what has been asked for in it. -/
def used (s : Limiters) (call : Consume) : ℤ :=
  (s.windows.current (seconds call.now) call.key policy).2

def asked (s : Limiters) (call : Consume) : ℤ :=
  ((s.db.purge call.now).get (limiterKey policy call.key)).getD 0

/-- Both limiters answer, and they allow the same. -/
def Alike (s : Limiters) (call : Consume) : Prop :=
  ∃ decision, (consumeRedis s.db call.now call.key policy call.cost).1 = .ok decision ∧
    decision.allowed =
      (s.windows.consume (seconds call.now) call.key policy call.cost).1.allowed

instance (s : Limiters) (call : Consume) : Decidable (s.Alike policy call) :=
  match h : (consumeRedis s.db call.now call.key policy call.cost).1 with
  | .error _ => .isFalse (by rintro ⟨_, hok, -⟩; cases h.symm.trans hok)
  | .ok decision => decidable_of_iff (decision.allowed =
      (s.windows.consume (seconds call.now) call.key policy call.cost).1.allowed)
      ⟨fun hsame => ⟨decision, h, hsame⟩,
        by rintro ⟨_, hok, hsame⟩; rwa [Except.ok.inj (h.symm.trans hok)]⟩

/-- Redis can hold what has been asked for, and Lua has it as it is. -/
def Countable (s : Limiters) (call : Consume) : Prop :=
  ¬ (policy.windowSeconds * 1000).Overflows ∧
    fitsInt64 (s.asked policy call + call.cost) = true ∧
    fitsInt64 (call.now + windowMs policy) = true ∧
    luaNumber call.cost = call.cost ∧
    luaNumber (s.asked policy call + call.cost) = s.asked policy call + call.cost

instance (s : Limiters) (call : Consume) : Decidable (s.Countable policy call) :=
  inferInstanceAs (Decidable (_ ∧ _))

/-- The key has a window in memory that is not over. -/
def lasting (s : Limiters) (call : Consume) : Bool :=
  (s.windows (compositeKey policy call.key)).any fun (startedAt, _) =>
    seconds call.now - startedAt < policy.windowSeconds

/-- The key's window is over in memory if it is on Redis, and only then. -/
def InStep (s : Limiters) (call : Consume) : Prop :=
  s.lasting policy call = (s.db.purge call.now (limiterKey policy call.key)).isSome

instance (s : Limiters) (call : Consume) : Decidable (s.InStep policy call) :=
  inferInstanceAs (Decidable (_ = _))

/-- A call that fits into what is left fits also if refused calls are counted. -/
def InOrder (s : Limiters) (call : Consume) : Prop :=
  s.used policy call + call.cost ≤ policy.limit → s.asked policy call + call.cost ≤ policy.limit

instance (s : Limiters) (call : Consume) : Decidable (s.InOrder policy call) :=
  inferInstanceAs (Decidable (_ → _))

variable {policy} {s s' : Limiters} {call : Consume}

/-! ### One call -/

theorem compositeKey_injective {k k' : String}
    (h : compositeKey policy k = compositeKey policy k') : k = k' := by
  have hchars := congrArg String.toList h
  simp only [compositeKey, String.toList_append] at hchars
  exact String.toList_injective (List.append_cancel_left hchars)

theorem limiterKey_injective {k k' : String} (h : limiterKey policy k = limiterKey policy k') :
    k = k' := by
  have hchars := congrArg String.toList h
  simp only [limiterKey, String.toList_append] at hchars
  exact String.toList_injective (List.append_cancel_left hchars)

/-- The in-memory limiter counts what it allows. -/
theorem consume_eq (policy : RateLimitPolicy) (windows : Windows) (now : Binary64)
    (key : String) (cost : ℤ) :
    (windows.consume now key policy cost).1.allowed =
        decide ((windows.current now key policy).2 + cost ≤ policy.limit) ∧
      (windows.consume now key policy cost).2 =
        Function.update windows (compositeKey policy key)
          (some ((windows.current now key policy).1,
            if (windows.current now key policy).2 + cost ≤ policy.limit
            then (windows.current now key policy).2 + cost
            else (windows.current now key policy).2)) := by
  by_cases hfits : (windows.current now key policy).2 + cost ≤ policy.limit
  · simp [Windows.consume, hfits, not_lt.mpr hfits]
  · simp [Windows.consume, hfits, not_le.mp hfits]

/-- The Redis limiter counts what is asked for, and begins a window with the first call. -/
theorem consumeRedis_eq (hasked : 0 ≤ s.asked policy call) (hcost : 1 ≤ call.cost)
    (hcountable : s.Countable policy call) :
    (∃ decision, (consumeRedis s.db call.now call.key policy call.cost).1 = .ok decision ∧
      decision.allowed = decide (s.asked policy call + call.cost ≤ policy.limit)) ∧
    (consumeRedis s.db call.now call.key policy call.cost).2 =
      if s.asked policy call = 0 then
        ((s.db.purge call.now).put (limiterKey policy call.key)
          (s.asked policy call + call.cost)).pexpire (limiterKey policy call.key)
            (call.now + windowMs policy)
      else (s.db.purge call.now).put (limiterKey policy call.key)
        (s.asked policy call + call.cost) := by
  obtain ⟨hfinite, htotal, hfits, hluaCost, hluaTotal⟩ := hcountable
  -- the counter can hold the sum
  have hincr : (s.db.purge call.now).incrBy (limiterKey policy call.key) call.cost =
      some (s.asked policy call + call.cost, (s.db.purge call.now).put
        (limiterKey policy call.key) (s.asked policy call + call.cost)) := by
    apply if_pos
    refine Bool.and_eq_true_iff.mpr ⟨?_, htotal⟩
    simp only [fitsInt64, decide_eq_true_eq] at htotal ⊢
    omega
  unfold consumeRedis consumeScript
  rw [if_neg hfinite]
  simp only [hincr, hluaCost, hluaTotal]
  by_cases hfirst : s.asked policy call = 0
  · -- the first call of a window sets its end
    simp only [hfits, hfirst, zero_add, if_true]
    by_cases hlimit : policy.limit < call.cost
    · simp [hlimit]
    · simp [hlimit, not_lt.mp hlimit]
  · -- a later one only counts
    have hmore : s.asked policy call + call.cost ≠ call.cost := by omega
    simp only [hmore, hfirst, if_false]
    by_cases hlimit : policy.limit < s.asked policy call + call.cost
    · simp [hlimit]
    · simp [hlimit, not_lt.mp hlimit]

/-! ### The two together -/

/-- The windows of a key begin together, and what is used has been asked for. A window that is
    over is still in memory when Redis has dropped it. -/
def Window (policy : RateLimitPolicy) (s : Limiters) (key : String) : Prop :=
  (s.windows (compositeKey policy key) = none ∧ s.db (limiterKey policy key) = none) ∨
    ∃ (startedAt : Millis) (used total : ℤ),
      s.windows (compositeKey policy key) = some (seconds startedAt, used) ∧ used ≤ total ∧
        0 < total ∧
        (s.db (limiterKey policy key) = some ⟨total, some (startedAt + windowMs policy)⟩ ∨
          s.db (limiterKey policy key) = none)

def Related (policy : RateLimitPolicy) (s : Limiters) : Prop := ∀ key, Window policy s key

/-- A call that is in step finds no window at all, or the same one in both. -/
theorem Related.current (hrelated : Related policy s) (hinstep : s.InStep policy call) :
    (s.windows.current (seconds call.now) call.key policy = (seconds call.now, 0) ∧
      s.db.purge call.now (limiterKey policy call.key) = none) ∨
    ∃ (startedAt : Millis) (used total : ℤ),
      s.windows.current (seconds call.now) call.key policy = (seconds startedAt, used) ∧
        s.db.purge call.now (limiterKey policy call.key) =
          some ⟨total, some (startedAt + windowMs policy)⟩ ∧ used ≤ total ∧ 0 < total := by
  unfold InStep lasting at hinstep
  rcases hrelated call.key with ⟨hnone, hdb⟩ | ⟨startedAt, used, total, hsome, hused, hpos, hdb⟩
  · left
    exact ⟨by simp [Windows.current, hnone], Keyspace.purge_of_none hdb⟩
  · simp only [hsome, Option.any_some] at hinstep
    by_cases hopen : seconds call.now - seconds startedAt < policy.windowSeconds
    · -- Redis still has the key, which is that of the same window
      right
      rw [decide_eq_true hopen] at hinstep
      obtain ⟨cell, hcell⟩ := Option.isSome_iff_exists.mp hinstep.symm
      refine ⟨startedAt, used, total, ?_, ?_, hused, hpos⟩
      · simp [Windows.current, hsome, not_le.mpr hopen]
      · rcases hdb with hdb | hdb
        · obtain ⟨hstored, -⟩ := Keyspace.purge_eq_some_iff.mp hcell
          rw [hcell, ← hstored, hdb]
        · rw [Keyspace.purge_of_none hdb] at hcell
          cases hcell
    · left
      rw [decide_eq_false hopen] at hinstep
      refine ⟨?_, Option.isNone_iff_eq_none.mp (by rw [← Option.not_isSome, ← hinstep]; rfl)⟩
      simp [Windows.current, hsome, not_lt.mp hopen]

theorem of_step (hstep : s.step policy call = some s') :
    s.now ≤ call.now ∧ 1 ≤ call.cost ∧ s' = ⟨call.now,
      (s.windows.consume (seconds call.now) call.key policy call.cost).2,
      (consumeRedis s.db call.now call.key policy call.cost).2⟩ := by
  unfold step at hstep
  split at hstep
  · rename_i hcall
    exact ⟨hcall.1, hcall.2, (Option.some.inj hstep).symm⟩
  · cases hstep

/-- Time does to a window what Redis does to its key. -/
theorem Window.purge {key : String} (hwindow : Window policy s key) {windows : Windows}
    {db : Keyspace ℤ Millis}
    (hwindows : windows (compositeKey policy key) = s.windows (compositeKey policy key))
    (hdb : db (limiterKey policy key) = s.db.purge call.now (limiterKey policy key)) :
    Window policy ⟨call.now, windows, db⟩ key := by
  rcases hwindow with ⟨hnone, hmissing⟩ | ⟨startedAt, used, total, hsome, hused, hpos, hkey⟩
  · left
    exact ⟨hwindows.trans hnone, hdb.trans (Keyspace.purge_of_none hmissing)⟩
  · right
    refine ⟨startedAt, used, total, hwindows.trans hsome, hused, hpos, ?_⟩
    rcases hkey with hkey | hmissing
    · by_cases hends : startedAt + windowMs policy ≤ call.now
      · right
        refine hdb.trans (Keyspace.purge_of_elapsed hkey ?_)
        exact Keyspace.elapsed_iff.mpr ⟨_, rfl, hends⟩
      · left
        refine hdb.trans (Keyspace.purge_eq_some_iff.mpr ⟨hkey, ?_⟩)
        simpa [Cell.elapsed] using hends
    · right
      exact hdb.trans (Keyspace.purge_of_none hmissing)

theorem asked_of_none (hnone : s.db.purge call.now (limiterKey policy call.key) = none) :
    s.asked policy call = 0 := by
  simp [asked, Keyspace.get, hnone]

theorem asked_of_some {total : ℤ} {expiresAt : Option Millis}
    (hsome : s.db.purge call.now (limiterKey policy call.key) = some ⟨total, expiresAt⟩) :
    s.asked policy call = total := by
  simp [asked, Keyspace.get, hsome]

/-- What is used stays below what is asked for. -/
theorem counted_le {used total cost limit : ℤ} (hused : used ≤ total) (hcost : 1 ≤ cost) :
    (if used + cost ≤ limit then used + cost else used) ≤ total + cost := by
  by_cases hfits : used + cost ≤ limit
  · rw [if_pos hfits]
    omega
  · rw [if_neg hfits]
    omega

theorem related_of_step (hrelated : Related policy s) (hinstep : s.InStep policy call)
    (hcountable : s.Countable policy call) (hstep : s.step policy call = some s') :
    Related policy s' := by
  obtain ⟨hle, hcost, rfl⟩ := of_step hstep
  obtain ⟨-, hwindows⟩ := consume_eq policy s.windows (seconds call.now) call.key call.cost
  -- what has been asked for is never negative
  have hasked : 0 ≤ s.asked policy call := by
    rcases hrelated.current hinstep with ⟨-, hnone⟩ | ⟨_, _, total, -, hsome, -, hpos⟩
    · rw [asked_of_none hnone]
    · rw [asked_of_some hsome]
      exact hpos.le
  obtain ⟨-, hdb⟩ := consumeRedis_eq hasked hcost hcountable
  intro key
  -- the key of the call, or another
  by_cases hkey : key = call.key
  · subst hkey
    right
    rcases hrelated.current hinstep with ⟨hcurrent, hnone⟩ |
      ⟨startedAt, used, total, hcurrent, hsome, hused, hpos⟩
    · -- a window begins, with the same call in both
      rw [asked_of_none hnone, if_pos rfl] at hdb
      rw [hcurrent] at hwindows
      refine ⟨call.now, _, 0 + call.cost, (congrFun hwindows _).trans (Function.update_self ..),
        counted_le le_rfl hcost, by omega, .inl ?_⟩
      simp [hdb]
    · -- a window goes on in both
      rw [asked_of_some hsome, if_neg hpos.ne'] at hdb
      rw [hcurrent] at hwindows
      refine ⟨startedAt, _, total + call.cost,
        (congrFun hwindows _).trans (Function.update_self ..), counted_le hused hcost, by omega,
        .inl ?_⟩
      simp [hdb, hsome]
  · apply (hrelated key).purge
    · rw [hwindows]
      exact Function.update_of_ne (fun h => hkey (compositeKey_injective h)) ..
    · have hname : limiterKey policy key ≠ limiterKey policy call.key :=
        fun h => hkey (limiterKey_injective h)
      rw [hdb]
      by_cases hfirst : s.asked policy call = 0
      · simp [hfirst, hname]
      · simp [hfirst, hname]

/-- The answers to a call agree exactly if it is in order. -/
theorem alike_iff_inOrder (hrelated : Related policy s) (hinstep : s.InStep policy call)
    (hcountable : s.Countable policy call) (hstep : s.step policy call = some s') :
    s.Alike policy call ↔ s.InOrder policy call := by
  obtain ⟨hle, hcost, -⟩ := of_step hstep
  obtain ⟨hallowed, -⟩ := consume_eq policy s.windows (seconds call.now) call.key call.cost
  -- what is used has been asked for
  have hbounds : 0 ≤ s.asked policy call ∧ s.used policy call ≤ s.asked policy call := by
    rcases hrelated.current hinstep with ⟨hcurrent, hnone⟩ |
      ⟨_, used, total, hcurrent, hsome, hused, hpos⟩
    · rw [asked_of_none hnone, used, hcurrent]
      exact ⟨le_rfl, le_rfl⟩
    · rw [asked_of_some hsome, Limiters.used, hcurrent]
      exact ⟨hpos.le, hused⟩
  obtain ⟨decision, hdecision, hredis⟩ := (consumeRedis_eq hbounds.1 hcost hcountable).1
  constructor
  · -- if they agree, Redis allows what memory allows
    rintro ⟨decision', hdecision', hsame⟩ hfits
    obtain rfl := Except.ok.inj (hdecision.symm.trans hdecision')
    rw [hredis, hallowed, decide_eq_decide] at hsame
    exact hsame.mpr hfits
  · intro horder
    refine ⟨decision, hdecision, ?_⟩
    rw [hredis, hallowed, decide_eq_decide]
    constructor
    · -- what Redis allows, memory allows
      intro htotal
      have hused := hbounds.2
      simp only [used] at hused
      omega
    · intro hfits
      exact horder hfits

end Limiters

end Evenkeel.Infrastructure
