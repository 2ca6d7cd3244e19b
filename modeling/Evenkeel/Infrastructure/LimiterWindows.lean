import Evenkeel.Accounting.FixedWindows
import Evenkeel.Infrastructure.RateLimiters

/-!
# The Windows of the In-Memory Limiter

Sequences of calls of `InMemoryRateLimiter.consume` on any keys, and what they leave of the
windows of each.

- `RateCall`, `RateEntry`: a call; and its decision, with the window that it fell into
- `Windows.after`, `Windows.entries`: a sequence of calls
- `taken`: what was allowed on one key
- `Counting`: the window of a key counts what was allowed in it

## Key Results

- `counting_after`: it always does
- `entries_filter`: the decisions on a key are those of its own calls
- `refused`, `allowed_after`, `over_of_allowed`: a refused call waits for its window to be over
- `succeeds_after`: which window calls leave that are not late
-/

namespace Evenkeel.Infrastructure

open Evenkeel.Accounting Evenkeel.Application Evenkeel.Python

/-- A call of `consume`, at a time of the clock. -/
structure RateCall where
  key : String
  cost : ℤ
  now : Binary64

/-- What became of a call: when the window it fell into had begun, and the decision. -/
structure RateEntry where
  call : RateCall
  start : Binary64
  decision : RateLimitDecision

namespace Windows

variable (policy : RateLimitPolicy)

def after (windows : Windows) (calls : List RateCall) : Windows :=
  calls.foldl (fun w call => (w.consume call.now call.key policy call.cost).2) windows

def entries : Windows → List RateCall → List RateEntry
  | _, [] => []
  | windows, call :: calls =>
    ⟨call, (windows.current call.now call.key policy).1,
      (windows.consume call.now call.key policy call.cost).1⟩ ::
    entries (windows.consume call.now call.key policy call.cost).2 calls

variable {policy} {windows windows' : Windows} {calls : List RateCall} {call : RateCall}
  {key : String}

theorem after_snoc (windows : Windows) (calls : List RateCall) (call : RateCall) :
    windows.after policy (calls ++ [call]) =
      ((windows.after policy calls).consume call.now call.key policy call.cost).2 :=
  List.foldl_concat ..

theorem entries_snoc (windows : Windows) (calls : List RateCall) (call : RateCall) :
    windows.entries policy (calls ++ [call]) = windows.entries policy calls ++
      [⟨call, ((windows.after policy calls).current call.now call.key policy).1,
        ((windows.after policy calls).consume call.now call.key policy call.cost).1⟩] := by
  induction calls generalizing windows with
  | nil => rfl
  | cons first calls ih =>
    exact congrArg (_ :: ·) (ih (windows.consume first.now first.key policy first.cost).2)

/-! ## Keys apart -/

/-- A call leaves the windows of other keys alone. -/
theorem consume_other (windows : Windows) (hkey : call.key ≠ key) :
    (windows.consume call.now call.key policy call.cost).2 (compositeKey policy key) =
      windows (compositeKey policy key) := by
  rw [(Limiters.consume_eq policy windows call.now call.key call.cost).2]
  apply Function.update_of_ne
  exact fun h => hkey (Limiters.compositeKey_injective h).symm

theorem current_congr
    (h : windows (compositeKey policy key) = windows' (compositeKey policy key)) (now : Binary64) :
    windows.current now key policy = windows'.current now key policy := by
  unfold current
  rw [h]

/-- What is decided on a key, and what is left of its window, is up to its own window. -/
theorem consume_congr
    (h : windows (compositeKey policy key) = windows' (compositeKey policy key)) (now : Binary64)
    (cost : ℤ) :
    (windows.consume now key policy cost).1 = (windows'.consume now key policy cost).1 ∧
      (windows.consume now key policy cost).2 (compositeKey policy key) =
        (windows'.consume now key policy cost).2 (compositeKey policy key) := by
  constructor
  · unfold consume
    rw [current_congr h]
    dsimp only
    split_ifs <;> rfl
  · rw [(Limiters.consume_eq policy windows now key cost).2,
      (Limiters.consume_eq policy windows' now key cost).2, current_congr h, Function.update_self,
      Function.update_self]

/-- The decisions on a key are those of its own calls. -/
theorem entries_filter
    (h : windows (compositeKey policy key) = windows' (compositeKey policy key)) :
    (windows.entries policy calls).filter (fun entry => entry.call.key = key) =
      windows'.entries policy (calls.filter fun call => call.key = key) := by
  induction calls generalizing windows windows' with
  | nil => rfl
  | cons call calls ih =>
    rw [entries]
    by_cases hkey : call.key = key
    · subst hkey
      obtain ⟨hdecision, hwindow⟩ := consume_congr h call.now call.cost
      rw [List.filter_cons_of_pos (by simp), List.filter_cons_of_pos (by simp), entries, ih hwindow,
        hdecision, current_congr h]
    · rw [List.filter_cons_of_neg (by simpa using hkey),
        List.filter_cons_of_neg (by simpa using hkey)]
      exact ih ((consume_other windows hkey).trans h)

end Windows

/-! ## What is counted -/

/-- What was allowed on a key, in the order of the calls, at the exact times. -/
def taken (key : String) (log : List RateEntry) : List (Taken ℚ ℤ) :=
  log.filterMap fun entry =>
    if entry.call.key = key ∧ entry.decision.allowed then
      some ⟨entry.start.value, entry.call.now.value, entry.call.cost⟩
    else none

/-- The window of a key counts what was taken in it, and whatever was taken elsewhere was taken
    before it began. On a clock that begins at zero it began late enough, if others did before. -/
structure Counts (policy : RateLimitPolicy) (window : Binary64 × ℤ) (log : List (Taken ℚ ℤ)) :
    Prop where
  used : window.2 = total (fun e => e.start = window.1.value) log
  current : ∀ e ∈ log, e.start = window.1.value →
    Binary64.round (e.now - e.start) < policy.windowSeconds.value
  past : ∀ e ∈ log, e.start = window.1.value ∨ e.now < window.1.value
  late : ∀ e ∈ log, 0 ≤ e.start → e.start < window.1.value → policy.windowSeconds ≤ window.1
  lasting : ∀ e ∈ log, 0 ≤ e.start → ∀ e' ∈ log, e.start < e'.start → e'.start < window.1.value →
    e'.start + policy.windowSeconds.value ≤ window.1.value

/-- What holds of a key at a time, after the calls of a log. -/
structure Counting (policy : RateLimitPolicy) (key : String) (now : Binary64) (windows : Windows)
    (log : List RateEntry) : Prop where
  windowed : Windowed policy.limit (taken key log)
  lasting : (∀ e ∈ taken key log, 0 ≤ e.start) →
    Lasting policy.windowSeconds.value (taken key log)
  fresh : windows (compositeKey policy key) = none → taken key log = []
  counts : ∀ window, windows (compositeKey policy key) = some window →
    window.1 ≤ now ∧ Counts policy window (taken key log)

section

variable {policy : RateLimitPolicy} {key : String} {now : Binary64} {windows : Windows}
  {log : List RateEntry} {call : RateCall}

/-- Nothing was taken in a later window than the current one. -/
theorem Counts.start_le {window : Binary64 × ℤ} {taken : List (Taken ℚ ℤ)}
    (h : Counts policy window taken) (hwindowed : Windowed policy.limit taken) {e : Taken ℚ ℤ}
    (he : e ∈ taken) : e.start ≤ window.1.value := by
  rcases h.past e he with hsame | hbefore
  · exact hsame.le
  · exact (hwindowed.begun e he).trans hbefore.le

/-- A new window, if the last one is over. -/
theorem Counts.renew {window : Binary64 × ℤ} {taken : List (Taken ℚ ℤ)} {t : Binary64}
    (h : Counts policy window taken) (hwindowed : Windowed policy.limit taken)
    (hstart : window.1 ≤ t) (hover : policy.windowSeconds ≤ t - window.1) :
    Counts policy (t, 0) taken := by
  -- whatever was taken in the last window was taken before it was over
  have hpast : ∀ e ∈ taken, e.now < t.value := by
    intro e he
    rcases h.past e he with hsame | hbefore
    · have hopen := h.current e he hsame
      rw [hsame] at hopen
      by_contra hle
      have hlonger : Binary64.round (t.value - window.1.value) ≤
          Binary64.round (e.now - window.1.value) := by
        apply Binary64.round_mono
        linarith [not_lt.mp hle]
      exact absurd (hopen.trans_le (Binary64.le_iff.mp hover)) (not_lt.mpr hlonger)
    · exact hbefore.trans_le hstart
  have hbegun : ∀ e ∈ taken, e.start < t.value := fun e he =>
    (hwindowed.begun e he).trans_lt (hpast e he)
  -- nothing is used of the new window
  constructor
  · refine (total_eq_zero ?_).symm
    intro e he hsame
    exact (hbegun e he).ne (of_decide_eq_true hsame)
  · -- nothing was taken in it
    intro e he hsame
    exact absurd hsame (hbegun e he).ne
  · exact fun e he => .inr (hpast e he)
  · -- it begins when the last one has lasted
    intro e he hnonneg _
    have hzero : 0 ≤ window.1 := by
      rw [Binary64.le_iff, Binary64.value_zero]
      exact hnonneg.trans (h.start_le hwindowed he)
    exact hover.trans (Binary64.sub_le_self hzero)
  · intro e he hnonneg e' he' hlt _
    rcases h.past e' he' with hsame | hbefore
    · -- the window that is over is not the first one, so the difference is exact enough
      rw [hsame] at hlt ⊢
      exact Binary64.add_le_of_le_sub (h.late e he hnonneg hlt) hstart hover
    · have hwithin : e'.start < window.1.value := (hwindowed.begun e' he').trans_lt hbefore
      exact (h.lasting e he hnonneg e' he' hlt hwithin).trans hstart

/-- The window that a call finds is still open, and counts what was taken in it. -/
theorem Counting.current (h : Counting policy key now windows log)
    (hwindow : 0 < policy.windowSeconds) {t : Binary64} (hnow : now ≤ t) :
    (windows.current t key policy).1 ≤ t ∧
      t - (windows.current t key policy).1 < policy.windowSeconds ∧
      Counts policy (windows.current t key policy) (taken key log) := by
  have hnew : t - t < policy.windowSeconds := by rwa [Binary64.self_sub]
  unfold Windows.current
  cases hstored : windows (compositeKey policy key) with
  | none =>
    rw [h.fresh hstored]
    simp only [Option.getD_none, if_neg (not_le.mpr hnew)]
    exact ⟨le_rfl, hnew, rfl, nofun, nofun, nofun, nofun⟩
  | some window =>
    obtain ⟨hstart, hcounts⟩ := h.counts window hstored
    simp only [Option.getD_some]
    by_cases hover : policy.windowSeconds ≤ t - window.1
    · rw [if_pos hover]
      exact ⟨le_rfl, hnew, hcounts.renew h.windowed (hstart.trans hnow) hover⟩
    · rw [if_neg hover]
      exact ⟨hstart.trans hnow, not_le.mp hover, hcounts⟩

theorem taken_snoc (key : String) (log : List RateEntry) (entry : RateEntry) :
    taken key (log ++ [entry]) = taken key log ++
      if entry.call.key = key ∧ entry.decision.allowed then
        [⟨entry.start.value, entry.call.now.value, entry.call.cost⟩]
      else [] := by
  unfold taken
  rw [List.filterMap_append]
  split_ifs with htaken <;> simp [htaken]

/-- One more amount in the current window. -/
theorem Counts.snoc {window : Binary64 × ℤ} {taken : List (Taken ℚ ℤ)} {t : Binary64} {cost : ℤ}
    (h : Counts policy window taken) (hopen : t - window.1 < policy.windowSeconds) :
    Counts policy (window.1, window.2 + cost) (taken ++ [⟨window.1.value, t.value, cost⟩]) := by
  have hcases : ∀ e ∈ taken ++ [⟨window.1.value, t.value, cost⟩],
      e ∈ taken ∨ e = ⟨window.1.value, t.value, cost⟩ := by
    intro e he
    rwa [List.mem_append, List.mem_singleton] at he
  constructor
  · rw [total_append, total_cons, total_nil, if_pos (decide_eq_true rfl), h.used, add_zero]
  · intro e he hsame
    rcases hcases e he with hlog | rfl
    · exact h.current e hlog hsame
    · exact Binary64.lt_iff.mp hopen
  · intro e he
    rcases hcases e he with hlog | rfl
    · exact h.past e hlog
    · exact .inl rfl
  · intro e he hnonneg hlt
    rcases hcases e he with hlog | rfl
    · exact h.late e hlog hnonneg hlt
    · exact absurd hlt (lt_irrefl _)
  · intro e he hnonneg e' he' hlt hlt'
    rcases hcases e' he' with hlog' | rfl
    · rcases hcases e he with hlog | rfl
      · exact h.lasting e hlog hnonneg e' hlog' hlt hlt'
      · exact absurd hlt (not_lt.mpr hlt'.le)
    · exact absurd hlt' (lt_irrefl _)

/-- One more amount, in the current window or in the one after it. -/
theorem Counting.lasting_snoc (h : Counting policy key now windows log) {window : Binary64 × ℤ}
    (hcounts : Counts policy window (taken key log)) {e : Taken ℚ ℤ}
    (hstart : e.start = window.1.value) (hnonneg : ∀ e' ∈ taken key log ++ [e], 0 ≤ e'.start) :
    Lasting policy.windowSeconds.value (taken key log ++ [e]) := by
  have hcases : ∀ e' ∈ taken key log ++ [e], e' ∈ taken key log ∨ e' = e := by
    intro e' he'
    rwa [List.mem_append, List.mem_singleton] at he'
  have hlatest : ∀ e' ∈ taken key log ++ [e], e'.start ≤ e.start := by
    intro e' he'
    rcases hcases e' he' with hlog | rfl
    · exact (hcounts.start_le h.windowed hlog).trans_eq hstart.symm
    · exact le_rfl
  intro a ha b hb c hc hab hbc
  rcases hcases b hb with hlogb | rfl
  · rcases hcases a ha with hloga | rfl
    · rcases hcases c hc with hlogc | rfl
      · exact h.lasting (fun e' he' => hnonneg e' (List.mem_append_left _ he')) a hloga b hlogb c
          hlogc hab hbc
      · rw [hstart] at hbc ⊢
        exact hcounts.lasting a hloga (hnonneg a ha) b hlogb hab hbc
    · exact absurd hab (not_lt.mpr (hlatest b hb))
  · exact absurd hbc (not_lt.mpr (hlatest c hc))

/-- The step lemma: a call on the key counts what is allowed. -/
theorem Counting.consume (h : Counting policy call.key now windows log)
    (hwindow : 0 < policy.windowSeconds) (hnow : now ≤ call.now) (hcost : 1 ≤ call.cost) :
    Counting policy call.key call.now (windows.consume call.now call.key policy call.cost).2
      (log ++ [⟨call, (windows.current call.now call.key policy).1,
        (windows.consume call.now call.key policy call.cost).1⟩]) := by
  obtain ⟨hbegun, hopen, hcounts⟩ := h.current hwindow hnow
  obtain ⟨hallowed, hafter⟩ :=
    Limiters.consume_eq policy windows call.now call.key call.cost
  have hstored := congrFun hafter (compositeKey policy call.key)
  rw [Function.update_self] at hstored
  set window := windows.current call.now call.key policy
  -- what fits is taken, and stays within the limit
  by_cases hfits : window.2 + call.cost ≤ policy.limit
  · have htaken : taken call.key (log ++ [⟨call, window.1,
        (windows.consume call.now call.key policy call.cost).1⟩]) =
        taken call.key log ++ [⟨window.1.value, call.now.value, call.cost⟩] := by
      rw [taken_snoc, if_pos ⟨rfl, hallowed.trans (decide_eq_true hfits)⟩]
    rw [if_pos hfits] at hstored
    constructor
    · rw [htaken]
      apply h.windowed.snoc (by simp only; omega) hbegun hcounts.past
      rw [← hcounts.used]
      exact hfits
    · rw [htaken]
      exact h.lasting_snoc hcounts rfl
    · rw [hstored]
      exact nofun
    · intro stored hsome
      obtain rfl := Option.some.inj (hstored.symm.trans hsome)
      rw [htaken]
      exact ⟨hbegun, hcounts.snoc hopen⟩
  · -- what does not fit is not
    have htaken : taken call.key (log ++ [⟨call, window.1,
        (windows.consume call.now call.key policy call.cost).1⟩]) = taken call.key log := by
      rw [taken_snoc, if_neg, List.append_nil]
      intro hand
      exact hfits (of_decide_eq_true (hallowed.symm.trans hand.2))
    rw [if_neg hfits] at hstored
    constructor
    · rw [htaken]
      exact h.windowed
    · rw [htaken]
      exact h.lasting
    · rw [hstored]
      exact nofun
    · intro stored hsome
      obtain rfl := Option.some.inj (hstored.symm.trans hsome)
      rw [htaken]
      exact ⟨hbegun, hcounts⟩

/-- A call on another key does not concern it. -/
theorem Counting.other (h : Counting policy key now windows log) (hkey : call.key ≠ key)
    (hnow : now ≤ call.now) (entry : RateEntry) (hentry : entry.call = call) :
    Counting policy key call.now (windows.consume call.now call.key policy call.cost).2
      (log ++ [entry]) := by
  have htaken : taken key (log ++ [entry]) = taken key log := by
    rw [taken_snoc, if_neg, List.append_nil]
    intro hand
    exact hkey (hentry ▸ hand.1)
  have hsame : (windows.consume call.now call.key policy call.cost).2 (compositeKey policy key) =
      windows (compositeKey policy key) := Windows.consume_other windows hkey
  constructor
  · rw [htaken]
    exact h.windowed
  · rw [htaken]
    exact h.lasting
  · rw [htaken, hsame]
    exact h.fresh
  · rw [htaken, hsame]
    intro window hwindow
    obtain ⟨hstart, hcounts⟩ := h.counts window hwindow
    exact ⟨hstart.trans hnow, hcounts⟩

theorem Counting.later (h : Counting policy key now windows log) {t : Binary64} (hnow : now ≤ t) :
    Counting policy key t windows log := by
  refine ⟨h.windowed, h.lasting, h.fresh, ?_⟩
  intro window hwindow
  obtain ⟨hstart, hcounts⟩ := h.counts window hwindow
  exact ⟨hstart.trans hnow, hcounts⟩

/-- The run lemma: whatever is called, every key is counted. -/
theorem counting_after (hlimit : 0 < policy.limit) (hwindow : 0 < policy.windowSeconds)
    {calls : List RateCall} (hcosts : ∀ call ∈ calls, 1 ≤ call.cost)
    (hsorted : calls.Pairwise (·.now ≤ ·.now)) (hnow : ∀ call ∈ calls, call.now ≤ now)
    (key : String) :
    Counting policy key now (Windows.after policy (fun _ => none) calls)
      (Windows.entries policy (fun _ => none) calls) := by
  induction calls using List.reverseRecOn generalizing now with
  | nil =>
    exact ⟨Windowed.nil hlimit.le, fun _ => nofun, fun _ => rfl, fun _ hwindow => nomatch hwindow⟩
  | append_singleton calls call ih =>
    obtain ⟨hcalls, -, hlast⟩ := List.pairwise_append.mp hsorted
    have hmem : ∀ {c}, c ∈ calls → c ∈ calls ++ [call] := List.mem_append_left [call]
    have hlate : ∀ c ∈ calls, c.now ≤ call.now :=
      fun c hc => hlast c hc call (List.mem_singleton_self call)
    have hbefore := ih (fun c hc => hcosts c (hmem hc)) hcalls hlate
    rw [Windows.after_snoc, Windows.entries_snoc]
    apply Counting.later _ (hnow call (by simp))
    by_cases hkey : call.key = key
    · subst hkey
      exact hbefore.consume hwindow le_rfl (hcosts call (by simp))
    · exact hbefore.other hkey le_rfl _ rfl

/-- A window begins with a call. -/
theorem le_start_of_mem {low : Binary64} {windows : Windows} {calls : List RateCall}
    (hwindows : ∀ k window, windows k = some window → low ≤ window.1)
    (hcalls : ∀ call ∈ calls, low ≤ call.now) :
    ∀ entry ∈ windows.entries policy calls, low ≤ entry.start := by
  induction calls generalizing windows with
  | nil =>
    intro entry hentry
    cases hentry
  | cons call calls ih =>
    -- the window of a call begins with it, or with an earlier one
    have hnow := hcalls call List.mem_cons_self
    have hcurrent : low ≤ (windows.current call.now call.key policy).1 := by
      unfold Windows.current
      cases hstored : windows (compositeKey policy call.key) with
      | none =>
        simp only [Option.getD_none]
        split_ifs
        · exact hnow
        · exact hnow
      | some window =>
        simp only [Option.getD_some]
        split_ifs
        · exact hnow
        · exact hwindows _ window hstored
    intro entry hentry
    rcases List.mem_cons.mp hentry with rfl | hrest
    · exact hcurrent
    · refine ih ?_ (fun c hc => hcalls c (List.mem_cons_of_mem call hc)) entry hrest
      intro k window hstored
      rw [(Limiters.consume_eq policy windows call.now call.key call.cost).2] at hstored
      -- of the stored windows, only the call's own is new
      by_cases hk : k = compositeKey policy call.key
      · subst hk
        rw [Function.update_self] at hstored
        obtain rfl := Option.some.inj hstored
        exact hcurrent
      · rw [Function.update_of_ne hk] at hstored
        exact hwindows k window hstored

theorem taken_start {low : Binary64} (h : ∀ entry ∈ log, low ≤ entry.start) :
    ∀ e ∈ taken key log, low.value ≤ e.start := by
  intro e he
  obtain ⟨entry, hentry, htaken⟩ := List.mem_filterMap.mp he
  split_ifs at htaken
  obtain rfl := Option.some.inj htaken
  exact h entry hentry

/-! ## The retry hint -/

/-- What a call finds, if the key has a window. -/
theorem current_of_some {window : Binary64 × ℤ} {t : Binary64}
    (hstored : windows (compositeKey policy key) = some window) :
    windows.current t key policy =
      if policy.windowSeconds ≤ t - window.1 then (t, 0) else window := by
  simp [Windows.current, hstored]

/-- The window that a call finds is not over. -/
theorem current_open (windows : Windows) (hwindow : 0 < policy.windowSeconds) (t : Binary64)
    (k : String) : t - (windows.current t k policy).1 < policy.windowSeconds := by
  unfold Windows.current
  dsimp only
  split_ifs with hover
  · rwa [Binary64.self_sub]
  · exact not_le.mp hover

/-- A refused call finds a window that is too full, leaves it as it is, and is told how long it
    still lasts. -/
theorem refused (hwindow : 0 < policy.windowSeconds)
    (hrefused : (windows.consume call.now call.key policy call.cost).1.allowed = false) :
    policy.limit < (windows.current call.now call.key policy).2 + call.cost ∧
      (windows.consume call.now call.key policy call.cost).2 (compositeKey policy call.key) =
        some (windows.current call.now call.key policy) ∧
      (windows.consume call.now call.key policy call.cost).1.retryAfterSeconds =
        policy.windowSeconds - (call.now - (windows.current call.now call.key policy).1) := by
  obtain ⟨hallowed, hafter⟩ := Limiters.consume_eq policy windows call.now call.key call.cost
  have hfull : ¬ (windows.current call.now call.key policy).2 + call.cost ≤ policy.limit :=
    of_decide_eq_false (hallowed.symm.trans hrefused)
  have hstored := congrFun hafter (compositeKey policy call.key)
  rw [Function.update_self, if_neg hfull] at hstored
  refine ⟨not_le.mp hfull, hstored, ?_⟩
  have hopen := current_open windows hwindow call.now call.key
  unfold Windows.consume
  simp only [if_pos (not_le.mp hfull)]
  exact max_eq_right (Binary64.zero_lt_sub hopen).le

/-- In a window that is over nothing has been used. -/
theorem allowed_after {window : Binary64 × ℤ} {t : Binary64} {cost : ℤ}
    (hstored : windows (compositeKey policy key) = some window)
    (hover : policy.windowSeconds ≤ t - window.1) (hcost : cost ≤ policy.limit) :
    (windows.consume t key policy cost).1.allowed = true := by
  rw [(Limiters.consume_eq policy windows t key cost).1, current_of_some hstored, if_pos hover,
    zero_add]
  exact decide_eq_true hcost

/-- In one that is not, what has been used counts. -/
theorem over_of_allowed {window : Binary64 × ℤ} {t : Binary64} {cost : ℤ}
    (hstored : windows (compositeKey policy key) = some window)
    (hfull : policy.limit < window.2 + cost)
    (hallowed : (windows.consume t key policy cost).1.allowed = true) :
    policy.windowSeconds ≤ t - window.1 := by
  by_contra hopen
  rw [(Limiters.consume_eq policy windows t key cost).1, current_of_some hstored,
    if_neg hopen, decide_eq_true_eq] at hallowed
  omega

/-- The window is that which began at `start`, or one that began before `late` when that was
    over. -/
def Succeeds (policy : RateLimitPolicy) (start : Binary64) (late : Set Binary64)
    (window : Binary64 × ℤ) : Prop :=
  window.1 = start ∨ window.1 ∉ late ∧ policy.windowSeconds ≤ window.1 - start

/-- A call leaves a key such a window. -/
theorem succeeds_current {start : Binary64} {late : Set Binary64} {window : Binary64 × ℤ}
    (hwindow : 0 < policy.windowSeconds) (h : Succeeds policy start late window)
    (hstored : windows (compositeKey policy key) = some window) {t : Binary64} (ht : t ∉ late) :
    Succeeds policy start late (windows.current t key policy) := by
  rw [current_of_some hstored]
  split_ifs with hover
  · right
    refine ⟨ht, ?_⟩
    rcases h with hsame | ⟨-, hlater⟩
    · rwa [hsame] at hover
    · -- the call is later than the window that was over, which was later than the first
      have hle : window.1 ≤ t := by
        by_contra hlt
        have hback := Binary64.sub_mono_left (not_le.mp hlt).le window.1
        rw [Binary64.self_sub] at hback
        exact absurd (hwindow.trans_le (hover.trans hback)) (lt_irrefl _)
      exact hlater.trans (Binary64.sub_mono_left hle start)
  · exact h

/-- So do calls one after the other. -/
theorem succeeds_after {start : Binary64} {late : Set Binary64} {calls : List RateCall}
    {window : Binary64 × ℤ} (hwindow : 0 < policy.windowSeconds)
    (h : Succeeds policy start late window)
    (hstored : windows (compositeKey policy key) = some window)
    (hwithin : ∀ call ∈ calls, call.key = key → call.now ∉ late) :
    ∃ window', windows.after policy calls (compositeKey policy key) = some window' ∧
      Succeeds policy start late window' := by
  induction calls generalizing windows window with
  | nil => exact ⟨window, hstored, h⟩
  | cons call calls ih =>
    have hrest := fun c hc => hwithin c (List.mem_cons_of_mem call hc)
    by_cases hkey : call.key = key
    · subst hkey
      have hcurrent := succeeds_current hwindow h hstored (hwithin call List.mem_cons_self rfl)
      have hafter := congrFun (Limiters.consume_eq policy windows call.now call.key call.cost).2
        (compositeKey policy call.key)
      rw [Function.update_self] at hafter
      obtain ⟨window', hwindow', hfirst⟩ : ∃ window' : Binary64 × ℤ,
          (windows.consume call.now call.key policy call.cost).2 (compositeKey policy call.key) =
            some window' ∧ window'.1 = (windows.current call.now call.key policy).1 :=
        ⟨_, hafter, rfl⟩
      refine ih ?_ hwindow' hrest
      unfold Succeeds
      rw [hfirst]
      exact hcurrent
    · exact ih h ((Windows.consume_other windows hkey).trans hstored) hrest

end

end Evenkeel.Infrastructure
