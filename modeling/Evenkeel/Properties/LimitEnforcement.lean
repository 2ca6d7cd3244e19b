import Evenkeel.Infrastructure.LimiterWindows

/-!
# The In-Memory Limiter

What a window admits is at most the limit, and what any stretch of time of its length admits at
most twice that. Whoever is refused is told when to come back; whether that is late enough is a
matter of rounding.
-/

namespace Evenkeel.Properties

open Evenkeel.Accounting Evenkeel.Application Evenkeel.Infrastructure Evenkeel.Python

/-! ## Coming back -/

/-- The times from a time and a wait on, as floats add them. -/
def dueFrom (now wait : Binary64) : Set Binary64 := {t | now + wait ≤ t}

/-- The same, with the exact sum. -/
def dueExactly (now wait : Binary64) : Set Binary64 := {t | now.value + wait.value ≤ t.value}

/-- Whatever is called meanwhile, a call like the refused one is allowed if it is the first on its
    key at a time in `due`. -/
def HintHolds (policy : RateLimitPolicy) (windows : Windows) (call : RateCall)
    (due : Set Binary64) : Prop :=
  ∀ (meanwhile : List RateCall) (again : RateCall), again.key = call.key →
    again.cost = call.cost → (∀ c ∈ meanwhile, 1 ≤ c.cost) →
    (call :: (meanwhile ++ [again])).Pairwise (·.now ≤ ·.now) → again.now ∈ due →
    (∀ c ∈ meanwhile, c.key = call.key → c.now ∉ due) →
    (((windows.consume call.now call.key policy call.cost).2.after policy meanwhile).consume
      again.now again.key policy again.cost).1.allowed = true

/-- At every time in `due` the window that began at `start` is over, and so is any that a call
    before them can begin because that one is. -/
def OverBy (window start : Binary64) (due : Set Binary64) : Prop :=
  ∀ t ∈ due, window ≤ t - start ∧ ∀ t' ∉ due, window ≤ t' - start → window ≤ t - t'

private theorem hint_holds_iff {policy : RateLimitPolicy} (hlimit : 0 < policy.limit)
    (hwindow : 0 < policy.windowSeconds) {windows : Windows} {call : RateCall}
    (hcost : 1 ≤ call.cost) (hfits : call.cost ≤ policy.limit)
    (hrefused : (windows.consume call.now call.key policy call.cost).1.allowed = false)
    {due : Set Binary64} (hupper : IsUpperSet due) (hdue : ∀ t ∈ due, call.now ≤ t) :
    HintHolds policy windows call due ↔
      OverBy policy.windowSeconds (windows.current call.now call.key policy).1 due := by
  obtain ⟨hfull, hstored, -⟩ := refused hwindow hrefused
  have hopen := current_open windows hwindow call.now call.key
  set window := windows.current call.now call.key policy
  constructor
  · intro hholds t ht
    constructor
    · -- nobody calls meanwhile
      have hsorted : (call :: ([] ++ [⟨call.key, call.cost, t⟩])).Pairwise (·.now ≤ ·.now) := by
        rw [List.nil_append, List.pairwise_pair]
        exact hdue t ht
      have hallowed := hholds [] ⟨call.key, call.cost, t⟩ rfl rfl (List.forall_mem_nil _) hsorted ht
        (List.forall_mem_nil _)
      exact over_of_allowed hstored hfull hallowed
    · intro t' ht' hover
      -- somebody takes all there is of a new window
      have hnow : call.now ≤ t' := by
        by_contra hlt
        have hback := Binary64.sub_mono_left (not_le.mp hlt).le window.1
        exact absurd (hover.trans hback) (not_le.mpr hopen)
      have hlater : t' ≤ t := by
        by_contra hlt
        exact ht' (hupper (not_le.mp hlt).le ht)
      have hsorted : (call :: ([⟨call.key, policy.limit, t'⟩] ++
          [⟨call.key, call.cost, t⟩])).Pairwise (·.now ≤ ·.now) := by
        rw [List.singleton_append, List.pairwise_cons, List.pairwise_pair, List.forall_mem_cons,
          List.forall_mem_singleton]
        exact ⟨⟨hnow, hdue t ht⟩, hlater⟩
      have hallowed := hholds [⟨call.key, policy.limit, t'⟩] ⟨call.key, call.cost, t⟩ rfl rfl
        (List.forall_mem_singleton.mpr (Int.add_one_le_iff.mpr hlimit)) hsorted ht
        (List.forall_mem_singleton.mpr fun _ => ht')
      have htaken := congrFun
        (Limiters.consume_eq policy (windows.consume call.now call.key policy call.cost).2 t'
          call.key policy.limit).2
        (compositeKey policy call.key)
      rw [Function.update_self, current_of_some hstored, if_pos hover, zero_add, if_pos le_rfl]
        at htaken
      dsimp only [Windows.after, List.foldl_cons, List.foldl_nil] at hallowed htaken
      have hmore : policy.limit < policy.limit + call.cost := by omega
      have hlonger := over_of_allowed htaken hmore hallowed
      exact hlonger
  · intro hover meanwhile again hkey hsame _ _ hagain hmeanwhile
    obtain ⟨last, hlast, hsucceeds⟩ :=
      succeeds_after hwindow (.inl rfl : Succeeds policy window.1 due window) hstored hmeanwhile
    obtain ⟨hfirst, hothers⟩ := hover again.now hagain
    have hlonger : policy.windowSeconds ≤ again.now - last.1 := by
      rcases hsucceeds with heq | ⟨hbefore, hbegun⟩
      · rwa [heq]
      · exact hothers last.1 hbefore hbegun
    rw [hkey, hsame]
    exact allowed_after hlast hlonger hfits

/-! ## The limit -/

/-- Any calls on any keys, with any costs from one on, at any times that do not decrease. The
    limit is kept, in any stretch of time if the clock began at zero. If a call is refused that
    would fit into a window, the hint holds exactly if the window is over by the time it names,
    whichever way that is computed. -/
theorem limit_is_enforced {policy : RateLimitPolicy} (hlimit : 0 < policy.limit)
    (hwindow : 0 < policy.windowSeconds) {calls : List RateCall}
    (hcosts : ∀ call ∈ calls, 1 ≤ call.cost) (hsorted : calls.Pairwise (·.now ≤ ·.now)) :
    let log := Windows.entries policy (fun _ => none) calls
    (∀ key start, total (fun e => e.start = start) (taken key log) ≤ policy.limit) ∧
    ((∀ call ∈ calls, 0 ≤ call.now) → ∀ key since,
      total (fun e => since ≤ e.now ∧ e.now < since + policy.windowSeconds.value)
        (taken key log) ≤ 2 * policy.limit) ∧
    (∀ key, log.filter (fun entry => entry.call.key = key) =
      Windows.entries policy (fun _ => none) (calls.filter fun call => call.key = key)) ∧
    ∀ before call, 1 ≤ call.cost → call.cost ≤ policy.limit →
      let windows := Windows.after policy (fun _ => none) before
      let start := (windows.current call.now call.key policy).1
      let left := policy.windowSeconds - (call.now - start)
      ∀ decision windows', windows.consume call.now call.key policy call.cost =
          (decision, windows') → decision.allowed = false →
        0 < decision.retryAfterSeconds ∧ decision.retryAfterSeconds = left ∧
        (HintHolds policy windows call (dueFrom call.now decision.retryAfterSeconds) ↔
          OverBy policy.windowSeconds start (dueFrom call.now left)) ∧
        (HintHolds policy windows call (dueExactly call.now decision.retryAfterSeconds) ↔
          OverBy policy.windowSeconds start (dueExactly call.now left)) := by
  intro log
  have hlast : ∀ call ∈ calls, call.now ≤ (calls.map RateCall.now).foldr max 0 := by
    intro call hcall
    exact List.le_max_of_le' 0 (List.mem_map_of_mem hcall) le_rfl
  have hcounting := counting_after hlimit hwindow hcosts hsorted hlast
  refine ⟨fun key => (hcounting key).windowed.bounded, ?_, ?_, ?_⟩
  · intro hclock key since
    have hstarts : ∀ e ∈ taken key log, 0 ≤ e.start := by
      have hentries : ∀ entry ∈ log, 0 ≤ entry.start :=
        le_start_of_mem (fun k window hstored => nomatch hstored) hclock
      rw [← Binary64.value_zero]
      exact taken_start hentries
    rw [two_mul]
    exact (hcounting key).windowed.interval_le ((hcounting key).lasting hstarts) since
  · intro key
    exact Windows.entries_filter rfl
  · intro before call hcost hfits windows start left decision windows' hconsume hrefused
    obtain rfl : _ = decision := congrArg Prod.fst hconsume
    have hretry := (refused hwindow hrefused).2.2
    have hpos : 0 < left := Binary64.zero_lt_sub (current_open windows hwindow call.now call.key)
    rw [hretry]
    refine ⟨hpos, rfl, ?_, ?_⟩
    · apply hint_holds_iff hlimit hwindow hcost hfits hrefused
      · exact fun t t' hle ht => le_trans ht hle
      · exact fun t ht => (Binary64.le_add_self hpos.le).trans ht
    · apply hint_holds_iff hlimit hwindow hcost hfits hrefused
      · exact fun t t' hle ht => le_trans ht (Binary64.le_iff.mp hle)
      · intro t ht
        have hleft : 0 ≤ left.value := by simpa [Binary64.le_iff] using hpos.le
        have hsum : call.now.value ≤ call.now.value + left.value := le_add_of_nonneg_right hleft
        exact hsum.trans ht

/-- Three a minute, on two keys: a call is refused at ten seconds, and is told to wait for
    fifty, which is long enough. -/
theorem limit_is_enforced_twice :
    let policy : RateLimitPolicy := ⟨"movement", 3, 60⟩
    let calls : List RateCall := [⟨"a", 2, 0⟩, ⟨"b", 3, 5⟩, ⟨"a", 2, 10⟩, ⟨"a", 2, 60⟩]
    let log := Windows.entries policy (fun _ => none) calls
    let windows := Windows.after policy (fun _ => none) [⟨"a", 2, 0⟩, ⟨"b", 3, 5⟩]
    log.map (fun entry => (entry.decision.allowed, entry.decision.retryAfterSeconds)) =
      [(true, 0), (true, 0), (false, 50), (true, 0)] ∧
    total (fun e => e.start = 0) (taken "a" log) ≤ 3 ∧
    total (fun e => 0 ≤ e.now ∧ e.now < 0 + policy.windowSeconds.value) (taken "a" log) ≤ 2 * 3 ∧
    HintHolds policy windows ⟨"a", 2, 10⟩ (dueFrom 10 50) := by
  intro policy calls log windows
  have henforced := @limit_is_enforced policy (by decide) (by decide +kernel) calls
    (by decide +kernel) (by decide +kernel)
  obtain ⟨hbounded, hinterval, -, hhint⟩ := henforced
  refine ⟨by decide +kernel, hbounded "a" 0, hinterval (by decide +kernel) "a" 0, ?_⟩
  have hrefused := hhint [⟨"a", 2, 0⟩, ⟨"b", 3, 5⟩] ⟨"a", 2, 10⟩ (by decide) (by decide) _ _ rfl
    (by decide +kernel)
  have hretry : ((windows.consume 10 "a" policy 2).1).retryAfterSeconds = 50 := by decide +kernel
  have hstart : (windows.current 10 "a" policy).1 = 0 := by decide +kernel
  have hsum : (10 : Binary64) + 50 = 60 := by decide +kernel
  have hleft : policy.windowSeconds - ((10 : Binary64) - 0) = 50 := by decide +kernel
  rw [← hretry]
  apply hrefused.2.2.1.mpr
  rw [hstart, hleft]
  unfold dueFrom
  rw [hsum]
  intro t ht
  rw [Binary64.sub_zero]
  refine ⟨ht, ?_⟩
  intro t' ht' hover
  rw [Binary64.sub_zero] at hover
  exact absurd hover ht'

/-- One a minute, at 5.889 s. The call at 33.411 s waits until 65.889 s, and is too early. -/
theorem hint_is_early :
    let policy : RateLimitPolicy := ⟨"movement", 1, 60⟩
    let now : Binary64 := .ofRat 33.411
    let again : Binary64 := .ofRat 65.889
    let windows := Windows.after policy (fun _ => none) [⟨"a", 1, .ofRat 5.889⟩]
    let decision := (windows.consume now "a" policy 1).1
    let windows' := (windows.consume now "a" policy 1).2
    decision.allowed = false ∧ 0 < decision.retryAfterSeconds ∧
    now + decision.retryAfterSeconds ≤ again ∧
    now.value + decision.retryAfterSeconds.value ≤ again.value ∧
    (windows'.consume again "a" policy 1).1.allowed = false := by
  decide +kernel

end Evenkeel.Properties
