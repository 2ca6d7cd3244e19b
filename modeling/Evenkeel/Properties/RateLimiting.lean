import Evenkeel.Infrastructure.RateLimiters

/-!
# Two Rate Limiters

The in-memory and the Redis limiter answer alike in exactly those sequences of calls in which
no call that would still fit comes after refused ones that Redis has counted.
-/

namespace Evenkeel.Properties

open Evenkeel.Application Evenkeel.Effects Evenkeel.Redis Evenkeel.Infrastructure

/-- Any policy, any calls on any keys, with any costs from one on, at any times that do not
    decrease. Of calls that find their window over in both limiters or in neither, and whose
    numbers Redis and Lua can count, both limiters allow the same exactly if every call that
    fits into what is left of its window fits as well when the refused calls of that window are
    added to it. -/
theorem limiters_alike_iff {policy : RateLimitPolicy} {t : List (Transition Limiters Consume)}
    {s : Limiters} (hrun : (Limiters.machine policy).Run t s) :
    (∀ τ ∈ t, τ.before.InStep policy τ.event ∧ τ.before.Countable policy τ.event ∧
        τ.before.Alike policy τ.event) ↔
      ∀ τ ∈ t, τ.before.InStep policy τ.event ∧ τ.before.Countable policy τ.event ∧
        τ.before.InOrder policy τ.event := by
  refine hrun.forall_iff (I := Limiters.Related policy)
    (G := fun s call => s.InStep policy call ∧ s.Countable policy call ∧ s.InOrder policy call)
    (P := fun τ => τ.before.InStep policy τ.event ∧ τ.before.Countable policy τ.event ∧
      τ.before.Alike policy τ.event) ?_ ?_ ?_
  · intro key
    exact .inl ⟨rfl, rfl⟩
  · rintro s call s' hrelated ⟨hinstep, hcountable, -⟩ hstep
    exact Limiters.related_of_step hrelated hinstep hcountable hstep
  · intro s call s' hrelated hstep
    apply and_congr_right
    intro hinstep
    apply and_congr_right
    intro hcountable
    exact Limiters.alike_iff_inOrder hrelated hinstep hcountable hstep

/-- Three a minute. -/
def perMinute : RateLimitPolicy := ⟨"movement", 3, 60⟩

/-- Two calls that fit, a third that does not, and one in the next window. -/
theorem limiters_alike_iff_full : ∃ t s, (Limiters.machine perMinute).Run t s ∧
    t.map (·.event) = [⟨"a", 2, 0⟩, ⟨"a", 1, 5⟩, ⟨"a", 1, 9⟩, ⟨"a", 1, 60009⟩] ∧
    ∀ τ ∈ t, τ.before.InStep perMinute τ.event ∧ τ.before.Countable perMinute τ.event ∧
      τ.before.Alike perMinute τ.event := by
  have h := Machine.Run.nil (M := Limiters.machine perMinute)
  have h := h.snoc (e := ⟨"a", 2, 0⟩) rfl
  have h := h.snoc (e := ⟨"a", 1, 5⟩) rfl
  have h := h.snoc (e := ⟨"a", 1, 9⟩) rfl
  have h := h.snoc (e := ⟨"a", 1, 60009⟩) rfl
  refine ⟨_, _, h, rfl, ?_⟩
  apply (limiters_alike_iff h).mpr
  intro τ hτ
  simp only [List.nil_append, List.cons_append, List.mem_cons, List.not_mem_nil, or_false] at hτ
  obtain rfl | rfl | rfl | rfl := hτ <;>
    exact ⟨by decide +kernel, by decide +kernel, by decide +kernel⟩

/-- After a call for two is refused, there is one left in memory and none on Redis. -/
theorem refused_cost_is_counted : ∃ t s, (Limiters.machine perMinute).Run t s ∧
    t.map (·.event) = [⟨"a", 2, 0⟩, ⟨"a", 2, 0⟩, ⟨"a", 1, 0⟩] ∧
    ∃ τ ∈ t, ¬ τ.before.Alike perMinute τ.event := by
  have h := Machine.Run.nil (M := Limiters.machine perMinute)
  have h := h.snoc (e := ⟨"a", 2, 0⟩) rfl
  have h := h.snoc (e := ⟨"a", 2, 0⟩) rfl
  have h := h.snoc (e := ⟨"a", 1, 0⟩) rfl
  refine ⟨_, _, h, rfl, _, List.mem_append_right _ (List.mem_singleton_self _), ?_⟩
  decide +kernel

/-- A minute after 4.002 s is not a minute in floats. -/
theorem windows_end_apart : ∃ t s, (Limiters.machine ⟨"movement", 1, 60⟩).Run t s ∧
    t.map (·.event) = [⟨"a", 1, 4002⟩, ⟨"a", 1, 64002⟩] ∧
    ∃ τ ∈ t, ¬ τ.before.InStep ⟨"movement", 1, 60⟩ τ.event ∧
      ¬ τ.before.Alike ⟨"movement", 1, 60⟩ τ.event := by
  have h := Machine.Run.nil (M := Limiters.machine ⟨"movement", 1, 60⟩)
  have h := h.snoc (e := ⟨"a", 1, 4002⟩) rfl
  have h := h.snoc (e := ⟨"a", 1, 64002⟩) rfl
  refine ⟨_, _, h, rfl, _, List.mem_append_right _ (List.mem_singleton_self _), ?_⟩
  decide +kernel

end Evenkeel.Properties
