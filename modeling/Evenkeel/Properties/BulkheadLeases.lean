import Evenkeel.Infrastructure.Bulkhead

/-!
# Leases of a Bulkhead

The in-memory bulkhead keeps every lease for as long as it was granted. The Redis bulkhead
does so in exactly those runs in which no lease outlives the one that was granted last: the
key that has them all goes with that one.
-/

namespace Evenkeel.Properties

open Evenkeel.Effects Evenkeel.Redis Evenkeel.Infrastructure

/-- Any number of leases under any names, with one limit a name and any positive TTL each. In
    memory, after every step each live lease has its slot and no more than the limit are live
    under a name. On Redis that is so after every step exactly if the clock never passes the
    end of the lease granted last under a name while another one there is live. -/
theorem bulkhead_leases_kept_iff {limit : String → ℤ} {token : ℕ → String}
    (htoken : Function.Injective token) :
    (∀ t s, (LeaseClients.machine (memoryBulkhead limit token)).Run t s →
      ∀ τ ∈ t, Capped limit τ.after.books τ.after.store) ∧
    ∀ t s, (LeaseClients.machine (redisBulkhead limit token)).Run t s →
      ((∀ τ ∈ t, Capped limit τ.after.books (τ.after.store.occupancy τ.after.now)) ↔
        ∀ τ ∈ t, ∀ action, τ.event.action = some action → Covers τ.before.books action) := by
  constructor
  · -- in memory, a lease is as good as its slot
    intro t s hrun τ hτ
    obtain ⟨u, hbefore, hstep⟩ := hrun.of_mem hτ
    have hserved : Served limit token τ.after.books.leases τ.after.books.now τ.after.store :=
      LeaseClients.books_of_run (S := memoryBulkhead limit token)
        (I := fun b => Served limit token b.leases b.now b.store) (served_start limit token)
        (fun b action b' hserved hstep => served_of_step htoken hserved hstep)
        (hbefore.snoc hstep)
    exact hserved.capped htoken
  · -- on Redis, as long as the set outlives the leases
    intro t s hrun
    refine hrun.forall_iff (I := fun s => RedisServed limit token s.books)
      (G := fun s event => ∀ action, event.action = some action → Covers s.books action)
      (P := fun τ => Capped limit τ.after.books (τ.after.store.occupancy τ.after.now))
      (redis_served_start limit token) ?_ ?_
    · intro s event s' hserved hcovers hstep
      exact redis_served_of_event htoken hserved hcovers hstep
    · intro s event s' hserved hstep
      constructor
      · intro hcapped action haction
        obtain ⟨hnone, -⟩ | ⟨action', haction', hbooks⟩ := LeaseClients.books_of_step hstep
        · simp [haction] at hnone
        · obtain rfl := Option.some.inj (haction.symm.trans haction')
          exact covers_of_capped hserved hbooks hcapped
      · intro hcovers
        exact (redis_served_of_event htoken hserved hcovers hstep).served.capped htoken

/-- Two leases of one TTL, and some time. -/
theorem bulkhead_leases_kept_iff_pair :
    ∃ t s, (LeaseClients.machine (redisBulkhead (fun _ => 2) unaryToken)).Run t s ∧
      Granted s.books "n" 0 ∧ Granted s.books "n" 1 ∧
      ∀ τ ∈ t, Capped (fun _ => 2) τ.after.books (τ.after.store.occupancy τ.after.now) := by
  have h := Machine.Run.nil (M := LeaseClients.machine (redisBulkhead (fun _ => 2) unaryToken))
  have h := h.snoc (e := .create 0 ⟨"", { name := "n", limit := 2, leaseTtlMs := 5000 }⟩) rfl
  have h := h.snoc (e := .enter 0 0) rfl
  have h := h.snoc (e := .execute (.attempt 0)) rfl
  have h := h.snoc (e := .create 1 ⟨"x", { name := "n", limit := 2, leaseTtlMs := 5000 }⟩) rfl
  have h := h.snoc (e := .enter 1 0) rfl
  have h := h.snoc (e := .execute (.attempt 1)) rfl
  have h := h.snoc (e := .tick 1000) rfl
  refine ⟨_, _, h, ⟨_, 5000, rfl, rfl, rfl, by decide⟩, ⟨_, 5000, rfl, rfl, rfl, by decide⟩, ?_⟩
  apply ((bulkhead_leases_kept_iff unaryToken_injective).2 _ _ h).mpr
  intro τ hτ action haction
  simp only [List.nil_append, List.cons_append, List.mem_cons, List.not_mem_nil, or_false] at hτ
  obtain rfl | rfl | rfl | rfl | rfl | rfl | rfl := hτ
  all_goals cases haction
  · trivial
  · trivial
  · trivial
  · trivial
  · -- the second grant outlives the first
    intro name last hlatest hlast
    change Function.update (Function.update (fun _ => none) "n" (some 5000)) "n" (some 5000) name =
      some last at hlatest
    have hends : last = 5000 := by
      by_cases hname : name = "n"
      · rw [hname, Function.update_self] at hlatest
        exact (Option.some.inj hlatest).symm
      · rw [Function.update_of_ne hname, Function.update_of_ne hname] at hlatest
        cases hlatest
    subst hends
    exact absurd hlast (by decide)

/-- A short lease after a long one under a name with a limit of two: when the short one has
    run out, two more are granted beside the long one. -/
theorem short_lease_drops_the_others :
    ∃ t s, (LeaseClients.machine (redisBulkhead (fun _ => 2) unaryToken)).Run t s ∧
      Granted s.books "n" 0 ∧ Granted s.books "n" 2 ∧ Granted s.books "n" 3 := by
  have h := Machine.Run.nil (M := LeaseClients.machine (redisBulkhead (fun _ => 2) unaryToken))
  have h := h.snoc (e := .create 0 ⟨"", { name := "n", limit := 2, leaseTtlMs := 10000 }⟩) rfl
  have h := h.snoc (e := .enter 0 0) rfl
  have h := h.snoc (e := .execute (.attempt 0)) rfl
  have h := h.snoc (e := .create 1 ⟨"x", { name := "n", limit := 2, leaseTtlMs := 1000 }⟩) rfl
  have h := h.snoc (e := .enter 1 0) rfl
  have h := h.snoc (e := .execute (.attempt 1)) rfl
  have h := h.snoc (e := .tick 1000) rfl
  have h := h.snoc (e := .create 2 ⟨"xx", { name := "n", limit := 2, leaseTtlMs := 10000 }⟩) rfl
  have h := h.snoc (e := .enter 2 0) rfl
  have h := h.snoc (e := .execute (.attempt 2)) rfl
  have h := h.snoc (e := .create 3 ⟨"xxx", { name := "n", limit := 2, leaseTtlMs := 10000 }⟩) rfl
  have h := h.snoc (e := .enter 3 0) rfl
  have h := h.snoc (e := .execute (.attempt 3)) rfl
  exact ⟨_, _, h, ⟨_, 10000, rfl, rfl, rfl, by decide⟩, ⟨_, 11000, rfl, rfl, rfl, by decide⟩,
    ⟨_, 11000, rfl, rfl, rfl, by decide⟩⟩

end Evenkeel.Properties
