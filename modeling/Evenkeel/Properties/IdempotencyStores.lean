import Evenkeel.Infrastructure.BothStores

/-!
# Two Idempotency Stores

The in-memory and the Redis store answer alike, unless they disagree on the end of a TTL, one of
them is asked for what it cannot hold, or Redis to release a reservation whose fingerprint its
script takes for a response.
-/

namespace Evenkeel.Properties

open Evenkeel.Application Evenkeel.Effects Evenkeel.Python Evenkeel.Redis Evenkeel.Infrastructure

/-- Both stores from empty, any calls with any keys, fingerprints, TTLs and JSON responses, at
    any times that do not decrease: while the calls meet the guard they have one answer each.
    The first that does not is answered differently, or a claim instead of it or after it can
    be. -/
theorem stores_alike {limits : Limits} (hdepth : 0 < limits.depth) {origin : Instant}
    {t : List (Transition Stores TimedCall)} {s : Stores}
    (hrun : (Stores.machine limits origin).Run t s) (hjson : ∀ τ ∈ t, τ.event.call.Canonical)
    (hmeets : ∀ τ ∈ t, τ.before.Meets limits τ.event) :
    (∀ τ ∈ t, τ.before.Alike limits τ.event) ∧
      ∀ e : TimedCall, s.now ≤ e.now → e.call.Canonical → ¬ s.Meets limits e →
        s.Apart limits e := by
  have hkeep : ∀ s e s', s.Related limits → e.call.Canonical ∧ s.Meets limits e →
      (Stores.machine limits origin).step s e = some s' → s'.Related limits := by
    intro s e s' hrelated hguard hstep
    exact Stores.related_of_step hdepth hrelated hguard.1 hguard.2 hstep
  have hguard : ∀ τ ∈ t, τ.event.call.Canonical ∧ τ.before.Meets limits τ.event :=
    fun τ hτ => ⟨hjson τ hτ, hmeets τ hτ⟩
  constructor
  · have hgood : ∀ s e s', s.Related limits → e.call.Canonical ∧ s.Meets limits e →
        (Stores.machine limits origin).step s e = some s' → s.Alike limits e := by
      intro s e s' hrelated hguard hstep
      exact Stores.alike_of_meets hdepth hrelated hguard.1 hguard.2 hstep
    exact hrun.forall_of_guard (P := fun τ => τ.before.Alike limits τ.event) Stores.related_start
      hkeep hgood hguard
  · intro e hle hcanonical hunmet
    exact Stores.apart_of_not_meets hdepth (hrun.invariant Stores.related_start hkeep hguard) hle
      hcanonical hunmet

/-- The interpreter as it is, with room for ten thousand brackets. -/
private def roomy : Limits := ⟨4300, 10000⟩

/-- A key that is claimed, given back, claimed anew, confirmed, and claimed again after the
    minute of the confirmation. -/
theorem stores_alike_claimed : ∃ t s, (Stores.machine roomy 0).Run t s ∧
    t.map (·.event) = [⟨0, .reserve "k" "f" 60⟩, ⟨1, .release "k"⟩, ⟨2, .reserve "k" "f" 60⟩,
      ⟨3, .confirm "k" [("entry_id", .str "1")] 60⟩, ⟨4, .reserve "k" "f" 60⟩,
      ⟨63, .reserve "k" "g" 60⟩] ∧
    (∀ τ ∈ t, τ.before.Alike roomy τ.event) ∧ ∀ e : TimedCall, s.now ≤ e.now →
      e.call.Canonical → ¬ s.Meets roomy e → s.Apart roomy e := by
  have h := Machine.Run.nil (M := Stores.machine roomy 0)
  have h := h.snoc (e := ⟨0, .reserve "k" "f" 60⟩) rfl
  have h := h.snoc (e := ⟨1, .release "k"⟩) rfl
  have h := h.snoc (e := ⟨2, .reserve "k" "f" 60⟩) rfl
  have h := h.snoc (e := ⟨3, .confirm "k" [("entry_id", .str "1")] 60⟩) rfl
  have h := h.snoc (e := ⟨4, .reserve "k" "f" 60⟩) rfl
  have h := h.snoc (e := ⟨63, .reserve "k" "g" 60⟩) rfl
  refine ⟨_, _, h, rfl, ?_⟩
  apply stores_alike (by decide) h
  · intro τ hτ
    simp only [List.nil_append, List.cons_append, List.mem_cons, List.not_mem_nil, or_false] at hτ
    obtain rfl | rfl | rfl | rfl | rfl | rfl := hτ
    · trivial
    · trivial
    · trivial
    · simp [StoreCall.Canonical, Json.Canonical, CanonicalMembers]
    · trivial
    · trivial
  · intro τ hτ
    simp only [List.nil_append, List.cons_append, List.mem_cons, List.not_mem_nil, or_false] at hτ
    obtain rfl | rfl | rfl | rfl | rfl | rfl := hτ <;> decide +kernel

/-- Both stores after a first claim. -/
private theorem related_claimed {now : Instant} {key fingerprint : String} {ttlSeconds : ℤ}
    {expiresAt : Binary64} (hnow : 0 ≤ now) (hpos : 0 < ttlSeconds)
    (hexpiry : expiry now ttlSeconds = some expiresAt) (hsend : sendable roomy ttlSeconds = true)
    (hset : settable now (luaNumber ttlSeconds) = true) :
    let s := Stores.after roomy { now := 0 } ⟨now, .reserve key fingerprint ttlSeconds⟩
    s.Related roomy ∧ s.entries key = some ⟨fingerprint, expiresAt, none⟩ ∧
      s.ends key = now + luaNumber ttlSeconds := by
  have hvacant : Entries.Vacant (fun _ => none : Entries Json) now key := by
    rintro e he
    cases he
  have hinstep : StoreCall.InStep (fun _ => none) (fun _ => 0) now key := by
    rintro e he
    cases he
  have hmeets : Stores.Meets roomy { now := 0 } ⟨now, .reserve key fingerprint ttlSeconds⟩ :=
    fun _ => ⟨hinstep, hsend, fun _ => ⟨hset, by rw [hexpiry, Option.isSome_some]⟩⟩
  have hdepth : 0 < roomy.depth := by decide
  refine ⟨?_, (Entries.reserve_of_vacant hvacant fingerprint hpos hexpiry).2, ?_⟩
  · have hcanonical : (StoreCall.reserve key fingerprint ttlSeconds).Canonical := trivial
    exact Stores.related_of_step hdepth
      (Stores.related_start : (Stores.machine roomy 0).start.Related roomy) hcanonical hmeets
      (Stores.step_of_le hnow)
  · simp [Stores.after, StoreCall.after, Entries.live, hpos]

private def quoted : Stores := Stores.after roomy { now := 0 } ⟨0, .reserve "k" "response" 60⟩

/-- A fingerprint `response`: released in memory, and still claimed on Redis. -/
theorem quoted_fingerprint_stays : ∃ t s, (Stores.machine roomy 0).Run t s ∧
    t.map (·.event) = [⟨0, .reserve "k" "response" 60⟩, ⟨1, .release "k"⟩,
      ⟨1, .reserve "k" "response" 60⟩] ∧ ∃ τ ∈ t, ¬ τ.before.Alike roomy τ.event := by
  have hsecond : (0 : Instant) ≤ 1 := zero_le_one
  have h := Machine.Run.nil (M := Stores.machine roomy 0)
  have h := h.snoc (e := ⟨0, .reserve "k" "response" 60⟩) (Stores.step_of_le le_rfl)
  have h := h.snoc (e := ⟨1, .release "k"⟩) (Stores.step_of_le hsecond)
  have h := h.snoc (e := ⟨1, .reserve "k" "response" 60⟩) (Stores.step_of_le le_rfl)
  refine ⟨_, _, h, rfl, _, List.mem_append_right _ (List.mem_singleton_self _), ?_⟩
  have hdepth : 0 < roomy.depth := by decide
  have hlua : luaNumber 60 = 60 := by decide
  have hclaimed := @related_claimed 0 "k" "response" 60 _ le_rfl (by norm_num)
    (expiry_zero (by norm_num) (by norm_num)) (sendable_of_le (by decide))
    (by norm_num [hlua, settable])
  obtain ⟨hrelated, hentry, hends⟩ := hclaimed
  rw [hlua] at hends
  -- neither clock has come to the end of the minute
  have hlt : monotonic 1 < .ofRat (60 : ℤ) := by
    exact_mod_cast @Binary64.ofRat_intCast_lt 1 60 (by norm_num) (by norm_num) (by norm_num)
  have hinstep : StoreCall.InStep quoted.entries quoted.ends 1 "k" := by
    intro e he
    obtain rfl := Option.some.inj (hentry.symm.trans he)
    refine iff_of_false (not_le.mpr hlt) ?_
    rw [quoted, hends]
    norm_num
  rcases ((hrelated "k").mono hsecond).cases_inStep hinstep with
    ⟨hvacant, -⟩ | ⟨e, hfound, -, hwritable, hcell⟩
  · exact absurd (hvacant _ hentry) (not_le.mpr hlt)
  · obtain rfl := Option.some.inj (hentry.symm.trans hfound)
    have hquoted : Quoted "response" := by decide
    have hapart := @release_apart_of_quoted roomy _ _ _ hdepth "k" "response" 60 _ _ hentry hlt
      hwritable hcell rfl hquoted (by norm_num)
    show ¬ (Stores.after roomy quoted ⟨1, .release "k"⟩).Alike roomy ⟨1, .reserve "k" "response" 60⟩
    dsimp only [Stores.Alike, Stores.after]
    exact hapart

private def early : Stores := Stores.after roomy { now := 0 } ⟨0.128, .reserve "k" "f" 1⟩

/-- The sum is the next float after the time. -/
private theorem later_than_exact : monotonic 1.128 < monotonic 0.128 + .ofRat (1 : ℤ) := by
  have hstart := @Binary64.round_eq_div 0.128 4611686018427388 55 (by norm_num) (by norm_num)
    (by norm_num) (.inl (by norm_num [abs_lt]))
  have hsum := @Binary64.round_eq_div (4611686018427388 / 2 ^ 55 + 1) 5080060379673920 52
    (by norm_num) (by norm_num) (by norm_num)
    (.inr ⟨by norm_num [abs_of_neg], by norm_num⟩)
  have htime := @Binary64.round_eq_div 1.128 5080060379673919 52 (by norm_num) (by norm_num)
    (by norm_num) (.inl (by norm_num [abs_lt]))
  push_cast at hstart hsum htime
  rw [Binary64.lt_iff, Binary64.value_add, monotonic, monotonic, Binary64.value_ofRat,
    Binary64.value_ofRat, Binary64.value_ofRat, Binary64.round_intCast (by norm_num), Int.cast_one,
    hstart, hsum, htime]
  norm_num

/-- A second after 0.128 s is not over in floats. -/
theorem ends_apart : ∃ t s, (Stores.machine roomy 0).Run t s ∧
    t.map (·.event) = [⟨0.128, .reserve "k" "f" 1⟩, ⟨1.128, .reserve "k" "f" 1⟩] ∧
    ∃ τ ∈ t, ¬ τ.before.Meets roomy τ.event ∧ ¬ τ.before.Alike roomy τ.event := by
  have hfirst : (0 : Instant) ≤ 0.128 := by norm_num
  have hsecond : (0.128 : Instant) ≤ 1.128 := by norm_num
  have h := Machine.Run.nil (M := Stores.machine roomy 0)
  have h := h.snoc (e := ⟨0.128, .reserve "k" "f" 1⟩) (Stores.step_of_le hfirst)
  have h := h.snoc (e := ⟨1.128, .reserve "k" "f" 1⟩) (Stores.step_of_le hsecond)
  refine ⟨_, _, h, rfl, _, List.mem_append_right _ (List.mem_singleton_self _), ?_⟩
  have hlua : luaNumber 1 = 1 := by decide
  have hexpiry : expiry 0.128 1 = some (monotonic 0.128 + .ofRat (1 : ℤ)) := by
    rw [expiry, Binary64.ofInt_of_le (by norm_num), Option.map_some]
  have hclaimed := @related_claimed 0.128 "k" "f" 1 _ hfirst one_pos hexpiry
    (sendable_of_le (by decide)) (by norm_num [hlua, settable])
  obtain ⟨hrelated, hentry, hends⟩ := hclaimed
  have hout : ¬ StoreCall.InStep early.entries early.ends 1.128 "k" := by
    intro hinstep
    have hover : early.ends "k" ≤ 1.128 := by
      rw [early, hends, hlua]
      norm_num
    exact absurd ((hinstep _ hentry).mpr hover) (not_le.mpr later_than_exact)
  refine ⟨fun hmeets => hout (hmeets one_pos).1, ?_⟩
  exact reserve_apart_of_not_inStep (by decide) ((hrelated "k").mono hsecond) hout "f" one_pos

end Evenkeel.Properties
