import Evenkeel.Infrastructure.IdempotencyHolders

/-!
# Whose Receipt It Is

A reservation can expire while its holder works, and be taken by another. The stores do not
tell the two apart: the first holder confirms or releases what the second has reserved, and
the second's payload is answered with the first's receipt.
-/

namespace Evenkeel.Properties

open Evenkeel.Application Evenkeel.Effects Evenkeel.Python Evenkeel.Redis Evenkeel.Infrastructure

/-- Any holders of either store, with any keys, fingerprints, responses and positive TTLs, and
    any time between their steps: as long as nobody confirms or releases while the reservation
    of another is at the key, a receipt is the answer only to a payload with whose fingerprint
    somebody has reserved the key and confirmed that receipt, and no reservation is changed by
    anybody but its holder. -/
theorem receipts_belong {limits : Limits} (hdepth : 0 < limits.depth) {origin : Instant}
    {t : List (Transition MemoryHolders (Timed HolderCall))} {s : MemoryHolders}
    {u : List (Transition RedisHolders (Timed HolderCommand))} {r : RedisHolders}
    (hmemory : (MemoryHolders.machine origin).Run t s)
    (hmeets : ∀ τ ∈ t, τ.before.Meets τ.event)
    (hredis : (RedisHolders.machine limits origin).Run u r)
    (hjson : ∀ τ ∈ u, τ.event.action.Canonical)
    (hmeets' : ∀ τ ∈ u, τ.before.Meets limits τ.event) :
    (∀ τ ∈ t, MemoryHolders.Earns τ ∧ MemoryHolders.Leaves τ) ∧
      ∀ τ ∈ u, RedisHolders.Earns limits τ ∧ RedisHolders.Leaves τ := by
  constructor
  · apply hmemory.forall_of_guard (I := MemoryHolders.Backed) (G := MemoryHolders.Meets)
      (P := fun τ => MemoryHolders.Earns τ ∧ MemoryHolders.Leaves τ) MemoryHolders.backed_start
    · intro s e s' hbacked hguard hstep
      exact MemoryHolders.backed_of_step hbacked hguard hstep
    · intro s e s' hbacked hguard hstep
      exact ⟨MemoryHolders.earned_of_step hbacked hstep, MemoryHolders.left_of_step hguard hstep⟩
    · exact hmeets
  · apply hredis.forall_of_guard (I := RedisHolders.Backed limits)
      (G := fun s e => e.action.Canonical ∧ s.Meets limits e)
      (P := fun τ => RedisHolders.Earns limits τ ∧ RedisHolders.Leaves τ) RedisHolders.backed_start
    · intro s e s' hbacked hguard hstep
      exact RedisHolders.backed_of_step hdepth hbacked hguard.1 hguard.2 hstep
    · intro s e s' hbacked hguard hstep
      exact ⟨RedisHolders.earned_of_step hdepth hbacked hstep,
        RedisHolders.left_of_step hdepth hbacked hguard.2 hstep⟩
    · exact fun τ hτ => ⟨hjson τ hτ, hmeets' τ hτ⟩

private def receipt : Dict := [("entry_id", .str "1")]

private def holding (fingerprint : String) (expiresAt : Binary64) (response : Option Json) :
    Entries Json :=
  Function.update (fun _ => none) "k" (some ⟨fingerprint, expiresAt, response⟩)

/-! A reservation that expires after a second. Another holder takes the key for another
payload. -/

private def reserved : MemoryHolders := ⟨0, holding "f" (.ofRat 1) none, Claims.claim {} 0 "k" "f"⟩

private def retaken : MemoryHolders :=
  ⟨2, holding "g" (.ofRat 62) none, reserved.claims.claim 1 "k" "g"⟩

/-- A whole number of seconds ends after the seconds before it. -/
private theorem lasts_until {m n : ℤ} (hm : 0 ≤ m) (hn : n ≤ 2 ^ 53) (h : m < n) :
    ¬ Binary64.ofRat n ≤ monotonic m := by
  apply not_le.mpr
  apply Binary64.ofRat_intCast_lt _ _ h
  · rw [abs_of_nonneg hm]
    omega
  · rwa [abs_of_nonneg (hm.trans h.le)]

private theorem expires_early : expiry 0 1 = some (.ofRat 1) ∧ Binary64.ofRat 1 ≤ monotonic 2 := by
  constructor
  · exact_mod_cast expiry_zero zero_le_one (by norm_num)
  · exact Binary64.ofRat_mono one_le_two

private theorem expires_late : expiry 2 60 = some (.ofRat 62) ∧ ¬ Binary64.ofRat 62 ≤ monotonic 3 ∧
    expiry 3 60 = some (.ofRat 63) ∧ ¬ Binary64.ofRat 63 ≤ monotonic 4 ∧
    ¬ Binary64.ofRat 63 ≤ monotonic 5 := by
  refine ⟨?_, ?_, ?_, ?_, ?_⟩
  · exact_mod_cast @expiry_of_int 2 60 (by norm_num) (by norm_num) (by norm_num)
  · exact_mod_cast @lasts_until 3 62 (by norm_num) (by norm_num) (by norm_num)
  · exact_mod_cast @expiry_of_int 3 60 (by norm_num) (by norm_num) (by norm_num)
  · exact_mod_cast @lasts_until 4 63 (by norm_num) (by norm_num) (by norm_num)
  · exact_mod_cast @lasts_until 5 63 (by norm_num) (by norm_num) (by norm_num)

private theorem reserved_step : (MemoryHolders.machine 0).step (MemoryHolders.machine 0).start
    ⟨0, .reserve 0 "k" "f" 1⟩ = some reserved := by
  simp [MemoryHolders.machine, MemoryHolders.step, MemoryHolders.act, Entries.reserve, Entries.live,
    reserved, holding, expires_early, granted]

private theorem retaken_step :
    (MemoryHolders.machine 0).step reserved ⟨2, .reserve 1 "k" "g" 60⟩ = some retaken := by
  simp [MemoryHolders.machine, MemoryHolders.step, MemoryHolders.act, Entries.reserve, Entries.live,
    reserved, retaken, holding, Claims.claim, expires_early, expires_late, granted]

/-! The second holder confirms, and its payload is asked for again. The first one comes back
too late. -/

private def settled : MemoryHolders :=
  ⟨3, holding "g" (.ofRat 63) (some (.obj receipt)), retaken.claims.confirm 1 (.obj receipt)⟩

private theorem settled_step :
    (MemoryHolders.machine 0).step retaken ⟨3, .confirm 1 receipt 60⟩ = some settled := by
  norm_num [MemoryHolders.machine, MemoryHolders.step, MemoryHolders.act, Entries.confirm,
    Entries.live, reserved, retaken, settled, holding, Claims.claim, expires_late]

private theorem settled_answer : settled.entries.reserve 4 "k" "g" 60 =
    (.ok ⟨.completed, some ⟨"k", "g", .obj receipt⟩⟩, settled.entries) := by
  simp [Entries.reserve, Entries.live, settled, holding, expires_late]

private theorem settled_again : (MemoryHolders.machine 0).step settled
    ⟨4, .reserve 2 "k" "g" 60⟩ = some { settled with now := 4 } := by
  have hle : (3 : Instant) ≤ 4 := by norm_num
  simp [MemoryHolders.machine, MemoryHolders.step, MemoryHolders.act, Entries.reserve, Entries.live,
    settled, hle, holding, expires_late, granted, retaken, reserved, Claims.confirm, Claims.claim]

private theorem settled_late : (MemoryHolders.machine 0).step { settled with now := 4 }
    ⟨5, .release 0⟩ = some { settled with now := 5 } := by
  have hle : (4 : Instant) ≤ 5 := by norm_num
  simp [MemoryHolders.machine, MemoryHolders.step, MemoryHolders.act, settled, hle, retaken,
    reserved, Claims.confirm, Claims.claim, Entries.release, Entries.live, holding, expires_late,
    Entry.completed]

/-- The one who owns the key is not another. -/
private theorem not_others {s : MemoryHolders} {now : Instant} {h : ℕ} {key : String}
    {e : Entry Json} (howner : s.claims.owner key = some h) : ¬ s.Others now h key e := by
  rintro ⟨-, -, g, hg, hne⟩
  exact hne (Option.some.inj (hg.symm.trans howner))

private theorem memory_settles : ∃ t s, (MemoryHolders.machine 0).Run t s ∧
    t.map (·.event) = [⟨0, .reserve 0 "k" "f" 1⟩, ⟨2, .reserve 1 "k" "g" 60⟩,
      ⟨3, .confirm 1 [("entry_id", .str "1")] 60⟩, ⟨4, .reserve 2 "k" "g" 60⟩, ⟨5, .release 0⟩] ∧
    (∃ τ ∈ t, τ.event = ⟨4, .reserve 2 "k" "g" 60⟩ ∧
      (τ.before.entries.reserve 4 "k" "g" 60).1 =
        .ok ⟨.completed, some ⟨"k", "g", .obj [("entry_id", .str "1")]⟩⟩) ∧
    ∀ τ ∈ t, τ.before.Meets τ.event := by
  have h := Machine.Run.nil (M := MemoryHolders.machine 0)
  have h := h.snoc (e := ⟨0, .reserve 0 "k" "f" 1⟩) reserved_step
  have h := h.snoc (e := ⟨2, .reserve 1 "k" "g" 60⟩) retaken_step
  have h := h.snoc (e := ⟨3, .confirm 1 receipt 60⟩) settled_step
  have h := h.snoc (e := ⟨4, .reserve 2 "k" "g" 60⟩) settled_again
  have h := h.snoc (e := ⟨5, .release 0⟩) settled_late
  refine ⟨_, _, h, rfl, ⟨⟨settled, ⟨4, .reserve 2 "k" "g" 60⟩,
    { settled with now := 4 }⟩, by simp, rfl, ?_⟩, ?_⟩
  · rw [settled_answer]
    rfl
  intro τ hτ
  simp only [List.nil_append, List.cons_append, List.mem_cons, List.not_mem_nil, or_false] at hτ
  obtain rfl | rfl | rfl | rfl | rfl := hτ
  · trivial
  · trivial
  · -- nobody else holds what the second holder confirms
    intro claim entry hclaim
    obtain rfl : (⟨"k", "g"⟩ : Infrastructure.Claim) = claim := Option.some.inj hclaim
    exact not_others rfl
  · trivial
  · -- what the first holder finds is a completed record
    intro claim entry hclaim hothers
    obtain rfl : (⟨"k", "f"⟩ : Infrastructure.Claim) = claim := Option.some.inj hclaim
    obtain rfl := Option.some.inj hothers.1
    rfl

/-! The same on Redis. -/

section

variable {limits : Limits}

private def claimedText (fingerprint : String) : List Char :=
  (Payload.json ⟨fingerprint, none⟩).text

private def receiptText : List Char := (Payload.json ⟨"g", some (.obj receipt)⟩).text

private def firstTexts : Texts :=
  Keyspace.set (Keyspace.purge (fun _ => none) 0) (idemKey "k") (claimedText "f") (0 + (1 : ℤ))

private def secondTexts : Texts :=
  Keyspace.set (Keyspace.purge firstTexts 2) (idemKey "k") (claimedText "g") (2 + (60 : ℤ))

private def thirdTexts : Texts :=
  Keyspace.set (Keyspace.purge (Keyspace.purge secondTexts 3) 4) (idemKey "k") receiptText
    (4 + (60 : ℤ))

private def confirming : ℕ → Option Infrastructure.Confirmation :=
  Function.update (fun _ => none) 0 (some ⟨1, receipt, receiptText, 60⟩)

private def settledClaims : Claims :=
  (retaken.claims.confirm 1 (.obj receipt)).own 1 "k"

private theorem redis_settles (hdepth : 0 < limits.depth) (hsend : sendable limits 60 = true)
    (hsend' : sendable limits 1 = true) (hcheck : (Json.obj receipt).check limits 1 = .ok ()) :
    ∃ t s, (RedisHolders.machine limits 0).Run t s ∧
      t.map (·.event) = [⟨0, .reserve 0 "k" "f" 1⟩, ⟨2, .reserve 1 "k" "g" 60⟩,
        ⟨3, .get 0 1 [("entry_id", .str "1")] 60⟩, ⟨4, .set 0⟩, ⟨5, .reserve 2 "k" "g" 60⟩,
        ⟨6, .release 0⟩] ∧
      (∃ τ ∈ t, τ.event = ⟨5, .reserve 2 "k" "g" 60⟩ ∧
        (τ.before.db.reserve limits 5 "k" "g" 60).1 =
          .ok ⟨.completed, some ⟨"k", "g", .obj [("entry_id", .str "1")]⟩⟩) ∧
      (∀ τ ∈ t, τ.event.action.Canonical) ∧ ∀ τ ∈ t, τ.before.Meets limits τ.event := by
  have hcanonical : (Json.obj receipt).Canonical := by
    simp [receipt, Json.Canonical, CanonicalMembers]
  have hwritable : Payload.Writable limits ⟨"g", some (.obj receipt)⟩ :=
    writable_of_some rfl hcanonical hcheck
  have hsettable : ∀ {now : Instant}, now ≤ 4 → settable now 60 = true := by
    intro now hnow
    have hsmall : 1000 * (now + 60) < 2 ^ 63 := by linarith
    simpa [settable] using hsmall
  -- the first holder reserves for a second
  have hreserve : (RedisHolders.machine limits 0).step (RedisHolders.machine limits 0).start
      ⟨0, .reserve 0 "k" "f" 1⟩ = some ⟨0, firstTexts, reserved.claims, fun _ => none⟩ := by
    have hlua : luaNumber 1 = 1 := by decide
    have habsent : Keyspace.purge (fun _ => none : Texts) 0 (idemKey "k") = none := rfl
    have hresult := Texts.reserve_of_absent hdepth one_pos hsend' habsent
      (by norm_num [hlua, settable]) "f"
    rw [hlua] at hresult
    simp [RedisHolders.machine, RedisHolders.step, RedisHolders.act, hresult, granted, firstTexts,
      claimedText, reserved]
  -- the second one takes the key when that is over
  have hretake : (RedisHolders.machine limits 0).step
      ⟨0, firstTexts, reserved.claims, fun _ => none⟩ ⟨2, .reserve 1 "k" "g" 60⟩ =
      some ⟨2, secondTexts, retaken.claims, fun _ => none⟩ := by
    have hlua : luaNumber 60 = 60 := by decide
    have habsent : Keyspace.purge firstTexts 2 (idemKey "k") = none :=
      Keyspace.purge_of_elapsed Keyspace.set_self
        (Keyspace.elapsed_iff.mpr ⟨_, rfl, by norm_num⟩)
    have hresult := Texts.reserve_of_absent hdepth (by decide) hsend habsent
      (by rw [hlua]; exact hsettable (by norm_num)) "g"
    rw [hlua] at hresult
    simp [RedisHolders.machine, RedisHolders.step, RedisHolders.act, hresult, granted, secondTexts,
      claimedText, reserved, retaken, Claims.claim]
  -- and confirms: the text is read
  have hget : (RedisHolders.machine limits 0).step ⟨2, secondTexts, retaken.claims, fun _ => none⟩
      ⟨3, .get 0 1 receipt 60⟩ =
      some ⟨3, Keyspace.purge secondTexts 3, retaken.claims, confirming⟩ := by
    have hle : (2 : Instant) ≤ 3 := by norm_num
    have hcell : Keyspace.purge secondTexts 3 (idemKey "k") =
        some ⟨claimedText "g", some (2 + (60 : ℤ))⟩ :=
      Keyspace.purge_of_live Keyspace.set_self (by norm_num [Cell.elapsed])
    have hresult :=
      Texts.confirmGet_of_present hdepth (writable_of_none rfl) hcanonical hcheck hcell
    have hholder : retaken.claims.holders 1 = some ⟨"k", "g"⟩ := rfl
    simp [RedisHolders.machine, RedisHolders.step, RedisHolders.act, hle, hholder, hresult,
      confirming, receiptText]
  -- and written
  have hset : (RedisHolders.machine limits 0).step
      ⟨3, Keyspace.purge secondTexts 3, retaken.claims, confirming⟩ ⟨4, .set 0⟩ =
      some ⟨4, thirdTexts, settledClaims, fun _ => none⟩ := by
    have hle : (3 : Instant) ≤ 4 := by norm_num
    have hholder : retaken.claims.holders 1 = some ⟨"k", "g"⟩ := rfl
    simp [RedisHolders.machine, RedisHolders.step, RedisHolders.act, hle, hholder, confirming,
      Texts.confirmSet, hsend, hsettable, thirdTexts, settledClaims]
  -- the payload is asked for again, and answered with the receipt
  have hcell : Keyspace.purge thirdTexts 5 (idemKey "k") =
      some ⟨receiptText, some (4 + (60 : ℤ))⟩ :=
    Keyspace.purge_of_live Keyspace.set_self (by norm_num [Cell.elapsed])
  have hanswer := Texts.reserve_of_present hdepth (by decide) hsend hwritable hcell "g"
  have hagain : (RedisHolders.machine limits 0).step
      ⟨4, thirdTexts, settledClaims, fun _ => none⟩ ⟨5, .reserve 2 "k" "g" 60⟩ =
      some ⟨5, Keyspace.purge thirdTexts 5, settledClaims, fun _ => none⟩ := by
    have hle : (4 : Instant) ≤ 5 := by norm_num
    have hfresh : settledClaims.holders 2 = none := rfl
    simp [RedisHolders.machine, RedisHolders.step, RedisHolders.act, hle, hfresh, hanswer, granted]
  -- the first one comes back late
  have hlate : (RedisHolders.machine limits 0).step
      ⟨5, Keyspace.purge thirdTexts 5, settledClaims, fun _ => none⟩ ⟨6, .release 0⟩ =
      some ⟨6, Texts.release (Keyspace.purge thirdTexts 5) 6 "k", settledClaims,
        fun _ => none⟩ := by
    have hle : (5 : Instant) ≤ 6 := by norm_num
    have hholder : settledClaims.holders 0 = some ⟨"k", "f"⟩ := rfl
    simp [RedisHolders.machine, RedisHolders.step, RedisHolders.act, hle, hholder]
  have h := Machine.Run.nil (M := RedisHolders.machine limits 0)
  have h := h.snoc (e := ⟨0, .reserve 0 "k" "f" 1⟩) hreserve
  have h := h.snoc (e := ⟨2, .reserve 1 "k" "g" 60⟩) hretake
  have h := h.snoc (e := ⟨3, .get 0 1 receipt 60⟩) hget
  have h := h.snoc (e := ⟨4, .set 0⟩) hset
  have h := h.snoc (e := ⟨5, .reserve 2 "k" "g" 60⟩) hagain
  have h := h.snoc (e := ⟨6, .release 0⟩) hlate
  refine ⟨_, _, h, rfl, ⟨⟨⟨4, thirdTexts, settledClaims, fun _ => none⟩,
    ⟨5, .reserve 2 "k" "g" 60⟩, _⟩, by simp; rfl, rfl, ?_⟩, ?_, ?_⟩
  · rw [hanswer]
    rfl
  · -- the receipt is an object of JSON values
    intro τ hτ
    simp only [List.nil_append, List.cons_append, List.mem_cons, List.not_mem_nil, or_false] at hτ
    obtain rfl | rfl | rfl | rfl | rfl | rfl := hτ
    · trivial
    · trivial
    · exact hcanonical
    · trivial
    · trivial
    · trivial
  · -- no step meets the reservation of another
    intro τ hτ
    simp only [List.nil_append, List.cons_append, List.mem_cons, List.not_mem_nil, or_false] at hτ
    obtain rfl | rfl | rfl | rfl | rfl | rfl := hτ
    · trivial
    · trivial
    · trivial
    · -- the written text is that of the second holder's payload
      intro p claim hp hclaim _ _
      obtain rfl : (⟨1, receipt, receiptText, 60⟩ : Infrastructure.Confirmation) = p :=
        Option.some.inj hp
      obtain rfl : (⟨"k", "g"⟩ : Infrastructure.Claim) = claim := Option.some.inj hclaim
      constructor
      · exact ⟨_, loads_payload hdepth hwritable, rfl⟩
      · rintro cell ⟨-, g, howner, hg⟩
        exact hg (Option.some.inj howner).symm
    · trivial
    · -- what the first holder finds is a completed record
      rintro claim cell hclaim ⟨hfound, -⟩
      obtain rfl : (⟨"k", "f"⟩ : Infrastructure.Claim) = claim := Option.some.inj hclaim
      have hstored := (Keyspace.purge_eq_some_iff.mp hfound).1
      obtain rfl := Option.some.inj (hcell.symm.trans hstored)
      exact mark_infix_iff.mpr (.inl rfl)

end

/-- Both, as the theorem has them: a second holder after an expiry, whose payload is answered
    with the receipt, and a first one who comes back. -/
theorem receipts_belong_confirmed : ∃ t s u r, (MemoryHolders.machine 0).Run t s ∧
    (RedisHolders.machine ⟨4300, 10000⟩ 0).Run u r ∧
    t.map (·.event) = [⟨0, .reserve 0 "k" "f" 1⟩, ⟨2, .reserve 1 "k" "g" 60⟩,
      ⟨3, .confirm 1 [("entry_id", .str "1")] 60⟩, ⟨4, .reserve 2 "k" "g" 60⟩, ⟨5, .release 0⟩] ∧
    u.map (·.event) = [⟨0, .reserve 0 "k" "f" 1⟩, ⟨2, .reserve 1 "k" "g" 60⟩,
      ⟨3, .get 0 1 [("entry_id", .str "1")] 60⟩, ⟨4, .set 0⟩, ⟨5, .reserve 2 "k" "g" 60⟩,
      ⟨6, .release 0⟩] ∧
    (∃ τ ∈ t, τ.event = ⟨4, .reserve 2 "k" "g" 60⟩ ∧
      (τ.before.entries.reserve 4 "k" "g" 60).1 =
        .ok ⟨.completed, some ⟨"k", "g", .obj [("entry_id", .str "1")]⟩⟩) ∧
    (∃ τ ∈ u, τ.event = ⟨5, .reserve 2 "k" "g" 60⟩ ∧
      (τ.before.db.reserve ⟨4300, 10000⟩ 5 "k" "g" 60).1 =
        .ok ⟨.completed, some ⟨"k", "g", .obj [("entry_id", .str "1")]⟩⟩) ∧
    (∀ τ ∈ t, MemoryHolders.Earns τ ∧ MemoryHolders.Leaves τ) ∧
      ∀ τ ∈ u, RedisHolders.Earns ⟨4300, 10000⟩ τ ∧ RedisHolders.Leaves τ := by
  obtain ⟨t, s, hmemory, hevents, hanswer, hmeets⟩ := memory_settles
  obtain ⟨u, r, hredis, hcommands, hanswer', hjson, hmeets'⟩ :=
    @redis_settles ⟨4300, 10000⟩ (by decide) (sendable_of_le (by decide))
      (sendable_of_le (by decide)) rfl
  exact ⟨t, s, u, r, hmemory, hredis, hevents, hcommands, hanswer, hanswer',
    receipts_belong (by decide) hmemory hmeets hredis hjson hmeets'⟩

/-! But the first one may confirm, before the second one retries. -/

private def overtaken : MemoryHolders :=
  ⟨3, holding "g" (.ofRat 63) (some (.obj receipt)), retaken.claims.confirm 0 (.obj receipt)⟩

private theorem overtaken_step :
    (MemoryHolders.machine 0).step retaken ⟨3, .confirm 0 receipt 60⟩ = some overtaken := by
  norm_num [MemoryHolders.machine, MemoryHolders.step, MemoryHolders.act, Entries.confirm,
    Entries.live, reserved, retaken, overtaken, holding, Claims.claim, expires_late]

private theorem overtaken_answer : (overtaken.entries.reserve 4 "k" "g" 60).1 =
    .ok ⟨.completed, some ⟨"k", "g", .obj receipt⟩⟩ := by
  simp [Entries.reserve, Entries.live, overtaken, holding, expires_late]

private theorem overtaken_again : (MemoryHolders.machine 0).step overtaken
    ⟨4, .reserve 2 "k" "g" 60⟩ = some { overtaken with now := 4 } := by
  have hle : (3 : Instant) ≤ 4 := by norm_num
  simp [MemoryHolders.machine, MemoryHolders.step, MemoryHolders.act, Entries.reserve, Entries.live,
    overtaken, hle, holding, expires_late, granted, retaken, reserved, Claims.confirm, Claims.claim]

theorem receipt_of_another : ∃ t s, (MemoryHolders.machine 0).Run t s ∧
    t.map (·.event) = [⟨0, .reserve 0 "k" "f" 1⟩, ⟨2, .reserve 1 "k" "g" 60⟩,
      ⟨3, .confirm 0 [("entry_id", .str "1")] 60⟩, ⟨4, .reserve 2 "k" "g" 60⟩] ∧
    (∃ τ ∈ t, ¬ MemoryHolders.Leaves τ) ∧ ∃ τ ∈ t, ¬ MemoryHolders.Earns τ := by
  have h := Machine.Run.nil (M := MemoryHolders.machine 0)
  have h := h.snoc (e := ⟨0, .reserve 0 "k" "f" 1⟩) reserved_step
  have h := h.snoc (e := ⟨2, .reserve 1 "k" "g" 60⟩) retaken_step
  have h := h.snoc (e := ⟨3, .confirm 0 receipt 60⟩) overtaken_step
  have h := h.snoc (e := ⟨4, .reserve 2 "k" "g" 60⟩) overtaken_again
  refine ⟨_, _, h, rfl, ⟨⟨retaken, ⟨3, .confirm 0 receipt 60⟩, overtaken⟩, by simp, ?_⟩,
    ⟨overtaken, ⟨4, .reserve 2 "k" "g" 60⟩, { overtaken with now := 4 }⟩, by simp, ?_⟩
  · intro hleaves
    have hlt : monotonic 3 < .ofRat 62 := not_le.mp expires_late.2.1
    have hkept := hleaves "k" ⟨"g", .ofRat 62, none⟩ ⟨rfl, hlt, 1, rfl, by decide⟩
    simp [overtaken, holding] at hkept
  · intro hearns
    -- the only confirmation is that of the first holder
    obtain ⟨-, -, h, hholder, hconfirmed⟩ := hearns _ overtaken_answer
    have hfirst : h = 0 := by
      simpa [overtaken, retaken, reserved, Claims.confirm, Claims.claim] using hconfirmed
    subst hfirst
    simp [overtaken, retaken, reserved, Claims.confirm, Claims.claim] at hholder

end Evenkeel.Properties
