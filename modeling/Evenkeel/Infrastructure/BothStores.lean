import Evenkeel.Effects.Machine
import Evenkeel.Infrastructure.RedisIdempotency

/-!
# Both Idempotency Stores

The in-memory and the Redis store side by side, on the same calls and the same clock, which one
reads as a float and the other as it is.

- `Stores.machine`: both stores, and when the TTL of a key is over
- `Alike`: whether a call has the same answer from both
- `Meets`: whether the clocks agree on the key, and both stores can do what a call asks for

## Key Results

- `Matches.cases_inStep`: if the clocks agree, a key is vacant in both stores or live in both
- `related_of_step`: the texts are those of the entries, as long as the calls meet the guard
- `alike_of_meets`, `apart_of_not_meets`: such a call has one answer, and no other is safe
-/

namespace Evenkeel.Infrastructure

open Evenkeel.Application Evenkeel.Effects Evenkeel.Python Evenkeel.Redis

/-- A call of either store. -/
inductive StoreCall where
  | reserve (key fingerprint : String) (ttlSeconds : ℤ)
  | confirm (key : String) (response : Dict) (ttlSeconds : ℤ)
  | release (key : String)

/-- What a call returns or raises. -/
abbrev StoreAnswer : Type := Except Exn (Option (IdempotencyReservation Json))

def Entries.answer (s : Entries Json) (now : Instant) : StoreCall → StoreAnswer × Entries Json
  | .reserve key fingerprint ttlSeconds =>
    let (reservation, s) := s.reserve now key fingerprint ttlSeconds
    (reservation.map some, s)
  | .confirm key response ttlSeconds =>
    let (done, s) := s.confirm now key (.obj response) ttlSeconds
    (done.map fun _ => none, s)
  | .release key => (.ok none, s.release now key)

def Texts.answer (limits : Limits) (db : Texts) (now : Instant) : StoreCall → StoreAnswer × Texts
  | .reserve key fingerprint ttlSeconds =>
    let (reservation, db) := db.reserve limits now key fingerprint ttlSeconds
    (reservation.map some, db)
  | .confirm key response ttlSeconds =>
    let (done, db) := db.confirm limits now key response ttlSeconds
    (done.map fun _ => none, db)
  | .release key => (.ok none, db.release now key)

/-- When the TTL of a key is over, exactly. -/
abbrev Endings : Type := String → Instant

/-- Both stores, and the time of the last call. No store has the exact ends. -/
structure Stores where
  now : Instant
  entries : Entries Json := fun _ => none
  db : Texts := fun _ => none
  ends : Endings := fun _ => 0

/-- A call, at a time. -/
structure TimedCall where
  now : Instant
  call : StoreCall

namespace StoreCall

def key : StoreCall → String
  | .reserve key _ _ => key
  | .confirm key _ _ => key
  | .release key => key

/-- The ends after a call: a claim of a vacant key begins a TTL, and so does a confirmation of
    one that is not. -/
def after (entries : Entries Json) (now : Instant) (ends : Endings) : StoreCall → Endings
  | .reserve key _ ttlSeconds =>
    if 0 < ttlSeconds ∧ (entries.live now key).1.isNone then
      Function.update ends key (now + luaNumber ttlSeconds)
    else ends
  | .confirm key _ ttlSeconds =>
    if 0 < ttlSeconds ∧ (entries.live now key).1.isSome then
      Function.update ends key (now + ttlSeconds)
    else ends
  | .release _ => ends

/-- A response is an object of JSON values. -/
def Canonical : StoreCall → Prop
  | .confirm _ response _ => (Json.obj response).Canonical
  | _ => True

/-- The TTL of the key's entry is over in floats exactly if it is over. -/
def InStep (entries : Entries Json) (ends : Endings) (now : Instant) (key : String) : Prop :=
  ∀ e, entries key = some e → (e.expiresAt ≤ monotonic now ↔ ends key ≤ now)

/-- Whether the clocks agree on the entry, both stores can do what the call asks for, and the
    release script does not take a fingerprint for a response. All is as before the call. -/
def Meets (limits : Limits) (entries : Entries Json) (ends : Endings) (now : Instant) :
    StoreCall → Prop
  | .reserve key _ ttlSeconds =>
    0 < ttlSeconds → InStep entries ends now key ∧ sendable limits ttlSeconds = true ∧
      (entries.Vacant now key → settable now (luaNumber ttlSeconds) = true ∧
        (expiry now ttlSeconds).isSome = true)
  | .confirm key response ttlSeconds =>
    0 < ttlSeconds → InStep entries ends now key ∧
      (¬ entries.Vacant now key → sendable limits ttlSeconds = true ∧
        settable now ttlSeconds = true ∧ (Json.obj response).check limits 1 = .ok () ∧
        (expiry now ttlSeconds).isSome = true)
  | .release key => InStep entries ends now key ∧
      ∀ e, entries key = some e → monotonic now < e.expiresAt → e.completed = false →
        ¬ Quoted e.fingerprint

instance (entries : Entries Json) (ends : Endings) (now : Instant) (key : String) :
    Decidable (InStep entries ends now key) :=
  inferInstanceAs (Decidable (∀ e ∈ entries key, (e.expiresAt ≤ monotonic now ↔ ends key ≤ now)))

instance (limits : Limits) (entries : Entries Json) (ends : Endings) (now : Instant) :
    (call : StoreCall) → Decidable (call.Meets limits entries ends now)
  | .reserve .. => inferInstanceAs (Decidable (_ → _ ∧ _ ∧ (_ → _ ∧ _)))
  | .confirm .. => inferInstanceAs (Decidable (_ → _ ∧ (_ → _ ∧ _ ∧ _ ∧ _)))
  | .release key => inferInstanceAs (Decidable (_ ∧ ∀ e ∈ entries key, monotonic now < e.expiresAt →
      e.completed = false → ¬ Quoted e.fingerprint))

end StoreCall

open StoreCall (InStep)

/-- An entry, and its text until the end of its TTL; or neither. -/
inductive Matches (limits : Limits) (entries : Entries Json) (db : Texts) (ends : Endings)
    (now : Instant) (key : String) : Prop where
  | empty (hentry : entries key = none) (habsent : Keyspace.purge db now (idemKey key) = none)
  | ended (e : Entry Json) (hentry : entries key = some e) (hends : ends key ≤ now)
      (habsent : Keyspace.purge db now (idemKey key) = none)
  | lasting (e : Entry Json) (hentry : entries key = some e) (hends : now < ends key)
      (hwritable : e.payload.Writable limits)
      (hcell : Keyspace.purge db now (idemKey key) = some ⟨e.payload.json.text, some (ends key)⟩)

namespace Matches

variable {limits : Limits} {entries entries' : Entries Json} {db db' : Texts} {ends ends' : Endings}
  {now now' : Instant} {key k : String}

theorem congr (h : Matches limits entries db ends now key) (hentries : entries' key = entries key)
    (hends' : ends' key = ends key)
    (hdb : Keyspace.purge db' now (idemKey key) = Keyspace.purge db now (idemKey key)) :
    Matches limits entries' db' ends' now key := by
  cases h with
  | empty hentry habsent => exact empty (hentries.trans hentry) (hdb.trans habsent)
  | ended e hentry hends habsent =>
    exact ended e (hentries.trans hentry) (hends'.trans_le hends) (hdb.trans habsent)
  | lasting e hentry hends hwritable hcell =>
    refine lasting e (hentries.trans hentry) (hends.trans_eq hends'.symm) hwritable (hdb.trans ?_)
    rw [hcell, hends']

theorem mono (h : Matches limits entries db ends now key) (hle : now ≤ now') :
    Matches limits entries db ends now' key := by
  cases h with
  | empty hentry habsent => exact empty hentry (Keyspace.purge_mono habsent hle)
  | ended e hentry hends habsent =>
    exact ended e hentry (hends.trans hle) (Keyspace.purge_mono habsent hle)
  | lasting e hentry hends hwritable hcell =>
    have hstored := (Keyspace.purge_eq_some_iff.mp hcell).1
    by_cases hover : ends key ≤ now'
    · apply ended e hentry hover
      exact Keyspace.purge_of_elapsed hstored (Keyspace.elapsed_iff.mpr ⟨_, rfl, hover⟩)
    · apply lasting e hentry (not_le.mp hover) hwritable
      apply Keyspace.purge_of_live hstored
      simp [Cell.elapsed, hover]

/-- If the clocks agree, the key is vacant in both stores or live in both. -/
theorem cases_inStep (h : Matches limits entries db ends now key)
    (hinstep : InStep entries ends now key) :
    (entries.Vacant now key ∧ Keyspace.purge db now (idemKey key) = none) ∨
      ∃ e, entries key = some e ∧ monotonic now < e.expiresAt ∧ e.payload.Writable limits ∧
        Keyspace.purge db now (idemKey key) = some ⟨e.payload.json.text, some (ends key)⟩ := by
  cases h with
  | empty hentry habsent =>
    left
    refine ⟨fun e he => ?_, habsent⟩
    rw [hentry] at he
    cases he
  | ended e hentry hends habsent =>
    left
    refine ⟨fun e' he' => ?_, habsent⟩
    exact (hinstep e' he').mpr hends
  | lasting e hentry hends hwritable hcell =>
    right
    refine ⟨e, hentry, not_le.mp fun hover => ?_, hwritable, hcell⟩
    exact absurd ((hinstep e hentry).mp hover) (not_le.mpr hends)

/-- A key that is written with an entry and its text. -/
theorem of_set {e : Entry Json} {t : Instant} (hentry : entries' key = some e)
    (hends : ends' key = t) (hwritable : e.payload.Writable limits) :
    Matches limits entries' (Keyspace.set (Keyspace.purge db now) (idemKey key)
      e.payload.json.text t) ends' now key := by
  subst hends
  by_cases hover : ends' key ≤ now
  · apply ended e hentry hover
    exact Keyspace.purge_of_elapsed Keyspace.set_self (Keyspace.elapsed_iff.mpr ⟨_, rfl, hover⟩)
  · apply lasting e hentry (not_le.mp hover) hwritable
    apply Keyspace.purge_of_live Keyspace.set_self
    simp [Cell.elapsed, hover]

/-- The other keys, when one is written. -/
theorem of_set_of_ne (h : Matches limits entries db ends now k) (hk : k ≠ key)
    (hentries : entries' k = entries k) (hends : ends' k = ends k) {text : List Char}
    {t : Instant} :
    Matches limits entries' (Keyspace.set (Keyspace.purge db now) (idemKey key) text t) ends' now
      k := by
  apply h.congr hentries hends
  have hne : idemKey k ≠ idemKey key := fun heq => hk (idemKey_injective heq)
  rw [Keyspace.purge_congr (Keyspace.set_of_ne hne), Keyspace.purge_purge]

/-- Nothing happens to a key that Redis does not have, but that its entry may be deleted. -/
theorem of_absent (h : Matches limits entries db ends now key)
    (hentries : ∀ e, entries' key = some e → entries key = some e)
    (habsent : Keyspace.purge db now (idemKey key) = none)
    (habsent' : Keyspace.purge db' now (idemKey key) = none) :
    Matches limits entries' db' ends now key := by
  cases hentry : entries' key with
  | none => exact empty hentry habsent'
  | some e =>
    cases h with
    | empty hnone _ =>
      rw [hentries e hentry] at hnone
      cases hnone
    | ended _ _ hends _ => exact ended e hentry hends habsent'
    | lasting _ _ _ _ hcell =>
      rw [habsent] at hcell
      cases hcell

end Matches

section Agreement

variable {limits : Limits} {entries : Entries Json} {db : Texts} {ends : Endings} {now : Instant}

/-- The stores agree on a call: one answer, and matching entries again. -/
def Agree (limits : Limits) (entries : Entries Json) (db : Texts) (ends : Endings) (now : Instant)
    (call : StoreCall) : Prop :=
  (entries.answer now call).1 = (db.answer limits now call).1 ∧
    ∀ k, Matches limits (entries.answer now call).2 (db.answer limits now call).2
      (call.after entries now ends) now k

theorem reserve_agree (hdepth : 0 < limits.depth)
    (hmatches : ∀ k, Matches limits entries db ends now k) {key fingerprint : String}
    {ttlSeconds : ℤ}
    (hmeets : (StoreCall.reserve key fingerprint ttlSeconds).Meets limits entries ends now) :
    Agree limits entries db ends now (.reserve key fingerprint ttlSeconds) := by
  by_cases httl : ttlSeconds ≤ 0
  · -- nothing is stored
    simpa [Agree, Entries.answer, Texts.answer, Entries.reserve, Texts.reserve, httl, Except.map,
      StoreCall.after, not_lt.mpr httl] using hmatches
  have hpos := not_le.mp httl
  obtain ⟨hinstep, hsend, hvacant⟩ := hmeets hpos
  rcases (hmatches key).cases_inStep hinstep with
    ⟨hentry, habsent⟩ | ⟨e, hentry, hlt, hwritable, hcell⟩
  · -- neither store has the key: both write the claim
    obtain ⟨hset, hsome⟩ := hvacant hentry
    obtain ⟨expiresAt, hexpiry⟩ := Option.isSome_iff_exists.mp hsome
    obtain ⟨hanswer, hstored⟩ := Entries.reserve_of_vacant hentry fingerprint hpos hexpiry
    have hredis := Texts.reserve_of_absent hdepth hpos hsend habsent hset fingerprint
    have hafter : (StoreCall.reserve key fingerprint ttlSeconds).after entries now ends =
        Function.update ends key (now + luaNumber ttlSeconds) := by
      simp [StoreCall.after, hpos, Entries.live_of_vacant hentry]
    constructor
    · simp [Entries.answer, Texts.answer, hanswer, hredis, Except.map]
    · intro k
      rw [hafter]
      simp only [Entries.answer, Texts.answer, hredis]
      by_cases hk : k = key
      · subst hk
        exact Matches.of_set hstored (Function.update_self ..) (writable_of_none rfl)
      · exact (hmatches k).of_set_of_ne hk (Entries.reserve_frame hk) (Function.update_of_ne hk ..)
  · -- both have it: both answer from the entry, and neither writes
    have hmemory := Entries.reserve_of_live hentry hlt fingerprint hpos
    have hredis := Texts.reserve_of_present hdepth hpos hsend hwritable hcell fingerprint
    have hafter : (StoreCall.reserve key fingerprint ttlSeconds).after entries now ends = ends := by
      simp [StoreCall.after, Entries.live_of_lt hentry hlt]
    constructor
    · cases hr : e.response with
      | none => simp [Entries.answer, Texts.answer, hmemory, hredis, hr, Except.map, Entry.payload]
      | some r =>
        simp [Entries.answer, Texts.answer, hmemory, hredis, hr, Except.map, Entry.payload]
    · intro k
      rw [hafter]
      simp only [Entries.answer, Texts.answer, hmemory, hredis]
      exact (hmatches k).congr rfl rfl (by rw [Keyspace.purge_purge])

theorem confirm_agree (hdepth : 0 < limits.depth)
    (hmatches : ∀ k, Matches limits entries db ends now k) {key : String} {response : Dict}
    {ttlSeconds : ℤ} (hresponse : (Json.obj response).Canonical)
    (hmeets : (StoreCall.confirm key response ttlSeconds).Meets limits entries ends now) :
    Agree limits entries db ends now (.confirm key response ttlSeconds) := by
  by_cases httl : ttlSeconds ≤ 0
  · -- nothing is confirmed
    simpa [Agree, Entries.answer, Texts.answer, Entries.confirm, Texts.confirm, httl, Except.map,
      StoreCall.after, not_lt.mpr httl] using hmatches
  have hpos := not_le.mp httl
  obtain ⟨hinstep, hlive⟩ := hmeets hpos
  rcases (hmatches key).cases_inStep hinstep with
    ⟨hentry, habsent⟩ | ⟨e, hentry, hlt, hwritable, hcell⟩
  · -- the reservation has expired, and is not brought back
    obtain ⟨hdone, hpurge⟩ := Texts.confirm_of_absent habsent limits response ttlSeconds
    obtain ⟨hmemory, hkept⟩ := Entries.confirm_of_vacant hentry (.obj response) ttlSeconds
    have hafter : (StoreCall.confirm key response ttlSeconds).after entries now ends = ends := by
      simp [StoreCall.after, Entries.live_of_vacant hentry]
    constructor
    · simp [Entries.answer, Texts.answer, hdone, hmemory, Except.map]
    · intro k
      rw [hafter]
      simp only [Entries.answer, Texts.answer]
      by_cases hk : k = key
      · subst hk
        exact (hmatches k).of_absent hkept habsent (by rw [hpurge, habsent])
      · exact (hmatches k).congr (Entries.confirm_frame hk) rfl (by rw [hpurge])
  · -- both have the entry, and both write the record over it
    have hnot : ¬ entries.Vacant now key :=
      fun hvacant => absurd (hvacant e hentry) (not_le.mpr hlt)
    obtain ⟨hsend, hset, hcheck, hsome⟩ := hlive hnot
    have hstored := Entries.confirm_of_live hentry hlt (.obj response) hpos
    have hredis := Texts.confirm_of_present hdepth hpos hsend hset hwritable hresponse hcheck hcell
    have hafter : (StoreCall.confirm key response ttlSeconds).after entries now ends =
        Function.update ends key (now + ttlSeconds) := by
      simp [StoreCall.after, hpos, Entries.live_of_lt hentry hlt]
    constructor
    · simp [Entries.answer, Texts.answer, hredis, Entries.confirm_ok hsome, Except.map]
    · intro k
      rw [hafter]
      simp only [Entries.answer, Texts.answer, hredis]
      by_cases hk : k = key
      · subst hk
        exact Matches.of_set hstored (Function.update_self ..)
          (writable_of_some rfl hresponse hcheck)
      · exact (hmatches k).of_set_of_ne hk (Entries.confirm_frame hk) (Function.update_of_ne hk ..)

theorem release_agree (hmatches : ∀ k, Matches limits entries db ends now k) {key : String}
    (hmeets : (StoreCall.release key).Meets limits entries ends now) :
    Agree limits entries db ends now (.release key) := by
  apply And.intro rfl
  intro k
  simp only [Entries.answer, Texts.answer, StoreCall.after]
  obtain ⟨hinstep, hplain⟩ := hmeets
  rcases (hmatches key).cases_inStep hinstep with
    ⟨hentry, habsent⟩ | ⟨e, hentry, hlt, hwritable, hcell⟩
  · -- neither store has the key, and both leave it at that
    rw [Texts.release_of_absent habsent]
    by_cases hk : k = key
    · subst hk
      exact (hmatches k).of_absent (fun _ => Entries.of_release) habsent
        (by rw [Keyspace.purge_purge, habsent])
    · exact (hmatches k).congr (Entries.release_frame hk) rfl (by rw [Keyspace.purge_purge])
  · -- both have it; what Redis can see of it is its text
    rw [Texts.release_of_present hcell]
    cases hcompleted : e.completed with
    | true =>
      -- a record stays in both
      rw [Entries.release_of_completed hentry hlt hcompleted, if_pos (.inl hcompleted)]
      exact (hmatches k).congr rfl rfl (by rw [Keyspace.purge_purge])
    | false =>
      -- a reservation goes from both, since its text has no record's mark
      have hopen : ¬ (e.payload.response.isSome = true ∨ Quoted e.payload.fingerprint) := by
        rintro (hsome | hquoted)
        · exact Bool.false_ne_true (hcompleted.symm.trans hsome)
        · exact hplain e hentry hlt hcompleted hquoted
      rw [if_neg hopen]
      by_cases hk : k = key
      · subst hk
        apply Matches.empty
        · exact Entries.release_of_open hentry hlt hcompleted
        · exact Keyspace.purge_of_none Keyspace.del_self
      · have hne : idemKey k ≠ idemKey key := fun heq => hk (idemKey_injective heq)
        apply (hmatches k).congr (Entries.release_frame hk) rfl
        rw [Keyspace.purge_congr (Keyspace.del_of_ne hne), Keyspace.purge_purge]

/-! ## Apart -/

/-- A key that only Redis holds has two answers. -/
theorem reserve_apart_of_vacant (hdepth : 0 < limits.depth) {key fingerprint : String}
    {ttlSeconds : ℤ} (hpos : 0 < ttlSeconds) {p : Payload} {ends : Option Instant}
    (hvacant : entries.Vacant now key) (hwritable : p.Writable limits)
    (hcell : Keyspace.purge db now (idemKey key) = some ⟨p.json.text, ends⟩) :
    (entries.answer now (.reserve key fingerprint ttlSeconds)).1 ≠
      (db.answer limits now (.reserve key fingerprint ttlSeconds)).1 := by
  have hmemory : (entries.reserve now key fingerprint ttlSeconds).1 = .ok ⟨.reserved, none⟩ ∨
      (entries.reserve now key fingerprint ttlSeconds).1 = .error overflowError := by
    cases hexpiry : expiry now ttlSeconds with
    | none => exact .inr (Entries.reserve_of_overflow hvacant fingerprint hpos hexpiry).1
    | some expiresAt => exact .inl (Entries.reserve_of_vacant hvacant fingerprint hpos hexpiry).1
  -- Redis cannot be sent the time to live, or it answers from its entry
  cases hsend : sendable limits ttlSeconds with
  | false =>
    have hredis := Texts.reserve_of_unsendable hdepth hpos hsend db now key fingerprint
    rcases hmemory with hmemory | hmemory <;>
      simp [Entries.answer, Texts.answer, hmemory, hredis, Except.map, overflowError]
  | true =>
    have hredis := Texts.reserve_of_present hdepth hpos hsend hwritable hcell fingerprint
    rcases hmemory with hmemory | hmemory
    · simp only [Entries.answer, Texts.answer, hmemory, hredis, Except.map]
      by_cases hfp : p.fingerprint = fingerprint
      · cases hr : p.response with
        | none => simp [hfp]
        | some r => simp [hfp]
      · simp [hfp]
    · simp [Entries.answer, Texts.answer, hmemory, hredis, Except.map]

/-- And one that only memory holds. -/
theorem reserve_apart_of_absent (hdepth : 0 < limits.depth) {key fingerprint : String}
    {ttlSeconds : ℤ} (hpos : 0 < ttlSeconds) {e : Entry Json} (hentry : entries key = some e)
    (hlt : monotonic now < e.expiresAt) (habsent : Keyspace.purge db now (idemKey key) = none) :
    (entries.answer now (.reserve key fingerprint ttlSeconds)).1 ≠
      (db.answer limits now (.reserve key fingerprint ttlSeconds)).1 := by
  have hmemory := Entries.reserve_of_live hentry hlt fingerprint hpos
  -- the entry ran out in Redis first: there the key is claimed anew, if it can be
  cases hsend : sendable limits ttlSeconds with
  | false =>
    have hredis := Texts.reserve_of_unsendable hdepth hpos hsend db now key fingerprint
    simp [Entries.answer, Texts.answer, hmemory, hredis, Except.map]
  | true =>
    cases hset : settable now (luaNumber ttlSeconds) with
    | false =>
      have hredis := Texts.reserve_of_unsettable hdepth hpos hsend habsent hset fingerprint
      simp [Entries.answer, Texts.answer, hmemory, hredis, Except.map]
    | true =>
      have hredis := Texts.reserve_of_absent hdepth hpos hsend habsent hset fingerprint
      simp only [Entries.answer, Texts.answer, hmemory, hredis, Except.map]
      by_cases hfp : e.fingerprint = fingerprint
      · cases hr : e.response with
        | none => simp [hfp]
        | some r => simp [hfp]
      · simp [hfp]

/-- If the clocks disagree on an entry, one of the stores holds it and the other does not. -/
theorem reserve_apart_of_not_inStep (hdepth : 0 < limits.depth) {key : String}
    (hmatches : Matches limits entries db ends now key) (hout : ¬ InStep entries ends now key)
    (fingerprint : String) {ttlSeconds : ℤ} (hpos : 0 < ttlSeconds) :
    (entries.answer now (.reserve key fingerprint ttlSeconds)).1 ≠
      (db.answer limits now (.reserve key fingerprint ttlSeconds)).1 := by
  simp only [InStep, not_forall] at hout
  obtain ⟨e, hentry, hout⟩ := hout
  cases hmatches with
  | empty hnone _ =>
    rw [hentry] at hnone
    cases hnone
  | ended _ _ hends habsent =>
    -- only memory has the key
    have hlt : monotonic now < e.expiresAt := by
      by_contra hle
      exact hout (iff_of_true (not_lt.mp hle) hends)
    exact reserve_apart_of_absent hdepth hpos hentry hlt habsent
  | lasting found hfound hends hwritable hcell =>
    -- only Redis has it
    have hle : e.expiresAt ≤ monotonic now := by
      by_contra hlt
      exact hout (iff_of_false hlt (not_le.mpr hends))
    refine reserve_apart_of_vacant hdepth hpos (fun e' he' => ?_) hwritable hcell
    obtain rfl := Option.some.inj (hentry.symm.trans he')
    exact hle

/-- Memory releases a reservation that Redis takes for a record. -/
theorem release_apart_of_quoted (hdepth : 0 < limits.depth) {key fingerprint : String}
    {ttlSeconds : ℤ} {e : Entry Json} {ends : Option Instant} (hentry : entries key = some e)
    (hlt : monotonic now < e.expiresAt) (hwritable : e.payload.Writable limits)
    (hcell : Keyspace.purge db now (idemKey key) = some ⟨e.payload.json.text, ends⟩)
    (hopen : e.completed = false) (hquoted : Quoted e.fingerprint) (hpos : 0 < ttlSeconds) :
    ((entries.answer now (.release key)).2.answer now (.reserve key fingerprint ttlSeconds)).1 ≠
      ((db.answer limits now (.release key)).2.answer limits now
        (.reserve key fingerprint ttlSeconds)).1 := by
  have hkept : db.release now key = Keyspace.purge db now := by
    rw [Texts.release_of_present hcell, if_pos (.inr hquoted)]
  have hvacant : (entries.release now key).Vacant now key := by
    intro e' he'
    rw [Entries.release_of_open hentry hlt hopen] at he'
    cases he'
  apply reserve_apart_of_vacant hdepth hpos hvacant hwritable
  simp only [Texts.answer, hkept, Keyspace.purge_purge]
  exact hcell

end Agreement

namespace Stores

variable (limits : Limits)

def after (s : Stores) (e : TimedCall) : Stores where
  now := e.now
  entries := (s.entries.answer e.now e.call).2
  db := (s.db.answer limits e.now e.call).2
  ends := e.call.after s.entries e.now s.ends

def step (s : Stores) (e : TimedCall) : Option Stores :=
  if s.now ≤ e.now then some (s.after limits e) else none

/-- Both stores, empty at a time. -/
def machine (origin : Instant) : Machine Stores TimedCall := ⟨{ now := origin }, step limits⟩

/-- Both stores answer the call alike. -/
def Alike (s : Stores) (e : TimedCall) : Prop :=
  (s.entries.answer e.now e.call).1 = (s.db.answer limits e.now e.call).1

/-- The call meets the guard on the entries it finds. -/
def Meets (s : Stores) (e : TimedCall) : Prop := e.call.Meets limits s.entries s.ends e.now

instance (s : Stores) (e : TimedCall) : Decidable (s.Meets limits e) :=
  inferInstanceAs (Decidable (e.call.Meets limits s.entries s.ends e.now))

/-- Every text is that of an entry. -/
def Related (s : Stores) : Prop := ∀ key, Matches limits s.entries s.db s.ends s.now key

variable {limits} {s s' : Stores} {e : TimedCall} {origin : Instant}

theorem related_start : (machine limits origin).start.Related limits :=
  fun _ => .empty rfl (Keyspace.purge_of_none rfl)

theorem agree_of_meets (hdepth : 0 < limits.depth) (h : s.Related limits) (hle : s.now ≤ e.now)
    (hjson : e.call.Canonical) (hmeets : s.Meets limits e) :
    Agree limits s.entries s.db s.ends e.now e.call := by
  have hmatches : ∀ k, Matches limits s.entries s.db s.ends e.now k := fun k => (h k).mono hle
  unfold Meets at hmeets
  cases hcall : e.call with
  | reserve key fingerprint ttlSeconds =>
    rw [hcall] at hmeets
    exact reserve_agree hdepth hmatches hmeets
  | confirm key response ttlSeconds =>
    rw [hcall] at hmeets hjson
    exact confirm_agree hdepth hmatches hjson hmeets
  | release key =>
    rw [hcall] at hmeets
    exact release_agree hmatches hmeets

theorem step_of_le (h : s.now ≤ e.now) : s.step limits e = some (s.after limits e) := if_pos h

theorem of_step (h : s.step limits e = some s') : s.now ≤ e.now ∧ s' = s.after limits e := by
  unfold step at h
  split at h
  · rename_i hle
    exact ⟨hle, (Option.some.inj h).symm⟩
  · cases h

theorem related_of_step (hdepth : 0 < limits.depth) (h : s.Related limits)
    (hjson : e.call.Canonical) (hmeets : s.Meets limits e) (hstep : s.step limits e = some s') :
    s'.Related limits := by
  obtain ⟨hle, rfl⟩ := of_step hstep
  exact (agree_of_meets hdepth h hle hjson hmeets).2

theorem alike_of_meets (hdepth : 0 < limits.depth) (h : s.Related limits)
    (hjson : e.call.Canonical) (hmeets : s.Meets limits e) (hstep : s.step limits e = some s') :
    s.Alike limits e :=
  (agree_of_meets hdepth h (of_step hstep).1 hjson hmeets).1

/-- The call has two answers, or a claim of the same key in its place has, or one after it. -/
def Apart (limits : Limits) (s : Stores) (e : TimedCall) : Prop :=
  ¬ s.Alike limits e ∨
    (∃ fingerprint, ¬ s.Alike limits ⟨e.now, .reserve e.call.key fingerprint 1⟩) ∨
    ∃ s' next, s.step limits e = some s' ∧ s'.now ≤ next.now ∧ ¬ s'.Alike limits next

theorem apart_of_not_meets (hdepth : 0 < limits.depth) (h : s.Related limits) (hle : s.now ≤ e.now)
    (hjson : e.call.Canonical) (hunmet : ¬ s.Meets limits e) : s.Apart limits e := by
  have hmatches : ∀ k, Matches limits s.entries s.db s.ends e.now k := fun k => (h k).mono hle
  by_cases hinstep : InStep s.entries s.ends e.now e.call.key
  swap
  · -- one of the stores has dropped the key
    right
    left
    exact ⟨"", reserve_apart_of_not_inStep hdepth (hmatches _) hinstep "" one_pos⟩
  unfold Meets at hunmet
  cases hcall : e.call with
  | reserve key fingerprint ttlSeconds =>
    -- the three calls of the port, each with what it asks of the store
    rw [hcall] at hunmet hinstep
    simp only [StoreCall.Meets, not_forall, StoreCall.key] at hunmet hinstep
    obtain ⟨hpos, hunmet⟩ := hunmet
    left
    unfold Alike
    rw [hcall]
    -- Redis cannot be sent the time to live
    cases hsend : sendable limits ttlSeconds with
    | false =>
      have hredis := Texts.reserve_of_unsendable hdepth hpos hsend s.db e.now key fingerprint
      intro halike
      simp only [Entries.answer, Texts.answer, hredis, Except.map] at halike
      cases hmemory : (s.entries.reserve e.now key fingerprint ttlSeconds).1 with
      | ok reservation => simp [hmemory] at halike
      | error x =>
        have hoverflow := Entries.reserve_error hmemory
        simp [hmemory, hoverflow, overflowError] at halike
    | true =>
      simp only [hinstep, hsend, true_and, not_forall] at hunmet
      obtain ⟨hvacant, hunmet⟩ := hunmet
      -- both would write, so the key is in neither
      rcases (hmatches key).cases_inStep hinstep with ⟨-, habsent⟩ | ⟨entry, hentry, hlt, -, -⟩
      swap
      · exact absurd (hvacant entry hentry) (not_le.mpr hlt)
      -- memory cannot add the time to live to its clock; Redis fails too, or writes
      cases hexpiry : expiry e.now ttlSeconds with
      | none =>
        have hmemory := (Entries.reserve_of_overflow hvacant fingerprint hpos hexpiry).1
        cases hset : settable e.now (luaNumber ttlSeconds) with
        | false =>
          have hredis := Texts.reserve_of_unsettable hdepth hpos hsend habsent hset fingerprint
          simp [Entries.answer, Texts.answer, hredis, hmemory, Except.map, overflowError,
            dependencyUnavailable]
        | true =>
          have hredis := Texts.reserve_of_absent hdepth hpos hsend habsent hset fingerprint
          simp [Entries.answer, Texts.answer, hredis, hmemory, Except.map]
      | some expiresAt =>
        -- memory writes, so it is Redis that cannot
        have hmemory := (Entries.reserve_of_vacant hvacant fingerprint hpos hexpiry).1
        have hset : settable e.now (luaNumber ttlSeconds) = false := by
          simpa [hexpiry] using hunmet
        have hredis := Texts.reserve_of_unsettable hdepth hpos hsend habsent hset fingerprint
        simp [Entries.answer, Texts.answer, hredis, hmemory, Except.map]
  | confirm key response ttlSeconds =>
    rw [hcall] at hunmet hinstep hjson
    simp only [StoreCall.Meets, not_forall, StoreCall.key] at hunmet hinstep
    obtain ⟨hpos, hunmet⟩ := hunmet
    simp only [hinstep, true_and, not_forall] at hunmet
    obtain ⟨hlive, hunmet⟩ := hunmet
    have hresponse : (Json.obj response).Canonical := hjson
    left
    unfold Alike
    rw [hcall]
    -- the entry is in both: in memory a confirmation of it does not fail, except on its own clock
    rcases (hmatches key).cases_inStep hinstep with
      ⟨hvacant, -⟩ | ⟨entry, hentry, hlt, hwritable, hcell⟩
    · exact absurd hvacant hlive
    by_cases hwritten : sendable limits ttlSeconds = true ∧ settable e.now ttlSeconds = true ∧
        (Json.obj response).check limits 1 = .ok ()
    · -- what Redis writes is beyond the clock of the process
      obtain ⟨hsend, hset, hcheck⟩ := hwritten
      simp only [hsend, hset, hcheck, true_and, Option.not_isSome_iff_eq_none] at hunmet
      have hmemory := Entries.confirm_of_overflow hentry hlt (.obj response) hpos hunmet
      have hredis :=
        Texts.confirm_of_present hdepth hpos hsend hset hwritable hresponse hcheck hcell
      simp [Entries.answer, Texts.answer, hmemory, hredis, Except.map]
    · -- Redis cannot write the record, and says so
      obtain ⟨x, hx, hredis⟩ := Texts.confirm_of_unwritable hdepth hpos hwritable hcell hwritten
      intro halike
      simp only [Entries.answer, Texts.answer, hredis, Except.map] at halike
      cases hmemory : (s.entries.confirm e.now key (.obj response) ttlSeconds).1 with
      | ok done => simp [hmemory] at halike
      | error y =>
        obtain rfl := Entries.confirm_error hmemory
        simp only [hmemory, Except.error.injEq] at halike
        exact hx halike.symm
  | release key =>
    rw [hcall] at hunmet hinstep
    simp only [StoreCall.Meets, StoreCall.key] at hunmet hinstep
    simp only [hinstep, true_and, not_forall, not_not] at hunmet
    -- a reservation whose fingerprint looks like a record: Redis keeps it
    obtain ⟨entry, hentry, hlt, hopen, hquoted⟩ := hunmet
    rcases (hmatches key).cases_inStep hinstep with
      ⟨hvacant, -⟩ | ⟨found, hfound, -, hwritable, hcell⟩
    · exact absurd (hvacant entry hentry) (not_le.mpr hlt)
    obtain rfl := Option.some.inj (hentry.symm.trans hfound)
    -- nothing shows until the key is claimed again
    right
    right
    refine ⟨_, ⟨e.now, .reserve key entry.fingerprint 1⟩, step_of_le hle, le_refl _, ?_⟩
    simp only [Alike, after, hcall]
    exact release_apart_of_quoted hdepth hentry hlt hwritable hcell hopen hquoted one_pos

end Stores

end Evenkeel.Infrastructure
