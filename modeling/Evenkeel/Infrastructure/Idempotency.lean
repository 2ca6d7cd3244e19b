import Mathlib.Algebra.Order.Field.Rat
import Mathlib.Logic.Function.Basic
import Mathlib.Tactic.Linarith
import Evenkeel.Application.Ports

/-!
# The In-Memory Idempotency Store

`infrastructure/adapters/memory/idempotency.py`. Each operation runs without an `await`, so
it is one function of the entries and the time.

- `monotonic`, `expiry`: the clock as the process reads it, and the end of a TTL
- `Entries.reserve`, `Entries.confirm`, `Entries.release`: the operations

## Key Results

- `reserve_frame`, `confirm_frame`, `release_frame`: an operation touches no key but its own
- `reserve_of_vacant`, `reserve_of_live`: a claim succeeds exactly on a vacant key
- `release_vacant`: an unconfirmed reservation can be given back
-/

namespace Evenkeel.Infrastructure

open Evenkeel.Application Evenkeel.Python

/-- A time, in seconds. -/
abbrev Instant : Type := ℚ

/-- `time.monotonic()`, which reads the time as a float. -/
def monotonic (now : Instant) : Binary64 := .ofRat now

/-- `time.monotonic() + ttl_seconds`; `none` is an `OverflowError`. -/
def expiry (now : Instant) (ttlSeconds : ℤ) : Option Binary64 :=
  (Binary64.ofInt ttlSeconds).map (monotonic now + ·)

def overflowError : Exn := .other "OverflowError"

/-- `_Entry`. -/
structure Entry (σ : Type) where
  fingerprint : String
  expiresAt : Binary64
  response : Option σ := none

def Entry.completed {σ : Type} (e : Entry σ) : Bool := e.response.isSome

/-- `self._entries`. -/
abbrev Entries (σ : Type) : Type := String → Option (Entry σ)

/-! ## Times -/

theorem monotonic_mono {now now' : Instant} (h : now ≤ now') : monotonic now ≤ monotonic now' :=
  Binary64.ofRat_mono h

/-- Whether a TTL is too large for a float does not depend on the time. -/
theorem expiry_isSome (now now' : Instant) (ttlSeconds : ℤ) :
    (expiry now ttlSeconds).isSome = (expiry now' ttlSeconds).isSome := by
  simp [expiry]

/-- Whole seconds are added exactly. -/
theorem expiry_of_int {n ttlSeconds : ℤ} (hn : 0 ≤ n) (httl : 0 ≤ ttlSeconds)
    (hsum : n + ttlSeconds ≤ 2 ^ 53) :
    expiry n ttlSeconds = some (.ofRat ((n + ttlSeconds : ℤ) : ℚ)) := by
  have hn' : |n| ≤ 2 ^ 53 := by
    rw [abs_of_nonneg hn]
    omega
  have httl' : |ttlSeconds| ≤ 2 ^ 53 := by
    rw [abs_of_nonneg httl]
    omega
  rw [expiry, Binary64.ofInt_of_le httl', Option.map_some, monotonic,
    Binary64.ofRat_intCast_add hn' httl']

theorem expiry_zero {ttlSeconds : ℤ} (httl : 0 ≤ ttlSeconds) (hle : ttlSeconds ≤ 2 ^ 53) :
    expiry 0 ttlSeconds = some (.ofRat ttlSeconds) := by
  simpa using expiry_of_int (le_refl 0) httl (by simpa using hle)

/-- A TTL that begins at `now` is positive, and does not end before the deadline. -/
def Lasts (now : Instant) (ttlSeconds : ℤ) (deadline : Binary64) : Prop :=
  0 < ttlSeconds ∧ ∀ t, expiry now ttlSeconds = some t → deadline ≤ t

theorem Lasts.mono {now now' : Instant} {ttlSeconds : ℤ} {deadline : Binary64}
    (h : Lasts now ttlSeconds deadline) (hle : now ≤ now') : Lasts now' ttlSeconds deadline := by
  refine ⟨h.1, fun t' ht' => ?_⟩
  obtain ⟨seconds, hseconds, rfl⟩ := Option.map_eq_some_iff.mp ht'
  have hstart : deadline ≤ monotonic now + seconds :=
    h.2 _ (Option.map_eq_some_iff.mpr ⟨seconds, hseconds, rfl⟩)
  exact hstart.trans (Binary64.add_mono_left (monotonic_mono hle) seconds)

/-- It does not end before an earlier deadline either. -/
theorem Lasts.of_le {now : Instant} {ttlSeconds : ℤ} {deadline deadline' : Binary64}
    (h : Lasts now ttlSeconds deadline) (hle : deadline' ≤ deadline) :
    Lasts now ttlSeconds deadline' :=
  ⟨h.1, fun t ht => hle.trans (h.2 t ht)⟩

/-- Nor does the expiry that a confirmation leaves. -/
theorem Lasts.getD {now : Instant} {ttlSeconds : ℤ} {deadline expiresAt : Binary64}
    (h : Lasts now ttlSeconds deadline) (hle : deadline ≤ expiresAt) :
    deadline ≤ (expiry now ttlSeconds).getD expiresAt := by
  cases hexpiry : expiry now ttlSeconds with
  | none => exact hle
  | some t => exact h.2 t hexpiry

/-- A TTL that began at `since` is positive, and has not ended at `now`. -/
def Lives (since : Instant) (ttlSeconds : ℤ) (now : Instant) : Prop :=
  0 < ttlSeconds ∧ ∀ t, expiry since ttlSeconds = some t → monotonic now < t

theorem Lives.exists_deadline {since now : Instant} {ttlSeconds : ℤ}
    (h : Lives since ttlSeconds now) :
    ∃ deadline, monotonic now < deadline ∧ Lasts since ttlSeconds deadline := by
  cases hexpiry : expiry since ttlSeconds with
  | some t =>
    refine ⟨t, h.2 t hexpiry, h.1, fun t' ht' => ?_⟩
    exact (Option.some.inj (hexpiry.symm.trans ht')).le
  | none =>
    obtain ⟨deadline, hlt⟩ := Binary64.exists_lt (monotonic now)
    refine ⟨deadline, hlt, h.1, ?_⟩
    rintro t ht
    cases hexpiry.symm.trans ht

/-! ## The store -/

namespace Entries

variable {σ : Type} (s : Entries σ) (now : Instant) (key : String)

/-- `_live`: an expired entry is deleted on the way. -/
def live : Option (Entry σ) × Entries σ :=
  match s key with
  | none => (none, s)
  | some e =>
    if e.expiresAt ≤ monotonic now then (none, Function.update s key none) else (some e, s)

def reserve (fingerprint : String) (ttlSeconds : ℤ) :
    Except Exn (IdempotencyReservation σ) × Entries σ :=
  if ttlSeconds ≤ 0 then (.ok ⟨.reserved, none⟩, s)
  else
    match s.live now key with
    | (none, s) =>
      match expiry now ttlSeconds with
      | none => (.error overflowError, s)
      | some expiresAt =>
        (.ok ⟨.reserved, none⟩, Function.update s key (some ⟨fingerprint, expiresAt, none⟩))
    | (some e, s) =>
      if e.fingerprint ≠ fingerprint then (.ok ⟨.conflict, none⟩, s)
      else
        match e.response with
        | none => (.ok ⟨.inProgress, none⟩, s)
        | some r => (.ok ⟨.completed, some ⟨key, e.fingerprint, r⟩⟩, s)

/-- The response is set before the TTL is read. -/
def confirm (response : σ) (ttlSeconds : ℤ) : Except Exn Unit × Entries σ :=
  if ttlSeconds ≤ 0 then (.ok (), s)
  else
    match s.live now key with
    | (none, s) => (.ok (), s)
    | (some e, s) =>
      match expiry now ttlSeconds with
      | none =>
        (.error overflowError,
          Function.update s key (some ⟨e.fingerprint, e.expiresAt, some response⟩))
      | some expiresAt =>
        (.ok (), Function.update s key (some ⟨e.fingerprint, expiresAt, some response⟩))

def release : Entries σ :=
  match s.live now key with
  | (none, s) => s
  -- a completed record is never released
  | (some e, s) => if e.completed then s else Function.update s key none

/-! ## Frames -/

variable {s now key}

theorem live_frame {k : String} (hk : k ≠ key) : (s.live now key).2 k = s k := by
  unfold live
  cases s key with
  | none => rfl
  | some e =>
    by_cases h : e.expiresAt ≤ monotonic now
    · simp [h, Function.update_of_ne hk]
    · simp [h]

theorem reserve_frame {fingerprint : String} {ttlSeconds : ℤ} {k : String} (hk : k ≠ key) :
    (s.reserve now key fingerprint ttlSeconds).2 k = s k := by
  have hlive : (s.live now key).2 k = s k := live_frame hk
  unfold reserve
  split
  · rfl
  · rcases hl : s.live now key with ⟨e, s'⟩
    rw [hl] at hlive
    cases e with
    | none =>
      cases hexpiry : expiry now ttlSeconds with
      | none => simpa using hlive
      | some expiresAt => simpa [Function.update_of_ne hk] using hlive
    | some e =>
      by_cases hfp : e.fingerprint = fingerprint
      · cases hr : e.response <;> simpa [hfp, hr] using hlive
      · simpa [hfp] using hlive

theorem confirm_frame {response : σ} {ttlSeconds : ℤ} {k : String} (hk : k ≠ key) :
    (s.confirm now key response ttlSeconds).2 k = s k := by
  have hlive : (s.live now key).2 k = s k := live_frame hk
  unfold confirm
  by_cases httl : ttlSeconds ≤ 0
  · rw [if_pos httl]
  · rw [if_neg httl]
    rcases hl : s.live now key with ⟨e, s'⟩
    rw [hl] at hlive
    cases e with
    | none => exact hlive
    | some e =>
      cases hexpiry : expiry now ttlSeconds with
      | none => simpa [Function.update_of_ne hk] using hlive
      | some expiresAt => simpa [Function.update_of_ne hk] using hlive

theorem release_frame {k : String} (hk : k ≠ key) : s.release now key k = s k := by
  have hlive : (s.live now key).2 k = s k := live_frame hk
  unfold release
  rcases hl : s.live now key with ⟨e, s'⟩
  rw [hl] at hlive
  cases e with
  | none => exact hlive
  | some e =>
    cases hc : e.completed with
    | true => simpa [hc] using hlive
    | false => simpa [hc, Function.update_of_ne hk] using hlive

/-- What a claim is answered depends on the key's entry, and whether it has expired. -/
theorem reserve_congr {s' : Entries σ} {now' : Instant} (hentry : s' key = s key)
    (hexpired : ∀ e, s key = some e →
      (e.expiresAt ≤ monotonic now ↔ e.expiresAt ≤ monotonic now'))
    (fingerprint : String) (ttlSeconds : ℤ) :
    (s'.reserve now' key fingerprint ttlSeconds).1 =
      (s.reserve now key fingerprint ttlSeconds).1 := by
  have hlive : (s'.live now' key).1 = (s.live now key).1 := by
    unfold live
    rw [hentry]
    cases hs : s key with
    | none => rfl
    | some e =>
      by_cases h : e.expiresAt ≤ monotonic now
      · have h' : e.expiresAt ≤ monotonic now' := (hexpired e hs).mp h
        simp [h, h']
      · have h' : ¬e.expiresAt ≤ monotonic now' := fun h' => h ((hexpired e hs).mpr h')
        simp [h, h']
  unfold reserve
  split
  · rfl
  · rcases hl : s.live now key with ⟨e, u⟩
    rcases hl' : s'.live now' key with ⟨e', u'⟩
    rw [hl, hl'] at hlive
    obtain rfl : e' = e := hlive
    cases e' with
    | none =>
      -- a TTL is too large for a float at any time
      cases hfloat : Binary64.ofInt ttlSeconds <;> simp [expiry, hfloat]
    | some e =>
      by_cases hfp : e.fingerprint = fingerprint
      · cases hr : e.response <;> simp [hfp, hr]
      · simp [hfp]

/-! ## The entry of the key itself -/

/-- The key has no entry, or one that has expired. -/
def Vacant (s : Entries σ) (now : Instant) (key : String) : Prop :=
  ∀ e, s key = some e → e.expiresAt ≤ monotonic now

instance (s : Entries σ) (now : Instant) (key : String) : Decidable (s.Vacant now key) :=
  inferInstanceAs (Decidable (∀ e ∈ s key, e.expiresAt ≤ monotonic now))

/-- A key that is not vacant has a live entry. -/
theorem exists_of_not_vacant (h : ¬ s.Vacant now key) :
    ∃ e, s key = some e ∧ monotonic now < e.expiresAt := by
  simp only [Vacant, not_forall, not_le] at h
  obtain ⟨e, he, hlt⟩ := h
  exact ⟨e, he, hlt⟩

theorem live_of_lt {e : Entry σ} (he : s key = some e) (hlt : monotonic now < e.expiresAt) :
    s.live now key = (some e, s) := by
  simp [live, he, not_le.mpr hlt]

theorem live_of_vacant (h : s.Vacant now key) : (s.live now key).1 = none := by
  unfold live
  cases he : s key with
  | none => rfl
  | some e => simp [h e he]

/-- Looking brings no entry. -/
theorem of_live {e : Entry σ} (h : (s.live now key).2 key = some e) : s key = some e := by
  unfold live at h
  cases hs : s key with
  | none => simp [hs] at h
  | some found =>
    by_cases hover : found.expiresAt ≤ monotonic now
    · simp [hs, hover] at h
    · simpa [hs, hover] using h

theorem live_vacant (h : s.Vacant now key) : (s.live now key).2.Vacant now key := by
  intro e he
  unfold live at he
  split at he
  · exact h e he
  · split at he
    · simp at he
    · exact h e he

/-- A vacant key is given to whoever asks. -/
theorem reserve_of_vacant (h : s.Vacant now key) (fingerprint : String) {ttlSeconds : ℤ}
    {expiresAt : Binary64} (httl : 0 < ttlSeconds)
    (hexpiry : expiry now ttlSeconds = some expiresAt) :
    (s.reserve now key fingerprint ttlSeconds).1 = .ok ⟨.reserved, none⟩ ∧
      (s.reserve now key fingerprint ttlSeconds).2 key =
        some ⟨fingerprint, expiresAt, none⟩ := by
  have hlive := live_of_vacant h
  unfold reserve
  rw [if_neg (not_le.mpr httl)]
  rcases hl : s.live now key with ⟨e, s'⟩
  rw [hl] at hlive
  obtain rfl : e = none := hlive
  simp [hexpiry]

/-- Unless the end of the TTL overflows. -/
theorem reserve_of_overflow (h : s.Vacant now key) (fingerprint : String) {ttlSeconds : ℤ}
    (httl : 0 < ttlSeconds) (hexpiry : expiry now ttlSeconds = none) :
    (s.reserve now key fingerprint ttlSeconds).1 = .error overflowError ∧
      (s.reserve now key fingerprint ttlSeconds).2.Vacant now key := by
  have hlive := live_of_vacant h
  have hvacant := live_vacant h
  unfold reserve
  rw [if_neg (not_le.mpr httl)]
  rcases hl : s.live now key with ⟨e, s'⟩
  rw [hl] at hlive hvacant
  obtain rfl : e = none := hlive
  simp only [hexpiry]
  exact ⟨trivial, hvacant⟩

/-- A live entry answers for its key, and stays as it is. -/
theorem reserve_of_live {e : Entry σ} (he : s key = some e) (hlt : monotonic now < e.expiresAt)
    (fingerprint : String) {ttlSeconds : ℤ} (httl : 0 < ttlSeconds) :
    s.reserve now key fingerprint ttlSeconds =
      (.ok (if e.fingerprint ≠ fingerprint then ⟨.conflict, none⟩
        else match e.response with
          | none => ⟨.inProgress, none⟩
          | some r => ⟨.completed, some ⟨key, e.fingerprint, r⟩⟩), s) := by
  unfold reserve
  rw [if_neg (not_le.mpr httl), live_of_lt he hlt]
  by_cases hfp : e.fingerprint = fingerprint
  · cases hr : e.response with
    | none => simp [hfp, hr]
    | some r => simp [hfp, hr]
  · simp [hfp]

/-- A claim overflows, or is granted, or finds what it is answered with. -/
theorem reserve_cases (s : Entries σ) (now : Instant) (key fingerprint : String) {ttlSeconds : ℤ}
    (httl : 0 < ttlSeconds) :
    ((s.reserve now key fingerprint ttlSeconds).1 = .error overflowError ∧
        s.Vacant now key ∧ (s.reserve now key fingerprint ttlSeconds).2.Vacant now key) ∨
      (∃ expiresAt, (s.reserve now key fingerprint ttlSeconds).1 = .ok ⟨.reserved, none⟩ ∧
        s.Vacant now key ∧ (s.reserve now key fingerprint ttlSeconds).2 key =
          some ⟨fingerprint, expiresAt, none⟩) ∨
      ∃ e, s key = some e ∧ monotonic now < e.expiresAt ∧
        s.reserve now key fingerprint ttlSeconds =
          (.ok (if e.fingerprint ≠ fingerprint then ⟨.conflict, none⟩
            else match e.response with
              | none => ⟨.inProgress, none⟩
              | some r => ⟨.completed, some ⟨key, e.fingerprint, r⟩⟩), s) := by
  by_cases hvacant : s.Vacant now key
  · cases hexpiry : expiry now ttlSeconds with
    | none =>
      obtain ⟨hanswer, hstill⟩ := reserve_of_overflow hvacant fingerprint httl hexpiry
      exact .inl ⟨hanswer, hvacant, hstill⟩
    | some expiresAt =>
      obtain ⟨hanswer, hstored⟩ := reserve_of_vacant hvacant fingerprint httl hexpiry
      exact .inr (.inl ⟨expiresAt, hanswer, hvacant, hstored⟩)
  · obtain ⟨e, he, hlt⟩ := exists_of_not_vacant hvacant
    exact .inr (.inr ⟨e, he, hlt, reserve_of_live he hlt fingerprint httl⟩)

/-- Who is answered `RESERVED`. -/
theorem reserve_reserved_iff {fingerprint : String} {ttlSeconds : ℤ} :
    (∃ record, (s.reserve now key fingerprint ttlSeconds).1 = .ok ⟨.reserved, record⟩) ↔
      ttlSeconds ≤ 0 ∨ s.Vacant now key ∧ (expiry now ttlSeconds).isSome := by
  by_cases httl : ttlSeconds ≤ 0
  · simp [reserve, httl]
  have hpos := not_le.mp httl
  constructor
  · rintro ⟨record, hreserved⟩
    right
    by_cases hvacant : s.Vacant now key
    · cases hexpiry : expiry now ttlSeconds with
      | none => simp [(reserve_of_overflow hvacant fingerprint hpos hexpiry).1] at hreserved
      | some expiresAt => exact ⟨hvacant, rfl⟩
    · obtain ⟨e, he, hlt⟩ := exists_of_not_vacant hvacant
      rw [reserve_of_live he hlt fingerprint hpos] at hreserved
      by_cases hfp : e.fingerprint = fingerprint
      · cases hr : e.response <;> simp [hfp, hr] at hreserved
      · simp [hfp] at hreserved
  · rintro (hle | ⟨hvacant, hsome⟩)
    · exact absurd hle httl
    · obtain ⟨expiresAt, hexpiry⟩ := Option.isSome_iff_exists.mp hsome
      exact ⟨none, (reserve_of_vacant hvacant fingerprint hpos hexpiry).1⟩

/-- Only an overflow is raised. -/
theorem reserve_error {fingerprint : String} {ttlSeconds : ℤ} {e : Exn}
    (h : (s.reserve now key fingerprint ttlSeconds).1 = .error e) : e = overflowError := by
  by_cases httl : ttlSeconds ≤ 0
  · simp [reserve, httl] at h
  have hpos := not_le.mp httl
  rcases reserve_cases s now key fingerprint hpos with
    ⟨hanswer, -⟩ | ⟨_, hanswer, -⟩ | ⟨_, -, -, hanswer⟩
  · exact (Except.error.inj (hanswer.symm.trans h)).symm
  · cases hanswer.symm.trans h
  · rw [hanswer] at h
    cases h

theorem confirm_of_live {e : Entry σ} (he : s key = some e) (hlt : monotonic now < e.expiresAt)
    (response : σ) {ttlSeconds : ℤ} (httl : 0 < ttlSeconds) :
    (s.confirm now key response ttlSeconds).2 key =
      some ⟨e.fingerprint, (expiry now ttlSeconds).getD e.expiresAt, some response⟩ := by
  unfold confirm
  rw [if_neg (not_le.mpr httl), live_of_lt he hlt]
  cases hexpiry : expiry now ttlSeconds with
  | none => exact Function.update_self ..
  | some expiresAt => exact Function.update_self ..

theorem confirm_ok {response : σ} {ttlSeconds : ℤ} (hexpiry : (expiry now ttlSeconds).isSome) :
    (s.confirm now key response ttlSeconds).1 = .ok () := by
  obtain ⟨expiresAt, hexpiry⟩ := Option.isSome_iff_exists.mp hexpiry
  unfold confirm
  split
  · rfl
  · rcases s.live now key with ⟨_ | e, s'⟩
    · rfl
    · simp [hexpiry]

theorem confirm_of_overflow {e : Entry σ} (he : s key = some e)
    (hlt : monotonic now < e.expiresAt) (response : σ) {ttlSeconds : ℤ} (httl : 0 < ttlSeconds)
    (hexpiry : expiry now ttlSeconds = none) :
    (s.confirm now key response ttlSeconds).1 = .error overflowError := by
  unfold confirm
  rw [if_neg (not_le.mpr httl), live_of_lt he hlt]
  simp [hexpiry]

theorem confirm_error {response : σ} {ttlSeconds : ℤ} {e : Exn}
    (h : (s.confirm now key response ttlSeconds).1 = .error e) : e = overflowError := by
  unfold confirm at h
  split at h
  · cases h
  · rcases hlive : s.live now key with ⟨_ | entry, s'⟩
    · simp [hlive] at h
    · cases hexpiry : expiry now ttlSeconds with
      | none => simpa [hlive, hexpiry] using h.symm
      | some expiresAt => simp [hlive, hexpiry] at h

/-- Nothing happens at a vacant key, but that an expired entry is deleted. -/
theorem confirm_of_vacant (h : s.Vacant now key) (response : σ) (ttlSeconds : ℤ) :
    (s.confirm now key response ttlSeconds).1 = .ok () ∧
      ∀ e, (s.confirm now key response ttlSeconds).2 key = some e → s key = some e := by
  unfold confirm
  by_cases httl : ttlSeconds ≤ 0
  · rw [if_pos httl]
    exact ⟨rfl, fun _ he => he⟩
  rw [if_neg httl]
  have hlive := live_of_vacant h
  rcases hl : s.live now key with ⟨x, s'⟩
  rw [hl] at hlive
  obtain rfl : x = none := hlive
  refine ⟨rfl, fun e he => ?_⟩
  have hlooked : (s.live now key).2 key = some e := by rwa [hl]
  exact of_live hlooked

/-- So it stays vacant. -/
theorem confirm_vacant (h : s.Vacant now key) {response : σ} {ttlSeconds : ℤ} :
    (s.confirm now key response ttlSeconds).2.Vacant now key := by
  unfold confirm
  by_cases httl : ttlSeconds ≤ 0
  · rwa [if_pos httl]
  · have hlive := live_of_vacant h
    have hvacant := live_vacant h
    rw [if_neg httl]
    rcases hl : s.live now key with ⟨e, s'⟩
    rw [hl] at hlive hvacant
    obtain rfl : e = none := hlive
    exact hvacant

/-- Nor to release. -/
theorem release_of_vacant (h : s.Vacant now key) : (s.release now key).Vacant now key := by
  have hlive := live_of_vacant h
  have hvacant := live_vacant h
  unfold release
  rcases hl : s.live now key with ⟨e, s'⟩
  rw [hl] at hlive hvacant
  obtain rfl : e = none := hlive
  exact hvacant

/-- A completed record is never released. -/
theorem release_of_completed {e : Entry σ} (he : s key = some e) (hlt : monotonic now < e.expiresAt)
    (hcompleted : e.completed = true) : s.release now key = s := by
  unfold release
  rw [live_of_lt he hlt]
  simp [hcompleted]

/-- A reservation is. -/
theorem release_of_open {e : Entry σ} (he : s key = some e) (hlt : monotonic now < e.expiresAt)
    (hopen : e.completed = false) : s.release now key key = none := by
  unfold release
  rw [live_of_lt he hlt]
  simp [hopen]

/-- Nothing new comes from a release. -/
theorem of_release {k : String} {e : Entry σ} (h : s.release now key k = some e) :
    s k = some e := by
  by_cases hk : k = key
  · subst hk
    by_cases hvacant : s.Vacant now k
    · have hlive := live_of_vacant hvacant
      unfold release at h
      rcases hl : s.live now k with ⟨x, s'⟩
      rw [hl] at hlive h
      obtain rfl : x = none := hlive
      have hlooked : (s.live now k).2 k = some e := by rwa [hl]
      exact of_live hlooked
    · obtain ⟨e₀, he₀, hlt⟩ := exists_of_not_vacant hvacant
      unfold release at h
      rw [live_of_lt he₀ hlt] at h
      cases hc : e₀.completed with
      | true => simpa [hc] using h
      | false => simp [hc] at h
  · rwa [release_frame hk] at h

/-- Releasing a reservation that has not been confirmed leaves the key vacant. -/
theorem release_vacant (h : ∀ e, s key = some e → e.response = none) :
    (s.release now key).Vacant now key := by
  intro e he
  by_cases hvacant : s.Vacant now key
  · exact release_of_vacant hvacant e he
  · obtain ⟨e₀, he₀, hlt⟩ := exists_of_not_vacant hvacant
    unfold release at he
    rw [live_of_lt he₀ hlt] at he
    simp [Entry.completed, h e₀ he₀] at he

end Entries

end Evenkeel.Infrastructure
