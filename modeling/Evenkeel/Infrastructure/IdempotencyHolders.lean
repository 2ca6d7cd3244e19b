import Evenkeel.Effects.Machine
import Evenkeel.Infrastructure.RedisIdempotency

/-!
# Holders of Reservations

Callers of the two idempotency stores who work while others do, and who may come back after
their reservation has expired. A reservation carries nothing that tells its holder, so the
machines here keep it beside the store, where no operation can look.

- `Claims`: who was answered `RESERVED` and with what, who stored what a key holds, and what
  was confirmed
- `MemoryHolders`, `RedisHolders`: the stores with their callers; on Redis each command is a
  step, so a confirmation is two
- `Meets`: nobody confirms or releases while the reservation of another is at the key

## Key Results

- `backed_of_step`: what a key holds was stored by a holder of its fingerprint, and its
  response confirmed by one
- `earned_of_step`, `left_of_step`: such a step answers with earned receipts only, and leaves
  the reservations of others alone
-/

namespace Evenkeel.Infrastructure

open Evenkeel.Application Evenkeel.Effects Evenkeel.Python Evenkeel.Redis

/-- What a holder has reserved. -/
structure Claim where
  key : String
  fingerprint : String
  deriving DecidableEq

/-- What the store does not know of its callers. A call of `reserve` has a number, and is the
    holder of what it is granted. -/
structure Claims where
  holders : ℕ → Option Claim := fun _ => none
  /-- Whose text or entry the key holds. -/
  owner : String → Option ℕ := fun _ => none
  confirmed : List (ℕ × Json) := []

namespace Claims

def claim (c : Claims) (h : ℕ) (key fingerprint : String) : Claims :=
  { c with
    holders := Function.update c.holders h (some ⟨key, fingerprint⟩)
    owner := Function.update c.owner key (some h) }

def confirm (c : Claims) (h : ℕ) (response : Json) : Claims :=
  { c with confirmed := c.confirmed ++ [(h, response)] }

def own (c : Claims) (h : ℕ) (key : String) : Claims :=
  { c with owner := Function.update c.owner key (some h) }

/-- A holder of the key with this fingerprint has confirmed the response. -/
def Earned (c : Claims) (key fingerprint : String) (response : Json) : Prop :=
  ∃ h, c.holders h = some ⟨key, fingerprint⟩ ∧ (h, response) ∈ c.confirmed

/-- The owner of the key has claimed it with this fingerprint, and the response is earned. -/
structure Backs (c : Claims) (key fingerprint : String) (response : Option Json) : Prop where
  owned : ∃ g, c.owner key = some g ∧ c.holders g = some ⟨key, fingerprint⟩
  earned : ∀ r, response = some r → c.Earned key fingerprint r

variable {c : Claims} {key k fingerprint f : String} {response : Option Json} {r : Json} {h : ℕ}

theorem Earned.claim (hearned : c.Earned key fingerprint r) (hfresh : c.holders h = none) :
    (c.claim h k f).Earned key fingerprint r := by
  obtain ⟨g, hholder, hconfirmed⟩ := hearned
  have hne : g ≠ h := by
    rintro rfl
    simp [hfresh] at hholder
  exact ⟨g, by simp [Claims.claim, Function.update_of_ne hne, hholder], hconfirmed⟩

theorem Earned.confirm (hearned : c.Earned key fingerprint r) (r' : Json) :
    (c.confirm h r').Earned key fingerprint r := by
  obtain ⟨g, hholder, hconfirmed⟩ := hearned
  exact ⟨g, hholder, List.mem_append_left _ hconfirmed⟩

/-- A confirmation earns its response. -/
theorem earned_confirm (hholder : c.holders h = some ⟨key, fingerprint⟩) (r : Json) :
    (c.confirm h r).Earned key fingerprint r :=
  ⟨h, hholder, List.mem_append_right _ (List.mem_singleton_self _)⟩

/-- Another claim, of another key. -/
theorem Backs.claim (hbacks : c.Backs key fingerprint response) (hfresh : c.holders h = none)
    (hk : key ≠ k) : (c.claim h k f).Backs key fingerprint response := by
  obtain ⟨g, howner, hholder⟩ := hbacks.owned
  have hne : g ≠ h := by
    rintro rfl
    simp [hfresh] at hholder
  constructor
  · exact ⟨g, by simp [Claims.claim, Function.update_of_ne hk, howner],
      by simp [Claims.claim, Function.update_of_ne hne, hholder]⟩
  · intro r hr
    exact (hbacks.earned r hr).claim hfresh

/-- A new claim backs itself. -/
theorem backs_claim : (c.claim h key fingerprint).Backs key fingerprint none := by
  constructor
  · exact ⟨h, by simp [Claims.claim], by simp [Claims.claim]⟩
  · intro r hr
    cases hr

theorem Backs.confirm (hbacks : c.Backs key fingerprint response) (r : Json) :
    (c.confirm h r).Backs key fingerprint response := by
  constructor
  · exact hbacks.owned
  · intro r' hr'
    exact (hbacks.earned r' hr').confirm r

theorem Backs.own (hbacks : c.Backs key fingerprint response) (hk : key ≠ k) :
    (c.own h k).Backs key fingerprint response := by
  constructor
  · obtain ⟨g, howner, hholder⟩ := hbacks.owned
    exact ⟨g, by simp [Claims.own, Function.update_of_ne hk, howner], hholder⟩
  · exact hbacks.earned

/-- What its holder has confirmed and stored. -/
theorem backs_own (hholder : c.holders h = some ⟨key, fingerprint⟩) (r : Json) :
    ((c.confirm h r).own h key).Backs key fingerprint (some r) := by
  constructor
  · exact ⟨h, by simp [Claims.own], hholder⟩
  · intro r' hr'
    obtain rfl := Option.some.inj hr'
    exact earned_confirm hholder r

end Claims

/-- Something that happens at a time. -/
structure Timed (ε : Type) where
  now : Instant
  action : ε

/-- Whether a `reserve` was answered `RESERVED`. -/
def granted : Except Exn (IdempotencyReservation Json) → Bool
  | .ok reservation => reservation.outcome = .reserved
  | .error _ => false

/-! ## In memory -/

/-- A call of the in-memory store, which runs without an `await`. -/
inductive HolderCall where
  | reserve (h : ℕ) (key fingerprint : String) (ttlSeconds : ℤ)
  | confirm (h : ℕ) (response : Dict) (ttlSeconds : ℤ)
  | release (h : ℕ)

/-- Who makes the call. -/
def HolderCall.caller : HolderCall → ℕ
  | .reserve h _ _ _ => h
  | .confirm h _ _ => h
  | .release h => h

structure MemoryHolders where
  now : Instant
  entries : Entries Json := fun _ => none
  claims : Claims := {}

namespace MemoryHolders

/-- Only holders confirm and release. A confirmation whose TTL overflows has set its response
    when it raises. -/
def act (s : MemoryHolders) (now : Instant) : HolderCall → Option MemoryHolders
  | .reserve h key fingerprint ttlSeconds =>
    if s.claims.holders h = none ∧ 0 < ttlSeconds then
      let (answer, entries) := s.entries.reserve now key fingerprint ttlSeconds
      if granted answer then some ⟨now, entries, s.claims.claim h key fingerprint⟩
      else some ⟨now, entries, s.claims⟩
    else none
  | .confirm h response ttlSeconds =>
    match s.claims.holders h with
    | none => none
    | some claim =>
      if 0 < ttlSeconds then
        some ⟨now, (s.entries.confirm now claim.key (.obj response) ttlSeconds).2,
          s.claims.confirm h (.obj response)⟩
      else none
  | .release h =>
    match s.claims.holders h with
    | none => none
    | some claim => some ⟨now, s.entries.release now claim.key, s.claims⟩

def step (s : MemoryHolders) (e : Timed HolderCall) : Option MemoryHolders :=
  if s.now ≤ e.now then s.act e.now e.action else none

def machine (origin : Instant) : Machine MemoryHolders (Timed HolderCall) :=
  ⟨{ now := origin }, step⟩

/-- The key holds a live entry that is not of `h`. -/
def Others (s : MemoryHolders) (now : Instant) (h : ℕ) (key : String) (e : Entry Json) : Prop :=
  s.entries key = some e ∧ monotonic now < e.expiresAt ∧
    ∃ g, s.claims.owner key = some g ∧ g ≠ h

/-- The guard: a confirmation finds no entry of another, and a release none that it would
    delete. -/
def Meets (s : MemoryHolders) (e : Timed HolderCall) : Prop :=
  match e.action with
  | .reserve .. => True
  | .confirm h _ _ => ∀ claim entry, s.claims.holders h = some claim →
      ¬ s.Others e.now h claim.key entry
  | .release h => ∀ claim entry, s.claims.holders h = some claim →
      s.Others e.now h claim.key entry → entry.completed = true

/-- Receipts go to the payload that has earned them. -/
def Earns (τ : Transition MemoryHolders (Timed HolderCall)) : Prop :=
  match τ.event.action with
  | .reserve _ key fingerprint ttlSeconds => ∀ record,
      (τ.before.entries.reserve τ.event.now key fingerprint ttlSeconds).1 =
        .ok ⟨.completed, some record⟩ →
      record.key = key ∧ record.fingerprint = fingerprint ∧
        τ.before.claims.Earned key fingerprint record.response
  | _ => True

/-- The entries of others stay as they are. -/
def Leaves (τ : Transition MemoryHolders (Timed HolderCall)) : Prop :=
  ∀ key e, τ.before.Others τ.event.now τ.event.action.caller key e →
    τ.after.entries key = some e

/-- Every live entry is backed. -/
def Backed (s : MemoryHolders) : Prop :=
  ∀ key e, s.entries key = some e → monotonic s.now < e.expiresAt →
    s.claims.Backs key e.fingerprint e.response

variable {s s' : MemoryHolders} {e : Timed HolderCall} {origin : Instant}

theorem backed_start : (machine origin).start.Backed := by
  intro key e he
  cases he

theorem of_step (hstep : s.step e = some s') : s.now ≤ e.now ∧ s.act e.now e.action = some s' := by
  unfold step at hstep
  split at hstep
  · rename_i hle
    exact ⟨hle, hstep⟩
  · cases hstep

/-- The calls that happen, and what they leave. -/
theorem of_reserve {h : ℕ} {key fingerprint : String} {ttlSeconds : ℤ} {now : Instant}
    (hact : s.act now (.reserve h key fingerprint ttlSeconds) = some s') :
    s.claims.holders h = none ∧ 0 < ttlSeconds ∧
      s' = ⟨now, (s.entries.reserve now key fingerprint ttlSeconds).2,
        if granted (s.entries.reserve now key fingerprint ttlSeconds).1 then
          s.claims.claim h key fingerprint else s.claims⟩ := by
  simp only [act] at hact
  split at hact
  · rename_i hguard
    obtain ⟨hfresh, hpos⟩ := hguard
    split at hact
    · rename_i hgranted
      obtain rfl := Option.some.inj hact
      exact ⟨hfresh, hpos, by rw [if_pos hgranted]⟩
    · rename_i hgranted
      obtain rfl := Option.some.inj hact
      exact ⟨hfresh, hpos, by rw [if_neg hgranted]⟩
  · cases hact

theorem of_confirm {h : ℕ} {response : Dict} {ttlSeconds : ℤ} {now : Instant}
    (hact : s.act now (.confirm h response ttlSeconds) = some s') :
    ∃ claim, s.claims.holders h = some claim ∧ 0 < ttlSeconds ∧
      s' = ⟨now, (s.entries.confirm now claim.key (.obj response) ttlSeconds).2,
        s.claims.confirm h (.obj response)⟩ := by
  simp only [act] at hact
  cases hholder : s.claims.holders h with
  | none => simp [hholder] at hact
  | some claim =>
    simp only [hholder] at hact
    split at hact
    · rename_i hpos
      exact ⟨claim, rfl, hpos, (Option.some.inj hact).symm⟩
    · cases hact

theorem of_release {h : ℕ} {now : Instant} (hact : s.act now (.release h) = some s') :
    ∃ claim, s.claims.holders h = some claim ∧
      s' = ⟨now, s.entries.release now claim.key, s.claims⟩ := by
  simp only [act] at hact
  cases hholder : s.claims.holders h with
  | none => simp [hholder] at hact
  | some claim =>
    simp only [hholder] at hact
    exact ⟨claim, rfl, (Option.some.inj hact).symm⟩

/-- The caller finds its own entry where it finds a live one. -/
theorem Backed.claimed (hbacked : s.Backed) {now : Instant} (hle : s.now ≤ now) {h : ℕ}
    {claim : Claim} {entry : Entry Json} (hholder : s.claims.holders h = some claim)
    (hentry : s.entries claim.key = some entry) (hlt : monotonic now < entry.expiresAt)
    (hown : ¬ s.Others now h claim.key entry) :
    s.claims.owner claim.key = some h ∧ claim = ⟨claim.key, entry.fingerprint⟩ := by
  have hbacks := hbacked claim.key entry hentry ((monotonic_mono hle).trans_lt hlt)
  obtain ⟨g, howner, hclaim⟩ := hbacks.owned
  have hg : g = h := by
    by_contra hne
    exact hown ⟨hentry, hlt, g, howner, hne⟩
  subst hg
  exact ⟨howner, Option.some.inj (hholder.symm.trans hclaim)⟩

theorem backed_of_step (hbacked : s.Backed) (hmeets : s.Meets e) (hstep : s.step e = some s') :
    s'.Backed := by
  obtain ⟨hle, hact⟩ := of_step hstep
  cases haction : e.action with
  | reserve h key fingerprint ttlSeconds =>
    -- a claim overflows, or is granted, or finds the key taken
    rw [haction] at hact
    obtain ⟨hfresh, hpos, rfl⟩ := of_reserve hact
    intro k entry hentry hlt
    by_cases hk : k = key
    · subst hk
      rcases Entries.reserve_cases s.entries e.now k fingerprint hpos with
        ⟨-, -, hvacant⟩ | ⟨expiresAt, hanswer, -, hnew⟩ | ⟨found, hfound, hfoundlt, hsame⟩
      · -- nothing was stored
        exact absurd (hvacant entry hentry) (not_le.mpr hlt)
      · -- the new entry is backed by the new claim
        obtain rfl := Option.some.inj (hnew.symm.trans hentry)
        simp only [hanswer, granted, decide_true, if_true]
        exact Claims.backs_claim
      · -- the entry was there before, and nobody has claimed
        have hnot : granted (s.entries.reserve e.now k fingerprint ttlSeconds).1 = false := by
          rw [hsame]
          by_cases hfp : found.fingerprint = fingerprint
          · cases found.response <;> simp [granted, hfp]
          · simp [granted, hfp]
        simp only [hsame] at hentry
        simp only [hnot, Bool.false_eq_true, if_false]
        exact hbacked k entry hentry ((monotonic_mono hle).trans_lt hlt)
    · -- the other keys are not touched
      have hentry' : s.entries k = some entry := (Entries.reserve_frame hk).symm.trans hentry
      have hold := hbacked k entry hentry' ((monotonic_mono hle).trans_lt hlt)
      simp only
      split
      · exact hold.claim hfresh hk
      · exact hold
  | confirm h response ttlSeconds =>
    rw [haction] at hact
    simp only [Meets, haction] at hmeets
    obtain ⟨claim, hholder, hpos, rfl⟩ := of_confirm hact
    intro k entry hentry hlt
    by_cases hk : k = claim.key
    · subst hk
      by_cases hvacant : s.entries.Vacant e.now claim.key
      · -- nothing is written at a vacant key
        exact absurd (Entries.confirm_vacant hvacant entry hentry) (not_le.mpr hlt)
      · -- the entry that is confirmed is its own
        obtain ⟨found, hfound, hfoundlt⟩ := Entries.exists_of_not_vacant hvacant
        obtain ⟨howner, hclaim⟩ := hbacked.claimed hle hholder hfound hfoundlt
          (hmeets claim found hholder)
        rw [hclaim] at hholder
        have hnew := Entries.confirm_of_live hfound hfoundlt (.obj response) hpos
        obtain rfl := Option.some.inj (hnew.symm.trans hentry)
        constructor
        · exact ⟨h, howner, hholder⟩
        · intro r hr
          obtain rfl := Option.some.inj hr
          exact Claims.earned_confirm hholder _
    · -- the other keys, again
      have hsame : s.entries k = some entry := (Entries.confirm_frame hk).symm.trans hentry
      exact (hbacked k entry hsame ((monotonic_mono hle).trans_lt hlt)).confirm _
  | release h =>
    -- a release brings no entry
    rw [haction] at hact
    obtain ⟨claim, -, rfl⟩ := of_release hact
    intro k entry hentry hlt
    exact hbacked k entry (Entries.of_release hentry) ((monotonic_mono hle).trans_lt hlt)

theorem earned_of_step (hbacked : s.Backed) (hstep : s.step e = some s') : Earns ⟨s, e, s'⟩ := by
  obtain ⟨hle, hact⟩ := of_step hstep
  cases haction : e.action with
  | reserve h key fingerprint ttlSeconds =>
    rw [haction] at hact
    obtain ⟨-, hpos, -⟩ := of_reserve hact
    simp only [Earns, haction]
    intro record hrecord
    rcases Entries.reserve_cases s.entries e.now key fingerprint hpos with
      ⟨hanswer, -⟩ | ⟨_, hanswer, -⟩ | ⟨found, hfound, hlt, hanswer⟩
    · simp [hanswer] at hrecord
    · simp [hanswer] at hrecord
    · rw [hanswer] at hrecord
      by_cases hfp : found.fingerprint = fingerprint
      · cases hr : found.response with
        | none => simp [hfp, hr] at hrecord
        | some r =>
          simp only [hfp, hr, ne_eq, not_true_eq_false, if_false, Except.ok.injEq,
            IdempotencyReservation.mk.injEq, Option.some.injEq, true_and] at hrecord
          subst hrecord
          have hearned := (hbacked key found hfound ((monotonic_mono hle).trans_lt hlt)).earned r hr
          rw [hfp] at hearned
          exact ⟨rfl, rfl, hearned⟩
      · simp [hfp] at hrecord
  | confirm h response ttlSeconds => simp [Earns, haction]
  | release h => simp [Earns, haction]

theorem left_of_step (hmeets : s.Meets e) (hstep : s.step e = some s') : Leaves ⟨s, e, s'⟩ := by
  obtain ⟨-, hact⟩ := of_step hstep
  intro k entry hothers
  have hentry := hothers.1
  have hlt := hothers.2.1
  cases haction : e.action with
  | reserve h key fingerprint ttlSeconds =>
    rw [haction] at hact
    obtain ⟨-, hpos, rfl⟩ := of_reserve hact
    simp only
    by_cases hk : k = key
    · subst hk
      -- the entry of another answers for its key
      rw [Entries.reserve_of_live hentry hlt fingerprint hpos]
      exact hentry
    · rw [Entries.reserve_frame hk]
      exact hentry
  | confirm h response ttlSeconds =>
    rw [haction] at hact
    simp only [haction] at hothers
    simp only [Meets, haction] at hmeets
    obtain ⟨claim, hholder, -, rfl⟩ := of_confirm hact
    by_cases hk : k = claim.key
    · subst hk
      -- a confirmation meets no entry of another
      exact absurd hothers (hmeets claim entry hholder)
    · exact (Entries.confirm_frame hk).trans hentry
  | release h =>
    rw [haction] at hact
    simp only [haction] at hothers
    simp only [Meets, haction] at hmeets
    obtain ⟨claim, hholder, rfl⟩ := of_release hact
    by_cases hk : k = claim.key
    · subst hk
      -- a completed record stays
      have hcompleted := hmeets claim entry hholder hothers
      simp only [Entries.release_of_completed hentry hlt hcompleted]
      exact hentry
    · exact (Entries.release_frame hk).trans hentry

end MemoryHolders

/-! ## On Redis -/

/-- A `confirm` between its two commands. -/
structure Confirmation where
  holder : ℕ
  response : Dict
  text : List Char
  ttlSeconds : ℤ

/-- A command that a call has sent. A call of `confirm` has a number too. -/
inductive HolderCommand where
  | reserve (h : ℕ) (key fingerprint : String) (ttlSeconds : ℤ)
  | get (c h : ℕ) (response : Dict) (ttlSeconds : ℤ)
  | set (c : ℕ)
  | release (h : ℕ)

/-- Responses are objects of JSON values. -/
def HolderCommand.Canonical : HolderCommand → Prop
  | .get _ _ response _ => (Json.obj response).Canonical
  | _ => True

structure RedisHolders where
  now : Instant
  db : Texts := fun _ => none
  claims : Claims := {}
  pending : ℕ → Option Confirmation := fun _ => none

namespace RedisHolders

variable (limits : Limits)

def act (s : RedisHolders) (now : Instant) : HolderCommand → Option RedisHolders
  | .reserve h key fingerprint ttlSeconds =>
    if s.claims.holders h = none ∧ 0 < ttlSeconds then
      let (answer, db) := s.db.reserve limits now key fingerprint ttlSeconds
      if granted answer then
        some { s with now := now, db := db, claims := s.claims.claim h key fingerprint }
      else some { s with now := now, db := db }
    else none
  | .get c h response ttlSeconds =>
    match s.claims.holders h, s.pending c with
    | some claim, none =>
      if 0 < ttlSeconds then
        match Texts.confirmGet limits s.db now claim.key response with
        | (.ok (some text), db) =>
          some { s with
            now := now, db := db,
            pending := Function.update s.pending c (some ⟨h, response, text, ttlSeconds⟩) }
        -- the key is gone, or `json` has raised
        | (_, db) => some { s with now := now, db := db }
      else none
    | _, _ => none
  | .set c =>
    match s.pending c with
    | none => none
    | some p =>
      match s.claims.holders p.holder with
      | none => none
      | some claim =>
        let pending := Function.update s.pending c none
        match Texts.confirmSet limits s.db now claim.key p.text p.ttlSeconds with
        | (.ok (), db) =>
          some ⟨now, db, (s.claims.confirm p.holder (.obj p.response)).own p.holder claim.key,
            pending⟩
        | (.error _, db) => some ⟨now, db, s.claims, pending⟩
  | .release h =>
    match s.claims.holders h with
    | none => none
    | some claim => some { s with now := now, db := s.db.release now claim.key }

def step (s : RedisHolders) (e : Timed HolderCommand) : Option RedisHolders :=
  if s.now ≤ e.now then s.act limits e.now e.action else none

def machine (origin : Instant) : Machine RedisHolders (Timed HolderCommand) :=
  ⟨{ now := origin }, step limits⟩

/-- Who sends the command. -/
def caller (s : RedisHolders) : HolderCommand → Option ℕ
  | .reserve h _ _ _ => some h
  | .get _ h _ _ => some h
  | .set c => (s.pending c).map (·.holder)
  | .release h => some h

/-- The key holds a live text that is not of `h`. -/
def Others (s : RedisHolders) (now : Instant) (h : ℕ) (key : String)
    (cell : Cell (List Char) Instant) : Prop :=
  Keyspace.purge s.db now (idemKey key) = some cell ∧ ∃ g, s.claims.owner key = some g ∧ g ≠ h

/-- The text has this fingerprint in it. -/
def Carries (text : List Char) (fingerprint : String) : Prop :=
  ∃ payload, loads limits text = .ok (.obj payload) ∧
    Dict.get "fingerprint" payload = some (.str fingerprint)

/-- The guard: what a confirmation writes carries its own fingerprint and replaces no text of
    another, and a release finds no text of another that it would delete. -/
def Meets (s : RedisHolders) (e : Timed HolderCommand) : Prop :=
  match e.action with
  | .set c => ∀ p claim, s.pending c = some p → s.claims.holders p.holder = some claim →
      sendable limits p.ttlSeconds = true → settable e.now p.ttlSeconds = true →
      Carries limits p.text claim.fingerprint ∧ ∀ cell, ¬ s.Others e.now p.holder claim.key cell
  | .release h => ∀ claim cell, s.claims.holders h = some claim →
      s.Others e.now h claim.key cell → Texts.mark <:+: cell.value
  | _ => True

/-- Receipts go to the payload that has earned them. -/
def Earns (τ : Transition RedisHolders (Timed HolderCommand)) : Prop :=
  match τ.event.action with
  | .reserve _ key fingerprint ttlSeconds => ∀ record,
      (τ.before.db.reserve limits τ.event.now key fingerprint ttlSeconds).1 =
        .ok ⟨.completed, some record⟩ →
      record.key = key ∧ record.fingerprint = fingerprint ∧
        τ.before.claims.Earned key fingerprint record.response
  | _ => True

/-- The texts of others stay as they are. -/
def Leaves (τ : Transition RedisHolders (Timed HolderCommand)) : Prop :=
  ∀ h key cell, τ.before.caller τ.event.action = some h → τ.before.Others τ.event.now h key cell →
    Keyspace.purge τ.after.db τ.event.now (idemKey key) = some cell

/-- Every live text is that of an entry which is backed, and so is what a confirmation will
    write, but for the fingerprint it has found. -/
structure Backed (s : RedisHolders) : Prop where
  stored : ∀ key cell, Keyspace.purge s.db s.now (idemKey key) = some cell → ∃ p : Payload,
    cell.value = p.json.text ∧ p.Writable limits ∧
      s.claims.Backs key p.fingerprint p.response
  pending : ∀ c p, s.pending c = some p → ∃ payload : Payload,
    p.text = payload.json.text ∧ payload.Writable limits ∧
      payload.response = some (.obj p.response)

variable {limits} {s s' : RedisHolders} {e : Timed HolderCommand} {origin now : Instant}

theorem backed_start : (machine limits origin).start.Backed limits := by
  constructor
  · intro key cell hcell
    cases hcell
  · intro c p hp
    cases hp

theorem of_step (hstep : s.step limits e = some s') :
    s.now ≤ e.now ∧ s.act limits e.now e.action = some s' := by
  unfold step at hstep
  split at hstep
  · rename_i hle
    exact ⟨hle, hstep⟩
  · cases hstep

/-- The texts a command finds are backed as well. -/
theorem Backed.found (hbacked : s.Backed limits) (hle : s.now ≤ now) :
    ∀ key cell, Keyspace.purge s.db now (idemKey key) = some cell → ∃ p : Payload,
      cell.value = p.json.text ∧ p.Writable limits ∧
        s.claims.Backs key p.fingerprint p.response := by
  intro key cell hcell
  exact hbacked.stored key cell (Keyspace.purge_of_le hcell hle)

/-- The commands that are sent, and what they leave. -/
theorem of_reserve {h : ℕ} {key fingerprint : String} {ttlSeconds : ℤ}
    (hact : s.act limits now (.reserve h key fingerprint ttlSeconds) = some s') :
    s.claims.holders h = none ∧ 0 < ttlSeconds ∧
      s' = { s with
        now := now, db := (s.db.reserve limits now key fingerprint ttlSeconds).2,
        claims := if granted (s.db.reserve limits now key fingerprint ttlSeconds).1 then
          s.claims.claim h key fingerprint else s.claims } := by
  simp only [act] at hact
  split at hact
  · rename_i hguard
    obtain ⟨hfresh, hpos⟩ := hguard
    split at hact
    · rename_i hgranted
      obtain rfl := Option.some.inj hact
      exact ⟨hfresh, hpos, by rw [if_pos hgranted]⟩
    · rename_i hgranted
      obtain rfl := Option.some.inj hact
      exact ⟨hfresh, hpos, by rw [if_neg hgranted]⟩
  · cases hact

theorem of_get {c h : ℕ} {response : Dict} {ttlSeconds : ℤ}
    (hact : s.act limits now (.get c h response ttlSeconds) = some s') :
    ∃ claim, s.claims.holders h = some claim ∧
      (s' = { s with now := now, db := Keyspace.purge s.db now } ∨
        ∃ text db', Texts.confirmGet limits s.db now claim.key response = (.ok (some text), db') ∧
          s' = { s with
            now := now, db := Keyspace.purge s.db now,
            pending := Function.update s.pending c (some ⟨h, response, text, ttlSeconds⟩) }) := by
  simp only [act] at hact
  cases hholder : s.claims.holders h with
  -- somebody must hold the reservation that is confirmed
  | none => simp [hholder] at hact
  | some claim =>
    have hdb := Texts.confirmGet_snd limits s.db now claim.key response
    -- and the caller must not be confirming already
    cases hpending : s.pending c with
    | some p => simp [hholder, hpending] at hact
    | none =>
      simp only [hholder, hpending] at hact
      refine ⟨claim, rfl, ?_⟩
      -- the text is read, and if it is a payload it is kept for the write
      split at hact
      · split at hact
        · rename_i text db' hget
          rw [hget] at hdb
          obtain rfl : db' = Keyspace.purge s.db now := hdb
          right
          exact ⟨text, _, hget, (Option.some.inj hact).symm⟩
        · -- otherwise the confirmation ends
          rename_i db' _ hget
          rw [hget] at hdb
          obtain rfl : db' = Keyspace.purge s.db now := hdb
          left
          exact (Option.some.inj hact).symm
      · cases hact

theorem of_set {c : ℕ} (hact : s.act limits now (.set c) = some s') :
    ∃ p claim, s.pending c = some p ∧ s.claims.holders p.holder = some claim ∧
      ((sendable limits p.ttlSeconds = true ∧ settable now p.ttlSeconds = true ∧
        s' = ⟨now, Keyspace.set (Keyspace.purge s.db now) (idemKey claim.key) p.text
            (now + p.ttlSeconds),
          (s.claims.confirm p.holder (.obj p.response)).own p.holder claim.key,
          Function.update s.pending c none⟩) ∨
        s' = ⟨now, Keyspace.purge s.db now, s.claims, Function.update s.pending c none⟩) := by
  simp only [act] at hact
  cases hpending : s.pending c with
  | none => simp [hpending] at hact
  | some p =>
    cases hholder : s.claims.holders p.holder with
    | none => simp [hpending, hholder] at hact
    | some claim =>
      refine ⟨p, claim, rfl, hholder, ?_⟩
      simp only [hpending, hholder] at hact
      rcases Texts.confirmSet_cases limits s.db now claim.key p.text p.ttlSeconds with
        ⟨hsend, hset, hresult⟩ | ⟨x, hresult⟩
      · rw [hresult] at hact
        exact .inl ⟨hsend, hset, (Option.some.inj hact).symm⟩
      · rw [hresult] at hact
        exact .inr (Option.some.inj hact).symm

theorem of_release {h : ℕ} (hact : s.act limits now (.release h) = some s') :
    ∃ claim, s.claims.holders h = some claim ∧
      s' = { s with now := now, db := s.db.release now claim.key } := by
  simp only [act] at hact
  cases hholder : s.claims.holders h with
  | none => simp [hholder] at hact
  | some claim =>
    simp only [hholder] at hact
    exact ⟨claim, rfl, (Option.some.inj hact).symm⟩

/-- Texts that are as they were stay backed. -/
theorem Backed.of_frame (hbacked : s.Backed limits) (hle : s.now ≤ s'.now)
    (hdb : ∀ key cell, Keyspace.purge s'.db s'.now (idemKey key) = some cell →
      Keyspace.purge s.db s'.now (idemKey key) = some cell)
    (hclaims : s'.claims = s.claims) (hpending : ∀ c p, s'.pending c = some p →
      s.pending c = some p) : s'.Backed limits := by
  constructor
  · intro key cell hcell
    rw [hclaims]
    exact hbacked.found hle key cell (hdb key cell hcell)
  · intro c p hp
    exact hbacked.pending c p (hpending c p hp)

theorem backed_of_reserve (hdepth : 0 < limits.depth) (hbacked : s.Backed limits)
    (hle : s.now ≤ now) {h : ℕ} {key fingerprint : String} {ttlSeconds : ℤ}
    (hact : s.act limits now (.reserve h key fingerprint ttlSeconds) = some s') :
    s'.Backed limits := by
  obtain ⟨hfresh, hpos, rfl⟩ := of_reserve hact
  rcases Texts.reserve_cases hdepth hpos s.db now key fingerprint with
    ⟨x, db', hresult, hpurge⟩ | ⟨habsent, hresult⟩ | ⟨cell, hcell, hanswer⟩
  · -- the script raised, and the store is as before
    apply hbacked.of_frame hle
    · intro k cell hcell
      simp only [hresult, hpurge] at hcell
      exact hcell
    · simp [hresult, granted]
    · exact fun _ _ hp => hp
  · -- the key is written with the new claim
    constructor
    · intro k cell hcell
      simp only [hresult, granted, if_true, decide_true] at hcell ⊢
      by_cases hk : k = key
      · subst hk
        have hnew := (Keyspace.purge_eq_some_iff.mp hcell).1
        rw [Keyspace.set_self, Option.some.injEq] at hnew
        exact ⟨⟨fingerprint, none⟩, by rw [← hnew], writable_of_none rfl, Claims.backs_claim⟩
      · -- the other texts are not touched
        have hne : idemKey k ≠ idemKey key := fun heq => hk (idemKey_injective heq)
        rw [Keyspace.purge_congr (Keyspace.set_of_ne hne), Keyspace.purge_purge] at hcell
        obtain ⟨e, hvalue, hwritable, hbacks⟩ := hbacked.found hle k cell hcell
        exact ⟨e, hvalue, hwritable, hbacks.claim hfresh hk⟩
    · exact hbacked.pending
  · -- the key is taken, by an entry that answers
    obtain ⟨found, hvalue, hwritable, -⟩ := hbacked.found hle key cell hcell
    have hresult := hanswer found hvalue hwritable
    have hnot : granted (s.db.reserve limits now key fingerprint ttlSeconds).1 = false := by
      rw [hresult]
      by_cases hfp : found.fingerprint = fingerprint
      · cases found.response <;> simp [granted, hfp]
      · simp [granted, hfp]
    apply hbacked.of_frame hle
    · intro k cell hcell
      simp only [hresult, Keyspace.purge_purge] at hcell
      exact hcell
    · simp [hnot]
    · exact fun _ _ hp => hp

theorem backed_of_get (hdepth : 0 < limits.depth) (hbacked : s.Backed limits) (hle : s.now ≤ now)
    {c h : ℕ} {response : Dict} {ttlSeconds : ℤ} (hresponse : (Json.obj response).Canonical)
    (hact : s.act limits now (.get c h response ttlSeconds) = some s') : s'.Backed limits := by
  obtain ⟨claim, -, rfl | ⟨text, db', hget, rfl⟩⟩ := of_get hact
  · apply hbacked.of_frame hle
    · intro k cell hcell
      simpa using hcell
    · rfl
    · exact fun _ _ hp => hp
  · constructor
    · intro k cell hcell
      exact hbacked.found hle k cell (by simpa using hcell)
    · intro c' p hp
      by_cases hc : c' = c
      · subst hc
        simp only [Function.update_self, Option.some.injEq] at hp
        subst hp
        refine Texts.of_confirmGet hdepth ?_ hresponse hget
        intro cell hcell
        obtain ⟨e, hvalue, hwritable, -⟩ := hbacked.found hle claim.key cell hcell
        exact ⟨e, hvalue, hwritable⟩
      · simp only [Function.update_of_ne hc] at hp
        exact hbacked.pending c' p hp

theorem backed_of_set (hdepth : 0 < limits.depth) (hbacked : s.Backed limits) (hle : s.now ≤ now)
    {c : ℕ} (hcarries : ∀ p claim, s.pending c = some p → s.claims.holders p.holder = some claim →
      sendable limits p.ttlSeconds = true → settable now p.ttlSeconds = true →
      Carries limits p.text claim.fingerprint)
    (hact : s.act limits now (.set c) = some s') : s'.Backed limits := by
  obtain ⟨p, claim, hp, hholder, ⟨hsend, hset, rfl⟩ | rfl⟩ := of_set hact
  · -- the text is written
    obtain ⟨e, htext, hwritable, hresponse⟩ := hbacked.pending c p hp
    obtain ⟨payload, hloads, hget⟩ := hcarries p claim hp hholder hsend hset
    -- the fingerprint in the text is that of the claim
    have hfp : e.fingerprint = claim.fingerprint := by
      rw [htext, loads_payload hdepth hwritable, Payload.json, Except.ok.injEq,
        Json.obj.injEq] at hloads
      rw [← hloads, Dict.get, if_pos rfl, Option.some.injEq, Json.str.injEq] at hget
      exact hget
    constructor
    · intro k cell hcell
      simp only at hcell
      by_cases hk : k = claim.key
      · subst hk
        have hnew := (Keyspace.purge_eq_some_iff.mp hcell).1
        rw [Keyspace.set_self, Option.some.injEq] at hnew
        -- and the response is one that somebody has confirmed
        refine ⟨e, by rw [← hnew, htext], hwritable, ?_⟩
        rw [hresponse, hfp]
        exact Claims.backs_own hholder _
      · -- the other texts, again
        have hne : idemKey k ≠ idemKey claim.key := fun heq => hk (idemKey_injective heq)
        rw [Keyspace.purge_congr (Keyspace.set_of_ne hne), Keyspace.purge_purge] at hcell
        obtain ⟨e, hvalue, hwritable, hbacks⟩ := hbacked.found hle k cell hcell
        exact ⟨e, hvalue, hwritable, (hbacks.confirm _).own hk⟩
    · -- the other confirmations are still pending
      intro c' p' hp'
      by_cases hc : c' = c
      · simp [hc] at hp'
      · simp only [Function.update_of_ne hc] at hp'
        exact hbacked.pending c' p' hp'
  · -- nothing is written
    apply hbacked.of_frame hle
    · intro k cell hcell
      simpa using hcell
    · rfl
    · intro c' p' hp'
      by_cases hc : c' = c
      · simp [hc] at hp'
      · simpa [Function.update_of_ne hc] using hp'

theorem backed_of_step (hdepth : 0 < limits.depth) (hbacked : s.Backed limits)
    (hcanonical : e.action.Canonical) (hmeets : s.Meets limits e)
    (hstep : s.step limits e = some s') : s'.Backed limits := by
  obtain ⟨hle, hact⟩ := of_step hstep
  cases haction : e.action with
  | reserve h key fingerprint ttlSeconds =>
    rw [haction] at hact
    exact backed_of_reserve hdepth hbacked hle hact
  | get c h response ttlSeconds =>
    rw [haction] at hact hcanonical
    exact backed_of_get hdepth hbacked hle hcanonical hact
  | set c =>
    rw [haction] at hact
    simp only [Meets, haction] at hmeets
    refine backed_of_set hdepth hbacked hle ?_ hact
    intro p claim hp hholder hsend hset
    exact (hmeets p claim hp hholder hsend hset).1
  | release h =>
    rw [haction] at hact
    obtain ⟨claim, -, rfl⟩ := of_release hact
    apply hbacked.of_frame hle
    · intro k cell hcell
      exact Texts.of_release hcell
    · rfl
    · exact fun _ _ hp => hp

theorem earned_of_step (hdepth : 0 < limits.depth) (hbacked : s.Backed limits)
    (hstep : s.step limits e = some s') : Earns limits ⟨s, e, s'⟩ := by
  obtain ⟨hle, hact⟩ := of_step hstep
  cases haction : e.action with
  | reserve h key fingerprint ttlSeconds =>
    -- only a claim answers with a record
    rw [haction] at hact
    obtain ⟨-, hpos, -⟩ := of_reserve hact
    simp only [Earns, haction]
    intro record hrecord
    rcases Texts.reserve_cases hdepth hpos s.db e.now key fingerprint with
      ⟨x, db', hresult, -⟩ | ⟨-, hresult⟩ | ⟨cell, hcell, hanswer⟩
    · simp [hresult] at hrecord
    · simp [hresult] at hrecord
    · -- the text is that of an entry with a response, which has been earned
      obtain ⟨found, hvalue, hwritable, hbacks⟩ := hbacked.found hle key cell hcell
      rw [hanswer found hvalue hwritable] at hrecord
      by_cases hfp : found.fingerprint = fingerprint
      · cases hr : found.response with
        | none => simp [hfp, hr] at hrecord
        | some r =>
          simp only [hfp, hr, ne_eq, not_true_eq_false, if_false, Except.ok.injEq,
            IdempotencyReservation.mk.injEq, Option.some.injEq, true_and] at hrecord
          subst hrecord
          have hearned := hbacks.earned r hr
          rw [hfp] at hearned
          exact ⟨rfl, rfl, hearned⟩
      · -- another fingerprint is a conflict
        simp [hfp] at hrecord
  | get c h response ttlSeconds => simp [Earns, haction]
  | set c => simp [Earns, haction]
  | release h => simp [Earns, haction]

theorem left_of_step (hdepth : 0 < limits.depth) (hbacked : s.Backed limits)
    (hmeets : s.Meets limits e) (hstep : s.step limits e = some s') : Leaves ⟨s, e, s'⟩ := by
  obtain ⟨hle, hact⟩ := of_step hstep
  intro j k cell hcaller hothers
  have hcell := hothers.1
  cases haction : e.action with
  | reserve h key fingerprint ttlSeconds =>
    rw [haction] at hact
    obtain ⟨-, hpos, rfl⟩ := of_reserve hact
    rcases Texts.reserve_cases hdepth hpos s.db e.now key fingerprint with
      ⟨x, db', hresult, hpurge⟩ | ⟨habsent, hresult⟩ | ⟨there, hthere, hanswer⟩
    · -- the script raised
      simp only [hresult, hpurge]
      exact hcell
    · -- the key was free, so it is not that of another
      have hne : idemKey k ≠ idemKey key := by
        intro heq
        rw [heq, habsent] at hcell
        cases hcell
      simp only [hresult]
      rw [Keyspace.purge_congr (Keyspace.set_of_ne hne), Keyspace.purge_purge]
      exact hcell
    · -- the key was taken, and stays as it is
      obtain ⟨found, hvalue, hwritable, -⟩ := hbacked.found hle key there hthere
      simp only [hanswer found hvalue hwritable, Keyspace.purge_purge]
      exact hcell
  | get c h response ttlSeconds =>
    rw [haction] at hact
    obtain ⟨claim, -, rfl | ⟨text, db', -, rfl⟩⟩ := of_get hact
    · -- reading changes nothing
      simpa using hcell
    · simpa using hcell
  | set c =>
    rw [haction] at hact
    simp only [Meets, haction] at hmeets
    obtain ⟨p, claim, hp, hholder, ⟨hsend, hset, rfl⟩ | rfl⟩ := of_set hact
    · -- a write meets no reservation of another
      have hj : j = p.holder := by
        simpa [caller, haction, hp] using hcaller.symm
      subst hj
      have hne : idemKey k ≠ idemKey claim.key := by
        intro heq
        obtain rfl := idemKey_injective heq
        exact (hmeets p claim hp hholder hsend hset).2 cell hothers
      simp only
      rw [Keyspace.purge_congr (Keyspace.set_of_ne hne), Keyspace.purge_purge]
      exact hcell
    · simpa using hcell
  | release h =>
    rw [haction] at hact
    simp only [Meets, haction] at hmeets
    obtain ⟨claim, hholder, rfl⟩ := of_release hact
    have hj : j = h := by
      simpa [caller, haction] using hcaller.symm
    subst hj
    -- nor does a release, unless the record is complete
    by_cases hk : k = claim.key
    · subst hk
      rw [Texts.release_of_mark hcell (hmeets claim cell hholder hothers), Keyspace.purge_purge]
      exact hcell
    · have hne : idemKey k ≠ idemKey claim.key := fun heq => hk (idemKey_injective heq)
      exact (Texts.release_frame hne).trans hcell

end RedisHolders

end Evenkeel.Infrastructure
