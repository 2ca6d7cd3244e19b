import Mathlib.Algebra.Order.Ring.Rat
import Mathlib.Data.Finset.Card
import Evenkeel.Effects.Lease
import Evenkeel.Redis.SortedSet

/-!
# Bulkheads

`infrastructure/adapters/memory/bulkhead.py` and `infrastructure/adapters/redis/bulkhead.py`:
leases of a slot, under one name with one limit. The in-memory adapter keeps them in a
dictionary. The Redis adapter keeps them in a sorted set, scored by expiry, under a key whose
own TTL is that of the lease granted last.

- `Occupancy.tryAdd`, `Occupancy.remove`: `_Occupancy`
- `acquireScript`, `releaseScript`: the two scripts
- `memoryBulkhead`, `redisBulkhead`: the adapters, as lease servers

## Key Results

- `Served.holds_occupies`, `Served.card_le`: what an occupancy that is kept says of the leases
- `items_acquireScript`, `items_releaseScript`: the scripts do what `_Occupancy` does
- `served_of_step`: the in-memory adapter keeps its occupancy
- `redis_served_of_step`: so does the Redis adapter, as long as the key does not go early
-/

namespace Evenkeel.Infrastructure

open Evenkeel.Effects Evenkeel.Redis

/-- `BulkheadPolicy`. -/
structure BulkheadPolicy where
  name : String
  limit : ℤ
  leaseTtlMs : ℤ
  waitTimeoutMs : ℤ := 0
  retryIntervalMs : ℤ := 50
  deriving DecidableEq

/-- `_InProcessLease` and `_RedisLease`, as `acquire` makes them. -/
structure BulkheadLease where
  token : String
  policy : BulkheadPolicy
  deriving DecidableEq

/-! ## In memory -/

/-- `_leases`: live leases, as token -> expiry. -/
abbrev Occupancy (T : Type) : Type := List (String × T)

namespace Occupancy

variable {T : Type} [LinearOrder T]

/-- Leases that have not expired. -/
def reap (leases : Occupancy T) (now : T) : Occupancy T :=
  leases.filter fun lease => now < lease.2

def remove (leases : Occupancy T) (token : String) : Occupancy T :=
  leases.filter fun lease => lease.1 ≠ token

/-- `try_add`, of a lease that ends at `ends`. -/
def tryAdd (leases : Occupancy T) (now : T) (limit : ℤ) (token : String) (ends : T) :
    Bool × Occupancy T :=
  if limit ≤ (leases.reap now).length then (false, leases.reap now)
  else (true, (leases.reap now).remove token ++ [(token, ends)])

end Occupancy

/-- Every lease has a token of its own and a positive TTL; a name has one limit. -/
def admitsLease (limit : String → ℤ) (token : ℕ → String) (h : ℕ) (lease : BulkheadLease) :
    Bool :=
  decide (lease.token = token h ∧ lease.policy.limit = limit lease.policy.name ∧
    0 < lease.policy.leaseTtlMs)

/-- `InMemoryBulkhead`, with the occupancy of each name. Times are seconds. -/
def memoryBulkhead (limit : String → ℤ) (token : ℕ → String) :
    LeaseServer BulkheadLease (String → Occupancy ℚ) ℚ Empty where
  start := fun _ => []
  origin := 0
  admits := admitsLease limit token
  waitTimeoutMs lease := lease.policy.waitTimeoutMs
  attempt lease now s :=
    let ends := now + lease.policy.leaseTtlMs / 1000
    match (s lease.policy.name).tryAdd now lease.policy.limit lease.token ends with
    | (granted, leases) =>
      (if granted then some ends else none, Function.update s lease.policy.name leases)
  release lease _ s :=
    Function.update s lease.policy.name ((s lease.policy.name).remove lease.token)
  drift e _ _ := nomatch e

/-! ## On Redis -/

def bulkheadKey (name : String) : String := "bulkhead:" ++ name

/-- `_ACQUIRE_SCRIPT`, with its three arguments. -/
def acquireScript (db : Keyspace SortedSet Millis) (now : Millis) (key token : String)
    (limit leaseTtlMs : ℤ) : Bool × Keyspace SortedSet Millis :=
  let db := (db.purge now).zremrangebyscore key now
  if limit ≤ db.zcard key then (false, db)
  else
    (true, (db.zadd key token (now + leaseTtlMs)).pexpire key (now + leaseTtlMs))

/-- `_RELEASE_SCRIPT`. -/
def releaseScript (db : Keyspace SortedSet Millis) (now : Millis) (key token : String) :
    Keyspace SortedSet Millis :=
  (db.purge now).zrem key token

/-- The keys, and when the lease that was granted last under a name ends; nothing reads
    that. -/
structure BulkheadStore where
  db : Keyspace SortedSet Millis := fun _ => none
  latest : String → Option Millis := fun _ => none

/-- `RedisBulkhead`. -/
def redisBulkhead (limit : String → ℤ) (token : ℕ → String) :
    LeaseServer BulkheadLease BulkheadStore Millis Empty where
  start := {}
  origin := 0
  admits := admitsLease limit token
  waitTimeoutMs lease := lease.policy.waitTimeoutMs
  attempt lease now s :=
    let ends := now + lease.policy.leaseTtlMs
    match acquireScript s.db now (bulkheadKey lease.policy.name) lease.token lease.policy.limit
        lease.policy.leaseTtlMs with
    | (true, db) => (some ends, ⟨db, Function.update s.latest lease.policy.name (some ends)⟩)
    | (false, db) => (none, { s with db })
  release lease now s :=
    { s with db := releaseScript s.db now (bulkheadKey lease.policy.name) lease.token }
  drift e _ _ := nomatch e

/-- The leases under a name that the keys show at a time. -/
def BulkheadStore.occupancy (s : BulkheadStore) (now : Millis) (name : String) :
    Occupancy Millis :=
  (s.db.purge now).items (bulkheadKey name)

/-! ## Leases and their slots -/

section

variable {σ T : Type} [LinearOrder T]

/-- Lease `h` under the name was granted, has not been released, and has not expired. -/
def Granted (b : Books BulkheadLease σ T) (name : String) (h : ℕ) : Prop :=
  ∃ lease ends, b.leases h = some lease ∧ lease.request.policy.name = name ∧
    lease.ends = some ends ∧ b.now < ends

/-- The occupancy of every name has each live lease under it, and no more than it may. -/
structure Served (limit : String → ℤ) (token : ℕ → String)
    (leases : ℕ → Option (Lease BulkheadLease T)) (now : T) (occupancy : String → Occupancy T) :
    Prop where
  admitted : ∀ h lease, leases h = some lease →
    admitsLease limit token h lease.request = true
  occupied : ∀ h lease ends, leases h = some lease → lease.ends = some ends → now < ends →
    (lease.request.token, ends) ∈ occupancy lease.request.policy.name
  bounded : ∀ name, ((occupancy name).reap now).length ≤ (limit name).toNat

namespace Occupancy

variable {occupancy : Occupancy T} {now t : T} {limit : ℤ} {token token' : String} {ends : T}

theorem mem_reap : (token, ends) ∈ occupancy.reap now ↔ (token, ends) ∈ occupancy ∧ now < ends := by
  simp [reap]

omit [LinearOrder T] in
theorem mem_remove (hne : token' ≠ token) :
    (token', ends) ∈ occupancy.remove token ↔ (token', ends) ∈ occupancy := by
  simp [remove, hne]

theorem length_reap_le : (occupancy.reap now).length ≤ occupancy.length :=
  List.length_filter_le ..

/-- Fewer leases are left later. -/
theorem length_reap_mono (hle : now ≤ t) :
    (occupancy.reap t).length ≤ (occupancy.reap now).length := by
  apply List.Sublist.length_le
  apply List.monotone_filter_right
  intro lease hlt
  simp only [decide_eq_true_eq] at hlt ⊢
  exact hle.trans_lt hlt

theorem length_reap_remove_le :
    ((occupancy.remove token).reap now).length ≤ (occupancy.reap now).length :=
  (List.filter_sublist.filter _).length_le

/-- Who is refused finds all slots taken. -/
theorem tryAdd_cases (occupancy : Occupancy T) (now : T) (limit : ℤ) (token : String) (ends : T) :
    (limit ≤ (occupancy.reap now).length ∧
      occupancy.tryAdd now limit token ends = (false, occupancy.reap now)) ∨
    ((occupancy.reap now).length < limit ∧ occupancy.tryAdd now limit token ends =
      (true, (occupancy.reap now).remove token ++ [(token, ends)])) := by
  unfold tryAdd
  by_cases hfull : limit ≤ (occupancy.reap now).length
  · exact .inl ⟨hfull, if_pos hfull⟩
  · exact .inr ⟨not_le.mp hfull, if_neg hfull⟩

end Occupancy

namespace Served

variable {limit : String → ℤ} {token : ℕ → String} {now t : T} {h : ℕ}
  {leases : ℕ → Option (Lease BulkheadLease T)} {lease : Lease BulkheadLease T}
  {occupancy occupancy' : String → Occupancy T}

theorem token_eq (hserved : Served limit token leases now occupancy)
    (hlease : leases h = some lease) : lease.request.token = token h :=
  (of_decide_eq_true (hserved.admitted h lease hlease)).1

theorem limit_eq (hserved : Served limit token leases now occupancy)
    (hlease : leases h = some lease) :
    lease.request.policy.limit = limit lease.request.policy.name :=
  (of_decide_eq_true (hserved.admitted h lease hlease)).2.1

theorem ttl_pos (hserved : Served limit token leases now occupancy)
    (hlease : leases h = some lease) : 0 < lease.request.policy.leaseTtlMs :=
  (of_decide_eq_true (hserved.admitted h lease hlease)).2.2

/-- What a handle has been granted may change, as long as it is admitted. -/
theorem admitted_update (hserved : Served limit token leases now occupancy)
    (hlease : leases h = some lease) (ends : Option T) :
    ∀ j found, Function.update leases h (some ⟨lease.request, ends⟩) j = some found →
      admitsLease limit token j found.request = true := by
  intro j found hfound
  rcases Books.of_update hfound with ⟨rfl, rfl⟩ | ⟨-, hfound⟩
  · exact hserved.admitted j lease hlease
  · exact hserved.admitted j found hfound

theorem create (hserved : Served limit token leases now occupancy) {request : BulkheadLease}
    (hadmits : admitsLease limit token h request = true) :
    Served limit token (Function.update leases h (some ⟨request, none⟩)) now occupancy := by
  constructor
  · intro j found hfound
    rcases Books.of_update hfound with ⟨rfl, rfl⟩ | ⟨-, hfound⟩
    · exact hadmits
    · exact hserved.admitted j found hfound
  · intro j found ends hfound hends hlt
    rcases Books.of_update hfound with ⟨rfl, rfl⟩ | ⟨-, hfound⟩
    · cases hends
    · exact hserved.occupied j found ends hfound hends hlt
  · exact hserved.bounded

/-- An attempt, granted or not, leaves every other live lease its slot. -/
theorem attempt (hserved : Served limit token leases now occupancy)
    (htoken : Function.Injective token) (hlease : leases h = some lease) {ends : T}
    {granted : Bool} {slots : Occupancy T}
    (htry : (occupancy lease.request.policy.name).tryAdd now lease.request.policy.limit
      lease.request.token ends = (granted, slots)) :
    Served limit token
      (Function.update leases h
        (some ⟨lease.request, (if granted then some ends else none).or lease.ends⟩)) now
      (Function.update occupancy lease.request.policy.name slots) := by
  have hname := hserved.bounded lease.request.policy.name
  have hlimit := hserved.limit_eq hlease
  rcases Occupancy.tryAdd_cases (occupancy lease.request.policy.name) now
    lease.request.policy.limit lease.request.token ends with ⟨-, heq⟩ | ⟨hfree, heq⟩
  · -- refused: the reaping is all that has happened
    obtain ⟨rfl, rfl⟩ := Prod.mk.inj (htry.symm.trans heq)
    refine ⟨hserved.admitted_update hlease _, ?_, ?_⟩
    · -- whoever's lease is still running survives it
      intro j found ends hfound hends hlt
      have hearlier : leases j = some found := by
        rcases Books.of_update hfound with ⟨rfl, rfl⟩ | ⟨-, hfound⟩
        · exact hlease
        · exact hfound
      have hmem := hserved.occupied j found ends hearlier hends hlt
      by_cases hfoundName : found.request.policy.name = lease.request.policy.name
      · rw [hfoundName, Function.update_self]
        rw [hfoundName] at hmem
        exact Occupancy.mem_reap.mpr ⟨hmem, hlt⟩
      · rwa [Function.update_of_ne hfoundName]
    · intro name
      by_cases hn : name = lease.request.policy.name
      · subst hn
        rw [Function.update_self]
        exact Occupancy.length_reap_le.trans hname
      · rw [Function.update_of_ne hn]
        exact hserved.bounded name
  · -- granted: one more member, and there was room for it
    obtain ⟨rfl, rfl⟩ := Prod.mk.inj (htry.symm.trans heq)
    refine ⟨hserved.admitted_update hlease _, ?_, ?_⟩
    · intro j found ends' hfound hends hlt
      -- its own slot is the new one; the others have tokens of their own
      rcases Books.of_update hfound with ⟨rfl, rfl⟩ | ⟨hj, hfound⟩
      · obtain rfl := Option.some.inj hends
        simp
      · have hmem := hserved.occupied j found ends' hfound hends hlt
        by_cases hfoundName : found.request.policy.name = lease.request.policy.name
        · rw [hfoundName, Function.update_self]
          rw [hfoundName] at hmem
          have hne : found.request.token ≠ lease.request.token := by
            rw [hserved.token_eq hfound, hserved.token_eq hlease]
            exact fun heq => hj (htoken heq)
          apply List.mem_append_left
          exact (Occupancy.mem_remove hne).mpr (Occupancy.mem_reap.mpr ⟨hmem, hlt⟩)
        · rwa [Function.update_of_ne hfoundName]
    · -- the bound holds for this name by the size that was checked, for the others as before
      intro name
      by_cases hn : name = lease.request.policy.name
      · subst hn
        rw [Function.update_self]
        refine Occupancy.length_reap_le.trans ?_
        rw [List.length_append, List.length_singleton]
        have hremoved : (((occupancy lease.request.policy.name).reap now).remove
            lease.request.token).length ≤ ((occupancy lease.request.policy.name).reap now).length :=
          List.length_filter_le ..
        omega
      · rw [Function.update_of_ne hn]
        exact hserved.bounded name

/-- So does a release. -/
theorem release (hserved : Served limit token leases now occupancy)
    (htoken : Function.Injective token) (hlease : leases h = some lease) :
    Served limit token (Function.update leases h (some ⟨lease.request, none⟩)) now
      (Function.update occupancy lease.request.policy.name
        ((occupancy lease.request.policy.name).remove lease.request.token)) := by
  refine ⟨hserved.admitted_update hlease _, ?_, ?_⟩
  · intro j found ends hfound hends hlt
    -- the lease that is given back runs no longer
    rcases Books.of_update hfound with ⟨rfl, rfl⟩ | ⟨hj, hfound⟩
    · cases hends
    · have hmem := hserved.occupied j found ends hfound hends hlt
      by_cases hfoundName : found.request.policy.name = lease.request.policy.name
      · rw [hfoundName, Function.update_self]
        rw [hfoundName] at hmem
        have hne : found.request.token ≠ lease.request.token := by
          rw [hserved.token_eq hfound, hserved.token_eq hlease]
          exact fun heq => hj (htoken heq)
        exact (Occupancy.mem_remove hne).mpr hmem
      · rwa [Function.update_of_ne hfoundName]
  · -- there are no more slots than before
    intro name
    by_cases hn : name = lease.request.policy.name
    · subst hn
      rw [Function.update_self]
      exact Occupancy.length_reap_remove_le.trans (hserved.bounded _)
    · rw [Function.update_of_ne hn]
      exact hserved.bounded name

/-- Time passes, and takes away at most names without live leases. -/
theorem tick (hserved : Served limit token leases now occupancy) (hle : now ≤ t)
    (hkept : ∀ name, occupancy' name = occupancy name ∨ (occupancy' name = [] ∧
      ∀ h lease ends, leases h = some lease → lease.request.policy.name = name →
        lease.ends = some ends → ends ≤ t)) :
    Served limit token leases t occupancy' := by
  refine ⟨hserved.admitted, ?_, ?_⟩
  · intro j found ends hfound hends hlt
    rcases hkept found.request.policy.name with hsame | ⟨-, hover⟩
    · rw [hsame]
      exact hserved.occupied j found ends hfound hends (hle.trans_lt hlt)
    · exact absurd hlt (not_lt.mpr (hover j found ends hfound rfl hends))
  · intro name
    rcases hkept name with hsame | ⟨hgone, -⟩
    · rw [hsame]
      exact (Occupancy.length_reap_mono hle).trans (hserved.bounded name)
    · simp [hgone, Occupancy.reap]

/-- Live leases under a name have as many tokens, which are in different slots. -/
theorem card_le {σ : Type} {b : Books BulkheadLease σ T}
    (hserved : Served limit token b.leases b.now occupancy) (htoken : Function.Injective token)
    {name : String} {L : Finset ℕ} (hL : ∀ h ∈ L, Granted b name h) :
    L.card ≤ (limit name).toNat := by
  have himage : L.image token ⊆ (((occupancy name).reap b.now).map Prod.fst).toFinset := by
    intro x hx
    obtain ⟨h, hh, rfl⟩ := Finset.mem_image.mp hx
    obtain ⟨lease, ends, hlease, rfl, hends, hlt⟩ := hL h hh
    have hmem := hserved.occupied h lease ends hlease hends hlt
    rw [hserved.token_eq hlease] at hmem
    rw [List.mem_toFinset, List.mem_map]
    exact ⟨(token h, ends), Occupancy.mem_reap.mpr ⟨hmem, hlt⟩, rfl⟩
  calc L.card = (L.image token).card := (Finset.card_image_of_injective L htoken).symm
    _ ≤ _ := Finset.card_le_card himage
    _ ≤ (((occupancy name).reap b.now).map Prod.fst).length := List.toFinset_card_le _
    _ = ((occupancy name).reap b.now).length := List.length_map _
    _ ≤ (limit name).toNat := hserved.bounded name

end Served

/-- Every live lease has its slot, and under no name are there more of them than its limit. -/
structure Capped {σ : Type} (limit : String → ℤ) (b : Books BulkheadLease σ T)
    (occupancy : String → Occupancy T) : Prop where
  occupied : ∀ h lease ends, b.leases h = some lease → lease.ends = some ends → b.now < ends →
    (lease.request.token, ends) ∈ occupancy lease.request.policy.name
  capped : ∀ name (L : Finset ℕ), (∀ h ∈ L, Granted b name h) → L.card ≤ (limit name).toNat

theorem Served.capped {σ : Type} {limit : String → ℤ} {token : ℕ → String}
    {b : Books BulkheadLease σ T} {occupancy : String → Occupancy T}
    (hserved : Served limit token b.leases b.now occupancy) (htoken : Function.Injective token) :
    Capped limit b occupancy :=
  ⟨hserved.occupied, fun _ _ hL => hserved.card_le htoken hL⟩

end

/-! ## The in-memory adapter -/

section

variable {limit : String → ℤ} {token : ℕ → String}

theorem served_start (limit : String → ℤ) (token : ℕ → String) :
    Served (T := ℚ) limit token (fun _ => none) 0 fun _ => [] := by
  constructor
  · intro h lease hnone
    cases hnone
  · intro h lease ends hnone
    cases hnone
  · intro name
    exact Nat.zero_le _

theorem served_of_step {b b' : Books BulkheadLease (String → Occupancy ℚ) ℚ}
    {action : LeaseAction BulkheadLease ℚ Empty} (htoken : Function.Injective token)
    (hserved : Served limit token b.leases b.now b.store)
    (hstep : b.step (memoryBulkhead limit token) action = some b') :
    Served limit token b'.leases b'.now b'.store := by
  cases action with
  | create h request =>
    -- one case for each action on the books
    obtain ⟨-, hadmits, rfl⟩ := Books.of_create hstep
    exact hserved.create hadmits
  | attempt h =>
    obtain ⟨lease, hlease, rfl⟩ := Books.of_attempt hstep
    cases htry : (b.store lease.request.policy.name).tryAdd b.now lease.request.policy.limit
        lease.request.token (b.now + lease.request.policy.leaseTtlMs / 1000) with
    | mk granted slots =>
      simp only [memoryBulkhead, htry]
      exact hserved.attempt htoken hlease htry
  | release h =>
    obtain ⟨lease, hlease, rfl⟩ := Books.of_release hstep
    exact hserved.release htoken hlease
  | drift e => cases e
  | tick t =>
    obtain ⟨hle, rfl⟩ := Books.of_tick hstep
    exact hserved.tick hle fun name => .inl rfl

/-! ## The Redis adapter -/

theorem bulkheadKey_injective {n n' : String} (h : bulkheadKey n = bulkheadKey n') : n = n' := by
  have hchars := congrArg String.toList h
  simp only [bulkheadKey, String.toList_append] at hchars
  exact String.toList_injective (List.append_cancel_left hchars)

/-- The script does under its key what `try_add` does, and to no other key anything at all. -/
theorem acquireScript_cases (db : Keyspace SortedSet Millis) (now : Millis) (key token : String)
    (limit ttl : ℤ) :
    ∃ granted db', acquireScript db now key token limit ttl = (granted, db') ∧
      Occupancy.tryAdd ((db.purge now).items key) now limit token (now + ttl) =
        (granted, db'.items key) ∧
      (∀ key', key' ≠ key → db' key' = db.purge now key') ∧
      ∀ cell, db' key = some cell → (granted = true ∧ cell.expiresAt = some (now + ttl)) ∨
        granted = false ∧ ∃ old, db.purge now key = some old ∧ cell.expiresAt = old.expiresAt := by
  have hreap : ((db.purge now).zremrangebyscore key now).items key =
      Occupancy.reap ((db.purge now).items key) now := Keyspace.items_zremrangebyscore
  have hcard : ((db.purge now).zremrangebyscore key now).zcard key =
      (Occupancy.reap ((db.purge now).items key) now).length := congrArg List.length hreap
  unfold acquireScript
  rcases Occupancy.tryAdd_cases ((db.purge now).items key) now limit token (now + ttl) with
    ⟨hfull, htry⟩ | ⟨hfree, htry⟩
  · -- `ZCARD` reached the limit: nothing is added, and the expiry of the set stays
    rw [← hcard] at hfull
    refine ⟨false, _, if_pos hfull, ?_, ?_, ?_⟩
    · rw [htry, hreap]
    · intro key' hne
      exact Keyspace.putSet_of_ne hne
    · intro cell hcell
      exact .inr ⟨rfl, Keyspace.of_zremrangebyscore hcell⟩
  · -- `ZADD` and then `PEXPIRE`, of the whole set
    rw [← hcard] at hfree
    refine ⟨true, _, if_neg (not_le.mpr hfree), ?_, ?_, ?_⟩
    · rw [htry, Keyspace.items_pexpire, Keyspace.items_zadd, hreap]
      rfl
    · intro key' hne
      rw [Keyspace.pexpire_of_ne hne]
      exact (Keyspace.putSet_of_ne hne).trans (Keyspace.putSet_of_ne hne)
    · intro cell hcell
      rw [Keyspace.pexpire_self, Option.map_eq_some_iff] at hcell
      obtain ⟨old, -, rfl⟩ := hcell
      exact .inl ⟨rfl, rfl⟩

abbrev RedisBulkheadClients : Type := LeaseClients BulkheadLease BulkheadStore Millis

abbrev RedisBulkheadEvent : Type := LeaseEvent BulkheadLease Millis Empty

abbrev RedisBulkheadBooks : Type := Books BulkheadLease BulkheadStore Millis

/-- No lease outlives the one that was granted last under its name: when that one's TTL has
    elapsed, all others have been released or have expired. -/
def Covers (b : RedisBulkheadBooks) : LeaseAction BulkheadLease Millis Empty → Prop
  | .tick t => ∀ name last, b.store.latest name = some last → last ≤ t →
      ∀ h lease ends, b.leases h = some lease → lease.request.policy.name = name →
        lease.ends = some ends → ends ≤ t
  | _ => True

/-- The keys serve the leases, and run out with the lease granted last. -/
structure RedisServed (limit : String → ℤ) (token : ℕ → String) (b : RedisBulkheadBooks) :
    Prop where
  served : Served limit token b.leases b.now (b.store.occupancy b.now)
  latest : ∀ name cell, b.store.db (bulkheadKey name) = some cell →
    ∃ last, cell.expiresAt = some last ∧ b.store.latest name = some last

variable {b b' : RedisBulkheadBooks} {action : LeaseAction BulkheadLease Millis Empty}

/-- Cells that have not run out are all seen. -/
theorem occupancy_eq {s : BulkheadStore} {now : Millis} {name : String}
    (h : ∀ cell, s.db (bulkheadKey name) = some cell → cell.elapsed now = false) :
    s.occupancy now name = s.db.items (bulkheadKey name) := Keyspace.items_purge h

/-- A key that is seen at a time has not run out. -/
theorem elapsed_of_purge {db : Keyspace SortedSet Millis} {now : Millis} {key : String}
    {cell : Cell SortedSet Millis} (h : db.purge now key = some cell) : cell.elapsed now = false :=
  (Keyspace.purge_eq_some_iff.mp h).2

theorem redis_served_start (limit : String → ℤ) (token : ℕ → String) :
    RedisServed limit token ⟨0, {}, fun _ => none⟩ := by
  constructor
  · constructor
    · intro h lease hnone
      cases hnone
    · intro h lease ends hnone
      cases hnone
    · intro name
      exact Nat.zero_le _
  · intro name cell hnone
    cases hnone

/-- The other names of a store that changes the key of one. -/
theorem occupancy_frame {s : BulkheadStore} {db : Keyspace SortedSet Millis}
    {latest : String → Option Millis} {now : Millis} {n : String}
    (hframe : ∀ key, key ≠ bulkheadKey n → db key = s.db.purge now key)
    (hself : ∀ cell, db (bulkheadKey n) = some cell → cell.elapsed now = false) :
    BulkheadStore.occupancy ⟨db, latest⟩ now =
      Function.update (s.occupancy now) n (db.items (bulkheadKey n)) := by
  funext name
  by_cases hname : name = n
  · subst hname
    rw [Function.update_self, occupancy_eq hself]
  · have hkey : bulkheadKey name ≠ bulkheadKey n := fun h => hname (bulkheadKey_injective h)
    have hsame := hframe _ hkey
    rw [Function.update_of_ne hname, occupancy_eq, Keyspace.items_of_eq hsame]
    · rfl
    · intro cell hcell
      exact elapsed_of_purge (hsame.symm.trans hcell)

/-- What a store remembers of the last lease stays true of the keys that are left. -/
theorem RedisServed.latest_of_purge (hserved : RedisServed limit token b) {name : String}
    {cell : Cell SortedSet Millis} (hcell : b.store.db.purge b.now (bulkheadKey name) = some cell) :
    ∃ last, cell.expiresAt = some last ∧ b.store.latest name = some last :=
  hserved.latest name cell (Keyspace.purge_eq_some_iff.mp hcell).1

theorem RedisServed.attempt {h : ℕ} {lease : Lease BulkheadLease Millis}
    (hserved : RedisServed limit token b) (htoken : Function.Injective token)
    (hlease : b.leases h = some lease) :
    RedisServed limit token { b with
      store := ((redisBulkhead limit token).attempt lease.request b.now b.store).2
      leases := Function.update b.leases h (some ⟨lease.request,
        ((redisBulkhead limit token).attempt lease.request b.now b.store).1.or lease.ends⟩) } := by
  obtain ⟨granted, db, hscript, htry, hframe, hexpires⟩ := acquireScript_cases b.store.db b.now
    (bulkheadKey lease.request.policy.name) lease.request.token lease.request.policy.limit
    lease.request.policy.leaseTtlMs
  have hslots := hserved.served.attempt htoken hlease htry
  have hpos := hserved.served.ttl_pos hlease
  -- the key that the script leaves has a lease to go, whether or not it is this one
  have hself : ∀ cell, db (bulkheadKey lease.request.policy.name) = some cell →
      cell.elapsed b.now = false := by
    intro cell hcell
    obtain ⟨-, hends⟩ | ⟨-, old, hold, hsame⟩ := hexpires cell hcell
    · simp [Cell.elapsed, hends, hpos]
    · have hnot := elapsed_of_purge hold
      rwa [Cell.elapsed, ← hsame] at hnot
  -- the sets of other bulkheads are not touched by the script
  have hother : ∀ name cell, name ≠ lease.request.policy.name →
      db (bulkheadKey name) = some cell →
      ∃ last, cell.expiresAt = some last ∧ b.store.latest name = some last := by
    intro name cell hname hcell
    have hkey : bulkheadKey name ≠ bulkheadKey lease.request.policy.name :=
      fun h => hname (bulkheadKey_injective h)
    exact hserved.latest_of_purge ((hframe _ hkey).symm.trans hcell)
  cases granted with
  | true =>
    -- granted: the set ends when this lease does
    simp only [redisBulkhead, hscript]
    constructor
    · rw [occupancy_frame hframe hself]
      exact hslots
    · intro name cell hcell
      by_cases hname : name = lease.request.policy.name
      · subst hname
        obtain ⟨-, hends⟩ | ⟨hfalse, -⟩ := hexpires cell hcell
        · exact ⟨_, hends, Function.update_self ..⟩
        · cases hfalse
      · obtain ⟨last, hlast, hlatest⟩ := hother name cell hname hcell
        exact ⟨last, hlast, (Function.update_of_ne hname ..).trans hlatest⟩
  | false =>
    -- refused: the set ends when it did before
    simp only [redisBulkhead, hscript]
    constructor
    · rw [occupancy_frame hframe hself]
      exact hslots
    · intro name cell hcell
      by_cases hname : name = lease.request.policy.name
      · subst hname
        obtain ⟨htrue, -⟩ | ⟨-, old, hold, hsame⟩ := hexpires cell hcell
        · cases htrue
        · obtain ⟨last, hlast, hlatest⟩ := hserved.latest_of_purge hold
          exact ⟨last, hsame.trans hlast, hlatest⟩
      · exact hother name cell hname hcell

theorem RedisServed.release {h : ℕ} {lease : Lease BulkheadLease Millis}
    (hserved : RedisServed limit token b) (htoken : Function.Injective token)
    (hlease : b.leases h = some lease) :
    RedisServed limit token { b with
      store := (redisBulkhead limit token).release lease.request b.now b.store
      leases := Function.update b.leases h (some ⟨lease.request, none⟩) } := by
  -- the release takes one member out of one set, and leaves its expiry
  have hframe : ∀ key, key ≠ bulkheadKey lease.request.policy.name →
      releaseScript b.store.db b.now (bulkheadKey lease.request.policy.name) lease.request.token
        key = b.store.db.purge b.now key := fun key hkey => Keyspace.putSet_of_ne hkey
  have hself : ∀ cell, releaseScript b.store.db b.now (bulkheadKey lease.request.policy.name)
      lease.request.token (bulkheadKey lease.request.policy.name) = some cell →
      ∃ old, b.store.db.purge b.now (bulkheadKey lease.request.policy.name) = some old ∧
        cell.expiresAt = old.expiresAt := fun cell hcell => Keyspace.of_zrem hcell
  constructor
  · simp only [redisBulkhead]
    rw [occupancy_frame hframe]
    · rw [releaseScript, Keyspace.items_zrem]
      exact hserved.served.release htoken hlease
    · intro cell hcell
      obtain ⟨old, hold, hsame⟩ := hself cell hcell
      have hnot := elapsed_of_purge hold
      rwa [Cell.elapsed, ← hsame] at hnot
  · intro name cell hcell
    by_cases hname : name = lease.request.policy.name
    · subst hname
      obtain ⟨old, hold, hsame⟩ := hself cell hcell
      obtain ⟨last, hlast, hlatest⟩ := hserved.latest_of_purge hold
      exact ⟨last, hsame.trans hlast, hlatest⟩
    · have hkey : bulkheadKey name ≠ bulkheadKey lease.request.policy.name :=
        fun h => hname (bulkheadKey_injective h)
      exact hserved.latest_of_purge ((hframe _ hkey).symm.trans hcell)

/-- As time passes, a key goes when the lease granted last has run out. -/
theorem RedisServed.tick {t : Millis} (hserved : RedisServed limit token b) (hle : b.now ≤ t)
    (hcovers : Covers b (.tick t)) : RedisServed limit token { b with now := t } := by
  refine ⟨hserved.served.tick hle fun name => ?_, hserved.latest⟩
  by_cases hgone : ∃ cell, b.store.db (bulkheadKey name) = some cell ∧ cell.elapsed t = true
  · obtain ⟨cell, hcell, helapsed⟩ := hgone
    obtain ⟨last, hlast, hlatest⟩ := hserved.latest name cell hcell
    obtain ⟨t', ht', hle'⟩ := Keyspace.elapsed_iff.mp helapsed
    obtain rfl : last = t' := Option.some.inj (hlast.symm.trans ht')
    exact .inr ⟨Keyspace.items_purge_of_elapsed hcell helapsed, hcovers name last hlatest hle'⟩
  · left
    have hthere : ∀ cell, b.store.db (bulkheadKey name) = some cell → cell.elapsed t = false := by
      intro cell hcell
      by_contra helapsed
      exact hgone ⟨cell, hcell, by simpa using helapsed⟩
    refine (occupancy_eq hthere).trans (occupancy_eq ?_).symm
    intro cell hcell
    by_contra helapsed
    obtain ⟨t', ht', hle'⟩ := Keyspace.elapsed_iff.mp (by simpa using helapsed)
    have hlater := Keyspace.elapsed_iff.mpr ⟨t', ht', hle'.trans hle⟩
    rw [hthere cell hcell] at hlater
    cases hlater

theorem redis_served_of_step (htoken : Function.Injective token)
    (hserved : RedisServed limit token b) (hcovers : Covers b action)
    (hstep : b.step (redisBulkhead limit token) action = some b') :
    RedisServed limit token b' := by
  cases action with
  | create h request =>
    obtain ⟨-, hadmits, rfl⟩ := Books.of_create hstep
    exact ⟨hserved.served.create hadmits, hserved.latest⟩
  | attempt h =>
    obtain ⟨lease, hlease, rfl⟩ := Books.of_attempt hstep
    exact hserved.attempt htoken hlease
  | release h =>
    obtain ⟨lease, hlease, rfl⟩ := Books.of_release hstep
    exact hserved.release htoken hlease
  | drift e => cases e
  | tick t =>
    obtain ⟨hle, rfl⟩ := Books.of_tick hstep
    exact hserved.tick hle hcovers

/-- A guarded step of the clients keeps the keys in order. -/
theorem redis_served_of_event {s s' : RedisBulkheadClients} {event : RedisBulkheadEvent}
    (htoken : Function.Injective token) (hserved : RedisServed limit token s.books)
    (hcovers : ∀ action, event.action = some action → Covers s.books action)
    (hstep : LeaseClients.step (redisBulkhead limit token) s event = some s') :
    RedisServed limit token s'.books := by
  obtain ⟨-, hsame⟩ | ⟨action, haction, hbooks⟩ := LeaseClients.books_of_step hstep
  · rwa [hsame]
  · exact redis_served_of_step htoken hserved (hcovers action haction) hbooks

/-- Where the last lease is outlived, its slot and all others are gone. -/
theorem covers_of_capped (hserved : RedisServed limit token b)
    (hstep : b.step (redisBulkhead limit token) action = some b')
    (hcapped : Capped limit b' (b'.store.occupancy b'.now)) : Covers b action := by
  cases action with
  | tick t =>
    -- only the passing of time is in question
    obtain ⟨hle, rfl⟩ := Books.of_tick hstep
    intro name last hlatest hlast h lease ends hlease hname hends
    by_contra hlt
    have hmem := hcapped.occupied h lease ends hlease hends (not_le.mp hlt)
    -- past its expiry the set is gone with all its members
    have hempty : b.store.occupancy t lease.request.policy.name = [] := by
      cases hcell : b.store.db (bulkheadKey lease.request.policy.name) with
      | none => simp [BulkheadStore.occupancy, Keyspace.items, Keyspace.get,
          Keyspace.purge_of_none hcell]
      | some cell =>
        obtain ⟨last', hends', hlatest'⟩ := hserved.latest _ cell hcell
        rw [hname] at hlatest'
        obtain rfl := Option.some.inj (hlatest.symm.trans hlatest')
        exact Keyspace.items_purge_of_elapsed hcell
          (Keyspace.elapsed_iff.mpr ⟨last, hends', hlast⟩)
    rw [hempty] at hmem
    cases hmem
  | create h request => trivial
  | attempt h => trivial
  | release h => trivial
  | drift e => cases e

end

end Evenkeel.Infrastructure
