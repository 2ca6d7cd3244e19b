import Evenkeel.Infrastructure.Sessions
import Evenkeel.Properties.Reporting

/-!
# Giving the Key Back

`WalletMovementService.apply` alone over the deployment, after its claim was answered
`RESERVED`, while everybody else may do anything but use its key or its session. The
refusals the service writes out roll back and release; an exception of an awaited
operation passes them by.
-/

namespace Evenkeel.Properties

open Evenkeel.Domain Evenkeel.Application Evenkeel.Effects Evenkeel.Infrastructure

/-! ## What can happen meanwhile -/

/-- What the others may do to the world between two operations of request `i`. -/
structure Others (i : ℕ) (key : String) (w w' : World) : Prop where
  now : w.now ≤ w'.now
  entry : w'.idempotency key = w.idempotency key
  tx : w'.tx i = w.tx i
  commits : ∀ tx, (i, tx) ∈ w'.commits ↔ (i, tx) ∈ w.commits

theorem Others.refl {i : ℕ} {key : String} {w : World} : Others i key w w :=
  ⟨le_refl _, rfl, rfl, fun _ => Iff.rfl⟩

/-- The exceptions that pass the service's refusals by. -/
def Raises : Event Op Resp → Prop
  | ⟨.enterLock .., .error _⟩ => True
  | ⟨.readWallet .., .error _⟩ => True
  | ⟨.addEntry _, .error _⟩ => True
  | ⟨.updateWallet .., .error _⟩ => True
  | ⟨.commit, .error _⟩ => True
  | ⟨.rollback, .error _⟩ => True
  | _ => False

/-- An operation of the idempotency store that raised. -/
def StoreFails : Event Op Resp → Prop
  | ⟨.reserve .., .error _⟩ => True
  | ⟨.confirm .., .error _⟩ => True
  | ⟨.release _, .error _⟩ => True
  | _ => False

/-- The transaction has been rolled back, and a retry would be answered `RESERVED`. -/
structure GivenBack (service : WalletMovementSettings) (m : MovementRequest) (i : ℕ)
    (key : String) (w : World) : Prop where
  rolledBack : w.tx i = {}
  retried : ∃ record, (w.idempotency.reserve w.now key (fingerprint m)
    service.idempotencyTtlSeconds).1 = .ok ⟨.reserved, record⟩

/-! ## From the claim to the end -/

/-- The reservation that was made at `since` is still there, if it was stored at all. -/
def Held (ttl : ℤ) (key : String) (since : Instant) (w : World) : Prop :=
  0 < ttl → ∃ e deadline, w.idempotency key = some e ∧ expiry since ttl = some deadline ∧
    deadline ≤ e.expiresAt

/-- The key has been reserved since `since`, and nothing has gone wrong. -/
structure Holding (ttl : ℤ) (i : ℕ) (key : String) (since : Instant) (s : World × History) :
    Prop where
  clock : since ≤ s.1.now
  held : Held ttl key since s.1
  unconfirmed : 0 < ttl → ∀ e, s.1.idempotency key = some e → e.response = none
  quiet : ∀ event ∈ s.2, ¬ Raises event
  uncommitted : ∀ tx, (i, tx) ∉ s.1.commits

/-- How a request that was given its key can end. -/
inductive Ending (ttl : ℤ) (i : ℕ) (key : String) (since : Instant) (s : World × History) :
    Prop where
  | committed (h : ∃ tx, (i, tx) ∈ s.1.commits)
  | storeFailed (h : ∃ event ∈ s.2, StoreFails event)
  | givenBack (hquiet : ∀ event ∈ s.2, ¬ Raises event) (htx : s.1.tx i = {})
      (hfree : ttl ≤ 0 ∨ s.1.idempotency.Vacant s.1.now key ∧ (expiry s.1.now ttl).isSome)
  | stranded (hraised : ∃ event ∈ s.2, Raises event) (hclock : since ≤ s.1.now)
      (hheld : Held ttl key since s.1)

section

open Program Contract

variable {service : WalletMovementSettings} {m : MovementRequest} {ttl : ℤ} {i : ℕ}
  {key k : String} {since : Instant} {w w' w₁ w₂ : World} {t : History} {op : Op} {x : Resp op}

theorem Held.of_entry (h : Held ttl key since w)
    (hentry : w'.idempotency key = w.idempotency key) : Held ttl key since w' := by
  intro httl
  rw [hentry]
  exact h httl

/-- A commit that has happened is there at the end, whatever the rest of the program does. -/
theorem committed_keeps {α : Type} (p : AppM α) {s : World × History}
    (h : ∃ tx, (i, tx) ∈ s.1.commits) :
    (deployment.alone (Others i key) i).wp p (fun _ s' => ∃ tx, (i, tx) ∈ s'.1.commits) s := by
  induction p generalizing s with
  | done r => exact h
  | request op resume ih =>
    refine ⟨trivial, ?_⟩
    intro x s' hs'
    obtain ⟨⟨w₁, hothers, hans⟩, -⟩ := hs'
    obtain ⟨tx, htx⟩ := h
    exact ih x ⟨tx, hans.mem_commits ((hothers.commits tx).mpr htx)⟩

/-- An operation that goes well keeps the key. -/
theorem Holding.step (h : Holding ttl i key since (w, t)) (hothers : Others i key w w₁)
    (hans : w₁.Answers i op x w₂) (hstore : World.storeKey op ≠ some key) (hop : op ≠ .commit)
    (hx : ¬ Raises ⟨op, x⟩) : Holding ttl i key since (w₂, t ++ [⟨op, x⟩]) := by
  obtain ⟨hnow, hentry⟩ := hans.frame hstore
  have hsame := hentry.trans hothers.entry
  refine ⟨?_, h.held.of_entry hsame, fun httl e he => ?_, ?_, fun tx htx => ?_⟩
  · show since ≤ w₂.now
    rw [hnow]
    exact h.clock.trans hothers.now
  · exact h.unconfirmed httl e (hsame.symm.trans he)
  · intro event hevent
    rcases List.mem_append.mp hevent with hmem | hmem
    · exact h.quiet event hmem
    · obtain rfl := List.mem_singleton.mp hmem
      exact hx
  · exact h.uncommitted tx ((hothers.commits tx).mp (hans.mem_commits_of_ne hop htx))

/-- One that raises leaves it stranded, unless it was a commit that did happen. -/
theorem Holding.raise (h : Holding ttl i key since (w, t)) (hothers : Others i key w w₁)
    (hans : w₁.Answers i op x w₂) (hx : Raises ⟨op, x⟩) :
    Ending ttl i key since (w₂, t ++ [⟨op, x⟩]) := by
  have hstore : World.storeKey op ≠ some key := by
    cases op <;> first | exact hx.elim | exact (Option.some_ne_none key).symm
  obtain ⟨hnow, hentry⟩ := hans.frame hstore
  refine .stranded ⟨_, List.mem_append_right _ (List.mem_singleton_self _), hx⟩ ?_
    (h.held.of_entry (hentry.trans hothers.entry))
  show since ≤ w₂.now
  rw [hnow]
  exact h.clock.trans hothers.now

/-- Leaving the lock changes nothing that matters here. -/
theorem Ending.leave {lock : String} {x : Resp (.exitLock lock)}
    (h : Ending ttl i key since (w, t)) (hothers : Others i key w w₁)
    (hans : w₁.Answers i (.exitLock lock) x w₂) :
    Ending ttl i key since (w₂, t ++ [⟨.exitLock lock, x⟩]) := by
  -- the exit touches neither the clock nor the store
  obtain ⟨hnow, hentry⟩ : w₂.now = w₁.now ∧ w₂.idempotency key = w₁.idempotency key :=
    hans.frame (by rintro ⟨⟩)
  have hmem : ∀ {P : Event Op Resp → Prop}, (∃ event ∈ t, P event) →
      ∃ event ∈ t ++ [⟨.exitLock lock, x⟩], P event := by
    rintro P ⟨event, hevent, hP⟩
    exact ⟨event, List.mem_append_left _ hevent, hP⟩
  cases h with
  | committed h =>
    -- what is committed stays committed
    obtain ⟨tx, htx⟩ := h
    exact .committed ⟨tx, hans.mem_commits ((hothers.commits tx).mpr htx)⟩
  | storeFailed h => exact .storeFailed (hmem h)
  | givenBack hquiet htx hfree =>
    -- a key that was given back stays free
    refine .givenBack ?_ ?_ (hfree.imp_right fun hvacant => ⟨fun e he => ?_, ?_⟩)
    · intro event hevent
      rcases List.mem_append.mp hevent with hmem | hmem
      · exact hquiet event hmem
      · obtain rfl := List.mem_singleton.mp hmem
        exact id
    · show w₂.tx i = {}
      rw [(hans.quiet id).2, hothers.tx]
      exact htx
    · show e.expiresAt ≤ monotonic w₂.now
      rw [hnow]
      exact (hvacant.1 e ((hentry.trans hothers.entry).symm.trans he)).trans
        (monotonic_mono hothers.now)
    · rw [expiry_isSome _ w.now]
      exact hvacant.2
  | stranded hraised hclock hheld =>
    -- a key that is stranded stays so
    refine .stranded (hmem hraised) ?_ (hheld.of_entry (hentry.trans hothers.entry))
    show since ≤ w₂.now
    rw [hnow]
    exact hclock.trans hothers.now

theorem refuseWith_ending {α : Type} (e : Exn) (hk : m.idempotencyKey = some k)
    (hkey : key = scopedKey m.ownerId k) {s : World × History}
    (h : Holding ttl i key since s) :
    (deployment.alone (Others i key) i).wp (refuseWith m e : AppM α)
      (fun _ s' => Ending ttl i key since s') s := by
  obtain ⟨w, t⟩ := s
  unfold refuseWith release
  refine ⟨trivial, ?_⟩
  rintro x ⟨w₂, t'⟩ ⟨⟨w₁, hothers, hans⟩, ht'⟩
  obtain rfl : t' = t ++ [⟨.rollback, x⟩] := ht'
  -- the rollback raises, or the session is empty
  cases x with
  | error e' => exact h.raise hothers hans trivial
  | ok u =>
    have hholding := h.step hothers hans (by rintro ⟨⟩) (by rintro ⟨⟩) id
    have htx : w₂.tx i = {} := by
      rcases hans with ⟨-, rfl⟩ | ⟨⟨e', he'⟩, -⟩
      · exact World.write_tx_self _
      · cases eq_error_of_failure he'
    simp only [handle_done, onValue_ok, hk]
    refine ⟨trivial, ?_⟩
    -- then the key is released
    rintro y ⟨w₄, t'⟩ ⟨⟨w₃, hothers', hans'⟩, ht'⟩
    obtain rfl : t' = t ++ [⟨.rollback, .ok u⟩] ++ [⟨.release (scopedKey m.ownerId k), y⟩] := ht'
    cases y with
    | error e' =>
      exact .storeFailed ⟨_, List.mem_append_right _ (List.mem_singleton_self _), trivial⟩
    | ok v =>
      have hserves : w₄ = { w₃ with
          idempotency := w₃.idempotency.release w₃.now (scopedKey m.ownerId k) } := by
        rcases hans' with ⟨-, rfl⟩ | ⟨⟨e', he'⟩, -⟩
        · rfl
        · cases eq_error_of_failure he'
      subst hserves hkey
      refine .givenBack ?_ ?_ ?_
      · intro event hevent
        rcases List.mem_append.mp hevent with hmem | hmem
        · exact hholding.quiet event hmem
        · obtain rfl := List.mem_singleton.mp hmem
          exact id
      · exact hothers'.tx.trans htx
      · -- what is released is the unconfirmed reservation, if there is one
        rcases le_or_gt ttl 0 with hle | hpos
        · exact .inl hle
        · obtain ⟨-, deadline, -, hdeadline, -⟩ := hholding.held hpos
          refine .inr ⟨Entries.release_vacant fun z hz => ?_, ?_⟩
          · exact hholding.unconfirmed hpos z (hothers'.entry.symm.trans hz)
          · rw [expiry_isSome _ since, hdeadline]
            rfl

theorem write_ending {wallet : Wallet} {version : ℤ} {balance : Money} {now : Datetime}
    (hk : m.idempotencyKey = some k) (hkey : key = scopedKey m.ownerId k)
    {s : World × History} (h : Holding ttl i key since s) :
    (deployment.alone (Others i key) i).wp (write service m version wallet balance now)
      (fun _ s' => Ending ttl i key since s') s := by
  obtain ⟨w, t⟩ := s
  -- the id is generated
  refine ⟨trivial, ?_⟩
  rintro (id : UUID) ⟨w₂, t'⟩ ⟨⟨w₁, hothers, hans⟩, ht'⟩
  obtain rfl : t' = t ++ [⟨.generate, id⟩] := ht'
  have hminted := h.step hothers hans (by rintro ⟨⟩) (by rintro ⟨⟩) fun hx => hx
  clear hothers hans
  set t₁ := t ++ [⟨.generate, id⟩]
  set entry := LedgerEntry.record ⟨id⟩ wallet.id m.direction m.amount balance m.description now
  -- the entry is added
  refine ⟨trivial, ?_⟩
  rintro x ⟨w₄, t'⟩ ⟨⟨w₃, hothers, hans⟩, ht'⟩
  obtain rfl : t' = t₁ ++ [⟨.addEntry entry, x⟩] := ht'
  cases x with
  | error e => exact hminted.raise hothers hans trivial
  | ok u =>
    have hadded := hminted.step hothers hans (by rintro ⟨⟩) (by rintro ⟨⟩) fun hx => hx
    clear hothers hans
    set t₂ := t₁ ++ [⟨.addEntry entry, .ok u⟩]
    -- the wallet is updated
    refine ⟨trivial, ?_⟩
    rintro x ⟨w₆, t'⟩ ⟨⟨w₅, hothers, hans⟩, ht'⟩
    obtain rfl : t' = t₂ ++ [⟨.updateWallet wallet version, x⟩] := ht'
    rcases x with e | updated
    · exact hadded.raise hothers hans trivial
    have hupdated := hadded.step hothers hans (by rintro ⟨⟩) (by rintro ⟨⟩) fun hx => hx
    clear hothers hans
    cases updated with
    -- another has changed it: a refusal, after which the key is released
    | false => exact refuseWith_ending _ hk hkey hupdated
    | true =>
      set t₃ := t₂ ++ [⟨.updateWallet wallet version, .ok true⟩]
      -- and all of it is committed
      refine ⟨trivial, ?_⟩
      rintro x ⟨w₈, t'⟩ ⟨⟨w₇, hothers, hans⟩, ht'⟩
      obtain rfl : t' = t₃ ++ [⟨.commit, x⟩] := ht'
      cases x with
      | error e => exact hupdated.raise hothers hans trivial
      | ok u =>
        -- from here on the movement is committed, so nothing has to be given back
        have hcommitted : ∃ tx, (i, tx) ∈ w₈.commits := by
          rcases hans with ⟨-, rfl⟩ | ⟨⟨e, he⟩, -⟩
          · exact ⟨w₇.tx i, List.mem_append_right _ (List.mem_singleton_self _)⟩
          · cases eq_error_of_failure he
        exact wp_mono (fun _ _ h => .committed h) (committed_keeps _ hcommitted)

theorem applyLocked_ending (hk : m.idempotencyKey = some k) (hkey : key = scopedKey m.ownerId k)
    {s : World × History} (h : Holding ttl i key since s) :
    (deployment.alone (Others i key) i).wp (applyLocked service m)
      (fun _ s' => Ending ttl i key since s') s := by
  obtain ⟨w, t⟩ := s
  -- the wallet is read
  refine ⟨trivial, ?_⟩
  rintro x ⟨w₂, t'⟩ ⟨⟨w₁, hothers, hans⟩, ht'⟩
  obtain rfl : t' = t ++ [⟨.readWallet m.walletId m.ownerId true, x⟩] := ht'
  cases x with
  | error e => exact h.raise hothers hans trivial
  | ok found =>
    have hread := h.step hothers hans (by rintro ⟨⟩) (by rintro ⟨⟩) id
    clear hothers hans
    cases found with
    | none => exact refuseWith_ending _ hk hkey hread
    | some wallet =>
      set t₁ := t ++ [⟨.readWallet m.walletId m.ownerId true, .ok (some wallet)⟩]
      -- the time is read
      refine ⟨trivial, ?_⟩
      rintro (now : Datetime) ⟨w₄, t'⟩ ⟨⟨w₃, hothers, hans⟩, ht'⟩
      obtain rfl : t' = t₁ ++ [⟨.now, now⟩] := ht'
      have hnow := hread.step hothers hans (by rintro ⟨⟩) (by rintro ⟨⟩) id
      simp only [handle_done, onValue_ok]
      cases hmove : move wallet m.direction m.amount now with
      | ok moved => exact write_ending hk hkey hnow
      | error raised =>
        -- the domain refuses with nothing but a `DomainError`
        obtain ⟨e, rfl⟩ := move_error hmove
        exact refuseWith_ending _ hk hkey hnow

theorem withLock_ending (hk : m.idempotencyKey = some k) (hkey : key = scopedKey m.ownerId k)
    {s : World × History} (h : Holding ttl i key since s) (acquired : Bool) :
    (deployment.alone (Others i key) i).wp (withLock service m acquired)
      (fun _ s' => Ending ttl i key since s') s := by
  obtain ⟨w, t⟩ := s
  refine ⟨trivial, ?_⟩
  rintro u ⟨w₂, t'⟩ ⟨⟨w₁, hothers, hans⟩, ht'⟩
  obtain rfl : t' = t ++ [⟨.observe _, u⟩] := ht'
  have hobserved := h.step hothers hans (by rintro ⟨⟩) (by rintro ⟨⟩) id
  cases acquired with
  | true => exact applyLocked_ending hk hkey hobserved
  | false => exact refuseWith_ending _ hk hkey hobserved

/-- The whole of `apply`, if its first operation was answered `RESERVED`. -/
theorem apply_ending (hk : m.idempotencyKey = some k) (hkey : key = scopedKey m.ownerId k)
    (hquiet : ∀ tx, (i, tx) ∉ w.commits) :
    (deployment.alone (Others i key) i).wp (apply service m)
      (fun _ s' => (∃ record, s'.2.head? = some ⟨.reserve key (fingerprint m)
          service.idempotencyTtlSeconds, .ok ⟨.reserved, record⟩⟩) →
        Ending service.idempotencyTtlSeconds i key w.now s') (w, []) := by
  unfold apply claim
  rw [hk]
  refine ⟨trivial, ?_⟩
  rintro x ⟨w₂, t'⟩ ⟨⟨w₁, hothers, hans⟩, ht'⟩
  obtain rfl : t' = [⟨.reserve (scopedKey m.ownerId k) (fingerprint m)
    service.idempotencyTtlSeconds, x⟩] := ht'
  subst hkey
  -- the claim is granted, or there is nothing to give back
  by_cases hx : ∃ record, x = .ok ⟨.reserved, record⟩
  · obtain ⟨record, rfl⟩ := hx
    have hholding : Holding service.idempotencyTtlSeconds i (scopedKey m.ownerId k) w.now (w₂,
        [⟨.reserve (scopedKey m.ownerId k) (fingerprint m) service.idempotencyTtlSeconds,
          .ok ⟨.reserved, record⟩⟩]) := by
      rcases hans with ⟨hx, rfl⟩ | ⟨⟨e, he⟩, -⟩
      · -- the reservation is in the store, unless it was not asked to keep any
        have hstored : 0 < service.idempotencyTtlSeconds → ∃ deadline,
            expiry w₁.now service.idempotencyTtlSeconds = some deadline ∧
            (w₁.idempotency.reserve w₁.now (scopedKey m.ownerId k) (fingerprint m)
              service.idempotencyTtlSeconds).2 (scopedKey m.ownerId k) =
                some ⟨fingerprint m, deadline, none⟩ := by
          intro httl
          rcases Entries.reserve_reserved_iff.mp ⟨record, hx.symm⟩ with hle | ⟨hvacant, hsome⟩
          · exact absurd httl (not_lt.mpr hle)
          · obtain ⟨deadline, hdeadline⟩ := Option.isSome_iff_exists.mp hsome
            exact ⟨deadline, hdeadline, (Entries.reserve_of_vacant hvacant _ httl hdeadline).2⟩
        refine ⟨hothers.now, fun httl => ?_, fun httl e he => ?_, ?_, fun tx htx => ?_⟩
        · -- the reservation lasts for the TTL from the call on
          obtain ⟨deadline, hdeadline, hentry⟩ := hstored httl
          have hsome : (expiry w.now service.idempotencyTtlSeconds).isSome := by
            rw [expiry_isSome _ w₁.now, hdeadline]
            rfl
          obtain ⟨t, ht⟩ := Option.isSome_iff_exists.mp hsome
          have hlasts : Lasts w.now service.idempotencyTtlSeconds t :=
            ⟨httl, fun t' ht' => (Option.some.inj (ht.symm.trans ht')).le⟩
          exact ⟨_, t, hentry, ht, (hlasts.mono hothers.now).2 deadline hdeadline⟩
        · -- and it is not confirmed
          obtain ⟨deadline, -, hentry⟩ := hstored httl
          obtain rfl := Option.some.inj (hentry.symm.trans he)
          rfl
        · -- nothing has been raised yet
          intro event hevent
          obtain rfl := List.mem_singleton.mp hevent
          exact id
        · -- nor committed
          exact hquiet tx ((hothers.commits tx).mp htx)
      · cases eq_error_of_failure he
    clear hans hothers
    -- then the lock is entered
    refine ⟨trivial, ?_⟩
    rintro y ⟨w₄, t'⟩ ⟨⟨w₃, hothers, hans⟩, ht'⟩
    obtain rfl : t' = _ ++ [⟨.enterLock _ _ _, y⟩] := ht'
    cases y with
    | error e => exact fun _ => hholding.raise hothers hans trivial
    | ok acquired =>
      have hentered := hholding.step hothers hans (by rintro ⟨⟩) (by rintro ⟨⟩) id
      show (deployment.alone _ _).wp ((withLock service m acquired).tryFinally _) _ _
      refine wp_handle.mpr (wp_mono ?_ (withLock_ending hk rfl hentered acquired))
      rintro r ⟨w₅, t₅⟩ hending
      refine ⟨trivial, ?_⟩
      -- and left, after whatever happened inside
      rintro z ⟨w₇, t'⟩ ⟨⟨w₆, hothers', hans'⟩, ht'⟩
      obtain rfl : t' = t₅ ++ [⟨.exitLock _, z⟩] := ht'
      cases z <;> exact fun _ => hending.leave hothers' hans'
  · -- the claim was not granted, and nothing is said
    refine wp_mono ?_ (Environment.alone_extends _ _)
    rintro r ⟨w', t'⟩ ⟨u, hu⟩ ⟨record, hhead⟩
    obtain rfl : t' = _ ++ u := hu
    simp only [List.singleton_append, List.head?_cons, Option.some.injEq] at hhead
    exact absurd ⟨record, eq_of_heq (Sigma.mk.inj hhead).2⟩ hx

end

/-- After a claim that was answered `RESERVED`, a movement that ends in an exception with
    nothing committed has given everything back if no awaited operation but the store's and
    the lock's exit raised, and within the key's time to live only then. -/
theorem given_back_iff (service : WalletMovementSettings) (m : MovementRequest) {k : String}
    {i : ℕ} {w w' : World} {t : History} {e : Exn} (hk : m.idempotencyKey = some k)
    (hquiet : ∀ tx, (i, tx) ∉ w.commits)
    (hexecutes : deployment.Executes (Others i (scopedKey m.ownerId k)) i (apply service m) w t
      (.error e) w')
    (hreserved : ∃ record, t.head? = some ⟨.reserve (scopedKey m.ownerId k) (fingerprint m)
      service.idempotencyTtlSeconds, .ok ⟨.reserved, record⟩⟩)
    (hstore : ∀ event ∈ t, ¬ StoreFails event) (huncommitted : ∀ tx, (i, tx) ∉ w'.commits) :
    ((∀ event ∈ t, ¬ Raises event) →
        GivenBack service m i (scopedKey m.ownerId k) w') ∧
      (Lives w.now service.idempotencyTtlSeconds w'.now →
        GivenBack service m i (scopedKey m.ownerId k) w' → ∀ event ∈ t, ¬ Raises event) := by
  have hending := Environment.of_alone (u := []) (apply_ending hk rfl hquiet) hexecutes hreserved
  -- in each of the endings, what the caller finds of its key
  cases hending with
  | committed h =>
    obtain ⟨tx, htx⟩ := h
    exact absurd htx (huncommitted tx)
  | storeFailed h =>
    obtain ⟨event, hevent, hfails⟩ := h
    exact absurd hfails (hstore event hevent)
  | givenBack hnone htx hfree =>
    exact ⟨fun _ => ⟨htx, Entries.reserve_reserved_iff.mpr hfree⟩, fun _ _ => hnone⟩
  | stranded hraised hclock hheld =>
    constructor
    · intro hnone
      obtain ⟨event, hevent, hraises⟩ := hraised
      exact absurd hraises (hnone event hevent)
    · -- the key is still taken when it is asked for again
      intro hlive hgiven
      obtain ⟨y, deadline, hy, hdeadline, hexpires⟩ := hheld hlive.1
      rcases Entries.reserve_reserved_iff.mp hgiven.retried with hle | ⟨hvacant, -⟩
      · exact absurd hlive.1 (not_lt.mpr hle)
      · have hbefore := (hlive.2 deadline hdeadline).trans_le hexpires
        exact absurd (hvacant y hy) (not_le.mpr hbefore)

/-! A movement of a wallet that does not exist, and one that Redis fails. -/

private def keyOne : String := scopedKey Sample.owner "k"

private def claimed : Event Op Resp :=
  ⟨.reserve keyOne (fingerprint (Sample.deposit (some "k"))) 86400, .ok ⟨.reserved, none⟩⟩

theorem given_back_iff_absent :
    ∃ t e w', deployment.Executes (Others 0 keyOne) 0 (apply {} (Sample.deposit (some "k")))
        (World.start 0 { letters := .ascii } fun _ => none) t (.error e) w' ∧
      GivenBack {} (Sample.deposit (some "k")) 0 keyOne w' := by
  have hexecutes : ∃ w' e, deployment.Executes (Others 0 keyOne) 0
      (apply {} (Sample.deposit (some "k"))) (World.start 0 { letters := .ascii } fun _ => none)
      [claimed, ⟨.enterLock (lockKey Sample.wallet.id) 5000 2000, .ok true⟩,
        ⟨.observe (.lock "wallet_movement" "acquired"), ()⟩,
        ⟨.readWallet Sample.wallet.id Sample.owner true, .ok none⟩, ⟨.rollback, .ok ()⟩,
        ⟨.release keyOne, .ok ()⟩, ⟨.exitLock (lockKey Sample.wallet.id), .ok ()⟩]
      (.error e) w' ∧ w'.commits = [] := by
    refine ⟨_, _, .request .refl (.inl (Sample.serves_claim rfl rfl))
      (.request .refl (.inl (.inl ⟨rfl, rfl⟩))
      (.request .refl (.inl rfl) (.request .refl (.inl ⟨rfl, rfl⟩) (.request .refl
      (.inl ⟨rfl, rfl⟩) (.request .refl (.inl ⟨rfl, rfl⟩) (.request .refl (.inl ⟨rfl, rfl⟩)
      (.done _ _))))))), ?_⟩
    rfl
  obtain ⟨w', e, hexecutes, hcommits⟩ := hexecutes
  have hgiven := given_back_iff {} (Sample.deposit (some "k")) (k := "k") rfl
    (by rintro tx ⟨⟩) hexecutes ⟨none, rfl⟩ (by simp [claimed, StoreFails])
    (by simp [hcommits])
  exact ⟨_, e, w', hexecutes, hgiven.1 (by simp [claimed, Raises])⟩

/-- Redis fails while the lock is acquired: nothing has happened, and the key is stranded. -/
theorem key_stranded_by_outage :
    ∃ w', deployment.Executes (Others 0 keyOne) 0 (apply {} (Sample.deposit (some "k")))
        (World.start 0 { letters := .ascii } fun _ => none)
        [claimed, ⟨.enterLock (lockKey Sample.wallet.id) 5000 2000,
          .error (dependencyUnavailable "redis" "lock.acquire")⟩]
        (.error (dependencyUnavailable "redis" "lock.acquire")) w' ∧
      w'.commits = [] ∧
      (w'.idempotency.reserve w'.now keyOne (fingerprint (Sample.deposit (some "k"))) 86400).1 =
        .ok ⟨.inProgress, none⟩ := by
  refine ⟨_, .request .refl (.inl (Sample.serves_claim rfl rfl))
    (.request .refl (.inr ⟨⟨_, rfl⟩, .inl rfl⟩) (.done _ _)), rfl, ?_⟩
  have httl : (0 : ℤ) < 86400 := by norm_num
  have hentry : (Function.update (fun _ => none) keyOne (some ⟨fingerprint
      (Sample.deposit (some "k")), Sample.tomorrow, none⟩) : Entries Receipt) keyOne = some _ :=
    Function.update_self ..
  have hreserve := Entries.reserve_of_live hentry Sample.zero_lt_tomorrow
    (fingerprint (Sample.deposit (some "k"))) httl
  refine (congrArg Prod.fst hreserve).trans ?_
  simp

end Evenkeel.Properties
