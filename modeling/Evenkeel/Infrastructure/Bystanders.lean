import Evenkeel.Application.UnownedWallets
import Evenkeel.Infrastructure.Tenancy

/-!
# Bystanders

A request for a wallet that is not its owner's, in a run in which nobody else acts for that
owner. Whatever the others do, the store answers its claim as the owner's own entry has it, and
the database that there is no such wallet.

- `Unowned`: the only request of its owner, for a wallet that the owner has not got
- `Told`: what such a request is answered
- `Bystander`: what holds of it along a run

## Key Results

- `bystander_of_run`: it holds along every run
- `verdict_of_run`: so the request ends with the verdict on its claim
-/

namespace Evenkeel.Infrastructure

open Evenkeel.Domain Evenkeel.Application Evenkeel.Effects

/-- Request `i` is the only one of its owner, who has not got the wallet. -/
structure Unowned (requests : ℕ → Request) (i : ℕ) (m : MovementRequest) (db : Database) :
    Prop where
  request : requests i = .apply m
  alone : ∀ j, j ≠ i → (requests j).ownerId ≠ m.ownerId
  wallet : ∀ row ∈ db.walletsOf m.ownerId, row.id ≠ m.walletId.value

/-- What the request has been answered until `now`. -/
def Told (service : WalletMovementSettings) (m : MovementRequest) (start : World)
    (now : Instant) : Event Op Resp → Prop
  | ⟨.reserve .., x⟩ => (∃ e, x = .error e) ∨ ∃ key time, m.idempotencyKey = some key ∧
      start.now ≤ time ∧ time ≤ now ∧ x = (start.idempotency.reserve time
        (scopedKey m.ownerId key) (fingerprint m) service.idempotencyTtlSeconds).1
  | ⟨.readWallet .., x⟩ => (∃ e, x = .error e) ∨ x = .ok none
  | _ => True

theorem Told.mono {service : WalletMovementSettings} {m : MovementRequest} {start : World}
    {now now' : Instant} {event : Event Op Resp} (h : Told service m start now event)
    (hnow : now ≤ now') : Told service m start now' event := by
  obtain ⟨op, x⟩ := event
  cases op with
  | reserve =>
    obtain herror | ⟨key, time, hkey, hstart, htime, hx⟩ := h
    · exact .inl herror
    · exact .inr ⟨key, time, hkey, hstart, htime.trans hnow, hx⟩
  | _ => exact h

/-- The request has written nothing, and until it has made its claim the entries of its
    owner's keys are as they were. -/
structure Bystander (service : WalletMovementSettings) (requests : ℕ → Request) (i : ℕ)
    (m : MovementRequest) (start : World) (t : List (Occurrence Op Resp)) (w : World)
    (g : ℕ → Call) : Prop where
  tracked : Tracked requests t w g
  session : (g i).session = .idle ∨ (g i).session = .spoiled
  wallets : w.db.walletsOf m.ownerId = start.db.walletsOf m.ownerId
  clock : start.now ≤ w.now
  entries : (g i).claim = .unclaimed → ∀ key,
    w.idempotency (scopedKey m.ownerId key) = start.idempotency (scopedKey m.ownerId key)
  told : ∀ event ∈ Pool.ownEvents i t, Told service m start w.now event

theorem readWallet_of_unowned {db : Database} {id : WalletId} {o : OwnerId}
    (h : ∀ row ∈ db.walletsOf o, row.id ≠ id.value) : db.readWallet id o = .ok none := by
  have hnone : db.wallets.find? (fun row => row.id = id.value ∧ row.ownerId = o.value) = none := by
    apply List.find?_eq_none.mpr
    intro row hrow hmatches
    obtain ⟨hid, howner⟩ := of_decide_eq_true hmatches
    exact h row (List.mem_filter.mpr ⟨hrow, decide_eq_true howner⟩) hid
  unfold Database.readWallet
  rw [hnone]

/-- Only an operation that does not ask the store leaves a request unclaimed. -/
theorem unclaimed_of_next {c : Claim} {op : Op} {x : Resp op}
    (h : c.next op x = .unclaimed) : c = .unclaimed ∧ World.storeKey op = none := by
  cases op with
  | reserve =>
    rcases x with e | ⟨(_ | _ | _ | _), (_ | record)⟩ <;> cases h
  | confirm => cases h
  | release => cases h
  | readWallet id o f =>
    rcases Claim.next_readWallet c id o f x with hsame | ⟨record, e, rfl, rfl⟩
    · exact ⟨hsame.symm.trans h, rfl⟩
    · cases h
  | readEntry => rcases x with e | (_ | e) <;> cases c <;> cases h
  | commit => cases x <;> cases c <;> first | exact ⟨rfl, rfl⟩ | cases h
  | _ => exact ⟨h, rfl⟩

/-! ## Every step -/

section

variable {service : WalletMovementSettings} {settings : MoveMoneySettings}
  {requests : ℕ → Request} {i j : ℕ} {m : MovementRequest} {start w w' : World}
  {t : List (Occurrence Op Resp)} {g : ℕ → Call} {op : Op} {x : Resp op}

/-- What the request is answered itself. -/
theorem Bystander.told_answered (h : Bystander service requests i m start t w g)
    (hunowned : Unowned requests i m start.db) (hopen : .closed i ∉ t)
    (hallow : (g i).allows service (requests i) op) (hans : w.Answers i op x w') :
    Told service m start w.now ⟨op, x⟩ := by
  have hrequest : requests i = .apply m := hunowned.request
  cases op with
  | reserve key fp ttl =>
    -- the claim is answered from the key's own entry, which nobody else has touched
    obtain ⟨hclaim, hkey, rfl, m', hm', rfl⟩ := hallow
    rw [hrequest] at hkey hm'
    obtain rfl : m = m' := Option.some.inj hm'
    obtain ⟨k, hk, rfl⟩ := Option.map_eq_some_iff.mp hkey
    rcases hans with ⟨rfl, -⟩ | ⟨⟨e, he⟩, -⟩
    · refine .inr ⟨k, w.now, hk, h.clock, le_refl _, ?_⟩
      exact Entries.reserve_congr (h.entries hclaim k) (fun _ _ => Iff.rfl) _ _
    · exact .inl ⟨e, eq_error_of_failure he⟩
  | readWallet id o f =>
    obtain ⟨hclean, rfl, hid⟩ := hallow
    rcases hans with ⟨rfl, -⟩ | ⟨⟨e, he⟩, -⟩
    · -- the session is clean, so the read sees the committed rows, and none of them is the
      -- owner's
      right
      have hview : w.view i = w.db :=
        Database.apply_blank (Database.writes_of_clean (h.tracked.tracks i hopen) hclean)
      rw [hview, hid m (by rw [hrequest]; rfl), hrequest]
      apply readWallet_of_unowned
      show ∀ row ∈ w.db.walletsOf m.ownerId, _
      rw [h.wallets]
      exact hunowned.wallet
    · exact .inl ⟨e, eq_error_of_failure he⟩
  | _ => trivial

/-- Without a wallet nothing is ever written. -/
theorem Bystander.session_answered (h : Bystander service requests i m start t w g)
    (hrequest : requests i = .apply m) (hallow : (g i).allows service (requests i) op)
    (htold : Told service m start w.now ⟨op, x⟩) :
    op ≠ .commit ∧ ((g i).session.next op x = .idle ∨ (g i).session.next op x = .spoiled) := by
  have hsession := h.session
  cases op with
  | readWallet id o f =>
    refine ⟨by rintro ⟨⟩, ?_⟩
    obtain ⟨e, rfl⟩ | hx := htold
    · exact hsession
    · obtain rfl : x = .ok none := hx
      exact .inl rfl
  | addWallet =>
    -- a movement opens no wallet
    obtain ⟨hmovement, -⟩ := hallow
    rw [hrequest] at hmovement
    cases hmovement
  | addEntry =>
    -- an entry needs a wallet that was loaded, and none was
    obtain ⟨m', v, v', -, hloaded, -⟩ := hallow
    rcases hsession with hs | hs <;> cases hs.symm.trans hloaded
  | updateWallet =>
    obtain ⟨m', v, e, -, hrecorded, -⟩ := hallow
    rcases hsession with hs | hs <;> cases hs.symm.trans hrecorded
  | commit =>
    -- nor is there anything to commit
    obtain ⟨hready, -⟩ := hallow
    rcases hsession with hs | hs
    · rw [hs] at hready
      exact hready.elim
    · rw [hs] at hready
      exact hready.elim
  | rollback =>
    refine ⟨by rintro ⟨⟩, ?_⟩
    cases x with
    | error e => exact .inr rfl
    | ok _ => exact .inl rfl
  | _ => exact ⟨by rintro ⟨⟩, hsession⟩

/-- The step lemma: an operation the protocol allows, however it is answered. -/
theorem Bystander.answered (h : Bystander service requests i m start t w g)
    (hunowned : Unowned requests i m start.db) (hopen : .closed j ∉ t)
    (hallow : (g j).allows service (requests j) op) (hans : w.Answers j op x w') :
    Bystander service requests i m start (t ++ [.answered j ⟨op, x⟩]) w'
      (Function.update g j ⟨(g j).session.next op x, (g j).claim.next op x⟩) := by
  have htracked : Tracked requests (t ++ [.answered j ⟨op, x⟩]) w'
      (Function.update g j ⟨(g j).session.next op x, (g j).claim.next op x⟩) :=
    h.tracked.answered hopen hallow hans
  have hclock : w'.now = w.now := hans.clock
  by_cases hji : j = i
  · -- the request itself
    subst hji
    have htold := h.told_answered hunowned hopen hallow hans
    obtain ⟨hcommit, hsession⟩ := h.session_answered hunowned.request hallow htold
    have hcall : Function.update g j ⟨(g j).session.next op x, (g j).claim.next op x⟩ j =
        ⟨(g j).session.next op x, (g j).claim.next op x⟩ := Function.update_self ..
    refine ⟨htracked, ?_, ?_, ?_, ?_, ?_⟩
    · -- its session, the owner's wallets, the clock, the key's entry, and what it was told
      rw [hcall]
      exact hsession
    · rw [(hans.tables hcommit).1]
      exact h.wallets
    · rw [hclock]
      exact h.clock
    · rw [hcall]
      -- as long as it has not claimed its key, nothing has happened to the entry
      intro hnext key
      obtain ⟨hclaim, hstore⟩ := unclaimed_of_next hnext
      rw [(hans.frame (by rw [hstore]; exact Option.some_ne_none _ |>.symm)).2]
      exact h.entries hclaim key
    · intro event hevent
      rw [hclock]
      rw [Pool.ownEvents_append, Pool.ownEvents_answered, if_pos rfl] at hevent
      rcases List.mem_append.mp hevent with hold | hnew
      · exact h.told event hold
      · obtain rfl := List.mem_singleton.mp hnew
        exact htold
  · -- another owner's, which spares this one
    have hspares := h.tracked.spares hopen hallow hans (hunowned.alone j hji)
    have hcall : Function.update g j ⟨(g j).session.next op x, (g j).claim.next op x⟩ i = g i :=
      Function.update_of_ne (Ne.symm hji) ..
    -- the same five, none of them touched by the other request
    refine ⟨htracked, ?_, ?_, ?_, ?_, ?_⟩
    · rw [hcall]
      exact h.session
    · rw [hspares.wallets]
      exact h.wallets
    · rw [hclock]
      exact h.clock
    · rw [hcall]
      intro hclaim key
      rw [hspares.keys]
      exact h.entries hclaim key
    · intro event hevent
      rw [hclock]
      rw [Pool.ownEvents_append, Pool.ownEvents_answered, if_neg hji, List.append_nil] at hevent
      exact h.told event hevent

theorem Bystander.drifted {now : Instant} (h : Bystander service requests i m start t w g)
    (hnow : w.now ≤ now) :
    Bystander service requests i m start (t ++ [.drifted]) { w with now := now } g := by
  refine ⟨h.tracked.drifted, h.session, h.wallets, h.clock.trans hnow, h.entries, ?_⟩
  intro event hevent
  rw [Pool.ownEvents_append, Pool.ownEvents_drifted, List.append_nil] at hevent
  exact (h.told event hevent).mono hnow

theorem Bystander.closed (h : Bystander service requests i m start t w g) :
    Bystander service requests i m start (t ++ [.closed j]) (w.discard j) g := by
  refine ⟨h.tracked.closed, h.session, h.wallets, h.clock, h.entries, ?_⟩
  intro event hevent
  rw [Pool.ownEvents_append, Pool.ownEvents_closed, List.append_nil] at hevent
  exact h.told event hevent

variable {G : Pool.Guard deployment Exn Answer} {now : Instant} {db : Database}
  {idempotency : Entries Receipt} {Q : Pool deployment Exn Answer}

/-- The run lemma: whatever the others do. -/
theorem bystander_of_run (hsound : db.Sound) (hunowned : Unowned requests i m db)
    (hrun : Pool.RunUnder G
      (arrivals service settings requests (World.start now db idempotency)) t Q) :
    ∃ g, Bystander service requests i m (World.start now db idempotency) t Q.world g := by
  have hupholds : Pool.RunUnder.Upholds (fun i => protocol service (requests i)) G
      (fun i => (requests i).Meets)
      (Bystander service requests i m (World.start now db idempotency)) := by
    constructor
    · -- an answer, an end, or a step that is nobody's
      intro t R R' g j op x hwp hinv hopen hallow hans hG
      exact ⟨_, ⟨promises_of_answers hans, rfl⟩, hinv.answered hunowned hopen hallow hans⟩
    · intro t R w g j r hdone hwp hinv hcloses
      obtain rfl : w = R.world.discard j := hcloses
      exact hinv.closed
    · intro t R w g hwp hinv hdrifts hG
      obtain ⟨now, hnow, rfl⟩ := hdrifts
      exact hinv.drifted hnow
  have hstart : Bystander service requests i m (World.start now db idempotency) []
      (World.start now db idempotency) fun _ => Call.initial :=
    ⟨.start hsound, .inl rfl, rfl, le_refl _, fun _ _ => rfl, fun _ hevent => nomatch hevent⟩
  obtain ⟨g, hinv, -⟩ := hrun.upholds hupholds
    (fun j => Request.meets_protocol service settings (requests j)) hstart
  exact ⟨g, hinv⟩

/-- The entry of a key, if it has one, is live from `now` until `later`, or expired already. -/
def Steady (idempotency : Entries Receipt) (now later : Instant) (key : String) : Prop :=
  ∀ e, idempotency key = some e → e.expiresAt ≤ monotonic now ∨ monotonic later < e.expiresAt

/-- What the store says to a claim of the request's key, if it does not raise. -/
def claimAnswer (service : WalletMovementSettings) (m : MovementRequest)
    (idempotency : Entries Receipt) (now : Instant) : IdempotencyReservation Receipt :=
  match m.idempotencyKey with
  | none => ⟨.reserved, none⟩
  | some key => (idempotency.reserve now (scopedKey m.ownerId key) (fingerprint m)
      service.idempotencyTtlSeconds).1.toOption.getD ⟨.reserved, none⟩

/-- The request ends with the verdict on its claim. -/
theorem verdict_of_run {r : Except Exn Answer} (hsound : db.Sound)
    (hunowned : Unowned requests i m db)
    (hrun : Pool.RunUnder G
      (arrivals service settings requests (World.start now db idempotency)) t Q)
    (hsteady : ∀ key, Steady idempotency now Q.world.now (scopedKey m.ownerId key))
    (hsucceeds : ∀ event ∈ Pool.ownEvents i t, Succeeds event)
    (hdone : Q.clients i = .done r) :
    ∃ outcome, r = outcome.map .applied ∧
      verdict m (claimAnswer service m idempotency now) outcome
        (lockAnswer (Pool.ownEvents i t)) := by
  obtain ⟨g, hinv⟩ := bystander_of_run hsound hunowned hrun
  -- what the request was told fits the reservation that the store has for it from the start
  have hsays : ∀ event ∈ Pool.ownEvents i t,
      Says (claimAnswer service m idempotency now) event := by
    intro event hevent
    have hok := hsucceeds event hevent
    have htold := hinv.told event hevent
    obtain ⟨op, x⟩ := event
    refine ⟨hok, ?_⟩
    cases op with
    | reserve k fp ttl =>
      obtain ⟨e, rfl⟩ | ⟨key, time, hkey, hstart, htime, hx⟩ := htold
      · exact absurd rfl (hok e)
      · -- the entry has not expired meanwhile
        have hsame : (idempotency.reserve time (scopedKey m.ownerId key) (fingerprint m)
            service.idempotencyTtlSeconds).1 = (idempotency.reserve now (scopedKey m.ownerId key)
            (fingerprint m) service.idempotencyTtlSeconds).1 := by
          apply Entries.reserve_congr rfl
          intro e he
          rcases hsteady key e he with hexpired | hlive
          · exact iff_of_true hexpired (hexpired.trans (monotonic_mono hstart))
          · have hbefore := (monotonic_mono htime).trans_lt hlive
            exact iff_of_false (not_le.mpr ((monotonic_mono hstart).trans_lt hbefore))
              (not_le.mpr hbefore)
        have hclaim : x = (idempotency.reserve now (scopedKey m.ownerId key) (fingerprint m)
            service.idempotencyTtlSeconds).1 := hx.trans hsame
        cases x with
        | error e => exact absurd rfl (hok e)
        | ok reservation =>
          show Except.ok reservation = Except.ok (claimAnswer service m idempotency now)
          simp only [claimAnswer, hkey, ← hclaim]
          rfl
    | readWallet =>
      -- the wallet is not there
      obtain ⟨e, rfl⟩ | hx := htold
      · exact absurd rfl (hok e)
      · exact hx
    | _ => trivial
  -- the answer to such a history is the verdict
  have hwp : (unowned (claimAnswer service m idempotency now)).wp
      (Answer.applied <$> apply service m)
      (fun r b => ∃ outcome, r = outcome.map .applied ∧
        verdict m (claimAnswer service m idempotency now) outcome b) none := by
    apply Contract.wp_handle.mpr
    apply Contract.wp_mono _ apply_verdict
    intro outcome b hverdict
    cases outcome with
    | error e => exact ⟨.error e, rfl, hverdict⟩
    | ok outcome => exact ⟨.ok outcome, rfl, hverdict⟩
  have hperforms := hrun.performs i
  rw [hdone] at hperforms
  have hprogram : (arrivals service settings requests (World.start now db idempotency)).clients i =
      (Answer.applied <$> apply service m) := by
    show (requests i).program service settings = _
    rw [hunowned.request]
    rfl
  rw [hprogram] at hperforms
  exact Contract.of_tracking hwp hperforms hsays

end

end Evenkeel.Infrastructure
