import Evenkeel.Infrastructure.Sessions

/-!
# Reservations

The requests that carry one idempotency key, seen together with the store's entry for it.
Until one of them has committed, the entry reserves the key for at most one of them; from
then on it stands for the entry that was booked, and nobody holds the key any more.

- `World.keyed`: the transactions committed for requests with the key
- `World.Keeps`: what a step that does not touch the key leaves as it was
- `Unbooked`, `Booked`: the two phases

## Key Results

- `Unbooked.answered`, `Booked.answered`: every operation of a request with the key keeps
  the phase or, if it commits, ends the first
- `Unbooked.keeps`, `Booked.keeps`: so does every other step
-/

namespace Evenkeel.Infrastructure

open Evenkeel.Domain Evenkeel.Application Evenkeel.Effects
open Evenkeel.Python (Binary64)

/-! ## Requests with a key -/

/-- The transactions that were committed for requests with the key. -/
def World.keyed (w : World) (requests : ℕ → Request) (key : String) : List (ℕ × Transaction) :=
  w.commits.filter fun c => (requests c.1).storeKey = some key

/-- A request only asks the store about its own key. -/
theorem storeKey_of_allows {service : WalletMovementSettings} {r : Request} {s : Call} {op : Op}
    {key : String} (h : s.allows service r op) (hop : World.storeKey op = some key) :
    r.storeKey = some key := by
  cases op with
  | reserve =>
    obtain rfl := Option.some.inj hop
    exact h.2.1
  | confirm =>
    obtain rfl := Option.some.inj hop
    exact h.2.1
  | release =>
    obtain rfl := Option.some.inj hop
    exact h.2
  | _ => cases hop

/-! ## Steps that leave a key alone -/

/-- What such a step keeps. -/
structure World.Keeps (requests : ℕ → Request) (key : String) (w w' : World) : Prop where
  now : w.now ≤ w'.now
  entry : w'.idempotency key = w.idempotency key
  keyed : w'.keyed requests key = w.keyed requests key
  grows : w.db.Grows w'.db

section

variable {service : WalletMovementSettings} {requests : ℕ → Request} {key : String}
  {t : List (Occurrence Op Resp)} {w w' : World} {g : ℕ → Call} {i : ℕ}

theorem World.Keeps.refl : World.Keeps requests key w w :=
  ⟨le_refl _, rfl, rfl, .refl _⟩

/-- An operation keeps every key it does not ask the store about, unless it is the commit
    of a request with that key. -/
theorem Followed.keeps {op : Op} {x : Resp op} (h : Followed requests t w g)
    (hopen : .closed i ∉ t) (hallow : (g i).allows service (requests i) op)
    (hans : w.Answers i op x w') (hstore : World.storeKey op ≠ some key)
    (hcommit : op = .commit → (requests i).storeKey ≠ some key) :
    World.Keeps requests key w w' := by
  obtain ⟨hnow, hentry⟩ := hans.frame hstore
  refine ⟨hnow.ge, hentry, ?_, .of_posts h.unique (h.posts hopen hallow hans)⟩
  by_cases hop : op = .commit
  · subst hop
    have hother := hcommit rfl
    rcases hans with ⟨-, rfl⟩ | ⟨-, rfl | ⟨y, -, rfl⟩⟩
    · simp [World.keyed, hother]
    · rfl
    · simp [World.keyed, hother]
  · simp only [World.keyed, (hans.tables hop).2]

/-- A request with another key, or none, keeps the key whatever it does. -/
theorem Followed.keeps_of_other {op : Op} {x : Resp op} (h : Followed requests t w g)
    (hopen : .closed i ∉ t) (hallow : (g i).allows service (requests i) op)
    (hans : w.Answers i op x w') (hother : (requests i).storeKey ≠ some key) :
    World.Keeps requests key w w' :=
  h.keeps hopen hallow hans (fun hop => hother (storeKey_of_allows hallow hop)) fun _ => hother

theorem World.keeps_discard : World.Keeps requests key w (w.discard i) :=
  ⟨le_refl _, rfl, rfl, .refl _⟩

theorem World.keeps_wait {now : Instant} (h : w.now ≤ now) :
    World.Keeps requests key w { w with now := now } :=
  ⟨h, rfl, rfl, .refl _⟩

end

/-! ## Before the booking -/

/-- The store has an unconfirmed entry with the fingerprint, until `deadline` at least. -/
def Reserved (deadline : Binary64) (key fp : String) (w : World) : Prop :=
  ∃ e, w.idempotency key = some e ∧ e.fingerprint = fp ∧ e.response = none ∧
    deadline ≤ e.expiresAt

/-- No request with the key has committed. The key is vacant, or reserved for the one
    request that holds it, or reserved for nobody any more. -/
structure Unbooked (requests : ℕ → Request) (deadline : Binary64) (key : String) (w : World)
    (g : ℕ → Call) : Prop where
  keyed : w.keyed requests key = []
  sessions : ∀ i, (requests i).storeKey = some key → ∀ a b, (g i).session ≠ .committed a b
  claims : ∀ i, (requests i).storeKey = some key → (g i).claim.Pending → (g i).claim = .holding
  unique : ∀ i j, (requests i).storeKey = some key → (requests j).storeKey = some key →
    (g i).claim = .holding → (g j).claim = .holding → i = j
  store : (w.idempotency.Vacant w.now key ∧
      ∀ i, (requests i).storeKey = some key → (g i).claim ≠ .holding) ∨
    ∃ fp, Reserved deadline key fp w ∧
      ∀ i, (requests i).storeKey = some key → (g i).claim = .holding → (requests i).Prints fp

/-! ## After the booking -/

/-- A request with the key knows nothing that contradicts the entry `e` that was booked for
    the payload with fingerprint `fp`. -/
structure Agrees (e : LedgerEntry) (fp : String) (r : Request) (s : Call) : Prop where
  session : ∀ a b, s.session = .committed a b →
    b = e ∧ a.id = e.walletId ∧ a.balance = e.balanceAfter
  idle : s.claim.Pending → s.claim ≠ .holding ∧ s.claim ≠ .fallen ∧ r.Prints fp
  record : ∀ record, s.claim = .replaying record → record.response = ⟨e.id, e.walletId⟩
  entry : ∀ record e', s.claim = .reading record e' → (LedgerRow.ofEntry e).Shows e'

/-- The store's entry stands for the booking, confirmed or not yet. -/
def Stands (deadline : Binary64) (key fp : String) (e : LedgerEntry) (w : World) : Prop :=
  ∃ x, w.idempotency key = some x ∧ x.fingerprint = fp ∧ deadline ≤ x.expiresAt ∧
    (x.response = none ∨ x.response = some ⟨e.id, e.walletId⟩)

/-- `e` is the one entry that was committed for the key, and its owner can read it. -/
structure Entered (requests : ℕ → Request) (key : String) (e : LedgerEntry) (w : World) :
    Prop where
  keyed : ∃ j tx, w.keyed requests key = [(j, tx)] ∧ tx.newEntries = [.ofEntry e]
  ledger : .ofEntry e ∈ w.db.ledger
  shows : (LedgerRow.ofEntry e).Shows e
  wallet : ∃ row ∈ w.db.wallets, row.id = e.walletId.value ∧
    ∀ i, (requests i).storeKey = some key → row.ownerId = (requests i).ownerId.value

/-- The entry `e` is what the key stands for, and the requests in `users` agree on it. -/
structure Booked (requests : ℕ → Request) (deadline : Binary64) (key : String) (e : LedgerEntry)
    (fp : String) (users : ℕ → Prop) (w : World) (g : ℕ → Call) : Prop where
  entered : Entered requests key e w
  store : Stands deadline key fp e w
  names : ∀ i m, (requests i).storeKey = some key → (requests i).movement = some m →
    fingerprint m = fp → m.walletId = e.walletId
  calls : ∀ i, users i → Agrees e fp (requests i) (g i)

theorem shows_of_books {m : MovementRequest} {a a' : Wallet} {e : LedgerEntry}
    (h : Books m a a' e) : (LedgerRow.ofEntry e).Shows e := by
  refine LedgerRow.ofEntry_shows ?_
  rw [h.balanceAfter, h.moved.currency, h.amount, h.moved.amount_currency]

/-! ## Steps after the booking -/

section

variable {service : WalletMovementSettings} {requests : ℕ → Request} {deadline : Binary64}
  {key fp : String} {e : LedgerEntry} {users users' : ℕ → Prop} {t : List (Occurrence Op Resp)}
  {w w' : World} {g g' : ℕ → Call} {i : ℕ} {r : Request} {s : Call} {op : Op} {x : Resp op}

/-- A request that learns nothing about its key goes on agreeing. -/
theorem Agrees.next (h : Agrees e fp r s) (hop : op ≠ .commit)
    (hclaim : s.claim.next op x = s.claim) :
    Agrees e fp r ⟨s.session.next op x, s.claim.next op x⟩ := by
  refine ⟨fun a b hs => h.session a b (Session.committed_of_next hs hop), ?_, ?_, ?_⟩
  · rw [hclaim]
    exact h.idle
  · rw [hclaim]
    exact h.record
  · rw [hclaim]
    exact h.entry

/-- So does one that gives its claim up. -/
theorem Agrees.settle (h : Agrees e fp r s) (hop : op ≠ .commit)
    (hclaim : ¬ (s.claim.next op x).Pending) :
    Agrees e fp r ⟨s.session.next op x, s.claim.next op x⟩ := by
  refine ⟨fun a b hs => h.session a b (Session.committed_of_next hs hop),
    fun hpending => absurd hpending hclaim, fun record hrecord => ?_, fun record e' he' => ?_⟩
  · have hreplaying : s.claim.next op x = .replaying record := hrecord
    rw [hreplaying] at hclaim
    exact absurd trivial hclaim
  · have hreading : s.claim.next op x = .reading record e' := he'
    rw [hreading] at hclaim
    exact absurd trivial hclaim

/-- Nobody holds the key after the booking. -/
theorem Agrees.not_proceeds (h : Agrees e fp r s) (hkey : r.storeKey = some key) :
    ¬ s.claim.Proceeds r.storeKey := by
  rw [hkey]
  intro hproceeds
  cases hc : s.claim with
  | unclaimed =>
    rw [hc] at hproceeds
    cases hproceeds
  | holding => exact (h.idle (by rw [hc]; trivial)).1 hc
  | fallen => exact (h.idle (by rw [hc]; trivial)).2.1 hc
  | _ =>
    rw [hc] at hproceeds
    exact hproceeds

theorem Entered.keeps (h : Entered requests key e w) (hkeeps : World.Keeps requests key w w') :
    Entered requests key e w' := by
  obtain ⟨row, hrow, hid, howner⟩ := h.wallet
  obtain ⟨row', hrow', hid', howner', -⟩ := hkeeps.grows.wallet row hrow
  refine ⟨?_, hkeeps.grows.entry _ h.ledger, h.shows,
    ⟨row', hrow', hid'.trans hid, fun j hj => howner'.trans (howner j hj)⟩⟩
  rw [hkeeps.keyed]
  exact h.keyed

/-- A step that leaves the key alone leaves the booking alone. -/
theorem Booked.keeps (h : Booked requests deadline key e fp users w g)
    (hkeeps : World.Keeps requests key w w')
    (hcalls : ∀ j, users' j → Agrees e fp (requests j) (g' j)) :
    Booked requests deadline key e fp users' w' g' := by
  obtain ⟨y, hy, hstands⟩ := h.store
  exact ⟨h.entered.keeps hkeeps, ⟨y, hkeeps.entry.trans hy, hstands⟩, h.names, hcalls⟩

/-- What one request does next matters to itself only. -/
theorem Booked.calls_update {s' : Call} (h : Booked requests deadline key e fp users w g)
    (hi : users i → Agrees e fp (requests i) s') :
    ∀ j, users j → Agrees e fp (requests j) (Function.update g i s' j) := by
  intro j hj
  by_cases hji : j = i
  · subst hji
    rw [Function.update_self]
    exact hi hj
  · rw [Function.update_of_ne hji]
    exact h.calls j hj

/-- What a live entry answers a claim that is made after the booking. -/
private theorem Booked.reserve {fp' : String} {ttl : ℤ}
    {x : Resp (.reserve key fp' ttl)} (h : Booked requests deadline key e fp users w g)
    (hnow : monotonic w.now < deadline) (httl : 0 < ttl)
    (hans : w.Answers i (.reserve key fp' ttl) x w') :
    w' = w ∧ (¬ (Claim.next (g i).claim (.reserve key fp' ttl) x).Pending ∨
      fp' = fp ∧ ∃ record, record.response = ⟨e.id, e.walletId⟩ ∧
        Claim.next (g i).claim (.reserve key fp' ttl) x = .replaying record) := by
  obtain ⟨y, hy, hfp, hexpires, hresponse⟩ := h.store
  have hreserve := Entries.reserve_of_live hy (hnow.trans_le hexpires) fp' httl
  -- the entry answers, and stays as it is
  rcases hans with ⟨rfl, rfl⟩ | ⟨⟨ex, hex⟩, hw⟩
  · rw [hreserve]
    refine ⟨rfl, ?_⟩
    by_cases hsame : y.fingerprint = fp'
    · -- it is in progress until it is confirmed
      rcases hresponse with hnone | hsome
      · left
        simp [hsame, hnone, Claim.next, Claim.Pending]
      · right
        refine ⟨hsame.symm.trans hfp, ⟨key, y.fingerprint, ⟨e.id, e.walletId⟩⟩, rfl, ?_⟩
        simp [hsame, hsome, Claim.next]
    · -- another payload's
      left
      simp [hsame, Claim.next, Claim.Pending]
  · -- the claim failed, whether or not it was carried out
    obtain rfl := eq_error_of_failure hex
    refine ⟨?_, .inl id⟩
    rcases hw with rfl | ⟨z, -, rfl⟩
    · rfl
    · rw [hreserve]

/-- The booked entry is there to be read back. -/
private theorem Booked.readEntry {o : OwnerId} {x : Resp (.readEntry e.id o)}
    (h : Booked requests deadline key e fp users w g) (hunique : w.db.Unique)
    (hview : w.view i = w.db) (hkey : (requests i).storeKey = some key)
    (howner : o = (requests i).ownerId) (hans : w.Answers i (.readEntry e.id o) x w') :
    (∃ ex, x = .error ex) ∨ ∃ e', x = .ok (some e') ∧ (LedgerRow.ofEntry e).Shows e' := by
  rcases hans with ⟨rfl, -⟩ | ⟨⟨ex, hex⟩, -⟩
  · rw [hview]
    rcases hread : w.db.readEntry e.id o with ex | (_ | e')
    · exact .inl ⟨ex, rfl⟩
    · -- its wallet is still there too, so the query cannot come back empty
      obtain ⟨row, hrow, hid, hrowOwner⟩ := h.entered.wallet
      have howns := Database.readEntry_none hread _ h.entered.ledger rfl
      rw [Database.owns_iff.mpr ⟨row, hrow, hid, by rw [hrowOwner i hkey, howner]⟩] at howns
      cases howns
    · right
      obtain ⟨row, hrow, hshows, hid, -⟩ := Database.readEntry_some hread
      have hrowid : row.id = (LedgerRow.ofEntry e).id := by
        rw [← hshows.id, hid]
        rfl
      obtain rfl := hunique.entry_unique hrow h.entered.ledger hrowid
      exact ⟨e', rfl, hshows⟩
  · exact .inl ⟨ex, eq_error_of_failure hex⟩

/-- The step lemma after the booking. -/
theorem Booked.answered (h : Booked requests deadline key e fp users w g)
    (hfollowed : Followed requests t w g) (hopen : .closed i ∉ t)
    (husers : ∀ j, users j → (requests j).storeKey = some key) (hi : users i)
    (hnow : monotonic w.now < deadline)
    (hdeadline : Lasts w.now service.idempotencyTtlSeconds deadline)
    (hallow : (g i).allows service (requests i) op) (hans : w.Answers i op x w') :
    Booked requests deadline key e fp users w'
      (Function.update g i ⟨(g i).session.next op x, (g i).claim.next op x⟩) := by
  have hagrees := h.calls i hi
  have hkey := husers i hi
  have httl : 0 < service.idempotencyTtlSeconds := hdeadline.1
  have hown : ∀ {k : String}, (requests i).storeKey = some k → k = key := fun hk =>
    Option.some.inj (hk.symm.trans hkey)
  -- an operation that does not ask the store, and is not a commit
  have hquiet : World.storeKey op ≠ some key → op ≠ .commit →
      Agrees e fp (requests i) ⟨(g i).session.next op x, (g i).claim.next op x⟩ →
      Booked requests deadline key e fp users w'
        (Function.update g i ⟨(g i).session.next op x, (g i).claim.next op x⟩) := by
    intro hstore hop hnext
    refine h.keeps (hfollowed.keeps hopen hallow hans hstore ?_) (h.calls_update fun _ => hnext)
    exact fun hcommit => absurd hcommit hop
  have hstore : ∀ {o : Option String}, o = none → o ≠ some key := by
    rintro o rfl
    exact Option.some_ne_none key |>.symm
  cases op with
  | reserve k fp' ttl =>
    -- a claim finds the entry, and replays it or stops
    obtain ⟨hclaim, hk, rfl, m, hm, rfl⟩ := hallow
    obtain rfl := hown hk
    obtain ⟨rfl, hnext⟩ := h.reserve hnow httl hans
    refine h.keeps .refl (h.calls_update fun _ => ?_)
    rcases hnext with hnot | ⟨hfp, record, hrecord, hreplaying⟩
    · exact hagrees.settle (by rintro ⟨⟩) hnot
    · refine ⟨hagrees.session, fun _ => ?_, fun record' h' => ?_, fun record' e' h' => ?_⟩
      · rw [hreplaying]
        exact ⟨by rintro ⟨⟩, by rintro ⟨⟩, m, hm, hfp⟩
      · obtain rfl := Claim.replaying.inj (hreplaying.symm.trans h')
        exact hrecord
      · cases hreplaying.symm.trans h'
  | confirm k response ttl =>
    -- a confirmation writes what is booked
    obtain ⟨-, hk, rfl, a, b, hcommitted, rfl⟩ := hallow
    obtain rfl := hown hk
    obtain ⟨rfl, hid, -⟩ := hagrees.session a b hcommitted
    have hself : Agrees b fp (requests i)
        ⟨(g i).session.next (.confirm k ⟨b.id, a.id⟩ service.idempotencyTtlSeconds) x,
          (g i).claim.next (.confirm k ⟨b.id, a.id⟩ service.idempotencyTtlSeconds) x⟩ :=
      hagrees.settle (by rintro ⟨⟩) id
    have hcalls := h.calls_update fun _ => hself
    have hw : w' = w ∨ w' = { w with
        idempotency := (w.idempotency.confirm w.now k ⟨b.id, a.id⟩
          service.idempotencyTtlSeconds).2 } := by
      rcases hans with ⟨-, rfl⟩ | ⟨-, rfl | ⟨y, -, rfl⟩⟩
      · exact .inr rfl
      · exact .inl rfl
      · exact .inr rfl
    -- it may have been carried out even if it failed
    rcases hw with rfl | rfl
    · exact h.keeps .refl hcalls
    · obtain ⟨y, hy, hfp, hexpires, -⟩ := h.store
      have hlasts := hdeadline.getD hexpires
      refine ⟨⟨h.entered.keyed, h.entered.ledger, h.entered.shows, h.entered.wallet⟩,
        ⟨_, Entries.confirm_of_live hy (hnow.trans_le hexpires) _ httl, hfp, hlasts, .inr ?_⟩,
        h.names, hcalls⟩
      rw [hid]
  | release k => exact absurd hallow.1 (hagrees.not_proceeds hkey)
  | commit => exact absurd hallow.2 (hagrees.not_proceeds hkey)
  | readEntry id o =>
    -- a replay reads the entry by its id, which is there
    obtain ⟨hclean, howner, record, hclaim, hid⟩ := hallow
    have hview : w.view i = w.db :=
      Database.apply_blank (Database.writes_of_clean (hfollowed.tracks i hopen) hclean)
    have hprints := (hagrees.idle (by rw [hclaim]; trivial)).2.2
    obtain rfl : id = e.id := by
      rw [hid, hagrees.record record hclaim]
    refine hquiet (hstore rfl) (by rintro ⟨⟩) ?_
    rcases h.readEntry hfollowed.unique hview hkey howner hans with ⟨ex, rfl⟩ | ⟨e', rfl, hshows⟩
    · exact hagrees.settle (by rintro ⟨⟩) id
    · have hnext : Claim.next (g i).claim (.readEntry e.id o) (.ok (some e')) =
          .reading record e' := by
        rw [hclaim]
        rfl
      refine ⟨hagrees.session, fun _ => ?_, fun record' h' => ?_, fun record' e'' h' => ?_⟩
      · rw [hnext]
        exact ⟨by rintro ⟨⟩, by rintro ⟨⟩, hprints⟩
      · cases hnext.symm.trans h'
      · obtain ⟨-, rfl⟩ := Claim.reading.inj (hnext.symm.trans h')
        exact hshows
  | readWallet id o f =>
    refine hquiet (hstore rfl) (by rintro ⟨⟩) ?_
    rcases Claim.next_readWallet (g i).claim id o f x with hsame | ⟨record, e', hclaim, rfl⟩
    · exact hagrees.next (by rintro ⟨⟩) hsame
    · -- the booked entry's wallet is the one the request names, and it is there
      obtain ⟨hclean, howner, hmovement⟩ := hallow
      obtain ⟨-, -, m, hm, hfp⟩ := hagrees.idle (by rw [hclaim]; trivial)
      obtain ⟨row, hrow, hrowid, hrowOwner⟩ := h.entered.wallet
      have hview : w.view i = w.db :=
        Database.apply_blank (Database.writes_of_clean (hfollowed.tracks i hopen) hclean)
      rcases hans with ⟨hread, -⟩ | ⟨⟨ex, hex⟩, -⟩
      · -- the wallet is in the tables, so it cannot be missing
        rw [hview] at hread
        refine absurd ?_ (Database.readWallet_none hread.symm row hrow ?_)
        · rw [hrowOwner i hkey, howner]
        · rw [hmovement m hm, h.names i m hkey hm hfp, hrowid]
      · cases eq_error_of_failure hex
  | _ => exact hquiet (hstore rfl) (by rintro ⟨⟩) (hagrees.next (by rintro ⟨⟩) rfl)

end

/-! ## Steps before the booking -/

/-- No two requests with the key have payloads of different wallets and one fingerprint. -/
def Distinguished (requests : ℕ → Request) (key : String) : Prop :=
  ∀ i j m m', (requests i).storeKey = some key → (requests j).storeKey = some key →
    (requests i).movement = some m → (requests j).movement = some m' →
    fingerprint m = fingerprint m' → m.walletId = m'.walletId

section

variable {service : WalletMovementSettings} {requests : ℕ → Request} {deadline : Binary64}
  {key fp : String} {t : List (Occurrence Op Resp)} {w w' : World} {g g' : ℕ → Call} {i : ℕ}
  {op : Op} {x : Resp op}

/-- A commit of a request with the key enters the entry its session has recorded. -/
theorem Entered.of_commit {x : Resp .commit} (hfollowed : Followed requests t w g)
    (hopen : .closed i ∉ t) (hkey : (requests i).storeKey = some key)
    (hallow : (g i).allows service (requests i) .commit)
    (hkeyed : w.keyed requests key = []) (hans : w.Serves i .commit x w') :
    ∃ m a a' e, (requests i).movement = some m ∧ (g i).session = .updated a a' e ∧
      Books m a a' e ∧ Entered requests key e w' := by
  have hposts := hfollowed.posts hopen hallow (.inl hans)
  have htracks := hfollowed.tracks i hopen
  obtain ⟨-, rfl⟩ := hans
  cases hs : (g i).session with
  | updated a a' e =>
    -- a movement is what a request with a key commits
    rw [hs] at htracks
    obtain ⟨m, row, row', hm, hbooks, hrow, hshows, hshows', hwrites⟩ := htracks
    refine ⟨m, a, a', e, hm, rfl, hbooks, ⟨i, w.tx i, ?_, hwrites.newEntries⟩, ?_,
      shows_of_books hbooks, ?_⟩
    · -- the commit is the first under the key
      show List.filter _ (w.commits ++ [(i, w.tx i)]) = _
      rw [List.filter_append, show List.filter _ w.commits = [] from hkeyed]
      simp [hkey]
    · -- the entry is in the ledger now
      show LedgerRow.ofEntry e ∈ w.db.ledger ++ (w.tx i).newEntries
      rw [hwrites.newEntries]
      exact List.mem_append_right _ (List.mem_singleton_self _)
    · -- and its wallet in the tables, with its owner
      have hgrows := Database.Grows.of_posts hfollowed.unique hposts
      obtain ⟨row₁, hrow₁, hid, howner, -⟩ := hgrows.wallet row hrow
      refine ⟨row₁, hrow₁, ?_, fun j hj => ?_⟩
      · rw [hid, hbooks.entryWallet, hshows.id]
      · rw [howner, Request.ownerId_of_storeKey hj hkey, Request.ownerId_of_movement hm,
          ← hbooks.ownerId, hshows.ownerId]
  | opened a =>
    -- only a request without a movement opens a wallet, and such a request has no key
    rw [hs] at htracks
    rw [Request.storeKey, htracks.1] at hkey
    cases hkey
  | _ =>
    -- nothing else may be committed
    have hready := hallow.1
    rw [hs] at hready
    exact hready.elim

/-- A step that leaves the key alone, and makes nobody hold it, changes nothing. -/
theorem Unbooked.keeps (h : Unbooked requests deadline key w g)
    (hkeeps : World.Keeps requests key w w')
    (hcalls : ∀ j, (requests j).storeKey = some key →
      (∀ a b, (g' j).session ≠ .committed a b) ∧
        ((g' j).claim.Pending → (g' j).claim = (g j).claim)) :
    Unbooked requests deadline key w' g' := by
  -- no claim has come to hold the key
  have hholding : ∀ j, (requests j).storeKey = some key → (g' j).claim = .holding →
      (g j).claim = .holding := by
    intro j hj hclaim
    rw [← (hcalls j hj).2 (by rw [hclaim]; trivial), hclaim]
  refine ⟨hkeeps.keyed.trans h.keyed, fun j hj => (hcalls j hj).1, ?_, ?_, ?_⟩
  · intro j hj hpending
    have hsame := (hcalls j hj).2 hpending
    rw [hsame]
    exact h.claims j hj (hsame ▸ hpending)
  · intro j k hj hk hjh hkh
    exact h.unique j k hj hk (hholding j hj hjh) (hholding k hk hkh)
  · rcases h.store with ⟨hvacant, hnobody⟩ | ⟨fp, ⟨y, hy, hreserved⟩, hprints⟩
    · -- the key is still vacant
      left
      refine ⟨fun y hy => ?_, fun j hj hclaim => hnobody j hj (hholding j hj hclaim)⟩
      rw [hkeeps.entry] at hy
      exact (hvacant y hy).trans (monotonic_mono hkeeps.now)
    · -- or still reserved for its holder
      right
      exact ⟨fp, ⟨y, hkeeps.entry.trans hy, hreserved⟩,
        fun j hj hclaim => hprints j hj (hholding j hj hclaim)⟩

/-- A request with the key that may write holds the reservation. -/
theorem Unbooked.holding (h : Unbooked requests deadline key w g)
    (hkey : (requests i).storeKey = some key)
    (hproceeds : (g i).claim.Proceeds (requests i).storeKey) : (g i).claim = .holding := by
  refine h.claims i hkey ?_
  rw [hkey] at hproceeds
  cases hc : (g i).claim with
  | unclaimed =>
    rw [hc] at hproceeds
    cases hproceeds
  | holding => trivial
  | fallen => trivial
  | _ =>
    rw [hc] at hproceeds
    exact hproceeds.elim

/-- A claim whose TTL overflows leaves the key to nobody. -/
private theorem Unbooked.overflows {fp' : String} {ttl : ℤ} {x : Resp (.reserve key fp' ttl)}
    (h : Unbooked requests deadline key w g) (hkey : (requests i).storeKey = some key)
    (hvacant : w.idempotency.Vacant w.now key)
    (hnobody : ∀ j, (requests j).storeKey = some key → (g j).claim ≠ .holding)
    (hanswer : (w.idempotency.reserve w.now key fp' ttl).1 = .error overflowError)
    (hstill : (w.idempotency.reserve w.now key fp' ttl).2.Vacant w.now key)
    (hans : w.Answers i (.reserve key fp' ttl) x w') :
    Unbooked requests deadline key w'
      (Function.update g i ⟨(g i).session, (g i).claim.next (.reserve key fp' ttl) x⟩) := by
  -- it raises, whether or not it was carried out
  obtain ⟨e, rfl⟩ : ∃ e, x = .error e := by
    rcases hans with ⟨rfl, -⟩ | ⟨⟨e, he⟩, -⟩
    · exact ⟨overflowError, hanswer⟩
    · exact ⟨e, eq_error_of_failure he⟩
  have hw : w' = w ∨
      w' = { w with idempotency := (w.idempotency.reserve w.now key fp' ttl).2 } := by
    rcases hans with ⟨-, rfl⟩ | ⟨-, rfl | ⟨y, -, rfl⟩⟩
    · exact .inr rfl
    · exact .inl rfl
    · exact .inr rfl
  -- the key may have lost an expired entry, and nobody holds it
  have hkept : Unbooked requests deadline key w (Function.update g i
      ⟨(g i).session, (g i).claim.next (.reserve key fp' ttl) (.error e)⟩) := by
    refine h.keeps .refl fun j hj => ?_
    by_cases hji : j = i
    · subst hji
      rw [Function.update_self]
      exact ⟨h.sessions j hj, False.elim⟩
    · rw [Function.update_of_ne hji]
      exact ⟨h.sessions j hj, fun _ => rfl⟩
  rcases hw with rfl | rfl
  · exact hkept
  · refine ⟨hkept.keyed, hkept.sessions, hkept.claims, hkept.unique, .inl ⟨hstill, ?_⟩⟩
    intro j hj hjh
    by_cases hji : j = i
    · subst hji
      rw [Function.update_self] at hjh
      cases hjh
    · rw [Function.update_of_ne hji] at hjh
      exact hnobody j hj hjh

/-- A claim, before the booking: a vacant key is reserved for whoever asks. -/
private theorem Unbooked.reserve {fp' : String} {ttl : ℤ} {x : Resp (.reserve key fp' ttl)}
    (h : Unbooked requests deadline key w g) (hkey : (requests i).storeKey = some key)
    (hprints : (requests i).Prints fp') (hclaim : (g i).claim = .unclaimed)
    (hnow : monotonic w.now < deadline) (hdeadline : Lasts w.now ttl deadline)
    (hans : w.Answers i (.reserve key fp' ttl) x w') :
    Unbooked requests deadline key w'
      (Function.update g i ⟨(g i).session, (g i).claim.next (.reserve key fp' ttl) x⟩) := by
  have httl : 0 < ttl := hdeadline.1
  have hothers : ∀ {s' : Call} {j : ℕ}, j ≠ i → Function.update g i s' j = g j := fun hj =>
    Function.update_of_ne hj _ _
  -- without an effect, and without the key, nothing is new
  have hrefused : w' = w → ¬ ((g i).claim.next (.reserve key fp' ttl) x).Pending →
      Unbooked requests deadline key w'
        (Function.update g i ⟨(g i).session, (g i).claim.next (.reserve key fp' ttl) x⟩) := by
    rintro rfl hnot
    -- the store is as before, and no claim becomes pending
    refine h.keeps .refl fun j hj => ?_
    by_cases hji : j = i
    · subst hji
      rw [Function.update_self]
      exact ⟨h.sessions j hj, fun hpending => absurd hpending hnot⟩
    · rw [hothers hji]
      exact ⟨h.sessions j hj, fun _ => rfl⟩
  rcases h.store with ⟨hvacant, hnobody⟩ | ⟨fp, ⟨y, hy, hfp, hresponse, hexpires⟩, -⟩
  · -- vacant: the claim overflows, or takes the key
    cases hexpiry : expiry w.now ttl with
    | none =>
      obtain ⟨hanswer, hstill⟩ := Entries.reserve_of_overflow hvacant fp' httl hexpiry
      exact h.overflows hkey hvacant hnobody hanswer hstill hans
    | some expiresAt =>
      obtain ⟨hanswer, hentry⟩ := Entries.reserve_of_vacant hvacant fp' httl hexpiry
      -- whether or not the answer arrives, the key is reserved for nobody but this request
      have htaken : ∀ {c : Claim}, (c.Pending → c = .holding) → Unbooked requests deadline key
          { w with idempotency := (w.idempotency.reserve w.now key fp' ttl).2 }
          (Function.update g i ⟨(g i).session, c⟩) := by
        intro c hc
        refine ⟨h.keyed, fun j hj => ?_, fun j hj hpending => ?_, fun j k hj hk hjh hkh => ?_,
          .inr ⟨fp', ⟨_, hentry, rfl, rfl, hdeadline.2 _ hexpiry⟩, fun j hj hjh => ?_⟩⟩
        · -- no session has committed
          by_cases hji : j = i
          · subst hji
            rw [Function.update_self]
            exact h.sessions j hj
          · rw [hothers hji]
            exact h.sessions j hj
        · -- only a holder's claim is pending
          by_cases hji : j = i
          · subst hji
            rw [Function.update_self] at hpending ⊢
            exact hc hpending
          · rw [hothers hji] at hpending ⊢
            exact h.claims j hj hpending
        · -- and it is the only one
          have hself : ∀ {j : ℕ}, (requests j).storeKey = some key →
              (Function.update g i ⟨(g i).session, c⟩ j).claim = .holding → j = i := by
            intro j hj hjh
            by_contra hji
            rw [hothers hji] at hjh
            exact hnobody j hj hjh
          exact (hself hj hjh).trans (hself hk hkh).symm
        · -- the fingerprint in the store is that of this request
          by_cases hji : j = i
          · subst hji
            exact hprints
          · rw [hothers hji] at hjh
            exact absurd hjh (hnobody j hj)
      rcases hans with ⟨rfl, rfl⟩ | ⟨⟨ex, hex⟩, hw⟩
      · rw [hanswer]
        exact htaken fun _ => rfl
      · obtain rfl := eq_error_of_failure hex
        rcases hw with rfl | ⟨z, -, rfl⟩
        · exact hrefused rfl id
        · exact htaken (c := .refused) (by rintro ⟨⟩)
  · -- somebody holds the key: the claim is refused
    have hreserve := Entries.reserve_of_live hy (hnow.trans_le hexpires) fp' httl
    -- the entry is live until the deadline, so it is in progress or another payload's
    rcases hans with ⟨rfl, rfl⟩ | ⟨⟨ex, hex⟩, hw⟩
    · rw [hreserve] at hrefused ⊢
      refine hrefused rfl ?_
      by_cases hsame : y.fingerprint = fp'
      · simp [hsame, hresponse, Claim.next, Claim.Pending]
      · simp [hsame, Claim.next, Claim.Pending]
    · obtain rfl := eq_error_of_failure hex
      refine hrefused ?_ id
      rcases hw with rfl | ⟨z, -, rfl⟩
      · rfl
      · rw [hreserve]

/-- Giving the key back, before the booking. -/
private theorem Unbooked.release {x : Resp (.release key)}
    (h : Unbooked requests deadline key w g) (hkey : (requests i).storeKey = some key)
    (hholding : (g i).claim = .holding) (hans : w.Answers i (.release key) x w') :
    Unbooked requests deadline key w' (Function.update g i ⟨(g i).session, .released⟩) := by
  -- the release may have been carried out even if it failed
  have hw : w' = w ∨ w' = { w with idempotency := w.idempotency.release w.now key } := by
    rcases hans with ⟨-, rfl⟩ | ⟨-, rfl | ⟨z, -, rfl⟩⟩
    · exact .inr rfl
    · exact .inl rfl
    · exact .inr rfl
  -- this request's claim is over, and the others are as before
  have hcalls : ∀ j, (requests j).storeKey = some key →
      (∀ a b, (Function.update g i ⟨(g i).session, .released⟩ j).session ≠ .committed a b) ∧
        ((Function.update g i ⟨(g i).session, .released⟩ j).claim.Pending →
          (Function.update g i ⟨(g i).session, .released⟩ j).claim = (g j).claim) := by
    intro j hj
    by_cases hji : j = i
    · subst hji
      rw [Function.update_self]
      exact ⟨h.sessions j hj, False.elim⟩
    · rw [Function.update_of_ne hji]
      exact ⟨h.sessions j hj, fun _ => rfl⟩
  have hkept := h.keeps .refl hcalls
  rcases hw with rfl | rfl
  · exact hkept
  · -- the reservation was this request's, so nobody holds the key any more
    refine ⟨hkept.keyed, hkept.sessions, hkept.claims, hkept.unique, .inl ⟨?_, ?_⟩⟩
    · refine Entries.release_vacant fun y hy => ?_
      rcases h.store with ⟨-, hnobody⟩ | ⟨fp, ⟨z, hz, -, hresponse, -⟩, -⟩
      · exact absurd hholding (hnobody i hkey)
      · obtain rfl := Option.some.inj (hz.symm.trans hy)
        exact hresponse
    · -- the others did not hold it before either
      intro j hj hjh
      by_cases hji : j = i
      · subst hji
        rw [Function.update_self] at hjh
        cases hjh
      · rw [Function.update_of_ne hji] at hjh
        exact hji (h.unique j i hj hkey hjh hholding)

/-- The commit that books the entry. -/
private theorem Unbooked.commit {x : Resp .commit} (h : Unbooked requests deadline key w g)
    (hfollowed : Followed requests t w g) (hopen : .closed i ∉ t)
    (hnames : Distinguished requests key)
    (hkey : (requests i).storeKey = some key)
    (hallow : (g i).allows service (requests i) .commit) (hans : w.Answers i .commit x w') :
    Unbooked requests deadline key w'
        (Function.update g i ⟨(g i).session.next .commit x, (g i).claim.next .commit x⟩) ∨
      ∃ e fp, Booked requests deadline key e fp (fun j => (requests j).storeKey = some key) w'
        (Function.update g i ⟨(g i).session.next .commit x, (g i).claim.next .commit x⟩) := by
  have hholding := h.holding hkey hallow.2
  -- what the request made of the answer no longer matters for the others
  have hbooked : ∀ {y : Resp .commit}, w.Serves i .commit y w' →
      ∃ e fp, Booked requests deadline key e fp (fun j => (requests j).storeKey = some key) w'
        (Function.update g i ⟨(g i).session.next .commit x, (g i).claim.next .commit x⟩) := by
    intro y hserves
    obtain ⟨m, a, a', e, hm, hs, hbooks, hentered⟩ :=
      Entered.of_commit hfollowed hopen hkey hallow h.keyed hserves
    -- a commit leaves the store alone
    have hstore : w'.idempotency = w.idempotency := by
      obtain ⟨-, rfl⟩ := hserves
      rfl
    refine ⟨e, fingerprint m, hentered, ?_, fun j m' hj hm' hfp => ?_, fun j hj => ?_⟩
    · -- the reservation is the committing request's, with its fingerprint
      rcases h.store with ⟨-, hnobody⟩ | ⟨fp, ⟨z, hz, hfp, hresponse, hexpires⟩, hprints⟩
      · exact absurd hholding (hnobody i hkey)
      · obtain ⟨m', hm', hprint⟩ := hprints i hkey hholding
        obtain rfl := Option.some.inj (hm.symm.trans hm')
        exact ⟨z, hstore ▸ hz, hfp.trans hprint.symm, hexpires, .inl hresponse⟩
    · -- requests of one fingerprint move one wallet
      rw [hnames j i m' m hj hkey hm' hm hfp, ← hbooks.walletId, hbooks.entryWallet]
    · by_cases hji : j = i
      · -- the request itself: it has committed its entry, and asks for no other
        subst hji
        rw [Function.update_self, hs, hholding]
        have hnot : ¬ (Claim.next .holding .commit x).Pending := by
          cases x <;> exact id
        refine ⟨fun b c hbc => ?_, fun hpending => absurd hpending hnot,
          fun record hrecord => ?_, fun record e' he' => ?_⟩
        · cases x with
          | error ex => cases hbc
          | ok u =>
            cases hbc
            exact ⟨rfl, by rw [hbooks.moved.id, hbooks.entryWallet], hbooks.balanceAfter.symm⟩
        · cases x <;> cases hrecord
        · cases x <;> cases he'
      · -- the others are not pending, as this one holds the key
        rw [Function.update_of_ne hji]
        have hnot : ¬ (g j).claim.Pending := fun hpending =>
          hji (h.unique j i hj hkey (h.claims j hj hpending) hholding)
        refine ⟨fun b c hbc => absurd hbc (h.sessions j hj b c),
          fun hpending => absurd hpending hnot,
          fun record hrecord => ?_, fun record e' he' => ?_⟩
        · rw [hrecord] at hnot
          exact absurd trivial hnot
        · rw [he'] at hnot
          exact absurd trivial hnot
  rcases hans with hserves | ⟨⟨ex, hex⟩, rfl | ⟨y, hserves⟩⟩
  · exact .inr (hbooked hserves)
  · -- the commit was not carried out, and never will be
    obtain rfl := eq_error_of_failure hex
    left
    refine h.keeps .refl fun j hj => ?_
    by_cases hji : j = i
    · subst hji
      rw [Function.update_self, hholding]
      refine ⟨fun a b hab => ?_, False.elim⟩
      cases hab
    · rw [Function.update_of_ne hji]
      exact ⟨h.sessions j hj, fun _ => rfl⟩
  · exact .inr (hbooked hserves)

/-- The step lemma before the booking. -/
theorem Unbooked.answered (h : Unbooked requests deadline key w g)
    (hfollowed : Followed requests t w g) (hopen : .closed i ∉ t)
    (hnames : Distinguished requests key)
    (hkey : (requests i).storeKey = some key) (hnow : monotonic w.now < deadline)
    (hdeadline : Lasts w.now service.idempotencyTtlSeconds deadline)
    (hallow : (g i).allows service (requests i) op) (hans : w.Answers i op x w') :
    Unbooked requests deadline key w'
        (Function.update g i ⟨(g i).session.next op x, (g i).claim.next op x⟩) ∨
      ∃ e fp, Booked requests deadline key e fp (fun j => (requests j).storeKey = some key) w'
        (Function.update g i ⟨(g i).session.next op x, (g i).claim.next op x⟩) := by
  -- the key is the one that the request stores under
  have hown : ∀ {k : String}, (requests i).storeKey = some k → k = key := fun hk =>
    Option.some.inj (hk.symm.trans hkey)
  -- an operation that does not ask the store, is not a commit, and leaves the claim alone
  have hquiet : World.storeKey op = none → op ≠ .commit →
      (g i).claim.next op x = (g i).claim → Unbooked requests deadline key w'
        (Function.update g i ⟨(g i).session.next op x, (g i).claim.next op x⟩) := by
    intro hstore hop hclaim
    refine h.keeps (hfollowed.keeps hopen hallow hans ?_ fun hcommit => absurd hcommit hop) ?_
    · rw [hstore]
      exact (Option.some_ne_none key).symm
    · intro j hj
      by_cases hji : j = i
      · subst hji
        rw [Function.update_self]
        refine ⟨fun a b hab => h.sessions j hj a b (Session.committed_of_next hab hop), fun _ => ?_⟩
        exact hclaim
      · rw [Function.update_of_ne hji]
        exact ⟨h.sessions j hj, fun _ => rfl⟩
  cases op with
  | reserve k fp' ttl =>
    obtain ⟨hclaim, hk, rfl, m, hm, rfl⟩ := hallow
    obtain rfl := hown hk
    exact .inl (h.reserve hkey ⟨m, hm, rfl⟩ hclaim hnow hdeadline hans)
  | confirm k response ttl =>
    -- nothing is confirmed before a commit
    obtain ⟨-, -, -, a, b, hcommitted, -⟩ := hallow
    exact absurd hcommitted (h.sessions i hkey a b)
  | release k =>
    obtain rfl := hown hallow.2
    exact .inl (h.release hkey (h.holding hkey hallow.1) hans)
  | commit => exact h.commit hfollowed hopen hnames hkey hallow hans
  | readEntry id o =>
    -- nor is there a record to replay
    obtain ⟨-, -, record, hclaim, -⟩ := hallow
    have hholding := h.claims i hkey (by rw [hclaim]; trivial)
    rw [hclaim] at hholding
    cases hholding
  | readWallet id o f =>
    -- a wallet is read for the movement, not for a replay
    rcases Claim.next_readWallet (g i).claim id o f x with hsame | ⟨record, e, hclaim, -⟩
    · exact .inl (hquiet rfl (by rintro ⟨⟩) hsame)
    · have hholding := h.claims i hkey (by rw [hclaim]; trivial)
      rw [hclaim] at hholding
      cases hholding
  | _ => exact .inl (hquiet rfl (by rintro ⟨⟩) rfl)

end

/-! ## What the answers report -/

/-- The result of a movement is what the ledger row says. -/
structure Receives (result : MovementResult) (row : LedgerRow) : Prop where
  entryId : result.entryId.value = row.id
  walletId : result.walletId.value = row.walletId
  balance : result.balance.cents = row.balanceAfter
  currency : result.balance.currency.value = row.currency

section

variable {requests : ℕ → Request} {deadline : Binary64} {key fp : String} {e : LedgerEntry}
  {users : ℕ → Prop} {w : World} {g : ℕ → Call} {i : ℕ} {m : MovementRequest}
  {out : MovementOutcome}

/-- Before the booking there is nothing to report. -/
theorem Unbooked.not_reports (h : Unbooked requests deadline key w g)
    (hkey : (requests i).storeKey = some key) : ¬ Reports m out (g i) := by
  intro hreports
  cases hreplayed : out.replayed with
  | false => exact h.sessions i hkey _ _ (hreports.applied hreplayed).1
  | true =>
    obtain ⟨⟨record, hclaim⟩, -⟩ := hreports.replay hreplayed
    have hholding := h.claims i hkey (by rw [hclaim]; trivial)
    rw [hclaim] at hholding
    cases hholding

/-- After it every report is of the booked entry, applied or replayed. -/
theorem Booked.receives (h : Booked requests deadline key e fp users w g) (hi : users i)
    (hkey : (requests i).storeKey = some key) (hm : (requests i).movement = some m)
    (hreports : Reports m out (g i)) : Receives out.result (.ofEntry e) := by
  have hagrees := h.calls i hi
  have hshows := h.entered.shows
  -- the request's own movement
  cases hreplayed : out.replayed with
  | false =>
    obtain ⟨hcommitted, hbalance⟩ := hreports.applied hreplayed
    obtain ⟨hentry, hid, hafter⟩ := hagrees.session _ _ hcommitted
    constructor
    · show out.entry.id.value = _
      rw [hentry]
      rfl
    · show out.wallet.id.value = _
      rw [hid]
      rfl
    · show out.balance.cents = _
      rw [hbalance, hafter, hshows.balanceAfter]
    · show out.balance.currency.value = _
      rw [hbalance, hafter, hshows.balanceCurrency]
  | true =>
    -- a replay of the entry, which was read back
    obtain ⟨⟨record, hclaim⟩, hbalance⟩ := hreports.replay hreplayed
    -- its payload has the fingerprint of the record
    have hread := hagrees.entry record _ hclaim
    obtain ⟨-, -, m', hm', hfp⟩ := hagrees.idle (by rw [hclaim]; trivial)
    obtain rfl := Option.some.inj (hm.symm.trans hm')
    constructor
    · exact hread.id
    · show out.wallet.id.value = _
      rw [hreports.walletId, h.names i m hkey hm hfp]
      rfl
    · show out.balance.cents = _
      rw [hbalance, hread.balanceAfter]
    · show out.balance.currency.value = _
      rw [hbalance, hread.balanceCurrency]

end

/-! ## Runs -/

/-- Either phase, as long as the key's entry has not expired. -/
structure Keyed (requests : ℕ → Request) (start : Instant) (deadline : Binary64) (key : String)
    (t : List (Occurrence Op Resp)) (w : World) (g : ℕ → Call) : Prop where
  followed : Followed requests t w g
  started : start ≤ w.now
  phase : monotonic w.now < deadline → Unbooked requests deadline key w g ∨
    ∃ e fp, Booked requests deadline key e fp (fun i => (requests i).storeKey = some key) w g

section

variable {service : WalletMovementSettings} {requests : ℕ → Request} {start : Instant}
  {deadline : Binary64} {key : String} {t : List (Occurrence Op Resp)} {w w' : World}
  {g g' : ℕ → Call}

/-- A step that leaves the key alone stays in its phase. -/
private theorem Keyed.phase_keeps (h : Keyed requests start deadline key t w g)
    (hkeeps : World.Keeps requests key w w')
    (hcalls : ∀ j, (requests j).storeKey = some key → g' j = g j)
    (hnow : monotonic w'.now < deadline) :
    Unbooked requests deadline key w' g' ∨
      ∃ e fp, Booked requests deadline key e fp (fun i => (requests i).storeKey = some key)
        w' g' := by
  rcases h.phase ((monotonic_mono hkeeps.now).trans_lt hnow) with hunbooked | ⟨e, fp, hbooked⟩
  · left
    refine hunbooked.keeps hkeeps fun j hj => ?_
    rw [hcalls j hj]
    exact ⟨hunbooked.sessions j hj, fun _ => rfl⟩
  · right
    refine ⟨e, fp, hbooked.keeps hkeeps fun j hj => ?_⟩
    rw [hcalls j hj]
    exact hbooked.calls j hj

/-- The step lemma of the two phases. -/
theorem Keyed.answered {i : ℕ} {op : Op} {x : Resp op} {occurrence : Occurrence Op Resp}
    (h : Keyed requests start deadline key t w g) (hnames : Distinguished requests key)
    (hdeadline : Lasts start service.idempotencyTtlSeconds deadline) (hopen : .closed i ∉ t)
    (hallow : (g i).allows service (requests i) op) (hans : w.Answers i op x w') :
    Keyed requests start deadline key (t ++ [occurrence]) w'
      (Function.update g i ⟨(g i).session.next op x, (g i).claim.next op x⟩) := by
  have hclock := hans.clock
  refine ⟨h.followed.answered hopen hallow hans, by rw [hclock]; exact h.started, fun hnow => ?_⟩
  by_cases hkey : (requests i).storeKey = some key
  · have hbefore : monotonic w.now < deadline := hclock ▸ hnow
    have hafter := hdeadline.mono h.started
    rcases h.phase hbefore with hunbooked | ⟨e, fp, hbooked⟩
    · exact hunbooked.answered h.followed hopen hnames hkey hbefore hafter hallow hans
    · right
      exact ⟨e, fp, hbooked.answered h.followed hopen (fun _ hj => hj) hkey hbefore hafter
        hallow hans⟩
  · refine h.phase_keeps (h.followed.keeps_of_other hopen hallow hans hkey) (fun j hj => ?_) hnow
    refine Function.update_of_ne ?_ _ _
    rintro rfl
    exact hkey hj

/-- The run lemma: a key that nobody has used yet. -/
theorem keyed_of_run {settings : MoveMoneySettings} {G : Pool.Guard deployment Exn Answer}
    {now : Instant} {db : Database} {idempotency : Entries Receipt}
    {Q : Pool deployment Exn Answer} (hunique : db.Unique) (hvacant : idempotency.Vacant now key)
    (hdeadline : Lasts now service.idempotencyTtlSeconds deadline)
    (hnames : Distinguished requests key)
    (hrun : Pool.RunUnder G
      (arrivals service settings requests (World.start now db idempotency)) t Q) :
    ∃ g, Keyed requests now deadline key t Q.world g ∧
      ∀ i, (protocol service (requests i)).wp (Q.clients i) (requests i).Meets (g i) := by
  have hupholds : Pool.RunUnder.Upholds (fun i => protocol service (requests i)) G
      (fun i => (requests i).Meets)
      (Keyed requests now deadline key) := by
    constructor
    · -- each answer is allowed by the protocol and keeps what holds of the key
      intro t R R' g i op x hwp hinv hopen hallow hans hG
      exact ⟨_, ⟨promises_of_answers hans, rfl⟩, hinv.answered hnames hdeadline hopen hallow hans⟩
    · -- a client that is done leaves the store alone
      intro t R w g i r hdone hwp hinv hcloses
      obtain rfl : w = R.world.discard i := hcloses
      exact ⟨hinv.followed.closed, hinv.started,
        hinv.phase_keeps World.keeps_discard fun _ _ => rfl⟩
    · -- so does time
      intro t R w g hwp hinv hdrifts hG
      obtain ⟨later, hlater, rfl⟩ := hdrifts
      exact ⟨hinv.followed.drifted, hinv.started.trans hlater,
        hinv.phase_keeps (World.keeps_wait hlater) fun _ _ => rfl⟩
  -- at the start nobody has claimed or committed anything
  refine hrun.upholds hupholds
    (fun i => Request.meets_protocol service settings (requests i))
    ⟨Followed.start hunique, le_refl _, fun _ => .inl ⟨rfl, ?_, ?_, ?_, .inl ⟨hvacant, ?_⟩⟩⟩
  · rintro i - a b ⟨⟩
  · rintro i - ⟨⟩
  · rintro i j - - ⟨⟩
  · rintro i - ⟨⟩

end

end Evenkeel.Infrastructure
