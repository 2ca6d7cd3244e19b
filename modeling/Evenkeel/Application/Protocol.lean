import Evenkeel.Application.Interactors

/-!
# The Protocol of a Request

What every request promises about the operations it performs, whatever they answer. A
`Call` is the state of one request as an observer of its operations sees it: how far its
transaction has come, and what it knows about its idempotency key.

- `Session`, `Claim`, `Call`: the two halves of the state, and the state
- `Call.allows`, `Call.next`: which operations may come next, and what an answer changes
- `protocol`: the contract made of them
- `Request.Meets`: what a request's result says about the state it ended in

## Key Results

- `Request.meets_protocol`: every request keeps to its protocol
-/

namespace Evenkeel.Application

open Evenkeel.Domain Evenkeel.Effects

/-! ## States -/

/-- How far a request's transaction has come. -/
inductive Session where
  | idle
  | loaded (wallet : Wallet)
  | recorded (wallet : Wallet) (entry : LedgerEntry)
  | updated (wallet moved : Wallet) (entry : LedgerEntry)
  | opened (wallet : Wallet)
  | committed (moved : Wallet) (entry : LedgerEntry)
  | created (wallet : Wallet)
  /-- A write, a commit or a rollback was not answered with success. -/
  | spoiled

/-- Nothing has been written yet. -/
def Session.Clean : Session → Prop
  | .idle => True
  | .loaded _ => True
  | _ => False

/-- All that belongs to the transaction has been written. -/
def Session.Ready : Session → Prop
  | .updated .. => True
  | .opened _ => True
  | _ => False

/-- What a request knows about its idempotency key. -/
inductive Claim where
  | unclaimed
  | holding
  /-- The store answered with a record, whose entry has not been read yet. -/
  | replaying (record : IdempotencyRecord Receipt)
  | reading (record : IdempotencyRecord Receipt) (entry : LedgerEntry)
  /-- The record could not be read back: the request goes on without a reservation. -/
  | fallen
  | refused
  | released
  /-- The transaction has been committed, and the store does not know yet. -/
  | settled
  /-- The commit was not answered with success. -/
  | lost
  | confirmed

/-- A request may go on to write. -/
def Claim.Proceeds (storeKey : Option String) : Claim → Prop
  | .unclaimed => storeKey = none
  | .holding => storeKey ≠ none
  | .fallen => storeKey ≠ none
  | _ => False

/-- The claim rests on what the store answered, and nothing has come of it yet. -/
def Claim.Pending : Claim → Prop
  | .holding => True
  | .replaying _ => True
  | .reading .. => True
  | .fallen => True
  | _ => False

structure Call where
  session : Session
  claim : Claim

def Call.initial : Call := ⟨.idle, .unclaimed⟩

/-- `e` books the movement `m` asks for, which takes the wallet from `w` to `w'`. -/
structure Books (m : MovementRequest) (w w' : Wallet) (e : LedgerEntry) : Prop where
  moved : w.Moved m.direction m.amount w'
  walletId : w.id = m.walletId
  ownerId : w.ownerId = m.ownerId
  entryWallet : e.walletId = w.id
  direction : e.direction = m.direction
  amount : e.amount = m.amount
  balanceAfter : e.balanceAfter = w'.balance

/-! ## Steps -/

def Session.next (s : Session) : (op : Op) → Resp op → Session
  | .readWallet .., .ok (some w) => .loaded w
  | .readWallet .., .ok none => .idle
  | .addWallet w, .ok _ => .opened w
  | .addWallet _, .error _ => .spoiled
  | .addEntry e, .ok _ =>
    match s with
    | .loaded w => .recorded w e
    | _ => .spoiled
  | .addEntry _, .error _ => .spoiled
  | .updateWallet w' _, .ok true =>
    match s with
    | .recorded w e => .updated w w' e
    | _ => .spoiled
  | .updateWallet .., .ok false => .spoiled
  | .updateWallet .., .error _ => .spoiled
  | .commit, .ok _ =>
    match s with
    | .updated _ w' e => .committed w' e
    | .opened w => .created w
    | _ => .spoiled
  | .commit, .error _ => .spoiled
  | .rollback, .ok _ => .idle
  | .rollback, .error _ => .spoiled
  | _, _ => s

def Claim.next (c : Claim) : (op : Op) → Resp op → Claim
  | .reserve .., .ok ⟨.reserved, _⟩ => .holding
  | .reserve .., .ok ⟨.completed, some record⟩ => .replaying record
  | .reserve .., .ok ⟨.completed, none⟩ => .fallen
  | .reserve .., _ => .refused
  | .readEntry .., .ok (some e) =>
    match c with
    | .replaying record => .reading record e
    | _ => .refused
  | .readEntry .., .ok none => .fallen
  | .readEntry .., .error _ => .refused
  | .readWallet .., .ok none =>
    match c with
    | .reading .. => .fallen
    | _ => c
  | .release _, _ => .released
  | .commit, .ok _ =>
    match c with
    | .unclaimed => .unclaimed
    | _ => .settled
  | .commit, .error _ =>
    match c with
    | .unclaimed => .unclaimed
    | _ => .lost
  | .confirm .., _ => .confirmed
  | _, _ => c

/-- Only a commit makes a session a committed one. -/
theorem Session.committed_of_next {s : Session} {op : Op} {x : Resp op} {a : Wallet}
    {b : LedgerEntry} (h : s.next op x = .committed a b) (hop : op ≠ .commit) :
    s = .committed a b := by
  cases op with
  | commit => exact absurd rfl hop
  | readWallet => rcases x with e | (_ | w) <;> first | exact h | cases h
  | addWallet => cases x <;> cases h
  | addEntry => cases x <;> cases s <;> cases h
  | updateWallet => rcases x with e | (_ | _) <;> cases s <;> cases h
  | rollback => cases x <;> cases h
  | _ => exact h

/-- Reading a wallet matters only to a request that is reading its record back. -/
theorem Claim.next_readWallet (c : Claim) (id : WalletId) (o : OwnerId) (f : Bool)
    (x : Resp (.readWallet id o f)) :
    c.next (.readWallet id o f) x = c ∨ ∃ record e, c = .reading record e ∧ x = .ok none := by
  rcases x with e | (_ | w)
  · exact .inl rfl
  · cases c with
    | reading record e => exact .inr ⟨record, e, rfl, rfl⟩
    | _ => exact .inl rfl
  · exact .inl rfl

/-- What every answer to an operation can be relied on for. -/
def Promises : (op : Op) → Resp op → Prop
  | .readWallet id o _, .ok (some w) => w.id = id ∧ w.ownerId = o
  | .readEntry id _, .ok (some e) => e.id = id
  | .listByOwner o _ _, .ok page => ∀ w ∈ page.items, w.ownerId = o
  | .listByWallet id _ _ _, .ok page => ∀ e ∈ page.items, e.walletId = id
  | _, _ => True

/-- The operations a request may perform next. -/
def Call.allows (service : WalletMovementSettings) (r : Request) (s : Call) : Op → Prop
  | .reserve key fp ttl =>
      s.claim = .unclaimed ∧ r.storeKey = some key ∧ ttl = service.idempotencyTtlSeconds ∧
        ∃ m, r.movement = some m ∧ fp = fingerprint m
  | .confirm key response ttl =>
      s.claim = .settled ∧ r.storeKey = some key ∧ ttl = service.idempotencyTtlSeconds ∧
        ∃ w e, s.session = .committed w e ∧ response = ⟨e.id, w.id⟩
  | .release key => s.claim.Proceeds r.storeKey ∧ r.storeKey = some key
  | .readWallet id o _ =>
      s.session.Clean ∧ o = r.ownerId ∧ ∀ m, r.movement = some m → id = m.walletId
  | .readEntry id o =>
      s.session.Clean ∧ o = r.ownerId ∧
        ∃ record, s.claim = .replaying record ∧ id = record.response.entryId
  | .listByOwner o _ _ => o = r.ownerId
  | .listByWallet id o _ _ => o = r.ownerId ∧ ∃ w, s.session = .loaded w ∧ w.id = id
  | .addWallet w =>
      r.movement = none ∧ s.session = .idle ∧ ∃ id c now, w = Wallet.open id r.ownerId c now
  | .addEntry e =>
      ∃ m w w', r.movement = some m ∧ s.session = .loaded w ∧ Books m w w' e
  | .updateWallet w' v =>
      ∃ m w e, r.movement = some m ∧ s.session = .recorded w e ∧ v = w.version ∧ Books m w w' e
  | .commit => s.session.Ready ∧ s.claim.Proceeds r.storeKey
  | _ => True

/-- The protocol of request `r`. -/
def protocol (service : WalletMovementSettings) (r : Request) : Contract Op Resp where
  State := Call
  allowed := Call.allows service r
  step s op x s' := Promises op x ∧ s' = ⟨s.session.next op x, s.claim.next op x⟩

/-! ## Results -/

/-- What a movement's outcome says about the state it was returned in: it is the movement
    this very call committed, or the entry its key was completed with. -/
structure Reports (m : MovementRequest) (out : MovementOutcome) (s : Call) : Prop where
  ownerId : out.wallet.ownerId = m.ownerId
  walletId : out.wallet.id = m.walletId
  applied : out.replayed = false →
    s.session = .committed out.wallet out.entry ∧ out.balance = out.wallet.balance
  replay : out.replayed = true →
    (∃ record, s.claim = .reading record out.entry) ∧ out.balance = out.entry.balanceAfter

/-- The part of an outcome that `_MovementInteractor` passes on. -/
def MovementOutcome.result (out : MovementOutcome) : MovementResult :=
  ⟨out.entry.id, out.wallet.id, out.balance, out.replayed⟩

/-- What an answer reports of a movement. -/
def Answer.result : Answer → Option MovementResult
  | .moved result => some result
  | .applied out => some out.result
  | _ => none

/-- What the answer to request `r` says about the state it was given in. -/
def Request.Says (r : Request) (s : Call) : Answer → Prop
  | .opened _ => r.movement = none
  | .moved result => ∃ m out, r.movement = some m ∧ Reports m out s ∧ result = out.result
  | .applied out => ∃ m, r.movement = some m ∧ Reports m out s
  | .wallet w => r.movement = none ∧ w.ownerId = r.ownerId
  | .wallets page => r.movement = none ∧ ∀ w ∈ page.items, w.ownerId = r.ownerId
  | .entries page => r.movement = none ∧
      ∃ w, s.session = .loaded w ∧ w.ownerId = r.ownerId ∧ ∀ e ∈ page.items, e.walletId = w.id

/-- Whatever the result, a committed movement has been confirmed to the store, or at least
    that has been tried. An exception says nothing else. -/
def Request.Meets (r : Request) (x : Except Exn Answer) (s : Call) : Prop :=
  s.claim ≠ .settled ∧ ∀ a, x = .ok a → r.Says s a

/-- A request for a movement is answered with one. -/
theorem Request.Says.reports {r : Request} {m : MovementRequest} {s : Call} {a : Answer}
    (h : r.Says s a) (hm : r.movement = some m) :
    ∃ out, Reports m out s ∧ a.result = some out.result := by
  cases a with
  | moved result =>
    obtain ⟨m', out, hm', hreports, rfl⟩ := h
    obtain rfl := Option.some.inj (hm.symm.trans hm')
    exact ⟨out, hreports, rfl⟩
  | applied out =>
    obtain ⟨m', hm', hreports⟩ := h
    obtain rfl := Option.some.inj (hm.symm.trans hm')
    exact ⟨out, hreports, rfl⟩
  | opened =>
    rw [show r.movement = none from h] at hm
    cases hm
  | _ =>
    rw [h.1] at hm
    cases hm

/-! ## The service keeps to its protocol -/

theorem Request.ownerId_of_movement {r : Request} {m : MovementRequest}
    (hm : r.movement = some m) : r.ownerId = m.ownerId := by
  cases r <;> cases hm <;> rfl

theorem Request.storeKey_of_movement {r : Request} {m : MovementRequest}
    (hm : r.movement = some m) : r.storeKey = m.idempotencyKey.map (scopedKey m.ownerId) := by
  rw [Request.storeKey, hm]
  rfl

theorem Claim.Proceeds.commit {key : Option String} {c : Claim} (h : c.Proceeds key) (u : Unit) :
    c.next .commit (.ok u) = if key = none then .unclaimed else .settled := by
  cases c with
  | unclaimed => exact (if_pos h).symm
  | holding => exact (if_neg h).symm
  | fallen => exact (if_neg h).symm
  | _ => exact h.elim

theorem Claim.Proceeds.ne_settled {key : Option String} {c : Claim} (h : c.Proceeds key) :
    c ≠ .settled := by
  rintro rfl
  exact h

/-- Reading a wallet tells a request that may proceed nothing about its key. -/
theorem Claim.Proceeds.next_readWallet {key : Option String} {c : Claim} (h : c.Proceeds key)
    (id : WalletId) (o : OwnerId) (f : Bool) (x : Except Exn (Option Wallet)) :
    c.next (.readWallet id o f) x = c := by
  rcases Claim.next_readWallet c id o f x with hsame | ⟨record, e, rfl, -⟩
  · exact hsame
  · exact h.elim

/-- The request's payload has the fingerprint. -/
def Request.Prints (r : Request) (fp : String) : Prop :=
  ∃ m, r.movement = some m ∧ fingerprint m = fp

/-- All requests with one key are of one owner. -/
theorem Request.ownerId_of_storeKey {r r' : Request} {key : String}
    (h : r.storeKey = some key) (h' : r'.storeKey = some key) : r.ownerId = r'.ownerId := by
  have hscoped : ∀ {r : Request}, r.storeKey = some key →
      ∃ k, key = scopedKey r.ownerId k := by
    intro r h
    obtain ⟨m, hm, hkey⟩ := Option.bind_eq_some_iff.mp h
    obtain ⟨k, -, hk⟩ := Option.map_eq_some_iff.mp hkey
    exact ⟨k, by rw [Request.ownerId_of_movement hm, hk]⟩
  obtain ⟨k, hk⟩ := hscoped h
  obtain ⟨k', hk'⟩ := hscoped h'
  exact (scopedKey_injective (hk.symm.trans hk')).1

/-- How `apply` and its parts end. -/
def Ends (m : MovementRequest) (x : Except Exn MovementOutcome) (s : Call) : Prop :=
  s.claim ≠ .settled ∧ ∀ out, x = .ok out → Reports m out s

theorem Ends.error {m : MovementRequest} {e : Exn} {s : Call} (h : s.claim ≠ .settled) :
    Ends m (.error e) s := by
  refine ⟨h, fun out hout => ?_⟩
  cases hout

section

open Program Contract

variable {service : WalletMovementSettings} {r : Request} {m : MovementRequest} {s : Call}
  {α : Type} {Q : Except Exn α → Call → Prop}

theorem refuseWith_meets {e : Exn} (hm : r.movement = some m)
    (hs : s.claim.Proceeds r.storeKey)
    (hQ : ∀ e s', s'.claim ≠ .settled → Q (.error e) s') :
    (protocol service r).wp (refuseWith m e) Q s := by
  unfold refuseWith
  simp only [Ports.rollback, bind_eq, handle_request, handle_done]
  -- `uow.rollback`; where it raises, the key is not given back
  refine ⟨trivial, ?_⟩
  intro x s' hs'
  obtain ⟨-, rfl⟩ := hs'
  cases x with
  | error e' => exact hQ _ _ hs.ne_settled
  | ok u =>
    simp only [onValue_ok, release]
    cases hkey : m.idempotencyKey with
    | none => exact hQ _ _ hs.ne_settled
    | some key =>
      -- `release`, of the key that was claimed and not settled
      refine ⟨⟨hs, ?_⟩, ?_⟩
      · rw [Request.storeKey_of_movement hm, hkey]
        rfl
      · intro x s' hs'
        obtain ⟨-, rfl⟩ := hs'
        -- whatever the store answered, the request is done with its key
        have hreleased : Claim.released ≠ .settled := by
          intro h
          cases h
        cases x with
        | error e' => exact hQ _ _ hreleased
        | ok u => exact hQ _ _ hreleased

/-- Confirming is tried once and fails with nothing but a cancellation. -/
theorem confirm_meets {Q : Except Exn Unit → Call → Prop} {w : Wallet} {e : LedgerEntry}
    (hm : r.movement = some m) (hs : s.session = .committed w e)
    (hclaim : s.claim = if r.storeKey = none then .unclaimed else .settled)
    (hQ : ∀ x s', s'.claim ≠ .settled → s'.session = .committed w e → Q x s') :
    (protocol service r).wp (confirm service m w e) Q s := by
  unfold confirm
  have hstore := Request.storeKey_of_movement hm
  cases hkey : m.idempotencyKey with
  | none =>
    rw [hkey, Option.map_none] at hstore
    refine hQ _ _ ?_ hs
    rw [hclaim, if_pos hstore]
    intro h
    cases h
  | some key =>
    rw [hkey] at hstore
    rw [if_neg (by rw [hstore]; exact Option.some_ne_none _)] at hclaim
    have hconfirmed : Claim.confirmed ≠ .settled := by
      intro h
      cases h
    -- `confirm` comes once, after the commit, with the entry that was committed
    refine ⟨⟨hclaim, hstore, rfl, w, e, hs, rfl⟩, ?_⟩
    intro x s' hs'
    obtain ⟨-, rfl⟩ := hs'
    cases x with
    | error e' =>
      simp only [handle_done, confirmed]
      -- an `Exception` is swallowed, anything else goes on; the key counts as confirmed either
      -- way
      split
      · refine ⟨trivial, ?_⟩
        intro u s' hs'
        obtain ⟨-, rfl⟩ := hs'
        exact hQ _ _ hconfirmed hs
      · refine ⟨trivial, ?_⟩
        intro u s' hs'
        obtain ⟨-, rfl⟩ := hs'
        exact hQ _ _ hconfirmed hs
    | ok u =>
      refine ⟨trivial, ?_⟩
      intro u s' hs'
      obtain ⟨-, rfl⟩ := hs'
      exact hQ _ _ hconfirmed hs

theorem write_meets {w w' : Wallet} {b : Money} {now : Datetime} (hm : r.movement = some m)
    (hs : s.session = .loaded w) (hclaim : s.claim.Proceeds r.storeKey)
    (hid : w.id = m.walletId) (howner : w.ownerId = m.ownerId)
    (hmoved : w.Moved m.direction m.amount w') (hb : b = w'.balance) :
    (protocol service r).wp (write service m w.version w' b now) (Ends m) s := by
  unfold write
  simp only [Ports.generate, Ports.addEntry, Ports.updateWallet, Ports.commit, bind_eq,
    handle_request, handle_done, onValue_ok]
  -- `uuid7`
  refine ⟨trivial, ?_⟩
  intro (id : UUID) s' hs'
  obtain ⟨-, rfl⟩ := hs'
  set entry := LedgerEntry.record ⟨id⟩ w'.id m.direction m.amount b m.description now with hentry
  have hbooks : Books m w w' entry := ⟨hmoved, hid, howner, hmoved.id, rfl, rfl, hb⟩
  -- `ledger.add`: the entry is the one of this movement
  refine ⟨⟨m, w, w', hm, hs, hbooks⟩, ?_⟩
  intro x s' hs'
  obtain ⟨-, rfl⟩ := hs'
  cases x with
  | error e => exact .error hclaim.ne_settled
  | ok u =>
    -- `wallets.update`, at the version that was read
    refine ⟨⟨m, w, entry, hm, by simp [Session.next, hs, hentry], rfl, hbooks⟩, ?_⟩
    intro x s' hs'
    obtain ⟨-, rfl⟩ := hs'
    rcases x with e | (_ | _)
    · exact .error hclaim.ne_settled
    · -- the guarded update missed
      exact refuseWith_meets hm hclaim fun e s' hs' => .error hs'
    · -- `uow.commit`, with both rows written
      refine ⟨⟨by simp [Session.next, hs, Session.Ready], hclaim⟩, ?_⟩
      intro x s' hs'
      obtain ⟨-, rfl⟩ := hs'
      cases x with
      | error e =>
        -- an error may come after the commit took effect: the key stays claimed
        refine .error ?_
        show Claim.next s.claim .commit (.error e) ≠ .settled
        cases hc : s.claim <;> simp [Claim.next]
      | ok u =>
        -- `_confirm`
        refine wp_handle.mpr (confirm_meets hm (w := w') (e := entry) ?_ ?_ ?_)
        · simp [Session.next, hs, hentry]
        · show Claim.next s.claim .commit (.ok u) = _
          exact hclaim.commit u
        · intro x s' hs' hsession
          cases x with
          | error e => exact .error hs'
          | ok u =>
            refine ⟨hs', fun out hout => ?_⟩
            cases hout
            refine ⟨hmoved.ownerId.trans howner, hmoved.id.trans hid, fun _ => ⟨hsession, rfl⟩, ?_⟩
            intro h
            cases h

theorem applyLocked_meets (hm : r.movement = some m) (hs : s.session.Clean)
    (hclaim : s.claim.Proceeds r.storeKey) :
    (protocol service r).wp (applyLocked service m) (Ends m) s := by
  unfold applyLocked
  simp only [Ports.readWallet, Ports.now, bind_eq, handle_request, handle_done]
  -- the read for update, as the owner
  refine ⟨⟨hs, (Request.ownerId_of_movement hm).symm, ?_⟩, ?_⟩
  · intro m' hm'
    rw [Option.some.inj (hm.symm.trans hm')]
  intro x s' hs'
  obtain ⟨hpromise, rfl⟩ := hs'
  -- reading settles nothing about the key
  have hclaim' := (hclaim.next_readWallet m.walletId m.ownerId true x).symm ▸ hclaim
  rcases x with e | (_ | w)
  · exact .error hclaim'.ne_settled
  · -- `WALLET_NOT_FOUND`
    exact refuseWith_meets hm hclaim' fun e s' hs' => .error hs'
  · -- the wallet is the one that was asked for, and its owner's
    refine ⟨trivial, ?_⟩
    intro now s' hs'
    obtain ⟨-, rfl⟩ := hs'
    simp only [onValue_ok]
    cases hmove : move w m.direction m.amount now with
    | error raised =>
      cases raised with
      -- a `DomainError` is refused, with the key given back
      | domain e => exact refuseWith_meets hm hclaim fun e s' hs' => .error hs'
      -- anything else passes the handler by, with the key kept
      | decimal s => exact .error hclaim.ne_settled
    | ok moved =>
      obtain ⟨hmoved, hb⟩ := move_ok hmove
      exact write_meets hm rfl hclaim hpromise.1 hpromise.2 hmoved hb

theorem withLock_meets (hm : r.movement = some m) (hs : s.session.Clean)
    (hclaim : s.claim.Proceeds r.storeKey) (acquired : Bool) :
    (protocol service r).wp (withLock service m acquired) (Ends m) s := by
  unfold withLock
  refine ⟨trivial, ?_⟩
  intro u s' hs'
  obtain ⟨-, rfl⟩ := hs'
  cases acquired with
  | true => exact applyLocked_meets hm hs hclaim
  | false => exact refuseWith_meets hm hclaim fun e s' hs' => .error hs'

/-- How `_claim` ends: in a replay of the entry its record names, or free to proceed. -/
def Claims (r : Request) (m : MovementRequest) (x : Except Exn (Option MovementOutcome))
    (s : Call) : Prop :=
  s.claim ≠ .settled ∧ ∀ o, x = .ok o → match o with
    | some out => Reports m out s
    | none => s.session.Clean ∧ s.claim.Proceeds r.storeKey

theorem Claims.error {e : Exn} (h : s.claim ≠ .settled) : Claims r m (.error e) s := by
  refine ⟨h, fun o ho => ?_⟩
  cases ho

theorem Claims.proceed (hs : s.session.Clean) (h : s.claim.Proceeds r.storeKey) :
    Claims r m (.ok none) s := by
  refine ⟨h.ne_settled, fun o ho => ?_⟩
  cases ho
  exact ⟨hs, h⟩

theorem replay_meets {record : IdempotencyRecord Receipt} (hm : r.movement = some m)
    (hstore : r.storeKey ≠ none) (hs : s = ⟨.idle, .replaying record⟩) :
    (protocol service r).wp (replay m record) (Claims r m) s := by
  subst hs
  have howner := (Request.ownerId_of_movement hm).symm
  unfold replay
  -- the entry, by the id in the receipt
  refine ⟨⟨trivial, howner, record, rfl, rfl⟩, ?_⟩
  intro x s' hs'
  obtain ⟨-, rfl⟩ := hs'
  cases x with
  | error e => exact .error (by simp [Claim.next])
  | ok entry =>
    -- the wallet, by the id in the request
    refine ⟨⟨trivial, howner, ?_⟩, ?_⟩
    · intro m' hm'
      rw [Option.some.inj (hm.symm.trans hm')]
    intro x s' hs'
    obtain ⟨hpromise, rfl⟩ := hs'
    cases x with
    | error e => cases entry <;> exact .error (by simp [Claim.next])
    | ok wallet =>
      -- both rows are needed, and either may be gone
      cases entry with
      | none =>
        cases wallet with
        | none => exact .proceed trivial hstore
        | some w => exact .proceed trivial hstore
      | some entry =>
        cases wallet with
        | none => exact .proceed trivial hstore
        | some w =>
          -- `uow.rollback`, and then the answer
          refine ⟨trivial, ?_⟩
          intro x s' hs'
          obtain ⟨-, rfl⟩ := hs'
          cases x with
          | error e => exact .error (by simp [Claim.next])
          | ok u =>
            refine ⟨by simp [Claim.next], fun o ho => ?_⟩
            cases ho
            refine ⟨hpromise.2, hpromise.1, ?_, fun _ => ⟨⟨record, rfl⟩, rfl⟩⟩
            intro h
            cases h

theorem claim_meets (hm : r.movement = some m) :
    (protocol service r).wp (claim service m) (Claims r m) Call.initial := by
  have hstore := Request.storeKey_of_movement hm
  unfold claim
  cases hkey : m.idempotencyKey with
  | none =>
    rw [hkey] at hstore
    exact .proceed trivial hstore
  | some key =>
    rw [hkey] at hstore
    have hsome : r.storeKey ≠ none := by
      rw [hstore]
      exact Option.some_ne_none _
    -- `reserve`, under the owner's key and the fingerprint
    refine ⟨⟨rfl, hstore, rfl, m, hm, rfl⟩, ?_⟩
    intro x s' hs'
    obtain ⟨-, rfl⟩ := hs'
    rcases x with e | ⟨outcome, record⟩
    · exact .error (by simp [Claim.next])
    cases outcome with
    -- `COMPLETED` is replayed, if a record came with it; the reserved key goes ahead, the other
    -- two answers raise
    | reserved => exact .proceed trivial hsome
    | inProgress => exact .error (by simp [Claim.next])
    | conflict => exact .error (by simp [Claim.next])
    | completed =>
      cases record with
      | none => exact .proceed trivial hsome
      | some record => exact replay_meets hm hsome rfl

theorem apply_meets (hm : r.movement = some m) :
    (protocol service r).wp (apply service m) (Ends m) Call.initial := by
  unfold apply
  refine wp_bind.mpr (wp_mono ?_ (claim_meets hm))
  intro x s hs
  -- what `_claim` says: it raises, it lets the request go ahead, or it has an answer
  rcases x with e | (_ | out)
  · exact .error hs.1
  · -- the body runs between the entry and the exit of the lock
    obtain ⟨hclean, hclaim⟩ := hs.2 none rfl
    refine ⟨trivial, ?_⟩
    intro x s' hs'
    obtain ⟨-, rfl⟩ := hs'
    cases x with
    | error e => exact .error hclaim.ne_settled
    | ok acquired =>
      show (protocol service r).wp ((withLock service m acquired).tryFinally _) _ s
      refine wp_handle.mpr (wp_mono ?_ (withLock_meets hm hclean hclaim acquired))
      -- leaving the lock changes nothing, and can only turn a result into an exception
      intro x s' hx
      refine ⟨trivial, ?_⟩
      intro y s'' hs''
      obtain ⟨-, rfl⟩ := hs''
      cases y with
      | error e => exact .error hx.1
      | ok u => exact hx
  · refine ⟨hs.1, fun out' hout => ?_⟩
    cases hout
    exact hs.2 _ rfl

/-! ## So does every use case -/

theorem labelled_meets {metricName label : String} {p : AppM α}
    (h : (protocol service r).wp p Q s) :
    (protocol service r).wp (labelled metricName label p) Q s := by
  refine wp_handle.mpr (wp_mono ?_ h)
  intro x s' hx
  cases x with
  | error e =>
    refine ⟨trivial, ?_⟩
    intro u s'' hs''
    obtain ⟨-, rfl⟩ := hs''
    exact hx
  | ok a =>
    refine ⟨trivial, ?_⟩
    intro u s'' hs''
    obtain ⟨-, rfl⟩ := hs''
    exact hx

theorem limited_meets (settings : MoveMoneySettings) (metricName : String) :
    (protocol service r).wp (limited settings metricName m) (fun _ s' => s' = s) s := by
  unfold limited
  split
  · refine ⟨trivial, ?_⟩
    intro x s' hs'
    obtain ⟨-, rfl⟩ := hs'
    cases x with
    | error e => rfl
    | ok decision =>
      refine ⟨trivial, ?_⟩
      intro u s' hs'
      obtain ⟨-, rfl⟩ := hs'
      simp only [handle_done, onValue_ok]
      split
      · rfl
      · rfl
  · rfl

/-- How `_run` and its parts end. -/
def Moves (m : MovementRequest) (result : Option MovementResult) (s : Call) : Prop :=
  s.claim ≠ .settled ∧ ∀ res, result = some res → ∃ out, Reports m out s ∧ res = out.result

theorem attempt_meets (hm : r.movement = some m) (settings : MoveMoneySettings)
    (metricName : String) :
    (protocol service r).wp (attempt service settings metricName m)
      (fun x s' => Moves m (x.toOption.bind fun p => p.2.toOption) s') Call.initial := by
  unfold attempt
  refine wp_bind.mpr (wp_mono ?_ (limited_meets settings metricName))
  intro x s hs
  obtain rfl := hs
  -- a refusal before the service has claimed nothing
  have hnone : Moves m none Call.initial := by
    refine ⟨by simp [Call.initial], fun res hres => ?_⟩
    cases hres
  rcases x with e | (_ | refusal)
  · exact hnone
  · -- the assessment
    refine ⟨trivial, ?_⟩
    intro x s' hs'
    obtain ⟨-, rfl⟩ := hs'
    cases x with
    | error e => exact hnone
    | ok decision =>
      simp only [handle_done, onValue_ok]
      -- `risk_refused`, then `risk_unavailable`
      split
      · exact hnone
      split
      · exact hnone
      -- the service is called, from a state that is still the first one
      refine wp_bind.mpr (wp_mono ?_ (apply_meets hm))
      intro x s hs
      cases x with
      | error e =>
        refine ⟨hs.1, fun res hres => ?_⟩
        cases hres
      | ok out =>
        refine ⟨hs.1, fun res hres => ?_⟩
        cases hres
        exact ⟨out, hs.2 out rfl, rfl⟩
  · exact hnone

theorem run_meets (hm : r.movement = some m) (settings : MoveMoneySettings)
    (metricName : String) :
    (protocol service r).wp (run service settings metricName m)
      (fun x s' => Moves m x.toOption s') Call.initial := by
  refine wp_handle.mpr (wp_mono ?_ (attempt_meets hm settings metricName))
  intro x s hs
  cases x with
  | error e =>
    refine ⟨trivial, ?_⟩
    intro u s' hs'
    obtain ⟨-, rfl⟩ := hs'
    exact hs
  | ok labelled =>
    refine ⟨trivial, ?_⟩
    intro u s' hs'
    obtain ⟨-, rfl⟩ := hs'
    exact hs

theorem openWallet_meets {c : OpenWalletCommand} (hr : r = .openWallet c) :
    (protocol service r).wp (openWallet c) (fun _ s' => s'.claim ≠ .settled) Call.initial := by
  subst hr
  have hunclaimed : Claim.unclaimed ≠ .settled := by
    intro h
    cases h
  -- `uuid7`, the clock, `wallets.add`, and then `uow.commit`
  refine labelled_meets ⟨trivial, ?_⟩
  intro id s' hs'
  obtain ⟨-, rfl⟩ := hs'
  refine ⟨trivial, ?_⟩
  intro now s' hs'
  obtain ⟨-, rfl⟩ := hs'
  -- the wallet that is added is the caller's own and empty
  refine ⟨⟨rfl, rfl, ⟨id⟩, c.currency, now, rfl⟩, ?_⟩
  intro x s' hs'
  obtain ⟨-, rfl⟩ := hs'
  cases x with
  | error e => exact hunclaimed
  | ok u =>
    refine ⟨⟨trivial, rfl⟩, ?_⟩
    intro x s' hs'
    obtain ⟨-, rfl⟩ := hs'
    cases x with
    | error e => exact hunclaimed
    | ok u => exact hunclaimed

theorem onWallet_meets {metricName : String} {walletId : WalletId} {p : Wallet → AppM α}
    (hr : r.movement = none) (hQ : ∀ e s', s'.claim ≠ .settled → Q (.error e) s')
    (hp : ∀ w s', s'.session = .loaded w → s'.claim ≠ .settled → w.id = walletId →
      w.ownerId = r.ownerId → (protocol service r).wp (p w) Q s') :
    (protocol service r).wp (onWallet metricName walletId r.ownerId p) Q Call.initial := by
  have hunclaimed : Claim.unclaimed ≠ .settled := by
    intro h
    cases h
  -- the wallet is read under the caller's id
  refine ⟨⟨trivial, rfl, fun m hm => ?_⟩, ?_⟩
  · rw [hr] at hm
    cases hm
  intro x s' hs'
  obtain ⟨hpromise, rfl⟩ := hs'
  rcases x with e | (_ | w)
  · -- the store failed: `error`
    refine ⟨trivial, ?_⟩
    intro u s' hs'
    obtain ⟨-, rfl⟩ := hs'
    exact hQ _ _ hunclaimed
  · -- `not_found`
    refine ⟨trivial, ?_⟩
    intro u s' hs'
    obtain ⟨-, rfl⟩ := hs'
    exact hQ _ _ hunclaimed
  · -- `success`: the wallet is loaded, and it is the caller's
    exact labelled_meets (hp w _ rfl hunclaimed hpromise.1 hpromise.2)

/-- What a use case returns, as the answer to its request. -/
theorem answer_meets {β : Type} {p : AppM β} {f : β → Answer}
    (h : (protocol service r).wp p
      (fun x s' => s'.claim ≠ .settled ∧ ∀ b, x = .ok b → r.Says s' (f b)) s) :
    (protocol service r).wp (f <$> p) r.Meets s := by
  refine wp_handle.mpr (wp_mono ?_ h)
  intro x s' hs
  cases x with
  | error e =>
    refine ⟨hs.1, fun a ha => ?_⟩
    cases ha
  | ok b =>
    refine ⟨hs.1, fun a ha => ?_⟩
    cases ha
    exact hs.2 b rfl

theorem moved_meets {m : MovementRequest} {settings : MoveMoneySettings} {metricName : String}
    (hm : r.movement = some m) :
    (protocol service r).wp (Answer.moved <$> run service settings metricName m) r.Meets
      Call.initial := by
  refine answer_meets (wp_mono ?_ (run_meets hm settings metricName))
  intro x s hs
  refine ⟨hs.1, fun b hb => ?_⟩
  subst hb
  obtain ⟨out, hout, hresult⟩ := hs.2 b rfl
  exact ⟨m, out, hm, hout, hresult⟩

/-- Every request keeps to its protocol, and its result says no more than it knows. -/
theorem Request.meets_protocol (service : WalletMovementSettings) (settings : MoveMoneySettings)
    (r : Request) :
    (protocol service r).wp (r.program service settings) r.Meets Call.initial := by
  cases hr : r with
  | openWallet c =>
    refine answer_meets (wp_mono ?_ (openWallet_meets rfl))
    intro x s hs
    exact ⟨hs, fun b _ => rfl⟩
  | deposit c => exact moved_meets rfl
  | withdraw c => exact moved_meets rfl
  | apply m =>
    refine answer_meets (wp_mono ?_ (apply_meets rfl))
    intro x s hs
    exact ⟨hs.1, fun b hb => ⟨m, rfl, hs.2 b hb⟩⟩
  | getWallet q =>
    refine answer_meets (onWallet_meets rfl ?_ ?_)
    · -- it raises: nothing is promised about an answer
      intro e s hs
      refine ⟨hs, fun b hb => ?_⟩
      cases hb
    · -- the wallet that was read is the answer
      intro w s hsession hs hid howner
      refine ⟨hs, fun b hb => ?_⟩
      cases hb
      exact ⟨rfl, howner⟩
  | listWallets q =>
    -- a page under the caller's id; the label is `success` either way
    refine answer_meets ⟨rfl, ?_⟩
    intro x s' hs'
    obtain ⟨hpromise, rfl⟩ := hs'
    cases x with
    | error e =>
      refine ⟨trivial, ?_⟩
      intro u s' hs'
      obtain ⟨-, rfl⟩ := hs'
      refine ⟨by simp [Call.initial, Claim.next], fun b hb => ?_⟩
      cases hb
    | ok page =>
      refine ⟨trivial, ?_⟩
      intro u s' hs'
      obtain ⟨-, rfl⟩ := hs'
      refine ⟨by simp [Call.initial, Claim.next], fun b hb => ?_⟩
      cases hb
      exact ⟨rfl, hpromise⟩
  | listLedgerEntries q =>
    refine answer_meets (onWallet_meets rfl ?_ ?_)
    · intro e s hs
      refine ⟨hs, fun b hb => ?_⟩
      cases hb
    · -- the entries are asked for by the id of the wallet that was just read
      intro w s hsession hs hid howner
      refine ⟨⟨rfl, w, hsession, hid⟩, ?_⟩
      intro x s' hs'
      obtain ⟨hpromise, rfl⟩ := hs'
      cases x with
      | error e =>
        refine ⟨hs, fun b hb => ?_⟩
        cases hb
      | ok page =>
        refine ⟨hs, fun b hb => ?_⟩
        cases hb
        exact ⟨rfl, w, hsession, howner, fun e he => (hpromise e he).trans hid.symm⟩

end

end Evenkeel.Application
