import Evenkeel.Infrastructure.Reservations

/-!
# Stale Records

A key whose record names an entry that nobody can read any more. Whoever is answered with
the record goes on without a reservation, so that nothing keeps two such requests apart;
what follows is what holds if they do not overlap and no acknowledgement is lost.

- `Engaged`: a running request that was answered with the stale record
- `Careful`: the guard on the steps of the requests with the key
- `Stale`, `Replaced`: the phases before the record is replaced; `Booked` follows

## Key Results

- `Stale.answered`, `Replaced.answered`: what one guarded step does to a phase
- `renewed_of_run`: every guarded run is in one of the three phases
-/

namespace Evenkeel.Infrastructure

open Evenkeel.Domain Evenkeel.Application Evenkeel.Effects Evenkeel.Python

/-! ## The guard -/

/-- A claim that was answered with the record of `receipt`. -/
def Recalls (receipt : Receipt) : Event Op Resp → Prop
  | ⟨.reserve .., .ok ⟨.completed, some record⟩⟩ => record.response = receipt
  | _ => False

/-- A commit that raised. -/
def LosesCommit : Event Op Resp → Prop
  | ⟨.commit, .error _⟩ => True
  | _ => False

/-- A confirmation that raised. -/
def LosesConfirm : Event Op Resp → Prop
  | ⟨.confirm .., .error _⟩ => True
  | _ => False

/-- Request `i` has the key, was answered with the record, and has not ended. -/
structure Engaged (requests : ℕ → Request) (key : String) (receipt : Receipt)
    (t : List (Occurrence Op Resp)) (i : ℕ) : Prop where
  key : (requests i).storeKey = some key
  running : .closed i ∉ t
  recalls : ∃ event ∈ Pool.ownEvents i t, Recalls receipt event

/-- Of the requests with the key, none is answered with the record while another that was is
    still running; none has its commit carried out without being told; and the store
    confirms whatever it is asked to. -/
def Careful (requests : ℕ → Request) (key : String) (receipt : Receipt) :
    Pool.Guard deployment Exn Answer := fun t P occurrence P' =>
  ∀ i event, occurrence = .answered i event → (requests i).storeKey = some key →
    (Recalls receipt event → ∀ j, j ≠ i → ¬ Engaged requests key receipt t j) ∧
      (LosesCommit event → P'.world.commits = P.world.commits) ∧ ¬ LosesConfirm event

section

variable {requests : ℕ → Request} {key : String} {receipt : Receipt}
  {t : List (Occurrence Op Resp)} {i j : ℕ} {event : Event Op Resp}

/-- What a request was answered stays in the history. -/
theorem recalls_append {occurrence : Occurrence Op Resp}
    (h : ∃ event ∈ Pool.ownEvents i t, Recalls receipt event) :
    ∃ event ∈ Pool.ownEvents i (t ++ [occurrence]), Recalls receipt event := by
  obtain ⟨event, hevent, hrecalls⟩ := h
  rw [Pool.ownEvents_append]
  exact ⟨event, List.mem_append_left _ hevent, hrecalls⟩

/-- Only being answered with the record engages a request. -/
theorem Engaged.of_append {occurrence : Occurrence Op Resp}
    (h : Engaged requests key receipt (t ++ [occurrence]) j)
    (hother : ∀ event, occurrence = .answered j event → ¬ Recalls receipt event) :
    Engaged requests key receipt t j := by
  refine ⟨h.key, fun hclosed => h.running (List.mem_append_left _ hclosed), ?_⟩
  obtain ⟨event, hevent, hrecalls⟩ := h.recalls
  rw [Pool.ownEvents_append] at hevent
  rcases List.mem_append.mp hevent with hmem | hmem
  · exact ⟨event, hmem, hrecalls⟩
  · cases occurrence with
    | answered k e =>
      rw [Pool.ownEvents_answered] at hmem
      split at hmem
      · rename_i hkj
        subst hkj
        obtain rfl := List.mem_singleton.mp hmem
        exact absurd hrecalls (hother event rfl)
      · cases hmem
    | closed k => cases hmem
    | drifted => cases hmem

theorem not_recalls_of_storeKey {op : Op} {x : Resp op} (h : World.storeKey op = none) :
    ¬ Recalls receipt ⟨op, x⟩ := by
  cases op with
  | reserve => cases h
  | _ => exact id

theorem not_closed_of_append {occurrence : Occurrence Op Resp}
    (h : .closed i ∉ t ++ [occurrence]) : .closed i ∉ t :=
  fun hclosed => h (List.mem_append_left _ hclosed)

end

/-! ## Phases -/

/-- The store's entry still is the record of `receipt`. -/
def Remembers (deadline : Binary64) (key fp : String) (receipt : Receipt) (w : World) : Prop :=
  ∃ x, w.idempotency key = some x ∧ x.fingerprint = fp ∧ x.response = some receipt ∧
    deadline ≤ x.expiresAt

/-- A request with the key that has nothing to do with it any more, or not yet. -/
structure Idle (s : Call) : Prop where
  claim : ¬ s.claim.Pending
  session : ∀ a b, s.session ≠ .committed a b

/-- No request with the key has committed. -/
structure Stale (requests : ℕ → Request) (deadline : Binary64) (key fp : String)
    (receipt : Receipt) (t : List (Occurrence Op Resp)) (w : World) (g : ℕ → Call) : Prop where
  keyed : w.keyed requests key = []
  store : Remembers deadline key fp receipt w
  sessions : ∀ i, (requests i).storeKey = some key → .closed i ∉ t →
    ∀ a b, (g i).session ≠ .committed a b
  claims : ∀ i, (requests i).storeKey = some key → .closed i ∉ t → (g i).claim.Pending →
    (g i).claim ≠ .holding ∧ ∃ event ∈ Pool.ownEvents i t, Recalls receipt event
  unique : ∀ i j, Engaged requests key receipt t i → Engaged requests key receipt t j → i = j

/-- Request `i` has committed the entry `e`, and the store is about to be told. -/
structure Replaced (requests : ℕ → Request) (deadline : Binary64) (key fp : String)
    (receipt : Receipt) (e : LedgerEntry) (i : ℕ) (t : List (Occurrence Op Resp)) (w : World)
    (g : ℕ → Call) : Prop where
  entered : Entered requests key e w
  store : Remembers deadline key fp receipt w
  engaged : Engaged requests key receipt t i
  claim : (g i).claim = .settled
  session : ∀ a b, (g i).session = .committed a b →
    b = e ∧ a.id = e.walletId ∧ a.balance = e.balanceAfter
  others : ∀ j, j ≠ i → (requests j).storeKey = some key → .closed j ∉ t → Idle (g j)
  names : ∀ j m, (requests j).storeKey = some key → (requests j).movement = some m →
    fingerprint m = fp → m.walletId = e.walletId

/-- Requests with the key all have the payload of fingerprint `fp`, of one wallet. -/
def Alike (requests : ℕ → Request) (key fp : String) (walletId : WalletId) : Prop :=
  ∀ i m, (requests i).storeKey = some key → (requests i).movement = some m →
    fingerprint m = fp ∧ m.walletId = walletId

/-- The requests with the key that have not ended. -/
def Running (requests : ℕ → Request) (key : String) (t : List (Occurrence Op Resp)) (i : ℕ) :
    Prop :=
  (requests i).storeKey = some key ∧ .closed i ∉ t

/-! ## Steps -/

section

variable {service : WalletMovementSettings} {requests : ℕ → Request} {deadline : Binary64}
  {key fp : String} {receipt : Receipt} {walletId : WalletId} {e : LedgerEntry}
  {t : List (Occurrence Op Resp)} {w w' : World} {g g' : ℕ → Call} {i j : ℕ} {op : Op}
  {x : Resp op} {occurrence : Occurrence Op Resp}

theorem Remembers.keeps (h : Remembers deadline key fp receipt w)
    (hkeeps : World.Keeps requests key w w') : Remembers deadline key fp receipt w' := by
  obtain ⟨y, hy, hremembers⟩ := h
  exact ⟨y, hkeeps.entry.trans hy, hremembers⟩

/-- A step that leaves the key alone and answers nobody with the record. -/
theorem Stale.keeps (h : Stale requests deadline key fp receipt t w g)
    (hkeeps : World.Keeps requests key w w')
    (hcalls : ∀ j, (requests j).storeKey = some key → .closed j ∉ t ++ [occurrence] →
      (∀ a b, (g' j).session ≠ .committed a b) ∧
        ((g' j).claim.Pending → (g' j).claim ≠ .holding ∧ (g j).claim.Pending))
    (hother : ∀ j event, occurrence = .answered j event → (requests j).storeKey = some key →
      ¬ Recalls receipt event) :
    Stale requests deadline key fp receipt (t ++ [occurrence]) w' g' := by
  refine ⟨hkeeps.keyed.trans h.keyed, h.store.keeps hkeeps, fun j hj hopen => (hcalls j hj hopen).1,
    fun j hj hopen hpending => ?_, fun j k hj hk => ?_⟩
  · obtain ⟨hholding, hbefore⟩ := (hcalls j hj hopen).2 hpending
    exact ⟨hholding, recalls_append (h.claims j hj (not_closed_of_append hopen) hbefore).2⟩
  · exact h.unique j k (hj.of_append fun event ho => hother j event ho hj.key)
      (hk.of_append fun event ho => hother k event ho hk.key)

/-- The one request that may write has fallen through. -/
theorem Stale.fallen (h : Stale requests deadline key fp receipt t w g) (hopen : .closed i ∉ t)
    (hkey : (requests i).storeKey = some key)
    (hproceeds : (g i).claim.Proceeds (requests i).storeKey) :
    (g i).claim = .fallen ∧ Engaged requests key receipt t i := by
  rw [hkey] at hproceeds
  cases hc : (g i).claim with
  | unclaimed =>
    rw [hc] at hproceeds
    cases hproceeds
  | holding => exact absurd hc (h.claims i hkey hopen (by rw [hc]; trivial)).1
  | fallen =>
    exact ⟨rfl, hkey, hopen, (h.claims i hkey hopen (by rw [hc]; trivial)).2⟩
  | _ =>
    rw [hc] at hproceeds
    exact hproceeds.elim

/-- The others are idle while one request is engaged. -/
theorem Stale.idle (h : Stale requests deadline key fp receipt t w g)
    (hengaged : Engaged requests key receipt t i) (hji : j ≠ i)
    (hj : (requests j).storeKey = some key) (hopen : .closed j ∉ t) : Idle (g j) := by
  refine ⟨fun hpending => hji ?_, h.sessions j hj hopen⟩
  exact h.unique j i ⟨hj, hopen, (h.claims j hj hopen hpending).2⟩ hengaged

/-- What one request does next matters to itself only. -/
theorem Stale.calls_update {s' : Call} (h : Stale requests deadline key fp receipt t w g)
    (hsession : ∀ a b, s'.session ≠ .committed a b)
    (hclaim : s'.claim.Pending → s'.claim ≠ .holding ∧ (g i).claim.Pending) :
    ∀ j, (requests j).storeKey = some key → .closed j ∉ t ++ [occurrence] →
      (∀ a b, (Function.update g i s' j).session ≠ .committed a b) ∧
        ((Function.update g i s' j).claim.Pending →
          (Function.update g i s' j).claim ≠ .holding ∧ (g j).claim.Pending) := by
  intro j hj hopen
  by_cases hji : j = i
  · subst hji
    rw [Function.update_self]
    exact ⟨hsession, hclaim⟩
  · rw [Function.update_of_ne hji]
    have hbefore := not_closed_of_append hopen
    exact ⟨h.sessions j hj hbefore, fun hpending => ⟨(h.claims j hj hbefore hpending).1, hpending⟩⟩

/-- A claim is answered with the record, and engages the request. -/
private theorem Stale.reserve {fp' : String} {ttl : ℤ} {x : Resp (.reserve key fp' ttl)}
    (h : Stale requests deadline key fp receipt t w g) (hopen : .closed i ∉ t)
    (hkey : (requests i).storeKey = some key) (hfp : fp' = fp) (hnow : monotonic w.now < deadline)
    (httl : 0 < ttl)
    (halone : Recalls receipt ⟨.reserve key fp' ttl, x⟩ →
      ∀ j, j ≠ i → ¬ Engaged requests key receipt t j)
    (hans : w.Answers i (.reserve key fp' ttl) x w') :
    Stale requests deadline key fp receipt (t ++ [.answered i ⟨.reserve key fp' ttl, x⟩]) w'
      (Function.update g i ⟨(g i).session, (g i).claim.next (.reserve key fp' ttl) x⟩) := by
  obtain ⟨y, hy, hyfp, hresponse, hexpires⟩ := h.store
  have hreserve := Entries.reserve_of_live hy (hnow.trans_le hexpires) fp' httl
  simp only [hyfp, hfp, ne_eq, not_true_eq_false, if_false, hresponse] at hreserve
  subst hfp
  -- the record answers the claim, and nobody else is engaged then
  rcases hans with ⟨rfl, rfl⟩ | ⟨⟨ex, hex⟩, hw⟩
  · rw [hreserve] at halone ⊢
    have halone := halone rfl
    have hnext : Claim.next (g i).claim (.reserve key fp' ttl)
        (.ok ⟨.completed, some ⟨key, fp', receipt⟩⟩) = .replaying ⟨key, fp', receipt⟩ := rfl
    have hrecalls : ∃ event ∈ Pool.ownEvents i (t ++ [.answered i ⟨.reserve key fp' ttl,
        .ok ⟨.completed, some ⟨key, fp', receipt⟩⟩⟩]), Recalls receipt event := by
      rw [Pool.ownEvents_append, Pool.ownEvents_answered, if_pos rfl]
      exact ⟨_, List.mem_append_right _ (List.mem_singleton_self _), rfl⟩
    refine ⟨h.keyed, ⟨y, hy, hyfp, hresponse, hexpires⟩, fun j hj hjopen => ?_,
      fun j hj hjopen hpending => ?_, fun j k hj hk => ?_⟩
    · -- no session has committed
      by_cases hji : j = i
      · subst hji
        rw [Function.update_self]
        exact h.sessions j hj hopen
      · rw [Function.update_of_ne hji]
        exact h.sessions j hj (not_closed_of_append hjopen)
    · -- who is pending has recalled the record
      by_cases hji : j = i
      · subst hji
        rw [Function.update_self, hnext]
        exact ⟨by rintro ⟨⟩, hrecalls⟩
      · rw [Function.update_of_ne hji] at hpending ⊢
        obtain ⟨hholding, hbefore⟩ := h.claims j hj (not_closed_of_append hjopen) hpending
        exact ⟨hholding, recalls_append hbefore⟩
    · -- whoever else was engaged has ended
      have hself : ∀ {j : ℕ}, Engaged requests key receipt (t ++ [.answered i
          ⟨.reserve key fp' ttl, .ok ⟨.completed, some ⟨key, fp', receipt⟩⟩⟩]) j → j = i := by
        intro j hj
        by_contra hji
        refine halone j hji (hj.of_append fun event ho => ?_)
        exact absurd (Occurrence.answered.inj ho).1.symm hji
      exact (hself hj).trans (hself hk).symm
  · -- the claim failed, and the record stays whether or not it was carried out
    obtain rfl := eq_error_of_failure hex
    obtain rfl : w' = w := by
      rcases hw with rfl | ⟨z, -, rfl⟩
      · rfl
      · rw [hreserve]
    refine h.keeps .refl (h.calls_update (h.sessions i hkey hopen) False.elim) ?_
    intro j event ho hj
    obtain ⟨-, rfl⟩ := Occurrence.answered.inj ho
    exact id

/-- The step lemma of the first phase, for a request with the key. -/
theorem Stale.answered (h : Stale requests deadline key fp receipt t w g)
    (hfollowed : Followed requests t w g) (halike : Alike requests key fp walletId)
    (hopen : .closed i ∉ t) (hkey : (requests i).storeKey = some key)
    (hnow : monotonic w.now < deadline)
    (hdeadline : Lasts w.now service.idempotencyTtlSeconds deadline)
    (halone : Recalls receipt ⟨op, x⟩ → ∀ j, j ≠ i → ¬ Engaged requests key receipt t j)
    (hcommit : LosesCommit ⟨op, x⟩ → w'.commits = w.commits)
    (hallow : (g i).allows service (requests i) op) (hans : w.Answers i op x w') :
    Stale requests deadline key fp receipt (t ++ [.answered i ⟨op, x⟩]) w'
        (Function.update g i ⟨(g i).session.next op x, (g i).claim.next op x⟩) ∨
      ∃ e, Replaced requests deadline key fp receipt e i (t ++ [.answered i ⟨op, x⟩]) w'
        (Function.update g i ⟨(g i).session.next op x, (g i).claim.next op x⟩) := by
  have hown : ∀ {k : String}, (requests i).storeKey = some k → k = key := fun hk =>
    Option.some.inj (hk.symm.trans hkey)
  -- an operation that does not ask the store, and is not a commit
  have hquiet : World.storeKey op = none → op ≠ .commit →
      (((g i).claim.next op x).Pending →
        (g i).claim.next op x ≠ .holding ∧ (g i).claim.Pending) →
      Stale requests deadline key fp receipt (t ++ [.answered i ⟨op, x⟩]) w'
        (Function.update g i ⟨(g i).session.next op x, (g i).claim.next op x⟩) := by
    intro hstore hop hclaim
    refine h.keeps (hfollowed.keeps hopen hallow hans ?_ fun hcommit => absurd hcommit hop)
      (h.calls_update (fun a b hab => ?_) hclaim) fun j event ho hj hrecalls => ?_
    · rw [hstore]
      exact (Option.some_ne_none key).symm
    · exact h.sessions i hkey hopen a b (Session.committed_of_next hab hop)
    · obtain ⟨-, rfl⟩ := Occurrence.answered.inj ho
      exact not_recalls_of_storeKey hstore hrecalls
  -- a claim that stays as it is was not the holder's
  have hsame : (g i).claim.next op x = (g i).claim → ((g i).claim.next op x).Pending →
      (g i).claim.next op x ≠ .holding ∧ (g i).claim.Pending := by
    intro hclaim hpending
    rw [hclaim] at hpending ⊢
    exact ⟨(h.claims i hkey hopen hpending).1, hpending⟩
  cases op with
  | reserve k fp' ttl =>
    -- claims recall the record or fail
    obtain ⟨-, hk, rfl, m, hm, rfl⟩ := hallow
    obtain rfl := hown hk
    exact .inl (h.reserve hopen hkey (halike i m hkey hm).1 hnow hdeadline.1 halone hans)
  | confirm k response ttl =>
    -- nothing is confirmed before a commit
    obtain ⟨-, -, -, a, b, hcommitted, -⟩ := hallow
    exact absurd hcommitted (h.sessions i hkey hopen a b)
  | release k =>
    -- the record stays, whoever releases it
    obtain ⟨y, hy, hyfp, hresponse, hexpires⟩ := h.store
    obtain rfl := hown hallow.2
    have hrelease : w.idempotency.release w.now k = w.idempotency :=
      Entries.release_of_completed hy (hnow.trans_le hexpires)
        (by simp [Entry.completed, hresponse])
    obtain rfl : w' = w := by
      rcases hans with ⟨-, rfl⟩ | ⟨-, rfl | ⟨z, -, rfl⟩⟩
      · rw [hrelease]
      · rfl
      · rw [hrelease]
    refine .inl (h.keeps .refl (h.calls_update (h.sessions i hkey hopen) False.elim) ?_)
    intro j event ho hj
    obtain ⟨-, rfl⟩ := Occurrence.answered.inj ho
    exact id
  | commit =>
    -- the request that has recalled the record commits a movement of its own
    obtain ⟨hfallen, hengaged⟩ := h.fallen hopen hkey hallow.2
    rcases hans with hserves | ⟨⟨ex, hex⟩, hw⟩
    · obtain ⟨m, a, a', e, hm, hs, hbooks, hentered⟩ :=
        Entered.of_commit hfollowed hopen hkey hallow h.keyed hserves
      obtain ⟨rfl, rfl⟩ := hserves
      right
      refine ⟨e, hentered, h.store, ⟨hkey, ?_, recalls_append hengaged.recalls⟩, ?_, ?_, ?_, ?_⟩
      · -- it has not ended
        intro hclosed
        rcases List.mem_append.mp hclosed with hmem | hmem
        · exact hopen hmem
        · cases List.mem_singleton.mp hmem
      · -- its claim is settled
        rw [Function.update_self, hfallen]
        rfl
      · -- its session has committed the new entry
        intro b c hbc
        rw [Function.update_self, hs] at hbc
        cases hbc
        exact ⟨rfl, by rw [hbooks.moved.id, hbooks.entryWallet], hbooks.balanceAfter.symm⟩
      · -- nobody else is engaged
        intro j hji hj hjopen
        rw [Function.update_of_ne hji]
        exact h.idle hengaged hji hj (not_closed_of_append hjopen)
      · -- all payloads of the fingerprint name the wallet
        intro j m' hj hm' hfp
        rw [(halike j m' hj hm').2, hbooks.entryWallet, hbooks.walletId, (halike i m hkey hm).2]
    · obtain rfl := eq_error_of_failure hex
      -- a commit that was carried out would show
      obtain rfl : w' = w := by
        rcases hw with rfl | ⟨z, -, rfl⟩
        · rfl
        · exact absurd (hcommit trivial) (by simp)
      left
      refine h.keeps .refl (h.calls_update ?_ ?_) ?_
      · intro a b hab
        cases hab
      · rw [hfallen]
        exact False.elim
      · intro j event ho hj
        obtain ⟨-, rfl⟩ := Occurrence.answered.inj ho
        exact id
  | readEntry id o =>
    -- the record is read on or given up, which is no reservation in either case
    obtain ⟨-, -, record, hclaim, -⟩ := hallow
    refine .inl (hquiet rfl (by rintro ⟨⟩) fun _ => ⟨?_, by rw [hclaim]; trivial⟩)
    rw [hclaim]
    rcases x with ex | (_ | e') <;> rintro ⟨⟩
  | readWallet id o f =>
    -- it is given up as well if the wallet of its entry is gone
    refine .inl (hquiet rfl (by rintro ⟨⟩) ?_)
    rcases Claim.next_readWallet (g i).claim id o f x with hclaim | ⟨record, e, hclaim, rfl⟩
    · exact hsame hclaim
    · rw [hclaim]
      exact fun _ => ⟨by rintro ⟨⟩, trivial⟩
  | _ => exact .inl (hquiet rfl (by rintro ⟨⟩) (hsame rfl))

/-- An idle request agrees with whatever is booked. -/
theorem Idle.agrees {r : Request} {s : Call} (h : Idle s) : Agrees e fp r s := by
  refine ⟨fun a b hab => absurd hab (h.session a b), fun hpending => absurd hpending h.claim,
    fun record hrecord => ?_, fun record e' he' => ?_⟩
  · exact absurd (by rw [hrecord]; trivial) h.claim
  · exact absurd (by rw [he']; trivial) h.claim

/-- A step that leaves the key alone, and the committed request's claim unconfirmed. -/
theorem Replaced.keeps (h : Replaced requests deadline key fp receipt e i t w g)
    (hkeeps : World.Keeps requests key w w') (hrunning : .closed i ∉ t ++ [occurrence])
    (hclaim : (g' i).claim = .settled)
    (hsession : ∀ a b, (g' i).session = .committed a b → (g i).session = .committed a b)
    (hothers : ∀ j, j ≠ i → (requests j).storeKey = some key → .closed j ∉ t → Idle (g' j)) :
    Replaced requests deadline key fp receipt e i (t ++ [occurrence]) w' g' :=
  ⟨h.entered.keeps hkeeps, h.store.keeps hkeeps,
    ⟨h.engaged.key, hrunning, recalls_append h.engaged.recalls⟩, hclaim,
    fun a b hab => h.session a b (hsession a b hab),
    fun j hji hj hopen => hothers j hji hj (not_closed_of_append hopen), h.names⟩

theorem Replaced.running_append (h : Replaced requests deadline key fp receipt e i t w g)
    (ho : occurrence ≠ .closed i) : .closed i ∉ t ++ [occurrence] := by
  intro hclosed
  rcases List.mem_append.mp hclosed with hmem | hmem
  · exact h.engaged.running hmem
  · exact ho (List.mem_singleton.mp hmem).symm

/-- A claim that is made now would be answered with the record. -/
private theorem Replaced.reserve {fp' : String} {ttl : ℤ} {x : Resp (.reserve key fp' ttl)}
    (h : Replaced requests deadline key fp receipt e i t w g) (hji : j ≠ i) (hfp : fp' = fp)
    (hnow : monotonic w.now < deadline) (httl : 0 < ttl)
    (halone : Recalls receipt ⟨.reserve key fp' ttl, x⟩ →
      ∀ k, k ≠ j → ¬ Engaged requests key receipt t k)
    (hans : w.Answers j (.reserve key fp' ttl) x w') : w' = w ∧ ∃ ex, x = .error ex := by
  obtain ⟨y, hy, hyfp, hresponse, hexpires⟩ := h.store
  have hreserve := Entries.reserve_of_live hy (hnow.trans_le hexpires) fp' httl
  simp only [hyfp, hfp, ne_eq, not_true_eq_false, if_false, hresponse] at hreserve
  subst hfp
  rcases hans with ⟨rfl, rfl⟩ | ⟨⟨ex, hex⟩, hw⟩
  · rw [hreserve] at halone
    exact absurd h.engaged (halone rfl i hji.symm)
  · refine ⟨?_, ex, eq_error_of_failure hex⟩
    rcases hw with rfl | ⟨z, -, rfl⟩
    · rfl
    · rw [hreserve]

/-- The step of a request other than the committed one. -/
private theorem Replaced.answered_other (h : Replaced requests deadline key fp receipt e i t w g)
    (hfollowed : Followed requests t w g) (halike : Alike requests key fp walletId)
    (hopen : .closed j ∉ t) (hkey : (requests j).storeKey = some key) (hji : j ≠ i)
    (hnow : monotonic w.now < deadline)
    (hdeadline : Lasts w.now service.idempotencyTtlSeconds deadline)
    (halone : Recalls receipt ⟨op, x⟩ → ∀ k, k ≠ j → ¬ Engaged requests key receipt t k)
    (hallow : (g j).allows service (requests j) op) (hans : w.Answers j op x w') :
    Replaced requests deadline key fp receipt e i (t ++ [.answered j ⟨op, x⟩]) w'
      (Function.update g j ⟨(g j).session.next op x, (g j).claim.next op x⟩) := by
  have hidle := h.others j hji hkey hopen
  have hown : ∀ {k : String}, (requests j).storeKey = some k → k = key := fun hk =>
    Option.some.inj (hk.symm.trans hkey)
  have hagrees : Agrees e fp (requests j) (g j) := hidle.agrees
  have hproceeds := hagrees.not_proceeds hkey
  -- an operation that leaves the record alone, and after which this request is not pending
  have hkeep : World.Keeps requests key w w' → op ≠ .commit →
      ¬ ((g j).claim.next op x).Pending →
      Replaced requests deadline key fp receipt e i (t ++ [.answered j ⟨op, x⟩]) w'
        (Function.update g j ⟨(g j).session.next op x, (g j).claim.next op x⟩) := by
    intro hkeeps hop hnot
    have hself : Function.update g j ⟨(g j).session.next op x, (g j).claim.next op x⟩ i = g i :=
      Function.update_of_ne hji.symm _ _
    refine h.keeps hkeeps (h.running_append (by rintro ⟨⟩)) ?_ ?_ ?_
    · rw [hself]
      exact h.claim
    · rw [hself]
      exact fun _ _ hab => hab
    · intro k hki hk hkopen
      by_cases hkj : k = j
      · subst hkj
        rw [Function.update_self]
        exact ⟨hnot, fun a b hab => hidle.session a b (Session.committed_of_next hab hop)⟩
      · rw [Function.update_of_ne hkj]
        exact h.others k hki hk hkopen
  have hquiet : World.storeKey op = none → op ≠ .commit → (g j).claim.next op x = (g j).claim →
      Replaced requests deadline key fp receipt e i (t ++ [.answered j ⟨op, x⟩]) w'
        (Function.update g j ⟨(g j).session.next op x, (g j).claim.next op x⟩) := by
    -- such are those that concern neither the store nor a commit
    intro hstore hop hclaim
    refine hkeep (hfollowed.keeps hopen hallow hans ?_ fun hcommit => absurd hcommit hop) hop ?_
    · rw [hstore]
      exact (Option.some_ne_none key).symm
    · rw [hclaim]
      exact hidle.claim
  cases op with
  | reserve k fp' ttl =>
    -- a claim cannot be granted while the record stays
    obtain ⟨-, hk, rfl, m, hm, rfl⟩ := hallow
    obtain rfl := hown hk
    obtain ⟨rfl, ex, rfl⟩ := h.reserve hji (halike j m hkey hm).1 hnow hdeadline.1 halone hans
    exact hkeep .refl (by rintro ⟨⟩) id
  | confirm k response ttl =>
    -- the others never go as far as to commit
    obtain ⟨-, -, -, a, b, hcommitted, -⟩ := hallow
    exact absurd hcommitted (hidle.session a b)
  | release k => exact absurd hallow.1 hproceeds
  | commit => exact absurd hallow.2 hproceeds
  | readEntry id o =>
    obtain ⟨-, -, record, hclaim, -⟩ := hallow
    exact absurd (by rw [hclaim]; trivial) hidle.claim
  | readWallet id o f =>
    rcases Claim.next_readWallet (g j).claim id o f x with hclaim | ⟨record, e', hclaim, -⟩
    · exact hquiet rfl (by rintro ⟨⟩) hclaim
    · exact absurd (by rw [hclaim]; trivial) hidle.claim
  | _ => exact hquiet rfl (by rintro ⟨⟩) rfl

/-- The step of the committed request itself, which sooner or later confirms. -/
private theorem Replaced.answered_self (h : Replaced requests deadline key fp receipt e i t w g)
    (hfollowed : Followed requests t w g) (hnow : monotonic w.now < deadline)
    (hdeadline : Lasts w.now service.idempotencyTtlSeconds deadline)
    (hconfirm : ¬ LosesConfirm ⟨op, x⟩) (hallow : (g i).allows service (requests i) op)
    (hans : w.Answers i op x w') :
    Replaced requests deadline key fp receipt e i (t ++ [.answered i ⟨op, x⟩]) w'
        (Function.update g i ⟨(g i).session.next op x, (g i).claim.next op x⟩) ∨
      Booked requests deadline key e fp (Running requests key (t ++ [.answered i ⟨op, x⟩])) w'
        (Function.update g i ⟨(g i).session.next op x, (g i).claim.next op x⟩) := by
  -- its claim is settled, so until it confirms it changes nothing
  have hclaim := h.claim
  have hquiet : World.storeKey op = none → op ≠ .commit → (g i).claim.next op x = .settled →
      Replaced requests deadline key fp receipt e i (t ++ [.answered i ⟨op, x⟩]) w'
        (Function.update g i ⟨(g i).session.next op x, (g i).claim.next op x⟩) := by
    intro hstore hop hnext
    refine h.keeps (hfollowed.keeps h.engaged.running hallow hans ?_
      fun hcommit => absurd hcommit hop) (h.running_append (by rintro ⟨⟩)) ?_ ?_ ?_
    · rw [hstore]
      exact (Option.some_ne_none key).symm
    · rw [Function.update_self]
      exact hnext
    · rw [Function.update_self]
      exact fun a b hab => Session.committed_of_next hab hop
    · intro k hki hk hkopen
      rw [Function.update_of_ne hki]
      exact h.others k hki hk hkopen
  -- it does not commit a second time
  have hproceeds : ¬ (g i).claim.Proceeds (requests i).storeKey := by
    rw [hclaim]
    exact id
  cases op with
  | reserve k fp' ttl =>
    cases hclaim.symm.trans hallow.1
  | confirm k response ttl =>
    -- the confirmation replaces the record by the entry that was committed
    obtain ⟨-, hk, rfl, a, b, hcommitted, rfl⟩ := hallow
    obtain rfl := Option.some.inj (hk.symm.trans h.engaged.key)
    obtain ⟨rfl, hid, hbalance⟩ := h.session a b hcommitted
    right
    rcases hans with ⟨rfl, rfl⟩ | ⟨⟨ex, hex⟩, -⟩
    · obtain ⟨y, hy, hfp, -, hexpires⟩ := h.store
      have hlasts := hdeadline.getD hexpires
      have hconfirmed := Entries.confirm_of_live hy (hnow.trans_le hexpires)
        (⟨b.id, a.id⟩ : Receipt) hdeadline.1
      refine ⟨⟨h.entered.keyed, h.entered.ledger, h.entered.shows, h.entered.wallet⟩,
        ⟨_, hconfirmed, hfp, hlasts, .inr ?_⟩, h.names, fun j hj => ?_⟩
      · rw [hid]
      · -- the request's own entry is booked now, and the others are idle
        by_cases hji : j = i
        · subst hji
          rw [Function.update_self]
          refine ⟨h.session, False.elim, ?_, ?_⟩
          · rintro record ⟨⟩
          · rintro record e' ⟨⟩
        · rw [Function.update_of_ne hji]
          exact (h.others j hji hj.1 (not_closed_of_append hj.2)).agrees
    · -- a confirmation that fails is what the run excludes
      obtain rfl := eq_error_of_failure hex
      exact absurd trivial hconfirm
  | release k => exact absurd hallow.1 hproceeds
  | commit => exact absurd hallow.2 hproceeds
  | readEntry id o =>
    obtain ⟨-, -, record, hreplaying, -⟩ := hallow
    cases hclaim.symm.trans hreplaying
  | readWallet id o f =>
    rcases Claim.next_readWallet (g i).claim id o f x with hnext | ⟨record, e', hreading, -⟩
    · exact .inl (hquiet rfl (by rintro ⟨⟩) (hnext.trans hclaim))
    · cases hclaim.symm.trans hreading
  | _ => exact .inl (hquiet rfl (by rintro ⟨⟩) hclaim)

end

/-! ## Runs -/

/-- One of the three phases, as long as the key's entry has not expired. -/
structure Renewed (requests : ℕ → Request) (start : Instant) (deadline : Binary64)
    (key fp : String) (receipt : Receipt) (t : List (Occurrence Op Resp)) (w : World)
    (g : ℕ → Call) : Prop where
  followed : Followed requests t w g
  started : start ≤ w.now
  phase : monotonic w.now < deadline → Stale requests deadline key fp receipt t w g ∨
    (∃ e i, Replaced requests deadline key fp receipt e i t w g) ∨
    ∃ e, Booked requests deadline key e fp (Running requests key t) w g

section

variable {service : WalletMovementSettings} {requests : ℕ → Request} {start : Instant}
  {deadline : Binary64} {key fp : String} {receipt : Receipt} {walletId : WalletId}
  {t : List (Occurrence Op Resp)} {w w' : World} {g g' : ℕ → Call}

theorem Renewed.commits_le_one (h : Renewed requests start deadline key fp receipt t w g)
    (hnow : monotonic w.now < deadline) : (w.keyed requests key).length ≤ 1 := by
  have hentered : ∀ {e : LedgerEntry}, Entered requests key e w →
      (w.keyed requests key).length ≤ 1 := by
    intro e he
    obtain ⟨j, tx, hkeyed, -⟩ := he.keyed
    rw [hkeyed]
    exact le_refl 1
  rcases h.phase hnow with hstale | ⟨e, i, hreplaced⟩ | ⟨e, hbooked⟩
  · rw [hstale.keyed]
    exact Nat.zero_le 1
  · exact hentered hreplaced.entered
  · exact hentered hbooked.entered

/-- Fewer requests are running after any step. -/
private theorem running_of_append {occurrence : Occurrence Op Resp} {j : ℕ}
    (h : Running requests key (t ++ [occurrence]) j) : Running requests key t j :=
  ⟨h.1, not_closed_of_append h.2⟩

/-- A step that leaves the key alone stays in its phase. -/
private theorem Renewed.phase_keeps {occurrence : Occurrence Op Resp}
    (h : Renewed requests start deadline key fp receipt t w g)
    (hkeeps : World.Keeps requests key w w')
    (hcalls : ∀ j, (requests j).storeKey = some key → g' j = g j)
    (hother : ∀ j event, occurrence = .answered j event → (requests j).storeKey ≠ some key)
    (hclosed : ∀ j, occurrence = .closed j → (g j).claim ≠ .settled)
    (hnow : monotonic w'.now < deadline) :
    Stale requests deadline key fp receipt (t ++ [occurrence]) w' g' ∨
      (∃ e i, Replaced requests deadline key fp receipt e i (t ++ [occurrence]) w' g') ∨
      ∃ e, Booked requests deadline key e fp (Running requests key (t ++ [occurrence])) w' g' := by
  rcases h.phase ((monotonic_mono hkeeps.now).trans_lt hnow) with
    hstale | ⟨e, i, hreplaced⟩ | ⟨e, hbooked⟩
  · -- the record is still there
    left
    refine hstale.keeps hkeeps (fun j hj hopen => ?_)
      fun j event ho hj => absurd hj (hother j event ho)
    have hbefore := not_closed_of_append hopen
    rw [hcalls j hj]
    exact ⟨hstale.sessions j hj hbefore,
      fun hpending => ⟨(hstale.claims j hj hbefore hpending).1, hpending⟩⟩
  · -- it is being replaced
    right; left
    have hself := hcalls i hreplaced.engaged.key
    refine ⟨e, i, hreplaced.keeps hkeeps (hreplaced.running_append ?_) ?_ ?_ ?_⟩
    · exact fun ho => hclosed i ho hreplaced.claim
    · rw [hself]
      exact hreplaced.claim
    · rw [hself]
      exact fun _ _ hab => hab
    · intro j hji hj hopen
      rw [hcalls j hj]
      exact hreplaced.others j hji hj hopen
  · -- it has been replaced
    right; right
    refine ⟨e, hbooked.keeps hkeeps fun j hj => ?_⟩
    rw [hcalls j hj.1]
    exact hbooked.calls j (running_of_append hj)

/-- The step lemma of the three phases. -/
theorem Renewed.answered {i : ℕ} {op : Op} {x : Resp op}
    (h : Renewed requests start deadline key fp receipt t w g)
    (halike : Alike requests key fp walletId)
    (hdeadline : Lasts start service.idempotencyTtlSeconds deadline) (hopen : .closed i ∉ t)
    (hcareful : (requests i).storeKey = some key →
      (Recalls receipt ⟨op, x⟩ → ∀ j, j ≠ i → ¬ Engaged requests key receipt t j) ∧
        (LosesCommit ⟨op, x⟩ → w'.commits = w.commits) ∧ ¬ LosesConfirm ⟨op, x⟩)
    (hallow : (g i).allows service (requests i) op) (hans : w.Answers i op x w') :
    Renewed requests start deadline key fp receipt (t ++ [.answered i ⟨op, x⟩]) w'
      (Function.update g i ⟨(g i).session.next op x, (g i).claim.next op x⟩) := by
  have hclock := hans.clock
  refine ⟨h.followed.answered hopen hallow hans, by rw [hclock]; exact h.started, fun hnow => ?_⟩
  by_cases hkey : (requests i).storeKey = some key
  · obtain ⟨halone, hcommit, hconfirm⟩ := hcareful hkey
    have hbefore : monotonic w.now < deadline := hclock ▸ hnow
    have hafter := hdeadline.mono h.started
    -- whichever phase the key is in
    rcases h.phase hbefore with hstale | ⟨e, k, hreplaced⟩ | ⟨e, hbooked⟩
    · rcases hstale.answered h.followed halike hopen hkey hbefore hafter halone hcommit hallow
        hans with hstale' | ⟨e, hreplaced⟩
      · exact .inl hstale'
      · exact .inr (.inl ⟨e, i, hreplaced⟩)
    · -- the request that replaces the record, or another
      by_cases hik : i = k
      · subst hik
        rcases hreplaced.answered_self h.followed hbefore hafter hconfirm hallow hans with
          hreplaced' | hbooked
        · exact .inr (.inl ⟨e, i, hreplaced'⟩)
        · exact .inr (.inr ⟨e, hbooked⟩)
      · exact .inr (.inl ⟨e, k, hreplaced.answered_other h.followed halike hopen hkey hik hbefore
          hafter halone hallow hans⟩)
    · have hbooked' := hbooked.answered h.followed hopen (fun _ hj => hj.1) ⟨hkey, hopen⟩ hbefore
        hafter hallow hans
      refine .inr (.inr ⟨e, hbooked'.keeps .refl fun j hj => ?_⟩)
      exact hbooked'.calls j (running_of_append hj)
  · -- requests under other keys do not concern it
    refine h.phase_keeps (h.followed.keeps_of_other hopen hallow hans hkey) (fun j hj => ?_) ?_ ?_
      hnow
    · refine Function.update_of_ne ?_ _ _
      rintro rfl
      exact hkey hj
    · intro j event ho
      obtain ⟨rfl, -⟩ := Occurrence.answered.inj ho
      exact hkey
    · rintro j ⟨⟩

/-- The run lemma: a key whose record was completed before the run. -/
theorem renewed_of_run {settings : MoveMoneySettings} {now : Instant} {db : Database}
    {idempotency : Entries Receipt} {Q : Pool deployment Exn Answer} (hunique : db.Unique)
    (halike : Alike requests key fp walletId)
    (hremembers : Remembers deadline key fp receipt (World.start now db idempotency))
    (hdeadline : Lasts now service.idempotencyTtlSeconds deadline)
    (hrun : Pool.RunUnder (Careful requests key receipt)
      (arrivals service settings requests (World.start now db idempotency)) t Q) :
    ∃ g, Renewed requests now deadline key fp receipt t Q.world g := by
  have hupholds : Pool.RunUnder.Upholds (fun i => protocol service (requests i))
      (Careful requests key receipt) (fun i => (requests i).Meets)
      (Renewed requests now deadline key fp receipt) := by
    constructor
    · intro t R R' g i op x hwp hinv hopen hallow hans hG
      -- each answer is allowed by the protocol, and moves the phase on
      refine ⟨_, ⟨promises_of_answers hans, rfl⟩, ?_⟩
      exact hinv.answered halike hdeadline hopen (hG i ⟨op, x⟩ rfl) hallow hans
    · intro t R w g i r hdone hwp hinv hcloses
      obtain rfl : w = R.world.discard i := hcloses
      have hmeets := hwp i
      rw [hdone] at hmeets
      -- a request that ends is not one that is replacing the record
      refine ⟨hinv.followed.closed, hinv.started, hinv.phase_keeps World.keeps_discard
        (fun _ _ => rfl) (by rintro j event ⟨⟩) fun j ho => ?_⟩
      obtain rfl := Occurrence.closed.inj ho
      exact hmeets.1
    · intro t R w g hwp hinv hdrifts hG
      obtain ⟨later, hlater, rfl⟩ := hdrifts
      -- time passes, and the record lasts until the deadline
      exact ⟨hinv.followed.drifted, hinv.started.trans hlater, hinv.phase_keeps
        (World.keeps_wait hlater) (fun _ _ => rfl) (by rintro j event ⟨⟩) (by rintro j ⟨⟩)⟩
  -- at the start the record is there, and nobody has recalled it
  have hinit : Renewed requests now deadline key fp receipt [] (World.start now db idempotency)
      fun _ => Call.initial := by
    refine ⟨Followed.start hunique, le_refl _, fun _ => .inl ⟨rfl, hremembers, ?_, ?_, ?_⟩⟩
    · rintro i - - a b ⟨⟩
    · rintro i - - ⟨⟩
    · intro i j hi hj
      obtain ⟨event, hevent, -⟩ := hi.recalls
      cases hevent
  obtain ⟨g, hrenewed, -⟩ := hrun.upholds hupholds
    (fun i => Request.meets_protocol service settings (requests i)) hinit
  exact ⟨g, hrenewed⟩

end

end Evenkeel.Infrastructure
