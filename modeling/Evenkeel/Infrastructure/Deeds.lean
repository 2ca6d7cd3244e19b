import Evenkeel.Application.Discipline
import Evenkeel.Infrastructure.BankRefinement

/-!
# The Deeds of a Run

Any number of requests work on the tables at the same time, and the bank behind the tables
sees one deed after the other: each is done at a commit of the request that asked for it.

- `Linearizes`: the deeds of a history, in the order of the commits they were done at
- `Did`: a request did its deed, and the bank was in this state right afterwards
- `Conducted`: the invariant, over the protocol and the discipline of every request

## Key Results

- `Conducted.answered`: every step of a run keeps it
- `conducted_of_run`: so every run does
-/

namespace Evenkeel.Infrastructure

open Evenkeel.Domain Evenkeel.Application Evenkeel.Accounting Evenkeel.Effects

/-! ## Linearizations -/

/-- The deeds of a history, with the requests that did them, each at a commit of its own. -/
inductive Linearizes : List (Occurrence Op Resp) → List (ℕ × WalletDeed) → Prop where
  | nil : Linearizes [] []
  | silent {t : List (Occurrence Op Resp)} {es : List (ℕ × WalletDeed)}
      (o : Occurrence Op Resp) : Linearizes t es → Linearizes (t ++ [o]) es
  | commits {t : List (Occurrence Op Resp)} {es : List (ℕ × WalletDeed)} (i : ℕ)
      (d : WalletDeed) (x : Resp .commit) :
      Linearizes t es → Linearizes (t ++ [.answered i ⟨.commit, x⟩]) (es ++ [(i, d)])

/-- Request `i` did `d`, which left the bank in the state `mid`. -/
def Did (origin : WalletBank) (es : List (ℕ × WalletDeed)) (i : ℕ) (d : WalletDeed)
    (mid : WalletBank) : Prop :=
  ∃ before after, es = before ++ (i, d) :: after ∧
    origin.conduct moneyMaxCents ((before ++ [(i, d)]).map Prod.snd) = some mid

section

variable {origin mid b : WalletBank} {es : List (ℕ × WalletDeed)} {i : ℕ} {d : WalletDeed}

theorem Did.snoc (h : Did origin es i d mid) (p : ℕ × WalletDeed) :
    Did origin (es ++ [p]) i d mid := by
  obtain ⟨before, after, rfl, hmid⟩ := h
  exact ⟨before, after ++ [p], by simp, hmid⟩

theorem conduct_done (h : origin.conduct moneyMaxCents (es.map Prod.snd) = some b)
    (hperform : b.perform moneyMaxCents d = some mid) :
    origin.conduct moneyMaxCents ((es ++ [(i, d)]).map Prod.snd) = some mid := by
  rw [List.map_append]
  exact Bank.conduct_snoc.mpr ⟨b, h, hperform⟩

theorem Did.last (h : origin.conduct moneyMaxCents (es.map Prod.snd) = some b)
    (hperform : b.perform moneyMaxCents d = some mid) : Did origin (es ++ [(i, d)]) i d mid :=
  ⟨es, [], rfl, conduct_done h hperform⟩

end

/-! ## What holds of a request -/

/-- The session of a request and its stage tell of the same wallet. -/
structure Concurs (r : Request) (s : Call × Stage) : Prop where
  session : ∀ w, s.1.session = .opened w → s.2.opened = some w
  stage : ∀ w, s.2.opened = some w → ∃ c, r = .openWallet c ∧ w.balance.currency = c.currency

/-- What request `i` has done for the bank, as far as it has come. -/
structure Done (origin : WalletBank) (es : List (ℕ × WalletDeed)) (i : ℕ) (r : Request)
    (s : Call × Stage) : Prop where
  ahead : s.2.commit = .ahead → i ∉ es.map Prod.fst
  created : s.2.commit = .done → ∀ w, s.2.opened = some w → ∃ mid,
    Did origin es i (.opens w.id.value r.ownerId.value w.balance.currency.value) mid
  committed : ∀ w e, s.1.session = .committed w e → ∃ m mid a, r.movement = some m ∧
    Did origin es i (bookingOf m) mid ∧ mid.accounts m.walletId.value = some a ∧
      a.balance = w.balance.cents

/-- The bank behind the tables is the one that the deeds of the history have made of the bank
    the run started with. -/
structure Conducted (origin : WalletBank) (requests : ℕ → Request)
    (es : List (ℕ × WalletDeed)) (t : List (Occurrence Op Resp)) (w : World)
    (g : ℕ → Call × Stage) : Prop where
  tracked : Tracked requests t w fun i => (g i).1
  conducts : origin.conduct moneyMaxCents (es.map Prod.snd) = some (w.db.bank tracked.sound)
  linearizes : Linearizes t es
  asked : ∀ p ∈ es, Asks (requests p.1) p.2
  once : (es.map Prod.fst).Nodup
  concurs : ∀ i, Concurs (requests i) (g i)
  done : ∀ i, Done origin es i (requests i) (g i)

section

variable {origin : WalletBank} {service : WalletMovementSettings} {requests : ℕ → Request}
  {es : List (ℕ × WalletDeed)} {t : List (Occurrence Op Resp)} {w w' : World}
  {g : ℕ → Call × Stage} {i : ℕ} {op : Op} {x : Resp op}

/-! ## Request by request -/

/-- Only an insert makes a session one that has opened a wallet. -/
theorem session_of_opened {s : Session} {wallet : Wallet} (h : s.next op x = .opened wallet) :
    s = .opened wallet ∨ op = .addWallet wallet := by
  cases op with
  | addWallet =>
    -- only `wallets.add` opens; the other writes need another session, and lead to another one
    cases x with
    | error e => cases h
    | ok _ =>
      cases h
      exact .inr rfl
  | readWallet =>
    rcases x with e | (_ | found)
    · exact .inl h
    · cases h
    · cases h
  | addEntry =>
    cases x
    all_goals
      cases s
      all_goals cases h
  | updateWallet =>
    rcases x with e | (_ | _)
    all_goals
      cases s
      all_goals cases h
  | commit =>
    cases x
    all_goals
      cases s
      all_goals cases h
  | rollback =>
    cases x
    all_goals cases h
  | _ => exact .inl h

theorem stage_of_opened {s : Stage} {wallet : Wallet}
    (h : (s.next op x).opened = some wallet) : s.opened = some wallet ∨ op = .addWallet wallet := by
  by_cases hop : ∃ added, op = .addWallet added
  · obtain ⟨added, rfl⟩ := hop
    obtain rfl := Option.some.inj h
    exact .inr rfl
  · left
    rwa [Stage.next_opened fun added heq => hop ⟨added, heq⟩] at h

theorem Concurs.next {r : Request} {s : Call × Stage} (h : Concurs r s)
    (hallow : s.2.allows r op) :
    Concurs r (⟨s.1.session.next op x, s.1.claim.next op x⟩, s.2.next op x) := by
  constructor
  · intro wallet hwallet
    rcases session_of_opened hwallet with hold | rfl
    · have hstage := h.session wallet hold
      rwa [Stage.next_opened]
      -- a wallet is added once
      rintro added rfl
      rw [hallow.1] at hstage
      cases hstage
    · rfl
  · intro wallet hwallet
    rcases stage_of_opened hwallet with hold | rfl
    · exact h.stage wallet hold
    · exact hallow.2

/-- What a session that is ready does for the bank by a commit. -/
structure Readies (r : Request) (s : Call × Stage) (d : WalletDeed) (b : WalletBank) : Prop where
  asks : Asks r d
  created : ∀ wallet, s.2.opened = some wallet →
    d = .opens wallet.id.value r.ownerId.value wallet.balance.currency.value
  committed : ∀ wallet moved e, s.1.session = .updated wallet moved e → ∃ m a,
    r.movement = some m ∧ d = bookingOf m ∧ b.accounts m.walletId.value = some a ∧
      a.balance = moved.balance.cents

/-- The tables a commit leaves stand for the bank after one more deed. -/
theorem Conducted.readies (h : Conducted origin requests es t w g) (hopen : .closed i ∉ t)
    (hready : (g i).1.session.Ready) (hsound : (w.view i).Sound) :
    ∃ d, (w.db.bank h.tracked.sound).perform moneyMaxCents d = some ((w.view i).bank hsound) ∧
      Readies (requests i) (g i) d ((w.view i).bank hsound) := by
  have htracks := h.tracked.tracks i hopen
  have hconcurs := h.concurs i
  cases hsession : (g i).1.session with
  | updated wallet moved e =>
    -- a movement: the row is replaced and the entry is appended, which is one posting
    rw [hsession] at htracks
    obtain ⟨m, row, row', hm, hbooks, hrow, hshows, hshows', hwrites⟩ := htracks
    have hview : w.view i = ⟨w.db.replace row', w.db.ledger ++ [.ofEntry e], w.db.letters⟩ :=
      Database.apply_update hwrites
    have hid : row'.id = row.id := by
      rw [← hshows'.id, hbooks.moved.id, hshows.id]
    have hmem : row' ∈ (w.view i).wallets := by
      have hreplaced : (if row'.id = row.id then row' else row) ∈ w.db.replace row' :=
        Database.mem_replace_of_mem hrow
      rw [if_pos hid] at hreplaced
      rwa [hview]
    refine ⟨bookingOf m, ?_, .booking hm, ?_, ?_⟩
    · simp only [hview]
      exact Database.bank_movement h.tracked.sound hbooks hrow hshows hshows' (hview ▸ hsound)
    · -- it opens no wallet
      intro opened hopened
      obtain ⟨c, hc, -⟩ := hconcurs.stage opened hopened
      rw [hc] at hm
      cases hm
    · -- the balance it answers with is the one of the account
      intro wallet₁ moved₁ e₁ heq
      obtain ⟨rfl, rfl, rfl⟩ := Session.updated.inj (hsession.symm.trans heq)
      have hwallet : row'.id = m.walletId.value := by
        rw [hid, ← hshows.id, hbooks.walletId]
      refine ⟨m, row'.account (hsound.reconciled row' hmem).nonneg, hm, rfl, ?_,
        hshows'.balance.symm⟩
      rw [← hwallet]
      exact Database.bank_account_some hsound hmem
  | opened wallet =>
    -- an opening: one row more, which is one account more
    rw [hsession] at htracks
    obtain ⟨-, hwrites, walletId, c, now, rfl⟩ := htracks
    have hview : w.view i = _ := Database.apply_insert hwrites
    have hstage := hconcurs.session _ hsession
    obtain ⟨command, hcommand, hcurrency⟩ := hconcurs.stage _ hstage
    -- the id is new, as the transaction that adds it is exclusive
    have hnew : ∀ row ∈ w.db.wallets, row.id ≠ walletId.value := by
      intro row hrow
      have hmem : WalletRow.ofWallet (Wallet.open walletId (requests i).ownerId c now) ∈
          (w.tx i).newWallets := by
        rw [hwrites.newWallets]
        exact List.mem_singleton_self _
      exact h.tracked.exclusive.newWallet i _ hmem row hrow
    refine ⟨.opens walletId.value (requests i).ownerId.value c.value, ?_, ?_, ?_, ?_⟩
    · simp only [hview]
      exact Database.bank_opening h.tracked.sound hnew (hview ▸ hsound)
    · have hc : c = command.currency := hcurrency
      rw [hcommand, hc]
      exact .opening walletId.value rfl
    · intro opened hopened
      obtain rfl := Option.some.inj (hstage.symm.trans hopened)
      rfl
    · intro wallet₁ moved₁ e₁ heq
      rw [hsession] at heq
      cases heq
  | _ =>
    -- there is nothing else to commit
    rw [hsession] at hready
    exact hready.elim

/-! ## Step by step -/

/-- Nothing but a commit does anything for the bank. -/
theorem Done.next {r : Request} {s : Call × Stage} (h : Done origin es i r s)
    (hallow : s.2.allows r op) (hop : op ≠ .commit) :
    Done origin es i r (⟨s.1.session.next op x, s.1.claim.next op x⟩, s.2.next op x) := by
  have hcommit : (s.2.next op x).commit = s.2.commit := Stage.next_commit hop
  constructor
  · intro hahead
    exact h.ahead (hcommit ▸ hahead)
  · intro hdone wallet hwallet
    have hdone : s.2.commit = .done := hcommit ▸ hdone
    rcases stage_of_opened hwallet with hold | rfl
    · exact h.created hdone wallet hold
    · rw [hallow.1] at hdone
      cases hdone
  · intro wallet e hcommitted
    exact h.committed wallet e (Session.committed_of_next hcommitted hop)

/-- Nothing is known of a commit that failed. -/
theorem Done.failed {r : Request} {s : Call × Stage} {e : Exn} :
    Done origin es i r (⟨s.1.session.next .commit (.error e), s.1.claim.next .commit (.error e)⟩,
      s.2.next .commit (.error e)) := by
  constructor
  · intro hahead
    cases hahead
  · intro hdone
    cases hdone
  · intro wallet entry hcommitted
    cases hcommitted

/-- A commit that succeeds does the deed. -/
theorem Done.commit {r : Request} {s : Call × Stage} {d : WalletDeed} {mid : WalletBank}
    (hready : Readies r s d mid) (hdid : Did origin es i d mid) :
    Done origin es i r (⟨s.1.session.next .commit (.ok ()), s.1.claim.next .commit (.ok ())⟩,
      s.2.next .commit (.ok ())) := by
  constructor
  · intro hahead
    cases hahead
  · intro _ wallet hwallet
    rw [← hready.created wallet hwallet]
    exact ⟨mid, hdid⟩
  · intro moved e hcommitted
    cases hsession : s.1.session with
    | updated wallet moved' e' =>
      rw [hsession] at hcommitted
      obtain ⟨rfl, rfl⟩ := Session.committed.inj hcommitted
      obtain ⟨m, a, hm, rfl, ha, hbalance⟩ := hready.committed wallet moved' e' hsession
      exact ⟨m, mid, a, hm, hdid, ha, hbalance⟩
    | _ =>
      rw [hsession] at hcommitted
      cases hcommitted

/-- What somebody else does. -/
theorem Done.other {r : Request} {s : Call × Stage} {j : ℕ} {d : WalletDeed}
    (h : Done origin es j r s) (hji : j ≠ i) : Done origin (es ++ [(i, d)]) j r s := by
  constructor
  · intro hahead hmem
    rw [List.map_append] at hmem
    rcases List.mem_append.mp hmem with hold | hnew
    · exact h.ahead hahead hold
    · exact hji (List.mem_singleton.mp hnew)
  · intro hdone wallet hwallet
    obtain ⟨mid, hdid⟩ := h.created hdone wallet hwallet
    exact ⟨mid, hdid.snoc _⟩
  · intro wallet e hcommitted
    obtain ⟨m, mid, a, hm, hdid, ha⟩ := h.committed wallet e hcommitted
    exact ⟨m, mid, a, hm, hdid.snoc _, ha⟩

/-- A step that leaves the tables as they are. -/
theorem Conducted.silent {occurrence : Occurrence Op Resp} {s : Call × Stage}
    (h : Conducted origin requests es t w g) (hdb : w'.db = w.db)
    (htracked : Tracked requests (t ++ [occurrence]) w'
      (Function.update (fun j => (g j).1) i s.1))
    (hconcurs : Concurs (requests i) s) (hdone : Done origin es i (requests i) s) :
    Conducted origin requests es (t ++ [occurrence]) w' (Function.update g i s) := by
  have hcalls : (fun j => (Function.update g i s j).1) =
      Function.update (fun j => (g j).1) i s.1 := Function.comp_update Prod.fst g i s
  refine ⟨hcalls ▸ htracked, ?_, .silent _ h.linearizes, h.asked, h.once, ?_, ?_⟩
  · simp only [hdb]
    exact h.conducts
  · intro j
    by_cases hji : j = i
    · subst hji
      rwa [Function.update_self]
    · rw [Function.update_of_ne hji]
      exact h.concurs j
  · -- nobody's deeds have changed, only what is known of this one
    intro j
    by_cases hji : j = i
    · subst hji
      rwa [Function.update_self]
    · rw [Function.update_of_ne hji]
      exact h.done j

/-- A commit that took effect, whether or not its answer arrives. -/
theorem Conducted.deed {x : Resp .commit} {s : Call × Stage} {d : WalletDeed}
    (h : Conducted origin requests es t w g) (hahead : (g i).2.commit = .ahead)
    (htracked : Tracked requests (t ++ [.answered i ⟨.commit, x⟩]) w'
      (Function.update (fun j => (g j).1) i s.1))
    (hperform : (w.db.bank h.tracked.sound).perform moneyMaxCents d =
      some (w'.db.bank htracked.sound))
    (hasks : Asks (requests i) d) (hconcurs : Concurs (requests i) s)
    (hdone : Done origin (es ++ [(i, d)]) i (requests i) s) :
    Conducted origin requests (es ++ [(i, d)]) (t ++ [.answered i ⟨.commit, x⟩]) w'
      (Function.update g i s) := by
  have hcalls : (fun j => (Function.update g i s j).1) =
      Function.update (fun j => (g j).1) i s.1 := Function.comp_update Prod.fst g i s
  refine ⟨hcalls ▸ htracked, conduct_done h.conducts hperform, .commits i d x h.linearizes,
    ?_, ?_, ?_, ?_⟩
  · -- every deed was asked for
    intro p hp
    rcases List.mem_append.mp hp with hold | hnew
    · exact h.asked p hold
    · obtain rfl := List.mem_singleton.mp hnew
      exact hasks
  · -- and every request has at most one
    rw [List.map_append, List.map_singleton]
    refine List.nodup_append.mpr ⟨h.once, List.nodup_singleton _, ?_⟩
    intro a ha b hb heq
    have hai : a = i := heq.trans (List.mem_singleton.mp hb)
    exact (h.done i).ahead hahead (hai ▸ ha)
  · intro j
    by_cases hji : j = i
    · subst hji
      rwa [Function.update_self]
    · rw [Function.update_of_ne hji]
      exact h.concurs j
  · intro j
    by_cases hji : j = i
    · subst hji
      rwa [Function.update_self]
    · rw [Function.update_of_ne hji]
      exact (h.done j).other hji

/-- The step lemma: an operation that the protocol and the discipline allow, however it is
    answered. -/
theorem Conducted.answered (h : Conducted origin requests es t w g) (hopen : .closed i ∉ t)
    (hallow : (g i).1.allows service (requests i) op) (hstage : (g i).2.allows (requests i) op)
    (hans : w.Answers i op x w') : ∃ es',
    Conducted origin requests es' (t ++ [.answered i ⟨op, x⟩]) w' (Function.update g i
      (⟨(g i).1.session.next op x, (g i).1.claim.next op x⟩, (g i).2.next op x)) := by
  have htracked : Tracked requests (t ++ [.answered i ⟨op, x⟩]) w'
      (Function.update (fun j => (g j).1) i
        ⟨(g i).1.session.next op x, (g i).1.claim.next op x⟩) :=
    h.tracked.answered hopen hallow hans
  have hconcurs := (h.concurs i).next (x := x) hstage
  by_cases hop : op = .commit
  · -- only the commit of a session that has something to write is a deed
    subst hop
    have hahead : (g i).2.commit = .ahead := by
      rcases hstage with hguarded | ⟨wallet, hopened⟩
      · rw [hguarded]
      · rw [hopened]
    rcases hans with ⟨rfl, rfl⟩ | ⟨⟨e, he⟩, rfl | ⟨y, -, rfl⟩⟩
    · -- it took effect and returned
      obtain ⟨d, hperform, hready⟩ := h.readies hopen hallow.1 htracked.sound
      exact ⟨_, h.deed hahead htracked hperform hready.asks hconcurs
        (.commit hready (.last h.conducts hperform))⟩
    · -- it failed
      obtain rfl := eq_error_of_failure he
      exact ⟨es, h.silent rfl htracked hconcurs .failed⟩
    · -- it took effect and failed afterwards: the deed is there, and the request is not told
      obtain rfl := eq_error_of_failure he
      obtain ⟨d, hperform, hready⟩ := h.readies hopen hallow.1 htracked.sound
      exact ⟨_, h.deed hahead htracked hperform hready.asks hconcurs .failed⟩
  · -- the tables do not change with anything else
    exact ⟨es, h.silent (hans.tables hop).1 htracked hconcurs ((h.done i).next hstage hop)⟩

theorem Conducted.closed (h : Conducted origin requests es t w g) :
    Conducted origin requests es (t ++ [.closed i]) (w.discard i) g :=
  ⟨h.tracked.closed, h.conducts, .silent _ h.linearizes, h.asked, h.once, h.concurs, h.done⟩

theorem Conducted.drifted {now : Instant} (h : Conducted origin requests es t w g) :
    Conducted origin requests es (t ++ [.drifted]) { w with now := now } g :=
  ⟨h.tracked.drifted, h.conducts, .silent _ h.linearizes, h.asked, h.once, h.concurs, h.done⟩

theorem Conducted.start {now : Instant} {db : Database} {idempotency : Entries Receipt}
    (h : db.Sound) : Conducted (db.bank h) requests [] [] (World.start now db idempotency)
      fun _ => (Call.initial, {}) := by
  refine ⟨.start h, rfl, .nil, ?_, List.nodup_nil, ?_, ?_⟩
  · intro p hp
    cases hp
  · intro i
    constructor
    · intro wallet hwallet
      cases hwallet
    · intro wallet hwallet
      cases hwallet
  · intro i
    constructor
    · intro _ hmem
      cases hmem
    · intro hdone
      cases hdone
    · intro wallet e hcommitted
      cases hcommitted

/-- The run lemma: whatever the schedule and the faults. -/
theorem conducted_of_run {settings : MoveMoneySettings} {G : Pool.Guard deployment Exn Answer}
    {now : Instant} {db : Database} {idempotency : Entries Receipt}
    {Q : Pool deployment Exn Answer} (hsound : db.Sound)
    (hrun : Pool.RunUnder G
      (arrivals service settings requests (World.start now db idempotency)) t Q) :
    ∃ g es, Conducted (db.bank hsound) requests es t Q.world g ∧
      ∀ i, ((protocol service (requests i)).prod (discipline (requests i))).wp (Q.clients i)
        (fun x s => (requests i).Meets x s.1 ∧ Retires Answer.Retells x s.2) (g i) := by
  have hupholds : Pool.RunUnder.Upholds
      (fun i => (protocol service (requests i)).prod (discipline (requests i))) G
      (fun i x s => (requests i).Meets x s.1 ∧ Retires Answer.Retells x s.2)
      (fun t w g => ∃ es, Conducted (db.bank hsound) requests es t w g) := by
    constructor
    · -- an answer, an end, or a step that is nobody's
      intro t R R' g i op x hwp hinv hopen hallow hans hG
      obtain ⟨es, hinv⟩ := hinv
      exact ⟨(_, _), ⟨⟨promises_of_answers hans, rfl⟩, trivial, rfl⟩,
        hinv.answered hopen hallow.1 hallow.2 hans⟩
    · intro t R w g i r hdone hwp hinv hcloses
      obtain ⟨es, hinv⟩ := hinv
      obtain rfl : w = R.world.discard i := hcloses
      exact ⟨es, hinv.closed⟩
    · intro t R w g hwp hinv hdrifts hG
      obtain ⟨es, hinv⟩ := hinv
      obtain ⟨now, hnow, rfl⟩ := hdrifts
      exact ⟨es, hinv.drifted⟩
  obtain ⟨g, ⟨es, hinv⟩, hg⟩ := hrun.upholds hupholds
    (fun i => (requests i).meets_both service settings) ⟨[], .start hsound⟩
  exact ⟨g, es, hinv, hg⟩

end

/-! ## A small history -/

namespace Sample

/-- Everybody deposits one euro, without a key, but for one who looks at the wallet. -/
def visitors : ℕ → Request := fun i =>
  if i = 1 then .getWallet ⟨wallet.id, owner⟩ else .apply (deposit none)

/-- The first deposit goes all the way through. -/
theorem run_deposit : ∃ t Q out,
    Pool.Run (arrivals {} {} visitors (World.start 0 database fun _ => none)) t Q ∧
      Q.clients 0 = .done (.ok (.applied out)) ∧ out.replayed = false ∧
        .answered 0 ⟨.commit, .ok ()⟩ ∈ t ∧ Pool.ownEvents 1 t = [] ∧
        Q.world.view 1 = ⟨[.ofWallet credited], [.ofEntry (entry minted)], .ascii⟩ ∧
        Q.clients 1 = (visitors 1).program {} {} := by
  have h := Pool.RunUnder.nil (G := fun _ _ _ _ => True)
    (P := arrivals {} {} visitors (World.start 0 database fun _ => none))
  have h := h.answer 0 rfl (.ok true) _ (.inl (.inl ⟨rfl, rfl⟩)) trivial
  have h := h.answer 0 rfl () _ (.inl rfl) trivial
  have h := h.answer 0 rfl (.ok (some wallet)) _ (.inl ⟨rfl, rfl⟩) trivial
  have h := h.answer 0 rfl (0 : ℤ) _ (.inl rfl) trivial
  have h := h.answer 0 rfl minted _ (.inl rfl) trivial
  have h := h.answer 0 rfl (.ok ()) _ (.inl ⟨rfl, World.newEntryId_of_blank (by rintro row ⟨⟩)
    (by rintro (_ | j) <;> rfl), rfl⟩) trivial
  have h := h.answer 0 rfl (.ok true) _ (.inl (.inl ⟨rfl, World.free_of_blank
    (by rintro (_ | j) hj; exacts [absurd rfl hj, rfl]), .ofWallet wallet,
    List.mem_singleton_self _, ⟨rfl, rfl⟩, rfl⟩)) trivial
  have h := h.answer 0 rfl (.ok ()) _ (.inl ⟨rfl, rfl⟩) trivial
  have h := h.answer 0 rfl (.ok ()) _ (.inl ⟨rfl, rfl⟩) trivial
  exact ⟨_, _, _, h, rfl, rfl, by simp, by simp [Pool.ownEvents], rfl, rfl⟩

end Sample

end Evenkeel.Infrastructure
