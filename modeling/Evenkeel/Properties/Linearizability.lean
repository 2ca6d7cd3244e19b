import Evenkeel.Effects.Histories
import Evenkeel.Infrastructure.Deeds
import Evenkeel.Infrastructure.Disclosures

/-!
# Linearizability

The deployment, with its transactions, locks and lost answers, against the bank it is for.
-/

namespace Evenkeel.Properties

open Evenkeel.Domain Evenkeel.Application Evenkeel.Accounting Evenkeel.Effects
open Evenkeel.Infrastructure

/-- What the result of a movement says about the deeds: a replay did none, and any other did
    what it was asked, which left the wallet with the balance of the result. -/
structure Moves (origin : WalletBank) (es : List (ℕ × WalletDeed)) (i : ℕ) (r : Request)
    (result : MovementResult) : Prop where
  replay : result.replayed = true → i ∉ es.map Prod.fst
  fresh : result.replayed = false → ∃ m mid a, r.movement = some m ∧
    Did origin es i (bookingOf m) mid ∧ mid.accounts m.walletId.value = some a ∧
      a.balance = result.balance.cents

/-- What the answer to request `i` says about the deeds. -/
def Tallies (origin : WalletBank) (es : List (ℕ × WalletDeed)) (i : ℕ) (r : Request) :
    Answer → Prop
  | .opened result => ∃ mid, Did origin es i
      (.opens result.walletId.value r.ownerId.value result.currency.value) mid
  | .moved result => Moves origin es i r result
  | .applied out => Moves origin es i r out.result
  | _ => i ∉ es.map Prod.fst

/-- What is known of a request that has been answered says the same as its answer. -/
theorem Tallies.of_conducted {origin : WalletBank} {requests : ℕ → Request}
    {es : List (ℕ × WalletDeed)} {t : List (Occurrence Op Resp)} {w : World}
    {g : ℕ → Call × Stage} {i : ℕ} {a : Answer}
    (h : Conducted origin requests es t w g) (hmeets : (requests i).Meets (.ok a) (g i).1)
    (hretires : Retires Answer.Retells (.ok a) (g i).2) :
    Tallies origin es i (requests i) a := by
  have hdone := h.done i
  have htells := hretires.2 a rfl
  -- what a movement reports is what its session has committed
  have hmoves : ∀ result, a.result = some result → (g i).2.Moved result.replayed →
      Moves origin es i (requests i) result := by
    intro result hresult hmoved
    have hmovement : ∃ m, (requests i).movement = some m := by
      cases a with
      | moved =>
        obtain ⟨m, out, hm, -⟩ := hmeets.2 _ rfl
        exact ⟨m, hm⟩
      | applied =>
        obtain ⟨m, hm, -⟩ := hmeets.2 _ rfl
        exact ⟨m, hm⟩
      | _ => cases hresult
    obtain ⟨m, hm⟩ := hmovement
    obtain ⟨out, hreports, hout⟩ := (hmeets.2 a rfl).reports hm
    obtain rfl := Option.some.inj (hout.symm.trans hresult)
    constructor
    · -- a replay has done no deed of its own
      intro htrue
      apply hdone.ahead
      rw [hmoved, htrue]
      rfl
    · -- a movement is the request's own deed, and its balance the one after it
      intro hfalse
      obtain ⟨hsession, hbalance⟩ := hreports.applied hfalse
      obtain ⟨m', mid, account, hm', hdid, haccount, hcents⟩ := hdone.committed _ _ hsession
      refine ⟨m', mid, account, hm', hdid, haccount, hcents.trans ?_⟩
      rw [MovementOutcome.result, hbalance]
  cases a with
  | opened result =>
    -- an opened wallet is a deed as well
    obtain ⟨hcommit, wallet, hopened, rfl⟩ := htells
    exact hdone.created hcommit wallet hopened
  | moved result => exact hmoves result rfl htells
  | applied out => exact hmoves out.result rfl htells
  -- a query has done none
  | wallet => exact hdone.ahead htells
  | wallets => exact hdone.ahead htells
  | entries => exact hdone.ahead htells

/-- Requests that work on the tables at the same time do so one after the other, as far as the
    bank can tell: the tables are what the bank has become by the deeds of the requests, in
    some order of their commits, each request with one deed at most and the one it asks for,
    and every answer agrees with that order. Wallets keep their owners and their currencies, and
    a balance has changed by what the deeds have posted. -/
theorem run_linearizes {service : WalletMovementSettings} {settings : MoveMoneySettings}
    {requests : ℕ → Request} {now : Instant} {db : Database} {idempotency : Entries Receipt}
    {t : List (Occurrence Op Resp)} {Q : Pool deployment Exn Answer} (hsound : db.Sound)
    (hrun : Pool.Run (arrivals service settings requests (World.start now db idempotency)) t Q) :
    ∃ (h : Q.world.db.Sound) (es : List (ℕ × WalletDeed)), Linearizes t es ∧
      (db.bank hsound).conduct moneyMaxCents (es.map Prod.snd) = some (Q.world.db.bank h) ∧
      (es.map Prod.fst).Nodup ∧ (∀ p ∈ es, Asks (requests p.1) p.2) ∧
      (∀ i a, Q.clients i = .done (.ok a) →
        Tallies (db.bank hsound) es i (requests i) a) ∧
      ∀ id a, (db.bank hsound).accounts id = some a →
        ∃ a', (Q.world.db.bank h).accounts id = some a' ∧ a'.holder = a.holder ∧
          a'.currency = a.currency ∧
            a'.balance = a.balance + posted id ((es.map Prod.snd).filterMap Deed.posting) := by
  obtain ⟨g, es, hinv, hwp⟩ := conducted_of_run hsound hrun
  refine ⟨hinv.tracked.sound, es, hinv.linearizes, hinv.conducts, hinv.once, hinv.asked, ?_,
    fun _ _ => Bank.account_of_conduct hinv.conducts⟩
  intro i a hanswer
  have hi := hwp i
  rw [hanswer] at hi
  exact .of_conducted hinv hi.1 hi.2

/-- One deposit is one deed. -/
theorem run_linearizes_deposit : ∃ t es mid, Linearizes t es ∧
    (Sample.database.bank (Database.Sound.opened _ _ _ _ _)).conduct moneyMaxCents
      (es.map Prod.snd) = some mid ∧ 0 ∈ es.map Prod.fst := by
  obtain ⟨t, Q, out, hrun, hanswer, hfresh, -⟩ := Sample.run_deposit
  obtain ⟨h, es, hlinearizes, hconducts, -, -, htallies, -⟩ :=
    run_linearizes (Database.Sound.opened _ _ _ _ _) hrun
  refine ⟨t, es, _, hlinearizes, hconducts, ?_⟩
  obtain ⟨m, mid, a, -, ⟨before, after, rfl, -⟩, -⟩ := (htallies 0 _ hanswer).fresh hfresh
  simp

/-! ## Queries -/

/-- What a query returns when nobody else is at work. -/
def Reads (db : Database) : Request → Answer → Prop
  | .getWallet q, a => ∃ w, db.readWallet q.walletId q.ownerId = .ok (some w) ∧ a = .wallet w
  | .listWallets q, a => ∃ page, db.listByOwner q.ownerId q.limit q.cursor = .ok page ∧
      a = .wallets page
  | .listLedgerEntries q, a => ∃ page,
      db.listByWallet q.walletId q.ownerId q.limit q.cursor = .ok page ∧ a = .entries page
  | _, _ => False

/-- The statement a query has its answer from. -/
inductive ReadOff : Request → Event Op Resp → Answer → Prop where
  | wallet (q : GetWalletQuery) (w : Wallet) :
      ReadOff (.getWallet q) ⟨.readWallet q.walletId q.ownerId false, .ok (some w)⟩ (.wallet w)
  | wallets (q : ListWalletsQuery) (page : Page Wallet) :
      ReadOff (.listWallets q) ⟨.listByOwner q.ownerId q.limit q.cursor, .ok page⟩ (.wallets page)
  | entries (q : ListLedgerQuery) (page : Page LedgerEntry) :
      ReadOff (.listLedgerEntries q)
        ⟨.listByWallet q.walletId q.ownerId q.limit q.cursor, .ok page⟩ (.entries page)

/-- A request that only reads. -/
def IsQuery : Request → Prop
  | .getWallet _ => True
  | .listWallets _ => True
  | .listLedgerEntries _ => True
  | _ => False

section

variable {service : WalletMovementSettings} {settings : MoveMoneySettings} {r : Request}

/-- How a query ends: what it returns is what one of its statements was answered. -/
def ReadsOff {α : Type} (r : Request) (f : α → Answer) (x : Except Exn α)
    (u : List (Event Op Resp)) : Prop :=
  ∀ a, x = .ok a → ∃ e ∈ u, ReadOff r e (f a)

theorem ReadsOff.error {α : Type} {f : α → Answer} {e : Exn} {u : List (Event Op Resp)} :
    ReadsOff r f (.error e) u := by
  intro a ha
  cases ha

/-- The metric of a query is recorded behind it. -/
theorem labelled_readsOff {α : Type} {metricName label : String} {p : AppM α} {f : α → Answer}
    {u : List (Event Op Resp)}
    (h : (Contract.recording fun _ => True).wp p (ReadsOff r f) u) :
    (Contract.recording fun _ => True).wp (labelled metricName label p) (ReadsOff r f) u := by
  apply Contract.wp_handle.mpr
  apply Contract.wp_mono _ h
  intro x u₁ hx
  cases x with
  | error e =>
    refine ⟨trivial, ?_⟩
    intro _ u₂ hstep
    exact .error
  | ok a =>
    refine ⟨trivial, ?_⟩
    intro _ u₂ hstep
    obtain ⟨-, rfl⟩ := hstep
    intro a' ha
    obtain ⟨e, he, hread⟩ := hx a' ha
    exact ⟨e, List.mem_append_left _ he, hread⟩

theorem onWallet_readsOff {α : Type} {metricName : String} {walletId : WalletId}
    {ownerId : OwnerId} {p : Wallet → AppM α} {f : α → Answer}
    (hp : ∀ w, (Contract.recording fun _ => True).wp (p w) (ReadsOff r f)
      [⟨.readWallet walletId ownerId false, .ok (some w)⟩]) :
    (Contract.recording fun _ => True).wp (onWallet metricName walletId ownerId p)
      (ReadsOff r f) [] := by
  refine ⟨trivial, ?_⟩
  intro x u₁ hstep
  obtain ⟨-, rfl⟩ := hstep
  cases x with
  | error e =>
    refine ⟨trivial, ?_⟩
    intro _ u₂ hstep
    exact .error
  | ok found =>
    cases found with
    | none =>
      refine ⟨trivial, ?_⟩
      intro _ u₂ hstep
      exact .error
    | some w => exact labelled_readsOff (hp w)

/-- The answer of a query, from its own statements. -/
theorem query_readsOff (hquery : IsQuery r) :
    (Contract.recording fun _ => True).wp (r.program service settings) (ReadsOff r id) [] := by
  -- what is made of an answer does not matter
  have hmap : ∀ {α : Type} {p : AppM α} {f : α → Answer},
      (Contract.recording fun _ => True).wp p (ReadsOff r f) [] →
        (Contract.recording fun _ => True).wp (f <$> p) (ReadsOff r id) [] := by
    intro α p f h
    apply Contract.wp_handle.mpr
    apply Contract.wp_mono _ h
    intro x u hx
    cases x with
    | error e => exact .error
    | ok a =>
      intro a' ha
      obtain rfl := Except.ok.inj ha
      exact hx a rfl
  cases r with
  | getWallet q =>
    -- the answer is the wallet that the one statement has read
    apply hmap
    apply onWallet_readsOff
    intro w a ha
    obtain rfl := Except.ok.inj ha
    exact ⟨_, List.mem_singleton_self _, .wallet q w⟩
  | listWallets q =>
    apply hmap
    refine ⟨trivial, ?_⟩
    -- the page, and the end of the session
    intro x u₁ hstep
    obtain ⟨-, rfl⟩ := hstep
    refine ⟨trivial, ?_⟩
    intro _ u₂ hstep
    obtain ⟨-, rfl⟩ := hstep
    cases x with
    | error e => exact .error
    | ok page =>
      intro a ha
      obtain rfl := Except.ok.inj ha
      exact ⟨_, List.mem_append_left _ (List.mem_singleton_self _), .wallets q page⟩
  | listLedgerEntries q =>
    -- the wallet first, and then its entries
    apply hmap
    apply onWallet_readsOff
    intro w
    refine ⟨trivial, ?_⟩
    intro x u₁ hstep
    obtain ⟨-, rfl⟩ := hstep
    cases x with
    | error e => exact .error
    | ok page =>
      intro a ha
      obtain rfl := Except.ok.inj ha
      exact ⟨_, List.mem_append_right _ (List.mem_singleton_self _), .entries q page⟩
  | _ => exact hquery.elim

/-- A statement that a query reads its answer off sees the committed tables. -/
theorem reads_of_answers {requests : ℕ → Request} {t : List (Occurrence Op Resp)} {w w' : World}
    {g : ℕ → Call × Sight} {i : ℕ} {op : Op} {x : Resp op} {a : Answer}
    (h : Sighted requests t w g) (hopen : .closed i ∉ t)
    (hallow : (g i).1.allows service (requests i) op) (hsees : sighting.allowed (g i).2 op)
    (hans : w.Answers i op x w') (hread : ReadOff (requests i) ⟨op, x⟩ a) :
    Reads w.db (requests i) a := by
  generalize requests i = r at hallow hread
  cases hread with
  | wallet q wallet =>
    have hview := h.view hopen hallow.1
    rcases hans with ⟨hx, -⟩ | ⟨⟨e, he⟩, -⟩
    · rw [hview] at hx
      exact ⟨wallet, hx.symm, rfl⟩
    · cases eq_error_of_failure he
  | wallets q page =>
    have hview := h.view hopen (h.unwritten i hsees)
    rcases hans with ⟨hx, -⟩ | ⟨⟨e, he⟩, -⟩
    · rw [hview] at hx
      exact ⟨page, hx.symm, rfl⟩
    · cases eq_error_of_failure he
  | entries q page =>
    obtain ⟨-, wallet, hloaded, -⟩ := hallow
    have hview := h.view hopen (by rw [hloaded]; trivial)
    rcases hans with ⟨hx, -⟩ | ⟨⟨e, he⟩, -⟩
    · rw [hview] at hx
      exact ⟨page, hx.symm, rfl⟩
    · cases eq_error_of_failure he

/-- A query is answered from the committed tables, as they were at one moment between its first
    operation and its answer; and whatever had been answered before the query began has been
    done by then, in the order of the deeds. -/
theorem query_linearizes {requests : ℕ → Request} {now : Instant} {db : Database}
    {idempotency : Entries Receipt} {t₁ t₂ : List (Occurrence Op Resp)}
    {Q₁ Q₂ : Pool deployment Exn Answer} {i : ℕ} {a : Answer} (hsound : db.Sound)
    (hfirst : Pool.Run
      (arrivals service settings requests (World.start now db idempotency)) t₁ Q₁)
    (hrest : Pool.Run Q₁ t₂ Q₂) (hlate : Pool.ownEvents i t₁ = [])
    (hquery : IsQuery (requests i)) (hanswer : Q₂.clients i = .done (.ok a)) :
    ∃ u v R, t₂ = u ++ v ∧ Pool.Run Q₁ u R ∧ Pool.Run R v Q₂ ∧
      Reads R.world.db (requests i) a ∧
      ∃ (h : R.world.db.Sound) (es : List (ℕ × WalletDeed)), Linearizes (t₁ ++ u) es ∧
        (db.bank hsound).conduct moneyMaxCents (es.map Prod.snd) = some (R.world.db.bank h) ∧
        ∀ j b, Q₁.clients j = .done (.ok b) → Tallies (db.bank hsound) es j (requests j) b := by
  -- the run goes through the statement the query has its answer from
  have hbegins : Q₁.clients i = (requests i).program service settings := hfirst.waiting hlate
  have hperforms := hrest.performs i
  rw [hbegins, hanswer] at hperforms
  obtain ⟨e, he, hread⟩ := Contract.of_recording (query_readsOff hquery) hperforms
    (fun _ _ => trivial) a rfl
  obtain ⟨b, c, hown⟩ := List.append_of_mem he
  obtain ⟨u, v, R, S, rfl, -, hmid, hstep, -, hlast⟩ := hrest.of_ownEvents hown
  have hrun := hfirst.append hmid
  obtain ⟨g, hsighted, hsees⟩ := sighted_of_run hsound hrun
  obtain ⟨g', es, hinv, hwp⟩ := conducted_of_run hsound hrun
  -- at that statement, the session sees what is committed
  have hreads : Reads R.world.db (requests i) a := by
    cases hstep with
    | @answered _ op resume x w hclient hworld =>
      have hi := hsees i
      rw [hclient] at hi
      have hopen : .closed i ∉ t₁ ++ u := by
        intro hclosed
        obtain ⟨r, hr⟩ := hrun.done_of_closed hclosed
        rw [hclient] at hr
        cases hr
      have hallow : (g i).1.allows service (requests i) op := hi.1.1
      exact reads_of_answers hsighted hopen hallow hi.1.2 hworld hread
  refine ⟨u, .answered i e :: v, R, rfl, hmid, ?_, hreads, hinv.tracked.sound, es,
    hinv.linearizes, hinv.conducts, ?_⟩
  · -- the rest of the run goes on from there
    exact Pool.RunUnder.append (.snoc .nil hstep trivial) hlast
  · -- and whoever was answered before is in the history by then
    intro j b hdone
    have hj := hwp j
    rw [hmid.done hdone] at hj
    exact .of_conducted hinv hj.1 hj.2

end

/-- Whoever looks at the wallet after the deposit was answered sees it. -/
theorem query_linearizes_deposit : ∃ (R : Database) (es : List (ℕ × WalletDeed))
    (mid : WalletBank), Reads R (Sample.visitors 1) (.wallet Sample.credited) ∧
      (Sample.database.bank (Database.Sound.opened _ _ _ _ _)).conduct moneyMaxCents
        (es.map Prod.snd) = some mid ∧ 0 ∈ es.map Prod.fst := by
  obtain ⟨t, Q, out, hrun, hanswer, hfresh, -, hlate, hview, hclient⟩ := Sample.run_deposit
  have hread : (Q.world.view 1).readWallet Sample.wallet.id Sample.owner =
      .ok (some Sample.credited) := by
    rw [hview]
    rfl
  have hlook : deployment.Executes Eq 1 ((Sample.visitors 1).program {} {}) Q.world
      [⟨.readWallet Sample.wallet.id Sample.owner false, .ok (some Sample.credited)⟩,
        ⟨.observe (.interactor "get_wallet" "success"), ()⟩]
      (.ok (.wallet Sample.credited)) (Q.world.begin 1) :=
    .request rfl (.inl ⟨hread.symm, rfl⟩) (.request rfl (.inl rfl) (.done _ _))
  have h := hlook.run hclient .nil
  have hseen : Function.update Q.clients 1 (.done (.ok (.wallet Sample.credited))) 1 =
      .done (.ok (.wallet Sample.credited)) := Function.update_self ..
  obtain ⟨u, v, R, -, -, -, hreads, hsound, es, -, hconducts, htallies⟩ :=
    query_linearizes (Database.Sound.opened _ _ _ _ _) hrun h hlate trivial hseen
  refine ⟨R.world.db, es, _, hreads, hconducts, ?_⟩
  obtain ⟨m, mid, a, -, ⟨before, after, rfl, -⟩, -⟩ := (htallies 0 _ hanswer).fresh hfresh
  simp

end Evenkeel.Properties
