import Evenkeel.Application.Protocol
import Evenkeel.Application.ServiceOperations

/-!
# What a Request Has Seen

Whatever a request answers with, a wallet or an entry or only the id of one, it has read under
its owner's id, or written and committed itself.

- `Sight`: the wallets and entries a request was shown
- `Session.Pends`: what of it is not committed yet
- `Answer.walletIds`, `Answer.entryIds`: the wallets and entries an answer tells of
- `sighting`: the contract made of them

## Key Results

- `Request.tells_sighted`: every request answers with what it has seen
-/

namespace Evenkeel.Application

open Evenkeel.Domain Evenkeel.Effects

/-! ## Sights -/

/-- The wallets and entries a request was shown or has committed, and those it has written and
    not committed yet. -/
structure Sight where
  wallets : List WalletId := []
  entries : List LedgerEntryId := []
  newWallets : List WalletId := []
  newEntries : List LedgerEntryId := []
  wrote : Bool := false

def Sight.next (s : Sight) : (op : Op) → Resp op → Sight
  | .readWallet .., .ok (some w) => { s with wallets := w.id :: s.wallets }
  | .listByOwner .., .ok page => { s with wallets := page.items.map (·.id) ++ s.wallets }
  | .readEntry .., .ok (some e) =>
      { s with wallets := e.walletId :: s.wallets, entries := e.id :: s.entries }
  | .listByWallet .., .ok page =>
      { s with
        wallets := page.items.map (·.walletId) ++ s.wallets
        entries := page.items.map (·.id) ++ s.entries }
  | .addWallet w, .ok _ => { s with newWallets := w.id :: s.newWallets, wrote := true }
  | .addWallet _, .error _ => { s with wrote := true }
  | .addEntry e, .ok _ => { s with newEntries := e.id :: s.newEntries, wrote := true }
  | .addEntry _, .error _ => { s with wrote := true }
  | .updateWallet .., _ => { s with wrote := true }
  | .commit, .ok _ => ⟨s.newWallets ++ s.wallets, s.newEntries ++ s.entries, [], [], true⟩
  | .commit, .error _ => ⟨s.wallets, s.entries, [], [], true⟩
  | .rollback, _ => ⟨s.wallets, s.entries, [], [], true⟩
  | _, _ => s

/-- What was written and not committed is what the session holds. -/
def Session.Pends (s : Sight) : Session → Prop
  | .opened w => s.newWallets = [w.id] ∧ s.newEntries = []
  | .recorded _ e => s.newWallets = [] ∧ s.newEntries = [e.id]
  | .updated _ _ e => s.newWallets = [] ∧ s.newEntries = [e.id]
  | .spoiled => True
  | _ => s.newWallets = [] ∧ s.newEntries = []

/-- The contract that keeps account of it. A page of wallets is asked for before anything is
    written. -/
def sighting : Contract Op Resp :=
  .tracking (fun _ => True) (fun (s : Sight) event => s.next event.1 event.2) fun s op =>
    match op with
    | .listByOwner .. => s.wrote = false
    | _ => True

/-- The wallets that an answer tells of. -/
def Answer.walletIds : Answer → List WalletId
  | .opened result => [result.walletId]
  | .moved result => [result.walletId]
  | .applied outcome => [outcome.wallet.id, outcome.entry.walletId]
  | .wallet w => [w.id]
  | .wallets page => page.items.map (·.id)
  | .entries page => page.items.map (·.walletId)

/-- The entries that an answer tells of. -/
def Answer.entryIds : Answer → List LedgerEntryId
  | .opened _ => []
  | .moved result => [result.entryId]
  | .applied outcome => [outcome.entry.id]
  | .wallet _ => []
  | .wallets _ => []
  | .entries page => page.items.map (·.id)

/-- The wallets that an answer holds whole. -/
def Answer.heldWallets : Answer → List Wallet
  | .applied outcome => [outcome.wallet]
  | .wallet w => [w]
  | .wallets page => page.items
  | _ => []

/-- They are the owner's. -/
theorem Request.Says.heldWallets {r : Request} {s : Call} {a : Answer} (h : r.Says s a) :
    ∀ w ∈ a.heldWallets, w.ownerId = r.ownerId := by
  intro w hw
  cases a with
  | applied outcome =>
    obtain rfl := List.mem_singleton.mp hw
    obtain ⟨m, hm, hreports⟩ := h
    rw [hreports.ownerId, Request.ownerId_of_movement hm]
  | wallet w' =>
    obtain rfl := List.mem_singleton.mp hw
    exact h.2
  | wallets page => exact h.2 w hw
  | _ => cases hw

/-- An answer tells of nothing else. -/
def Tells (x : Except Exn Answer) (s : Sight) : Prop :=
  ∀ a, x = .ok a → a.walletIds ⊆ s.wallets ∧ a.entryIds ⊆ s.entries

/-- A write that was answered with success is the session's, and no other is pending. -/
theorem Session.Pends.next {service : WalletMovementSettings} {r : Request} {c : Call} {s : Sight}
    {op : Op} (h : c.session.Pends s) (hallow : c.allows service r op) (x : Resp op) :
    (c.session.next op x).Pends (s.next op x) := by
  -- a clean session has nothing pending
  have hclean : c.session.Clean → s.newWallets = [] ∧ s.newEntries = [] := by
    intro hclean
    cases hs : c.session with
    | idle => rwa [hs] at h
    | loaded w => rwa [hs] at h
    | _ =>
      rw [hs] at hclean
      exact hclean.elim
  cases op with
  | readWallet id o f =>
    rcases x with e | (_ | w)
    · exact h
    · exact hclean hallow.1
    · exact hclean hallow.1
  | listByOwner o limit cursor => cases x <;> exact h
  | readEntry id o => rcases x with e | (_ | w) <;> exact h
  | listByWallet id o limit cursor => cases x <;> exact h
  | addWallet w =>
    -- the write is the first of its session, so it pends alone
    cases x with
    | error e => trivial
    | ok _ =>
      have hblank := hclean (by rw [hallow.2.1]; trivial)
      exact ⟨by rw [Sight.next, hblank.1], hblank.2⟩
  | addEntry e =>
    cases x with
    | error e => trivial
    | ok _ =>
      -- the session has only loaded its wallet, so the entry pends alone
      obtain ⟨m, w, w', -, hloaded, -⟩ := hallow
      have hblank := hclean (by rw [hloaded]; trivial)
      rw [hloaded]
      exact ⟨hblank.1, by rw [Sight.next, hblank.2]⟩
  | updateWallet w' v =>
    rcases x with e | (_ | _)
    · trivial
    · trivial
    · -- the update adds no row
      obtain ⟨m, w, e, -, hrecorded, -⟩ := hallow
      rw [hrecorded] at h ⊢
      exact h
  | commit =>
    cases x with
    | error e => trivial
    | ok _ =>
      -- what was pending is in sight now
      obtain ⟨hready, -⟩ := hallow
      cases hs : c.session with
      | updated => exact ⟨rfl, rfl⟩
      | opened => exact ⟨rfl, rfl⟩
      | _ =>
        rw [hs] at hready
        exact hready.elim
  | rollback =>
    -- and here it is gone
    cases x with
    | error e => trivial
    | ok _ => exact ⟨rfl, rfl⟩
  | _ => exact h

/-- Whoever has not begun to write is still reading. -/
theorem Session.clean_next {c : Session} {s : Sight} {op : Op} {x : Resp op}
    (h : s.wrote = false → c.Clean) (hwrote : (s.next op x).wrote = false) :
    (c.next op x).Clean := by
  cases op with
  | readWallet id o f =>
    rcases x with e | (_ | w)
    · exact h hwrote
    · trivial
    · trivial
  | listByOwner o limit cursor => cases x <;> exact h hwrote
  | readEntry id o => rcases x with e | (_ | w) <;> exact h hwrote
  | listByWallet id o limit cursor => cases x <;> exact h hwrote
  | addWallet w => cases x <;> cases hwrote
  | addEntry e => cases x <;> cases hwrote
  | updateWallet w v => rcases x with e | (_ | _) <;> cases hwrote
  | commit => cases x <;> cases hwrote
  | rollback => cases x <;> cases hwrote
  | _ => exact h hwrote

/-! ## A movement -/

/-- The request has seen what the outcome tells of. -/
structure Shown (out : MovementOutcome) (s : Sight) : Prop where
  wallet : out.wallet.id ∈ s.wallets
  entryWallet : out.entry.walletId ∈ s.wallets
  entry : out.entry.id ∈ s.entries

/-- Only an outcome has to have been seen. -/
def Shows (x : Except Exn MovementOutcome) (s : Sight) : Prop := ∀ out, x = .ok out → Shown out s

theorem shows_error (e : Exn) (s : Sight) : Shows (.error e) s := by
  intro out hout
  cases hout

/-- What a request has seen, it has seen. -/
theorem Sight.subset_next (s : Sight) (op : Op) (x : Resp op) :
    s.wallets ⊆ (s.next op x).wallets ∧ s.entries ⊆ (s.next op x).entries := by
  unfold Sight.next
  split
  all_goals
    constructor
    · first
        | exact List.Subset.refl _
        | exact List.subset_cons_self _ _
        | exact List.subset_append_right _ _
    · first
        | exact List.Subset.refl _
        | exact List.subset_cons_self _ _
        | exact List.subset_append_right _ _

theorem Shown.next {out : MovementOutcome} {s : Sight} (h : Shown out s) (op : Op) (x : Resp op) :
    Shown out (s.next op x) := by
  obtain ⟨hwallets, hentries⟩ := s.subset_next op x
  exact ⟨hwallets h.wallet, hwallets h.entryWallet, hentries h.entry⟩

theorem permits_shown (out : MovementOutcome) (op : Op)
    (hop : ∀ o limit cursor, op ≠ .listByOwner o limit cursor) :
    Permits sighting (Shown out) (fun _ => True) op := by
  intro s hs
  constructor
  · cases op with
    | listByOwner o limit cursor => exact absurd rfl (hop o limit cursor)
    | _ => trivial
  · intro x s' hstep
    obtain ⟨-, rfl⟩ := hstep
    exact ⟨hs.next op x, fun _ _ => trivial⟩

section

variable {service : WalletMovementSettings} {m : MovementRequest} {s : Sight}

/-- A refusal tells of nothing. -/
theorem refuseWith_shows (e : Exn) : sighting.wp (refuseWith m e) Shows s := by
  unfold refuseWith
  refine ⟨trivial, ?_⟩
  intro x s₁ _
  cases x with
  | error e' => exact shows_error e' s₁
  | ok _ =>
    simp only [Program.handle_done, Program.onValue_ok, release]
    split
    · exact shows_error e s₁
    · refine ⟨trivial, ?_⟩
      intro x s₂ _
      cases x with
      | error e' => exact shows_error e' s₂
      | ok _ => exact shows_error e s₂

theorem write_shows {w : Wallet} {version : ℤ} {b : Money} {now : Datetime}
    (hw : w.id ∈ s.wallets) : sighting.wp (write service m version w b now) Shows s := by
  unfold write
  -- `uuid7`
  refine ⟨trivial, ?_⟩
  intro (id : UUID) s₁ hstep
  obtain ⟨-, rfl⟩ := hstep
  -- `ledger.add`
  refine ⟨trivial, ?_⟩
  intro x s₂ hstep
  obtain ⟨-, rfl⟩ := hstep
  cases x with
  | error e => exact shows_error e _
  | ok _ =>
    -- `wallets.update`
    refine ⟨trivial, ?_⟩
    intro x s₃ hstep
    obtain ⟨-, rfl⟩ := hstep
    cases x with
    | error e => exact shows_error e _
    | ok updated =>
      cases updated with
      | false => exact refuseWith_shows _
      | true =>
        -- `uow.commit` brings the new entry into sight
        refine ⟨trivial, ?_⟩
        intro x s₄ hstep
        obtain ⟨-, rfl⟩ := hstep
        cases x with
        | error e => exact shows_error e _
        | ok _ =>
          -- the entry is committed, and the confirmation takes nothing back
          set entry := LedgerEntry.record ⟨id⟩ w.id m.direction m.amount b m.description now
          have hshown : Shown ⟨w, entry, false, w.balance⟩
              (((s₁.next (.addEntry entry) (.ok ())).next
                (.updateWallet w version) (.ok true)).next .commit (.ok ())) :=
            ⟨List.mem_append_right _ hw, List.mem_append_right _ hw,
              List.mem_append_left _ List.mem_cons_self⟩
          have hkeeps := confirm_keeps service m (fun op hop => permits_shown _ op (by
            rintro o limit cursor rfl
            exact hop)) w entry _ hshown
          show sighting.wp (confirm service m w entry >>= fun _ => _) Shows _
          apply Contract.wp_bind.mpr
          apply Contract.wp_mono _ hkeeps
          intro r s₅ hr
          cases r with
          | error e => exact shows_error e s₅
          | ok _ =>
            intro out hout
            obtain rfl := Except.ok.inj hout
            exact hr.1

theorem applyLocked_shows : sighting.wp (applyLocked service m) Shows s := by
  unfold applyLocked
  -- the wallet is in sight from the read on
  refine ⟨trivial, ?_⟩
  intro x s₁ hstep
  obtain ⟨-, rfl⟩ := hstep
  cases x with
  | error e => exact shows_error e _
  | ok found =>
    cases found with
    | none => exact refuseWith_shows _
    | some wallet =>
      -- the clock
      refine ⟨trivial, ?_⟩
      intro (now : Datetime) s₂ hstep
      obtain ⟨-, rfl⟩ := hstep
      simp only [Program.handle_done, Program.onValue_ok]
      split
      · -- the domain moves a wallet, it does not rename it
        rename_i moved balance hmove
        obtain ⟨hmoved, -⟩ := move_ok hmove
        apply write_shows
        rw [hmoved.id]
        exact List.mem_cons_self
      · exact refuseWith_shows _
      · exact shows_error _ _

/-- The `async with` of `apply`: leaving the lock takes nothing back. -/
theorem locked_shows : sighting.wp (Program.withContext
      (Ports.enterLock (lockKey m.walletId) service.lockTtlMs service.lockWaitMs)
      (Ports.exitLock (lockKey m.walletId)) (withLock service m)) Shows s := by
  -- the lock shows nothing
  refine ⟨trivial, ?_⟩
  intro x s₁ hstep
  obtain ⟨-, rfl⟩ := hstep
  cases x with
  | error e => exact shows_error e _
  | ok acquired =>
    have hbody : ∀ s, sighting.wp (withLock service m acquired) Shows s := by
      intro s
      refine ⟨trivial, ?_⟩
      intro _ s₂ _
      cases acquired with
      | true => exact applyLocked_shows
      | false => exact refuseWith_shows _
    show sighting.wp ((withLock service m acquired).tryFinally _) Shows _
    apply Contract.wp_handle.mpr
    apply Contract.wp_mono _ (hbody _)
    intro r s₂ hr
    refine ⟨trivial, ?_⟩
    intro left s₃ hstep
    obtain ⟨-, rfl⟩ := hstep
    cases left with
    | error e => exact shows_error e _
    | ok _ =>
      intro out hout
      exact hr out hout

/-- Only an outcome that is replayed has to have been seen. -/
def Recounts (x : Except Exn (Option MovementOutcome)) (s : Sight) : Prop :=
  ∀ out, x = .ok (some out) → Shown out s

theorem recounts_nothing {x : Except Exn (Option MovementOutcome)} {s : Sight}
    (h : ∀ out, x ≠ .ok (some out)) : Recounts x s := by
  intro out hout
  exact absurd hout (h out)

theorem replay_recounts (record : IdempotencyRecord Receipt) :
    sighting.wp (replay m record) Recounts s := by
  unfold replay
  -- the entry
  refine ⟨trivial, ?_⟩
  intro entry s₁ hstep
  obtain ⟨-, rfl⟩ := hstep
  cases entry with
  | error e => exact recounts_nothing (by simp)
  | ok entry =>
    -- the wallet
    refine ⟨trivial, ?_⟩
    intro wallet s₂ hstep
    obtain ⟨-, rfl⟩ := hstep
    cases wallet with
    | error e => exact recounts_nothing (by simp)
    | ok wallet =>
      simp only [Program.handle_done, Program.onValue_ok]
      split
      · rename_i entry wallet _ _
        refine ⟨trivial, ?_⟩
        intro x s₃ hstep
        obtain ⟨-, rfl⟩ := hstep
        cases x with
        | error e => exact recounts_nothing (by simp)
        | ok _ =>
          intro out hout
          obtain rfl := Option.some.inj (Except.ok.inj hout)
          -- both rows were read, and the rollback takes nothing back
          exact ⟨List.mem_cons_self, List.mem_cons_of_mem _ List.mem_cons_self,
            List.mem_cons_self⟩
      · -- one of the two is gone: nothing is told
        exact recounts_nothing (by simp)

theorem claim_recounts : sighting.wp (claim service m) Recounts s := by
  unfold claim
  split
  · exact recounts_nothing (by simp)
  · refine ⟨trivial, ?_⟩
    intro x s₁ hstep
    obtain ⟨-, rfl⟩ := hstep
    cases x with
    | error e => exact recounts_nothing (by simp)
    | ok reservation =>
      simp only [Program.handle_done, Program.onValue_ok]
      split
      · exact recounts_nothing (by simp)
      · split
        · exact recounts_nothing (by simp)
        · exact recounts_nothing (by simp)
        · exact recounts_nothing (by simp)
        · exact replay_recounts _

theorem apply_shows : sighting.wp (apply service m) Shows s := by
  unfold apply
  apply Contract.wp_bind.mpr
  apply Contract.wp_mono _ claim_recounts
  intro r s₁ hr
  cases r with
  | error e => exact shows_error e s₁
  | ok replayed =>
    cases replayed with
    | none => exact locked_shows
    | some out =>
      intro out' hout
      obtain rfl := Except.ok.inj hout
      exact hr _ rfl

/-- What a movement passes on. -/
def Passes (x : Except Exn MovementResult) (s : Sight) : Prop :=
  ∀ result, x = .ok result → result.walletId ∈ s.wallets ∧ result.entryId ∈ s.entries

theorem passes_error (e : Exn) (s : Sight) : Passes (.error e) s := by
  intro result hresult
  cases hresult

theorem limited_sighting (settings : MoveMoneySettings) (metricName : String) :
    sighting.wp (limited settings metricName m) (fun _ _ => True) s := by
  unfold limited
  split
  · refine ⟨trivial, ?_⟩
    intro x s₁ _
    cases x with
    | error e => trivial
    | ok decision =>
      refine ⟨trivial, ?_⟩
      intro _ s₂ _
      simp only [Program.handle_done, Program.onValue_ok]
      split
      · trivial
      · trivial
  · trivial

theorem attempt_passes (settings : MoveMoneySettings) (metricName : String) :
    sighting.wp (attempt service settings metricName m)
      (fun x s' => ∀ label result, x = .ok (label, result) → Passes result s') s := by
  unfold attempt
  apply Contract.wp_bind.mpr
  apply Contract.wp_mono _ (limited_sighting settings metricName)
  intro r s₁ _
  cases r with
  | error e => exact fun _ _ h => nomatch h
  | ok refusal =>
    cases refusal with
    | some refusal =>
      intro label result h
      cases h
      exact passes_error _ _
    | none =>
      -- the assessment
      refine ⟨trivial, ?_⟩
      intro x s₂ _
      cases x with
      | error e => exact fun _ _ h => nomatch h
      | ok decision =>
        simp only [Program.handle_done, Program.onValue_ok]
        split
        · -- refused
          intro label result h
          cases h
          exact passes_error _ _
        · split
          · -- unavailable
            intro label result h
            cases h
            exact passes_error _ _
          · -- the outcome of the service is passed on
            apply Contract.wp_bind.mpr
            apply Contract.wp_mono _ apply_shows
            intro r s₃ hr
            cases r with
            | error e => exact fun _ _ h => nomatch h
            | ok out =>
              intro label result h
              cases h
              intro result hresult
              obtain rfl := Except.ok.inj hresult
              exact ⟨(hr out rfl).wallet, (hr out rfl).entry⟩

theorem run_passes (settings : MoveMoneySettings) (metricName : String) :
    sighting.wp (run service settings metricName m) Passes s := by
  apply Contract.wp_handle.mpr
  apply Contract.wp_mono _ (attempt_passes settings metricName)
  intro r s₁ hr
  cases r with
  | error e =>
    refine ⟨trivial, ?_⟩
    intro _ s₂ _
    exact passes_error e s₂
  | ok labelled =>
    obtain ⟨label, result⟩ := labelled
    refine ⟨trivial, ?_⟩
    intro _ s₂ hstep
    obtain ⟨-, rfl⟩ := hstep
    exact hr label result rfl

end

/-! ## Every use case -/

section

variable {α β : Type} {Q : Except Exn α → Sight → Prop} {s : Sight}

theorem labelled_sighting {metricName label : String} {p : AppM α} (h : sighting.wp p Q s) :
    sighting.wp (labelled metricName label p) Q s := by
  apply Contract.wp_handle.mpr
  apply Contract.wp_mono _ h
  intro r s₁ hr
  cases r with
  | error e =>
    refine ⟨trivial, ?_⟩
    intro _ s₂ hstep
    obtain ⟨-, rfl⟩ := hstep
    exact hr
  | ok a =>
    refine ⟨trivial, ?_⟩
    intro _ s₂ hstep
    obtain ⟨-, rfl⟩ := hstep
    exact hr

theorem onWallet_sighting {metricName : String} {walletId : WalletId} {ownerId : OwnerId}
    {p : Wallet → AppM α} (hQ : ∀ e s', Q (.error e) s')
    (hp : ∀ w s', w.id ∈ s'.wallets → sighting.wp (p w) Q s') :
    sighting.wp (onWallet metricName walletId ownerId p) Q s := by
  refine ⟨trivial, ?_⟩
  intro x s₁ hstep
  obtain ⟨-, rfl⟩ := hstep
  cases x with
  | error e =>
    refine ⟨trivial, ?_⟩
    intro _ s₂ _
    exact hQ e s₂
  | ok found =>
    cases found with
    | none =>
      refine ⟨trivial, ?_⟩
      intro _ s₂ _
      exact hQ _ s₂
    | some w => exact labelled_sighting (hp w _ List.mem_cons_self)

theorem one_seen {γ : Type} {a : γ} {l : List γ} (h : a ∈ l) : [a] ⊆ l :=
  List.cons_subset.mpr ⟨h, List.nil_subset l⟩

/-- What a use case returns, as the answer to its request. -/
theorem answer_tells {p : AppM β} {f : β → Answer}
    (h : sighting.wp p (fun x s' => ∀ b, x = .ok b →
      (f b).walletIds ⊆ s'.wallets ∧ (f b).entryIds ⊆ s'.entries) s) :
    sighting.wp (f <$> p) Tells s := by
  apply Contract.wp_handle.mpr
  apply Contract.wp_mono _ h
  intro x s₁ hx
  cases x with
  | error e =>
    intro a ha
    cases ha
  | ok b =>
    intro a ha
    obtain rfl := Except.ok.inj ha
    exact hx b rfl

theorem openWallet_sighting (c : OpenWalletCommand) : sighting.wp (openWallet c)
    (fun x s' => ∀ result, x = .ok result → result.walletId ∈ s'.wallets) s := by
  apply labelled_sighting
  -- `uuid7`
  refine ⟨trivial, ?_⟩
  intro (id : UUID) s₁ _
  -- the clock
  refine ⟨trivial, ?_⟩
  intro (now : Datetime) s₂ _
  -- `wallets.add`: the wallet pends
  refine ⟨trivial, ?_⟩
  intro x s₃ hstep
  obtain ⟨-, rfl⟩ := hstep
  cases x with
  | error e => exact fun _ h => nomatch h
  | ok _ =>
    -- `uow.commit`
    refine ⟨trivial, ?_⟩
    intro x s₄ hstep
    obtain ⟨-, rfl⟩ := hstep
    cases x with
    | error e => exact fun _ h => nomatch h
    | ok _ =>
      intro result h
      obtain rfl := Except.ok.inj h
      exact List.mem_cons_self

/-- Whatever it is asked for, and whatever the ports answer. -/
theorem Request.tells_sighted (service : WalletMovementSettings) (settings : MoveMoneySettings)
    (r : Request) : sighting.wp (r.program service settings) Tells {} := by
  -- a movement tells of one wallet and one entry
  have hmoved : ∀ (metricName : String) (m : MovementRequest),
      sighting.wp (Answer.moved <$> run service settings metricName m) Tells {} := by
    intro metricName m
    apply answer_tells
    apply Contract.wp_mono _ (run_passes settings metricName)
    intro x s hx result hresult
    obtain ⟨hwallet, hentry⟩ := hx result hresult
    exact ⟨one_seen hwallet, one_seen hentry⟩
  cases r with
  | openWallet c =>
    apply answer_tells
    apply Contract.wp_mono _ (openWallet_sighting c)
    intro x s hx result hresult
    exact ⟨one_seen (hx result hresult), List.nil_subset _⟩
  | deposit c => exact hmoved _ _
  | withdraw c => exact hmoved _ _
  | apply m =>
    apply answer_tells
    apply Contract.wp_mono _ apply_shows
    intro x s hx out hout
    -- the outcome names the wallet twice, once as the entry's
    obtain ⟨hwallet, hentryWallet, hentry⟩ := hx out hout
    refine ⟨?_, one_seen hentry⟩
    exact List.cons_subset.mpr ⟨hwallet, one_seen hentryWallet⟩
  | getWallet q =>
    apply answer_tells
    apply onWallet_sighting
    · exact fun _ _ _ h => nomatch h
    · -- what was read is told
      intro w s hw b hb
      obtain rfl := Except.ok.inj hb
      exact ⟨one_seen hw, List.nil_subset _⟩
  | listWallets q =>
    apply answer_tells
    refine ⟨rfl, ?_⟩
    intro x s₁ hstep
    obtain ⟨-, rfl⟩ := hstep
    cases x with
    | error e =>
      refine ⟨trivial, ?_⟩
      intro _ s₂ _
      exact fun _ h => nomatch h
    | ok page =>
      refine ⟨trivial, ?_⟩
      intro _ s₂ hstep
      obtain ⟨-, rfl⟩ := hstep
      intro b hb
      obtain rfl := Except.ok.inj hb
      exact ⟨List.subset_append_left _ _, List.nil_subset _⟩
  | listLedgerEntries q =>
    apply answer_tells
    apply onWallet_sighting
    · exact fun _ _ _ h => nomatch h
    · -- each entry on the page brings its wallet with it
      intro w s _
      refine ⟨trivial, ?_⟩
      intro x s₁ hstep
      obtain ⟨-, rfl⟩ := hstep
      cases x with
      | error e => exact fun _ h => nomatch h
      | ok page =>
        intro b hb
        obtain rfl := Except.ok.inj hb
        exact ⟨List.subset_append_left _ _, List.subset_append_left _ _⟩

end

end Evenkeel.Application
