import Evenkeel.Application.LateErrors
import Evenkeel.Infrastructure.CommittedEntries
import Evenkeel.Infrastructure.ProperRuns
import Evenkeel.Presentation.Authentication
import Evenkeel.Presentation.Tools

/-!
# The Error Contract

What the routes declare against what the service answers, over whole runs, what the tools tell
of it, and what an answer says of the tables.
-/

namespace Evenkeel.Properties

open Evenkeel.Domain Evenkeel.Application Evenkeel.Effects Evenkeel.Infrastructure
open Evenkeel.Presentation Evenkeel.Logging Evenkeel.Python

variable {κ σ : Type}

section

variable {service : WalletMovementSettings} {settings : MoveMoneySettings}
  {requests : ℕ → Application.Request} {now : Instant} {db : Database}
  {idempotency : Entries Receipt} {t : List (Occurrence Op Resp)}
  {Q : Pool deployment Exn Answer} {Key : Type} {policy : JwksPolicy} {py : Interpreter}
  {jwt : PyJwt Key}

end

/-- A document shows nothing of an exception but what is disclosed of it, and nothing of a report
    of the validation but the places, the messages and the rules: two reports that differ in
    anything else, such as the rejected values, make one document. -/
theorem documents_publish_allowed_only (context : ProblemContext) (other : κ → String) :
    (∀ errors errors' : List (EventDict κ σ),
      List.Forall₂ (AgreeOn validationErrorFields) errors errors' →
        handleRequestValidation context other errors =
          handleRequestValidation context other errors') ∧
    (∀ errors : List (EventDict κ σ),
      ∃ shown : List (List (String × Value κ σ)),
        (handleRequestValidation context other errors).details = some (.errors shown) ∧
          List.Forall₂ (fun error published => ∀ item ∈ published,
            (item.1 ∈ validationErrorFields ∧ (Key.text item.1, item.2) ∈ error.items) ∨
              item.2 = .text redacted ∨
                item = ("...", .text (toString (error.keys.length - 20) ++ " more keys")))
            errors shown) ∧
    ∀ e e' : Exn, disclosed e = disclosed e' →
      (exnProblem context e : Option (Problem κ σ)) = exnProblem context e' := by
  refine ⟨fun _ _ => handleRequestValidation_congr, ?_, fun _ _ => exnProblem_congr⟩
  intro errors
  refine ⟨_, rfl, ?_⟩
  rw [List.forall₂_map_right_iff]
  exact List.forall₂_same.mpr fun error _ item hitem => mem_allowlisted hitem

/-- A report of a missing amount, with the input that was rejected. -/
private def missingAmount (input : Value Empty ℕ) : EventDict Empty ℕ where
  keys := [.text "type", .text "loc", .text "msg", .text "input"]
  distinct := by decide
  values k := if k.val = .text "input" then input else .text "missing"

theorem documents_publish_allowed_only_input :
    handleRequestValidation ⟨"/v1/wallets", none⟩ Empty.elim [missingAmount (.text "4111")] =
      handleRequestValidation ⟨"/v1/wallets", none⟩ Empty.elim [missingAmount (.scalar 7)] := by
  refine (documents_publish_allowed_only ⟨"/v1/wallets", none⟩ Empty.elim).1 _ _ (.cons ?_ .nil)
  apply agreeOn_of_values
  intro k s hs hallow
  have hinput : k.val ≠ .text "input" := by
    rw [hs]
    rintro ⟨⟩
    exact absurd hallow (by decide)
  simp [hinput]

/-! ## What a problem says of the tables -/

/-- Whatever the requests, their order and the proper failures of the ports: a request that is
    answered with a problem, other than an internal error, has committed nothing. The one
    exception is a lock that could not be left: its 503 may come after the commit. -/
theorem problems_change_nothing {service : WalletMovementSettings} {settings : MoveMoneySettings}
    {requests : ℕ → Application.Request} {now : Instant} {db : Database}
    {idempotency : Entries Receipt} {t : List (Occurrence Op Resp)}
    {Q : Pool deployment Exn Answer} (hfits : db.Fits)
    (hcodes : ∀ i, Coded db.letters (requests i))
    (hrun : Pool.RunUnder FailsProperly
      (arrivals service settings requests (World.start now db idempotency)) t Q)
    (context : ProblemContext) (principal : Principal) (operation : Operation) {i : ℕ}
    {result : Except Exn Answer} {status : ℕ} {document : Problem κ σ}
    (hdone : Q.clients i = .done result)
    (hresponse : respond context principal operation result = some ⟨status, .problem document⟩)
    (hexpected : status ≠ 500) :
    (∀ commit ∈ Q.world.commits, commit.1 ≠ i) ∨
      (status = 503 ∧ ∃ key e, ⟨.exitLock key, .error e⟩ ∈ Pool.ownEvents i t) := by
  by_cases hcommitting : Committing (Pool.ownEvents i t)
  · -- behind the commit there is only the exit of the lock to be told of
    right
    cases result with
    | ok a => cases hresponse
    | error e =>
      have hperforms := hrun.performs i
      rw [hdone] at hperforms
      have hsettled := Contract.of_recording (Request.settled service settings (requests i))
        hperforms (proper_of_run hfits hcodes hrun)
      obtain ⟨p, hp, hshown⟩ := Option.map_eq_some_iff.mp hresponse
      obtain ⟨rfl, -⟩ := Response.mk.inj hshown
      -- either it is a 500, or the lock would not open
      rcases hsettled hcommitting e rfl with hunforeseen | ⟨hstuck, hunavailable⟩
      · rcases problem_of_covers hunforeseen hp with hinternal | hnone
        · exact absurd (congrArg Prod.fst hinternal) hexpected
        · cases hnone
      · rcases problem_of_covers hunavailable hp with hinternal | hproblem
        · exact absurd (congrArg Prod.fst hinternal) hexpected
        · exact ⟨congrArg Prod.fst (List.mem_singleton.mp hproblem), hstuck⟩
  · left
    -- whoever has committed has performed a commit
    rintro commit hcommit rfl
    exact hcommitting (performed_of_run hrun commit hcommit)

/-- Redis fails while the lock of a deposit is left: the money has moved, and the client is
    told 503. -/
theorem problems_change_nothing_stuck : ∃ (t : List (Occurrence Op Resp))
    (Q : Pool deployment Exn Answer) (tx : Transaction) (e : ApplicationError),
    Pool.RunUnder FailsProperly
      (arrivals {} {} (fun _ => .apply (Sample.deposit none))
        (World.start 0 Sample.database fun _ => none)) t Q ∧
      Q.clients 0 = .done (.error (.application e)) ∧ e.statusCode = 503 ∧
      Q.world.commits = [(0, tx)] ∧ ∃ key e, ⟨.exitLock key, .error e⟩ ∈ Pool.ownEvents 0 t := by
  have h := Pool.RunUnder.nil (G := FailsProperly)
    (P := arrivals {} {} (fun _ => .apply (Sample.deposit none))
      (World.start 0 Sample.database fun _ => none))
  have h := h.answer 0 rfl (.ok true) _ (.inl (.inl ⟨rfl, rfl⟩)) (.inr nofun)
  have h := h.answer 0 rfl () _ (.inl rfl) (.inr nofun)
  have h := h.answer 0 rfl (.ok (some Sample.wallet)) _ (.inl ⟨rfl, rfl⟩) (.inr nofun)
  have h := h.answer 0 rfl (0 : ℤ) _ (.inl rfl) (.inr nofun)
  have h := h.answer 0 rfl Sample.minted _ (.inl rfl) (.inr nofun)
  have h := h.answer 0 rfl (.ok ()) _ (.inl ⟨rfl, World.newEntryId_of_blank
    (by rintro row ⟨⟩) (by rintro (_ | j) <;> rfl), rfl⟩) (.inr nofun)
  have h := h.answer 0 rfl (.ok true) _ (.inl (.inl ⟨rfl, World.free_of_blank
    (by rintro (_ | j) hj; exacts [absurd rfl hj, rfl]), .ofWallet Sample.wallet,
    List.mem_singleton_self _, ⟨rfl, rfl⟩, rfl⟩)) (.inr nofun)
  have h := h.answer 0 rfl (.ok ()) _ (.inl ⟨rfl, rfl⟩) (.inr nofun)
  -- the deposit is committed, and the lock cannot be left
  have h := h.answer 0 rfl (.error (dependencyUnavailable "redis" "lock.release")) _
    (.inr ⟨⟨_, rfl⟩, .inl rfl⟩) (.inr ?_)
  · have hfits : Sample.database.Fits := by
      refine ⟨?_, fun e he => by cases he⟩
      intro row hrow
      obtain rfl := List.mem_singleton.mp hrow
      exact WalletRow.ofWallet_fits (w := Sample.wallet) (by decide) 0
    have hproblem := problems_change_nothing (κ := ℕ) (σ := ℕ) hfits (fun _ => by trivial) h
      ⟨"/v1/wallets", none⟩ ⟨Sample.owner⟩ (.getWallet Sample.minted) (i := 0) rfl rfl (by decide)
    refine ⟨_, _, _, _, h, rfl, rfl, rfl, ?_⟩
    rcases hproblem with hnothing | ⟨-, hstuck⟩
    · exact absurd rfl (hnothing _ (List.mem_singleton_self _))
    · exact hstuck
  · intro e he
    obtain rfl := Except.error.inj (Option.some.inj he)
    exact .inl ⟨trivial, rfl, rfl⟩

end Evenkeel.Properties
