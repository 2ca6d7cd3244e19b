import Evenkeel.Application.RefusedRequests

/-!
# Late Errors

What a request can still raise once it has asked for its commit. Nothing that a client is told
of comes that late, but for the failure of a lock that is being left.

- `Committing`, `Stuck`: what the operations of a request show
- `Settled`: what its end then is

## Key Results

- `Request.settled`: every request ends so
-/

namespace Evenkeel.Application

open Evenkeel.Domain Evenkeel.Effects

/-! ## Histories -/

/-- A commit was asked for, whatever became of it. -/
def Committing (t : List (Event Op Resp)) : Prop := ∃ x, ⟨.commit, x⟩ ∈ t

/-- The exit of a lock raised. -/
def Stuck (t : List (Event Op Resp)) : Prop := ∃ key e, ⟨.exitLock key, .error e⟩ ∈ t

/-- The exception is none that a client is told of. -/
def Unforeseen (e : Exn) : Prop := Refusals.Covers {} e

/-- What a service that cannot be reached is told with. -/
def unavailableRefusals : Refusals where
  application := [(.dependencyUnavailable, .dependencyUnavailable)]

/-- How a request may end after a commit. -/
def Settled {α : Type} (r : Except Exn α) (t : List (Event Op Resp)) : Prop :=
  Committing t → ∀ e, r = .error e → Unforeseen e ∨ (Stuck t ∧ unavailableRefusals.Covers e)

theorem committing_snoc {t : List (Event Op Resp)} {op : Op} {x : Resp op} (hop : op ≠ .commit) :
    Committing (t ++ [⟨op, x⟩]) ↔ Committing t := by
  constructor
  · rintro ⟨y, hy⟩
    rcases List.mem_append.mp hy with hold | hnew
    · exact ⟨y, hold⟩
    · have hsame : Op.commit = op := congrArg Sigma.fst (List.mem_singleton.mp hnew)
      exact absurd hsame.symm hop
  · rintro ⟨y, hy⟩
    exact ⟨y, List.mem_append_left _ hy⟩

theorem Stuck.append {t : List (Event Op Resp)} (h : Stuck t) (u : List (Event Op Resp)) :
    Stuck (t ++ u) := by
  obtain ⟨key, e, he⟩ := h
  exact ⟨key, e, List.mem_append_left _ he⟩

namespace Settled

variable {α : Type} {r : Except Exn α} {t : List (Event Op Resp)}

theorem ok (a : α) : Settled (.ok a) t := by
  intro _ e he
  cases he

theorem of_not (h : ¬Committing t) : Settled r t := fun hcommitting => absurd hcommitting h

/-- An exception goes through the types of the results. -/
theorem error {β : Type} {e : Exn} (h : Settled (.error e : Except Exn α) t) :
    Settled (.error e : Except Exn β) t := by
  intro hcommitting e' he
  obtain rfl := Except.error.inj he
  exact h hcommitting e rfl

/-- An operation after the end changes nothing about it. -/
theorem snoc {op : Op} {x : Resp op} (h : Settled r t) (hop : op ≠ .commit) :
    Settled r (t ++ [⟨op, x⟩]) := by
  intro hcommitting e he
  rcases h ((committing_snoc hop).mp hcommitting) e he with hunforeseen | ⟨hstuck, houtage⟩
  · exact .inl hunforeseen
  · exact .inr ⟨hstuck.append _, houtage⟩

end Settled

/-! ## Before the commit -/

section

variable {α β : Type} {t : List (Event Op Resp)}

/-- A part of a request that never commits. -/
abbrev Uncommitting (p : AppM α) : Prop := faulty.Keeps (¬Committing ·) (fun _ => True) p

theorem permits_uncommitting (op : Op) (hop : op ≠ .commit) :
    Permits faulty (¬Committing ·) (fun _ => True) op := by
  intro s hs
  refine ⟨trivial, fun x s' hx => ?_⟩
  obtain ⟨-, rfl⟩ := hx
  exact ⟨fun hcommitting => hs ((committing_snoc hop).mp hcommitting), fun _ _ => trivial⟩

/-- What comes before a commit cannot be late. -/
theorem wp_bind_of_uncommitting {p : AppM α} {f : α → AppM β}
    {Q : Except Exn β → List (Event Op Resp) → Prop} (ht : ¬Committing t) (hp : Uncommitting p)
    (hf : ∀ a t', ¬Committing t' → faulty.wp (f a) Q t')
    (herror : ∀ e t', ¬Committing t' → Q (.error e) t') : faulty.wp (p >>= f) Q t := by
  refine Contract.wp_bind.mpr (Contract.wp_mono ?_ (hp t ht))
  intro r t' hr
  cases r with
  | ok a => exact hf a t' hr.1
  | error e => exact herror e t' hr.1

theorem settled_bind {p : AppM α} {f : α → AppM β} (ht : ¬Committing t) (hp : Uncommitting p)
    (hf : ∀ a t', ¬Committing t' → faulty.wp (f a) Settled t') :
    faulty.wp (p >>= f) Settled t :=
  wp_bind_of_uncommitting ht hp hf fun _ _ => .of_not

theorem settled_of_uncommitting {p : AppM α} (ht : ¬Committing t) (hp : Uncommitting p) :
    faulty.wp p Settled t :=
  Contract.wp_mono (fun _ _ hr => .of_not hr.1) (hp t ht)

theorem refuseWith_uncommitting {m : MovementRequest} {e : Exn} :
    Uncommitting (refuseWith m e : AppM α) := by
  apply Contract.keeps_bind
  · exact (permits_uncommitting .rollback nofun).keeps fun | _, _, rfl => rfl
  · intro _
    apply Contract.keeps_bind
    · unfold release
      split
      · exact Contract.keeps_ok _
      · exact (permits_uncommitting (.release _) nofun).keeps fun | _, _, rfl => rfl
    · exact fun _ => Contract.keeps_error trivial

theorem claim_uncommitting (service : WalletMovementSettings) (m : MovementRequest) :
    Uncommitting (claim service m) := by
  apply claim_keeps service m _ fun _ _ => trivial
  intro op hop
  apply permits_uncommitting op
  rintro rfl
  exact hop

end

/-! ## The commit and what follows -/

section

variable {service : WalletMovementSettings} {m : MovementRequest} {t : List (Event Op Resp)}

/-- A commit raises nothing that was foreseen. -/
theorem settled_commit {α : Type} {f : Unit → AppM α}
    (hf : ∀ t', faulty.wp (f ()) Settled t') : faulty.wp (Ports.commit >>= f) Settled t := by
  refine ⟨trivial, ?_⟩
  intro x t' hstep
  obtain ⟨hproper, rfl⟩ := hstep
  cases x with
  | ok _ => exact hf _
  | error e =>
    intro _ e' he
    obtain rfl := Except.error.inj he
    exact .inl (covers_of_statement id id (hproper e rfl))

/-- Only a cancellation gets out of the confirmation. -/
theorem settled_confirm {α : Type} {wallet : Wallet} {entry : LedgerEntry} {f : Unit → AppM α}
    (hf : ∀ t', faulty.wp (f ()) Settled t') :
    faulty.wp (confirm service m wallet entry >>= f) Settled t := by
  refine Contract.wp_bind.mpr ?_
  unfold confirm
  split
  · exact hf t
  · refine ⟨trivial, ?_⟩
    intro x t' _
    -- the store may fail: the metric is recorded, and the movement is reported all the same
    cases x with
    | ok _ => exact ⟨trivial, fun _ t'' _ => hf t''⟩
    | error e =>
      simp only [Program.handle_done, confirmed]
      split
      · exact ⟨trivial, fun _ t'' _ => hf t''⟩
      · -- what is no `Exception` goes on, but nobody is there to be told
        rename_i hexception
        refine ⟨trivial, fun _ _ _ => ?_⟩
        intro _ e' he
        obtain rfl := Except.error.inj he
        cases e with
        | cancelled => exact .inl trivial
        | _ => exact absurd rfl hexception

theorem write_settled {version : ℤ} {wallet : Wallet} {balance : Money} {now : Datetime}
    (ht : ¬Committing t) :
    faulty.wp (write service m version wallet balance now) Settled t := by
  apply settled_bind ht
  · exact (permits_uncommitting .generate nofun).keeps nofun
  · intro id t ht
    apply settled_bind ht
    · exact (permits_uncommitting (.addEntry _) nofun).keeps fun | _, _, rfl => rfl
    · intro _ t ht
      apply settled_bind ht
      · exact (permits_uncommitting (.updateWallet ..) nofun).keeps fun | _, _, rfl => rfl
      · intro updated t ht
        split
        · exact settled_commit fun _ => settled_confirm fun _ => .ok _
        · exact settled_of_uncommitting ht refuseWith_uncommitting

theorem applyLocked_settled (ht : ¬Committing t) :
    faulty.wp (applyLocked service m) Settled t := by
  apply settled_bind ht
  · exact (permits_uncommitting (.readWallet ..) nofun).keeps fun | _, _, rfl => rfl
  · intro wallet t ht
    cases wallet with
    | none => exact settled_of_uncommitting ht refuseWith_uncommitting
    | some wallet =>
      apply settled_bind ht
      · exact (permits_uncommitting .now nofun).keeps nofun
      · intro now t ht
        split
        · exact write_settled ht
        · exact settled_of_uncommitting ht refuseWith_uncommitting
        · exact Settled.of_not ht

/-- The exit of the lock is the one operation behind a commit whose failure is told. -/
theorem settled_exit {α : Type} {key : String} {p : AppM α} (hp : faulty.wp p Settled t) :
    faulty.wp (p.tryFinally (Ports.exitLock key)) Settled t := by
  refine Contract.wp_handle.mpr (Contract.wp_mono ?_ hp)
  intro r t' hr
  refine ⟨trivial, ?_⟩
  intro x t'' hstep
  obtain ⟨hproper, rfl⟩ := hstep
  cases x with
  | ok _ => exact hr.snoc nofun
  | error e =>
    -- the result of the body is lost, whatever it was
    intro _ e' he
    obtain rfl := Except.error.inj he
    refine .inr ⟨⟨key, e, List.mem_append_right _ (List.mem_singleton_self _)⟩, ?_⟩
    exact covers_of_faults id (List.mem_singleton_self _) (hproper e rfl)

theorem apply_settled (ht : ¬Committing t) : faulty.wp (apply service m) Settled t := by
  apply settled_bind ht (claim_uncommitting service m)
  intro replayed t ht
  split
  · exact Settled.ok _
  · apply settled_bind ht
    · exact (permits_uncommitting (.enterLock ..) nofun).keeps fun | _, _, rfl => rfl
    · intro acquired t ht
      apply settled_exit
      apply settled_bind ht
      · exact (permits_uncommitting (.observe _) nofun).keeps nofun
      · intro _ t ht
        split
        · exact applyLocked_settled ht
        · exact settled_of_uncommitting ht refuseWith_uncommitting

end

/-! ## The use cases -/

section

variable {service : WalletMovementSettings} {settings : MoveMoneySettings} {metricName : String}
  {m : MovementRequest} {t : List (Event Op Resp)} {α : Type}

theorem observe_uncommitting (o : Observation) :
    Permits faulty (¬Committing ·) (fun _ => True) (.observe o) := permits_uncommitting _ nofun

/-- A metric is recorded after the end, and changes nothing about it. -/
theorem settled_observed {o : Observation} {r : Except Exn α} (h : Settled r t) :
    faulty.wp (Ports.observe o >>= fun _ => .done r) Settled t := by
  refine ⟨trivial, ?_⟩
  intro x t' hstep
  obtain ⟨-, rfl⟩ := hstep
  exact h.snoc nofun

theorem labelled_settled {label : String} {p : AppM α} (hp : faulty.wp p Settled t) :
    faulty.wp (labelled metricName label p) Settled t := by
  refine Contract.wp_handle.mpr (Contract.wp_mono ?_ hp)
  intro r t' hr
  cases r with
  | ok a => exact settled_observed hr
  | error e => exact settled_observed hr

/-- How the body of `_run` ends: with a label, a refusal comes before the service is called. -/
def Attempted (r : Except Exn (String × Except Exn MovementResult)) (t : List (Event Op Resp)) :
    Prop :=
  Settled r t ∧ ∀ out e, r = .ok out → out.2 = .error e → ¬Committing t

theorem attempted_of_not {r : Except Exn (String × Except Exn MovementResult)}
    (h : ¬Committing t) : Attempted r t := ⟨.of_not h, fun _ _ _ _ => h⟩

theorem attempt_attempted (ht : ¬Committing t) :
    faulty.wp (attempt service settings metricName m) Attempted t := by
  -- the rate limit, then the assessment, and only then the service
  apply wp_bind_of_uncommitting ht _ _ fun _ _ => attempted_of_not
  · exact limited_keeps observe_uncommitting fun _ _ => permits_uncommitting _ nofun
  · intro refusal t ht
    rcases refusal with _ | ⟨label, e⟩
    · apply wp_bind_of_uncommitting ht _ _ fun _ _ => attempted_of_not
      · exact (permits_uncommitting (.assess _) nofun).keeps fun | _, _, rfl => rfl
      · intro decision t ht
        split
        · exact attempted_of_not ht
        · split
          · exact attempted_of_not ht
          · refine Contract.wp_bind.mpr (Contract.wp_mono ?_ (apply_settled ht))
            intro r t' hr
            cases r with
            | ok outcome =>
              -- a movement that was made is returned, not refused
              refine ⟨.ok _, ?_⟩
              intro out e hout he
              obtain rfl := Except.ok.inj hout
              cases he
            | error e =>
              refine ⟨hr.error, ?_⟩
              intro out e' hout
              cases hout
    · exact attempted_of_not ht

theorem run_settled (ht : ¬Committing t) :
    faulty.wp (run service settings metricName m) Settled t := by
  refine Contract.wp_handle.mpr (Contract.wp_mono ?_ (attempt_attempted ht))
  intro r t' hr
  cases r with
  | ok out =>
    obtain ⟨label, result⟩ := out
    apply settled_observed
    intro hcommitting e he
    exact absurd hcommitting (hr.2 _ e rfl he)
  | error e => exact settled_observed hr.1.error

theorem openWallet_settled {command : OpenWalletCommand} (ht : ¬Committing t) :
    faulty.wp (openWallet command) Settled t := by
  apply labelled_settled
  apply settled_bind ht
  · exact (permits_uncommitting .generate nofun).keeps nofun
  · intro id t ht
    apply settled_bind ht
    · exact (permits_uncommitting .now nofun).keeps nofun
    · intro now t ht
      apply settled_bind ht
      · exact (permits_uncommitting (.addWallet _) nofun).keeps fun | _, _, rfl => rfl
      · exact fun _ _ _ => settled_commit fun _ => .ok _

end

/-- What a client is told of, with the one exception, has been raised before the commit. -/
theorem Request.settled (service : WalletMovementSettings) (settings : MoveMoneySettings)
    (r : Request) : faulty.wp (r.program service settings) Settled [] := by
  have hempty : ¬Committing [] := by
    rintro ⟨x, hx⟩
    cases hx
  have hmap : ∀ {α : Type} {p : AppM α} (f : α → Answer), faulty.wp p Settled [] →
      faulty.wp (f <$> p) Settled [] := by
    intro α p f hp
    refine Contract.wp_bind.mpr (Contract.wp_mono ?_ hp)
    intro x t hx
    cases x with
    | ok a => exact Settled.ok _
    | error e => exact hx.error
  have hread : ∀ id owner, Permits faulty (¬Committing ·) (fun _ => True)
      (.readWallet id owner false) := fun _ _ => permits_uncommitting _ nofun
  -- what writes can only be reported late; what reads commits nothing
  cases r with
  | openWallet c => exact hmap _ (openWallet_settled hempty)
  | deposit c => exact hmap _ (run_settled hempty)
  | withdraw c => exact hmap _ (run_settled hempty)
  | apply m => exact hmap _ (apply_settled hempty)
  | getWallet q =>
    apply hmap
    apply settled_of_uncommitting hempty
    exact getWallet_keeps observe_uncommitting hread fun _ => trivial
  | listWallets q =>
    apply hmap
    apply settled_of_uncommitting hempty
    exact listWallets_keeps observe_uncommitting fun _ _ _ => permits_uncommitting _ nofun
  | listLedgerEntries q =>
    apply hmap
    apply settled_of_uncommitting hempty
    apply listLedgerEntries_keeps observe_uncommitting hread fun _ => trivial
    exact fun _ _ _ _ => permits_uncommitting _ nofun

end Evenkeel.Application
