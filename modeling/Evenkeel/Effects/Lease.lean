import Mathlib.Data.Rat.Defs
import Mathlib.Order.Lattice
import Mathlib.Logic.Function.Basic
import Evenkeel.Effects.Machine

/-!
# Clients of a Lease Server

Handles that ask a server for a lease, again and again until a deadline, and give it back.
The server is a parameter. A command takes effect at some time after it was sent, or never,
and its reply may find the client gone.

- `LeaseServer`: what a server does with an attempt and a release
- `LeaseClients.step`: what one event does, on any number of handles
- `Books`: the server, the clock and the leases it granted, without the clients

## Key Results

- `books_of_step`: a step of the clients is a step of the books, or none
- `books_of_run`: what every step of the books keeps holds after every run of the clients
-/

namespace Evenkeel.Effects

/-- A server on a clock `T`, with handles that are described by `κ`. An attempt is answered
    by when the lease ends, if it is granted. -/
structure LeaseServer (κ σ T ε : Type) where
  start : σ
  origin : T
  /-- How handle `h` may be described. -/
  admits : ℕ → κ → Bool
  waitTimeoutMs : κ → ℤ
  attempt : κ → T → σ → Option T × σ
  release : κ → T → σ → σ
  /-- What the server may do on its own. -/
  drift : ε → T → σ → Option σ

/-- A token for each handle, where any will do. -/
def unaryToken (h : ℕ) : String := String.ofList (List.replicate h 'x')

theorem unaryToken_injective : Function.Injective unaryToken := by
  intro h j heq
  have hlength := congrArg List.length (String.ofList_injective heq)
  simpa using hlength

/-! ## Handles -/

/-- A command on its way to the server, with the handle it is for. -/
inductive LeaseCommand where
  | attempt (h : ℕ)
  | release (h : ℕ)
  deriving DecidableEq

def LeaseCommand.handle : LeaseCommand → ℕ
  | .attempt h => h
  | .release h => h

/-- What a handle is in the middle of. -/
inductive LeasePhase where
  | idle
  /-- `__aenter__` waits for the reply to an attempt. -/
  | attempting (deadline : ℚ)
  | answered (deadline : ℚ) (granted : Bool)
  | sleeping (deadline : ℚ)
  /-- `__aexit__` waits for the reply to its release. -/
  | releasing
  | released
  deriving DecidableEq

/-- `ends` is when the lease that the server granted ends, which only the server knows. -/
structure LeaseHandle (κ T : Type) where
  request : κ
  acquired : Bool := false
  phase : LeasePhase := .idle
  ends : Option T := none

structure LeaseClients (κ σ T : Type) where
  now : T
  store : σ
  handles : ℕ → Option (LeaseHandle κ T) := fun _ => none
  sent : List LeaseCommand := []

/-- Where an event has a `clock`, it is what the client reads on its own. -/
inductive LeaseEvent (κ T ε : Type) where
  | create (h : ℕ) (request : κ)
  | enter (h : ℕ) (clock : ℚ)
  | exit (h : ℕ)
  /-- The handle goes on with the reply it has, or after its sleep. -/
  | resume (h : ℕ) (clock : ℚ)
  /-- The await raises, whatever became of the command. -/
  | raise (h : ℕ)
  | execute (command : LeaseCommand)
  | lose (command : LeaseCommand)
  | drift (e : ε)
  | tick (t : T)

variable {κ σ T ε : Type}

namespace LeaseClients

def put (s : LeaseClients κ σ T) (h : ℕ) (handle : LeaseHandle κ T) : LeaseClients κ σ T :=
  { s with handles := Function.update s.handles h (some handle) }

def send (s : LeaseClients κ σ T) (command : LeaseCommand) : LeaseClients κ σ T :=
  { s with sent := s.sent ++ [command] }

/-- A handle between two of its commands, at `clock`. -/
def resume (s : LeaseClients κ σ T) (h : ℕ) (handle : LeaseHandle κ T) (clock : ℚ) :
    Option (LeaseClients κ σ T) :=
  match handle.phase with
  | .answered _ true => some (s.put h { handle with acquired := true, phase := .idle })
  | .answered deadline false =>
    some (s.put h { handle with phase := if deadline ≤ clock then .idle else .sleeping deadline })
  | .sleeping deadline =>
    some ((s.put h { handle with phase := .attempting deadline }).send (.attempt h))
  | .released => some (s.put h { handle with acquired := false, phase := .idle })
  | _ => none

variable (S : LeaseServer κ σ T ε)

/-- The server executes an attempt of a handle. -/
def executeAttempt (s : LeaseClients κ σ T) (h : ℕ) (handle : LeaseHandle κ T) :
    LeaseClients κ σ T :=
  match S.attempt handle.request s.now s.store with
  | (granted, store) =>
    { s with store }.put h { handle with
      phase := match handle.phase with
        | .attempting deadline => .answered deadline granted.isSome
        -- nobody waits for this reply any more
        | phase => phase
      ends := granted.or handle.ends }

/-- The server executes the release of a handle. -/
def executeRelease (s : LeaseClients κ σ T) (h : ℕ) (handle : LeaseHandle κ T) :
    LeaseClients κ σ T :=
  { s with store := S.release handle.request s.now s.store }.put h { handle with
    phase := match handle.phase with
      | .releasing => .released
      | phase => phase
    ends := none }

variable [LinearOrder T]

def step (s : LeaseClients κ σ T) : LeaseEvent κ T ε → Option (LeaseClients κ σ T)
  | .create h request =>
    match s.handles h with
    | none => if S.admits h request then some (s.put h { request }) else none
    | some _ => none
  | .enter h clock =>
    match s.handles h with
    | none => none
    | some handle =>
      -- an earlier use of the handle is over, with nothing left under way
      if handle.phase = .idle ∧ ∀ command ∈ s.sent, command.handle ≠ h then
        some ((s.put h { handle with
          phase := .attempting (clock + S.waitTimeoutMs handle.request / 1000) }).send (.attempt h))
      else none
  | .exit h =>
    match s.handles h with
    | none => none
    | some handle =>
      if handle.phase = .idle then
        if handle.acquired then
          some ((s.put h { handle with phase := .releasing }).send (.release h))
        else some s
      else none
  | .resume h clock => (s.handles h).bind fun handle => s.resume h handle clock
  | .raise h =>
    match s.handles h with
    | none => none
    | some handle =>
      if handle.phase = .idle then none else some (s.put h { handle with phase := .idle })
  | .execute command =>
    match s.handles command.handle with
    | none => none
    | some handle =>
      if command ∈ s.sent then
        let s := { s with sent := s.sent.erase command }
        match command with
        | .attempt h => some (s.executeAttempt S h handle)
        | .release h => some (s.executeRelease S h handle)
      else none
  | .lose command =>
    if command ∈ s.sent then some { s with sent := s.sent.erase command } else none
  | .drift e => (S.drift e s.now s.store).map fun store => { s with store }
  | .tick t => if s.now ≤ t then some { s with now := t } else none

/-- A server that nobody uses yet. -/
def machine : Machine (LeaseClients κ σ T) (LeaseEvent κ T ε) :=
  ⟨{ now := S.origin, store := S.start }, step S⟩

end LeaseClients

/-! ## The books -/

/-- What a handle has been granted, if it has not given it back. -/
structure Lease (κ T : Type) where
  request : κ
  ends : Option T

structure Books (κ σ T : Type) where
  now : T
  store : σ
  leases : ℕ → Option (Lease κ T)

inductive LeaseAction (κ T ε : Type) where
  | create (h : ℕ) (request : κ)
  | attempt (h : ℕ)
  | release (h : ℕ)
  | drift (e : ε)
  | tick (t : T)

namespace Books

/-- A lease after a write is the one written, or was there before. -/
theorem of_update {h : ℕ} {leases : ℕ → Option (Lease κ T)} {lease found : Lease κ T} {j : ℕ}
    (hfound : Function.update leases h (some lease) j = some found) :
    (j = h ∧ found = lease) ∨ (j ≠ h ∧ leases j = some found) := by
  by_cases hj : j = h
  · subst hj
    rw [Function.update_self] at hfound
    exact .inl ⟨rfl, (Option.some.inj hfound).symm⟩
  · rw [Function.update_of_ne hj] at hfound
    exact .inr ⟨hj, hfound⟩

variable (S : LeaseServer κ σ T ε) [LinearOrder T]

def step (b : Books κ σ T) : LeaseAction κ T ε → Option (Books κ σ T)
  | .create h request =>
    match b.leases h with
    | none =>
      if S.admits h request then
        some { b with leases := Function.update b.leases h (some ⟨request, none⟩) }
      else none
    | some _ => none
  | .attempt h => (b.leases h).map fun lease =>
    match S.attempt lease.request b.now b.store with
    | (granted, store) =>
      { b with
        store
        leases := Function.update b.leases h (some ⟨lease.request, granted.or lease.ends⟩) }
  | .release h => (b.leases h).map fun lease =>
    { b with
      store := S.release lease.request b.now b.store
      leases := Function.update b.leases h (some ⟨lease.request, none⟩) }
  | .drift e => (S.drift e b.now b.store).map fun store => { b with store }
  | .tick t => if b.now ≤ t then some { b with now := t } else none

variable {S} {b b' : Books κ σ T} {h : ℕ}

/-! ### What each action did -/

theorem of_create {request : κ} (hstep : b.step S (.create h request) = some b') :
    b.leases h = none ∧ S.admits h request = true ∧
      b' = { b with leases := Function.update b.leases h (some ⟨request, none⟩) } := by
  simp only [step] at hstep
  split at hstep
  · rename_i hnone
    split at hstep
    · rename_i hadmits
      exact ⟨hnone, hadmits, (Option.some.inj hstep).symm⟩
    · cases hstep
  · cases hstep

theorem of_attempt (hstep : b.step S (.attempt h) = some b') :
    ∃ lease, b.leases h = some lease ∧ b' = { b with
      store := (S.attempt lease.request b.now b.store).2
      leases := Function.update b.leases h
        (some ⟨lease.request, (S.attempt lease.request b.now b.store).1.or lease.ends⟩) } := by
  obtain ⟨lease, hlease, hb'⟩ := Option.map_eq_some_iff.mp hstep
  exact ⟨lease, hlease, hb'.symm⟩

theorem of_release (hstep : b.step S (.release h) = some b') :
    ∃ lease, b.leases h = some lease ∧ b' = { b with
      store := S.release lease.request b.now b.store
      leases := Function.update b.leases h (some ⟨lease.request, none⟩) } := by
  obtain ⟨lease, hlease, hb'⟩ := Option.map_eq_some_iff.mp hstep
  exact ⟨lease, hlease, hb'.symm⟩

theorem of_drift {e : ε} (hstep : b.step S (.drift e) = some b') :
    ∃ store, S.drift e b.now b.store = some store ∧ b' = { b with store } := by
  obtain ⟨store, hdrift, hb'⟩ := Option.map_eq_some_iff.mp hstep
  exact ⟨store, hdrift, hb'.symm⟩

theorem of_tick {t : T} (hstep : b.step S (.tick t) = some b') :
    b.now ≤ t ∧ b' = { b with now := t } := by
  simp only [step] at hstep
  split at hstep
  · rename_i hle
    exact ⟨hle, (Option.some.inj hstep).symm⟩
  · cases hstep

end Books

/-- What an event is to the server. -/
def LeaseEvent.action : LeaseEvent κ T ε → Option (LeaseAction κ T ε)
  | .create h request => some (.create h request)
  | .execute (.attempt h) => some (.attempt h)
  | .execute (.release h) => some (.release h)
  | .drift e => some (.drift e)
  | .tick t => some (.tick t)
  | _ => none

namespace LeaseClients

def books (s : LeaseClients κ σ T) : Books κ σ T :=
  ⟨s.now, s.store, fun h => (s.handles h).map fun handle => ⟨handle.request, handle.ends⟩⟩

variable {S : LeaseServer κ σ T ε} {s s' : LeaseClients κ σ T} {h : ℕ}
  {handle handle' : LeaseHandle κ T}

/-- A write to a handle is one to its lease. -/
theorem books_put : (s.put h handle).books = ⟨s.now, s.store,
    Function.update s.books.leases h (some ⟨handle.request, handle.ends⟩)⟩ := by
  have hleases : (s.put h handle).books.leases =
      Function.update s.books.leases h (some ⟨handle.request, handle.ends⟩) := by
    funext j
    by_cases hj : j = h
    · subst hj
      simp [books, put]
    · simp [books, put, hj]
  exact congrArg (Books.mk s.now s.store) hleases

theorem leases_of_handle (hhandle : s.handles h = some handle) :
    s.books.leases h = some ⟨handle.request, handle.ends⟩ := by
  simp [books, hhandle]

/-- A handle that moves on without the server leaves the books. -/
theorem books_put_same (hhandle : s.handles h = some handle)
    (hrequest : handle'.request = handle.request) (hends : handle'.ends = handle.ends) :
    (s.put h handle').books = s.books := by
  have hleases : Function.update s.books.leases h (some ⟨handle'.request, handle'.ends⟩) =
      s.books.leases := by
    rw [hrequest, hends, Function.update_eq_self_iff, leases_of_handle hhandle]
  rw [books_put, hleases]
  rfl

/-- The commands under way are not in the books. -/
theorem books_send (s : LeaseClients κ σ T) (command : LeaseCommand) :
    (s.send command).books = s.books := rfl

theorem books_resume {clock : ℚ} (hhandle : s.handles h = some handle)
    (hresume : s.resume h handle clock = some s') : s'.books = s.books := by
  unfold resume at hresume
  split at hresume
  · obtain rfl := Option.some.inj hresume
    exact books_put_same hhandle rfl rfl
  · obtain rfl := Option.some.inj hresume
    exact books_put_same hhandle rfl rfl
  · obtain rfl := Option.some.inj hresume
    exact (books_send _ _).trans (books_put_same hhandle rfl rfl)
  · obtain rfl := Option.some.inj hresume
    exact books_put_same hhandle rfl rfl
  · cases hresume

variable [LinearOrder T] {event : LeaseEvent κ T ε}

/-- A step of the clients is a step of the books, or leaves them. -/
theorem books_of_step (hstep : step S s event = some s') :
    (event.action = none ∧ s'.books = s.books) ∨
      ∃ action, event.action = some action ∧ s.books.step S action = some s'.books := by
  -- on the left are the steps that only the client sees, on the right those that the store and
  -- its clock see; a command is on the right when it is executed, not when it is sent
  cases event with
  | create h request =>
    right
    refine ⟨.create h request, rfl, ?_⟩
    simp only [step] at hstep
    split at hstep
    · rename_i hnone
      split at hstep
      · rename_i hadmits
        -- a new handle asks for nothing yet
        obtain rfl := Option.some.inj hstep
        have hleases : s.books.leases h = none := by simp [books, hnone]
        rw [books_put]
        simp only [Books.step, hleases, hadmits, if_true]
        rfl
      · cases hstep
    · cases hstep
  | enter h clock =>
    -- entering sends a command, and the store has not seen it
    left
    simp only [step] at hstep
    split at hstep
    · cases hstep
    · rename_i handle hhandle
      split at hstep
      · obtain rfl := Option.some.inj hstep
        exact ⟨rfl, (books_send _ _).trans (books_put_same hhandle rfl rfl)⟩
      · cases hstep
  | exit h =>
    -- leaving sends the release where there is a grant to give back, else nothing
    left
    simp only [step] at hstep
    split at hstep
    · cases hstep
    · rename_i handle hhandle
      split at hstep
      · split at hstep
        · obtain rfl := Option.some.inj hstep
          exact ⟨rfl, (books_send _ _).trans (books_put_same hhandle rfl rfl)⟩
        · obtain rfl := Option.some.inj hstep
          exact ⟨rfl, rfl⟩
      · cases hstep
  | resume h clock =>
    -- the answer was decided when the command was executed; now it is only read
    left
    obtain ⟨handle, hhandle, hresume⟩ := Option.bind_eq_some_iff.mp hstep
    exact ⟨rfl, books_resume hhandle hresume⟩
  | raise h =>
    -- a client that gives up keeps its ticket
    left
    simp only [step] at hstep
    split at hstep
    · cases hstep
    · rename_i handle hhandle
      split at hstep
      · cases hstep
      · obtain rfl := Option.some.inj hstep
        exact ⟨rfl, books_put_same hhandle rfl rfl⟩
  | execute command =>
    -- here the script runs, in the order in which commands arrive
    right
    simp only [step] at hstep
    split at hstep
    · cases hstep
    · rename_i handle hhandle
      split at hstep
      · cases command with
        | attempt h =>
          obtain rfl := Option.some.inj hstep
          refine ⟨.attempt h, rfl, ?_⟩
          have hlease : s.books.leases h = some _ := leases_of_handle hhandle
          rw [executeAttempt, books_put]
          simp only [Books.step, hlease, Option.map_some]
          rfl
        | release h =>
          obtain rfl := Option.some.inj hstep
          refine ⟨.release h, rfl, ?_⟩
          have hlease : s.books.leases h = some _ := leases_of_handle hhandle
          rw [executeRelease, books_put]
          simp only [Books.step, hlease, Option.map_some]
          rfl
      · cases hstep
  | lose command =>
    -- a lost command never reaches the store
    left
    simp only [step] at hstep
    split at hstep
    · obtain rfl := Option.some.inj hstep
      exact ⟨rfl, rfl⟩
    · cases hstep
  | drift e =>
    -- what the store does by itself, such as evicting a key
    right
    simp only [step, Option.map_eq_some_iff] at hstep
    obtain ⟨store, hdrift, rfl⟩ := hstep
    refine ⟨.drift e, rfl, ?_⟩
    have hbooks : S.drift e s.books.now s.books.store = some store := hdrift
    simp only [Books.step, hbooks, Option.map_some]
    rfl
  | tick t =>
    right
    simp only [step] at hstep
    split at hstep
    · rename_i hle
      obtain rfl := Option.some.inj hstep
      exact ⟨.tick t, rfl, if_pos hle⟩
    · cases hstep

/-- What every action keeps in the books is kept in every run of the clients. -/
theorem books_of_run {I : Books κ σ T → Prop} (hstart : I (machine S).start.books)
    (hkeep : ∀ b action b', I b → b.step S action = some b' → I b')
    {t : List (Transition (LeaseClients κ σ T) (LeaseEvent κ T ε))}
    (hrun : (machine S).Run t s) : I s.books := by
  refine hrun.invariant (I := fun s => I s.books) (G := fun _ _ => True) hstart ?_ ?_
  · intro s event s' hbooks _ hstep
    obtain ⟨-, hsame⟩ | ⟨action, -, hbooks'⟩ := books_of_step hstep
    · rwa [hsame]
    · exact hkeep _ action _ hbooks hbooks'
  · intro τ hτ
    trivial

end LeaseClients

end Evenkeel.Effects
