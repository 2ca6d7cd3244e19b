import Mathlib.Data.List.Infix
import Evenkeel.Infrastructure.Idempotency
import Evenkeel.Python.JsonText
import Evenkeel.Redis.Counter

/-!
# The Redis Idempotency Store

`infrastructure/adapters/redis/idempotency.py`. It keeps JSON texts, which its release script
only searches.

- `Texts.reserve`, `Texts.confirm`, `Texts.release`: the adapter and its scripts
- `Payload`: what a text holds of an entry

## Key Results

- `mark_infix_iff`: in which texts the release script finds a response
- `reserve_of_absent`, `reserve_of_present`: what a claim finds and leaves
- `confirm_of_present`, `release_of_present`: what becomes of the text of an entry
-/

namespace Evenkeel.Infrastructure

open Evenkeel.Application Evenkeel.Effects Evenkeel.Python Evenkeel.Redis

/-- A text for each key, on a clock in seconds. -/
abbrev Texts : Type := Keyspace (List Char) Instant

/-- `_key`. -/
def idemKey (key : String) : String := "idem:" ++ key

theorem idemKey_injective {k k' : String} (h : idemKey k = idemKey k') : k = k' := by
  have hchars := congrArg String.toList h
  simp only [idemKey, String.toList_append] at hchars
  exact String.toList_injective (List.append_cancel_left hchars)

/-- Whether `SET … EX` takes the TTL: milliseconds of the server are integers of 64 bits. -/
def settable (now : Instant) (ttlSeconds : ℤ) : Bool := decide (1000 * (now + ttlSeconds) < 2 ^ 63)

/-- Whether the client can write the TTL into a command. -/
def sendable (limits : Limits) (ttlSeconds : ℤ) : Bool :=
  decide (ttlSeconds.natAbs < 10 ^ limits.digits)

theorem sendable_of_le {limits : Limits} {ttlSeconds : ℤ} (h : ttlSeconds.natAbs ≤ limits.digits) :
    sendable limits ttlSeconds = true :=
  decide_eq_true (h.trans_lt (Nat.lt_pow_self (by norm_num)))

namespace Texts

variable (limits : Limits) (db : Texts) (now : Instant) (key : String)

/-- `_RESERVE_SCRIPT`, without a reply if the `SET` in it raises. -/
def reserveScript (claim : List Char) (ttlSeconds : ℤ) : Option (List Char) × Texts :=
  let db := Keyspace.purge db now
  match Keyspace.get db key with
  | some existing => (some existing, db)
  | none =>
    -- `tonumber`
    let ttlSeconds := luaNumber ttlSeconds
    if settable now ttlSeconds then
      (some "reserved".toList, Keyspace.set db key claim (now + ttlSeconds))
    else (none, db)

/-- What the release script searches for, as it is. -/
def mark : List Char := '"' :: ("response".toList ++ ['"'])

/-- `_RELEASE_SCRIPT`. -/
def releaseScript : Texts :=
  let db := Keyspace.purge db now
  match Keyspace.get db key with
  | none => db
  | some existing => if mark <:+: existing then db else Keyspace.del db key

/-- The end of `reserve`: what the text of another claim says. -/
def found (fingerprint : String) (result : List Char) : Except Exn (IdempotencyReservation Json) :=
  match loads limits result with
  | .error e => .error (Exn.ofJson e)
  | .ok (.obj payload) =>
    match Dict.get "fingerprint" payload with
    | some (.str claimed) =>
      if claimed ≠ fingerprint then .ok ⟨.conflict, none⟩
      else
        match Dict.get "response" payload with
        | none => .ok ⟨.inProgress, none⟩
        | some response => .ok ⟨.completed, some ⟨key, claimed, response⟩⟩
    | _ => .ok ⟨.conflict, none⟩
  | .ok _ => .error (.other "AttributeError")

def reserve (fingerprint : String) (ttlSeconds : ℤ) :
    Except Exn (IdempotencyReservation Json) × Texts :=
  if ttlSeconds ≤ 0 then (.ok ⟨.reserved, none⟩, db)
  else
    match dumps limits (.obj [("fingerprint", .str fingerprint)]) with
    | .error e => (.error (Exn.ofJson e), db)
    | .ok claim =>
      if sendable limits ttlSeconds then
        match db.reserveScript now (idemKey key) claim ttlSeconds with
        | (none, db) => (.error (dependencyUnavailable "redis" "idempotency.reserve"), db)
        | (some result, db) =>
          if result = "reserved".toList then (.ok ⟨.reserved, none⟩, db)
          else (found limits key fingerprint result, db)
      else (.error (.other "ValueError"), db)

/-- What `confirm` makes of the text it has read. -/
def confirmed (raw : List Char) (response : Dict) : Except Exn (List Char) :=
  match loads limits raw with
  | .error e => .error (Exn.ofJson e)
  | .ok (.obj payload) =>
    match dumps limits (.obj (Dict.set "response" (.obj response) payload)) with
    | .error e => .error (Exn.ofJson e)
    | .ok text => .ok text
  | .ok _ => .error (.other "TypeError")

/-- The first command of `confirm`, and the text for the second: none if the key is gone. -/
def confirmGet (response : Dict) : Except Exn (Option (List Char)) × Texts :=
  let db := Keyspace.purge db now
  match Keyspace.get db (idemKey key) with
  | none => (.ok none, db)
  | some raw =>
    match confirmed limits raw response with
    | .error e => (.error e, db)
    | .ok text => (.ok (some text), db)

/-- The second command of `confirm`. -/
def confirmSet (text : List Char) (ttlSeconds : ℤ) : Except Exn Unit × Texts :=
  let db := Keyspace.purge db now
  if sendable limits ttlSeconds then
    if settable now ttlSeconds then
      (.ok (), Keyspace.set db (idemKey key) text (now + ttlSeconds))
    else (.error (dependencyUnavailable "redis" "idempotency.confirm"), db)
  else (.error (.other "ValueError"), db)

def confirm (response : Dict) (ttlSeconds : ℤ) : Except Exn Unit × Texts :=
  if ttlSeconds ≤ 0 then (.ok (), db)
  else
    match confirmGet limits db now key response with
    | (.error e, db) => (.error e, db)
    | (.ok none, db) => (.ok (), db)
    | (.ok (some text), db) => confirmSet limits db now key text ttlSeconds

def release : Texts := db.releaseScript now (idemKey key)

end Texts

/-! ## The text of an entry -/

/-- What a text in Redis holds. -/
structure Payload where
  fingerprint : String
  response : Option Json := none

def Payload.json (p : Payload) : Json :=
  .obj (("fingerprint", .str p.fingerprint) ::
    match p.response with
    | none => []
    | some response => [("response", response)])

/-- The text of an entry has nothing of its expiry. -/
def Entry.payload (e : Entry Json) : Payload := ⟨e.fingerprint, e.response⟩

/-- A fingerprint that ends its text in the mark of a response. -/
def Quoted (fingerprint : String) : Prop :=
  fingerprint = "response" ∨ '"' :: "response".toList <:+ fingerprint.toList

instance (fingerprint : String) : Decidable (Quoted fingerprint) :=
  inferInstanceAs (Decidable (_ ∨ _))

/-- The response in it, if there is one, can be written and read. -/
def Payload.Writable (limits : Limits) (p : Payload) : Prop :=
  ∀ r, p.response = some r → r.Canonical ∧ r.check limits 1 = .ok ()

section Payload

variable {limits : Limits} {p : Payload}

theorem Payload.Writable.canonical (h : p.Writable limits) : p.json.Canonical := by
  unfold Payload.json
  cases hr : p.response with
  | none => simp [Json.Canonical, CanonicalMembers]
  | some r =>
    have hkeys : "fingerprint" < "response" := by decide
    refine ⟨?_, trivial, (h r hr).1, trivial⟩
    simpa only [List.pairwise_cons, List.mem_singleton, forall_eq, List.not_mem_nil, false_implies,
      implies_true, List.Pairwise.nil, and_true] using hkeys

/-- A response is written inside one bracket. -/
theorem check_payload (hdepth : 0 < limits.depth) {r : Json} (hsome : p.response = some r) :
    p.json.check limits 0 = r.check limits 1 := by
  have hopen : ¬ limits.depth ≤ 0 := not_le.mpr hdepth
  simp only [Payload.json, hsome, Json.check, checkMembers, hopen, if_false]
  cases r.check limits 1 with
  | error x => rfl
  | ok u => rfl

theorem check_of_dumps (hdepth : 0 < limits.depth) {r : Json} {text : List Char}
    (hsome : p.response = some r) (h : dumps limits p.json = .ok text) :
    r.check limits 1 = .ok () := by
  rw [dumps, check_payload hdepth hsome] at h
  cases hcheck : r.check limits 1 with
  | error x => simp [hcheck] at h
  | ok u => rfl

theorem dumps_payload (hdepth : 0 < limits.depth) (h : p.Writable limits) :
    dumps limits p.json = .ok p.json.text := by
  have hcheck : p.json.check limits 0 = .ok () := by
    cases hr : p.response with
    | none => simp [Payload.json, hr, Json.check, checkMembers, hdepth.ne']
    | some r => rw [check_payload hdepth hr, (h r hr).2]
  rw [dumps, hcheck, sortKeys_of_canonical _ h.canonical]

theorem loads_payload (hdepth : 0 < limits.depth) (h : p.Writable limits) :
    loads limits p.json.text = .ok p.json :=
  loads_dumps h.canonical (dumps_payload hdepth h)

theorem writable_of_none (hnone : p.response = none) : p.Writable limits := by
  intro r hr
  rw [hnone] at hr
  cases hr

theorem writable_of_some {r : Json} (hsome : p.response = some r) (hr : r.Canonical)
    (hcheck : r.check limits 1 = .ok ()) : p.Writable limits := by
  intro r' hr'
  obtain rfl := Option.some.inj (hsome.symm.trans hr')
  exact ⟨hr, hcheck⟩

/-- The release script finds a response in the text of a completed record, and in that of a
    reservation whose fingerprint looks like one. -/
theorem mark_infix_iff :
    Texts.mark <:+: p.json.text ↔ p.response.isSome = true ∨ Quoted p.fingerprint := by
  have hplain : ∀ c ∈ "response".toList, Plain c := by simp [Plain]
  cases hr : p.response with
  | some r =>
    -- a response is written behind the mark
    have htext : p.json.text =
        ('{' :: (jsonString "fingerprint" ++ [':', ' '] ++ jsonString p.fingerprint ++
          [',', ' '])) ++ Texts.mark ++ (':' :: ' ' :: r.text ++ ['}']) := by
      have hmark : jsonString "response" = Texts.mark := by decide
      simp [Payload.json, hr, Json.text, textMembers, hmark]
    simp only [Option.isSome_some, true_or, iff_true]
    exact ⟨_, _, htext.symm⟩
  | none =>
    -- otherwise the text is the fingerprint alone
    have htext : p.json.text =
        "\x7b\"fingerprint\": \"".toList ++
          (p.fingerprint.toList.flatMap escapeChar ++ '"' :: ['}']) := by
      have hkey : jsonString "fingerprint" = "\"fingerprint\"".toList := by decide
      simp only [Payload.json, hr, Json.text, textMembers, hkey]
      simp [jsonString]
    simp only [Option.isSome_none, Bool.false_eq_true, false_or]
    rw [htext]
    -- in front of the fingerprint the mark can only begin with its opening quote
    have hfront : Texts.mark <:+: "\x7b\"fingerprint\": \"".toList ++
        (p.fingerprint.toList.flatMap escapeChar ++ '"' :: ['}']) ↔
        "response".toList ++ ['"'] <+: p.fingerprint.toList.flatMap escapeChar ++ '"' :: ['}'] ∨
          Texts.mark <:+: p.fingerprint.toList.flatMap escapeChar ++ '"' :: ['}'] := by
      simp [Texts.mark, List.infix_cons_iff]
    rw [hfront, quoted_prefix_iff hplain, Texts.mark, quoted_infix_iff hplain _ _ (by decide),
      Quoted, ← String.toList_inj]

end Payload

/-! ## What the adapter answers -/

namespace Texts

variable {limits : Limits} {db : Texts} {now : Instant} {key fingerprint : String} {ttlSeconds : ℤ}
  {p : Payload} {ends : Option Instant}

/-- A claim is the text of the entry that it makes. -/
theorem dumps_claim (hdepth : 0 < limits.depth) :
    dumps limits (.obj [("fingerprint", .str fingerprint)]) =
      .ok (Payload.json ⟨fingerprint, none⟩).text :=
  dumps_payload (p := ⟨fingerprint, none⟩) hdepth (writable_of_none rfl)

theorem payload_ne_reserved : p.json.text ≠ "reserved".toList := by
  rw [Payload.json, Json.text]
  simp

/-- A key that is gone is claimed. -/
theorem reserve_of_absent (hdepth : 0 < limits.depth) (httl : 0 < ttlSeconds)
    (hsend : sendable limits ttlSeconds = true)
    (habsent : Keyspace.purge db now (idemKey key) = none)
    (hset : settable now (luaNumber ttlSeconds) = true) (fingerprint : String) :
    db.reserve limits now key fingerprint ttlSeconds =
      (.ok ⟨.reserved, none⟩, Keyspace.set (Keyspace.purge db now) (idemKey key)
        (Payload.json ⟨fingerprint, none⟩).text
        (now + luaNumber ttlSeconds)) := by
  have hget : Keyspace.get (Keyspace.purge db now) (idemKey key) = none := by
    simp [Keyspace.get, habsent]
  rw [reserve, if_neg (not_le.mpr httl), dumps_claim hdepth]
  simp [hsend, reserveScript, hget, hset]

/-- A TTL that cannot be set leaves no reply. -/
theorem reserve_of_unsettable (hdepth : 0 < limits.depth) (httl : 0 < ttlSeconds)
    (hsend : sendable limits ttlSeconds = true)
    (habsent : Keyspace.purge db now (idemKey key) = none)
    (hset : settable now (luaNumber ttlSeconds) = false) (fingerprint : String) :
    db.reserve limits now key fingerprint ttlSeconds =
      (.error (dependencyUnavailable "redis" "idempotency.reserve"), Keyspace.purge db now) := by
  have hget : Keyspace.get (Keyspace.purge db now) (idemKey key) = none := by
    simp [Keyspace.get, habsent]
  rw [reserve, if_neg (not_le.mpr httl), dumps_claim hdepth]
  simp [hsend, reserveScript, hget, hset]

/-- One that cannot be sent is not. -/
theorem reserve_of_unsendable (hdepth : 0 < limits.depth) (httl : 0 < ttlSeconds)
    (hsend : sendable limits ttlSeconds = false) (db : Texts) (now : Instant)
    (key fingerprint : String) :
    db.reserve limits now key fingerprint ttlSeconds = (.error (.other "ValueError"), db) := by
  rw [reserve, if_neg (not_le.mpr httl), dumps_claim hdepth]
  simp [hsend]

/-- One that is there answers for itself. -/
theorem reserve_of_present (hdepth : 0 < limits.depth) (httl : 0 < ttlSeconds)
    (hsend : sendable limits ttlSeconds = true) (hwritable : p.Writable limits)
    (hcell : Keyspace.purge db now (idemKey key) = some ⟨p.json.text, ends⟩)
    (fingerprint : String) :
    db.reserve limits now key fingerprint ttlSeconds =
      (.ok (if p.fingerprint ≠ fingerprint then ⟨.conflict, none⟩
        else match p.response with
          | none => ⟨.inProgress, none⟩
          | some r => ⟨.completed, some ⟨key, p.fingerprint, r⟩⟩), Keyspace.purge db now) := by
  have hget : Keyspace.get (Keyspace.purge db now) (idemKey key) = some p.json.text := by
    simp [Keyspace.get, hcell]
  have hloads := loads_payload hdepth hwritable
  rw [reserve, if_neg (not_le.mpr httl), dumps_claim hdepth]
  simp only [hsend, reserveScript, hget, payload_ne_reserved, if_true, if_false, found, hloads]
  by_cases hfp : p.fingerprint = fingerprint
  · cases hr : p.response with
    | none => simp [Payload.json, Dict.get, hfp, hr]
    | some r => simp [Payload.json, Dict.get, hfp, hr]
  · simp [Payload.json, Dict.get, hfp]

/-- A claim fails, or finds nothing, or finds what it is answered with. -/
theorem reserve_cases (hdepth : 0 < limits.depth) (httl : 0 < ttlSeconds) (db : Texts)
    (now : Instant) (key fingerprint : String) :
    (∃ x db', db.reserve limits now key fingerprint ttlSeconds = (.error x, db') ∧
        Keyspace.purge db' now = Keyspace.purge db now) ∨
      (Keyspace.purge db now (idemKey key) = none ∧
        db.reserve limits now key fingerprint ttlSeconds =
          (.ok ⟨.reserved, none⟩, Keyspace.set (Keyspace.purge db now) (idemKey key)
            (Payload.json ⟨fingerprint, none⟩).text
            (now + luaNumber ttlSeconds))) ∨
      ∃ cell, Keyspace.purge db now (idemKey key) = some cell ∧
        ∀ p : Payload, cell.value = p.json.text → p.Writable limits →
        db.reserve limits now key fingerprint ttlSeconds =
          (.ok (if p.fingerprint ≠ fingerprint then ⟨.conflict, none⟩
            else match p.response with
              | none => ⟨.inProgress, none⟩
              | some r => ⟨.completed, some ⟨key, p.fingerprint, r⟩⟩), Keyspace.purge db now) := by
  cases hsend : sendable limits ttlSeconds with
  | false =>
    -- the TTL cannot be sent
    left
    exact ⟨_, _, reserve_of_unsendable hdepth httl hsend db now key fingerprint, rfl⟩
  | true =>
    cases hcell : Keyspace.purge db now (idemKey key) with
    | none =>
      cases hset : settable now (luaNumber ttlSeconds) with
      | false =>
        -- the key cannot be written with it
        left
        exact ⟨_, _, reserve_of_unsettable hdepth httl hsend hcell hset fingerprint,
          Keyspace.purge_purge⟩
      | true =>
        -- the key is free
        right
        left
        exact ⟨rfl, reserve_of_absent hdepth httl hsend hcell hset fingerprint⟩
    | some cell =>
      -- the key is taken
      right
      right
      apply Exists.intro cell
      apply And.intro rfl
      intro p hvalue hwritable
      obtain ⟨value, ends⟩ := cell
      obtain rfl : value = p.json.text := hvalue
      exact reserve_of_present hdepth httl hsend hwritable hcell fingerprint

/-- The payload of a confirmed entry. -/
theorem set_response (response : Dict) :
    Json.obj (Dict.set "response" (.obj response)
      (("fingerprint", .str p.fingerprint) :: match p.response with
        | none => []
        | some r => [("response", r)])) =
      Payload.json ⟨p.fingerprint, some (.obj response)⟩ := by
  cases hr : p.response with
  | none => simp [Payload.json, Dict.set]
  | some r => simp [Payload.json, Dict.set]

theorem confirmed_payload (hdepth : 0 < limits.depth) (hwritable : p.Writable limits)
    (response : Dict) : confirmed limits p.json.text response =
      match dumps limits (Payload.json ⟨p.fingerprint, some (.obj response)⟩) with
      | .error x => .error (Exn.ofJson x)
      | .ok text => .ok text := by
  have hloads := loads_payload hdepth hwritable
  rw [Payload.json] at hloads
  simp only [confirmed]
  rw [Payload.json]
  simp only [hloads, set_response]

theorem confirm_of_absent (habsent : Keyspace.purge db now (idemKey key) = none) (limits : Limits)
    (response : Dict) (ttlSeconds : ℤ) :
    (db.confirm limits now key response ttlSeconds).1 = .ok () ∧
      Keyspace.purge (db.confirm limits now key response ttlSeconds).2 now =
        Keyspace.purge db now := by
  have hget : Keyspace.get (Keyspace.purge db now) (idemKey key) = none := by
    simp [Keyspace.get, habsent]
  by_cases httl : ttlSeconds ≤ 0
  · simp [confirm, httl]
  · simp [confirm, confirmGet, httl, hget]

/-- The text of a reservation becomes that of the confirmed entry. -/
theorem confirmGet_of_present (hdepth : 0 < limits.depth) (hwritable : p.Writable limits)
    {response : Dict} (hresponse : (Json.obj response).Canonical)
    (hcheck : (Json.obj response).check limits 1 = .ok ())
    (hcell : Keyspace.purge db now (idemKey key) = some ⟨p.json.text, ends⟩) :
    db.confirmGet limits now key response =
      (.ok (some (Payload.json ⟨p.fingerprint, some (.obj response)⟩).text),
        Keyspace.purge db now) := by
  have hget : Keyspace.get (Keyspace.purge db now) (idemKey key) = some p.json.text := by
    simp [Keyspace.get, hcell]
  have hdumps := dumps_payload (p := ⟨p.fingerprint, some (.obj response)⟩) hdepth
    (writable_of_some rfl hresponse hcheck)
  simp only [confirmGet, hget, confirmed_payload hdepth hwritable, hdumps]

theorem confirm_of_present (hdepth : 0 < limits.depth) (httl : 0 < ttlSeconds)
    (hsend : sendable limits ttlSeconds = true) (hset : settable now ttlSeconds = true)
    (hwritable : p.Writable limits) {response : Dict} (hresponse : (Json.obj response).Canonical)
    (hcheck : (Json.obj response).check limits 1 = .ok ())
    (hcell : Keyspace.purge db now (idemKey key) = some ⟨p.json.text, ends⟩) :
    db.confirm limits now key response ttlSeconds =
      (.ok (), Keyspace.set (Keyspace.purge db now) (idemKey key)
        (Payload.json ⟨p.fingerprint, some (.obj response)⟩).text
        (now + ttlSeconds)) := by
  simp only [confirm, not_le.mpr httl, if_false,
    confirmGet_of_present hdepth hwritable hresponse hcheck hcell, confirmSet,
    hsend, hset, if_true, Keyspace.purge_purge]

theorem ofJson_ne_overflowError (x : JsonError) : Exn.ofJson x ≠ overflowError := by
  cases x <;> simp [Exn.ofJson, overflowError]

/-- A confirmation that cannot be written raises, and not as memory does. -/
theorem confirm_of_unwritable (hdepth : 0 < limits.depth) (httl : 0 < ttlSeconds)
    (hwritable : p.Writable limits) {response : Dict}
    (hcell : Keyspace.purge db now (idemKey key) = some ⟨p.json.text, ends⟩)
    (hunmet : ¬ (sendable limits ttlSeconds = true ∧ settable now ttlSeconds = true ∧
      (Json.obj response).check limits 1 = .ok ())) :
    ∃ x, x ≠ overflowError ∧ (db.confirm limits now key response ttlSeconds).1 = .error x := by
  have hget : Keyspace.get (Keyspace.purge db now) (idemKey key) = some p.json.text := by
    simp [Keyspace.get, hcell]
  simp only [confirm, confirmGet, not_le.mpr httl, if_false, hget,
    confirmed_payload hdepth hwritable]
  cases hdumps : dumps limits
      (Payload.json ⟨p.fingerprint, some (.obj response)⟩) with
  | error x => exact ⟨_, ofJson_ne_overflowError x, rfl⟩
  | ok text =>
    have hcheck := check_of_dumps hdepth rfl hdumps
    cases hsend : sendable limits ttlSeconds with
    | false => exact ⟨.other "ValueError", by decide, by simp [confirmSet, hsend]⟩
    | true =>
      cases hset : settable now ttlSeconds with
      | false =>
        refine ⟨dependencyUnavailable "redis" "idempotency.confirm", ?_, ?_⟩
        · exact Exn.noConfusion
        · simp [confirmSet, hsend, hset]
      | true => exact absurd ⟨hsend, hset, hcheck⟩ hunmet

theorem confirmGet_snd (limits : Limits) (db : Texts) (now : Instant) (key : String)
    (response : Dict) :
    (confirmGet limits db now key response).2 = Keyspace.purge db now := by
  simp only [confirmGet]
  cases Keyspace.get (Keyspace.purge db now) (idemKey key) with
  | none => rfl
  | some raw =>
    cases hconfirmed : confirmed limits raw response with
    | error x => simp [hconfirmed]
    | ok text => simp [hconfirmed]

/-- The text for the second command is that of an entry with the response. -/
theorem of_confirmGet (hdepth : 0 < limits.depth)
    (hwritten : ∀ cell, Keyspace.purge db now (idemKey key) = some cell →
      ∃ p : Payload, cell.value = p.json.text ∧ p.Writable limits) {response : Dict}
    (hresponse : (Json.obj response).Canonical) {text : List Char} {db' : Texts}
    (h : confirmGet limits db now key response = (.ok (some text), db')) :
    ∃ p : Payload, text = p.json.text ∧ p.Writable limits ∧
      p.response = some (.obj response) := by
  simp only [confirmGet, Keyspace.get] at h
  cases hcell : Keyspace.purge db now (idemKey key) with
  | none => simp [hcell] at h
  | some cell =>
    obtain ⟨p, hvalue, hwritable⟩ := hwritten cell hcell
    simp only [hcell, Option.map_some, hvalue, confirmed_payload hdepth hwritable] at h
    cases hdumps : dumps limits (Payload.json ⟨p.fingerprint, some (.obj response)⟩) with
    | error x => simp [hdumps] at h
    | ok written =>
      simp only [hdumps, Prod.mk.injEq, Except.ok.injEq, Option.some.injEq] at h
      have hwritable' : Payload.Writable limits ⟨p.fingerprint, some (.obj response)⟩ :=
        writable_of_some rfl hresponse (check_of_dumps hdepth rfl hdumps)
      refine ⟨_, ?_, hwritable', rfl⟩
      rw [dumps_payload hdepth hwritable', Except.ok.injEq] at hdumps
      rw [← h.1, hdumps]

/-- The second command writes its text, or raises. -/
theorem confirmSet_cases (limits : Limits) (db : Texts) (now : Instant) (key : String)
    (text : List Char) (ttlSeconds : ℤ) :
    (sendable limits ttlSeconds = true ∧ settable now ttlSeconds = true ∧
        confirmSet limits db now key text ttlSeconds =
          (.ok (), Keyspace.set (Keyspace.purge db now) (idemKey key) text (now + ttlSeconds))) ∨
      ∃ x, confirmSet limits db now key text ttlSeconds = (.error x, Keyspace.purge db now) := by
  cases hsend : sendable limits ttlSeconds with
  | false =>
    right
    exact ⟨.other "ValueError", by simp [confirmSet, hsend]⟩
  | true =>
    cases hset : settable now ttlSeconds with
    | false =>
      right
      exact ⟨dependencyUnavailable "redis" "idempotency.confirm", by simp [confirmSet, hsend, hset]⟩
    | true =>
      left
      exact ⟨rfl, rfl, by simp only [confirmSet, hsend, hset, if_true]⟩

theorem release_frame {k : String} (hk : k ≠ idemKey key) :
    Keyspace.purge (db.release now key) now k = Keyspace.purge db now k := by
  simp only [release, releaseScript]
  split
  · rw [Keyspace.purge_purge]
  · split
    · rw [Keyspace.purge_purge]
    · rw [Keyspace.purge_congr (Keyspace.del_of_ne hk), Keyspace.purge_purge]

/-- Nothing new comes from a release. -/
theorem of_release {k : String} {cell : Cell (List Char) Instant}
    (h : Keyspace.purge (db.release now key) now k = some cell) :
    Keyspace.purge db now k = some cell := by
  by_cases hk : k = idemKey key
  · subst hk
    simp only [release, releaseScript] at h
    split at h
    · simpa using h
    · split at h
      · simpa using h
      · rw [Keyspace.purge_of_none Keyspace.del_self] at h
        cases h
  · rwa [release_frame hk] at h

/-- A text with the mark in it is kept. -/
theorem release_of_mark {cell : Cell (List Char) Instant}
    (hcell : Keyspace.purge db now (idemKey key) = some cell) (hmark : mark <:+: cell.value) :
    db.release now key = Keyspace.purge db now := by
  have hget : Keyspace.get (Keyspace.purge db now) (idemKey key) = some cell.value := by
    simp [Keyspace.get, hcell]
  simp only [release, releaseScript, hget, hmark, if_true]

theorem release_of_absent (habsent : Keyspace.purge db now (idemKey key) = none) :
    db.release now key = Keyspace.purge db now := by
  have hget : Keyspace.get (Keyspace.purge db now) (idemKey key) = none := by
    simp [Keyspace.get, habsent]
  simp [release, releaseScript, hget]

/-- A text stays if the mark of a response is found in it. -/
theorem release_of_present
    (hcell : Keyspace.purge db now (idemKey key) = some ⟨p.json.text, ends⟩) :
    db.release now key =
      if p.response.isSome = true ∨ Quoted p.fingerprint then Keyspace.purge db now
      else Keyspace.del (Keyspace.purge db now) (idemKey key) := by
  have hget : Keyspace.get (Keyspace.purge db now) (idemKey key) = some p.json.text := by
    simp [Keyspace.get, hcell]
  simp only [release, releaseScript, hget, mark_infix_iff]

end Texts

end Evenkeel.Infrastructure
