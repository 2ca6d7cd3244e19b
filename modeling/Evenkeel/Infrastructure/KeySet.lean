import Evenkeel.Application.Ports
import Evenkeel.Infrastructure.Transport

/-!
# Key Sets

`JwksCache._fetch`: from the issuer's answer to the keys it publishes.

- `PyJwt`: what the code uses of PyJWT
- `fetch`: the key set of a response, or what is raised instead
- `firstUsable`: the key that a document is to have for a `kid`

## Key Results

- `fetch_eq_firstUsable`: the two agree on every document that is fetched
-/

namespace Evenkeel.Infrastructure

open Evenkeel.Application Evenkeel.Python

/-- The exceptions that `_refresh` catches. -/
inductive FetchError where
  | timeout
  | client
  | pyjwt
  | value
  deriving DecidableEq

/-- How a fetch fails: with one of them, or with anything else, a cancellation for one. -/
inductive FetchFault where
  | caught (e : FetchError)
  | escaped (e : Exn)
  deriving DecidableEq

/-- `PyJWK` and `PyJWKSet`. `build` is `none` where `PyJWK` raises; `keySet` is `PyJWKSet`,
    which raises or has the keys that can be built, in their order. -/
structure PyJwt (Key : Type) where
  build : Dict → Option Key
  keyId : Key → Json
  keySet : List Dict → Except FetchFault (List Key)
  keySet_ok : ∀ entries keys, keySet entries = .ok keys → keys = entries.filterMap build

/-- `dict[str, PyJWK]`. -/
abbrev KeySet (Key : Type) : Type := String → Option Key

def maxBytes : ℕ := 256 * 1024

/-- `isinstance(entry, dict) and entry.get("use") in (None, "sig")`. -/
def signing (entry : Json) : Option Dict :=
  match entry with
  | .obj items =>
    match Dict.get "use" items with
    | none => some items
    | some .null => some items
    | some (.str use) => if use = "sig" then some items else none
    | some _ => none
  | _ => none

variable {Key : Type} (jwt : PyJwt Key)

/-- Whether a key is found under the id. -/
def bears (kid : String) (key : Key) : Bool :=
  match jwt.keyId key with
  | .str s => s = kid
  | _ => false

/-- The loop that collects the keys: the first one wins. An id that is not a string is never
    looked up; one that cannot be hashed raises `TypeError`. -/
def collect (keys : KeySet Key) : List Key → Except FetchFault (KeySet Key)
  | [] => .ok keys
  | key :: rest =>
    match jwt.keyId key with
    | .str kid =>
      if kid = "" ∨ (keys kid).isSome then collect keys rest
      else collect (Function.update keys kid (some key)) rest
    | .arr (_ :: _) => .error (.escaped (.other "TypeError"))
    | .obj (_ :: _) => .error (.escaped (.other "TypeError"))
    | _ => collect keys rest

/-- `_fetch`, from the response on. -/
def fetch (py : Interpreter) (status : ℕ) (segments : List (List UInt8)) :
    Except FetchFault (KeySet Key) :=
  let raw := readCapped segments (maxBytes + 1)
  if status ≠ 200 then .error (.caught .value)
  else if maxBytes < raw.length then .error (.caught .value)
  else
    match decodeObject py raw with
    | .error .recursion => .error (.escaped (.other "RecursionError"))
    | .error _ => .error (.caught .value)
    | .ok none => .error (.caught .value)
    | .ok (some document) =>
      match Dict.get "keys" document with
      | some (.arr entries) =>
        match entries.filterMap signing with
        -- an explicitly empty list revokes
        | [] => .ok fun _ => none
        | first :: rest =>
          match jwt.keySet (first :: rest) with
          | .error e => .error e
          | .ok keys => collect jwt (fun _ => none) keys
      | _ => .error (.caught .value)

/-! ## What a document publishes -/

/-- The first entry that is for signatures, can be built, and bears the `kid`. -/
def firstUsable (entries : List Json) (kid : String) : Option Key :=
  if kid = "" then none
  else ((entries.filterMap signing).filterMap jwt.build).find? (bears jwt kid)

variable {jwt}

theorem collect_error {keys : KeySet Key} {rest : List Key} {e : Exn}
    (h : collect jwt keys rest = .error (.escaped e)) : e = .other "TypeError" := by
  induction rest generalizing keys with
  | nil => simp [collect] at h
  | cons key rest ih =>
    unfold collect at h
    split at h
    · split at h
      · exact ih h
      · exact ih h
    · simpa using h.symm
    · simpa using h.symm
    · exact ih h

theorem collect_eq {keys found : KeySet Key} {rest : List Key}
    (h : collect jwt keys rest = .ok found) (kid : String) :
    found kid = if kid = "" then keys kid else (keys kid).or (rest.find? (bears jwt kid)) := by
  induction rest generalizing keys with
  | nil =>
    obtain rfl := Except.ok.inj h
    simp
  | cons key rest ih =>
    -- a key that is passed over bears no id that is looked up
    have hpass (hfound : collect jwt keys rest = .ok found)
        (hbears : kid ≠ "" → bears jwt kid key = true → (keys kid).isSome) :
        found kid =
          if kid = "" then keys kid else (keys kid).or ((key :: rest).find? (bears jwt kid)) := by
      rw [ih hfound]
      split
      · rfl
      · rename_i hkid
        cases hb : bears jwt kid key with
        | false => rw [List.find?_cons_of_neg (by simp [hb])]
        | true =>
          obtain ⟨other, hother⟩ := Option.isSome_iff_exists.mp (hbears hkid hb)
          simp [hother]
    unfold collect at h
    split at h
    · rename_i id hid
      have hbears : bears jwt kid key = decide (id = kid) := by simp [bears, hid]
      -- no id, or one that has been taken
      split at h
      · rename_i hskip
        apply hpass h
        intro hkid hb
        rw [hbears, decide_eq_true_eq] at hb
        subst hb
        exact hskip.resolve_left hkid
      · -- the first key with this id
        rename_i htake
        rw [ih h]
        by_cases hid' : kid = id
        · subst hid'
          have hnone : keys kid = none := by simpa using (not_or.mp htake).2
          simp [hnone, hbears, (not_or.mp htake).1]
        · have hb : bears jwt kid key = false := by simp [hbears, Ne.symm hid']
          simp [Function.update_of_ne hid', hb]
    · -- an id that cannot be looked up ends it
      simp at h
    · simp at h
    · -- an id that is not text is passed over
      rename_i hstr _ _
      apply hpass h
      intro _ hb
      unfold bears at hb
      split at hb
      · rename_i s hs
        exact absurd hs (hstr s)
      · simp at hb

/-- What a successful fetch has for a `kid` is the first usable entry of the document. -/
theorem fetch_eq_firstUsable {py : Interpreter} {status : ℕ} {segments : List (List UInt8)}
    {keys : KeySet Key} (h : fetch jwt py status segments = .ok keys) :
    ∃ document entries, decodeObject py (readCapped segments (maxBytes + 1)) = .ok (some document) ∧
      Dict.get "keys" document = some (.arr entries) ∧
      ∀ kid, keys kid = firstUsable jwt entries kid := by
  unfold fetch at h
  dsimp only at h
  split at h
  · -- a status that is no success, a body that is too large or no document
    simp at h
  · split at h
    · simp at h
    · split at h
      · simp at h
      · simp at h
      · simp at h
      · rename_i document hdocument
        split at h
        · -- the keys of the document, of which some may sign
          rename_i entries hentries
          refine ⟨document, entries, hdocument, hentries, fun kid => ?_⟩
          split at h
          · rename_i hnone
            obtain rfl := Except.ok.inj h
            simp [firstUsable, hnone]
          · -- with the first of them, and the others after it
            rename_i first rest hsome
            split at h
            · simp at h
            · rename_i built hbuilt
              rw [collect_eq h, firstUsable, hsome, ← jwt.keySet_ok _ _ hbuilt]
              simp
        · simp at h

/-- What escapes is PyJWT's, or one of two exceptions of the language. -/
theorem fetch_escaped {py : Interpreter} {status : ℕ} {segments : List (List UInt8)} {e : Exn}
    (h : fetch jwt py status segments = .error (.escaped e)) :
    e = .other "RecursionError" ∨ e = .other "TypeError" ∨
      ∃ entries, jwt.keySet entries = .error (.escaped e) := by
  unfold fetch at h
  dsimp only at h
  split at h
  · simp at h
  · split at h
    · simp at h
    · split at h
      · exact .inl (by simpa using h.symm)
      · simp at h
      · simp at h
      · split at h
        · split at h
          · simp at h
          · rename_i first rest _
            split at h
            · rename_i cause hset
              obtain rfl := Except.error.inj h
              exact .inr (.inr ⟨_, hset⟩)
            · exact .inr (.inl (collect_error h))
        · simp at h

/-! ## Which documents are taken -/

/-- What `dict` raises `TypeError` on; an id that is empty is never looked up. -/
def Unhashable : Json → Prop
  | .arr (_ :: _) => True
  | .obj (_ :: _) => True
  | _ => False

theorem collect_of_hashable {keys : KeySet Key} {rest : List Key}
    (h : ∀ key ∈ rest, ¬ Unhashable (jwt.keyId key)) :
    ∃ found, collect jwt keys rest = .ok found := by
  induction rest generalizing keys with
  | nil => exact ⟨keys, rfl⟩
  | cons key rest ih =>
    have hkey := h key List.mem_cons_self
    have hrest := fun k hk => h k (List.mem_cons_of_mem _ hk)
    unfold collect
    split
    · split
      · exact ih hrest
      · exact ih hrest
    · rename_i hid
      simp [Unhashable, hid] at hkey
    · rename_i hid
      simp [Unhashable, hid] at hkey
    · exact ih hrest

theorem collect_of_unhashable {keys : KeySet Key} {rest : List Key} {key : Key} (hkey : key ∈ rest)
    (h : Unhashable (jwt.keyId key)) :
    collect jwt keys rest = .error (.escaped (.other "TypeError")) := by
  induction rest generalizing keys with
  | nil => cases hkey
  | cons first rest ih =>
    unfold collect
    rcases List.mem_cons.mp hkey with rfl | hkey
    · cases hid : jwt.keyId key with
      | arr items => cases items <;> simp_all [Unhashable]
      | obj items => cases items <;> simp_all [Unhashable]
      | _ => simp [Unhashable, hid] at h
    · split
      · split
        · exact ih hkey
        · exact ih hkey
      · rfl
      · rfl
      · exact ih hkey

/-- The key set in a body within the cap, be it beyond the limits of the interpreter. -/
def Carries (py : Interpreter) (raw : List UInt8) (entries : List Json) : Prop :=
  raw.length ≤ maxBytes ∧ ∃ text limits document, py.decode raw = some text ∧
    Scanner.run limits {} text = .ok (.obj document) ∧
      Dict.get "keys" document = some (.arr entries)

theorem carries_of_loads {py : Interpreter} {raw : List UInt8} {document : Dict}
    {entries : List Json} (hsize : raw.length ≤ maxBytes)
    (hload : loadsBytes py raw = .ok (.obj document))
    (hkeys : Dict.get "keys" document = some (.arr entries)) : Carries py raw entries := by
  unfold loadsBytes at hload
  cases hdecode : py.decode raw with
  | none => simp [hdecode] at hload
  | some text =>
    simp only [hdecode] at hload
    exact ⟨hsize, text, py.limits, document, hdecode, hload, hkeys⟩

/-- Within the limits it is what `json.loads` reads. -/
theorem Carries.loads {py : Interpreter} {raw : List UInt8} {entries : List Json}
    (h : Carries py raw entries) (hwithin : ¬ Limited (loadsBytes py raw)) :
    ∃ document, loadsBytes py raw = .ok (.obj document) ∧
      Dict.get "keys" document = some (.arr entries) := by
  obtain ⟨-, text, limits, document, hdecode, hrun, hkeys⟩ := h
  refine ⟨document, ?_, hkeys⟩
  unfold loadsBytes at hwithin ⊢
  simp only [hdecode] at hwithin ⊢
  rcases Scanner.run_agrees limits py.limits {} text with hlimited | hlimited | hsame
  · simp [hrun] at hlimited
  · exact absurd hlimited hwithin
  · rw [← hsame, hrun]

section

variable {py : Interpreter} {segments : List (List UInt8)} {entries : List Json}

theorem fetch_of_recursion (hsize : (readCapped segments (maxBytes + 1)).length ≤ maxBytes)
    (h : loadsBytes py (readCapped segments (maxBytes + 1)) = .error .recursion) :
    fetch jwt py 200 segments = .error (.escaped (.other "RecursionError")) := by
  simp [fetch, decodeObject, h, not_lt.mpr hsize]

/-- Where there is no key set that can be read, the fetch fails. -/
theorem fetch_of_not_carries
    (hunread : ∀ entries, Carries py (readCapped segments (maxBytes + 1)) entries →
      loadsBytes py (readCapped segments (maxBytes + 1)) = .error .value)
    (hshallow : (readCapped segments (maxBytes + 1)).length ≤ maxBytes →
      loadsBytes py (readCapped segments (maxBytes + 1)) ≠ .error .recursion) :
    fetch jwt py 200 segments = .error (.caught .value) := by
  generalize hraw : readCapped segments (maxBytes + 1) = raw at hunread hshallow
  unfold fetch
  simp only [hraw, ne_eq, not_true_eq_false, if_false]
  split
  · -- it is longer than it may be
    rfl
  · rename_i hsize
    have hsize := not_lt.mp hsize
    unfold decodeObject
    cases hload : loadsBytes py raw with
    | error e =>
      cases e with
      -- it is nested too deeply for the interpreter, which is excluded
      | recursion => exact absurd hload (hshallow hsize)
      | _ => rfl
    | ok v =>
      cases v with
      | obj document =>
        dsimp only
        split
        · -- it would carry the entries that it is not read with
          rename_i entries hkeys
          simp [hload] at hunread
          exact absurd (carries_of_loads hsize hload hkeys) (hunread entries)
        · rfl
      -- a document that is no object
      | _ => rfl

/-- Where there is one, it goes through `PyJWKSet` and the loop. -/
theorem fetch_of_carries (h : Carries py (readCapped segments (maxBytes + 1)) entries)
    (hwithin : ¬ Limited (loadsBytes py (readCapped segments (maxBytes + 1)))) :
    fetch jwt py 200 segments =
      match entries.filterMap signing with
      | [] => .ok fun _ => none
      | first :: rest =>
        match jwt.keySet (first :: rest) with
        | .error e => .error e
        | .ok keys => collect jwt (fun _ => none) keys := by
  obtain ⟨document, hload, hkeys⟩ := h.loads hwithin
  simp only [fetch, decodeObject, hload, hkeys, not_lt.mpr h.1, ne_eq, not_true_eq_false, if_false]

end

/-- A body that is no crash and hides no usable key. -/
structure Digestible (py : Interpreter) (jwt : PyJwt Key) (raw : List UInt8) : Prop where
  /-- It is not nested too deeply. -/
  shallow : raw.length ≤ maxBytes → loadsBytes py raw ≠ .error .recursion
  /-- A usable key is not beside an integer that is too long, or what `PyJWKSet` raises on. -/
  shown : ∀ entries kid, Carries py raw entries → (firstUsable jwt entries kid).isSome →
    loadsBytes py raw ≠ .error .value ∧ ∃ keys, jwt.keySet (entries.filterMap signing) = .ok keys
  /-- What `PyJWKSet` raises is caught, and it returns no key whose id cannot be hashed. -/
  typed : ∀ entries, Carries py raw entries → loadsBytes py raw ≠ .error .value →
    entries.filterMap signing ≠ [] →
      (∀ e, jwt.keySet (entries.filterMap signing) ≠ .error (.escaped e)) ∧
        ∀ keys, jwt.keySet (entries.filterMap signing) = .ok keys →
          ∀ key ∈ keys, ¬ Unhashable (jwt.keyId key)

section

variable {py : Interpreter} {segments : List (List UInt8)} {entries : List Json}

theorem not_limited_of_shallow {raw : List UInt8} (hshallow : loadsBytes py raw ≠ .error .recursion)
    (hread : loadsBytes py raw ≠ .error .value) : ¬ Limited (loadsBytes py raw) := by
  cases hload : loadsBytes py raw with
  | ok v => simp
  | error e =>
    rw [limited_error, not_or]
    constructor
    · intro he
      exact hread (by rw [hload, he])
    · intro he
      exact hshallow (by rw [hload, he])

/-- A digestible body that has a key set which can be read. -/
theorem Digestible.fetch_ok (h : Digestible py jwt (readCapped segments (maxBytes + 1)))
    (hcarries : Carries py (readCapped segments (maxBytes + 1)) entries)
    (hread : loadsBytes py (readCapped segments (maxBytes + 1)) ≠ .error .value) :
    (∃ keys, fetch jwt py 200 segments = .ok keys) ∨
      (∃ e, fetch jwt py 200 segments = .error (.caught e)) ∧
        ∃ e, jwt.keySet (entries.filterMap signing) = .error e := by
  have hwithin := not_limited_of_shallow (h.shallow hcarries.1) hread
  rw [fetch_of_carries hcarries hwithin]
  have htyped := h.typed entries hcarries hread
  cases hsigning : entries.filterMap signing with
  | nil => exact .inl ⟨_, rfl⟩
  | cons first rest =>
    rw [hsigning] at htyped
    obtain ⟨hcaught, hhashable⟩ := htyped (List.cons_ne_nil _ _)
    dsimp only
    cases hset : jwt.keySet (first :: rest) with
    | error e =>
      cases e with
      | caught e => exact .inr ⟨⟨e, rfl⟩, _, rfl⟩
      | escaped e => exact absurd hset (hcaught e)
    | ok keys => exact .inl (collect_of_hashable (hhashable keys hset))

theorem Digestible.not_escaped (h : Digestible py jwt (readCapped segments (maxBytes + 1)))
    (e : Exn) : fetch jwt py 200 segments ≠ .error (.escaped e) := by
  by_cases hread : ∃ entries, Carries py (readCapped segments (maxBytes + 1)) entries ∧
      loadsBytes py (readCapped segments (maxBytes + 1)) ≠ .error .value
  · obtain ⟨entries, hcarries, hread⟩ := hread
    rcases h.fetch_ok hcarries hread with ⟨keys, hfetch⟩ | ⟨⟨e, hfetch⟩, -⟩
    · simp [hfetch]
    · simp [hfetch]
  · rw [fetch_of_not_carries _ h.shallow]
    · simp
    · intro entries hcarries
      by_contra hvalue
      exact hread ⟨entries, hcarries, hvalue⟩

theorem Digestible.shows (h : Digestible py jwt (readCapped segments (maxBytes + 1)))
    (hcarries : Carries py (readCapped segments (maxBytes + 1)) entries) {kid : String} {key : Key}
    (husable : firstUsable jwt entries kid = some key) :
    ∃ keys, fetch jwt py 200 segments = .ok keys ∧ keys kid = some key := by
  obtain ⟨hread, keys, hset⟩ := h.shown entries kid hcarries (by simp [husable])
  rcases h.fetch_ok hcarries hread with ⟨found, hfetch⟩ | ⟨-, e, hraises⟩
  · refine ⟨found, hfetch, ?_⟩
    obtain ⟨document, entries', hdocument, hentries, hfound⟩ := fetch_eq_firstUsable hfetch
    -- it is the same key set
    obtain ⟨document', hload, hkeys⟩ := hcarries.loads (by
      rw [← decodeObject_ok_iff]
      exact ⟨_, hdocument⟩)
    simp only [decodeObject, hload, Except.ok.injEq, Option.some.injEq] at hdocument
    subst hdocument
    rw [hkeys, Option.some.injEq, Json.arr.injEq] at hentries
    rw [hfound, ← hentries, husable]
  · rw [hset] at hraises
    cases hraises

/-- The document is a crash or hides a usable key exactly if it is not digestible. -/
theorem digestible_iff :
    ((∀ e, fetch jwt py 200 segments ≠ .error (.escaped e)) ∧
      ∀ entries kid key, Carries py (readCapped segments (maxBytes + 1)) entries →
        firstUsable jwt entries kid = some key →
          ∃ keys, fetch jwt py 200 segments = .ok keys ∧ keys kid = some key) ↔
    Digestible py jwt (readCapped segments (maxBytes + 1)) := by
  constructor
  · intro h
    obtain ⟨hescaped, hshows⟩ := h
    have hshallow : (readCapped segments (maxBytes + 1)).length ≤ maxBytes →
        loadsBytes py (readCapped segments (maxBytes + 1)) ≠ .error .recursion :=
      fun hsize hdeep => hescaped _ (fetch_of_recursion hsize hdeep)
    -- what the fetch raises is caught
    refine ⟨hshallow, ?_, ?_⟩
    · -- usable keys are found
      intro entries kid hcarries husable
      obtain ⟨key, hkey⟩ := Option.isSome_iff_exists.mp husable
      obtain ⟨keys, hfetch, -⟩ := hshows entries kid key hcarries hkey
      obtain ⟨document, -, hdocument, -⟩ := fetch_eq_firstUsable hfetch
      have hwithin := decodeObject_ok_iff.mp ⟨_, hdocument⟩
      refine ⟨fun hvalue => hwithin (by simp [hvalue]), ?_⟩
      rw [fetch_of_carries hcarries hwithin] at hfetch
      split at hfetch
      · -- where no key may sign, none is usable
        rename_i hnone
        simp [firstUsable, hnone] at husable
      · rename_i first rest hsome
        rw [hsome]
        split at hfetch
        · simp at hfetch
        · rename_i built hbuilt
          exact ⟨built, hbuilt⟩
    · -- and the set can be built from the entries
      intro entries hcarries hread hsigning
      have hwithin := not_limited_of_shallow (hshallow hcarries.1) hread
      rw [fetch_of_carries hcarries hwithin] at hescaped
      obtain ⟨first, rest, hsome⟩ := List.exists_cons_of_ne_nil hsigning
      rw [hsome] at hescaped ⊢
      dsimp only at hescaped
      constructor
      · intro e hset
        simp [hset] at hescaped
      · intro keys hset key hkey hunhashable
        rw [hset] at hescaped
        exact hescaped _ (collect_of_unhashable hkey hunhashable)
  · intro h
    exact ⟨h.not_escaped, fun entries kid key hcarries => h.shows hcarries⟩

end

/-- PyJWT, of symmetric keys. -/
def Sample.octets : PyJwt Dict where
  build entry :=
    match Dict.get "kty" entry with
    | some (.str "oct") => some entry
    | _ => none
  keyId entry := (Dict.get "kid" entry).getD .null
  keySet entries := .ok (entries.filterMap fun entry =>
    match Dict.get "kty" entry with
    | some (.str "oct") => some entry
    | _ => none)
  keySet_ok _ _ h := (Except.ok.inj h).symm

end Evenkeel.Infrastructure
