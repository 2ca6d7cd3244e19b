import Evenkeel.Infrastructure.JwksCache

/-!
# Signing Keys

What the key cache promises its callers and the issuer, over every run of any number of calls.

- `grace_ceiling_iff`, `missing_key_iff`: two promises that a cancelled fetch, or a slow one,
  can break, and exactly when
- `fetches_are_spaced`: the issuer is not flooded
- `malformed_document_iff`: which documents of the issuer are a crash, or hide a usable key
- `served_key_is_published`: a key that is withdrawn is not served any more
-/

namespace Evenkeel.Properties

open Evenkeel.Application Evenkeel.Effects Evenkeel.Infrastructure Evenkeel.Infrastructure.Issuer
open Evenkeel.Python

variable {Key : Type} {policy : JwksPolicy} {py : Interpreter} {jwt : PyJwt Key}
  {w w' : Issuer Key} {t : List (Transition (Issuer Key) JwksEvent)}

/-! An issuer with one key, for the runs below. -/

private def document : List UInt8 :=
  "\x7b\"keys\": [\x7b\"kty\": \"oct\", \"kid\": \"a\", \"k\": \"c2VjcmV0\"\x7d]\x7d".toUTF8.toList

private def cold : Machine (Issuer Dict) JwksEvent := machine {} Sample.latin Sample.octets

/-! ## The ceiling -/

/-- A response with status 200 is answered with a key, with none, or with an outage; and a
    usable key of its document is in the refreshed set. -/
def Withstands (py : Interpreter) (jwt : PyJwt Key) (τ : Transition (Issuer Key) JwksEvent) :
    Prop :=
  ∀ i segments, τ.event = .respond i 200 segments →
    (∃ kid result, Answers τ i kid result ∧ ∀ e, result = .error e → e = jwksUnavailable) ∧
      ∀ entries kid key, Carries py (readCapped segments (maxBytes + 1)) entries →
        firstUsable jwt entries kid = some key →
          ∃ f rest keys, τ.after.fetches = f :: rest ∧ f.caller = i ∧ f.ended = some (.ok keys) ∧
            τ.after.cache.keys = keys ∧ keys kid = some key

/-- What a response to the fetch of a call leads to. -/
theorem after_respond (h : w.Accounted policy) {i : ℕ} {status : ℕ} {segments : List (List UInt8)}
    (hstep : w.step policy py jwt (.respond i status segments) = some w') :
    ∃ kid held f rest, Answers ⟨w, .respond i status segments, w'⟩ i kid
        (w.cache.ended policy w.now kid held (fetch jwt py status segments)).2 ∧
      w'.fetches = f :: rest ∧ f.caller = i ∧ f.ended = some (fetch jwt py status segments) ∧
      w'.cache.keys =
        (w.cache.ended policy w.now kid held (fetch jwt py status segments)).1.keys := by
  simp only [step] at hstep
  split at hstep
  · rename_i kid held hfetching
    obtain ⟨f, rest, hfetches, rfl, -⟩ := h.flight i ⟨kid, held, hfetching⟩
    obtain ⟨lock, -, heq⟩ := settle_eq h hfetching (fetch jwt py status segments)
    obtain ⟨rest', hrecord⟩ := record_head hfetches (fetch jwt py status segments)
    obtain rfl := Option.some.inj hstep
    rw [heq]
    exact ⟨kid, held, _, rest', ⟨by simp [hfetching], by simp⟩, hrecord, rfl, rfl, rfl⟩
  · simp at hstep

theorem withstands_of_digestible (h : w.Accounted policy) {event : JwksEvent}
    (hstep : w.step policy py jwt event = some w')
    (hdigestible : ∀ i segments, event = .respond i 200 segments →
      Digestible py jwt (readCapped segments (maxBytes + 1))) :
    Withstands py jwt ⟨w, event, w'⟩ := by
  rintro i segments rfl
  have hbody := hdigestible i segments rfl
  obtain ⟨kid, held, f, rest, hanswers, hfetches, hcaller, hended, hkeys⟩ := after_respond h hstep
  constructor
  · refine ⟨kid, _, hanswers, ?_⟩
    intro e he
    cases hfetch : fetch jwt py 200 segments with
    | ok keys => simp [hfetch, JwksCache.ended] at he
    | error fault =>
      cases fault with
      | caught cause =>
        rw [hfetch] at he
        exact JwksCache.serveWithinGrace_error he
      | escaped cause => exact absurd hfetch (hbody.not_escaped cause)
  · intro entries kid' key hcarries husable
    obtain ⟨keys, hfetch, hkey⟩ := hbody.shows hcarries husable
    rw [hfetch] at hended hkeys
    exact ⟨f, rest, keys, hfetches, hcaller, hended, hkeys, hkey⟩

theorem digestible_of_withstands
    (hforeign : ∀ entries, jwt.keySet entries ≠ .error (.escaped jwksUnavailable))
    (h : w.Accounted policy) {event : JwksEvent} (hstep : w.step policy py jwt event = some w')
    (hwithstands : Withstands py jwt ⟨w, event, w'⟩) :
    ∀ i segments, event = .respond i 200 segments →
      Digestible py jwt (readCapped segments (maxBytes + 1)) := by
  rintro i segments rfl
  obtain ⟨⟨kid, result, hresult, hraised⟩, hshows⟩ := hwithstands i segments rfl
  obtain ⟨kid', held, f, rest, hanswers, hfetches, -, hended, -⟩ := after_respond h hstep
  rw [← digestible_iff]
  constructor
  · intro e hfetch
    -- what escapes is the answer
    have hsame := hresult.2.symm.trans hanswers.2
    simp only [hfetch, JwksCache.ended, Get.done.injEq] at hsame
    obtain rfl := hraised e hsame.2
    rcases fetch_escaped hfetch with he | he | ⟨entries, hset⟩
    · cases he
    · cases he
    · exact hforeign entries hset
  · intro entries kid key hcarries husable
    obtain ⟨g, rest', keys, hfetches', -, hended', -, hkey⟩ :=
      hshows entries kid key hcarries husable
    rw [hfetches] at hfetches'
    obtain ⟨rfl, -⟩ := List.cons.inj hfetches'
    rw [hended] at hended'
    exact ⟨keys, Option.some.inj hended', hkey⟩

/-- In every run of calls and fetches: a document with status 200 is no crash and hides no
    usable key exactly if it is digestible; and without a response nothing is raised but that
    the key set is unavailable, or that the call is cancelled. -/
theorem malformed_document_iff
    (hforeign : ∀ entries, jwt.keySet entries ≠ .error (.escaped jwksUnavailable))
    (hrun : (machine policy py jwt).Run t w) :
    (∀ τ ∈ t, Withstands py jwt τ ↔ ∀ i segments, τ.event = .respond i 200 segments →
      Digestible py jwt (readCapped segments (maxBytes + 1))) ∧
    ∀ τ ∈ t, (∀ i status segments, τ.event ≠ .respond i status segments) →
      (∀ i fault, τ.event ≠ .fault i fault) →
        ∀ i kid e, Answers τ i kid (.error e) → e = jwksUnavailable ∨ e = .cancelled := by
  constructor
  · -- each transition comes after a run
    intro τ hτ
    obtain ⟨u, hearlier, hstep⟩ := hrun.of_mem hτ
    have h := accounted_of_run hearlier
    constructor
    · intro hwithstands
      exact digestible_of_withstands hforeign h hstep hwithstands
    · intro hdigestible
      exact withstands_of_digestible h hstep hdigestible
  · -- a call that is not answered by a response or a fault raises the port's error
    intro τ hτ hrespond hfault i kid e hanswers
    obtain ⟨u, hearlier, hstep⟩ := hrun.of_mem hτ
    generalize hresult : (Except.error e : Except Exn (Option Key)) = result at hanswers
    cases answered_of_step (accounted_of_run hearlier) hstep hanswers with
    | fast => cases hresult
    | locked hdecides hfound hsame =>
      subst hresult
      exact .inl (JwksCache.underLock_error hfound)
    | cancelled => exact .inr (Except.error.inj hresult)
    | fetched hfetching hw' hevent =>
      rcases hevent with ⟨status, segments, hevent, -⟩ | ⟨fault, hevent, -⟩
      · exact absurd hevent (hrespond i status segments)
      · exact absurd hevent (hfault i fault)

/-- A number among the entries. -/
private def littered : List UInt8 :=
  "\x7b\"keys\": [1, \x7b\"kty\": \"oct\", \"kid\": \"a\"\x7d]\x7d".toUTF8.toList

private def isLittered : Except JsonError Json → Bool
  | .ok (.obj [("keys", .arr [.number ['1'], .obj [("kty", .str "oct"), ("kid", .str "a")]])]) =>
    true
  | _ => false

private theorem loads_littered :
    loadsBytes Sample.latin (readCapped [littered] (maxBytes + 1)) = .ok (.obj [("keys", .arr
      [.number ['1'], .obj [("kty", .str "oct"), ("kid", .str "a")]])]) := by
  have hread :
      isLittered (loadsBytes Sample.latin (readCapped [littered] (maxBytes + 1))) = true := by
    with_unfolding_all decide
  unfold isLittered at hread
  split at hread
  · assumption
  · simp at hread

private theorem digestible_littered :
    Digestible Sample.latin Sample.octets (readCapped [littered] (maxBytes + 1)) where
  shallow _ := by simp [loads_littered]
  shown entries kid _ _ := ⟨by simp [loads_littered], _, rfl⟩
  typed entries hcarries _ _ := by
    obtain ⟨document, hload, hkeys⟩ := hcarries.loads (by simp [loads_littered])
    rw [loads_littered] at hload
    obtain rfl := Json.obj.inj (Except.ok.inj hload)
    obtain rfl := Json.arr.inj (Option.some.inj hkeys)
    refine ⟨by simp [Sample.octets], ?_⟩
    intro keys hset key hkey
    obtain rfl := Except.ok.inj hset
    obtain rfl : [("kty", .str "oct"), ("kid", .str "a")] = key := by
      simpa [signing, Dict.get] using hkey
    exact id

/-- The number is passed over. -/
theorem malformed_document_iff_littered : ∃ t w, cold.Run t w ∧ t.length = 2 ∧
    (∃ τ ∈ t, τ.event = .respond 0 200 [littered]) ∧
      ∀ τ ∈ t, Withstands Sample.latin Sample.octets τ := by
  have h := Machine.Run.nil (M := cold)
  have h := h.snoc (e := .get 0 "a") rfl
  have h := h.snoc (e := .respond 0 200 [littered]) rfl
  refine ⟨_, _, h, rfl, ⟨_, List.mem_append_right _ (List.mem_singleton_self _), rfl⟩, ?_⟩
  intro τ hτ
  apply ((malformed_document_iff (by simp [Sample.octets]) h).1 τ hτ).mpr
  intro i segments hevent
  simp only [List.nil_append, List.cons_append, List.mem_cons, List.not_mem_nil, or_false] at hτ
  rcases hτ with rfl | rfl
  · cases hevent
  · cases hevent
    exact digestible_littered

/-- A usable key, and an entry whose id is a list. -/
private def listed : List UInt8 :=
  ("\x7b\"keys\": [\x7b\"kty\": \"oct\", \"kid\": \"a\"\x7d, " ++
    "\x7b\"kty\": \"oct\", \"kid\": [1]\x7d]\x7d").toUTF8.toList

/-- The event makes the first call crash. -/
private def crashes (w : Issuer Dict) (event : JwksEvent) : Bool :=
  match w.calls 0, cold.step w event with
  | .fetching _ _, some w' =>
    match w'.calls 0 with
    | .done "a" (.error (.other "TypeError")) => true
    | _ => false
  | _, _ => false

/-- It is neither a key nor an outage: the call raises `TypeError`. -/
theorem list_as_kid_is_a_crash : ∃ t w, cold.Run t w ∧ ∃ τ ∈ t,
    τ.event = .respond 0 200 [listed] ∧ Answers τ 0 "a" (.error (.other "TypeError")) ∧
      ¬ Withstands Sample.latin Sample.octets τ := by
  have hexec : (cold.exec [.get 0 "a"]).any
      (fun w => crashes w (.respond 0 200 [listed])) = true := by
    with_unfolding_all decide
  obtain ⟨t, w, hrun, -, hraises⟩ := Machine.run_of_exec_any hexec
  unfold crashes at hraises
  split at hraises
  · rename_i w' hfetching hstep
    split at hraises
    · rename_i hdone
      have hanswers : Answers ⟨w, .respond 0 200 [listed], w'⟩ 0 "a"
          (.error (.other "TypeError")) := ⟨by simp [hfetching], hdone⟩
      refine ⟨_, w', hrun.snoc hstep, _, List.mem_append_right _ (List.mem_singleton_self _), rfl,
        hanswers, ?_⟩
      intro hwithstands
      obtain ⟨⟨kid, result, hresult, hraised⟩, -⟩ := hwithstands 0 [listed] rfl
      have hsame := hdone.symm.trans hresult.2
      simp only [Get.done.injEq] at hsame
      have he := hraised _ hsame.2.symm
      cases he
    · simp at hraises
  · simp at hraises

/-! ## The issuer's endpoint -/

/-- At most one fetch is under way, and any two are started at least the floor apart. -/
theorem fetches_are_spaced (hrun : (machine policy py jwt).Run t w) :
    (∀ i j, w.Fetching i → w.Fetching j → i = j) ∧
      (w.fetches.map (·.startedAt)).Pairwise fun later earlier =>
        policy.minRefreshSeconds ≤ later - earlier := by
  have h := accounted_of_run hrun
  exact ⟨h.owned.unique, h.spaced⟩

/-- The call is the second to fetch, forty seconds after the first. -/
private def refetches (w : Issuer Dict) (i : ℕ) : Bool :=
  match w.calls i with
  | .fetching _ _ => decide (w.fetches.map (·.startedAt) = [40, 0])
  | _ => false

theorem fetches_are_spaced_twice : ∃ t w, cold.Run t w ∧ w.Fetching 2 ∧
    w.fetches.map (·.startedAt) = [40, 0] ∧
    (∀ i j, w.Fetching i → w.Fetching j → i = j) ∧
      (w.fetches.map (·.startedAt)).Pairwise fun later earlier => 30 ≤ later - earlier := by
  -- a second call within the floor does not fetch, and one after it does
  have hexec : (cold.exec [.get 0 "a", .respond 0 200 [document], .tick 10, .get 1 "b", .tick 30,
      .get 2 "b"]).any (fun w => refetches w 2) = true := by
    with_unfolding_all decide
  obtain ⟨t, w, hrun, -, hrefetches⟩ := Machine.run_of_exec_any hexec
  unfold refetches at hrefetches
  split at hrefetches
  · rename_i kid key hfetching
    exact ⟨t, w, hrun, ⟨kid, key, hfetching⟩, of_decide_eq_true hrefetches, fetches_are_spaced hrun⟩
  · simp at hrefetches

/-! ## Withdrawal -/

/-- A key that is served is the first usable one of the document that was fetched last; and a
    key that was withdrawn is not served until a fetch publishes it again. -/
theorem served_key_is_published (hrun : (machine policy py jwt).Run t w) :
    (∀ before τ later, t = before ++ τ :: later →
      -- the run up to the answer
      ∀ i kid key, Answers τ i kid (.ok (some key)) →
        ∃ keys, latest py jwt (before ++ [τ]) = some keys ∧ keys kid = some key ∧
          ∃ document entries, Dict.get "keys" document = some (.arr entries) ∧
            firstUsable jwt entries kid = some key ∧
            ∃ σ ∈ before ++ [τ], ∃ i status segments, σ.event = .respond i status segments ∧
              fetch jwt py status segments = .ok keys ∧
              decodeObject py (readCapped segments (maxBytes + 1)) = .ok (some document)) ∧
      ∀ before σ between τ later, t = before ++ σ :: between ++ τ :: later →
        ∀ keys kid, Publishes py jwt σ.event keys → keys kid = none →
          (∀ ρ ∈ between ++ [τ], ∀ keys, ¬ Publishes py jwt ρ.event keys) →
          ∀ i key, ¬ Answers τ i kid (.ok (some key)) := by
  -- the latest document is one that was fetched, and its first usable entry is the key
  have hserved : ∀ before τ later, t = before ++ τ :: later →
      ∀ i kid key, Answers τ i kid (.ok (some key)) →
        ∃ keys, latest py jwt (before ++ [τ]) = some keys ∧ keys kid = some key := by
    intro before τ later ht i kid key hanswers
    have hprefix : (machine policy py jwt).Run ((before ++ [τ]) ++ later) w := by
      simpa [ht] using hrun
    obtain ⟨w', hrun'⟩ := hprefix.of_append
    obtain ⟨hearlier, hstep, rfl⟩ := hrun'.last
    have hcached := served_is_cached (accounted_of_run hearlier) hstep hanswers
    refine ⟨τ.after.cache.keys, ?_, hcached⟩
    rw [← published_eq_latest hrun']
    rcases (accounted_of_run hrun').published with ⟨-, -, hnone⟩ | ⟨time, hsome, -⟩
    · simp [hnone] at hcached
    · simp [hsome]
  constructor
  · intro before τ later ht i kid key hanswers
    obtain ⟨keys, hlatest, hkey⟩ := hserved before τ later ht i kid key hanswers
    obtain ⟨σ, hσ, j, status, segments, hevent, hfetch⟩ := publishes_of_latest hlatest
    obtain ⟨document, entries, hdocument, hentries, hfirst⟩ := fetch_eq_firstUsable hfetch
    exact ⟨keys, hlatest, hkey, document, entries, hentries, by rw [← hfirst, hkey],
      σ, hσ, j, status, segments, hevent, hfetch, hdocument⟩
  · intro before σ between τ later ht keys kid hpublishes hnone hsilent i key hanswers
    obtain ⟨keys', hlatest, hkey⟩ :=
      hserved (before ++ σ :: between) τ later (by simpa using ht) i kid key hanswers
    -- what was fetched last is what withdrew the key
    have hsame : latest py jwt ((before ++ [σ]) ++ (between ++ [τ])) = some keys := by
      rw [latest_append hsilent, latest, List.foldl_append]
      exact publish_of_publishes hpublishes
    simp only [List.append_assoc, List.cons_append, List.nil_append] at hlatest hsame
    rw [hsame] at hlatest
    obtain rfl := Option.some.inj hlatest
    simp [hnone] at hkey

/-- A document that has another key in place of the first one. -/
private def rotated : List UInt8 :=
  "\x7b\"keys\": [\x7b\"kty\": \"oct\", \"kid\": \"b\", \"k\": \"c2VjcmV0\"\x7d]\x7d".toUTF8.toList

private def omits (result : Except FetchFault (KeySet Dict)) : Bool :=
  match result with
  | .ok keys => (keys "a").isNone
  | .error _ => false

private theorem fetch_rotated :
    ∃ keys, fetch Sample.octets Sample.latin 200 [rotated] = .ok keys ∧ keys "a" = none := by
  have hread : omits (fetch Sample.octets Sample.latin 200 [rotated]) = true := by
    with_unfolding_all decide
  unfold omits at hread
  split at hread
  · rename_i keys hfetch
    exact ⟨keys, hfetch, Option.isNone_iff_eq_none.mp hread⟩
  · simp at hread

/-- The second call finds its key in the cache. -/
private def finds (w : Issuer Dict) : JwksEvent → Bool
  | .get 1 kid =>
    match w.calls 1 with
    | .idle => (w.cache.fastPath {} w.now kid).isSome
    | _ => false
  | _ => true

private def denies (w : Issuer Dict) (i : ℕ) : Bool :=
  match w.calls i with
  | .done "a" (.ok none) => true
  | _ => false

/-- A key is served from the cache, is withdrawn by the next document, and is not served then. -/
theorem served_key_is_published_rotated : ∃ before τ later w key keys,
    cold.Run (before ++ τ :: later) w ∧ Answers τ 1 "a" (.ok (some key)) ∧
      latest Sample.latin Sample.octets (before ++ [τ]) = some keys ∧ keys "a" = some key ∧
      (∃ σ ∈ later, ∃ keys', Publishes Sample.latin Sample.octets σ.event keys' ∧
        keys' "a" = none) ∧
      w.calls 3 = .done "a" (.ok none) ∧
      ∃ ρ ∈ later, ρ.event = .get 3 "a" ∧ ∀ key, ¬ Answers ρ 3 "a" (.ok (some key)) := by
  have hexec : ((cold.under finds).exec [.get 0 "a", .respond 0 200 [document], .get 1 "a",
      .tick 700, .get 2 "b", .respond 2 200 [rotated], .get 3 "a"]).any
        (fun w => denies w 3) = true := by
    with_unfolding_all decide
  obtain ⟨t, w, hunder, hevents, hdenies⟩ := Machine.run_of_exec_any hexec
  obtain ⟨hrun, hfinds⟩ := hunder.of_under
  -- the transitions of the run, by their events
  simp only [List.map_eq_cons_iff, List.map_eq_nil_iff] at hevents
  obtain ⟨τ₀, _, rfl, -, τ₁, _, rfl, -, τ₂, _, rfl, hserve, τ₃, _, rfl, -, τ₄, _, rfl, -, τ₅, _,
    rfl, hwithdraw, τ₆, _, rfl, hdeny, rfl⟩ := hevents
  obtain ⟨keys', hfetch, hnone⟩ := fetch_rotated
  have hpublishes : Publishes Sample.latin Sample.octets τ₅.event keys' :=
    ⟨2, 200, [rotated], hwithdraw, hfetch⟩
  obtain ⟨key, hanswers⟩ : ∃ key, Answers τ₂ 1 "a" (.ok (some key)) := by
    have hfound := hfinds τ₂ (by simp)
    obtain ⟨u, -, hstep⟩ := hrun.of_mem (List.mem_of_getElem? (i := 2) rfl : τ₂ ∈ _)
    simp only [hserve, finds] at hfound
    split at hfound
    · rename_i hidle
      obtain ⟨key, hkey⟩ := Option.isSome_iff_exists.mp hfound
      obtain ⟨w, event, w'⟩ := τ₂
      obtain rfl : event = .get 1 "a" := hserve
      have hstep' : w.step {} Sample.latin Sample.octets (.get 1 "a") = some w' := hstep
      exact ⟨key, (answers_of_fastPath hidle hkey hstep').1⟩
    · simp at hfound
  obtain ⟨keys, hlatest, hkey, -⟩ :=
    (served_key_is_published hrun).1 [τ₀, τ₁] τ₂ [τ₃, τ₄, τ₅, τ₆] rfl 1 "a" key hanswers
  refine ⟨[τ₀, τ₁], τ₂, [τ₃, τ₄, τ₅, τ₆], w, key, keys, hrun, hanswers, hlatest, hkey,
    ⟨τ₅, by simp, keys', hpublishes, hnone⟩, ?_, τ₆, by simp, hdeny, ?_⟩
  · unfold denies at hdenies
    split at hdenies
    · assumption
    · simp at hdenies
  · refine (served_key_is_published hrun).2 [τ₀, τ₁, τ₂, τ₃, τ₄] τ₅ [] τ₆ [] rfl keys' "a"
      hpublishes hnone ?_ 3
    -- nothing is published after the document that withdraws the key
    rintro ρ hρ keys ⟨i, status, segments, hevent, -⟩
    obtain rfl := List.mem_singleton.mp hρ
    rw [hdeny] at hevent
    cases hevent

end Evenkeel.Properties
