import Evenkeel.Infrastructure.RiskAssessment
import Evenkeel.Infrastructure.Deployment

/-!
# What a Provider Can Answer

The adapter owes its caller a decision whatever the provider answers. `decode_object` lets two
exceptions of `json.loads` through, and they leave the adapter too: a body that has a long
integer in it, or is nested deeply, is no unavailable provider but an exception.
-/

namespace Evenkeel.Properties

open Evenkeel.Application Evenkeel.Effects Evenkeel.Infrastructure Evenkeel.Python

/-- Only the provider and the network are heard of: the bulkhead lets the call in and out, no
    sleep is interrupted, and a request ends in a response, a `TimeoutError` or a
    `ClientError`. -/
def Undisturbed (t : List (Event WireOp WireResp)) : Prop :=
  ∀ event ∈ t, ∀ e, wireFailure e event.1 ≠ some event.2

/-- The exchanges with the provider in an execution. -/
def exchangesOf (t : List (Event WireOp WireResp)) : List Exchange := t.foldl exchanged []

/-- A body is decoded, or found not to be an object, unless its text is beyond the limits of
    the interpreter; and a call of the transport and an assessment return, unless a body is
    such a text behind a status below 300 and within the cap. -/
theorem adapter_returns_iff (py : Interpreter) (policy : TransportPolicy)
    (baseUrl path : String) :
    (∀ raw, (∃ body, decodeObject py raw = .ok body) ↔
      ¬∃ text, py.decode raw = some text ∧ Scanner.Overruns py.limits {} text) ∧
    (∀ payload operation t r,
      (postJson py policy baseUrl path payload operation).Performs t (.done r) →
      Undisturbed t →
      ((∃ response, r = .ok response) ↔ ∀ x ∈ exchangesOf t, ¬x.Hostile py policy)) ∧
    ∀ check t r, (assess py policy baseUrl path check).Performs t (.done r) →
      Undisturbed t →
      ((∃ decision, r = .ok decision) ↔ ∀ x ∈ exchangesOf t, ¬x.Hostile py policy) := by
  refine ⟨?_, ?_, ?_⟩
  · intro raw
    rw [decodeObject_ok_iff, limited_loadsBytes]
  · intro payload operation t r hperforms hundisturbed
    have htells := Contract.of_tracking (s := [])
      (postJson_tells (E := fun _ => False) (by simp)) hperforms hundisturbed
    cases r with
    | ok response => exact ⟨fun _ => htells.1, fun _ => ⟨response, rfl⟩⟩
    | error e =>
      rcases htells with hfalse | ⟨cause, x, -, hx, hhostile⟩
      · exact hfalse.elim
      · simp only [reduceCtorEq, exists_false, false_iff, not_forall]
        exact ⟨x, hx, not_not.mpr hhostile⟩
  · intro check t r hperforms hundisturbed
    have hjudges := Contract.of_tracking (s := [])
      (assess_judges (E := fun _ => False) (by simp)) hperforms hundisturbed
    cases r with
    | ok decision => exact ⟨fun _ => hjudges.1, fun _ => ⟨decision, rfl⟩⟩
    | error e =>
      rcases hjudges with hfalse | ⟨cause, x, -, hx, hhostile⟩
      · exact hfalse.elim
      · simp only [reduceCtorEq, exists_false, false_iff, not_forall]
        exact ⟨x, hx, not_not.mpr hhostile⟩

/-! ## A provider of ASCII texts -/

/-- How deep the brackets may go does not matter here. -/
private def asciiOnly (depth : ℕ) : Interpreter where
  limits := { depth }
  decode raw := some (raw.map fun b => Char.ofNat b.toNat)
  float _ := none

private def risk : TransportPolicy where
  service := "risk"

private def oneEuro : RiskCheck :=
  ⟨Sample.wallet.id, Sample.owner, Sample.euro, .credit, none⟩

/-- An HTML page where a decision was expected. -/
private def page : HttpResponse := ⟨200, none, [[60, 104, 116, 109, 108, 62]], by decide⟩

/-- The object `{"a": …}` with an integer of so many digits. -/
private def long (n : ℕ) : HttpResponse :=
  ⟨200, none, [[123, 34, 97, 34, 58, 32] ++ List.replicate n 57 ++ [125]], by simp⟩

private theorem conclude_page (depth : ℕ) :
    conclude (asciiOnly depth) risk (.response page) =
      .ok (⟨some 200, none, .malformed⟩, none) := rfl

private theorem length_long (n : ℕ) : (long n).body.length = n + 7 := by
  simp [long, HttpResponse.body]

private theorem decode_long (depth n : ℕ) : (asciiOnly depth).decode (long (n + 1)).body =
    some ("\x7b\"a\": 9".toList ++ (List.replicate n '9' ++ ['}'])) := by
  simp only [asciiOnly, long, HttpResponse.body, List.flatten_cons, List.flatten_nil,
    List.append_nil, List.map_append, List.replicate_succ, List.map_cons, List.map_replicate,
    List.map_nil, List.append_assoc]
  rfl

private theorem decodeObject_long {depth n : ℕ} (hdepth : 0 < depth) (hlong : 4300 ≤ n) :
    decodeObject (asciiOnly depth) (long (n + 1)).body = .error .value := by
  have hopen : ¬ (asciiOnly depth).limits.depth ≤ 0 := not_le.mpr hdepth
  have hbrace : Scanner.step (asciiOnly depth).limits {} '{' = .ok ⟨.key true [], []⟩ := by
    simp [Scanner.step, Scanner.begin, isSpace, hopen]
  have hload : loadsBytes (asciiOnly depth) (long (n + 1)).body = .error .value := by
    simp only [loadsBytes, decode_long]
    -- the object is read up to the first digit
    have hbegin : Scanner.run (asciiOnly depth).limits {} ("\x7b\"a\": 9".toList ++
        (List.replicate n '9' ++ ['}'])) = Scanner.run (asciiOnly depth).limits
          ⟨.number .int 1 ['9'], [.obj [] "a"]⟩ (List.replicate n '9' ++ ['}']) :=
      (Scanner.run_cons hbrace _).trans rfl
    rw [hbegin, Scanner.run_digits (by decide)]
    apply Scanner.run_long
    · show 4300 < 1 + n
      omega
    · decide
  simp [decodeObject, hload]

private theorem conclude_long {depth n : ℕ} (hdepth : 0 < depth) (hlong : 4300 ≤ n)
    (hsize : n < 65529) :
    conclude (asciiOnly depth) risk (.response (long (n + 1))) = .error (.other "ValueError") := by
  have hstatus : (long (n + 1)).status < 300 := by
    show (200 : ℤ) < 300
    decide
  have hwithin : (long (n + 1)).body.length ≤ risk.maxResponseBytes := by
    rw [length_long]
    show ((n + 1 + 7 : ℕ) : ℤ) ≤ 64 * 1024
    omega
  simp only [conclude, classify_of_le hstatus hwithin, decodeObject_long hdepth hlong]
  rfl

/-! A page is an unavailable provider. -/

private def unreadable : List (Event WireOp WireResp) :=
  onceThrough risk (address "http://risk/" "assess") (riskPayload oneEuro) (.response page) ++
    [⟨.observe (.externalCall "risk" "assess" "malformed"), ()⟩]

theorem adapter_returns_iff_page :
    ∃ decision, (assess (asciiOnly 10000) risk "http://risk/" "assess" oneEuro).Performs unreadable
      (.done (.ok decision)) ∧ ∀ x ∈ exchangesOf unreadable, ¬x.Hostile (asciiOnly 10000) risk := by
  have hperforms := assess_answered "http://risk/" "assess" oneEuro (by decide) (by decide)
    (conclude_page 10000) rfl
  refine ⟨_, hperforms, ?_⟩
  apply ((adapter_returns_iff (asciiOnly 10000) risk "http://risk/" "assess").2.2 _ _ _
    hperforms ?_).mp
  · exact ⟨_, rfl⟩
  · simp [Undisturbed, onceThrough, wireFailure]

/-- An object with one integer of 4301 digits in it is an exception, however deep brackets may
    go. -/
theorem long_integer_raises :
    (long 4301).status = 200 ∧ (long 4301).body.length = 4308 ∧ ∀ depth : ℕ, 0 < depth →
      decodeObject (asciiOnly depth) (long 4301).body = .error .value ∧
      ∃ t, Undisturbed t ∧ exchangesOf t = [.response (long 4301)] ∧
        (assess (asciiOnly depth) risk "http://risk/" "assess" oneEuro).Performs t
          (.done (.error (.other "ValueError"))) := by
  refine ⟨rfl, length_long 4301, ?_⟩
  intro depth hdepth
  have hconclude : conclude (asciiOnly depth) risk (.response (long 4301)) =
      .error (.other "ValueError") := conclude_long hdepth le_rfl (by decide)
  refine ⟨decodeObject_long hdepth le_rfl, _, ?_, ?_,
    assess_raised _ _ _ (by decide) (by decide) hconclude⟩
  · simp [Undisturbed, onceThrough, wireFailure]
  · simp [exchangesOf, onceThrough, exchanged]

end Evenkeel.Properties
