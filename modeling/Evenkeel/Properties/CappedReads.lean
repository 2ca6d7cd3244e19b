import Evenkeel.Infrastructure.ResponseStreams

/-!
# Capped Reads

How a body is cut into segments on its way is nobody's business. Whatever the network does, what
is read of it is its beginning, up to the cap, and so is what is made of it.
-/

namespace Evenkeel.Properties

open Evenkeel.Application Evenkeel.Effects Evenkeel.Infrastructure Evenkeel.Python

/-- Reading up to `limit` bytes of `body`: whenever the reader waits for a read, it has not read
    often, and asks for nothing beyond the limit; and when it is done, it has the beginning of
    the body. It does come to an end. -/
def ReadsBeginning (limit : ℤ) (body : ByteStream) : Prop :=
  (∀ t p rest, (StreamReader.readCapped limit).Performs t p → Follows Delivers body t rest →
    (∀ n resume, p = .request (.read n) resume →
      0 ≤ n ∧ received t + n ≤ max 0 limit ∧ t.length < max 1 limit) ∧
    ∀ r, p = .done r → r = .ok (body.take (max 0 limit).toNat)) ∧
  ∃ t r rest, (StreamReader.readCapped limit).Performs t (.done r) ∧ Follows Delivers body t rest

/-- Whatever the segments are, a response is classified by its status, its header and its body,
    and as too large exactly if the status is below 300 and the body longer than the cap. -/
def ClassifiesByBody (py : Interpreter) (policy : TransportPolicy) (status : ℤ)
    (retryAfter : Option String) (body : ByteStream) : Prop :=
  ∃ result, (∀ t r rest,
    (StreamReader.examine py policy status retryAfter).Performs t (.done r) →
      Follows Delivers body t rest → r = result) ∧
    ((∃ response delay, result = .ok (response, delay) ∧ response.failure = .oversized) ↔
      status < 300 ∧ StreamReader.LongerThan body policy.maxResponseBytes)

private theorem follows_start {limit : ℤ} {body rest : ByteStream}
    {t : List (Event StreamOp StreamResp)} (h : Follows Delivers body t rest) :
    Follows (cappedReader limit).step { stream := body } t ⟨rest, received t, t.length⟩ := by
  let start : Reading := { stream := body }
  have hfollows : Follows (cappedReader limit).step start t _ := follows_capped h
  rw [Nat.zero_add, Nat.zero_add] at hfollows
  exact hfollows

/-- What is made of a response that came in finitely many segments, read in whatever pieces. -/
def AgreesOnSegments (py : Interpreter) (policy : TransportPolicy) (response : HttpResponse) :
    Prop :=
  ∀ t r rest,
    (StreamReader.examine py policy response.status response.retryAfter).Performs t (.done r) →
      Follows Delivers (Stream'.Seq.ofList response.body) t rest →
        r = conclude py policy (.response response)

/-- For every stream, finite or endless, and every limit. -/
theorem segmentation_does_not_matter (body : ByteStream) :
    (∀ limit, ReadsBeginning limit body) ∧
      (∀ py policy status retryAfter, ClassifiesByBody py policy status retryAfter body) ∧
        ∀ py policy response, AgreesOnSegments py policy response := by
  -- the verdict is that of the body, whatever the segments
  have hexamined : ∀ {py policy status retryAfter t r rest} {body : ByteStream},
      (StreamReader.examine py policy status retryAfter).Performs t (.done r) →
        Follows Delivers body t rest →
          r = StreamReader.verdict py policy status retryAfter body := by
    intro py policy status retryAfter t r rest body hperforms hbody
    exact (Contract.wp_of_follows (StreamReader.examine_capped py policy status retryAfter body)
      hperforms (follows_start hbody)).1
  refine ⟨?_, ?_, ?_⟩
  · -- reading stops at the limit
    intro limit
    have hcapped := StreamReader.readCapped_capped limit body
    constructor
    · intro t p rest hperforms hbody
      have hwp := Contract.wp_of_follows hcapped hperforms (follows_start hbody)
      constructor
      · -- no read asks for more than is left of it
        intro n resume hp
        subst hp
        obtain ⟨⟨hn, hlimit, hreads⟩, -⟩ := hwp
        have hmax : max 1 (max 0 limit) = max 1 limit := by omega
        rw [hmax] at hreads
        exact ⟨hn, hlimit, hreads⟩
      · -- what is returned is the beginning of the body
        intro r hp
        subst hp
        have hlimit : (max 0 limit).toNat = limit.toNat := by omega
        rw [hlimit]
        exact hwp.1
    · -- and it does return, as every read is answered
      have hanswers : ∀ s op, (cappedReader (max 0 limit)).allowed s op →
          ∃ x s', (cappedReader (max 0 limit)).step s op x s' := by
        intro s op hallowed
        obtain ⟨n⟩ := op
        obtain ⟨chunk, rest, hdelivers⟩ := exists_delivers s.stream hallowed.1
        exact ⟨chunk, ⟨rest, _, _⟩, hdelivers, rfl, rfl⟩
      obtain ⟨t, r, s', hperforms, hfollows, -⟩ := Contract.wp_completes hcapped hanswers
      exact ⟨t, r, s'.stream, hperforms, delivers_of_capped hfollows⟩
  · -- too much is found exactly if the body is too long
    intro py policy status retryAfter
    refine ⟨StreamReader.verdict py policy status retryAfter body, ?_,
      StreamReader.verdict_oversized_iff⟩
    intro t r rest hperforms hbody
    exact hexamined hperforms hbody
  · intro py policy response t r rest hperforms hbody
    rw [StreamReader.conclude_eq_verdict]
    exact hexamined hperforms hbody

end Evenkeel.Properties
