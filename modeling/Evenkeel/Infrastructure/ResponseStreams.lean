import Mathlib.Data.Seq.Basic
import Evenkeel.Infrastructure.OutboundHttp

/-!
# Response Streams

`read_capped` and what `_single_attempt` does with a response, on the stream that a body really
is: it may never end, and a read returns what has arrived, which is up to the network.

- `StreamOp`, `Delivers`: reading from a stream, and what a read may return
- `StreamReader.readCapped`: the loop
- `StreamReader.examine`: the block around it, for one response

## Key Results

- `StreamReader.readCapped_reading`: the loop asks for nothing beyond its limit and ends with
  the first bytes of the stream
- `StreamReader.readCapped_segments`: which is what it was said to end with for a body that
  arrives in finitely many segments
-/

namespace Evenkeel.Infrastructure

open Evenkeel.Application Evenkeel.Effects Evenkeel.Python Stream'

/-! ## Streams -/

/-- `StreamReader.read`. -/
inductive StreamOp where
  | read (n : ℤ)

abbrev StreamResp (_ : StreamOp) : Type := List UInt8

/-- The bytes of a stream that are still to come; it need not end. -/
abbrev ByteStream : Type := Stream'.Seq UInt8

/-- What `read(n)` may return: up to `n` of the bytes that come next, and none only at the end
    of the stream, or if none are asked for. A negative `n` is no limit. -/
def Delivers (stream : ByteStream) : (op : StreamOp) → StreamResp op → ByteStream → Prop
  | .read n, chunk, rest => stream = (Seq.ofList chunk).append rest ∧
      (0 ≤ n → (chunk.length : ℤ) ≤ n) ∧ (chunk = [] → n = 0 ∨ stream = .nil)

/-- A coroutine that reads from one stream. -/
abbrev StreamM (α : Type) : Type := Program StreamOp StreamResp Exn α

namespace StreamReader

/-- The `while` of `read_capped`. -/
def readLoop (limit : ℤ) (chunks : List (List UInt8)) (size : ℕ) : StreamM (List UInt8) :=
  .request (.read (limit - size)) fun (chunk : List UInt8) =>
    if chunk = [] then .done (.ok chunks.flatten)
    else if limit ≤ size + chunk.length then .done (.ok (chunks ++ [chunk]).flatten)
    else readLoop limit (chunks ++ [chunk]) (size + chunk.length)
termination_by (limit - size).toNat
decreasing_by
  rename_i hchunk hlimit
  have hpos := List.length_pos_iff.mpr hchunk
  omega

/-- `read_capped`. -/
def readCapped (limit : ℤ) : StreamM (List UInt8) := readLoop (max 0 limit) [] 0

section

variable (py : Interpreter) (policy : TransportPolicy)

/-- What is made of a response whose body was read as `raw`. -/
def judge (status : ℤ) (raw : List UInt8) : Except JsonError JsonResponse :=
  if 300 ≤ status ∧ status < 400 then .ok ⟨some status, none, .redirected⟩
  else if 500 ≤ status ∨ status = 429 then .ok ⟨some status, none, .serverError⟩
  else if 400 ≤ status then .ok ⟨some status, none, .clientError⟩
  else if policy.maxResponseBytes < raw.length then .ok ⟨some status, none, .oversized⟩
  else
    match decodeObject py raw with
    | .ok none => .ok ⟨some status, none, .malformed⟩
    | .ok (some body) => .ok ⟨some status, some body, .none⟩
    | .error e => .error e

/-- The block of `_single_attempt` that a response is handled in. -/
def examine (status : ℤ) (retryAfter : Option String) :
    StreamM (JsonResponse × Option PyFloat) := do
  let raw ← readCapped (policy.maxResponseBytes + 1)
  match judge py policy status raw with
  | .ok result => return (result, retryAfterMs py retryAfter)
  | .error e => .raise (Exn.ofJson e)

/-- For a body in segments it is `classify`. -/
theorem classify_eq_judge (r : HttpResponse) : classify py policy r =
    judge py policy r.status
      (Infrastructure.readCapped r.segments (policy.maxResponseBytes + 1).toNat) := rfl

end

end StreamReader

/-! ## The contract of the loop -/

/-- A stream, and what was read of it so far: how many bytes, in how many reads. -/
structure Reading where
  stream : ByteStream
  received : ℕ := 0
  reads : ℕ := 0

/-- A reader that asks for no byte beyond `limit`, and not without end. -/
def cappedReader (limit : ℤ) : Contract StreamOp StreamResp where
  State := Reading
  allowed s
    | .read n => 0 ≤ n ∧ s.received + n ≤ limit ∧ s.reads < max 1 limit
  step s op chunk s' := Delivers s.stream op chunk s'.stream ∧
    s'.received = s.received + List.length chunk ∧ s'.reads = s.reads + 1

/-- The number of bytes that were read. -/
def received (t : List (Event StreamOp StreamResp)) : ℕ := (t.map fun e => List.length e.2).sum

/-- What was read is what the contract counts. -/
theorem follows_capped {limit : ℤ} {t : List (Event StreamOp StreamResp)} {s : Reading}
    {rest : ByteStream} (h : Follows Delivers s.stream t rest) :
    Follows (cappedReader limit).step s t ⟨rest, s.received + received t, s.reads + t.length⟩ := by
  induction t generalizing s with
  | nil =>
    obtain rfl : s.stream = rest := h
    rfl
  | cons e t ih =>
    obtain ⟨stream, hdelivers, hrest⟩ := h
    let next : Reading := ⟨stream, s.received + List.length e.2, s.reads + 1⟩
    have hrest : Follows (cappedReader limit).step next t _ := ih hrest
    refine ⟨next, ⟨hdelivers, rfl, rfl⟩, ?_⟩
    have hreceived : s.received + received (e :: t) =
        s.received + List.length e.2 + received t := by
      rw [received, List.map_cons, List.sum_cons, ← add_assoc]
      rfl
    have hreads : s.reads + (e :: t).length = s.reads + 1 + t.length := by
      rw [List.length_cons]
      omega
    rw [hreceived, hreads]
    exact hrest

theorem delivers_of_capped {limit : ℤ} {t : List (Event StreamOp StreamResp)} {s s' : Reading}
    (h : Follows (cappedReader limit).step s t s') : Follows Delivers s.stream t s'.stream := by
  induction t generalizing s with
  | nil =>
    obtain rfl : s = s' := h
    rfl
  | cons e t ih =>
    obtain ⟨m, hstep, hrest⟩ := h
    exact ⟨m.stream, hstep.1, ih hrest⟩

/-- There is always something to deliver, if only the end. -/
theorem exists_delivers (stream : ByteStream) {n : ℤ} (hn : 0 ≤ n) :
    ∃ chunk rest, Delivers stream (.read n) chunk rest := by
  by_cases hzero : n = 0
  · exact ⟨[], stream, (Seq.nil_append stream).symm, fun _ => hn, fun _ => .inl hzero⟩
  · induction stream using Stream'.Seq.recOn with
    | nil => exact ⟨[], .nil, (Seq.nil_append _).symm, fun _ => hn, fun _ => .inr rfl⟩
    | cons b rest =>
      refine ⟨[b], rest, ?_, ?_, (fun hempty => nomatch hempty)⟩
      · rw [Seq.ofList_cons, Seq.ofList_nil, Seq.cons_append, Seq.nil_append]
      · intro _
        show (1 : ℤ) ≤ n
        omega

theorem take_ofList_append (chunk : List UInt8) (rest : ByteStream) (n : ℕ) :
    ((Seq.ofList chunk).append rest).take n = chunk.take n ++ rest.take (n - chunk.length) := by
  induction chunk generalizing n with
  | nil => simp
  | cons b chunk ih =>
    cases n with
    | zero => simp
    | succ n => simp [ih]

namespace StreamReader

/-- Before every read there is something left to ask for, unless the limit is zero, and every
    read but the last has returned a byte at least. -/
private theorem readLoop_capped {limit : ℤ} (chunks : List (List UInt8)) (size : ℕ) (s : Reading)
    (hreceived : s.received = size) (hreads : s.reads ≤ size)
    (hleft : size < limit ∨ size = limit ∧ s.reads = 0) (hlimit : 0 ≤ limit) :
    (cappedReader limit).wp (readLoop limit chunks size)
      (fun r s' => r = .ok (chunks.flatten ++ s.stream.take (limit - size).toNat) ∧
        s'.reads ≤ max 1 limit) s := by
  -- one read, of what is still allowed
  rw [readLoop]
  refine ⟨⟨by omega, by omega, by omega⟩, ?_⟩
  intro (chunk : List UInt8) s' hstep
  obtain ⟨⟨hstream, hlength, hempty⟩, hreceived', hreads'⟩ := hstep
  have hlength := hlength (by omega)
  dsimp only
  split_ifs with hchunk hfull
  · -- the end of the stream, or nothing was asked for
    refine ⟨?_, by omega⟩
    rcases hempty hchunk with hzero | hnil
    · rw [hzero, Int.toNat_zero, Seq.take_zero, List.append_nil]
    · rw [hnil, Seq.take_nil, List.append_nil]
  · -- the limit is reached with this chunk
    have hall : (limit - size).toNat = chunk.length := by omega
    refine ⟨?_, by omega⟩
    rw [hstream, take_ofList_append, hall, List.take_length, Nat.sub_self, Seq.take_zero,
      List.append_nil, List.flatten_append, List.flatten_singleton]
  · -- there is more to come
    have hpos := List.length_pos_iff.mpr hchunk
    have hrest := readLoop_capped (chunks ++ [chunk]) (size + chunk.length) s' (by omega) (by omega)
      (.inl (by omega)) hlimit
    apply Contract.wp_mono _ hrest
    intro r s'' hdone
    obtain ⟨hr, hbound⟩ := hdone
    refine ⟨?_, hbound⟩
    have htake : (limit - size).toNat - chunk.length =
        (limit - (size + chunk.length : ℕ)).toNat := by
      omega
    rw [hr, hstream, take_ofList_append, List.take_of_length_le (by omega), htake,
      List.flatten_append, List.flatten_singleton, List.append_assoc]
termination_by (limit - size).toNat
decreasing_by omega

/-- The loop asks for nothing beyond its limit, reads no more often than that, and ends with the
    first bytes of the stream. -/
theorem readCapped_capped (limit : ℤ) (stream : ByteStream) :
    (cappedReader (max 0 limit)).wp (readCapped limit)
      (fun r s' => r = .ok (stream.take limit.toNat) ∧ s'.reads ≤ max 1 (max 0 limit))
      { stream := stream } := by
  have hleft : ((0 : ℕ) : ℤ) < max 0 limit ∨ ((0 : ℕ) : ℤ) = max 0 limit ∧ 0 = 0 := by omega
  have hloop := readLoop_capped [] 0 { stream := stream } rfl le_rfl hleft (le_max_left _ _)
  have htake : (max 0 limit - (0 : ℕ)).toNat = limit.toNat := by omega
  rw [htake] at hloop
  exact hloop

/-! ## What a response comes to -/

section

variable (py : Interpreter) (policy : TransportPolicy) (status : ℤ) (retryAfter : Option String)

/-- What `_single_attempt` makes of a response, in terms of its status, its header and its
    body. -/
def verdict (body : ByteStream) : Except Exn (JsonResponse × Option PyFloat) :=
  match judge py policy status (body.take (policy.maxResponseBytes + 1).toNat) with
  | .ok result => .ok (result, retryAfterMs py retryAfter)
  | .error e => .error (Exn.ofJson e)

theorem examine_capped (body : ByteStream) :
    (cappedReader (max 0 (policy.maxResponseBytes + 1))).wp (examine py policy status retryAfter)
      (fun r s' => r = verdict py policy status retryAfter body ∧
        s'.reads ≤ max 1 (max 0 (policy.maxResponseBytes + 1))) { stream := body } := by
  apply Contract.wp_bind.mpr
  apply Contract.wp_mono _ (readCapped_capped _ body)
  intro r s' hread
  obtain ⟨rfl, hreads⟩ := hread
  unfold verdict
  dsimp only [Program.onValue]
  cases judge py policy status (body.take (policy.maxResponseBytes + 1).toNat) with
  | ok result => exact ⟨rfl, hreads⟩
  | error e => exact ⟨rfl, hreads⟩

/-- A response whose body came in segments is one whose body is a finite stream. -/
theorem conclude_eq_verdict (r : HttpResponse) : conclude py policy (.response r) =
    verdict py policy r.status r.retryAfter (Seq.ofList r.body) := by
  have htake : ∀ n, (Seq.ofList r.body).take n = Infrastructure.readCapped r.segments n := by
    intro n
    have happend := take_ofList_append r.body .nil n
    rw [Seq.append_nil, Seq.take_nil, List.append_nil] at happend
    rw [happend, readCapped_eq r.segments_ne]
    rfl
  have hjudge : judge py policy r.status
      ((Seq.ofList r.body).take (policy.maxResponseBytes + 1).toNat) = classify py policy r := by
    rw [htake, classify_eq_judge]
  cases hresult : classify py policy r with
  | ok result => simp only [conclude, verdict, hjudge, hresult]
  | error e => simp only [conclude, verdict, hjudge, hresult]

end

/-- The body has more than `n` bytes. -/
def LongerThan (body : ByteStream) (n : ℤ) : Prop := n < 0 ∨ ¬ body.TerminatedAt n.toNat

theorem lt_length_take_iff (body : ByteStream) (n : ℤ) :
    n < (body.take (n + 1).toNat).length ↔ LongerThan body n := by
  unfold LongerThan
  rcases lt_or_ge n 0 with hneg | hnonneg
  · exact iff_of_true (by omega) (.inl hneg)
  · obtain ⟨k, rfl⟩ := Int.eq_ofNat_of_zero_le hnonneg
    have hk : ((k : ℤ) + 1).toNat = k + 1 := by omega
    have hle : (body.take (k + 1)).length ≤ k + 1 := Seq.length_take_le
    have hget : (body.take (k + 1))[k]? = body.get? k := by
      rw [Seq.getElem?_take, if_pos (Nat.lt_succ_self k)]
    have hsome : (k < (body.take (k + 1)).length) ↔ ¬ body.TerminatedAt k := by
      rw [Seq.TerminatedAt, ← hget, List.getElem?_eq_none_iff, not_le]
    rw [hk, Int.toNat_natCast, Nat.cast_lt, hsome]
    constructor
    · exact .inr
    · intro h
      exact h.resolve_left (by omega)

/-- A response is found too large exactly if its status is no reason to look no further, and its
    body is larger than the cap. -/
theorem verdict_oversized_iff {py : Interpreter} {policy : TransportPolicy} {status : ℤ}
    {retryAfter : Option String} {body : ByteStream} :
    (∃ response delay, verdict py policy status retryAfter body = .ok (response, delay) ∧
      response.failure = .oversized) ↔
    status < 300 ∧ LongerThan body policy.maxResponseBytes := by
  -- whatever was found instead, nothing else is found too large
  have hother : ∀ {failure : Failure} {items : Option Dict}, failure ≠ .oversized →
      ¬ ∃ response delay, (Except.ok (⟨some status, items, failure⟩, retryAfterMs py retryAfter) :
        Except Exn (JsonResponse × Option PyFloat)) = .ok (response, delay) ∧
        response.failure = .oversized := by
    intro failure items hne hfound
    obtain ⟨response, delay, heq, hoversized⟩ := hfound
    cases heq
    exact hne hoversized
  rw [← lt_length_take_iff]
  unfold verdict judge
  split_ifs with hredirect hserver hclient hlarge
  · -- the status alone decides
    exact iff_of_false (hother (by decide)) (by omega)
  · exact iff_of_false (hother (by decide)) (by omega)
  · exact iff_of_false (hother (by decide)) (by omega)
  · -- too much was read
    exact iff_of_true ⟨_, _, rfl, rfl⟩ ⟨by omega, hlarge⟩
  · -- the body was read to its end
    have hsmall : ¬ (status < 300 ∧ policy.maxResponseBytes <
        (body.take (policy.maxResponseBytes + 1).toNat).length) := fun h => hlarge h.2
    cases decodeObject py (body.take (policy.maxResponseBytes + 1).toNat) with
    | ok items =>
      cases items with
      | none => exact iff_of_false (hother (by decide)) hsmall
      | some items => exact iff_of_false (hother (by decide)) hsmall
    | error e =>
      apply iff_of_false _ hsmall
      intro hfound
      obtain ⟨response, delay, heq, -⟩ := hfound
      cases heq

end StreamReader

end Evenkeel.Infrastructure
