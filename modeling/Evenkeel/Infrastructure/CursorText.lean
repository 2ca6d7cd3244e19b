import Evenkeel.Infrastructure.Cursor
import Mathlib.Data.List.GetD
import Mathlib.Tactic.IntervalCases

/-!
# What a Cursor's Text May Be

Which texts `decode_cursor` reads as a position, and which texts `encode_cursor` writes.

- `decodeText`: `decode_cursor` of any `str`
- `Readable`: the texts that lead to a position
- `Canonical`: the texts that were made of one

## Key Results

- `a2bBase64_yields`, `a2bBase64_stops`: where the reader of base64 stops, and how much it has
  read by then
- `decodeCursor_iff_readable`, `canonical_iff`
-/

namespace Evenkeel.Infrastructure

open Evenkeel.Domain Evenkeel.Application

/-! ## Texts -/

/-- A code point of a `str`, which need not be a character. -/
inductive CodePoint where
  | char (c : Char)
  | surrogate (n : ℕ) (isSurrogate : 0xD800 ≤ n ∧ n ≤ 0xDFFF)

/-- `str.encode`, which raises a `UnicodeEncodeError` at a lone surrogate. The bytes of a
    character beyond ASCII are outside the base64 alphabet, as the character itself is. -/
def encodeStr : List CodePoint → Option (List Char)
  | [] => some []
  | .char c :: rest => (encodeStr rest).map (c :: ·)
  | .surrogate .. :: _ => none

/-- The `ValidationError` of `decode_cursor`. -/
def malformedCursor : Exn :=
  .application ⟨.validation, .validationFailed, [("cursor", .text "malformed cursor")]⟩

/-- `decode_cursor` of a `str`: an error of `str.encode` is a `ValueError` too. -/
def decodeText (s : List CodePoint) : Except Exn (Option UUID) :=
  match encodeStr s with
  | none => .error malformedCursor
  | some text => decodeCursor (some (String.ofList text))

/-! ## Where the reader stops -/

/-- A character that stands for six bits, in either alphabet. -/
def isData (c : Char) : Bool := (sextet c).isSome

def dataCount (s : List Char) : ℕ := s.countP isData

/-- What stands behind the last of them, backwards. -/
def trailing (s : List Char) : List Char := s.reverse.takeWhile (!isData ·)

/-- A `=` behind this text completes the padding. -/
def Completes (before : List Char) : Prop :=
  dataCount before % 4 = 3 ∨ dataCount before % 4 = 2 ∧ '=' ∈ trailing before

/-- The padding is first completed behind 22 characters that stand for six bits each. -/
def Readable (s : List Char) : Prop :=
  ∃ before after, s = before ++ '=' :: after ∧ Completes before ∧ dataCount before = 22 ∧
    ∀ b a, before = b ++ '=' :: a → ¬Completes b

/-- 22 characters of the URL-safe alphabet, of which the last leaves no bits over, and the
    padding. -/
def Canonical (s : List Char) : Prop :=
  ∃ digits last, s = digits ++ [last, '=', '='] ∧ digits.length = 21 ∧
    (∀ c ∈ digits, c ∈ alphabet) ∧ last ∈ ['A', 'Q', 'g', 'w']

theorem isData_pad : isData '=' = false := by decide

theorem dataCount_snoc (s : List Char) (c : Char) :
    dataCount (s ++ [c]) = dataCount s + if isData c then 1 else 0 := by
  simp [dataCount, List.countP_append, List.countP_singleton]

theorem trailing_snoc (s : List Char) (c : Char) :
    trailing (s ++ [c]) = if isData c then [] else c :: trailing s := by
  cases h : isData c <;> simp [trailing, h]

/-- The position in the quadruple and the padding characters seen, once `pre` is read. -/
structure After (pre : List Char) (quadPos pads : ℕ) : Prop where
  quadPos_eq : quadPos = dataCount pre % 4
  pads_pos : quadPos = 2 → (1 ≤ pads ↔ '=' ∈ trailing pre)

namespace After

variable {pre : List Char} {quadPos pads : ℕ}

theorem nil : After [] 0 0 := ⟨rfl, fun h => nomatch h⟩

theorem completes (h : After pre quadPos pads) :
    2 ≤ quadPos ∧ 4 ≤ quadPos + (pads + 1) ↔ Completes pre := by
  have hlt : quadPos < 4 := by
    rw [h.quadPos_eq]
    exact Nat.mod_lt _ (by norm_num)
  rw [Completes, ← h.quadPos_eq]
  constructor
  · intro hstops
    by_cases htwo : quadPos = 2
    · exact .inr ⟨htwo, (h.pads_pos htwo).mp (by omega)⟩
    · exact .inl (by omega)
  · intro hcompletes
    rcases hcompletes with hthree | ⟨htwo, hpad⟩
    · omega
    · have hpads := (h.pads_pos htwo).mpr hpad
      omega

theorem pad (h : After pre quadPos pads) :
    After (pre ++ ['=']) quadPos (if 2 ≤ quadPos then pads + 1 else pads) := by
  constructor
  · rw [dataCount_snoc, isData_pad]
    exact h.quadPos_eq
  · intro htwo
    rw [trailing_snoc, isData_pad]
    simp [htwo]

theorem skip (h : After pre quadPos pads) {c : Char} (hc : isData c = false) (hpad : c ≠ '=') :
    After (pre ++ [c]) quadPos pads := by
  constructor
  · rw [dataCount_snoc, hc]
    exact h.quadPos_eq
  · intro htwo
    rw [trailing_snoc, hc, h.pads_pos htwo]
    simp [hpad.symm]

theorem data (h : After pre quadPos pads) {c : Char} (hc : isData c = true) :
    After (pre ++ [c]) ((quadPos + 1) % 4) 0 := by
  constructor
  · rw [dataCount_snoc, hc, h.quadPos_eq]
    simp [Nat.add_mod]
  · intro _
    simp [trailing_snoc, hc]

end After

/-! ## What the reader reads -/

section

variable {quadPos leftchar pads : ℕ} {pre : List Char}

/-- A character that stands for six bits: the bytes that are complete with it. -/
theorem a2bBase64_data {c : Char} (hc : isData c = true) {n : ℕ} (hquad : quadPos = n % 4)
    (leftchar pads : ℕ) :
    ∃ left out, out.length + 3 * n / 4 = 3 * (n + 1) / 4 ∧ ∀ rest,
      a2bBase64 (c :: rest) quadPos leftchar pads =
        (a2bBase64 rest ((quadPos + 1) % 4) left 0).map (out ++ ·) := by
  have hpad : c ≠ '=' := by
    intro h
    rw [h, isData_pad] at hc
    cases hc
  obtain ⟨v, hv⟩ := Option.isSome_iff_exists.mp hc
  have hlt : n % 4 < 4 := Nat.mod_lt _ (by norm_num)
  rw [← hquad] at hlt
  have hcases : quadPos = 0 ∨ quadPos = 1 ∨ quadPos = 2 ∨ quadPos = 3 := by omega
  -- one case for each place in the group of four; a byte is complete in the last three
  rcases hcases with h | h | h | h
  · refine ⟨v, [], by rw [List.length_nil]; omega, fun rest => ?_⟩
    subst h
    simp [a2bBase64, hpad, hv]
  · refine ⟨v % 16, [leftchar * 4 + v / 16], by rw [List.length_singleton]; omega,
      fun rest => ?_⟩
    subst h
    simp [a2bBase64, hpad, hv]
  · refine ⟨v % 4, [leftchar * 16 + v / 4], by rw [List.length_singleton]; omega,
      fun rest => ?_⟩
    subst h
    simp [a2bBase64, hpad, hv]
  · refine ⟨0, [leftchar * 64 + v], by rw [List.length_singleton]; omega, fun rest => ?_⟩
    subst h
    simp [a2bBase64, hpad, hv]

theorem a2bBase64_skip {c : Char} (hc : isData c = false) (hpad : c ≠ '=') (rest : List Char) :
    a2bBase64 (c :: rest) quadPos leftchar pads = a2bBase64 rest quadPos leftchar pads := by
  have hnone : sextet c = none := Option.not_isSome_iff_eq_none.mp (by simpa [isData] using hc)
  rw [a2bBase64, if_neg hpad, hnone]

/-- `pre` has been read, and the first complete padding behind it follows on `before`. -/
def StopsAt (pre before : List Char) : Prop :=
  Completes (pre ++ before) ∧ ∀ b a, before = b ++ '=' :: a → ¬Completes (pre ++ b)

theorem stopsAt_cons {c : Char} {before : List Char} :
    StopsAt pre (c :: before) ↔ (c = '=' → ¬Completes pre) ∧ StopsAt (pre ++ [c]) before := by
  constructor
  · -- the first pad that stops the reader is the same, seen from the next character on
    intro h
    obtain ⟨hcompletes, hfirst⟩ := h
    refine ⟨fun hc => ?_, by simpa using hcompletes, fun b a hb => ?_⟩
    · have hnow := hfirst [] before (by rw [hc, List.nil_append])
      rwa [List.append_nil] at hnow
    · have hlater := hfirst (c :: b) a (by rw [hb, List.cons_append])
      simpa using hlater
  · intro h
    obtain ⟨hnow, hcompletes, hfirst⟩ := h
    refine ⟨by simpa using hcompletes, fun b a hb => ?_⟩
    cases b with
    | nil =>
      rw [List.nil_append, List.cons.injEq] at hb
      rw [List.append_nil]
      exact hnow hb.1
    | cons d b =>
      rw [List.cons_append, List.cons.injEq] at hb
      obtain ⟨rfl, hb⟩ := hb
      simpa using hfirst b a hb

/-- Behind `pre`, `m` bytes are read of `s`: up to the first complete padding, or all of it,
    if that makes whole quadruples. -/
def Yields (pre s : List Char) (m : ℕ) : Prop :=
  (∃ before after, s = before ++ '=' :: after ∧ StopsAt pre before ∧
    m + 3 * dataCount pre / 4 = 3 * dataCount (pre ++ before) / 4) ∨
  (dataCount (pre ++ s) % 4 = 0 ∧ m + 3 * dataCount pre / 4 = 3 * dataCount (pre ++ s) / 4)

/-- What is read of the rest, behind one more character. -/
theorem Yields.cons {rest : List Char} {c : Char} {k m : ℕ} (h : Yields (pre ++ [c]) rest m)
    (hnow : c = '=' → ¬Completes pre)
    (hk : k + 3 * dataCount pre / 4 = 3 * dataCount (pre ++ [c]) / 4) :
    Yields pre (c :: rest) (k + m) := by
  rcases h with ⟨before, after, rfl, hstops, hread⟩ | ⟨hzero, hread⟩
  · refine .inl ⟨c :: before, after, rfl, stopsAt_cons.mpr ⟨hnow, hstops⟩, ?_⟩
    rw [List.append_assoc, List.singleton_append] at hread
    omega
  · rw [List.append_assoc, List.singleton_append] at hzero hread
    exact .inr ⟨hzero, by omega⟩

theorem dataCount_skip {c : Char} (hc : isData c = false) :
    dataCount (pre ++ [c]) = dataCount pre := by
  rw [dataCount_snoc, hc]
  rfl

theorem dataCount_data {c : Char} (hc : isData c = true) :
    dataCount (pre ++ [c]) = dataCount pre + 1 := by
  rw [dataCount_snoc, hc]
  rfl

/-- What the reader returns has that length. -/
theorem a2bBase64_yields {s : List Char} {bytes : List ℕ} (hafter : After pre quadPos pads)
    (h : a2bBase64 s quadPos leftchar pads = some bytes) : Yields pre s bytes.length := by
  induction s generalizing pre quadPos leftchar pads bytes with
  | nil =>
    rw [a2bBase64] at h
    -- the text is over, which is right only at the end of a group
    split at h
    · rename_i hzero
      cases h
      refine .inr ⟨?_, ?_⟩
      · rw [List.append_nil, ← hafter.quadPos_eq, hzero]
      · rw [List.append_nil, List.length_nil, Nat.zero_add]
    · cases h
  | cons c rest ih =>
    -- a pad: it stops the reader, or is passed over
    by_cases hpad : c = '='
    · subst hpad
      rw [a2bBase64, if_pos rfl] at h
      split at h
      · rename_i hstops
        cases h
        refine .inl ⟨[], rest, rfl, ⟨?_, ?_⟩, ?_⟩
        · rw [List.append_nil]
          exact hafter.completes.mp hstops
        · intro b a hb
          cases b <;> cases hb
        · rw [List.append_nil, List.length_nil, Nat.zero_add]
      · rename_i hgoes
        have hnot : ¬Completes pre := fun hc => hgoes (hafter.completes.mpr hc)
        have hyields := (ih hafter.pad h).cons (k := 0) (fun _ => hnot)
          (by rw [dataCount_skip isData_pad, Nat.zero_add])
        rwa [Nat.zero_add] at hyields
    · -- what is no data is passed over too
      cases hc : isData c with
      | false =>
        rw [a2bBase64_skip hc hpad] at h
        have hyields := (ih (hafter.skip hc hpad) h).cons (k := 0) (fun heq => absurd heq hpad)
          (by rw [dataCount_skip hc, Nat.zero_add])
        rwa [Nat.zero_add] at hyields
      | true =>
        -- six bits more
        obtain ⟨left, out, hlength, hread⟩ :=
          a2bBase64_data hc hafter.quadPos_eq leftchar pads
        rw [hread, Option.map_eq_some_iff] at h
        obtain ⟨more, hmore, rfl⟩ := h
        rw [List.length_append]
        apply (ih (hafter.data hc) hmore).cons fun heq => absurd heq hpad
        rw [dataCount_data hc]
        exact hlength

/-- At a complete padding the reader returns. -/
theorem a2bBase64_stops {before : List Char} (after : List Char) (leftchar : ℕ)
    (hafter : After pre quadPos pads) (hstops : StopsAt pre before) :
    ∃ bytes, a2bBase64 (before ++ '=' :: after) quadPos leftchar pads = some bytes ∧
      bytes.length + 3 * dataCount pre / 4 = 3 * dataCount (pre ++ before) / 4 := by
  induction before generalizing pre quadPos leftchar pads with
  | nil =>
    -- the pad comes next, and the group is complete
    have hcompletes : Completes pre := by simpa using hstops.1
    refine ⟨[], ?_, ?_⟩
    · rw [List.nil_append, a2bBase64, if_pos rfl, if_pos (hafter.completes.mpr hcompletes)]
    · rw [List.append_nil, List.length_nil, Nat.zero_add]
  | cons c before ih =>
    obtain ⟨hnow, hrest⟩ := stopsAt_cons.mp hstops
    rw [List.cons_append]
    -- an earlier pad that does not stop the reader
    by_cases hpad : c = '='
    · subst hpad
      have hgoes := mt hafter.completes.mp (hnow rfl)
      obtain ⟨bytes, hread, hlength⟩ := ih leftchar hafter.pad hrest
      refine ⟨bytes, ?_, ?_⟩
      · rw [a2bBase64, if_pos rfl, if_neg hgoes, hread]
      · rwa [dataCount_skip isData_pad, List.append_assoc, List.singleton_append] at hlength
    · cases hc : isData c with
      | false =>
        obtain ⟨bytes, hread, hlength⟩ := ih leftchar (hafter.skip hc hpad) hrest
        refine ⟨bytes, ?_, ?_⟩
        · rw [a2bBase64_skip hc hpad, hread]
        · rwa [dataCount_skip hc, List.append_assoc, List.singleton_append] at hlength
      | true =>
        obtain ⟨left, out, hout, hstep⟩ := a2bBase64_data hc hafter.quadPos_eq leftchar pads
        obtain ⟨bytes, hread, hlength⟩ := ih left (hafter.data hc) hrest
        refine ⟨out ++ bytes, ?_, ?_⟩
        · rw [hstep, hread]
          rfl
        · rw [dataCount_data hc, List.append_assoc, List.singleton_append] at hlength
          rw [List.length_append]
          omega

theorem sextet_lt {c : Char} {v : ℕ} (h : sextet c = some v) : v < 64 := by
  unfold sextet at h
  split at h
  · cases h
    norm_num
  · split at h
    · cases h
      norm_num
    · exact (List.findIdx?_eq_some_iff_findIdx_eq.mp h).1

/-- What is left over of a character fits into the next byte. -/
theorem a2bBase64_lt {s : List Char} {bytes : List ℕ}
    (h : a2bBase64 s quadPos leftchar pads = some bytes)
    (hquad : quadPos < 4) (hleft : leftchar * 4 ^ quadPos < 256) : ∀ b ∈ bytes, b < 256 := by
  -- one more byte in front
  have hcons : ∀ {b : ℕ} {r : Option (List ℕ)}, b < 256 → (∀ {more}, r = some more →
      ∀ b ∈ more, b < 256) → ∀ {bytes}, r.map (b :: ·) = some bytes → ∀ b ∈ bytes, b < 256 := by
    intro b r hb hmore bytes hbytes
    obtain ⟨more, hr, rfl⟩ := Option.map_eq_some_iff.mp hbytes
    exact List.forall_mem_cons.mpr ⟨hb, hmore hr⟩
  -- one case for each branch of the reader; a byte is put together from two characters
  fun_induction a2bBase64 s quadPos leftchar pads generalizing bytes with
  | case1 =>
    cases h
    simp
  | case2 => cases h
  | case3 =>
    cases h
    simp
  | case4 _ _ _ _ _ ih => exact ih h hquad hleft
  | case5 _ _ _ _ _ _ _ ih => exact ih h hquad hleft
  | case6 c rest leftchar pads hc v hv ih =>
    have hlt := sextet_lt hv
    exact ih h (by norm_num) (by omega)
  | case7 c rest leftchar pads hc v hv ih =>
    have hlt := sextet_lt hv
    exact hcons (by omega) (fun hmore => ih hmore (by norm_num) (by omega)) h
  | case8 c rest leftchar pads hc v hv ih =>
    have hlt := sextet_lt hv
    exact hcons (by omega) (fun hmore => ih hmore (by norm_num) (by omega)) h
  | case9 c rest quadPos leftchar pads hc v hv h0 h1 h2 ih =>
    have hlt := sextet_lt hv
    have hne : quadPos ≠ 0 ∧ quadPos ≠ 1 ∧ quadPos ≠ 2 := ⟨h0, h1, h2⟩
    have hthree : quadPos = 3 := by omega
    subst hthree
    exact hcons (by omega) (fun hmore => ih hmore (by norm_num) (by norm_num)) h

end

/-! ## Positions -/

theorem foldl_lt {bytes : List ℕ} (h : ∀ b ∈ bytes, b < 256) :
    bytes.foldl (fun m b => m * 256 + b) 0 < 256 ^ bytes.length := by
  induction bytes using List.reverseRecOn with
  | nil => simp
  | append_singleton bytes b ih =>
    have hinit := ih fun x hx => h x (List.mem_append_left _ hx)
    have hlast := h b (by simp)
    rw [List.foldl_append, List.foldl_cons, List.foldl_nil, List.length_append,
      List.length_singleton, pow_succ]
    omega

/-- `UUID.bytes` of the number that some bytes stand for. -/
theorem bytesBE_foldl {bytes : List ℕ} (h : ∀ b ∈ bytes, b < 256) :
    bytesBE bytes.length (bytes.foldl (fun m b => m * 256 + b) 0) = bytes := by
  induction bytes using List.reverseRecOn with
  | nil => rfl
  | append_singleton bytes b ih =>
    have hinit := ih fun x hx => h x (List.mem_append_left _ hx)
    have hlast := h b (by simp)
    rw [List.foldl_append, List.foldl_cons, List.foldl_nil, List.length_append,
      List.length_singleton, bytesBE]
    have hquot : (bytes.foldl (fun m b => m * 256 + b) 0 * 256 + b) / 256 =
        bytes.foldl (fun m b => m * 256 + b) 0 := by omega
    have hrest : (bytes.foldl (fun m b => m * 256 + b) 0 * 256 + b) % 256 = b := by omega
    rw [hquot, hrest, hinit]

/-- Sixteen bytes are an id. -/
theorem uuidOfBytes_some {bytes : List ℕ} (hlength : bytes.length = 16)
    (hbytes : ∀ b ∈ bytes, b < 256) :
    ∃ u, uuidOfBytes bytes = some u ∧ bytesBE 16 u.int = bytes := by
  have hlt := foldl_lt hbytes
  have hback := bytesBE_foldl hbytes
  rw [hlength] at hlt hback
  have hbound : bytes.foldl (fun m b => m * 256 + b) 0 < 2 ^ 128 :=
    lt_of_lt_of_eq hlt (by norm_num)
  exact ⟨⟨_, hbound⟩, by rw [uuidOfBytes, dif_pos ⟨hlength, hbound⟩], hback⟩

/-- The texts that lead to a position. -/
theorem readable_iff {s : List Char} :
    Readable s ↔ ∃ u, decodeCursor (some (String.ofList s)) = .ok (some u) := by
  constructor
  · intro h
    -- the data in front of the pad are sixteen bytes
    obtain ⟨before, after, rfl, hcompletes, hcount, hfirst⟩ := h
    obtain ⟨bytes, hread, hlength⟩ := a2bBase64_stops after 0 .nil ⟨hcompletes, hfirst⟩
    have hsixteen : bytes.length = 16 := by
      rw [List.nil_append, hcount] at hlength
      simpa [dataCount] using hlength
    obtain ⟨u, hu, -⟩ := uuidOfBytes_some hsixteen (a2bBase64_lt hread (by norm_num) (by norm_num))
    refine ⟨u, ?_⟩
    simp only [decodeCursor, String.toList_ofList, hread, Option.bind_some, hu]
  · intro h
    obtain ⟨u, hdecode⟩ := h
    simp only [decodeCursor, String.toList_ofList] at hdecode
    -- the other way round: what was read is sixteen bytes long
    cases hread : a2bBase64 s 0 0 0 with
    | none =>
      rw [hread] at hdecode
      cases hdecode
    | some bytes =>
      have hsixteen : bytes.length = 16 := by
        by_contra hlength
        rw [hread, Option.bind_some, uuidOfBytes, dif_neg fun h => hlength h.1] at hdecode
        cases hdecode
      have hyields := a2bBase64_yields .nil hread
      rw [hsixteen] at hyields
      -- sixteen bytes are no whole quadruples, and leave two characters over
      rcases hyields with ⟨before, after, rfl, ⟨hcompletes, hfirst⟩, hlength⟩ | ⟨hzero, hlength⟩
      · rw [List.nil_append] at hcompletes hlength
        refine ⟨before, after, rfl, hcompletes, ?_, hfirst⟩
        simp only [dataCount, List.countP_nil] at hlength ⊢
        omega
      · simp only [dataCount, List.countP_nil, List.nil_append] at hzero hlength
        omega

/-- Anything else is malformed. -/
theorem decodeCursor_of_not {s : List Char} (h : ¬Readable s) :
    decodeCursor (some (String.ofList s)) = .error malformedCursor := by
  rw [readable_iff] at h
  rw [decodeCursor]
  split
  · rename_i u hu
    exact absurd ⟨u, by rw [decodeCursor, hu]⟩ h
  · rfl

/-! ## Texts made of a position -/

theorem alphabet_length : alphabet.length = 64 := by decide

theorem base64Char_mem {n : ℕ} (h : n < 64) : base64Char n ∈ alphabet := by
  rw [base64Char, List.getD_eq_getElem _ _ (by rwa [alphabet_length])]
  exact List.getElem_mem _

theorem exists_of_mem_alphabet {c : Char} (h : c ∈ alphabet) : ∃ n < 64, base64Char n = c := by
  obtain ⟨n, hn, hc⟩ := List.getElem_of_mem h
  rw [alphabet_length] at hn
  exact ⟨n, hn, by rw [base64Char, List.getD_eq_getElem _ _ (by rwa [alphabet_length]), hc]⟩

/-- Three bytes are four characters, and four characters three bytes. -/
theorem b2aBase64_groups (n : ℕ) (bytes : List ℕ) (hlength : bytes.length = 3 * n)
    (hbytes : ∀ b ∈ bytes, b < 256) :
    ∃ chars, chars.length = 4 * n ∧ (∀ c ∈ chars, c ∈ alphabet) ∧
      ∀ rest, b2aBase64 (bytes ++ rest) = chars ++ b2aBase64 rest := by
  induction n generalizing bytes with
  | zero =>
    obtain rfl := List.eq_nil_of_length_eq_zero (by omega)
    exact ⟨[], rfl, by simp, fun rest => rfl⟩
  | succ n ih =>
    obtain ⟨a, b, c, more, rfl⟩ : ∃ a b c more, bytes = a :: b :: c :: more := by
      match bytes, hlength with
      | a :: b :: c :: more, _ => exact ⟨a, b, c, more, rfl⟩
    have ha := hbytes a (by simp)
    have hb := hbytes b (by simp)
    have hc := hbytes c (by simp)
    simp only [List.length_cons] at hlength
    obtain ⟨chars, hchars, hmem, heq⟩ := ih more (by omega) fun x hx => hbytes x (by simp [hx])
    refine ⟨base64Char (a / 4) :: base64Char (a % 4 * 16 + b / 16) ::
      base64Char (b % 16 * 4 + c / 64) :: base64Char (c % 64) :: chars, ?_, ?_, ?_⟩
    · -- four characters for three bytes, and each of them from the alphabet
      simp only [List.length_cons]
      omega
    · intro x hx
      simp only [List.mem_cons] at hx
      rcases hx with rfl | rfl | rfl | rfl | hx
      · exact base64Char_mem (by omega)
      · exact base64Char_mem (by omega)
      · exact base64Char_mem (by omega)
      · exact base64Char_mem (by omega)
      · exact hmem x hx
    · intro rest
      rw [List.cons_append, List.cons_append, List.cons_append, b2aBase64, heq]
      rfl

theorem exists_groups (n : ℕ) (chars : List Char) (hlength : chars.length = 4 * n)
    (hchars : ∀ c ∈ chars, c ∈ alphabet) :
    ∃ bytes : List ℕ, bytes.length = 3 * n ∧ (∀ b ∈ bytes, b < 256) ∧
      ∀ rest, b2aBase64 (bytes ++ rest) = chars ++ b2aBase64 rest := by
  induction n generalizing chars with
  | zero =>
    obtain rfl := List.eq_nil_of_length_eq_zero (by omega)
    exact ⟨[], rfl, by simp, fun rest => rfl⟩
  | succ n ih =>
    obtain ⟨c₁, c₂, c₃, c₄, more, rfl⟩ : ∃ c₁ c₂ c₃ c₄ more,
        chars = c₁ :: c₂ :: c₃ :: c₄ :: more := by
      match chars, hlength with
      | c₁ :: c₂ :: c₃ :: c₄ :: more, _ => exact ⟨c₁, c₂, c₃, c₄, more, rfl⟩
    -- each character stands for six bits
    obtain ⟨w, hw, rfl⟩ := exists_of_mem_alphabet (hchars c₁ (by simp))
    obtain ⟨x, hx, rfl⟩ := exists_of_mem_alphabet (hchars c₂ (by simp))
    obtain ⟨y, hy, rfl⟩ := exists_of_mem_alphabet (hchars c₃ (by simp))
    obtain ⟨z, hz, rfl⟩ := exists_of_mem_alphabet (hchars c₄ (by simp))
    simp only [List.length_cons] at hlength
    obtain ⟨bytes, hbytes, hlt, heq⟩ := ih more (by omega) fun c hc => hchars c (by simp [hc])
    -- three bytes for four characters, each below 256
    refine ⟨(w * 4 + x / 16) :: (x % 16 * 16 + y / 4) :: (y % 4 * 64 + z) :: bytes, ?_, ?_, ?_⟩
    · simp only [List.length_cons]
      omega
    · intro b hb
      simp only [List.mem_cons] at hb
      rcases hb with rfl | rfl | rfl | hb
      · omega
      · omega
      · omega
      · exact hlt b hb
    · intro rest
      -- the bits come back from where they were put
      have h₁ : (w * 4 + x / 16) / 4 = w := by omega
      have h₂ : (w * 4 + x / 16) % 4 * 16 + (x % 16 * 16 + y / 4) / 16 = x := by omega
      have h₃ : (x % 16 * 16 + y / 4) % 16 * 4 + (y % 4 * 64 + z) / 64 = y := by omega
      have h₄ : (y % 4 * 64 + z) % 64 = z := by omega
      rw [List.cons_append, List.cons_append, List.cons_append, b2aBase64, heq, h₁, h₂, h₃, h₄]
      rfl

/-- The second character of a last byte leaves no bits over. -/
theorem base64Char_last_iff {c : Char} :
    c ∈ ['A', 'Q', 'g', 'w'] ↔ ∃ k < 4, base64Char (k * 16) = c := by
  constructor
  · intro h
    simp only [List.mem_cons, List.not_mem_nil, or_false] at h
    rcases h with rfl | rfl | rfl | rfl
    · exact ⟨0, by norm_num, by decide⟩
    · exact ⟨1, by norm_num, by decide⟩
    · exact ⟨2, by norm_num, by decide⟩
    · exact ⟨3, by norm_num, by decide⟩
  · intro h
    obtain ⟨k, hk, rfl⟩ := h
    interval_cases k <;> decide

/-- The texts that were made of a position. -/
theorem canonical_iff {s : List Char} :
    Canonical s ↔ ∃ u, encodeCursor u = String.ofList s := by
  constructor
  · intro h
    obtain ⟨digits, last, rfl, hlength, hdigits, hlast⟩ := h
    -- fifteen bytes in twenty characters, and the last byte in the two that are left
    obtain ⟨init, d, rfl⟩ : ∃ init d, digits = init ++ [d] := by
      rcases List.eq_nil_or_concat digits with rfl | ⟨init, d, hinit⟩
      · cases hlength
      · exact ⟨init, d, by rw [hinit, List.concat_eq_append]⟩
    rw [List.length_append, List.length_singleton] at hlength
    obtain ⟨bytes, hbytes, hlt, hgroups⟩ := exists_groups 5 init (by omega) fun c hc =>
      hdigits c (List.mem_append_left _ hc)
    obtain ⟨n, hn, rfl⟩ := exists_of_mem_alphabet (hdigits d (by simp))
    obtain ⟨k, hk, rfl⟩ := base64Char_last_iff.mp hlast
    -- the last byte is six bits and two
    have hsixteen : (bytes ++ [n * 4 + k]).length = 16 := by
      rw [List.length_append, hbytes, List.length_singleton]
    have hall : ∀ b ∈ bytes ++ [n * 4 + k], b < 256 := by
      intro b hb
      rcases List.mem_append.mp hb with hinit | hfinal
      · exact hlt b hinit
      · rw [List.mem_singleton.mp hfinal]
        omega
    obtain ⟨u, -, hu⟩ := uuidOfBytes_some hsixteen hall
    refine ⟨u, ?_⟩
    have hhigh : (n * 4 + k) / 4 = n := by omega
    have hlow : (n * 4 + k) % 4 = k := by omega
    rw [encodeCursor, hu, hgroups, b2aBase64, hhigh, hlow, List.append_assoc]
    rfl
  · intro h
    obtain ⟨u, hu⟩ := h
    have hs : b2aBase64 (bytesBE 16 u.int) = s := String.ofList_injective hu
    -- the other way round: the last byte leaves two characters
    have hsplit : bytesBE 16 u.int = bytesBE 15 (u.int / 256) ++ [u.int % 256] := rfl
    obtain ⟨chars, hchars, hmem, hgroups⟩ := b2aBase64_groups 5 (bytesBE 15 (u.int / 256))
      (bytesBE_length _ _) fun b => lt_of_mem_bytesBE
    rw [hsplit, hgroups, b2aBase64] at hs
    refine ⟨chars ++ [base64Char (u.int % 256 / 4)], base64Char (u.int % 256 % 4 * 16), ?_, ?_,
      ?_, ?_⟩
    · rw [← hs, List.append_assoc]
      rfl
    · rw [List.length_append, hchars]
      rfl
    · intro c hc
      rcases List.mem_append.mp hc with hinit | hlast
      · exact hmem c hinit
      · rw [List.mem_singleton.mp hlast]
        exact base64Char_mem (by omega)
    · exact base64Char_last_iff.mpr ⟨_, Nat.mod_lt _ (by norm_num), rfl⟩

end Evenkeel.Infrastructure
