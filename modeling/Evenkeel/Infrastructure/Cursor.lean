import Evenkeel.Application.Ports

/-!
# Pagination Cursors

`infrastructure/adapters/sqla/cursor.py`: a cursor is the URL-safe base64 text of the last
row's id. `base64.urlsafe_b64decode` is not strict, and neither is `a2bBase64`: characters
outside the alphabet are skipped, and a complete padding ends the text.

## Key Results

- `decodeCursor_encodeCursor`: a cursor leads back to the id it was made of
-/

namespace Evenkeel.Infrastructure

open Evenkeel.Domain Evenkeel.Application

/-! ## Base64 -/

/-- The URL-safe alphabet. -/
def alphabet : List Char :=
  "ABCDEFGHIJKLMNOPQRSTUVWXYZabcdefghijklmnopqrstuvwxyz0123456789-_".toList

/-- The character of a number below 64. -/
def base64Char (n : ℕ) : Char := alphabet.getD n 'A'

/-- The value of a character; `+` and `/` are what `-` and `_` are translated to. -/
def sextet (c : Char) : Option ℕ :=
  if c = '+' then some 62 else if c = '/' then some 63 else alphabet.idxOf? c

/-- `base64.urlsafe_b64encode`. -/
def b2aBase64 : List ℕ → List Char
  | [] => []
  | [a] => [base64Char (a / 4), base64Char (a % 4 * 16), '=', '=']
  | [a, b] =>
      [base64Char (a / 4), base64Char (a % 4 * 16 + b / 16), base64Char (b % 16 * 4), '=']
  | a :: b :: c :: rest =>
      base64Char (a / 4) :: base64Char (a % 4 * 16 + b / 16) ::
        base64Char (b % 16 * 4 + c / 64) :: base64Char (c % 64) :: b2aBase64 rest

/-- `binascii.a2b_base64`, not strict: the position in the quadruple, the bits left over
    from the previous character, and the padding characters seen. -/
def a2bBase64 : List Char → ℕ → ℕ → ℕ → Option (List ℕ)
  | [], quadPos, _, _ => if quadPos = 0 then some [] else none
  | c :: rest, quadPos, leftchar, pads =>
    if c = '=' then
      if 2 ≤ quadPos ∧ 4 ≤ quadPos + (pads + 1) then some []
      else a2bBase64 rest quadPos leftchar (if 2 ≤ quadPos then pads + 1 else pads)
    else
      match sextet c with
      | none => a2bBase64 rest quadPos leftchar pads
      | some v =>
        match quadPos with
        | 0 => a2bBase64 rest 1 v 0
        | 1 => (a2bBase64 rest 2 (v % 16) 0).map ((leftchar * 4 + v / 16) :: ·)
        | 2 => (a2bBase64 rest 3 (v % 4) 0).map ((leftchar * 16 + v / 4) :: ·)
        | _ => (a2bBase64 rest 0 0 0).map ((leftchar * 64 + v) :: ·)

/-! ## Cursors -/

/-- `UUID.bytes`: `n` bytes, the most significant first. -/
def bytesBE : ℕ → ℕ → List ℕ
  | 0, _ => []
  | n + 1, k => bytesBE n (k / 256) ++ [k % 256]

/-- `encode_cursor`. -/
def encodeCursor (lastId : UUID) : String := String.ofList (b2aBase64 (bytesBE 16 lastId.int))

/-- `UUID(bytes=…)`, which insists on sixteen bytes. -/
def uuidOfBytes (bytes : List ℕ) : Option UUID :=
  let int := bytes.foldl (fun n b => n * 256 + b) 0
  if h : bytes.length = 16 ∧ int < 2 ^ 128 then some ⟨int, h.2⟩ else none

/-- `decode_cursor`. -/
def decodeCursor : Option String → Except Exn (Option UUID)
  | none => .ok none
  | some cursor =>
    match (a2bBase64 cursor.toList 0 0 0).bind uuidOfBytes with
    | some u => .ok (some u)
    | none => .error (.application ⟨.validation, .validationFailed,
        [("cursor", .text "malformed cursor")]⟩)

/-! ## Round trip -/

private theorem sextet_base64Char : ∀ n < 64, sextet (base64Char n) = some n := by
  decide +kernel

private theorem base64Char_ne_pad : ∀ n < 64, base64Char n ≠ '=' := by
  decide +kernel

/-- Reading a character of the alphabet. -/
theorem a2bBase64_cons {n : ℕ} (hn : n < 64) (rest : List Char) (quadPos leftchar pads : ℕ) :
    a2bBase64 (base64Char n :: rest) quadPos leftchar pads =
      match quadPos with
      | 0 => a2bBase64 rest 1 n 0
      | 1 => (a2bBase64 rest 2 (n % 16) 0).map ((leftchar * 4 + n / 16) :: ·)
      | 2 => (a2bBase64 rest 3 (n % 4) 0).map ((leftchar * 16 + n / 4) :: ·)
      | _ => (a2bBase64 rest 0 0 0).map ((leftchar * 64 + n) :: ·) := by
  rw [a2bBase64, if_neg (base64Char_ne_pad n hn), sextet_base64Char n hn]

/-- The padding of a text of one byte, and of two. -/
theorem a2bBase64_pads (leftchar : ℕ) : a2bBase64 ['=', '='] 2 leftchar 0 = some [] := rfl

theorem a2bBase64_pad (leftchar : ℕ) : a2bBase64 ['='] 3 leftchar 0 = some [] := rfl

theorem a2bBase64_b2aBase64 {bytes : List ℕ} (h : ∀ b ∈ bytes, b < 256) :
    a2bBase64 (b2aBase64 bytes) 0 0 0 = some bytes := by
  fun_induction b2aBase64 bytes with
  | case1 => rfl
  | case2 a =>
    -- one byte over: two characters and two pads
    have ha := h a (by simp)
    simp (disch := omega) only [a2bBase64_cons, a2bBase64_pads]
    simp
    omega
  | case3 a b =>
    -- two bytes over: three characters and one pad
    have ha := h a (by simp)
    have hb := h b (by simp)
    simp (disch := omega) only [a2bBase64_cons, a2bBase64_pad]
    simp
    omega
  | case4 a b c rest ih =>
    -- three bytes: four characters, and then the rest
    have ha := h a (by simp)
    have hb := h b (by simp)
    have hc := h c (by simp)
    simp (disch := omega) only [a2bBase64_cons, ih fun x hx => h x (by simp [hx])]
    simp
    omega

theorem bytesBE_length (n k : ℕ) : (bytesBE n k).length = n := by
  induction n generalizing k with
  | zero => rfl
  | succ n ih => simp [bytesBE, ih]

theorem lt_of_mem_bytesBE {n k b : ℕ} (h : b ∈ bytesBE n k) : b < 256 := by
  induction n generalizing k with
  | zero => cases h
  | succ n ih =>
    rcases List.mem_append.mp h with hinit | hlast
    · exact ih hinit
    · obtain rfl := List.mem_singleton.mp hlast
      exact Nat.mod_lt _ (by norm_num)

theorem foldl_bytesBE {n k : ℕ} (h : k < 256 ^ n) :
    (bytesBE n k).foldl (fun m b => m * 256 + b) 0 = k := by
  induction n generalizing k with
  | zero =>
    rw [pow_zero, Nat.lt_one_iff] at h
    simp [bytesBE, h]
  | succ n ih =>
    have hquot : k / 256 < 256 ^ n := Nat.div_lt_of_lt_mul (by rwa [pow_succ, mul_comm] at h)
    rw [bytesBE, List.foldl_append, ih hquot, List.foldl_cons, List.foldl_nil]
    omega

/-- `decode_cursor` inverts `encode_cursor`. -/
theorem decodeCursor_encodeCursor (u : UUID) :
    decodeCursor (some (encodeCursor u)) = .ok (some u) := by
  have hfold := foldl_bytesBE (n := 16) (k := u.int)
    (lt_of_lt_of_eq u.bounded (by norm_num))
  have huuid : uuidOfBytes (bytesBE 16 u.int) = some u := by
    simp only [uuidOfBytes, hfold, bytesBE_length, u.bounded, and_self, dite_true]
  simp only [decodeCursor, encodeCursor, String.toList_ofList,
    a2bBase64_b2aBase64 fun b => lt_of_mem_bytesBE, Option.bind_some, huuid]

example : encodeCursor ⟨255, by norm_num⟩ = "AAAAAAAAAAAAAAAAAAAA_w==" := by decide

end Evenkeel.Infrastructure
