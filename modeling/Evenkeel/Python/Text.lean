import Mathlib.Algebra.Group.Nat.Defs
import Mathlib.Data.List.Basic

/-!
# JSON and SHA-256

The two functions of the standard library a fingerprint is made of.

- `jsonString`, `jsonObject`: `json.dumps` of a dictionary of strings, which escapes
  everything outside printable ASCII
- `sha256`: `hashlib.sha256(…).hexdigest()` of an ASCII text

## Key Results

- `escape_plain`: a text without characters to escape is written as it is
-/

namespace Evenkeel.Python

/-! ## JSON -/

/-- The lower-case hexadecimal digit of a number below sixteen. -/
def hexDigit (n : ℕ) : Char := Nat.digitChar n

/-- `\uXXXX` for one UTF-16 code unit. -/
def escapeUnit (u : ℕ) : List Char :=
  ['\\', 'u', hexDigit (u / 4096 % 16), hexDigit (u / 256 % 16), hexDigit (u / 16 % 16),
    hexDigit (u % 16)]

/-- `ESCAPE_ASCII` of the `json` module, for one character. -/
def escapeChar (c : Char) : List Char :=
  if c = '"' then ['\\', '"']
  else if c = '\\' then ['\\', '\\']
  else if c = '\n' then ['\\', 'n']
  else if c = '\r' then ['\\', 'r']
  else if c = '\t' then ['\\', 't']
  else if c.toNat = 12 then ['\\', 'f']
  else if c.toNat = 8 then ['\\', 'b']
  else if 32 ≤ c.toNat ∧ c.toNat ≤ 126 then [c]
  else if c.toNat < 65536 then escapeUnit c.toNat
  else
    -- a surrogate pair
    escapeUnit (0xd800 + (c.toNat - 0x10000) / 1024 % 1024) ++
      escapeUnit (0xdc00 + (c.toNat - 0x10000) % 1024)

def jsonString (s : String) : List Char := '"' :: (s.toList.flatMap escapeChar ++ ['"'])

/-- The members of an object, separated as `json.dumps` does by default. -/
def jsonMembers : List (String × String) → List Char
  | [] => []
  | [(k, v)] => jsonString k ++ ':' :: ' ' :: jsonString v
  | (k, v) :: rest => jsonString k ++ ':' :: ' ' :: jsonString v ++ ',' :: ' ' :: jsonMembers rest

/-- `json.dumps` of a dictionary of strings, members in the given order. -/
def jsonObject (members : List (String × String)) : String :=
  String.ofList ('{' :: (jsonMembers members ++ ['}']))

/-- The characters `json.dumps` copies. -/
def Plain (c : Char) : Prop := 32 ≤ c.toNat ∧ c.toNat ≤ 126 ∧ c ≠ '"' ∧ c ≠ '\\'

theorem escapeChar_plain {c : Char} (h : Plain c) : escapeChar c = [c] := by
  obtain ⟨hlow, hhigh, hquote, hslash⟩ := h
  have hcontrol : ∀ d : Char, d.toNat < 32 → c ≠ d := by
    rintro d hd rfl
    omega
  simp [escapeChar, hquote, hslash, hcontrol '\n' (by decide), hcontrol '\r' (by decide),
    hcontrol '\t' (by decide), hlow, hhigh, show c.toNat ≠ 12 by omega,
    show c.toNat ≠ 8 by omega]

/-! ## SHA-256 -/

/-- The round constants: the fractional parts of the cube roots of the first 64 primes. -/
def roundConstants : List UInt32 :=
  [0x428a2f98, 0x71374491, 0xb5c0fbcf, 0xe9b5dba5, 0x3956c25b, 0x59f111f1, 0x923f82a4,
    0xab1c5ed5, 0xd807aa98, 0x12835b01, 0x243185be, 0x550c7dc3, 0x72be5d74, 0x80deb1fe,
    0x9bdc06a7, 0xc19bf174, 0xe49b69c1, 0xefbe4786, 0x0fc19dc6, 0x240ca1cc, 0x2de92c6f,
    0x4a7484aa, 0x5cb0a9dc, 0x76f988da, 0x983e5152, 0xa831c66d, 0xb00327c8, 0xbf597fc7,
    0xc6e00bf3, 0xd5a79147, 0x06ca6351, 0x14292967, 0x27b70a85, 0x2e1b2138, 0x4d2c6dfc,
    0x53380d13, 0x650a7354, 0x766a0abb, 0x81c2c92e, 0x92722c85, 0xa2bfe8a1, 0xa81a664b,
    0xc24b8b70, 0xc76c51a3, 0xd192e819, 0xd6990624, 0xf40e3585, 0x106aa070, 0x19a4c116,
    0x1e376c08, 0x2748774c, 0x34b0bcb5, 0x391c0cb3, 0x4ed8aa4a, 0x5b9cca4f, 0x682e6ff3,
    0x748f82ee, 0x78a5636f, 0x84c87814, 0x8cc70208, 0x90befffa, 0xa4506ceb, 0xbef9a3f7,
    0xc67178f2]

/-- The eight words of the chaining value. -/
structure ShaState where
  a : UInt32
  b : UInt32
  c : UInt32
  d : UInt32
  e : UInt32
  f : UInt32
  g : UInt32
  h : UInt32

def ShaState.initial : ShaState :=
  ⟨0x6a09e667, 0xbb67ae85, 0x3c6ef372, 0xa54ff53a, 0x510e527f, 0x9b05688c, 0x1f83d9ab,
    0x5be0cd19⟩

def rotateRight (x : UInt32) (n : UInt32) : UInt32 := (x >>> n) ||| (x <<< (32 - n))

/-- One of the 64 rounds, with its constant plus its schedule word. -/
def ShaState.round (s : ShaState) (kw : UInt32) : ShaState :=
  let t₁ := s.h + (rotateRight s.e 6 ^^^ rotateRight s.e 11 ^^^ rotateRight s.e 25) +
    ((s.e &&& s.f) ^^^ (~~~s.e &&& s.g)) + kw
  let t₂ := (rotateRight s.a 2 ^^^ rotateRight s.a 13 ^^^ rotateRight s.a 22) +
    ((s.a &&& s.b) ^^^ (s.a &&& s.c) ^^^ (s.b &&& s.c))
  ⟨t₁ + t₂, s.a, s.b, s.c, s.d + t₁, s.e, s.f, s.g⟩

/-- Extend a schedule, kept with its latest word first, by `n` words. -/
def extendSchedule : ℕ → List UInt32 → List UInt32
  | 0, w => w
  | n + 1, w =>
    let w15 := w.getD 14 0
    let w2 := w.getD 1 0
    let σ₀ := rotateRight w15 7 ^^^ rotateRight w15 18 ^^^ (w15 >>> 3)
    let σ₁ := rotateRight w2 17 ^^^ rotateRight w2 19 ^^^ (w2 >>> 10)
    extendSchedule n ((w.getD 15 0 + σ₀ + w.getD 6 0 + σ₁) :: w)

/-- The compression function, on a block of sixteen words. -/
def ShaState.compress (s : ShaState) (block : List UInt32) : ShaState :=
  let schedule := (extendSchedule 48 block.reverse).reverse
  let r := (List.zipWith (· + ·) roundConstants schedule).foldl ShaState.round s
  ⟨s.a + r.a, s.b + r.b, s.c + r.c, s.d + r.d, s.e + r.e, s.f + r.f, s.g + r.g, s.h + r.h⟩

/-- Big-endian words of a list of bytes. -/
def words : List ℕ → List UInt32
  | a :: b :: c :: d :: rest =>
      UInt32.ofNat (a * 16777216 + b * 65536 + c * 256 + d) :: words rest
  | _ => []

/-- The message followed by a one bit, zeros, and the 64-bit length in bits. -/
def padded (message : List ℕ) : List ℕ :=
  let zeros := (119 - message.length % 64) % 64
  let bits := 8 * message.length
  message ++ 0x80 :: List.replicate zeros 0 ++
    [bits / 2 ^ 56 % 256, bits / 2 ^ 48 % 256, bits / 2 ^ 40 % 256, bits / 2 ^ 32 % 256,
      bits / 2 ^ 24 % 256, bits / 2 ^ 16 % 256, bits / 2 ^ 8 % 256, bits % 256]

/-- The eight digits of one word. -/
def hexWord (w : UInt32) : List Char :=
  [28, 24, 20, 16, 12, 8, 4, 0].map fun shift => hexDigit (w.toNat / 2 ^ shift % 16)

/-- `hashlib.sha256(text.encode()).hexdigest()`, for an ASCII text. -/
@[irreducible] def sha256 (text : String) : String :=
  let blocks := (words (padded (text.toList.map Char.toNat))).toChunks 16
  let s := blocks.foldl ShaState.compress ShaState.initial
  String.ofList ([s.a, s.b, s.c, s.d, s.e, s.f, s.g, s.h].flatMap hexWord)

-- the one-block test vector of the standard
example : sha256 "abc" =
    "ba7816bf8f01cfea414140de5dae2223b00361a396177a9cb410ff61f20015ad" := by
  decide +kernel

end Evenkeel.Python
