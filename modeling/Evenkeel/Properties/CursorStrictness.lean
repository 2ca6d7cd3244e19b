import Evenkeel.Infrastructure.CursorText

/-!
# How Strictly Cursors Are Parsed

`decode_cursor` refuses what it cannot read as "malformed cursor", but what it can read need
not be what `encode_cursor` wrote: `base64.urlsafe_b64decode` takes both alphabets, skips what
belongs to neither, drops the bits that are left over and stops at a complete padding.
-/

namespace Evenkeel.Properties

open Evenkeel.Domain Evenkeel.Infrastructure

/-- A text is refused as malformed, or it is the cursor of the position it leads to. -/
def ParsesStrictly (s : List CodePoint) : Prop :=
  decodeText s = .error malformedCursor ∨
    ∃ u, decodeText s = .ok (some u) ∧ (encodeCursor u).toList.map .char = s

theorem encodeStr_some {s : List CodePoint} {text : List Char} (h : encodeStr s = some text) :
    text.map .char = s := by
  induction s generalizing text with
  | nil =>
    cases h
    rfl
  | cons p rest ih =>
    cases p with
    | char c =>
      obtain ⟨tail, htail, rfl⟩ := Option.map_eq_some_iff.mp h
      rw [List.map_cons, ih htail]
    | surrogate n isSurrogate => cases h

theorem encodeStr_char (text : List Char) : encodeStr (text.map .char) = some text := by
  induction text with
  | nil => rfl
  | cons c text ih => rw [List.map_cons, encodeStr, ih, Option.map_some]

/-- A position leads back to itself through its cursor. A text is parsed strictly if and only
    if it has the form of a cursor or cannot be read as a position. -/
theorem strict_iff (u : UUID) (s : List CodePoint) :
    decodeText ((encodeCursor u).toList.map .char) = .ok (some u) ∧
    (ParsesStrictly s ↔
      (∃ text, encodeStr s = some text ∧ Canonical text) ∨
        ∀ text, encodeStr s = some text → ¬Readable text) := by
  constructor
  · rw [decodeText, encodeStr_char]
    show decodeCursor (some (String.ofList (encodeCursor u).toList)) = _
    rw [String.ofList_toList]
    exact decodeCursor_encodeCursor u
  · cases hencode : encodeStr s with
    | none =>
      have hrefused : ParsesStrictly s := .inl (by rw [decodeText, hencode])
      simp [hrefused]
    | some text =>
      have hdecode : decodeText s = decodeCursor (some (String.ofList text)) := by
        rw [decodeText, hencode]
      have hs := encodeStr_some hencode
      constructor
      · intro hstrict
        rcases hstrict with hrefused | ⟨u, hu, hback⟩
        · refine .inr fun text' htext hreadable => ?_
          cases htext
          obtain ⟨u, hu⟩ := readable_iff.mp hreadable
          rw [hdecode, hu] at hrefused
          cases hrefused
        · refine .inl ⟨text, rfl, canonical_iff.mpr ⟨u, ?_⟩⟩
          have htext : some (encodeCursor u).toList = some text := by
            rw [← encodeStr_char, hback, hencode]
          rw [← Option.some.inj htext, String.ofList_toList]
      · intro hwhen
        rcases hwhen with ⟨text', htext, hcanonical⟩ | hnot
        · cases htext
          obtain ⟨u, hu⟩ := canonical_iff.mp hcanonical
          refine .inr ⟨u, ?_, ?_⟩
          · rw [hdecode, ← hu]
            exact decodeCursor_encodeCursor u
          · rw [hu, String.toList_ofList, hs]
        · exact .inl (hdecode.trans (decodeCursor_of_not (hnot text rfl)))

/-! ## A cursor with a blank in it -/

/-- The cursor of the position 255, with a blank at its end. -/
private def padded : List CodePoint := "AAAAAAAAAAAAAAAAAAAA_w== ".toList.map .char

theorem padded_cursor_is_read : ¬ParsesStrictly padded := by
  intro hstrict
  have hdecode : decodeText padded = .ok (some ⟨255, by norm_num⟩) := by decide
  rcases hstrict with hrefused | ⟨u, hu, hback⟩
  · rw [hdecode] at hrefused
    cases hrefused
  · rw [hdecode] at hu
    cases hu
    have hlength := congrArg List.length hback
    revert hlength
    decide

end Evenkeel.Properties
