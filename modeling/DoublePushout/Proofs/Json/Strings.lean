import DoublePushout.Json.Text
import Mathlib.Tactic.SplitIfs

/-!
# `DoublePushout.Proofs.Json.Strings`: strings that are written and read back

A string is written character by character, so it is read back character by character.
`readPieces_escape` is the step: what `escape` writes is one piece, and the rest is read as
before. `assemble_pieceOf` is the step of putting pieces together; a control character that is
written as a code unit is no surrogate, so it stands for itself. `readText_quoted` is the whole
string.
-/

set_option autoImplicit false

namespace DoublePushout.Json

/-- The piece as which a character is read back: a code unit where it is written as one. -/
def pieceOf (c : Char) : Piece :=
  if c.toNat < 0x20 ∧ c ≠ '\x08' ∧ c ≠ '\t' ∧ c ≠ '\n' ∧ c ≠ '\x0c' ∧ c ≠ '\r' then
    .unit c.toNat
  else .char c

/-- The four digits of a control character are read as the character's number. -/
theorem hex4?_hexDigit {n : Nat} (h : n < 0x20) :
    hex4? '0' '0' (hexDigit (n / 16)) (hexDigit (n % 16)) = some n := by
  have hall : ∀ n < 0x20, hex4? '0' '0' (hexDigit (n / 16)) (hexDigit (n % 16)) = some n := by
    decide
  exact hall n h

/-- A character that is written as it is is read as it is. -/
theorem readPieces_plain {c : Char} (hquote : c ≠ '"') (hslash : c ≠ '\\')
    (hplain : ¬ c.toNat < 0x20) (cs : List Char) :
    readPieces (c :: cs) = (readPieces cs).map fun x => (.char c :: x.1, x.2) := by
  rw [readPieces]
  · rw [if_neg hplain]
    cases readPieces cs with
    | none => rfl
    | some x => rfl
  · exact hquote
  · intro a b d e r hc
    exact absurd hc hslash
  · intro e r hc
    exact absurd hc hslash

/-- A short escape is read as the character that it stands for. -/
theorem readPieces_short {c e : Char} (he : unescape? e = some c) (hu : e ≠ 'u')
    (cs : List Char) :
    readPieces ('\\' :: e :: cs) = (readPieces cs).map fun x => (.char c :: x.1, x.2) := by
  rw [readPieces]
  · rw [he]
    cases readPieces cs with
    | none => rfl
    | some x => rfl
  · intro a b d f r hcons
    exact absurd hcons hu

/-- A control character that is written as a code unit is read as one. -/
theorem readPieces_control {n : Nat} (h : n < 0x20) (cs : List Char) :
    readPieces ('\\' :: 'u' :: '0' :: '0' :: hexDigit (n / 16) :: hexDigit (n % 16) :: cs) =
      (readPieces cs).map fun x => (.unit n :: x.1, x.2) := by
  rw [readPieces, hex4?_hexDigit h]
  cases readPieces cs with
  | none => rfl
  | some x => rfl

/-- What is written for a character is read as one piece. -/
theorem readPieces_escape (c : Char) (cs : List Char) :
    readPieces (escape c ++ cs) = (readPieces cs).map fun x => (pieceOf c :: x.1, x.2) := by
  unfold escape
  split_ifs with hquote hslash hback htab hline hfeed hreturn hcontrol
  · -- The quote, the backslash and the five characters with a letter of their own.
    subst hquote
    exact readPieces_short rfl (by decide) cs
  · subst hslash
    exact readPieces_short rfl (by decide) cs
  · subst hback
    exact readPieces_short rfl (by decide) cs
  · subst htab
    exact readPieces_short rfl (by decide) cs
  · subst hline
    exact readPieces_short rfl (by decide) cs
  · subst hfeed
    exact readPieces_short rfl (by decide) cs
  · subst hreturn
    exact readPieces_short rfl (by decide) cs
  · -- The other control characters are written with four hexadecimal digits.
    rw [pieceOf, if_pos ⟨hcontrol, hback, htab, hline, hfeed, hreturn⟩]
    exact readPieces_control hcontrol cs
  · rw [pieceOf, if_neg fun h => hcontrol h.1]
    exact readPieces_plain hquote hslash hcontrol cs

/-- The written characters of a string are read up to the closing quotation mark. -/
theorem readPieces_escaped (cs rest : List Char) :
    readPieces (cs.flatMap escape ++ '"' :: rest) = some (cs.map pieceOf, rest) := by
  induction cs with
  | nil => rfl
  | cons c cs ih =>
    rw [List.flatMap_cons, List.append_assoc, readPieces_escape, ih]
    rfl

/-- A piece that is read for a written character is put together to that character. -/
theorem assemble_pieceOf (c : Char) (ps : List Piece) :
    assemble (pieceOf c :: ps) = (assemble ps).map (c :: ·) := by
  rw [pieceOf]
  split
  · next h =>
    -- The code unit of a control character is far below the surrogates.
    have hhigh : isHighSurrogate c.toNat = false := by
      simp only [isHighSurrogate, Bool.and_eq_false_iff, decide_eq_false_iff_not]
      omega
    have hlow : isLowSurrogate c.toNat = false := by
      simp only [isLowSurrogate, Bool.and_eq_false_iff, decide_eq_false_iff_not]
      omega
    cases ps with
    | nil => simp [assemble, hhigh, hlow]
    | cons p ps => simp [assemble, hhigh, hlow]
  · rw [assemble]

/-- The pieces of a text are assembled to its characters. -/
theorem assemble_pieces (cs : List Char) : assemble (cs.map pieceOf) = some cs := by
  induction cs with
  | nil => rfl
  | cons c cs ih =>
    rw [List.map_cons, assemble_pieceOf, ih]
    rfl

/-- A written string is read back. -/
theorem readText_quoted (s : String) (rest : List Char) :
    readText (s.toList.flatMap escape ++ '"' :: rest) = some (some s, rest) := by
  rw [readText, readPieces_escaped]
  show some ((assemble (s.toList.map pieceOf)).map String.ofList, rest) = _
  rw [assemble_pieces, Option.map_some, String.ofList_toList]

end DoublePushout.Json
