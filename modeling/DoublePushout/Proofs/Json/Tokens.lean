import DoublePushout.Json.Parsed
import DoublePushout.Json.Value
import DoublePushout.Proofs.Json.Numerals
import DoublePushout.Proofs.Json.Strings

/-!
# `DoublePushout.Proofs.Json.Tokens`: the tokens of a written value

`Value.tokens` are the tokens that a value is written as. They do not depend on the layout, since
layouts differ in blanks only (`Layout.Blank`), and `scan_render` says that scanning the text of a
value gives them. A number ends where something else begins, so the statement is about a value
that is followed by a text which cannot continue a number; what is written behind a value in a
list or record never does.

`Value.Fits` is what writing needs to be undone: every number is a 64-bit word.
-/

set_option autoImplicit false

namespace DoublePushout.Json

namespace Token

/-! ### One token -/

/-- Blanks in front of a text are skipped. -/
theorem scan_blanks {bs : List Char} (h : ∀ c ∈ bs, isBlank c = true) (cs : List Char) :
    scan (bs ++ cs) = scan cs := by
  rw [scan, scan, List.dropWhile_append_of_pos h]

/-- A character that is no blank begins a token. -/
theorem scan_cons {c : Char} (h : isBlank c = false) (cs : List Char) :
    scan (c :: cs) = (first c cs).1 :: scan (first c cs).2 := by
  have hdrop : (c :: cs).dropWhile isBlank = c :: cs := by simp [h]
  rw [scan]
  split
  · next hnil => rw [hdrop] at hnil; cases hnil
  · next d ds hcons =>
    rw [hdrop] at hcons
    cases hcons
    rfl

/-- A written string is one token. -/
theorem scan_quoted (s : String) (cs : List Char) :
    scan (quoted s ++ cs) = .text (some s) :: scan cs := by
  have hfirst : first '"' (s.toList.flatMap escape ++ '"' :: cs) = (.text (some s), cs) := by
    rw [first, if_pos rfl, readText_quoted]
  show scan ('"' :: (s.toList.flatMap escape ++ ['"'] ++ cs)) = _
  rw [List.append_assoc, List.singleton_append, scan_cons (by decide), hfirst]

/-- A digit is no blank. -/
theorem isBlank_of_isDigit {c : Char} (h : c.isDigit = true) : isBlank c = false := by
  simp only [isBlank, Bool.or_eq_false_iff, beq_eq_false_iff_ne]
  refine ⟨⟨⟨?_, ?_⟩, ?_⟩, ?_⟩ <;>
    · rintro rfl
      exact absurd h (by decide)

/-- A written number is one token. -/
theorem scan_decimal {n : Nat} (h : n < Nat.pow 2 64) {cs : List Char} (hcs : EndsNumber cs) :
    scan (decimal n ++ cs) = .number (.natural n) :: scan cs := by
  obtain ⟨hdigits, c, ds, heq, -, -⟩ := decimal_digits n
  have hdigit : c.isDigit = true := hdigits c (by rw [heq]; simp)
  have hread := readNumeral_decimal hcs n
  rw [heq, List.cons_append] at hread ⊢
  have hfirst : first c (ds ++ cs) = (.number (.natural n), cs) := by
    -- A digit is no quotation mark, and no other token begins with one.
    rw [first, if_neg, if_pos (by simp [hdigit]), hread]
    · show (number (Numeral.classify ⟨false, c :: ds, [], none⟩), cs) = _
      rw [← heq, classify_decimal h]
    · rintro rfl
      exact absurd hdigit (by decide)
  rw [scan_cons (isBlank_of_isDigit hdigit), hfirst]

/-- A bracket, a colon or a comma is one token. -/
theorem scan_sign {c : Char} {t : Token} (cs : List Char) (hfirst : first c cs = (t, cs))
    (hblank : isBlank c = false) : scan (c :: cs) = t :: scan cs := by
  rw [scan_cons hblank, hfirst]

variable (cs : List Char)

/-- An opening bracket is a token. -/
theorem scan_openList : scan ('[' :: cs) = .openList :: scan cs := scan_sign cs rfl rfl

/-- A closing bracket is a token. -/
theorem scan_closeList : scan (']' :: cs) = .closeList :: scan cs := scan_sign cs rfl rfl

/-- An opening brace is a token. -/
theorem scan_openRecord : scan ('\x7b' :: cs) = .openRecord :: scan cs := scan_sign cs rfl rfl

/-- A closing brace is a token. -/
theorem scan_closeRecord : scan ('\x7d' :: cs) = .closeRecord :: scan cs := scan_sign cs rfl rfl

/-- A colon is a token. -/
theorem scan_colon : scan (':' :: cs) = .colon :: scan cs := scan_sign cs rfl rfl

/-- A comma is a token. -/
theorem scan_comma : scan (',' :: cs) = .comma :: scan cs := scan_sign cs rfl rfl

end Token

/-! ### Layouts -/

/-- The layout is made of blanks. -/
structure Layout.Blank (lay : Layout) : Prop where
  line : ∀ depth, ∀ c ∈ lay.line depth, Token.isBlank c = true
  afterColon : ∀ c ∈ lay.afterColon, Token.isBlank c = true

/-- The compact layout puts nothing between the tokens. -/
theorem Layout.compact_blank : compact.Blank where
  line _ c hc := by cases hc
  afterColon c hc := by cases hc

/-- The pretty layout puts only line breaks and spaces between the tokens. -/
theorem Layout.pretty_blank : pretty.Blank where
  line depth c hc := by
    rcases List.mem_cons.1 hc with rfl | hc
    · rfl
    · rw [List.eq_of_mem_replicate hc]
      rfl
  afterColon c hc := by
    rw [List.mem_singleton.1 hc]
    rfl

/-- A line break and what comes behind it do not continue a number. -/
theorem endsNumber_blanks {bs cs : List Char} (h : ∀ c ∈ bs, Token.isBlank c = true)
    (hcs : EndsNumber cs) : EndsNumber (bs ++ cs) := by
  cases bs with
  | nil => exact hcs
  | cons b bs =>
    have hb := h b (by simp)
    simp only [Token.isBlank, Bool.or_eq_true, beq_iff_eq] at hb
    refine endsNumber_cons ?_
    rcases hb with ((rfl | rfl) | rfl) | rfl <;> decide

/-! ### Values -/

namespace Value

mutual

/-- The tokens of a value. -/
def tokens : Value → List Token
  | .natural n => [.number (.natural n)]
  | .text s => [.text (some s)]
  | .list [] => [.openList, .closeList]
  | .list (v :: vs) => .openList :: (tokens v ++ itemTokens vs)
  | .record [] => [.openRecord, .closeRecord]
  | .record ((key, v) :: fs) =>
    .openRecord :: .text (some key) :: .colon :: (tokens v ++ fieldTokens fs)

/-- The tokens of the items after the first, and of the closing bracket. -/
def itemTokens : List Value → List Token
  | [] => [.closeList]
  | v :: vs => .comma :: (tokens v ++ itemTokens vs)

/-- The tokens of the fields after the first, and of the closing brace. -/
def fieldTokens : List (String × Value) → List Token
  | [] => [.closeRecord]
  | (key, v) :: fs => .comma :: .text (some key) :: .colon :: (tokens v ++ fieldTokens fs)

end

mutual

/-- Every number in the value is a 64-bit word. -/
def Fits : Value → Prop
  | .natural n => n < Nat.pow 2 64
  | .text _ => True
  | .list vs => AllFit vs
  | .record fs => FieldsFit fs

/-- Every number in the values is a 64-bit word. -/
def AllFit : List Value → Prop
  | [] => True
  | v :: vs => v.Fits ∧ AllFit vs

/-- Every number in the fields is a 64-bit word. -/
def FieldsFit : List (String × Value) → Prop
  | [] => True
  | (_, v) :: fs => v.Fits ∧ FieldsFit fs

end

section Scan
open Token
variable {lay : Layout} (hlay : lay.Blank)
include hlay

/-- A number before the rest of a list ends there. -/
theorem endsNumber_renderItems (depth : Nat) (vs : List Value) (rest : List Char) :
    EndsNumber (renderItems lay depth vs ++ rest) := by
  cases vs with
  | nil =>
    rw [renderItems, List.append_assoc]
    exact endsNumber_blanks (hlay.line depth) (endsNumber_cons (by decide))
  | cons v vs =>
    rw [renderItems]
    exact endsNumber_cons (by decide)

/-- A number before the rest of a record ends there. -/
theorem endsNumber_renderFields (depth : Nat) (fs : List (String × Value)) (rest : List Char) :
    EndsNumber (renderFields lay depth fs ++ rest) := by
  cases fs with
  | nil =>
    rw [renderFields, List.append_assoc]
    exact endsNumber_blanks (hlay.line depth) (endsNumber_cons (by decide))
  | cons f fs =>
    obtain ⟨key, v⟩ := f
    rw [renderFields]
    exact endsNumber_cons (by decide)

mutual

/-- Scanning the text of a value gives its tokens. -/
theorem scan_render : ∀ (v : Value) (depth : Nat) (rest : List Char), v.Fits → EndsNumber rest →
    scan (render lay depth v ++ rest) = v.tokens ++ scan rest
  | .natural n, depth, rest, hv, hrest => by
    rw [render, tokens]
    exact scan_decimal hv hrest
  | .text s, depth, rest, hv, hrest => by
    rw [render, tokens]
    exact scan_quoted s rest
  | .list [], depth, rest, hv, hrest => by
    rw [render, tokens]
    show scan ('[' :: ']' :: rest) = _
    rw [scan_openList, scan_closeList]
    rfl
  | .list (v :: vs), depth, rest, hv, hrest => by
    rw [render, tokens]
    rw [Fits, AllFit] at hv
    -- Behind the first item comes a comma or a line, so a number in it ends there.
    simp only [List.cons_append, List.append_assoc]
    rw [scan_openList, scan_blanks (hlay.line _), scan_render v _ _ hv.1
      (endsNumber_renderItems hlay depth vs rest), scan_renderItems vs depth rest hv.2]
  | .record [], depth, rest, hv, hrest => by
    rw [render, tokens]
    show scan ('\x7b' :: '\x7d' :: rest) = _
    rw [scan_openRecord, scan_closeRecord]
    rfl
  | .record ((key, v) :: fs), depth, rest, hv, hrest => by
    rw [render, tokens]
    rw [Fits, FieldsFit] at hv
    simp only [List.cons_append, List.append_assoc]
    rw [scan_openRecord, scan_blanks (hlay.line _), scan_quoted, scan_colon,
      scan_blanks hlay.afterColon, scan_render v _ _ hv.1
      (endsNumber_renderFields hlay depth fs rest), scan_renderFields fs depth rest hv.2]

/-- The rest of a list is scanned to its tokens. -/
theorem scan_renderItems : ∀ (vs : List Value) (depth : Nat) (rest : List Char), AllFit vs →
    scan (renderItems lay depth vs ++ rest) = itemTokens vs ++ scan rest
  | [], depth, rest, hvs => by
    rw [renderItems, itemTokens, List.append_assoc, scan_blanks (hlay.line _)]
    exact scan_closeList rest
  | v :: vs, depth, rest, hvs => by
    rw [renderItems, itemTokens]
    rw [AllFit] at hvs
    simp only [List.cons_append, List.append_assoc]
    rw [scan_comma, scan_blanks (hlay.line _), scan_render v _ _ hvs.1
      (endsNumber_renderItems hlay depth vs rest), scan_renderItems vs depth rest hvs.2]

/-- The rest of a record is scanned to its tokens. -/
theorem scan_renderFields : ∀ (fs : List (String × Value)) (depth : Nat) (rest : List Char),
    FieldsFit fs → scan (renderFields lay depth fs ++ rest) = fieldTokens fs ++ scan rest
  | [], depth, rest, hfs => by
    rw [renderFields, fieldTokens, List.append_assoc, scan_blanks (hlay.line _)]
    exact scan_closeRecord rest
  | (key, v) :: fs, depth, rest, hfs => by
    rw [renderFields, fieldTokens]
    rw [FieldsFit] at hfs
    simp only [List.cons_append, List.append_assoc]
    rw [scan_comma, scan_blanks (hlay.line _), scan_quoted, scan_colon,
      scan_blanks hlay.afterColon, scan_render v _ _ hfs.1
      (endsNumber_renderFields hlay depth fs rest), scan_renderFields fs depth rest hfs.2]

end

end Scan

end Value

end DoublePushout.Json
