import DoublePushout.Json.Number
import DoublePushout.Json.Text

/-!
# `DoublePushout.Json.Token`: the tokens of JSON text

`Token.scan` cuts a text into tokens. It always succeeds: where the text stops being made of
tokens it gives one `broken` token and ends. Readers take the tokens from the front, so a fault of
the text is noticed when a reader comes to it and not before, and an error in the part before it
is reported first.
-/

set_option autoImplicit false

namespace DoublePushout.Json

/-- A token of JSON text. -/
inductive Token where
  /-- The bracket that opens a list. -/
  | openList
  /-- The bracket that closes a list. -/
  | closeList
  /-- The brace that opens a record. -/
  | openRecord
  /-- The brace that closes a record. -/
  | closeRecord
  /-- The colon after a key. -/
  | colon
  /-- The comma between items. -/
  | comma
  /-- The word `null`. -/
  | null
  /-- The word `true` or the word `false`. -/
  | bool (b : Bool)
  /-- A number. -/
  | number (n : Number)
  /-- A string; `none` if a surrogate in it has no partner. -/
  | text (t : Option String)
  /-- The place where the text stops being made of tokens. -/
  | broken
  deriving DecidableEq, Repr

namespace Token

/-- The characters that may stand between tokens. -/
def isBlank (c : Char) : Bool := c == ' ' || c == '\n' || c == '\t' || c == '\r'

/-- The word or bracket at the front of a text. -/
def sign : List Char → Token × List Char
  | '[' :: rest => (.openList, rest)
  | ']' :: rest => (.closeList, rest)
  | '\x7b' :: rest => (.openRecord, rest)
  | '\x7d' :: rest => (.closeRecord, rest)
  | ':' :: rest => (.colon, rest)
  | ',' :: rest => (.comma, rest)
  | 'n' :: 'u' :: 'l' :: 'l' :: rest => (.null, rest)
  | 't' :: 'r' :: 'u' :: 'e' :: rest => (.bool true, rest)
  | 'f' :: 'a' :: 'l' :: 's' :: 'e' :: rest => (.bool false, rest)
  | _ => (.broken, [])

/-- The token that begins with a given character, and the text after it. -/
def first (c : Char) (rest : List Char) : Token × List Char :=
  if c = '"' then
    match readText rest with
    | some (t, rest) => (.text t, rest)
    | none => (.broken, [])
  else if c = '-' || c.isDigit then
    match readNumeral (c :: rest) with
    | some (x, rest) => (.number x.classify, rest)
    | none => (.broken, [])
  else sign (c :: rest)

/-- A sign or a word leaves no more than what is behind its first character. -/
theorem sign_length (c : Char) (rest : List Char) :
    (sign (c :: rest)).2.length ≤ rest.length := by
  generalize hcs : c :: rest = cs
  unfold sign
  split <;> cases hcs <;> simp <;> omega

/-- The first token leaves no more than what is behind its first character. -/
theorem first_length (c : Char) (rest : List Char) : (first c rest).2.length ≤ rest.length := by
  unfold first
  split
  · split
    · next h => exact Nat.le_of_lt (readText_length h)
    · simp
  · split
    · split
      · next h => exact Nat.le_of_lt_succ (readNumeral_length h)
      · simp
    · exact sign_length c rest

/-- The tokens of a text. -/
def scan (cs : List Char) : List Token :=
  match _h : cs.dropWhile isBlank with
  | [] => []
  | c :: rest => (first c rest).1 :: scan (first c rest).2
termination_by cs.length
decreasing_by
  have hdrop := (List.dropWhile_suffix (l := cs) isBlank).length_le
  have hfirst := first_length c rest
  rw [_h, List.length_cons] at hdrop
  omega

end Token

end DoublePushout.Json
