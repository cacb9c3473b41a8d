import DoublePushout.Json.Number
import DoublePushout.Json.Text

/-!
# `DoublePushout.Json.Value`: JSON values and their text

`Value` is what this library writes: numbers without sign or fraction, strings, lists, and records
with their fields in a fixed order. One renderer serves both forms of the text. They differ in a
`Layout`, that is in what stands where a line may begin and after a colon: nothing in the compact
form, a line break with two blanks for each level and one blank in the pretty form. An empty list
is `[]` in both.
-/

set_option autoImplicit false

namespace DoublePushout.Json

/-- A JSON value as written. -/
inductive Value where
  /-- A natural number. -/
  | natural (n : Nat)
  /-- A string. -/
  | text (s : String)
  /-- A list. -/
  | list (items : List Value)
  /-- A record, its fields in order. -/
  | record (fields : List (String × Value))
  deriving Repr, Inhabited

/-- The blanks of a text form. -/
structure Layout where
  /-- What stands before an item or a closing bracket at a depth. -/
  line : Nat → List Char
  /-- What stands between a colon and a field. -/
  afterColon : List Char

namespace Layout

/-- No blanks at all. -/
def compact : Layout := ⟨fun _ => [], []⟩

/-- Each item on a line of its own, indented by two blanks for each level. -/
def pretty : Layout := ⟨fun depth => '\n' :: List.replicate (2 * depth) ' ', [' ']⟩

end Layout

namespace Value

mutual

/-- The text of a value that stands at a depth. -/
def render (lay : Layout) (depth : Nat) : Value → List Char
  | .natural n => decimal n
  | .text s => quoted s
  | .list [] => ['[', ']']
  | .list (v :: vs) =>
    '[' :: lay.line (depth + 1) ++ render lay (depth + 1) v ++ renderItems lay depth vs
  | .record [] => ['\x7b', '\x7d']
  | .record ((key, v) :: fs) =>
    '\x7b' :: lay.line (depth + 1) ++ quoted key ++ ':' :: lay.afterColon ++
      render lay (depth + 1) v ++ renderFields lay depth fs

/-- The text of the items after the first, and of the closing bracket. -/
def renderItems (lay : Layout) (depth : Nat) : List Value → List Char
  | [] => lay.line depth ++ [']']
  | v :: vs =>
    ',' :: lay.line (depth + 1) ++ render lay (depth + 1) v ++ renderItems lay depth vs

/-- The text of the fields after the first, and of the closing brace. -/
def renderFields (lay : Layout) (depth : Nat) : List (String × Value) → List Char
  | [] => lay.line depth ++ ['\x7d']
  | (key, v) :: fs =>
    ',' :: lay.line (depth + 1) ++ quoted key ++ ':' :: lay.afterColon ++
      render lay (depth + 1) v ++ renderFields lay depth fs

end

/-- The compact text of a value. -/
def compact (v : Value) : String := String.ofList (v.render .compact 0)

/-- The pretty text of a value. -/
def pretty (v : Value) : String := String.ofList (v.render .pretty 0)

end Value

end DoublePushout.Json
