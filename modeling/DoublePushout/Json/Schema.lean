import DoublePushout.Json.Parsed
import DoublePushout.Json.Value
import DoublePushout.Text.Quoted

/-!
# `DoublePushout.Json.Schema`: record formats

A `Schema` describes how a structure stands in JSON: the name of its kind and its fields in order.
Each field says how it is written and how it is read into the structure, so that one description
serves both directions.

Reading is more liberal than writing. A structure may be a record with its fields in any order,
with unknown fields between them, or a list of its fields in order. A required field must be
present; an optional one keeps the value of the blank structure, and in a list only the last
fields can be left out. `Schema.read` reports the first error in the order of the text.
-/

set_option autoImplicit false

namespace DoublePushout.Json

/-- What a reader found where it expected something else. -/
inductive Found where
  /-- The word `null`. -/
  | null
  /-- A truth value. -/
  | boolean (b : Bool)
  /-- A natural number. -/
  | natural (n : Nat)
  /-- The integer `-n`. -/
  | negative (n : Nat)
  /-- A number that is not kept exactly. -/
  | floating
  /-- A string. -/
  | text (s : String)
  /-- A list. -/
  | sequence
  /-- A record. -/
  | map
  deriving DecidableEq, Repr

/-- What a reader expects. -/
inductive Expected where
  /-- A handle. -/
  | handle
  /-- A string. -/
  | text
  /-- A list. -/
  | sequence
  /-- A structure of a kind. -/
  | kind (name : String)
  deriving DecidableEq, Repr

/-- Why a text does not give a value. -/
inductive ReadError where
  /-- The text is not JSON. -/
  | malformed
  /-- A value of another type was expected. -/
  | wrongType (found : Found) (expected : Expected)
  /-- A handle was expected and `-n` stands there. -/
  | negativeHandle (n : Nat)
  /-- A list has too few items for a structure with a number of fields. -/
  | tooShort (count : Nat) (kind : String) (fields : Nat)
  /-- A field is given twice. -/
  | duplicateField (name : String)
  /-- A required field is not given. -/
  | missingField (name : String)
  deriving DecidableEq, Repr

/-- How messages name what was found. -/
def Found.phrase : Found → String
  | .null => "null"
  | .boolean b => "boolean `" ++ (if b then "true" else "false") ++ "`"
  | .natural n => "integer `" ++ toString n ++ "`"
  | .negative n => "integer `-" ++ toString n ++ "`"
  | .floating => "floating point"
  | .text s => "string " ++ Text.quoted s
  | .sequence => "sequence"
  | .map => "map"

/-- How messages name what was expected. -/
def Expected.phrase : Expected → String
  | .handle => "usize"
  | .text => "a string"
  | .sequence => "a sequence"
  | .kind name => "struct " ++ name

/-- What a read error says; a malformed text has no message. -/
def ReadError.message : ReadError → String
  | .malformed => ""
  | .wrongType found expected =>
    "invalid type: " ++ found.phrase ++ ", expected " ++ expected.phrase
  | .negativeHandle n => "invalid value: integer `-" ++ toString n ++ "`, expected usize"
  | .tooShort count kind fields =>
    "invalid length " ++ toString count ++ ", expected struct " ++ kind ++ " with " ++
      toString fields ++ " elements"
  | .duplicateField name => "duplicate field `" ++ name ++ "`"
  | .missingField name => "missing field `" ++ name ++ "`"

/-- How an error is worded for a text. The words may tell where in the text the error is, and what
keeps a malformed text from being JSON. -/
abbrev Wording := String → ReadError → String

/-- The words for an error that leave out the text. -/
def Wording.plain : Wording := fun _ e => e.message

namespace Parsed

/-- The error of finding this structure where something else was expected. -/
def mismatch (expected : Expected) : Parsed → ReadError
  | .null => .wrongType .null expected
  | .bool b => .wrongType (.boolean b) expected
  | .number (.natural n) => .wrongType (.natural n) expected
  | .number (.negative n) => .wrongType (.negative n) expected
  | .number .floating => .wrongType .floating expected
  | .number .unbounded => .malformed
  | .text (some s) => .wrongType (.text s) expected
  | .text none => .malformed
  | .list _ _ => .wrongType .sequence expected
  | .record _ _ => .wrongType .map expected
  | .missing => .malformed

/-- Reads a handle. -/
def asHandle : Parsed → Except ReadError Nat
  | .number (.natural n) => .ok n
  | .number (.negative n) => .error (.negativeHandle n)
  | j => .error (j.mismatch .handle)

/-- Reads a string. -/
def asText : Parsed → Except ReadError String
  | .text (some s) => .ok s
  | j => .error (j.mismatch .text)

/-- Reads a value that may be `null`. -/
def asOptional {α : Type} (read : Parsed → Except ReadError α) :
    Parsed → Except ReadError (Option α)
  | .null => .ok none
  | j => (read j).map some

/-- Reads a list of values. -/
def asList {α : Type} (read : Parsed → Except ReadError α) : Parsed → Except ReadError (List α)
  | .list items closed => do
    let values ← items.mapM read
    if closed then .ok values else .error .malformed
  | j => .error (j.mismatch .sequence)

end Parsed

/-- A field of a structure. -/
structure Field (α : Type) where
  /-- The key of the field. -/
  name : String
  /-- Whether the field must be given. -/
  required : Bool
  /-- The field as written, or nothing if it is left out. -/
  write : α → Option Value
  /-- The structure with the field as read. -/
  read : Parsed → α → Except ReadError α

/-- The form of a structure in JSON. -/
structure Schema (α : Type) where
  /-- The name of the kind. -/
  kind : String
  /-- The structure before any field is read. -/
  blank : α
  /-- The fields, in order. -/
  fields : List (Field α)

namespace Schema

variable {α : Type}

/-- A structure as a record of its fields. -/
def write (s : Schema α) (a : α) : Value :=
  .record (s.fields.filterMap fun f => (f.write a).map (f.name, ·))

/-- Reads fields from the items of a list. -/
def readItems (s : Schema α) (count : Nat) (closed : Bool) :
    List (Field α) → List Parsed → α → Except ReadError α
  | [], [], a => if closed then .ok a else .error .malformed
  | [], _ :: _, _ => .error .malformed
  | f :: fs, [], a =>
    if !closed then .error .malformed
    else if (f :: fs).any (·.required) then .error (.tooShort count s.kind s.fields.length)
    else .ok a
  | f :: fs, j :: js, a => do
    let a ← f.read j a
    readItems s count closed fs js a

/-- Reads fields from the entries of a record, and notes which were given. -/
def readEntries (s : Schema α) :
    List (Option String × Parsed) → α × List String → Except ReadError (α × List String)
  | [], state => .ok state
  | (none, _) :: _, _ => .error .malformed
  | (some key, j) :: es, (a, given) =>
    match s.fields.find? (·.name = key) with
    | none => if j.isWhole then readEntries s es (a, given) else .error .malformed
    | some f =>
      if key ∈ given then .error (.duplicateField key)
      else do
        let a ← f.read j a
        readEntries s es (a, key :: given)

/-- Reads a structure. -/
def read (s : Schema α) : Parsed → Except ReadError α
  | .list items closed => s.readItems items.length closed s.fields items s.blank
  | .record entries closed => do
    let (a, given) ← s.readEntries entries (s.blank, [])
    if !closed then .error .malformed
    match s.fields.find? fun f => f.required && !given.contains f.name with
    | some f => .error (.missingField f.name)
    | none => .ok a
  | j => .error (j.mismatch (.kind s.kind))

/-- Reads a structure from a text that holds nothing else. -/
def readText (s : Schema α) (text : String) : Except ReadError α := do
  let (j, atEnd) := Parsed.ofText text
  let a ← s.read j
  if atEnd then .ok a else .error .malformed

end Schema

end DoublePushout.Json
