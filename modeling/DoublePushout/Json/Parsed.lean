import DoublePushout.Json.Token

/-!
# `DoublePushout.Json.Parsed`: the structure of JSON text

`Parsed` is the structure of a text that may be broken off or malformed. Where a value should
stand and none does it has `missing`, and a list or record says whether its closing bracket was
found. The parser therefore never fails. A reader goes through the structure in the order of the
text, so of a malformed part and a value of the wrong type it reports whichever comes first.

After a place where the text is malformed nothing more is parsed: every list and record around
that place stays open.
-/

set_option autoImplicit false

namespace DoublePushout.Json

/-- The structure of a text, as far as it is JSON. -/
inductive Parsed where
  /-- The word `null`. -/
  | null
  /-- A truth value. -/
  | bool (b : Bool)
  /-- A number. -/
  | number (n : Number)
  /-- A string; `none` if a surrogate in it has no partner. -/
  | text (t : Option String)
  /-- A list, and whether it is closed. -/
  | list (items : List Parsed) (closed : Bool)
  /-- A record with its entries in order, and whether it is closed. -/
  | record (entries : List (Option String × Parsed)) (closed : Bool)
  /-- No value stands here. -/
  | missing
  deriving Repr, Inhabited

namespace Parsed

mutual

/-- Parses a value from the front of the tokens. The first argument bounds the tokens used. -/
def value : Nat → List Token → Parsed × List Token
  | 0, _ => (.missing, [])
  | bound + 1, ts =>
    match ts with
    | .null :: rest => (.null, rest)
    | .bool b :: rest => (.bool b, rest)
    | .number n :: rest => (.number n, rest)
    | .text t :: rest => (.text t, rest)
    | .openList :: .closeList :: rest => (.list [] true, rest)
    | .openList :: rest =>
      let (items, closed, rest) := items bound rest
      (.list items closed, rest)
    | .openRecord :: .closeRecord :: rest => (.record [] true, rest)
    | .openRecord :: rest =>
      let (entries, closed, rest) := entries bound rest
      (.record entries closed, rest)
    | _ => (.missing, [])

/-- Parses the items of a list and its closing bracket. -/
def items : Nat → List Token → List Parsed × Bool × List Token
  | 0, _ => ([], false, [])
  | bound + 1, ts =>
    let (v, rest) := value bound ts
    match rest with
    | .comma :: rest =>
      let (vs, closed, rest) := items bound rest
      (v :: vs, closed, rest)
    | .closeList :: rest => ([v], true, rest)
    | _ => ([v], false, [])

/-- Parses the entries of a record and its closing brace. -/
def entries : Nat → List Token → List (Option String × Parsed) × Bool × List Token
  | 0, _ => ([], false, [])
  | bound + 1, ts =>
    match ts with
    | .text key :: .colon :: rest =>
      let (v, rest) := value bound rest
      match rest with
      | .comma :: rest =>
        let (es, closed, rest) := entries bound rest
        ((key, v) :: es, closed, rest)
      | .closeRecord :: rest => ([(key, v)], true, rest)
      | _ => ([(key, v)], false, [])
    | .text key :: _ => ([(key, .missing)], false, [])
    | _ => ([], false, [])

end

/-- The structure of a text, and whether nothing but blanks follows its value. -/
def ofText (s : String) : Parsed × Bool :=
  let ts := Token.scan s.toList
  let (v, rest) := value (2 * ts.length + 1) ts
  (v, rest.isEmpty)

mutual

/-- Whether a value is well formed throughout, so that it can be skipped. -/
def isWhole : Parsed → Bool
  | .missing => false
  | .list vs closed => areWhole vs && closed
  | .record es closed => entriesWhole es && closed
  | _ => true

/-- Whether all of some values are well formed. -/
def areWhole : List Parsed → Bool
  | [] => true
  | v :: vs => v.isWhole && areWhole vs

/-- Whether the values of all of some entries are well formed. -/
def entriesWhole : List (Option String × Parsed) → Bool
  | [] => true
  | (_, v) :: es => v.isWhole && entriesWhole es

end

end Parsed

end DoublePushout.Json
