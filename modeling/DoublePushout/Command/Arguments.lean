/-!
# `DoublePushout.Command.Arguments`: arguments

The first argument names the command, the others are its flags and operands. A flag is given by a
long name after two dashes or by a letter after one, and letters can be joined. The value of a
flag follows an equals sign, follows its letter, or is the next argument. After two dashes alone
everything is an operand.

`Argument.split` cuts the arguments of a command without judging them. Cutting stops at the first
one that is no argument of the command.
-/

set_option autoImplicit false

namespace DoublePushout.Command

/-- The commands. -/
inductive Verb where
  /-- Print the rule that an annotated graph describes. -/
  | derive
  /-- List the matches of a rule or a pattern. -/
  | list
  /-- Rewrite a graph at one match of a rule. -/
  | rewrite
  deriving DecidableEq, Repr

/-- The command of a name. -/
def Verb.ofName? : String → Option Verb
  | "derive" => some .derive
  | "match" => some .list
  | "apply" => some .rewrite
  | _ => none

/-- The flags of all commands. -/
inductive Flag where
  /-- Where the result goes. -/
  | output
  /-- The rule. -/
  | rule
  /-- The pattern. -/
  | pattern
  /-- How many matches are listed at most. -/
  | limit
  /-- The number of the match to rewrite. -/
  | index
  /-- Distinct nodes need distinct images. -/
  | injective
  /-- Show more. -/
  | verbose
  /-- Show less. -/
  | quiet
  /-- Explain the command. -/
  | help
  deriving DecidableEq, Repr

namespace Flag

/-- The long name of a flag. -/
def name : Flag → String
  | .output => "output"
  | .rule => "rule"
  | .pattern => "pattern"
  | .limit => "limit"
  | .index => "index"
  | .injective => "injective"
  | .verbose => "verbose"
  | .quiet => "quiet"
  | .help => "help"

/-- The letter of a flag. -/
def letter? : Flag → Option Char
  | .output => some 'o'
  | .verbose => some 'v'
  | .quiet => some 'q'
  | .help => some 'h'
  | _ => none

/-- Whether a flag has a value. -/
def hasValue : Flag → Bool
  | .output | .rule | .pattern | .limit | .index => true
  | .injective | .verbose | .quiet | .help => false

end Flag

/-- The flags of a command. -/
def Verb.flags : Verb → List Flag
  | .derive => [.output, .verbose, .quiet, .help]
  | .list => [.rule, .pattern, .limit, .injective, .output, .verbose, .quiet, .help]
  | .rewrite => [.rule, .index, .injective, .output, .verbose, .quiet, .help]

/-- An argument of a command. -/
inductive Argument where
  /-- A flag, with its value if one is given. -/
  | flag (f : Flag) (value : Option String)
  /-- Anything else. -/
  | operand (text : String)
  /-- Something that the command does not know. -/
  | unknown
  deriving DecidableEq, Repr

namespace Argument

/-- What one word of the command line adds. -/
inductive Piece where
  /-- Some arguments. -/
  | complete (found : List Argument)
  /-- Some arguments, and a flag whose value is the next word. -/
  | awaiting (found : List Argument) (f : Flag)
  /-- Some arguments, and then one that is not known; no further word is looked at. -/
  | stopped (found : List Argument)
  deriving DecidableEq, Repr

/-- Reads a long flag, given without its dashes. -/
def ofLong (v : Verb) (text : List Char) : Piece :=
  let name := String.ofList (text.takeWhile (· ≠ '='))
  match v.flags.find? (·.name = name), text.dropWhile (· ≠ '=') with
  | none, _ => .stopped []
  | some f, [] => if f.hasValue then .awaiting [] f else .complete [.flag f none]
  | some f, _ :: value =>
    if f.hasValue then .complete [.flag f (some (String.ofList value))] else .stopped []

/-- Reads joined letters. -/
def ofLetters (v : Verb) : List Char → List Argument → Piece
  | [], found => .complete found
  | c :: cs, found =>
    match v.flags.find? (·.letter? = some c) with
    | none => .stopped found
    | some f =>
      if f.hasValue then
        match cs with
        | [] => .awaiting found f
        | '=' :: value => .complete (found ++ [.flag f (some (String.ofList value))])
        | value => .complete (found ++ [.flag f (some (String.ofList value))])
      else ofLetters v cs (found ++ [.flag f none])

/-- A flag that got no value. -/
def unfinished : Option Flag → List Argument
  | none => []
  | some f => [.flag f none]

/-- Cuts the arguments of a command. The flag, if any, waits for its value. -/
def split (v : Verb) : Option Flag → List String → List Argument
  | waiting, [] => unfinished waiting
  | waiting, text :: rest =>
    match text.toList with
    | ['-', '-'] => unfinished waiting ++ rest.map .operand
    | '-' :: '-' :: long => unfinished waiting ++ splitAfter v (ofLong v long) rest
    | '-' :: c :: letters =>
      unfinished waiting ++ splitAfter v (ofLetters v (c :: letters) []) rest
    | _ =>
      match waiting with
      | some f => .flag f (some text) :: split v none rest
      | none => .operand text :: split v none rest
where
  /-- Goes on after a piece that begins with a dash. -/
  splitAfter (v : Verb) (piece : Piece) (rest : List String) : List Argument :=
    match piece with
    | .complete found => found ++ split v none rest
    | .awaiting found f => found ++ split v (some f) rest
    | .stopped found => found ++ [.unknown]

end Argument

/-- Reads a number: decimal digits, perhaps after a plus sign, for less than 2 ^ 64. -/
def readNumber? (text : String) : Option Nat :=
  let digits := match text.toList with
    | '+' :: ds => ds
    | ds => ds
  if digits = [] ∨ !digits.all Char.isDigit then none
  else
    let n := digits.foldl (fun n c => 10 * n + (c.toNat - '0'.toNat)) 0
    if n < Nat.pow 2 64 then some n else none

end DoublePushout.Command
