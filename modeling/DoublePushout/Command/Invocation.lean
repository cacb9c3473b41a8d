import DoublePushout.Command.Arguments
import DoublePushout.Command.Workspace
import DoublePushout.Log

/-!
# `DoublePushout.Command.Invocation`: invocations

An `Invocation` is a command with everything it needs. Its arguments are taken from left to right,
and each takes effect before the next is looked at: an input must be there, and an output is
created, or emptied, at once. A later mistake does not undo that. Only when all arguments are
taken does it show whether one is missing or two exclude each other.
-/

set_option autoImplicit false

namespace DoublePushout.Command

/-- Where an input comes from. -/
inductive Input where
  /-- The standard input. -/
  | standard
  /-- A file. -/
  | file (path : String)
  deriving DecidableEq, Repr

/-- Where the result goes. -/
inductive Output where
  /-- The standard output. -/
  | standard
  /-- A file. -/
  | file (path : String)
  deriving DecidableEq, Repr

/-- What a command does. -/
inductive Task where
  /-- Print the rule that an annotated graph describes. -/
  | derive (source : Input)
  /-- List the matches of a rule's left side. -/
  | listRule (rule target : Input) (limit : Option Nat) (injective : Bool)
  /-- List the matches of a pattern. -/
  | listPattern (pattern target : Input) (limit : Option Nat) (injective : Bool)
  /-- Rewrite a graph at the match of a rule with a number. -/
  | rewrite (rule target : Input) (index : Nat) (injective : Bool)
  deriving DecidableEq, Repr

/-- A command with everything it needs. -/
structure Invocation where
  /-- What is to be done. -/
  task : Task
  /-- Where the result goes. -/
  output : Output := .standard
  /-- What is shown while it runs. -/
  threshold : Threshold := some .info
  deriving DecidableEq, Repr

/-- Why no command is run. -/
inductive Stop where
  /-- The arguments are not those of a command. -/
  | usage
  /-- The command is to be explained. -/
  | help
  /-- The version is asked for. -/
  | version
  deriving DecidableEq, Repr

/-- What the arguments so far have set. -/
structure Settings where
  /-- Where the result goes. -/
  output : Option Output := none
  /-- The rule. -/
  rule : Option Input := none
  /-- The pattern. -/
  pattern : Option Input := none
  /-- The graph that the command works on. -/
  operand : Option Input := none
  /-- How many matches are listed at most. -/
  limit : Option Nat := none
  /-- The number of the match to rewrite. -/
  index : Option Nat := none
  /-- Distinct nodes need distinct images. -/
  injective : Bool := false
  /-- How often more was asked for. -/
  more : Nat := 0
  /-- How often less was asked for. -/
  less : Nat := 0
  deriving DecidableEq, Repr, Inhabited

/-- Opens an input. A dash is the standard input. -/
def openInput (ws : Workspace) (path : String) : Except Stop Input :=
  if path = "-" then .ok .standard
  else if (ws.find? path).isSome then .ok (.file path)
  else .error .usage

/-- Creates or empties an output. A dash is the standard output. -/
def openOutput (ws : Workspace) (path : String) : Except Stop (Workspace × Output) :=
  if path = "-" then .ok (ws, .standard)
  else if ws.canCreate path then .ok (ws.put path "", .file path)
  else .error .usage

/-- A value that is given for the first time. -/
def once {α : Type} (before : Option α) : Except Stop Unit :=
  if before.isSome then .error .usage else .ok ()

/-- A number. -/
def number (text : String) : Except Stop Nat :=
  match readNumber? text with
  | some n => .ok n
  | none => .error .usage

/-- Takes one argument. -/
def Settings.take (ws : Workspace) (s : Settings) : Argument → Except Stop (Workspace × Settings)
  | .unknown => .error .usage
  | .operand path => do
    once s.operand
    return (ws, { s with operand := some (← openInput ws path) })
  | .flag .output (some path) => do
    once s.output
    let (ws, output) ← openOutput ws path
    return (ws, { s with output := some output })
  | .flag .rule (some path) => do
    once s.rule
    return (ws, { s with rule := some (← openInput ws path) })
  | .flag .pattern (some path) => do
    once s.pattern
    return (ws, { s with pattern := some (← openInput ws path) })
  | .flag .limit (some text) => do
    once s.limit
    return (ws, { s with limit := some (← number text) })
  | .flag .index (some text) => do
    once s.index
    return (ws, { s with index := some (← number text) })
  | .flag .injective none =>
    if s.injective then .error .usage else .ok (ws, { s with injective := true })
  | .flag .verbose none => .ok (ws, { s with more := s.more + 1 })
  | .flag .quiet none => .ok (ws, { s with less := s.less + 1 })
  | .flag .help none => .error .help
  | .flag _ _ => .error .usage

/-- Takes arguments one after the other. The workspace is the one after the last
that took effect. -/
def Settings.takeAll (ws : Workspace) (s : Settings) :
    List Argument → Workspace × Except Stop Settings
  | [] => (ws, .ok s)
  | a :: as =>
    match s.take ws a with
    | .error stop => (ws, .error stop)
    | .ok (ws, s) => takeAll ws s as

/-- What a command does with its settings. -/
def Settings.task (s : Settings) (v : Verb) : Except Stop Task :=
  let operand := s.operand.getD .standard
  match v, s.rule, s.pattern with
  | .derive, _, _ => .ok (.derive operand)
  | .list, some rule, none => .ok (.listRule rule operand s.limit s.injective)
  | .list, none, some pattern => .ok (.listPattern pattern operand s.limit s.injective)
  | .list, _, _ => .error .usage
  | .rewrite, some rule, _ => .ok (.rewrite rule operand (s.index.getD 0) s.injective)
  | .rewrite, none, _ => .error .usage

/-- The invocation that a command's settings describe. -/
def Settings.invocation (s : Settings) (v : Verb) : Except Stop Invocation := do
  if 0 < s.more ∧ 0 < s.less then .error .usage
  return {
    task := ← s.task v
    output := s.output.getD .standard
    threshold := Threshold.ofCounts s.more s.less }

/-- Reads a command line. The workspace is the one after its outputs are opened. -/
def Invocation.ofArguments (ws : Workspace) : List String → Workspace × Except Stop Invocation
  | [] => (ws, .error .usage)
  | name :: rest =>
    match Verb.ofName? name with
    | some v =>
      let (ws, s) := Settings.takeAll ws {} (Argument.split v none rest)
      (ws, s >>= (Settings.invocation · v))
    | none =>
      match name.toList with
      | '-' :: 'V' :: _ => (ws, .error .version)
      | '-' :: 'h' :: _ => (ws, .error .help)
      | _ =>
        if name = "--version" then (ws, .error .version)
        else if name = "--help" ∨ name = "help" then (ws, .error .help)
        else (ws, .error .usage)

end DoublePushout.Command
