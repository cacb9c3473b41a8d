import DoublePushout.Command.Invocation
import DoublePushout.Format

/-!
# `DoublePushout.Command.Run`: running a command

`Invocation.run` reads the inputs, does the task and writes the result as pretty JSON. Every graph
is validated before it is used, and a pattern without nodes is refused before it is sought. A
command that fails writes nothing to its output.

`run` is the whole program as a function: from the workspace and the command line to the exit
code, what is printed, and the files that changed.
-/

set_option autoImplicit false

namespace DoublePushout.Command

open DoublePushout.Json (ReadError Schema Value Wording)

/-- Why a command fails. -/
inductive CommandError where
  /-- The text of an input is not the JSON of a graph. -/
  | unreadable (text : String) (error : ReadError)
  /-- An input graph is invalid. -/
  | graph (error : GraphError)
  /-- A rule graph describes no rule. -/
  | rule (error : RuleError)
  /-- The rule cannot be applied at the match. -/
  | apply (error : ApplyError)
  /-- There is no match with the number. -/
  | noMatch (index found : Nat)
  /-- The pattern has no nodes. -/
  | emptyPattern
  deriving DecidableEq, Repr

/-- What a command error says. An input that cannot be read is described in the reader's words. -/
def CommandError.message (wording : Wording) : CommandError → String
  | .unreadable text error => "Error parsing input: " ++ wording text error
  | .graph error => "Invalid graph: " ++ error.message
  | .rule error => "Invalid rule: " ++ error.message
  | .apply error => "Cannot apply rule: " ++ error.message
  | .noMatch index found =>
    "No match with index " ++ toString index ++ ", found " ++ toString found ++ " matches"
  | .emptyPattern => "The pattern has no nodes"

/-- What a running command changes. -/
structure Console where
  /-- The files, and what is left of the standard input. -/
  workspace : Workspace
  /-- What was reported. -/
  events : List Event := []
  /-- What was printed. -/
  stdout : String := ""
  deriving Repr

/-- A part of a command. -/
abbrev Action := ExceptT (Failure CommandError) (StateM Console)

namespace Action

/-- Fails with an error. -/
def refuse {α : Type} (e : CommandError) : Action α := throw (.refused e)

/-- The result of an operation, whose failure is reworded. -/
def result {ε α : Type} (f : ε → CommandError) : Except (Failure ε) α → Action α
  | .ok a => pure a
  | .error e => throw (e.map f)

/-- The result of an operation that can only fault. -/
def guarded {α : Type} : Except Fault α → Action α
  | .ok a => pure a
  | .error x => throw (.fault x)

/-- Reports events. -/
def report (events : List Event) : Action Unit :=
  modify fun c => { c with events := c.events ++ events }

/-- Reads an input. The standard input can be read once; after that it is empty. -/
def read : Input → Action String
  | .standard => do
    let c ← get
    set { c with workspace := { c.workspace with stdin := "" } }
    return c.workspace.stdin
  | .file path => return ((← get).workspace.find? path).getD ""

/-- Reads a valid graph. -/
def readGraph (source : Input) : Action Graph := do
  let text ← read source
  match Graph.schema.readText text with
  | .error e => refuse (.unreadable text e)
  | .ok g =>
    match g.validate with
    | .error e => refuse (.graph e)
    | .ok () => return g

/-- Reads a rule as an annotated graph. -/
def readRule (source : Input) : Action Rule := do
  let derived := (← readGraph source).toRule
  report (Event.ofDerivation derived)
  match derived with
  | .error e => refuse (.rule e)
  | .ok d => return d.rule

/-- Writes a value. -/
def write (output : Output) (v : Value) : Action Unit :=
  let text := v.pretty ++ "\n"
  modify fun c =>
    match output with
    | .standard => { c with stdout := c.stdout ++ text }
    | .file path => { c with workspace := c.workspace.put path text }

/-- Begins the search for a pattern in a target. -/
def search (pattern target : Graph) (injective : Bool) : Action Matches := do
  if pattern.nodes.isEmpty then refuse .emptyPattern
  guarded (Query.of pattern target injective >>= Matches.start)

/-- Lists the matches that a search finds. -/
def listFound (output : Output) (limit : Option Nat) (ms : Matches) : Action Unit := do
  let found := match limit with
    | none => ms.toList
    | some n => (ms.take n).1
  report (Event.ofMatches found)
  report [.matchesReported found.length]
  write output (.list (found.map Mapping.schema.write))

/-- Rewrites a graph at the match with a number that a search finds. -/
def rewriteFound (output : Output) (rule : Rule) (target : Graph) (index : Nat) (ms : Matches) :
    Action Unit := do
  let (passed, chosen, _) := ms.nth index
  report (Event.ofMatches (passed ++ chosen.toList))
  match chosen with
  | none => refuse (.noMatch index passed.length)
  | some m =>
    let applied := rule.apply target m
    report (Event.ofApply target applied)
    let g ← result .apply applied
    report [.rewriteReported index g]
    write output (Graph.schema.write g)

/-- Lists the matches of a pattern. -/
def list (output : Output) (pattern target : Graph) (limit : Option Nat) (injective : Bool) :
    Action Unit := do
  listFound output limit (← search pattern target injective)

/-- Rewrites a graph at the match of a rule with a number. -/
def rewrite (output : Output) (rule : Rule) (target : Graph) (index : Nat) (injective : Bool) :
    Action Unit := do
  rewriteFound output rule target index (← search rule.lhs target injective)

/-- Does a task. -/
def perform (output : Output) : Task → Action Unit
  | .derive source => do
    let rule ← readRule source
    report [.ruleReported rule]
    write output (Rule.schema.write rule)
  | .listRule rule target limit injective => do
    let rule ← readRule rule
    let target ← readGraph target
    list output rule.lhs target limit injective
  | .listPattern pattern target limit injective => do
    let pattern ← readGraph pattern
    let target ← readGraph target
    list output pattern target limit injective
  | .rewrite rule target index injective => do
    let rule ← readRule rule
    let target ← readGraph target
    rewrite output rule target index injective

end Action

/-- What a run of the program leaves behind. -/
structure Report where
  /-- The exit code. -/
  exit : Nat
  /-- What is printed to the standard output. -/
  stdout : String := ""
  /-- The lines printed to the standard error. -/
  stderr : List String := []
  /-- The files that were created or changed. -/
  files : List (String × String) := []
  deriving DecidableEq, Repr

/-- The lines of a text, without the line ends. -/
def linesOf (text : String) : List String :=
  (text.splitOn "\n").map fun line =>
    if line.endsWith "\r" then (line.dropEnd 1).toString else line

/-- Runs a command on a workspace. -/
def Invocation.run (i : Invocation) (ws : Workspace) :
    Except (Failure CommandError) Unit × Console :=
  (Action.perform i.output i.task).run.run { workspace := ws }

/-- The lines that a run shows. -/
def Invocation.shown (i : Invocation) (events : List Event) (error : Option String) :
    List String :=
  (events.filter (i.threshold.shows ·.level)).map Event.line ++
    match i.threshold, error with
    | some _, some text => linesOf text
    | _, _ => []

/-- What the program prints for its version. -/
def versionText : String := "graft-cli 0.1.0\n"

/-- What the program prints for help. -/
def helpText : String :=
  "Double-pushout graph rewriting tools.\n\n" ++
  "Usage: graft derive [INPUT]\n" ++
  "       graft match (--rule FILE | --pattern FILE) [TARGET] [--limit N] [--injective]\n" ++
  "       graft apply --rule FILE [TARGET] [--index N] [--injective]\n\n" ++
  "Every command takes -o FILE, -v and -q. A dash is the standard input or output.\n"

/-- Runs the program. How the reader of an input words its errors is left to the caller. -/
def run (ws : Workspace) (args : List String) (wording : Wording := .plain) : Report :=
  match Invocation.ofArguments ws args with
  | (opened, .error .usage) => { exit := 2, files := opened.changedSince ws }
  | (opened, .error .help) => { exit := 0, stdout := helpText, files := opened.changedSince ws }
  | (opened, .error .version) =>
    { exit := 0, stdout := versionText, files := opened.changedSince ws }
  | (opened, .ok i) =>
    let (outcome, console) := i.run opened
    let files := console.workspace.changedSince ws
    match outcome with
    | .ok () =>
      { exit := 0, stdout := console.stdout, stderr := i.shown console.events none, files }
    | .error (.refused e) =>
      { exit := 1, stdout := console.stdout
        stderr := i.shown console.events (some (e.message wording)), files }
    | .error (.fault x) =>
      { exit := 101, stdout := console.stdout, stderr := i.shown console.events (some x.message),
        files }

/-- Whether a run of the program reads its standard input. -/
def readsStdin (ws : Workspace) (args : List String) : Bool :=
  match Invocation.ofArguments ws args with
  | (_, .ok i) =>
    match i.task with
    | .derive source => source = .standard
    | .listRule rule target _ _ => rule = .standard || target = .standard
    | .listPattern pattern target _ _ => pattern = .standard || target = .standard
    | .rewrite rule target _ _ => rule = .standard || target = .standard
  | _ => false

/-- The paths that a command line may mean: each argument, what follows its first equals sign, and
what follows its first two characters. -/
def possiblePaths (args : List String) : List String :=
  args.flatMap fun a =>
    [a, String.ofList ((a.toList.dropWhile (· ≠ '=')).drop 1), String.ofList (a.toList.drop 2)]

end DoublePushout.Command
