import DoublePushout.Rewriting
import DoublePushout.Rule.Annotation

/-!
# `DoublePushout.Log`: what operations report

An `Event` is something that an operation reports while it runs: a rule derived, a match found, a
graph rewritten. It has a level and is shown as one line. The operations themselves are silent.
The functions below say which events each of them gives rise to, so that a caller who wants a log
puts it together from the results.

A `Threshold` is the least important level that is shown, or none at all.
-/

set_option autoImplicit false

namespace DoublePushout

/-- How important an event is. -/
inductive Level where
  /-- An error. -/
  | error
  /-- A warning. -/
  | warn
  /-- What a command has done. -/
  | info
  /-- What an operation has done. -/
  | debug
  /-- A step of an operation. -/
  | trace
  deriving DecidableEq, Repr

namespace Level

/-- The position of a level, the most important being 1. -/
def rank : Level → Nat
  | .error => 1
  | .warn => 2
  | .info => 3
  | .debug => 4
  | .trace => 5

/-- The name of a level. -/
def text : Level → String
  | .error => "ERROR"
  | .warn => "WARN"
  | .info => "INFO"
  | .debug => "DEBUG"
  | .trace => "TRACE"

end Level

/-- Something that an operation reports. -/
inductive Event where
  /-- A rule was derived. -/
  | ruleDerived (rule : Rule)
  /-- A match was found. -/
  | matchFound (m : Mapping)
  /-- All matches were found. -/
  | searchFinished (count : Nat) (pattern target : Graph)
  /-- A graph was rewritten. -/
  | graphRewritten (target result : Graph)
  /-- A command has derived a rule. -/
  | ruleReported (rule : Rule)
  /-- A command has listed matches. -/
  | matchesReported (count : Nat)
  /-- A command has rewritten a graph at the match with a number. -/
  | rewriteReported (index : Nat) (result : Graph)
  deriving Repr

namespace Event

/-- How important an event is. -/
def level : Event → Level
  | .ruleDerived _ => .debug
  | .matchFound _ => .trace
  | .searchFinished _ _ _ => .debug
  | .graphRewritten _ _ => .debug
  | .ruleReported _ => .info
  | .matchesReported _ => .info
  | .rewriteReported _ _ => .info

/-- The part of the program that reports an event. -/
def source : Event → String
  | .ruleDerived _ => "graft_core::rule"
  | .matchFound _ => "graft_core::matcher"
  | .searchFinished _ _ _ => "graft_core::matcher"
  | .graphRewritten _ _ => "graft_core::rule::apply"
  | .ruleReported _ => "graft_cli::derive"
  | .matchesReported _ => "graft_cli::matches"
  | .rewriteReported _ _ => "graft_cli::apply"

/-- The number of nodes and of edges of a graph. -/
def sizes (g : Graph) : String :=
  toString g.nodes.length ++ " nodes and " ++ toString g.edges.length ++ " edges"

/-- What an event says. -/
def text : Event → String
  | .ruleDerived r =>
    "Derived rule with " ++ toString r.lhs.nodes.length ++ " LHS nodes, " ++
      toString r.rhs.nodes.length ++ " RHS nodes, " ++
      toString r.interface.nodes.length ++ " interface nodes and " ++
      toString r.interface.edges.length ++ " interface edges"
  | .matchFound m =>
    "Found match [" ++
      String.intercalate ", " (m.nodes.map fun n => "NodeIndex(" ++ toString n ++ ")") ++ "]"
  | .searchFinished count pattern target =>
    "Found " ++ toString count ++ " matches of a " ++ toString pattern.nodes.length ++
      "-node pattern in a " ++ toString target.nodes.length ++ "-node graph"
  | .graphRewritten target result =>
    "Rewrote graph of " ++ sizes target ++ " into " ++ sizes result
  | .ruleReported r =>
    "Derived a rule deleting " ++ toString r.deletedNodes.length ++ " nodes and " ++
      toString r.deletedEdges.length ++ " edges, creating " ++
      toString r.createdNodes.length ++ " nodes and " ++
      toString r.createdEdges.length ++ " edges"
  | .matchesReported count => "Found " ++ toString count ++ " matches"
  | .rewriteReported index result =>
    "Rewrote match " ++ toString index ++ " into a graph of " ++ sizes result

/-- An event as a line of a log. -/
def line (e : Event) : String := e.level.text ++ " " ++ e.source ++ ": " ++ e.text

/-- What deriving a rule reports. -/
def ofDerivation : Except RuleError DerivedRule → List Event
  | .ok d => [.ruleDerived d.rule]
  | .error _ => []

/-- What finding matches one by one reports. -/
def ofMatches (ms : List Mapping) : List Event := ms.map .matchFound

/-- What finding all matches of a pattern reports. -/
def ofSearch (pattern target : Graph) : Except Fault (List Mapping) → List Event
  | .ok ms => ofMatches ms ++ [.searchFinished ms.length pattern target]
  | .error _ => []

/-- What applying a rule reports. -/
def ofApply (target : Graph) : Except (Failure ApplyError) Graph → List Event
  | .ok result => [.graphRewritten target result]
  | .error _ => []

/-- What an attempt to rewrite a graph at a chosen match reports. -/
def ofAttempt (c : Choice) (g : Graph) : List Event :=
  match c.pick g with
  | .error _ => []
  | .ok (passed, m) =>
    ofMatches (passed ++ m.toList) ++
      match c.attempt g with
      | .rewritten _ result => [.graphRewritten g result]
      | _ => []

end Event

/-- The least important level that is shown; without one nothing is. -/
abbrev Threshold := Option Level

namespace Threshold

/-- The threshold after so many requests for more and so many for less than the usual `info`. -/
def ofCounts (more less : Nat) : Threshold :=
  match 3 + more - less with
  | 0 => none
  | 1 => some .error
  | 2 => some .warn
  | 3 => some .info
  | 4 => some .debug
  | _ => some .trace

/-- Whether a level is shown. -/
def shows : Threshold → Level → Bool
  | none, _ => false
  | some least, level => level.rank ≤ least.rank

end Threshold

end DoublePushout
