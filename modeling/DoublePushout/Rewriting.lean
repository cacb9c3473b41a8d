import DoublePushout.Matching.Session
import DoublePushout.Rule.Rewrite

/-!
# `DoublePushout.Rewriting`: chains of rewrites

A `Choice` picks a match of a rule by its number, counted from zero in the order of the search,
and perhaps within a restricted search. `Choice.attempt` rewrites a graph there. An attempt that
does not succeed leaves the graph as it was, so a list of choices always leads somewhere:
`rewriteChain` gives the outcome of each.
-/

set_option autoImplicit false

namespace DoublePushout

/-- How matches are sought. -/
structure SearchOptions where
  /-- Whether distinct pattern nodes need distinct images. -/
  injective : Bool := false
  /-- The half-open range for the image of the first pattern node, if restricted. -/
  roots : Option (NodeId × NodeId) := none
  deriving DecidableEq, Repr, Inhabited

/-- The query for a pattern with the given options. -/
def SearchOptions.query (o : SearchOptions) (pattern target : Graph) : Except Fault Query := do
  let q ← Query.of pattern target o.injective
  return match o.roots with
    | none => q
    | some (start, stop) => q.withRoots start stop

/-- The choice of a match of a rule. -/
structure Choice where
  /-- The rule. -/
  rule : Rule
  /-- The number of the match, from zero. -/
  index : Nat := 0
  /-- How matches are sought. -/
  options : SearchOptions := {}
  deriving Repr

/-- What comes of a choice. -/
inductive Outcome where
  /-- The graph was rewritten at a match. -/
  | rewritten (m : Mapping) (result : Graph)
  /-- There are fewer matches than the number chosen needs. -/
  | noMatch (found : Nat)
  /-- The rule cannot be applied at the match. -/
  | refused (m : Mapping) (error : ApplyError)
  /-- The search or the rewrite faulted. -/
  | fault (fault : Fault)
  deriving DecidableEq, Repr

/-- The graph after an outcome. -/
def Outcome.after (before : Graph) : Outcome → Graph
  | .rewritten _ result => result
  | _ => before

/-- The outcome of rewriting at a match. -/
def Outcome.ofApply (m : Mapping) : Except (Failure ApplyError) Graph → Outcome
  | .ok result => .rewritten m result
  | .error (.refused e) => .refused m e
  | .error (.fault x) => .fault x

/-- The match that is chosen in a graph, if there is one, and the matches found before it. -/
def Choice.pick (c : Choice) (g : Graph) : Except Fault (List Mapping × Option Mapping) := do
  let search ← Matches.start (← c.options.query c.rule.lhs g)
  let (passed, m, _) := search.nth c.index
  return (passed, m)

/-- Rewrites a graph at the chosen match. -/
def Choice.attempt (c : Choice) (g : Graph) : Outcome :=
  match c.pick g with
  | .error x => .fault x
  | .ok (passed, none) => .noMatch passed.length
  | .ok (_, some m) => .ofApply m (c.rule.apply g m)

/-- The outcomes of choices made one after the other, each with the graph it leads to. -/
def rewriteChain : Graph → List Choice → List (Outcome × Graph)
  | _, [] => []
  | g, c :: cs =>
    let outcome := c.attempt g
    (outcome, outcome.after g) :: rewriteChain (outcome.after g) cs

/-- Every match of a rule's left side, with the result of rewriting there. -/
def Rule.rewriteAll (r : Rule) (g : Graph) (o : SearchOptions) :
    Except Fault (List (Mapping × Except (Failure ApplyError) Graph)) := do
  let found ← (← o.query r.lhs g).findAll
  return found.map fun m => (m, r.apply g m)

end DoublePushout
