import DoublePushout.Graph.Validity
import DoublePushout.Rule

/-!
# `DoublePushout.Rule.Annotation`: rules from annotated graphs

A rule is written as one graph with two subgraphs, `L` and `R`. Nodes in both are preserved, nodes
and edges in one only are deleted or created. An edge is never in both: a preserved edge is
written as one edge of each side under the same label, and the label pairs them.

`Graph.toRule` refuses a graph that does not describe a rule, with its first fault: an invalid
graph, a missing subgraph, the first node on neither side, then the first edge that is on neither
side or both, ends outside its side, or repeats a label of its side. Otherwise it gives the rule
together with the place in the graph from which each element of its sides comes.
-/

set_option autoImplicit false

namespace DoublePushout

/-- Why a graph describes no rule. -/
inductive RuleError where
  /-- The subgraph that marks a side is missing. -/
  | missingMark (side : Side)
  /-- A node is on neither side. -/
  | strayNode (node : NodeId) (name : String)
  /-- An edge is on neither side. -/
  | strayEdge (edge : EdgeId)
  /-- An edge is on both sides. -/
  | sharedEdge (edge : EdgeId)
  /-- An edge ends outside its side. -/
  | endOutsideSide (edge : EdgeId) (side : Side)
  /-- Two edges of a side have the same label. -/
  | repeatedLabel (label : String) (side : Side)
  /-- The graph is invalid. -/
  | invalidGraph (error : GraphError)
  deriving DecidableEq, Repr

/-- What a rule error says. -/
def RuleError.message : RuleError → String
  | .missingMark side =>
    "Graph must contain subgraphs named \"L\" and \"R\", \"" ++ side.mark ++ "\" is missing."
  | .strayNode node name =>
    "Node " ++ nodeText node ++ " (\"" ++ name ++ "\") is in neither the LHS nor the RHS."
  | .strayEdge edge => "Edge " ++ edgeText edge ++ " is in neither the LHS nor the RHS."
  | .sharedEdge edge =>
    "Edge " ++ edgeText edge ++ " is in both the \"L\" and \"R\" subgraphs, " ++
      "use separate edges with the same label instead."
  | .endOutsideSide edge side =>
    "Edge " ++ edgeText edge ++ " is in the " ++ side.text ++ " but one of its endpoints is not."
  | .repeatedLabel label side =>
    "Edge label \"" ++ label ++ "\" is used more than once in the " ++ side.text ++ "."
  | .invalidGraph error => error.message

/-- A rule, and where in the annotated graph the elements of its sides come from. -/
structure DerivedRule where
  /-- The rule. -/
  rule : Rule
  /-- The left side in the annotated graph. -/
  lhsOrigin : Mapping
  /-- The right side in the annotated graph. -/
  rhsOrigin : Mapping
  deriving DecidableEq, Repr

/-- A graph with the parts that mark the two sides of a rule. -/
structure Annotated where
  /-- The graph. -/
  graph : Graph
  /-- The part that is the left side. -/
  lhs : Subgraph
  /-- The part that is the right side. -/
  rhs : Subgraph
  deriving Repr

namespace Annotated

/-- The part that marks a side. -/
def part (a : Annotated) : Side → Subgraph
  | .lhs => a.lhs
  | .rhs => a.rhs

/-! ### The first fault -/

/-- The error of a node that is on neither side. -/
def nodeError? (a : Annotated) : Node × NodeId → Option RuleError
  | (n, i) => if i ∈ a.lhs.nodes ∨ i ∈ a.rhs.nodes then none else some (.strayNode i n.name)

/-- The labels of a side's edges below a handle. -/
def labelsBefore (a : Annotated) (side : Side) (i : EdgeId) : List String :=
  (a.graph.edges.take i).zipIdx.filterMap fun (e, j) =>
    if j ∈ (a.part side).edges then e.effective else none

/-- The error of an edge on one side that ends outside it or repeats a label. -/
def placementError? (a : Annotated) (side : Side) (e : Edge) (i : EdgeId) : Option RuleError :=
  if e.ends.any (· ∉ (a.part side).nodes) then some (.endOutsideSide i side)
  else
    match e.effective with
    | none => none
    | some label =>
      if label ∈ a.labelsBefore side i then some (.repeatedLabel label side) else none

/-- The error of an edge. -/
def edgeError? (a : Annotated) : Edge × EdgeId → Option RuleError
  | (e, i) =>
    if i ∈ a.lhs.edges then
      if i ∈ a.rhs.edges then some (.sharedEdge i) else a.placementError? .lhs e i
    else
      if i ∈ a.rhs.edges then a.placementError? .rhs e i else some (.strayEdge i)

/-- The first fault of the annotation: that of the first faulty node, else that of the first
faulty edge. -/
def firstError? (a : Annotated) : Option RuleError :=
  (a.graph.nodes.zipIdx.findSome? a.nodeError?).or (a.graph.edges.zipIdx.findSome? a.edgeError?)

/-! ### The rule -/

/-- The nodes of the graph that are on a side, in the order in which the side has them. -/
def nodesOf (a : Annotated) (side : Side) : List NodeId := (a.part side).nodes.toList

/-- The edges of the graph that are on a side, in the order in which the side has them. -/
def edgesOf (a : Annotated) (side : Side) : List EdgeId := (a.part side).edges.toList

/-- The handle that a node of the graph has on a side. -/
def localNode (a : Annotated) (side : Side) (n : NodeId) : NodeId := (a.nodesOf side).idxOf n

/-- An edge of the graph as it stands on a side. -/
def localEdge (a : Annotated) (side : Side) (e : Edge) : Edge :=
  { e with tail := a.localNode side e.tail, head := a.localNode side e.head }

/-- A side as a graph of its own. -/
def sideGraph (a : Annotated) (side : Side) : Graph where
  nodes := (a.nodesOf side).filterMap a.graph.node?
  edges := ((a.edgesOf side).filterMap a.graph.edge?).map (a.localEdge side)

/-- A side in the graph. -/
def origin (a : Annotated) (side : Side) : Mapping where
  nodes := a.nodesOf side
  edges := (a.edgesOf side).map ([·])

/-- The nodes of the graph that are on both sides, ascending. -/
def sharedNodes (a : Annotated) : List NodeId := (a.nodesOf .lhs).filter (· ∈ a.rhs.nodes)

/-- A pair of edges, one of each side, under one label. -/
structure Pair where
  /-- The label. -/
  label : String
  /-- The edge of the left side. -/
  lhs : EdgeId
  /-- The edge of the right side. -/
  rhs : EdgeId
  deriving DecidableEq, Repr

/-- The preserved edges: each edge of the left side whose label an edge of the right side has. -/
def pairs (a : Annotated) : List Pair :=
  (a.sideGraph .lhs).edges.zipIdx.filterMap fun (e, i) => do
    let label ← e.effective
    let j ← (a.sideGraph .rhs).edges.findIdx? (·.effective = some label)
    return ⟨label, i, j⟩

/-- The rule that the annotation describes. -/
def rule (a : Annotated) : Rule where
  lhs := a.sideGraph .lhs
  rhs := a.sideGraph .rhs
  interface := {
    nodes := a.sharedNodes.filterMap a.graph.node?
    edges := a.pairs.map fun p => { tail := 0, head := 0, label := some p.label } }
  toLhs := {
    nodes := a.sharedNodes.map (a.localNode .lhs)
    edges := a.pairs.map fun p => [p.lhs] }
  toRhs := {
    nodes := a.sharedNodes.map (a.localNode .rhs)
    edges := a.pairs.map fun p => [p.rhs] }

end Annotated

namespace Graph

/-- The graph with the parts that mark the sides of a rule: for each side the first subgraph of
its name. -/
def annotated (g : Graph) : Except RuleError Annotated :=
  match g.subgraph? Side.lhs.mark, g.subgraph? Side.rhs.mark with
  | none, _ => .error (.missingMark .lhs)
  | _, none => .error (.missingMark .rhs)
  | some lhs, some rhs => .ok ⟨g, lhs, rhs⟩

/-- The rule that an annotated graph describes, or the graph's first fault. -/
def toRule (g : Graph) : Except RuleError DerivedRule := do
  match g.validate with
  | .error e => .error (.invalidGraph e)
  | .ok () =>
    let a ← g.annotated
    match a.firstError? with
    | some e => .error e
    | none => .ok ⟨a.rule, a.origin .lhs, a.origin .rhs⟩

end Graph

end DoublePushout
