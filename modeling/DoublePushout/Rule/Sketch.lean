import DoublePushout.Graph.Construction
import DoublePushout.Rule

/-!
# `DoublePushout.Rule.Sketch`: sketching rules

A `Sketch` is an annotated graph under construction. Each call adds one node or edge and marks the
sides that it is on, so the finished graph needs no further annotation. A call that faults leaves
the sketch to whoever made it, and in particular a preserved edge is added on both sides or on
neither.
-/

set_option autoImplicit false

namespace DoublePushout

/-- An annotated graph under construction. -/
structure Sketch where
  /-- The elements so far. -/
  graph : Graph := {}
  /-- The elements on the left side. -/
  lhs : Subgraph := { name := Side.lhs.mark }
  /-- The elements on the right side. -/
  rhs : Subgraph := { name := Side.rhs.mark }
  deriving Repr, Inhabited

namespace Sketch

/-- Adds a node and marks it on the given sides. -/
def addNode (s : Sketch) (onLhs onRhs : Bool) (n : Node) : NodeId × Sketch :=
  let (i, graph) := s.graph.addNode n
  let mark (part : Subgraph) (on : Bool) : Subgraph :=
    if on then { part with nodes := part.nodes.insert i } else part
  (i, ⟨graph, mark s.lhs onLhs, mark s.rhs onRhs⟩)

/-- Adds a node on both sides. -/
def preservedNode (s : Sketch) (n : Node) : NodeId × Sketch := s.addNode true true n

/-- Adds a node on the left side only. -/
def deletedNode (s : Sketch) (n : Node) : NodeId × Sketch := s.addNode true false n

/-- Adds a node on the right side only. -/
def createdNode (s : Sketch) (n : Node) : NodeId × Sketch := s.addNode false true n

/-- Adds an edge on one side. -/
def sideEdge (s : Sketch) (side : Side) (e : Edge) : Except Fault (EdgeId × Sketch) := do
  let (i, graph) ← s.graph.addEdge e
  return (i, match side with
    | .lhs => { s with graph, lhs := { s.lhs with edges := s.lhs.edges.insert i } }
    | .rhs => { s with graph, rhs := { s.rhs with edges := s.rhs.edges.insert i } })

/-- Adds an edge on the left side. -/
def lhsEdge (s : Sketch) (e : Edge) : Except Fault (EdgeId × Sketch) := s.sideEdge .lhs e

/-- Adds an edge on the right side. -/
def rhsEdge (s : Sketch) (e : Edge) : Except Fault (EdgeId × Sketch) := s.sideEdge .rhs e

/-- Adds a preserved edge: one edge of each side under a label, which must not be empty. -/
def preservedEdge (s : Sketch) (tail head : NodeId) (label : String) :
    Except Fault ((EdgeId × EdgeId) × Sketch) := do
  if label = "" then .error .blankPreservedLabel
  let e : Edge := { tail, head, label := some label }
  let (i, s) ← s.lhsEdge e
  let (j, s) ← s.rhsEdge e
  return ((i, j), s)

/-- The annotated graph. -/
def finish (s : Sketch) : Except Fault Graph := do
  let g ← s.graph.addSubgraph s.lhs
  g.addSubgraph s.rhs

end Sketch

end DoublePushout
