import DoublePushout.Mapping

/-!
# `DoublePushout.Rule`: rules

A `Rule` has two sides and an interface. A match of the left side is rewritten into a copy of the
right side; the interface says which nodes and edges of the two sides are the same. It is a graph
with a mapping into each side. What the left side has beyond the interface is deleted, what the
right side has beyond it is created, and the rest is preserved.

An interface edge stands for a preserved pair only through the two mappings. Its own ends mean
nothing.
-/

set_option autoImplicit false

namespace DoublePushout

/-- One of the two sides of a rule. -/
inductive Side where
  /-- The side that is matched. -/
  | lhs
  /-- The side that replaces it. -/
  | rhs
  deriving DecidableEq, Repr

namespace Side

/-- The name of a side in messages. -/
def text : Side → String
  | .lhs => "LHS"
  | .rhs => "RHS"

/-- The name of the subgraph that marks a side in an annotated graph. -/
def mark : Side → String
  | .lhs => "L"
  | .rhs => "R"

end Side

/-- A rewrite rule. -/
structure Rule where
  /-- The side that is matched. -/
  lhs : Graph := {}
  /-- The side that replaces it. -/
  rhs : Graph := {}
  /-- What the two sides share. -/
  interface : Graph := {}
  /-- The interface in the left side. -/
  toLhs : Mapping := {}
  /-- The interface in the right side. -/
  toRhs : Mapping := {}
  deriving DecidableEq, Repr, Inhabited

namespace Rule

/-- The nodes of the left side that the interface does not have, ascending. -/
def deletedNodes (r : Rule) : List NodeId := r.lhs.nodeIds.filter (· ∉ r.toLhs.nodes)

/-- The nodes of the right side that the interface does not have, ascending. -/
def createdNodes (r : Rule) : List NodeId := r.rhs.nodeIds.filter (· ∉ r.toRhs.nodes)

/-- The edges of the left side that the interface does not have, ascending. -/
def deletedEdges (r : Rule) : List EdgeId := r.lhs.edgeIds.filter (· ∉ r.toLhs.edges.flatten)

/-- The edges of the right side that the interface does not have, ascending. -/
def createdEdges (r : Rule) : List EdgeId := r.rhs.edgeIds.filter (· ∉ r.toRhs.edges.flatten)

/-- The deleted nodes are those of the left side that are not in the interface. -/
@[simp] theorem mem_deletedNodes {r : Rule} {n : NodeId} :
    n ∈ r.deletedNodes ↔ n < r.lhs.nodes.length ∧ n ∉ r.toLhs.nodes := by
  simp [deletedNodes]

/-- The created nodes are those of the right side that are not in the interface. -/
@[simp] theorem mem_createdNodes {r : Rule} {n : NodeId} :
    n ∈ r.createdNodes ↔ n < r.rhs.nodes.length ∧ n ∉ r.toRhs.nodes := by
  simp [createdNodes]

/-- The deleted edges are those of the left side that are not in the interface. -/
@[simp] theorem mem_deletedEdges {r : Rule} {e : EdgeId} :
    e ∈ r.deletedEdges ↔ e < r.lhs.edges.length ∧ e ∉ r.toLhs.edges.flatten := by
  simp [deletedEdges]

/-- The created edges are those of the right side that are not in the interface. -/
@[simp] theorem mem_createdEdges {r : Rule} {e : EdgeId} :
    e ∈ r.createdEdges ↔ e < r.rhs.edges.length ∧ e ∉ r.toRhs.edges.flatten := by
  simp [createdEdges]

end Rule

end DoublePushout
