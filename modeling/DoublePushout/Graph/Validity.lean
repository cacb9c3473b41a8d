import DoublePushout.Graph

/-!
# `DoublePushout.Graph.Validity`: valid graphs

A graph is valid when every handle inside it names one of its elements: the ends of its edges, and
the members of its subgraphs. `Graph.Valid` says so, and `Graph.validate` finds the first handle
that does not: the edges are looked at first, in order and tail before head, then the subgraphs in
order, the nodes of each before its edges.
-/

set_option autoImplicit false

namespace DoublePushout

/-- A handle inside a graph that names none of its elements. -/
inductive GraphError where
  /-- An edge ends at a missing node. -/
  | badEndpoint (edge : EdgeId) (node : NodeId)
  /-- A subgraph has a missing node. -/
  | badMemberNode (subgraph : String) (node : NodeId)
  /-- A subgraph has a missing edge. -/
  | badMemberEdge (subgraph : String) (edge : EdgeId)
  deriving DecidableEq, Repr

/-- What a graph error says. -/
def GraphError.message : GraphError → String
  | .badEndpoint edge node =>
    "Edge " ++ edgeText edge ++ " refers to missing node " ++ nodeText node ++ "."
  | .badMemberNode subgraph node =>
    "Subgraph \"" ++ subgraph ++ "\" contains missing node " ++ nodeText node ++ "."
  | .badMemberEdge subgraph edge =>
    "Subgraph \"" ++ subgraph ++ "\" contains missing edge " ++ edgeText edge ++ "."

namespace Graph

/-- Every handle inside the graph names one of its elements. -/
structure Valid (g : Graph) : Prop where
  /-- Edges end at nodes of the graph. -/
  ends_lt : ∀ e ∈ g.edges, e.tail < g.nodes.length ∧ e.head < g.nodes.length
  /-- Subgraphs hold nodes of the graph. -/
  members_lt : ∀ s ∈ g.subgraphs, ∀ n ∈ s.nodes, n < g.nodes.length
  /-- Subgraphs hold edges of the graph. -/
  memberEdges_lt : ∀ s ∈ g.subgraphs, ∀ e ∈ s.edges, e < g.edges.length

/-- The first missing end of an edge. -/
def endpointError? (g : Graph) : Edge × EdgeId → Option GraphError
  | (e, i) => (e.ends.find? (!g.hasNode ·)).map (.badEndpoint i)

/-- The first missing member of a subgraph. -/
def memberError? (g : Graph) (s : Subgraph) : Option GraphError :=
  ((s.nodes.toList.find? (!g.hasNode ·)).map (.badMemberNode s.name)).or
    ((s.edges.toList.find? (!g.hasEdge ·)).map (.badMemberEdge s.name))

/-- The first handle that names no element of the graph. -/
def firstError? (g : Graph) : Option GraphError :=
  (g.edges.zipIdx.findSome? g.endpointError?).or (g.subgraphs.findSome? g.memberError?)

/-- Accepts the graph, or refuses it with the first handle that names none of its elements. -/
def validate (g : Graph) : Except GraphError Unit :=
  match g.firstError? with
  | some e => .error e
  | none => .ok ()

end Graph

end DoublePushout
