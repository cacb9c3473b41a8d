import DoublePushout.Graph.Validity

/-!
# `DoublePushout.Graph.Construction`: growing a graph

Graphs grow at the end only, so a handle once given stays good. A node can always be added. An
edge needs both its ends in the graph, a subgraph all its members, and a call that lacks one
faults without a result, so whoever made it still has the graph from before.
-/

set_option autoImplicit false

namespace DoublePushout.Graph

/-- Adds a node and returns its handle. -/
def addNode (g : Graph) (n : Node) : NodeId × Graph :=
  (g.nodes.length, { g with nodes := g.nodes ++ [n] })

/-- Adds an edge between two nodes of the graph and returns its handle. -/
def addEdge (g : Graph) (e : Edge) : Except Fault (EdgeId × Graph) :=
  match e.ends.find? (!g.hasNode ·) with
  | some n => .error (.missingEndpoint n)
  | none => .ok (g.edges.length, { g with edges := g.edges ++ [e] })

/-- Adds a subgraph of elements of the graph. -/
def addSubgraph (g : Graph) (s : Subgraph) : Except Fault Graph :=
  if s.nodes.toList.all g.hasNode && s.edges.toList.all g.hasEdge then
    .ok { g with subgraphs := g.subgraphs ++ [s] }
  else
    .error (.strayMember s.name)

end DoublePushout.Graph
