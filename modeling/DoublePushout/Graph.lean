import DoublePushout.Fault
import DoublePushout.IdSet

/-!
# `DoublePushout.Graph`: graphs

A `Graph` is a directed multigraph: a list of nodes, a list of edges between node handles, and a
list of named subgraphs. Nodes and edges carry an optional label. Nothing here forces the handles
inside a graph to name one of its elements; `Graph/Validity` says when they do.

A label may be absent, or present and empty. The two are stored and written differently and count
as the same everywhere else: every comparison goes through `effective`, which has no empty label.
-/

set_option autoImplicit false

namespace DoublePushout

/-- The label that counts: an empty one is none. -/
def effective (label : Option String) : Option String :=
  label.filter (fun text => text ≠ "")

/-- An absent label does not count. -/
@[simp] theorem effective_none : effective none = none := rfl

/-- Neither does an empty one. -/
@[simp] theorem effective_blank : effective (some "") = none := rfl

/-- A label that counts is never the empty one. -/
theorem effective_ne_blank {label : Option String} : effective label ≠ some "" := by
  cases label <;> simp [effective, Option.filter]

/-- What counts of a label counts in full. -/
@[simp] theorem effective_effective {label : Option String} :
    effective (effective label) = effective label := by
  cases label with
  | none => rfl
  | some text => by_cases h : text = "" <;> simp [effective, Option.filter, h]

/-- A node: a name, which nothing compares, and a label. -/
structure Node where
  /-- The name. -/
  name : String
  /-- The label as stored. -/
  label : Option String := none
  deriving DecidableEq, Repr, Inhabited

/-- An edge from its tail to its head. -/
structure Edge where
  /-- The node that the edge leaves. -/
  tail : NodeId
  /-- The node that the edge enters. -/
  head : NodeId
  /-- The label as stored. -/
  label : Option String := none
  deriving DecidableEq, Repr, Inhabited

/-- A named part of a graph. -/
structure Subgraph where
  /-- The name, which need not be unique. -/
  name : String
  /-- The nodes of the part. -/
  nodes : IdSet := IdSet.empty
  /-- The edges of the part. -/
  edges : IdSet := IdSet.empty
  deriving DecidableEq, Repr, Inhabited

/-- A directed multigraph with named subgraphs. -/
structure Graph where
  /-- The nodes, each at the position that is its handle. -/
  nodes : List Node := []
  /-- The edges, each at the position that is its handle. -/
  edges : List Edge := []
  /-- The subgraphs, in the order they were added. -/
  subgraphs : List Subgraph := []
  deriving DecidableEq, Repr, Inhabited

namespace Node

/-- The node's label as comparisons see it. -/
def effective (n : Node) : Option String := DoublePushout.effective n.label

/-- The node with the given label, where the empty label means none. -/
def withLabel (n : Node) (label : String) : Node :=
  { n with label := DoublePushout.effective (some label) }

/-- Whether a node of a pattern may stand for a node of a target: an unlabelled one for any, a
labelled one for those with its label. -/
def admits (pattern target : Node) : Bool :=
  pattern.effective = none || target.effective = pattern.effective

end Node

namespace Edge

/-- The edge's label as comparisons see it. -/
def effective (e : Edge) : Option String := DoublePushout.effective e.label

/-- The edge with the given label, where the empty label means none. -/
def withLabel (e : Edge) (label : String) : Edge :=
  { e with label := DoublePushout.effective (some label) }

/-- Whether the edge runs from one given node to another. -/
def joins (e : Edge) (tail head : NodeId) : Bool := e.tail = tail && e.head = head

/-- The ends of the edge, the tail first. -/
def ends (e : Edge) : List NodeId := [e.tail, e.head]

/-- An edge joins two nodes exactly if it leads from the first to the second. -/
theorem joins_iff {e : Edge} {tail head : NodeId} :
    e.joins tail head = true ↔ e.tail = tail ∧ e.head = head := by
  simp [joins]

end Edge

namespace Graph

/-- The graph without elements. -/
def empty : Graph := {}

/-- The handles of the nodes, ascending. -/
def nodeIds (g : Graph) : List NodeId := List.range g.nodes.length

/-- The handles of the edges, ascending. -/
def edgeIds (g : Graph) : List EdgeId := List.range g.edges.length

/-- The node at a handle, if there is one. -/
def node? (g : Graph) (n : NodeId) : Option Node := g.nodes[n]?

/-- The edge at a handle, if there is one. -/
def edge? (g : Graph) (e : EdgeId) : Option Edge := g.edges[e]?

/-- The node at a handle that should name one. -/
def node (g : Graph) (n : NodeId) : Except Fault Node := entry g.nodes n

/-- The edge at a handle that should name one. -/
def edge (g : Graph) (e : EdgeId) : Except Fault Edge := entry g.edges e

/-- Whether a handle names a node of the graph. -/
def hasNode (g : Graph) (n : NodeId) : Bool := n < g.nodes.length

/-- Whether a handle names an edge of the graph. -/
def hasEdge (g : Graph) (e : EdgeId) : Bool := e < g.edges.length

/-- The edges from one node to another, ascending. -/
def edgesBetween (g : Graph) (tail head : NodeId) : List EdgeId :=
  g.edges.zipIdx.filterMap fun (e, i) => if e.joins tail head then some i else none

/-- Whether some edge runs from one node to another. -/
def adjacent (g : Graph) (tail head : NodeId) : Bool := g.edges.any (·.joins tail head)

/-- The first subgraph with a name. -/
def subgraph? (g : Graph) (name : String) : Option Subgraph :=
  g.subgraphs.find? (·.name = name)

/-- The handles of the nodes are the numbers below how many there are. -/
@[simp] theorem mem_nodeIds {g : Graph} {n : NodeId} : n ∈ g.nodeIds ↔ n < g.nodes.length := by
  simp [nodeIds]

/-- The handles of the edges are the numbers below how many there are. -/
@[simp] theorem mem_edgeIds {g : Graph} {e : EdgeId} : e ∈ g.edgeIds ↔ e < g.edges.length := by
  simp [edgeIds]

/-- The edges between two nodes are those in the graph that join them. -/
theorem mem_edgesBetween {g : Graph} {tail head : NodeId} {i : EdgeId} :
    i ∈ g.edgesBetween tail head ↔ ∃ e, g.edge? i = some e ∧ e.joins tail head = true := by
  simp only [edgesBetween, edge?, List.mem_filterMap, Prod.exists]
  constructor
  · rintro ⟨e, j, hmem, h⟩
    split at h
    · next hj =>
      cases h
      exact ⟨e, (List.mem_zipIdx_iff_getElem?.1 hmem), hj⟩
    · cases h
  · rintro ⟨e, he, hj⟩
    exact ⟨e, i, List.mem_zipIdx_iff_getElem?.2 he, by simp [hj]⟩

end Graph

end DoublePushout
