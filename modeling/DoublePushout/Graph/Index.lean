import DoublePushout.Graph

/-!
# `DoublePushout.Graph.Index`: looking things up in a graph

A search asks the same graph again and again for a node, for its size, and for the edges between
two nodes. An `Index` files the nodes by handle and the edges by the node that they leave, so that
none of these questions walks through the whole graph. It is tied to its graph by its type, and
each of its answers is proved to be the graph's own.
-/

set_option autoImplicit false

namespace DoublePushout

/-- The edges that leave a node, each with its head, ascending. -/
def Graph.row (g : Graph) (tail : NodeId) : List (NodeId × EdgeId) :=
  g.edges.zipIdx.filterMap fun (e, i) => if e.tail = tail then some (e.head, i) else none

/-- The elements of a graph, filed for look-up. -/
structure Index (g : Graph) where
  /-- The nodes, by handle. -/
  nodes : Array Node
  /-- The edges that leave each node. -/
  rows : Array (List (NodeId × EdgeId))
  /-- The nodes are those of the graph. -/
  nodes_eq : nodes = g.nodes.toArray
  /-- The edges are those of the graph. -/
  rows_eq : rows = (g.nodeIds.map g.row).toArray
  deriving Repr

namespace Index

variable {g : Graph}

/-- The index of a graph. -/
def of (g : Graph) : Index g := ⟨_, _, rfl, rfl⟩

/-- The number of nodes. -/
def size (ix : Index g) : Nat := ix.nodes.size

/-- The node at a handle, if there is one. -/
def node? (ix : Index g) (n : NodeId) : Option Node := ix.nodes[n]?

/-- The edges from one node to another, ascending. -/
def edgesBetween (ix : Index g) (tail head : NodeId) : List EdgeId :=
  match ix.rows[tail]? with
  | some row => row.filterMap fun (h, i) => if h = head then some i else none
  | none => g.edgesBetween tail head

/-- Whether some edge runs from one node to another. -/
def adjacent (ix : Index g) (tail head : NodeId) : Bool :=
  match ix.rows[tail]? with
  | some row => row.any (·.1 = head)
  | none => g.adjacent tail head

/-- The index knows how many nodes the graph has. -/
@[simp] theorem size_eq (ix : Index g) : ix.size = g.nodes.length := by
  simp [size, ix.nodes_eq]

/-- The index finds the nodes of the graph. -/
@[simp] theorem node?_eq (ix : Index g) (n : NodeId) : ix.node? n = g.node? n := by
  simp [node?, Graph.node?, ix.nodes_eq]

/-- A row of the index is the row of the graph for the same tail. -/
theorem eq_row {ix : Index g} {tail : NodeId} {row : List (NodeId × EdgeId)}
    (h : ix.rows[tail]? = some row) : row = g.row tail := by
  rw [ix.rows_eq, List.getElem?_toArray, List.getElem?_map, Option.map_eq_some_iff] at h
  obtain ⟨n, hn, rfl⟩ := h
  rw [Graph.nodeIds, List.getElem?_range (by
    have := (List.getElem?_eq_some_iff.1 hn).1
    simpa using this)] at hn
  cases hn
  rfl

/-- The index finds the edges that the graph has between two nodes. -/
@[simp] theorem edgesBetween_eq (ix : Index g) (tail head : NodeId) :
    ix.edgesBetween tail head = g.edgesBetween tail head := by
  unfold edgesBetween
  split
  · next row h =>
    rw [eq_row h, Graph.row, List.filterMap_filterMap]
    congr 1
    funext (e, i)
    by_cases ht : e.tail = tail <;> by_cases hh : e.head = head <;> simp [Edge.joins, ht, hh]
  · rfl

/-- The index finds two nodes joined exactly if the graph does. -/
@[simp] theorem adjacent_eq (ix : Index g) (tail head : NodeId) :
    ix.adjacent tail head = g.adjacent tail head := by
  unfold adjacent
  split
  · next row h =>
    rw [eq_row h, Graph.row, Graph.adjacent, List.any_filterMap]
    conv => rhs; rw [← List.zipIdx_map_fst 0 g.edges, List.any_map]
    congr 1
    funext (e, i)
    by_cases ht : e.tail = tail <;> simp [Edge.joins, ht]
  · rfl

end Index

end DoublePushout
