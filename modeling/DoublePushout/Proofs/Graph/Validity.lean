import DoublePushout.Graph.Construction
import DoublePushout.Proofs.Steps

/-!
# `DoublePushout.Proofs.Graph.Validity`: what the check of a graph establishes

`Graph.validate` walks through a graph and stops at the first handle that names nothing.
`validate_eq_ok_iff` says that it accepts a graph exactly when the graph is valid.

A graph is also put together step by step, and each step checks its own handles. `Graph.grow` adds
edges to a graph that has nodes only. `grow_eq_ok_iff` says that no step faults exactly when every
edge ends at one of those nodes, and what the graph then is; `valid_of_ends` says that it is
valid.
-/

set_option autoImplicit false

namespace DoublePushout.Graph

/-! ### The check -/

/-- The check passes an edge exactly if both its ends are nodes. -/
theorem endpointError?_eq_none {g : Graph} {e : Edge} {i : EdgeId} :
    g.endpointError? (e, i) = none ↔ e.tail < g.nodes.length ∧ e.head < g.nodes.length := by
  simp [endpointError?, Edge.ends, hasNode]

/-- The check passes a subgraph exactly if all its members are in the graph. -/
theorem memberError?_eq_none {g : Graph} {s : Subgraph} :
    g.memberError? s = none ↔
      (∀ n ∈ s.nodes, n < g.nodes.length) ∧ ∀ e ∈ s.edges, e < g.edges.length := by
  simp [memberError?, hasNode, hasEdge]

/-- The check passes the edges when all of them end at nodes. -/
theorem findSome?_endpointError?_eq_none_iff {g : Graph} :
    g.edges.zipIdx.findSome? g.endpointError? = none ↔
      ∀ e ∈ g.edges, e.tail < g.nodes.length ∧ e.head < g.nodes.length := by
  rw [List.findSome?_eq_none_iff, forall_mem_zipIdx]
  simp only [endpointError?_eq_none]
  constructor
  · intro h e he
    obtain ⟨i, hi⟩ := List.getElem?_of_mem he
    exact h i e hi
  · exact fun h i e hi => h e (List.mem_of_getElem? hi)

/-- The check accepts the valid graphs and no others. -/
theorem validate_eq_ok_iff {g : Graph} : g.validate = .ok () ↔ g.Valid := by
  -- The check goes through the edges first and then through the subgraphs.
  have hsubgraphs : g.subgraphs.findSome? g.memberError? = none ↔
      ∀ s ∈ g.subgraphs,
        (∀ n ∈ s.nodes, n < g.nodes.length) ∧ ∀ e ∈ s.edges, e < g.edges.length := by
    simp only [List.findSome?_eq_none_iff, memberError?_eq_none]
  have hvalid : g.firstError? = none ↔ g.Valid := by
    rw [firstError?, Option.or_eq_none_iff, findSome?_endpointError?_eq_none_iff, hsubgraphs]
    exact ⟨fun ⟨he, hs⟩ => ⟨he, fun s h => (hs s h).1, fun s h => (hs s h).2⟩,
      fun h => ⟨h.ends_lt, fun s hs => ⟨h.members_lt s hs, h.memberEdges_lt s hs⟩⟩⟩
  rw [validate, ← hvalid]
  cases g.firstError? <;> simp

/-- In a valid graph every edge that is found ends at nodes. -/
theorem Valid.ends_of_edge? {g : Graph} (h : g.Valid) {i : EdgeId} {e : Edge}
    (he : g.edge? i = some e) : e.tail < g.nodes.length ∧ e.head < g.nodes.length :=
  h.ends_lt e (List.mem_of_getElem? he)

/-- A graph without subgraphs is valid when its edges end at its nodes. -/
theorem valid_of_ends {nodes : List Node} {edges : List Edge}
    (h : ∀ e ∈ edges, e.tail < nodes.length ∧ e.head < nodes.length) :
    Valid { nodes, edges } where
  ends_lt := h
  members_lt := by simp
  memberEdges_lt := by simp

/-! ### Growing a graph edge by edge -/

/-- An edge is added exactly if both its ends are nodes, and it is then the last one. -/
theorem addEdge_eq_ok_iff {g g' : Graph} {e : Edge} {i : EdgeId} :
    g.addEdge e = .ok (i, g') ↔
      (e.tail < g.nodes.length ∧ e.head < g.nodes.length) ∧
        i = g.edges.length ∧ g' = { g with edges := g.edges ++ [e] } := by
  rw [addEdge]
  split
  · next n hn =>
    have hmiss : ¬ (e.tail < g.nodes.length ∧ e.head < g.nodes.length) := by
      rintro ⟨ht, hh⟩
      simp [Edge.ends, hasNode, ht, hh] at hn
    simp [hmiss]
  · next hnone =>
    have hends : e.tail < g.nodes.length ∧ e.head < g.nodes.length := by
      simpa [Edge.ends, hasNode] using hnone
    simp [hends, eq_comm]

/-- An edge is refused at its first end that is missing. -/
theorem addEdge_eq_error_iff {g : Graph} {e : Edge} {x : Fault} :
    g.addEdge e = .error x ↔
      (¬ e.tail < g.nodes.length ∧ x = .missingEndpoint e.tail) ∨
        (e.tail < g.nodes.length ∧ ¬ e.head < g.nodes.length ∧ x = .missingEndpoint e.head) := by
  by_cases htail : e.tail < g.nodes.length
  · by_cases hhead : e.head < g.nodes.length
    · simp [addEdge, Edge.ends, hasNode, htail, hhead]
    · simp [addEdge, Edge.ends, hasNode, htail, hhead, eq_comm]
  · simp [addEdge, Edge.ends, hasNode, htail, eq_comm]

/-- The graph after edges have been added to it one after the other. -/
def addEdges (g : Graph) (edges : List Edge) : Except Fault Graph :=
  edges.foldlM (fun g e => return (← g.addEdge e).2) g

/-- The graph with the given nodes, to which the given edges have been added one
after the other. -/
def grow (nodes : List Node) (edges : List Edge) : Except Fault Graph := addEdges { nodes } edges

/-- Edges are added exactly if all of them end at nodes, and they are then the last ones. -/
theorem addEdges_eq_ok_iff {g g' : Graph} {edges : List Edge} :
    g.addEdges edges = .ok g' ↔
      (∀ e ∈ edges, e.tail < g.nodes.length ∧ e.head < g.nodes.length) ∧
        g' = { g with edges := g.edges ++ edges } := by
  induction edges generalizing g with
  | nil =>
    rw [addEdges, List.foldlM_nil, pure_eq_ok]
    simp [eq_comm]
  | cons e edges ih =>
    have hcons : g.addEdges (e :: edges) = (g.addEdge e >>= fun r => addEdges r.2 edges) := by
      simp only [addEdges, List.foldlM_cons, bind_assoc, pure_bind]
    rw [hcons, bind_eq_ok, List.forall_mem_cons]
    -- An edge that is added leaves the nodes alone, so the later ones have the same bound.
    constructor
    · rintro ⟨⟨i, g₁⟩, he, hrest⟩
      obtain ⟨hends, -, rfl⟩ := addEdge_eq_ok_iff.1 he
      obtain ⟨hall, rfl⟩ := ih.1 hrest
      exact ⟨⟨hends, hall⟩, by simp⟩
    · rintro ⟨⟨hends, hall⟩, rfl⟩
      exact ⟨_, addEdge_eq_ok_iff.2 ⟨hends, rfl, rfl⟩, ih.2 ⟨hall, by simp⟩⟩

/-- No edge faults on its way into a graph exactly when all of them end at its nodes. -/
theorem grow_eq_ok_iff {nodes : List Node} {edges : List Edge} {g : Graph} :
    grow nodes edges = .ok g ↔
      (∀ e ∈ edges, e.tail < nodes.length ∧ e.head < nodes.length) ∧ g = { nodes, edges } := by
  simp [grow, addEdges_eq_ok_iff]

end DoublePushout.Graph
