import DoublePushout.Proofs.Graph.Validity

/-!
# `DoublePushout.Proofs.Graph.Growth`: graphs grow at the end

An `Addition` is something to be added to a graph, and `Graph.addAll` makes one after the other.
An addition that faults leaves the graph as it was. `Graph.Extends` says what additions can do:
the nodes and the edges from before are the first ones of the new graph.

* `extends_addAll`: additions extend a graph. The step is `extends_add`, one case for each kind.
* `Extends.node?_eq` and `Extends.edge?_eq`: a handle that names something goes on naming it.
* `edgesBetween_pairwise` and `Extends.edgesBetween_prefix`: the edges between two nodes are
  listed in ascending order, they stay, and new ones come after them.
-/

set_option autoImplicit false

namespace DoublePushout

/-- Something to be added to a graph. -/
inductive Addition where
  /-- A node. -/
  | node (n : Node)
  /-- An edge. -/
  | edge (e : Edge)
  /-- A subgraph. -/
  | subgraph (s : Subgraph)
  deriving DecidableEq, Repr

namespace Graph

/-- The graph with an addition, which may fault. -/
def tryAdd (g : Graph) : Addition → Except Fault Graph
  | .node n => .ok (g.addNode n).2
  | .edge e => return (← g.addEdge e).2
  | .subgraph s => g.addSubgraph s

/-- The graph after an addition: the graph as it was, if the addition faults. -/
def add (g : Graph) (a : Addition) : Graph :=
  match g.tryAdd a with
  | .ok g' => g'
  | .error _ => g

/-- The graph after additions, one after the other. -/
def addAll (g : Graph) (additions : List Addition) : Graph := additions.foldl add g

/-- The first nodes and edges of the second graph are those of the first. -/
structure Extends (g g' : Graph) : Prop where
  nodes : g.nodes <+: g'.nodes
  edges : g.edges <+: g'.edges

variable {g g' g'' : Graph}

/-- A graph extends itself. -/
theorem Extends.refl (g : Graph) : g.Extends g := ⟨List.prefix_rfl, List.prefix_rfl⟩

/-- What extends an extension extends the graph. -/
theorem Extends.trans (h : g.Extends g') (h' : g'.Extends g'') : g.Extends g'' :=
  ⟨h.nodes.trans h'.nodes, h.edges.trans h'.edges⟩

/-! ### What additions do -/

/-- The members of the subgraph are elements of the graph. -/
structure Encloses (g : Graph) (s : Subgraph) : Prop where
  /-- Its nodes. -/
  nodes_lt : ∀ n ∈ s.nodes, n < g.nodes.length
  /-- Its edges. -/
  edges_lt : ∀ j ∈ s.edges, j < g.edges.length

/-- A subgraph is not enclosed if one of its nodes or one of its edges is missing. -/
theorem not_encloses_iff {s : Subgraph} : ¬ g.Encloses s ↔
    (∃ n ∈ s.nodes, ¬ n < g.nodes.length) ∨ ∃ j ∈ s.edges, ¬ j < g.edges.length := by
  constructor
  · intro h
    by_contra hnone
    push Not at hnone
    exact h ⟨hnone.1, hnone.2⟩
  · rintro (⟨n, hn, hout⟩ | ⟨j, hj, hout⟩) h
    · exact hout (h.nodes_lt n hn)
    · exact hout (h.edges_lt j hj)

/-- The check of a new subgraph asks whether the graph encloses it. -/
theorem all_hasNode_and_hasEdge {s : Subgraph} :
    (s.nodes.toList.all g.hasNode && s.edges.toList.all g.hasEdge) = true ↔ g.Encloses s := by
  have hmembers : (s.nodes.toList.all g.hasNode && s.edges.toList.all g.hasEdge) = true ↔
      (∀ n ∈ s.nodes, n < g.nodes.length) ∧ ∀ j ∈ s.edges, j < g.edges.length := by
    simp [hasNode, hasEdge]
  exact hmembers.trans ⟨fun h => ⟨h.1, h.2⟩, fun h => ⟨h.nodes_lt, h.edges_lt⟩⟩

/-- A subgraph can be added exactly if its members are elements of the graph. -/
theorem addSubgraph_eq_ok_iff {s : Subgraph} : g.addSubgraph s = .ok g' ↔
    g.Encloses s ∧ g' = { g with subgraphs := g.subgraphs ++ [s] } := by
  rw [addSubgraph, ← all_hasNode_and_hasEdge]
  split
  · next h => simp [h, eq_comm]
  · next h => simp [h]

/-- A subgraph that the graph does not enclose is a fault under its name, and no other is. -/
theorem addSubgraph_eq_error_iff {s : Subgraph} {x : Fault} :
    g.addSubgraph s = .error x ↔ ¬ g.Encloses s ∧ x = .strayMember s.name := by
  rw [addSubgraph, ← all_hasNode_and_hasEdge]
  split
  · next h => simp [h]
  · next h => simp [h, eq_comm]

/-- An addition that succeeds extends the graph. -/
theorem extends_of_tryAdd {a : Addition} (h : g.tryAdd a = .ok g') : g.Extends g' := by
  cases a with
  | node n =>
    cases h
    exact ⟨List.prefix_append _ _, List.prefix_rfl⟩
  | edge e =>
    obtain ⟨⟨i, g₁⟩, hadd, hreturn⟩ := bind_eq_ok.1 h
    obtain rfl := pure_eq_ok.1 hreturn
    obtain ⟨-, -, rfl⟩ := addEdge_eq_ok_iff.1 hadd
    exact ⟨List.prefix_rfl, List.prefix_append _ _⟩
  | subgraph s =>
    obtain ⟨-, rfl⟩ := addSubgraph_eq_ok_iff.1 h
    exact ⟨List.prefix_rfl, List.prefix_rfl⟩

/-- An addition extends the graph, and one that faults leaves it as it is. -/
theorem extends_add (g : Graph) (a : Addition) : g.Extends (g.add a) := by
  rw [add]
  split
  · next g' h => exact extends_of_tryAdd h
  · exact .refl g

/-- Additions extend a graph, whether or not some of them fault. -/
theorem extends_addAll (g : Graph) (additions : List Addition) :
    g.Extends (g.addAll additions) := by
  induction additions generalizing g with
  | nil => exact .refl g
  | cons a additions ih => exact (g.extends_add a).trans (ih (g.add a))

/-! ### What stays in a graph that grows -/

/-- The nodes of a graph are found in its extensions under their handles. -/
theorem Extends.node?_eq (h : g.Extends g') {i : NodeId} {n : Node} (hn : g.node? i = some n) :
    g'.node? i = some n := by
  obtain ⟨more, hmore⟩ := h.nodes
  rw [node?, ← hmore]
  exact (List.getElem?_append_left (List.getElem?_eq_some_iff.1 hn).1).trans hn

/-- So are its edges. -/
theorem Extends.edge?_eq (h : g.Extends g') {j : EdgeId} {e : Edge} (he : g.edge? j = some e) :
    g'.edge? j = some e := by
  obtain ⟨more, hmore⟩ := h.edges
  rw [edge?, ← hmore]
  exact (List.getElem?_append_left (List.getElem?_eq_some_iff.1 he).1).trans he

/-! ### The edges between two nodes -/

section Between
variable {tail head : NodeId}

/-- Two nodes are joined exactly if there are edges between them. -/
theorem adjacent_eq_true : g.adjacent tail head = true ↔ g.edgesBetween tail head ≠ [] := by
  rw [adjacent, List.any_eq_true]
  constructor
  · rintro ⟨e, he, hjoins⟩
    obtain ⟨i, hi⟩ := List.getElem?_of_mem he
    exact List.ne_nil_of_mem (mem_edgesBetween.2 ⟨e, hi, hjoins⟩)
  · intro hne
    obtain ⟨i, hi⟩ := List.exists_mem_of_ne_nil _ hne
    obtain ⟨e, he, hjoins⟩ := mem_edgesBetween.1 hi
    exact ⟨e, List.mem_of_getElem? he, hjoins⟩

/-- The edges between two nodes are listed in ascending order. -/
theorem edgesBetween_pairwise : (g.edgesBetween tail head).Pairwise (· < ·) := by
  have hpositions : (g.edges.zipIdx.map Prod.snd).Pairwise (· < ·) := by
    rw [List.zipIdx_map_snd]
    exact List.pairwise_lt_range' ..
  refine List.Pairwise.filterMap _ (fun p p' hlt j hj j' hj' => ?_)
    (List.pairwise_map.1 hpositions)
  obtain rfl : p.2 = j := Option.some.inj (Option.ite_none_right_eq_some.1 hj).2
  obtain rfl : p'.2 = j' := Option.some.inj (Option.ite_none_right_eq_some.1 hj').2
  exact hlt

/-- The edges between two nodes stay, and new ones come after them. -/
theorem Extends.edgesBetween_prefix (h : g.Extends g') (tail head : NodeId) :
    g.edgesBetween tail head <+: g'.edgesBetween tail head := by
  obtain ⟨more, hmore⟩ := h.edges
  rw [edgesBetween, edgesBetween, ← hmore, List.zipIdx_append, List.filterMap_append]
  exact List.prefix_append _ _

end Between

end Graph

end DoublePushout
