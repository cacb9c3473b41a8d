import DoublePushout.Proofs.Rule.Agreement

/-!
# `DoublePushout.Proofs.Rule.Exchange`: the rule the other way round

An annotated graph can be read backwards: `Graph.exchanged` has the same elements, with the marks
of the two sides exchanged. What makes an annotation describe a rule treats the sides alike, so
the exchanged graph describes a rule too. `toRule_exchanged` says that this rule inverts the first
one.

`Rule.Inverts` leaves the order of the interface edges open. They are listed in the order of the
left side, and that is another side now.
-/

set_option autoImplicit false

namespace DoublePushout

/-- The part under the name that it has when the marks of the two sides are exchanged. -/
def Subgraph.exchanged (s : Subgraph) : Subgraph :=
  { s with
    name :=
      if s.name = Side.lhs.mark then Side.rhs.mark
      else if s.name = Side.rhs.mark then Side.lhs.mark else s.name }

/-- The graph with the marks of the two sides of a rule exchanged. -/
def Graph.exchanged (g : Graph) : Graph :=
  { g with subgraphs := g.subgraphs.map Subgraph.exchanged }

/-- A rule takes the right side of another to its left side. -/
structure Rule.Inverts (s r : Rule) : Prop where
  lhs_eq : s.lhs = r.rhs
  rhs_eq : s.rhs = r.lhs
  interface_nodes_length : s.interface.nodes.length = r.interface.nodes.length
  toLhs_nodes : s.toLhs.nodes = r.toRhs.nodes
  toRhs_nodes : s.toRhs.nodes = r.toLhs.nodes
  /-- The same edges are preserved, in whatever order. -/
  mem_toLhs_edges : ∀ j, j ∈ s.toLhs.edges.flatten ↔ j ∈ r.toRhs.edges.flatten
  mem_toRhs_edges : ∀ i, i ∈ s.toRhs.edges.flatten ↔ i ∈ r.toLhs.edges.flatten

namespace Rule.Inverts

variable {s r : Rule}

/-- The inverse deletes the nodes that the rule creates. -/
theorem deletedNodes (h : s.Inverts r) : s.deletedNodes = r.createdNodes := by
  rw [Rule.deletedNodes, h.lhs_eq, h.toLhs_nodes]
  rfl

/-- The inverse creates the nodes that the rule deletes. -/
theorem createdNodes (h : s.Inverts r) : s.createdNodes = r.deletedNodes := by
  rw [Rule.createdNodes, h.rhs_eq, h.toRhs_nodes]
  rfl

/-- The inverse deletes the edges that the rule creates. -/
theorem deletedEdges (h : s.Inverts r) : s.deletedEdges = r.createdEdges := by
  rw [Rule.deletedEdges, h.lhs_eq]
  exact List.filter_congr fun j _ => decide_eq_decide.2 (not_congr (h.mem_toLhs_edges j))

/-- The inverse creates the edges that the rule deletes. -/
theorem createdEdges (h : s.Inverts r) : s.createdEdges = r.deletedEdges := by
  rw [Rule.createdEdges, h.rhs_eq]
  exact List.filter_congr fun i _ => decide_eq_decide.2 (not_congr (h.mem_toRhs_edges i))

end Rule.Inverts

/-! ### The annotation -/

/-- The other side of the other side is the side itself. -/
theorem Side.other_other (s : Side) : s.other.other = s := by
  cases s with
  | lhs => rfl
  | rhs => rfl

/-- A subgraph marks a side after the exchange exactly if it has marked the other one before. -/
theorem Subgraph.name_exchanged {p : Subgraph} {s : Side} :
    p.exchanged.name = s.mark ↔ p.name = s.other.mark := by
  have hmarks : Side.lhs.mark ≠ Side.rhs.mark := by decide
  rw [exchanged]
  by_cases hlhs : p.name = Side.lhs.mark
  · cases s with
    | lhs => simp [hlhs, hmarks, hmarks.symm, Side.other]
    | rhs => simp [hlhs, Side.other]
  · by_cases hrhs : p.name = Side.rhs.mark
    · cases s with
      | lhs => simp [hrhs, hmarks.symm, Side.other]
      | rhs => simp [hrhs, hmarks, hmarks.symm, Side.other]
    · cases s with
      | lhs => simp [hlhs, hrhs, Side.other]
      | rhs => simp [hlhs, hrhs, Side.other]

/-- The mark of a side after the exchange is the mark of the other side before it. -/
theorem Graph.subgraph?_exchanged (g : Graph) (s : Side) :
    g.exchanged.subgraph? s.mark = (g.subgraph? s.other.mark).map Subgraph.exchanged := by
  rw [subgraph?, exchanged, List.find?_map, subgraph?]
  refine congrArg (Option.map _) (congrArg (List.find? · _) (funext fun p => ?_))
  exact decide_eq_decide.2 Subgraph.name_exchanged

/-- Exchanging the marks keeps a graph valid. -/
theorem Graph.Valid.exchanged {g : Graph} (h : g.Valid) : g.exchanged.Valid where
  ends_lt := h.ends_lt
  members_lt p hp := by
    obtain ⟨q, hq, rfl⟩ := List.mem_map.1 hp
    exact h.members_lt q hq
  memberEdges_lt p hp := by
    obtain ⟨q, hq, rfl⟩ := List.mem_map.1 hp
    exact h.memberEdges_lt q hq

namespace Annotated

variable {a : Annotated}

/-- The annotation with its sides exchanged. -/
def exchanged (a : Annotated) : Annotated :=
  ⟨a.graph.exchanged, a.rhs.exchanged, a.lhs.exchanged⟩

/-- The part of a side is that of the other side. -/
theorem part_exchanged (a : Annotated) (s : Side) :
    a.exchanged.part s = (a.part s.other).exchanged := by
  cases s with
  | lhs => rfl
  | rhs => rfl

/-- The nodes of a side are those of the other side. -/
theorem nodes_part_exchanged (a : Annotated) (s : Side) :
    (a.exchanged.part s).nodes = (a.part s.other).nodes := by
  rw [part_exchanged]
  rfl

/-- The edges of a side are those of the other side. -/
theorem edges_part_exchanged (a : Annotated) (s : Side) :
    (a.exchanged.part s).edges = (a.part s.other).edges := by
  rw [part_exchanged]
  rfl

/-- The graph of a side is that of the other side. -/
theorem sideGraph_exchanged (a : Annotated) (s : Side) :
    a.exchanged.sideGraph s = a.sideGraph s.other := by
  cases s with
  | lhs => rfl
  | rhs => rfl

/-- The handles on a side are those on the other side. -/
theorem localNode_exchanged (a : Annotated) (s : Side) :
    a.exchanged.localNode s = a.localNode s.other := by
  cases s with
  | lhs => rfl
  | rhs => rfl

/-- The annotation of the exchanged graph is the exchanged annotation. -/
theorem annotated_exchanged {g : Graph} (h : g.annotated = .ok a) :
    g.exchanged.annotated = .ok a.exchanged := by
  obtain ⟨rfl, hparts⟩ := Graph.annotated_eq_ok_iff.1 h
  refine Graph.annotated_eq_ok_iff.2 ⟨rfl, fun s => ?_⟩
  rw [Graph.subgraph?_exchanged, hparts s.other, part_exchanged]
  rfl

/-- Nothing that is asked of an annotation tells the sides apart. -/
theorem Sound.exchanged (h : a.Sound) : a.exchanged.Sound where
  node n hn := by
    obtain ⟨s, hs⟩ := h.node n hn
    refine ⟨s.other, ?_⟩
    rw [nodes_part_exchanged, Side.other_other]
    exact hs
  edge j hj := by
    obtain ⟨s, hs⟩ := h.edge j hj
    refine ⟨s.other, ?_⟩
    rw [edges_part_exchanged, Side.other_other]
    exact hs
  side_eq j hj s s' hs hs' := by
    rw [edges_part_exchanged] at hs hs'
    have hother := h.side_eq j hj _ _ hs hs'
    rw [← s.other_other, hother, s'.other_other]
  ends s j e he hj := by
    rw [edges_part_exchanged] at hj
    rw [nodes_part_exchanged]
    exact h.ends _ j e he hj
  edge_eq s j j' label hj hj' := by
    rw [edges_part_exchanged] at hj hj'
    exact h.edge_eq _ j j' label hj hj'
  valid := h.valid.exchanged
  node_lt s n hn := by
    rw [nodes_part_exchanged] at hn
    exact h.node_lt _ n hn
  edge_lt s j hj := by
    rw [edges_part_exchanged] at hj
    exact h.edge_lt _ j hj

/-! ### The rule -/

/-- The interface has the same nodes, in the same order. -/
theorem sharedNodes_exchanged (a : Annotated) : a.exchanged.sharedNodes = a.sharedNodes := by
  have hascending : ∀ b : Annotated, b.sharedNodes.Pairwise (· < ·) :=
    fun b => b.lhs.nodes.ascending.filter _
  refine eq_of_ascending (hascending _) (hascending _) fun n => ?_
  rw [mem_sharedNodes, mem_sharedNodes, nodes_part_exchanged, nodes_part_exchanged]
  exact and_comm

/-- The pair with its edges exchanged. -/
def Pair.exchanged (p : Pair) : Pair := ⟨p.label, p.rhs, p.lhs⟩

/-- Exchanging a pair twice gives it back. -/
theorem Pair.exchanged_exchanged (p : Pair) : p.exchanged.exchanged = p := rfl

/-- An exchanged pair has on each side the edge of the other side. -/
theorem Pair.edge_exchanged (p : Pair) (s : Side) : p.exchanged.edge s = p.edge s.other := by
  cases s with
  | lhs => rfl
  | rhs => rfl

/-- A pair of the exchanged annotation is one of the annotation with its edges exchanged. -/
theorem Sound.mem_pairs_exchanged (h : a.Sound) {p : Pair} :
    p ∈ a.exchanged.pairs ↔ p.exchanged ∈ a.pairs := by
  rw [h.exchanged.mem_pairs, h.mem_pairs, Side.forall_iff, Side.forall_iff, sideGraph_exchanged,
    sideGraph_exchanged]
  exact and_comm

/-- An edge is paired in the exchanged annotation exactly when it is in the annotation. -/
theorem Sound.mem_flatten_exchanged (h : a.Sound) {s : Side} {i : EdgeId} :
    i ∈ (a.exchanged.rule.into s).edges.flatten ↔ i ∈ (a.rule.into s.other).edges.flatten := by
  rw [mem_flatten_edges_into, mem_flatten_edges_into]
  constructor
  · intro hi
    obtain ⟨p, hp, rfl⟩ := hi
    refine ⟨p.exchanged, h.mem_pairs_exchanged.1 hp, ?_⟩
    rw [Pair.edge_exchanged, Side.other_other]
  · intro hi
    obtain ⟨p, hp, rfl⟩ := hi
    exact ⟨p.exchanged, h.mem_pairs_exchanged.2 hp, p.edge_exchanged s⟩

/-- The rules of an annotation and of the exchanged one are inverse to each other. -/
theorem Sound.inverts (h : a.Sound) : a.exchanged.rule.Inverts a.rule where
  lhs_eq := sideGraph_exchanged a .lhs
  rhs_eq := sideGraph_exchanged a .rhs
  interface_nodes_length := by
    rw [← h.exchanged.nodes_interface.length_eq, ← h.nodes_interface.length_eq,
      sharedNodes_exchanged]
  toLhs_nodes := by
    show a.exchanged.sharedNodes.map _ = _
    rw [sharedNodes_exchanged, localNode_exchanged]
    rfl
  toRhs_nodes := by
    show a.exchanged.sharedNodes.map _ = _
    rw [sharedNodes_exchanged, localNode_exchanged]
    rfl
  mem_toLhs_edges _ := h.mem_flatten_exchanged (s := .lhs)
  mem_toRhs_edges _ := h.mem_flatten_exchanged (s := .rhs)

end Annotated

/-- A graph that describes a rule describes the inverse rule when the marks are exchanged. -/
theorem Graph.toRule_exchanged {g : Graph} {d : DerivedRule} (h : g.toRule = .ok d) :
    ∃ inv, g.exchanged.toRule = .ok inv ∧ inv.rule.Inverts d.rule := by
  obtain ⟨a, ha, hsound, rfl⟩ := toRule_eq_ok h
  obtain ⟨rfl, -⟩ := annotated_eq_ok_iff.1 ha
  refine ⟨_, toRule_eq_ok_iff.2 ⟨hsound.exchanged.valid, a.exchanged,
    Annotated.annotated_exchanged ha, hsound.exchanged.toWellMarked, rfl⟩, hsound.inverts⟩

end DoublePushout
