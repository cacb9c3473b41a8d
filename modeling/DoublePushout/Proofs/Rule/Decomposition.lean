import DoublePushout.Proofs.Rule.Derivation

/-!
# `DoublePushout.Proofs.Rule.Decomposition`: a derived rule takes its annotated graph apart

Derivation splits an annotated graph into the two sides of a rule and notes where their elements
come from. This module says what the parts are in terms of the annotated graph alone.

`Presents` is the statement about one side: it is the marked part as a graph of its own, and the
origin mapping leads its elements back, ends of edges included. `DerivedRule.Decomposes` adds the
interface. Its nodes are the nodes of both parts, so it is the pullback of the two sides over the
annotated graph. Its edges are the labels that both parts have. What a side has beyond the
interface comes from what its part has beyond the other one.

The two sides are treated alike, as `Rule.side`, with one lemma for both. `toRule_decomposes`
joins the lemmas.
-/

set_option autoImplicit false

namespace DoublePushout

/-! ### The two sides of a rule -/

/-- The side opposite to a side. -/
def Side.other : Side → Side
  | .lhs => .rhs
  | .rhs => .lhs

namespace Rule

/-- A side of the rule. -/
def side (r : Rule) : Side → Graph
  | .lhs => r.lhs
  | .rhs => r.rhs

/-- The interface in a side of the rule. -/
def into (r : Rule) : Side → Mapping
  | .lhs => r.toLhs
  | .rhs => r.toRhs

/-- The nodes that a side has beyond the interface: those of the left side are deleted, those of
the right side created. -/
def ownNodes (r : Rule) : Side → List NodeId
  | .lhs => r.deletedNodes
  | .rhs => r.createdNodes

/-- The edges that a side has beyond the interface. -/
def ownEdges (r : Rule) : Side → List EdgeId
  | .lhs => r.deletedEdges
  | .rhs => r.createdEdges

/-- The nodes of one side only are those outside the interface, on either side. -/
theorem ownNodes_eq (r : Rule) (s : Side) :
    r.ownNodes s = (r.side s).nodeIds.filter (· ∉ (r.into s).nodes) := by
  cases s with
  | lhs => rfl
  | rhs => rfl

/-- The edges of one side only are those outside the interface, on either side. -/
theorem ownEdges_eq (r : Rule) (s : Side) :
    r.ownEdges s = (r.side s).edgeIds.filter (· ∉ (r.into s).edges.flatten) := by
  cases s with
  | lhs => rfl
  | rhs => rfl

end Rule

/-- Where the elements of a side come from. -/
def DerivedRule.origin (d : DerivedRule) : Side → Mapping
  | .lhs => d.lhsOrigin
  | .rhs => d.rhsOrigin

namespace Graph

/-- The labels that count of the edges of a part. -/
def labelsOf (g : Graph) (s : Subgraph) : List String := s.edges.toList.filterMap g.edgeLabel?

/-- The edge has no label that counts, or one that no edge of the part has. -/
def Unpaired (g : Graph) (s : Subgraph) (j : EdgeId) : Prop :=
  ∀ label ∈ g.edgeLabel? j, label ∉ g.labelsOf s

instance (g : Graph) (s : Subgraph) (j : EdgeId) : Decidable (g.Unpaired s j) :=
  inferInstanceAs (Decidable (∀ label ∈ g.edgeLabel? j, label ∉ g.labelsOf s))

/-- A graph is a part of another as a graph of its own, and a mapping leads it back there. -/
structure Presents (g : Graph) (part : Subgraph) (side : Graph) (origin : Mapping) : Prop where
  /-- The graph is valid. -/
  valid : side.validate = .ok ()
  /-- The nodes come from the nodes of the part, in ascending order. -/
  nodes_eq : origin.nodes = part.nodes.toList
  /-- The edges come from the edges of the part, one from each, in ascending order. -/
  edges_eq : origin.edges = part.edges.toList.map ([·])
  /-- A node has the name and the label of the node that it comes from. -/
  node_eq : side.nodes.map some = origin.nodes.map g.node?
  /-- An edge has the label of the edge that it comes from, and its ends come from the ends of
  that. -/
  edge_eq : List.Forall₂ (fun j e => ∃ e', g.edge? j = some e' ∧ e.label = e'.label ∧
    origin.nodes[e.tail]? = some e'.tail ∧ origin.nodes[e.head]? = some e'.head)
    part.edges.toList side.edges

end Graph

/-- The rule is the annotated graph, taken apart along the given parts. -/
structure DerivedRule.Decomposes (d : DerivedRule) (g : Graph) (part : Side → Subgraph) :
    Prop where
  /-- The parts are the first subgraphs of their names. -/
  part_eq : ∀ s, g.subgraph? s.mark = some (part s)
  /-- Each side is its part. -/
  presents : ∀ s, g.Presents (part s) (d.rule.side s) (d.origin s)
  /-- The interface has the nodes that are in both parts, in ascending order. -/
  interface_nodes : d.rule.interface.nodes.map some =
    ((part .lhs).nodes.toList.filter (· ∈ (part .rhs).nodes)).map g.node?
  /-- Through either side, an interface node comes from the node of both parts that
  it stands for. -/
  interface_origin : ∀ s, (d.rule.into s).nodes.map ((d.origin s).nodes[·]?) =
    ((part .lhs).nodes.toList.filter (· ∈ (part .rhs).nodes)).map some
  /-- A node of the left side and one of the right side that come from one node are in the
  interface, as one node. -/
  pullback : ∀ l r n : NodeId, (d.origin .lhs).nodes[l]? = some n →
    (d.origin .rhs).nodes[r]? = some n →
    ∃! c : NodeId, d.rule.toLhs.nodes[c]? = some l ∧ d.rule.toRhs.nodes[c]? = some r
  /-- The interface has as many edges as it maps to either side. -/
  interface_edges_length : ∀ s, (d.rule.into s).edges.length = d.rule.interface.edges.length
  /-- An interface edge stands for the edges of the two sides that have its label, which counts.
  Its own ends mean nothing. -/
  interface_edge : ∀ c e, d.rule.interface.edge? c = some e → ∃ label, label ≠ "" ∧
    e = { tail := 0, head := 0, label := some label } ∧
    ∀ s, ∃ i, (d.rule.into s).edges[c]? = some [i] ∧ (d.rule.side s).edgeLabel? i = some label
  /-- Every label that both parts have is that of one interface edge. -/
  interface_label : ∀ label, (∀ s, label ∈ g.labelsOf (part s)) →
    ∃! c : EdgeId, ∃ e, d.rule.interface.edge? c = some e ∧ e.label = some label
  /-- A label that counts is on one edge of a side at most. -/
  label_unique : ∀ s i i' label, (d.rule.side s).edgeLabel? i = some label →
    (d.rule.side s).edgeLabel? i' = some label → i = i'
  /-- The interface edges are in the order of the left side. -/
  ascending : d.rule.toLhs.edges.flatten.Pairwise (· < ·)
  /-- The nodes that a side has beyond the interface come from the nodes that its part has beyond
  the other one, in ascending order. -/
  ownNodes_eq : ∀ s, (d.rule.ownNodes s).map ((d.origin s).nodes[·]?) =
    ((part s).nodes.toList.filter (· ∉ (part s.other).nodes)).map some
  /-- The edges that a side has beyond the interface come from the edges of its part that have no
  label of the other part, in ascending order. -/
  ownEdges_eq : ∀ s, (d.rule.ownEdges s).map ((d.origin s).edges[·]?) =
    ((part s).edges.toList.filter (g.Unpaired (part s.other))).map fun j => some [j]

namespace Annotated

variable {a : Annotated}

/-! ### A side and its part -/

/-- A side of the rule is the side graph of the annotation. -/
theorem side_rule (a : Annotated) (s : Side) : a.rule.side s = a.sideGraph s := by
  cases s with
  | lhs => rfl
  | rhs => rfl

/-- The interface goes into a side by the handles that its nodes have there. -/
theorem nodes_into_rule (a : Annotated) (s : Side) :
    (a.rule.into s).nodes = a.sharedNodes.map (a.localNode s) := by
  cases s with
  | lhs => rfl
  | rhs => rfl

/-- The interface goes into a side by the edges of the pairs. -/
theorem edges_into_rule (a : Annotated) (s : Side) :
    (a.rule.into s).edges = a.pairs.map fun p => [p.edge s] := by
  cases s with
  | lhs => rfl
  | rhs => rfl

/-- The origin of a side presents its part of the annotated graph. -/
theorem Sound.presents (h : a.Sound) (s : Side) :
    a.graph.Presents (a.part s) (a.sideGraph s) (a.origin s) where
  valid := Graph.validate_eq_ok_iff.2 (h.sideGraph_valid s)
  nodes_eq := rfl
  edges_eq := rfl
  node_eq := forall₂_map_some (h.nodes_sideGraph s)
  edge_eq := by
    refine ((List.forall₂_and_left _ _).2 ⟨fun j hj => hj, h.edges_sideGraph s⟩).imp ?_
    rintro j e ⟨hj, e', he', rfl⟩
    obtain ⟨htail, hhead⟩ := h.ends s j e' he' hj
    exact ⟨e', he', rfl, getElem?_localNode htail, getElem?_localNode hhead⟩

/-! ### The nodes of the interface -/

/-- A local handle is that of an interface node when the node is also on the other side. -/
theorem mem_map_localNode_iff {s : Side} {i n : NodeId} (hi : (a.nodesOf s)[i]? = some n) :
    i ∈ a.sharedNodes.map (a.localNode s) ↔ n ∈ (a.part s.other).nodes := by
  have hn : n ∈ (a.part s).nodes := List.mem_of_getElem? hi
  have hshared : n ∈ a.sharedNodes ↔ n ∈ (a.part s.other).nodes := by
    rw [mem_sharedNodes]
    cases s with
    | lhs => exact and_iff_right hn
    | rhs => exact and_iff_left hn
  rw [← hshared, List.mem_map]
  constructor
  · rintro ⟨n', hn', rfl⟩
    rw [getElem?_localNode (mem_part_of_mem_sharedNodes hn' s)] at hi
    exact Option.some.inj hi ▸ hn'
  · intro hmem
    exact ⟨n, hmem, idxOf_eq (nodesOf_nodup s) hi⟩

/-- The handles of shared nodes on a side lead back to the shared nodes. -/
theorem map_getElem?_localNode (s : Side) :
    (a.sharedNodes.map (a.localNode s)).map ((a.nodesOf s)[·]?) = a.sharedNodes.map some := by
  rw [List.map_map]
  exact List.map_congr_left fun n hn => getElem?_localNode (mem_part_of_mem_sharedNodes hn s)

/-- Handles of one node on the two sides are those of one interface node. -/
theorem existsUnique_interface {l r n : NodeId} (hl : (a.nodesOf .lhs)[l]? = some n)
    (hr : (a.nodesOf .rhs)[r]? = some n) :
    ∃! c : NodeId, (a.sharedNodes.map (a.localNode .lhs))[c]? = some l ∧
      (a.sharedNodes.map (a.localNode .rhs))[c]? = some r := by
  have hmem : n ∈ a.sharedNodes :=
    mem_sharedNodes.2 ⟨List.mem_of_getElem? hl, List.mem_of_getElem? hr⟩
  have hat := getElem?_idxOf hmem
  refine ⟨a.sharedNodes.idxOf n, ⟨?_, ?_⟩, ?_⟩
  · rw [List.getElem?_map, hat]
    exact congrArg some (idxOf_eq (nodesOf_nodup .lhs) hl)
  · rw [List.getElem?_map, hat]
    exact congrArg some (idxOf_eq (nodesOf_nodup .rhs) hr)
  · rintro c ⟨hc, -⟩
    -- The interface node is determined by its handle on the left side alone.
    refine eq_of_getElem?_eq (map_localNode_nodup .lhs) hc ?_
    rw [List.getElem?_map, hat]
    exact congrArg some (idxOf_eq (nodesOf_nodup .lhs) hl)

/-- The nodes of one side only come from the nodes that the annotation has on this side alone. -/
theorem Sound.ownNodes_rule (h : a.Sound) (s : Side) :
    (a.rule.ownNodes s).map ((a.nodesOf s)[·]?) =
      ((a.nodesOf s).filter (· ∉ (a.part s.other).nodes)).map some := by
  rw [Rule.ownNodes_eq, side_rule, nodes_into_rule, Graph.nodeIds, h.length_nodes]
  refine map_getElem?_filter_range fun i n hi => ?_
  simp only [mem_map_localNode_iff hi]

/-! ### The edges of the interface -/

/-- The edges of a side have the labels that the edges of its part have. -/
theorem Sound.exists_edgeLabel?_iff (h : a.Sound) {s : Side} {label : String} :
    (∃ i, (a.sideGraph s).edgeLabel? i = some label) ↔ label ∈ a.graph.labelsOf (a.part s) := by
  rw [Graph.labelsOf, List.mem_filterMap]
  constructor
  · rintro ⟨i, hi⟩
    obtain ⟨j, hj, hij⟩ := h.exists_edgesOf (Graph.edgeLabel?_lt hi)
    exact ⟨j, hj, h.edgeLabel?_sideGraph hij ▸ hi⟩
  · rintro ⟨j, hj, hlabel⟩
    obtain ⟨i, hi⟩ := List.getElem?_of_mem hj
    exact ⟨i, (h.edgeLabel?_sideGraph hi).trans hlabel⟩

/-- The preserved edges of a side are those of the pairs. -/
theorem flatten_edges_into (a : Annotated) (s : Side) :
    (a.rule.into s).edges.flatten = a.pairs.map (Pair.edge · s) := by
  rw [edges_into_rule, ← List.flatMap_def, List.map_eq_flatMap]

/-- An edge of a side is preserved exactly if it is in a pair. -/
theorem mem_flatten_edges_into {s : Side} {i : EdgeId} :
    i ∈ (a.rule.into s).edges.flatten ↔ ∃ p ∈ a.pairs, p.edge s = i := by
  rw [flatten_edges_into, List.mem_map]

/-- An edge of a side is in no pair exactly when the other part lacks its label. -/
theorem Sound.not_mem_flatten_iff (h : a.Sound) {s : Side} {i j : EdgeId}
    (hi : (a.edgesOf s)[i]? = some j) :
    i ∉ (a.rule.into s).edges.flatten ↔ a.graph.Unpaired (a.part s.other) j := by
  have hlabel := h.edgeLabel?_sideGraph hi
  rw [mem_flatten_edges_into]
  constructor
  · intro hnone label hmem hother
    obtain ⟨k, hk⟩ := h.exists_edgeLabel?_iff.2 hother
    -- The two edges would be a pair.
    refine hnone ?_
    cases s with
    | lhs => exact ⟨⟨label, i, k⟩, h.mem_pairs.2 (Side.forall_iff.2 ⟨hlabel.trans hmem, hk⟩), rfl⟩
    | rhs => exact ⟨⟨label, k, i⟩, h.mem_pairs.2 (Side.forall_iff.2 ⟨hk, hlabel.trans hmem⟩), rfl⟩
  · rintro hunpaired ⟨p, hp, rfl⟩
    have hmem := h.mem_pairs.1 hp
    exact hunpaired p.label (hlabel.symm.trans (hmem s))
      (h.exists_edgeLabel?_iff.1 ⟨_, hmem s.other⟩)

/-- The edges of one side only come from the edges whose label has no partner on the other
side. -/
theorem Sound.ownEdges_rule (h : a.Sound) (s : Side) :
    (a.rule.ownEdges s).map ((a.origin s).edges[·]?) =
      ((a.edgesOf s).filter (a.graph.Unpaired (a.part s.other))).map fun j => some [j] := by
  have hown : (a.rule.ownEdges s).map ((a.edgesOf s)[·]?) =
      ((a.edgesOf s).filter (a.graph.Unpaired (a.part s.other))).map some := by
    rw [Rule.ownEdges_eq, side_rule, Graph.edgeIds, h.length_edges]
    refine map_getElem?_filter_range fun i j hi => ?_
    simp only [h.not_mem_flatten_iff hi]
  -- The origin of an edge is the one edge that it comes from, as a list.
  have hsingle := congrArg (List.map (Option.map ([·]))) hown
  rw [List.map_map, List.map_map] at hsingle
  exact (List.map_congr_left fun i _ => List.getElem?_map).trans hsingle

/-- The edges of the interface are made up from the labels of the pairs. -/
theorem edge?_interface (a : Annotated) (c : EdgeId) :
    a.rule.interface.edge? c =
      (a.pairs[c]?).map fun p => { tail := 0, head := 0, label := some p.label } :=
  List.getElem?_map

/-- An interface edge stands for its label, and for an edge of each side that has it. -/
theorem Sound.interface_edge (h : a.Sound) {c : EdgeId} {e : Edge}
    (hc : a.rule.interface.edge? c = some e) :
    ∃ label, label ≠ "" ∧ e = { tail := 0, head := 0, label := some label } ∧
      ∀ s, ∃ i, (a.rule.into s).edges[c]? = some [i] ∧
        (a.rule.side s).edgeLabel? i = some label := by
  rw [edge?_interface, Option.map_eq_some_iff] at hc
  obtain ⟨p, hp, rfl⟩ := hc
  have hlabels := h.mem_pairs.1 (List.mem_of_getElem? hp)
  refine ⟨p.label, ?_, rfl, fun s => ⟨p.edge s, ?_, ?_⟩⟩
  · -- An empty label counts as none, and an interface edge has a label that counts.
    rintro hblank
    obtain ⟨e, -, he⟩ := Graph.edgeLabel?_eq_some.1 (hlabels .lhs)
    exact effective_ne_blank (hblank ▸ he)
  · rw [edges_into_rule, List.getElem?_map, hp]
    rfl
  · rw [side_rule]
    exact hlabels s

/-- A label that both parts have is that of one pair. -/
theorem Sound.existsUnique_pair (h : a.Sound) {label : String}
    (hlabel : ∀ s, label ∈ a.graph.labelsOf (a.part s)) :
    ∃! c : EdgeId, ∃ e, a.rule.interface.edge? c = some e ∧ e.label = some label := by
  obtain ⟨i, hi⟩ := h.exists_edgeLabel?_iff.2 (hlabel .lhs)
  obtain ⟨j, hj⟩ := h.exists_edgeLabel?_iff.2 (hlabel .rhs)
  have hmem : (⟨label, i, j⟩ : Pair) ∈ a.pairs := h.mem_pairs.2 (Side.forall_iff.2 ⟨hi, hj⟩)
  obtain ⟨c, hc⟩ := List.getElem?_of_mem hmem
  refine ⟨c, ⟨_, (edge?_interface a c).trans (congrArg _ hc), rfl⟩, ?_⟩
  rintro c' ⟨e, he, heq⟩
  rw [edge?_interface, Option.map_eq_some_iff] at he
  obtain ⟨p, hc', rfl⟩ := he
  obtain rfl : p.label = label := Option.some.inj heq
  -- Pairs with one label have the same edge on the left side, which tells their positions.
  have hleft : p.lhs = i :=
    h.eq_of_edgeLabel? (s := .lhs) (h.mem_pairs.1 (List.mem_of_getElem? hc') .lhs) hi
  have hnodup : (a.pairs.map Pair.lhs).Nodup := pairs_pairwise.imp Nat.ne_of_lt
  refine eq_of_getElem?_eq hnodup (x := i) ?_ ?_
  · rw [List.getElem?_map, hc', Option.map_some, hleft]
  · rw [List.getElem?_map, hc]
    rfl

/-! ### The whole rule -/

/-- The origins of a derived rule are those of its sides. -/
theorem origin_mk (a : Annotated) (s : Side) :
    DerivedRule.origin ⟨a.rule, a.origin .lhs, a.origin .rhs⟩ s = a.origin s := by
  cases s with
  | lhs => rfl
  | rhs => rfl

/-- A sound annotation is taken apart by the rule that it describes. -/
theorem Sound.decomposes (h : a.Sound)
    (hparts : ∀ s, a.graph.subgraph? s.mark = some (a.part s)) :
    DerivedRule.Decomposes ⟨a.rule, a.origin .lhs, a.origin .rhs⟩ a.graph a.part where
  part_eq := hparts
  presents s := by
    rw [side_rule, origin_mk]
    exact h.presents s
  interface_nodes := forall₂_map_some h.nodes_interface
  interface_origin s := by
    rw [nodes_into_rule, origin_mk]
    exact map_getElem?_localNode s
  pullback _ _ _ hl hr := existsUnique_interface hl hr
  interface_edges_length s := by
    rw [edges_into_rule, List.length_map]
    exact (List.length_map _).symm
  interface_edge _ _ hc := h.interface_edge hc
  interface_label _ hlabel := h.existsUnique_pair hlabel
  label_unique s i i' label hi hi' := by
    rw [side_rule] at hi hi'
    exact h.eq_of_edgeLabel? hi hi'
  ascending := by
    show (a.rule.into .lhs).edges.flatten.Pairwise _
    rw [flatten_edges_into]
    exact pairs_pairwise
  ownNodes_eq s := by
    rw [origin_mk]
    exact h.ownNodes_rule s
  ownEdges_eq s := by
    rw [origin_mk]
    exact h.ownEdges_rule s

end Annotated

/-- A derived rule is its annotated graph, taken apart along the parts that mark its sides. -/
theorem Graph.toRule_decomposes {g : Graph} {d : DerivedRule} (h : g.toRule = .ok d) :
    ∃ part, d.Decomposes g part := by
  obtain ⟨a, ha, hsound, rfl⟩ := toRule_eq_ok h
  obtain ⟨rfl, hparts⟩ := annotated_eq_ok_iff.1 ha
  exact ⟨a.part, hsound.decomposes hparts⟩

/-- A rule in writing whose interface has a node and an edge. A node with a loop is kept, one is
deleted, and one created. -/
def swapGraph : Graph where
  nodes := [{ name := "new" }, { name := "hub", label := some "h" }, { name := "old" }]
  edges := [{ tail := 1, head := 2 }, { tail := 1, head := 1, label := some "k" },
    { tail := 1, head := 1, label := some "k" }, { tail := 0, head := 1 }]
  subgraphs := [
    { name := "R", nodes := IdSet.ofList [0, 1], edges := IdSet.ofList [1, 3] },
    { name := "L", nodes := IdSet.ofList [1, 2], edges := IdSet.ofList [0, 2] }]

/-- The rule that is written there. -/
def swapRule : DerivedRule where
  rule := {
    lhs := {
      nodes := [{ name := "hub", label := some "h" }, { name := "old" }]
      edges := [{ tail := 0, head := 1 }, { tail := 0, head := 0, label := some "k" }] }
    rhs := {
      nodes := [{ name := "new" }, { name := "hub", label := some "h" }]
      edges := [{ tail := 1, head := 1, label := some "k" }, { tail := 0, head := 1 }] }
    interface := {
      nodes := [{ name := "hub", label := some "h" }]
      edges := [{ tail := 0, head := 0, label := some "k" }] }
    toLhs := { nodes := [0], edges := [[1]] }
    toRhs := { nodes := [1], edges := [[0]] } }
  lhsOrigin := { nodes := [1, 2], edges := [[0], [2]] }
  rhsOrigin := { nodes := [0, 1], edges := [[1], [3]] }

/-- A rule that swaps one node for another, taken apart. -/
theorem Graph.toRule_decomposes_swap :
    swapGraph.toRule = .ok swapRule ∧ ∃ part, swapRule.Decomposes swapGraph part :=
  have hd : swapGraph.toRule = .ok swapRule := by decide +kernel
  ⟨hd, Graph.toRule_decomposes hd⟩

end DoublePushout
