import DoublePushout.Proofs.Positions
import DoublePushout.Proofs.Rule.Marking

/-!
# `DoublePushout.Proofs.Rule.Derivation`: rules that come from annotated graphs

`Graph.toRule` checks an annotation before it derives a rule from it. `Annotated.Sound` is what it
then knows: the annotation is well marked, and its two sides are parts of a valid graph. From it
follow the facts about the sides and about the interface on which the statements about derived
rules rest. `Rule.WellFormed` is what a rule needs in order to be applied: both sides are valid,
and the interface has for each of its nodes one node in either side, no two the same.

`toRule_eq_ok` says what a derived rule comes from, and `toRule_wellFormed` that it is
well-formed. A rule read from outside need not be. The statements about rewriting ask for
`WellFormed` only, so they hold of every rule that has its form, however it was made.
-/

set_option autoImplicit false

namespace DoublePushout

/-- The sides of the rule are valid. Each interface node has one node in either side, no two the
same, and the interface's edges are edges of the left side. -/
structure Rule.WellFormed (r : Rule) : Prop where
  lhs_valid : r.lhs.Valid
  rhs_valid : r.rhs.Valid
  toLhs_length : r.toLhs.nodes.length = r.interface.nodes.length
  toRhs_length : r.toRhs.nodes.length = r.interface.nodes.length
  toLhs_lt : ∀ n ∈ r.toLhs.nodes, n < r.lhs.nodes.length
  toRhs_lt : ∀ n ∈ r.toRhs.nodes, n < r.rhs.nodes.length
  toLhs_nodup : r.toLhs.nodes.Nodup
  toRhs_nodup : r.toRhs.nodes.Nodup
  toLhs_edge_lt : ∀ e ∈ r.toLhs.edges.flatten, e < r.lhs.edges.length

namespace Annotated

variable {a : Annotated}

/-- The annotation is well marked, and its sides are parts of a valid graph. -/
structure Sound (a : Annotated) : Prop extends a.WellMarked where
  valid : a.graph.Valid
  node_lt : ∀ side, ∀ n ∈ (a.part side).nodes, n < a.graph.nodes.length
  edge_lt : ∀ side, ∀ e ∈ (a.part side).edges, e < a.graph.edges.length

/-- The graph is valid, and the parts that mark the sides are parts of it. -/
structure Within (a : Annotated) : Prop where
  valid : a.graph.Valid
  node_lt : ∀ side, ∀ n ∈ (a.part side).nodes, n < a.graph.nodes.length
  edge_lt : ∀ side, ∀ j ∈ (a.part side).edges, j < a.graph.edges.length

/-- The parts of an annotation of a valid graph are made of its elements. -/
theorem within {g : Graph} (hvalid : g.Valid) (ha : g.annotated = .ok a) : a.Within := by
  obtain ⟨rfl, hparts⟩ := Graph.annotated_eq_ok_iff.1 ha
  have hmem : ∀ side, a.part side ∈ a.graph.subgraphs :=
    fun side => List.mem_of_find?_eq_some (hparts side)
  exact ⟨hvalid, fun side => hvalid.members_lt _ (hmem side),
    fun side => hvalid.memberEdges_lt _ (hmem side)⟩

/-! ### A side as a graph of its own -/

/-- The nodes of a side are listed once. -/
theorem nodesOf_nodup (side : Side) : (a.nodesOf side).Nodup :=
  (a.part side).nodes.ascending.imp Nat.ne_of_lt

/-- The edges of a side are listed once. -/
theorem edgesOf_nodup (side : Side) : (a.edgesOf side).Nodup :=
  (a.part side).edges.ascending.imp Nat.ne_of_lt

/-- A node of a side has a handle there. -/
theorem localNode_lt {side : Side} {n : NodeId} (h : n ∈ (a.part side).nodes) :
    a.localNode side n < (a.nodesOf side).length := List.idxOf_lt_length_of_mem h

/-- Different nodes of a side have different handles there. -/
theorem localNode_inj {side : Side} {n n' : NodeId} (h : n ∈ (a.part side).nodes)
    (heq : a.localNode side n = a.localNode side n') : n = n' :=
  (List.idxOf_inj (l := a.nodesOf side) h).1 heq

/-- The node at a local handle is the node that has this handle. -/
theorem getElem?_localNode {side : Side} {n : NodeId} (h : n ∈ (a.part side).nodes) :
    (a.nodesOf side)[a.localNode side n]? = some n := getElem?_idxOf h

/-- The nodes of a side are those of the graph that are on it. -/
theorem Sound.nodes_sideGraph (h : a.Sound) (side : Side) :
    List.Forall₂ (fun n node => a.graph.node? n = some node) (a.nodesOf side)
      (a.sideGraph side).nodes :=
  forall₂_filterMap_right fun n hn => ⟨_, List.getElem?_eq_getElem (h.node_lt side n hn)⟩

/-- The edges of a side are those of the graph that are on it, with local handles
for their ends. -/
theorem Sound.edges_sideGraph (h : a.Sound) (side : Side) :
    List.Forall₂ (fun j e => ∃ e', a.graph.edge? j = some e' ∧ e = a.localEdge side e')
      (a.edgesOf side) (a.sideGraph side).edges := by
  have hread : List.Forall₂ (fun j e => a.graph.edge? j = some e) (a.edgesOf side)
      ((a.edgesOf side).filterMap a.graph.edge?) :=
    forall₂_filterMap_right fun j hj => ⟨_, List.getElem?_eq_getElem (h.edge_lt side j hj)⟩
  exact List.forall₂_map_right_iff.2 (hread.imp fun j e he => ⟨e, he, rfl⟩)

/-- A side graph has a node for each node of the side. -/
theorem Sound.length_nodes (h : a.Sound) (side : Side) :
    (a.sideGraph side).nodes.length = (a.nodesOf side).length :=
  (h.nodes_sideGraph side).length_eq.symm

/-- A side graph has an edge for each edge of the side. -/
theorem Sound.length_edges (h : a.Sound) (side : Side) :
    (a.sideGraph side).edges.length = (a.edgesOf side).length :=
  (h.edges_sideGraph side).length_eq.symm

/-- An edge of a side graph is its edge of the annotated graph, with its ends renamed. -/
theorem Sound.edge?_sideGraph (h : a.Sound) {side : Side} {i j : EdgeId}
    (hi : (a.edgesOf side)[i]? = some j) :
    (a.sideGraph side).edge? i = (a.graph.edge? j).map (a.localEdge side) := by
  obtain ⟨e, he, e', he', rfl⟩ := forall₂_getElem? (h.edges_sideGraph side) hi
  rw [he']
  exact he

/-- An edge has the same label on its side as in the graph. -/
theorem Sound.edgeLabel?_sideGraph (h : a.Sound) {side : Side} {i j : EdgeId}
    (hi : (a.edgesOf side)[i]? = some j) :
    (a.sideGraph side).edgeLabel? i = a.graph.edgeLabel? j := by
  rw [Graph.edgeLabel?, h.edge?_sideGraph hi, Graph.edgeLabel?]
  cases a.graph.edge? j with
  | none => rfl
  | some e => rfl

/-- An edge of a side comes from the graph. -/
theorem Sound.exists_edgesOf (h : a.Sound) {side : Side} {i : EdgeId}
    (hi : i < (a.sideGraph side).edges.length) :
    ∃ j ∈ (a.part side).edges, (a.edgesOf side)[i]? = some j := by
  have hlt : i < (a.edgesOf side).length := h.length_edges side ▸ hi
  exact ⟨_, List.getElem_mem hlt, List.getElem?_eq_getElem hlt⟩

/-- A label that counts is on one edge of a side at most. -/
theorem Sound.eq_of_edgeLabel? (h : a.Sound) {s : Side} {i i' : EdgeId} {label : String}
    (hi : (a.sideGraph s).edgeLabel? i = some label)
    (hi' : (a.sideGraph s).edgeLabel? i' = some label) : i = i' := by
  obtain ⟨j, hj, hij⟩ := h.exists_edgesOf (Graph.edgeLabel?_lt hi)
  obtain ⟨j', hj', hij'⟩ := h.exists_edgesOf (Graph.edgeLabel?_lt hi')
  rw [h.edgeLabel?_sideGraph hij] at hi
  rw [h.edgeLabel?_sideGraph hij'] at hi'
  obtain rfl := h.edge_eq s j j' label hj hj' hi hi'
  exact eq_of_getElem?_eq (edgesOf_nodup s) hij hij'

/-- A side graph is valid. -/
theorem Sound.sideGraph_valid (h : a.Sound) (side : Side) : (a.sideGraph side).Valid := by
  refine Graph.valid_of_ends fun e he => ?_
  obtain ⟨e, hmem, rfl⟩ := List.mem_map.1 he
  obtain ⟨i, hi, hget⟩ := List.mem_filterMap.1 hmem
  obtain ⟨htail, hhead⟩ := h.ends side i e hget hi
  have hlen := h.length_nodes side
  exact ⟨hlen ▸ localNode_lt htail, hlen ▸ localNode_lt hhead⟩

/-! ### The interface -/

/-- A node is shared exactly if it is on both sides. -/
theorem mem_sharedNodes {n : NodeId} :
    n ∈ a.sharedNodes ↔ n ∈ (a.part .lhs).nodes ∧ n ∈ (a.part .rhs).nodes := by
  simp [sharedNodes, nodesOf, part]

/-- A shared node is on either side. -/
theorem mem_part_of_mem_sharedNodes {n : NodeId} (h : n ∈ a.sharedNodes) (side : Side) :
    n ∈ (a.part side).nodes := by
  cases side with
  | lhs => exact (mem_sharedNodes.1 h).1
  | rhs => exact (mem_sharedNodes.1 h).2

/-- Shared nodes are listed once. -/
theorem sharedNodes_nodup : a.sharedNodes.Nodup := (nodesOf_nodup .lhs).filter _

/-- Shared nodes have different handles on a side. -/
theorem map_localNode_nodup (side : Side) : (a.sharedNodes.map (a.localNode side)).Nodup :=
  sharedNodes_nodup.map_on fun _ hn _ _ heq =>
    localNode_inj (mem_part_of_mem_sharedNodes hn side) heq

/-- The nodes of the interface are those of the graph that are on both sides. -/
theorem Sound.nodes_interface (h : a.Sound) :
    List.Forall₂ (fun n node => a.graph.node? n = some node) a.sharedNodes
      a.rule.interface.nodes :=
  forall₂_filterMap_right fun n hn =>
    ⟨_, List.getElem?_eq_getElem (h.node_lt .lhs n (mem_sharedNodes.1 hn).1)⟩

/-- The edge of a pair on a side. -/
def Pair.edge (p : Pair) : Side → EdgeId
  | .lhs => p.lhs
  | .rhs => p.rhs

/-- The pairs are formed of the edges of the two sides that have the same label. -/
theorem Sound.mem_pairs (h : a.Sound) {p : Pair} :
    p ∈ a.pairs ↔ ∀ side, (a.sideGraph side).edgeLabel? (p.edge side) = some p.label := by
  simp only [pairs, List.mem_filterMap, Prod.exists, List.mem_zipIdx_iff_getElem?,
    Option.bind_eq_bind, Option.bind_eq_some_iff, Option.pure_def, Option.some.injEq,
    Side.forall_iff]
  constructor
  · rintro ⟨e, i, hi, label, hlabel, j, hj, rfl⟩
    obtain ⟨hlt, hlabel', -⟩ := List.findIdx?_eq_some_iff_getElem.1 hj
    exact ⟨Graph.edgeLabel?_eq_some.2 ⟨e, hi, hlabel⟩,
      Graph.edgeLabel?_eq_some.2 ⟨_, List.getElem?_eq_getElem hlt, by simpa using hlabel'⟩⟩
  · rintro ⟨hlhs, hrhs⟩
    obtain ⟨e, he, hlabel⟩ := Graph.edgeLabel?_eq_some.1 hlhs
    obtain ⟨f, hf, hlabel'⟩ := Graph.edgeLabel?_eq_some.1 hrhs
    -- The first edge of the right side with the label is the only one.
    have hany : (a.sideGraph .rhs).edges.any (·.effective = some p.label) = true :=
      List.any_eq_true.2 ⟨f, List.mem_of_getElem? hf, by simpa using hlabel'⟩
    rw [← List.findIdx?_isSome] at hany
    obtain ⟨j, hj⟩ := Option.isSome_iff_exists.1 hany
    obtain ⟨hlt, hfirst, -⟩ := List.findIdx?_eq_some_iff_getElem.1 hj
    have heq : j = p.rhs := h.eq_of_edgeLabel? (s := .rhs)
      (Graph.edgeLabel?_eq_some.2 ⟨_, List.getElem?_eq_getElem hlt, by simpa using hfirst⟩) hrhs
    subst heq
    exact ⟨e, p.lhs, he, p.label, hlabel, p.rhs, hj, rfl⟩

/-- The pairs are in the order of their edges on the left side. -/
theorem pairs_pairwise : (a.pairs.map Pair.lhs).Pairwise (· < ·) := by
  have hpositions : ((a.sideGraph .lhs).edges.zipIdx.map Prod.snd).Pairwise (· < ·) := by
    rw [List.zipIdx_map_snd]
    exact List.pairwise_lt_range' ..
  refine List.pairwise_map.2 (List.Pairwise.filterMap _ ?_ (List.pairwise_map.1 hpositions))
  rintro ⟨e, i⟩ ⟨e', i'⟩ hlt p hp p' hp'
  simp only [Option.bind_eq_bind, Option.bind_eq_some_iff, Option.pure_def, Option.some.injEq]
    at hp hp'
  obtain ⟨_, -, _, -, rfl⟩ := hp
  obtain ⟨_, -, _, -, rfl⟩ := hp'
  exact hlt

/-- A pair names an edge of either side. -/
theorem Sound.pair_lt (h : a.Sound) {p : Pair} (hp : p ∈ a.pairs) (side : Side) :
    p.edge side < (a.sideGraph side).edges.length := Graph.edgeLabel?_lt (h.mem_pairs.1 hp side)

/-- The rule that an annotation describes, with where its sides come from. -/
def derived (a : Annotated) : DerivedRule := ⟨a.rule, a.origin .lhs, a.origin .rhs⟩

/-- The rule of a sound annotation is well-formed. -/
theorem Sound.rule_wellFormed (h : a.Sound) : a.rule.WellFormed := by
  have hinterface : a.rule.interface.nodes.length = a.sharedNodes.length :=
    h.nodes_interface.length_eq.symm
  -- A shared node is on either side, so its handle there names a node of that side.
  have hlt : ∀ side, ∀ n ∈ a.sharedNodes.map (a.localNode side),
      n < (a.sideGraph side).nodes.length := by
    intro side k hk
    obtain ⟨n, hn, rfl⟩ := List.mem_map.1 hk
    exact h.length_nodes side ▸ localNode_lt (mem_part_of_mem_sharedNodes hn side)
  exact {
    lhs_valid := h.sideGraph_valid .lhs
    rhs_valid := h.sideGraph_valid .rhs
    toLhs_length := by rw [hinterface]; exact List.length_map _
    toRhs_length := by rw [hinterface]; exact List.length_map _
    toLhs_lt := hlt .lhs
    toRhs_lt := hlt .rhs
    toLhs_nodup := map_localNode_nodup .lhs
    toRhs_nodup := map_localNode_nodup .rhs
    toLhs_edge_lt := by
      intro e he
      obtain ⟨es, hes, he⟩ := List.mem_flatten.1 he
      obtain ⟨p, hp, rfl⟩ := List.mem_map.1 hes
      rw [List.mem_singleton.1 he]
      exact h.pair_lt hp .lhs }

end Annotated

/-! ### Derived rules -/

namespace Graph

variable {g : Graph} {d : DerivedRule}

/-- A derived rule is the rule of a sound annotation. -/
theorem toRule_eq_ok (h : g.toRule = .ok d) :
    ∃ a, g.annotated = .ok a ∧ a.Sound ∧ d = ⟨a.rule, a.origin .lhs, a.origin .rhs⟩ := by
  obtain ⟨hvalid, a, ha, hmarked, hd⟩ := toRule_eq_ok_iff.1 h
  have hwithin := Annotated.within hvalid ha
  exact ⟨a, ha, ⟨hmarked, hwithin.valid, hwithin.node_lt, hwithin.edge_lt⟩, hd⟩

/-- A derived rule is well-formed. -/
theorem toRule_wellFormed (h : g.toRule = .ok d) : d.rule.WellFormed := by
  obtain ⟨a, -, hsound, rfl⟩ := toRule_eq_ok h
  exact hsound.rule_wellFormed

end Graph

end DoublePushout
