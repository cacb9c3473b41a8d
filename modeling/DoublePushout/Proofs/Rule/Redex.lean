import DoublePushout.Proofs.Graph.Listing
import DoublePushout.Proofs.Rule.Applicability

/-!
# `DoublePushout.Proofs.Rule.Redex`: what a rewrite is made of

`Rule.Redex` gathers what is known where a rewrite takes place: a well-formed rule, a valid
target, and a match at which the rule is applicable. The elements of the rewritten graph are then
known before any graph is built. An `Element` is an element of the target that is kept, or one of
the right side that is made.

* `Rule.nodeOrder` and `Rule.edgeOrder` list the elements in the order of the result, and
  `Rule.plan` gives their attributes and ends. An edge made by the rule may end at a preserved
  node; `Rule.rhsElement` says what a node of the right side becomes. `Rule.Gives` says that a
  graph is made of these elements.
* `mem_nodeOrder_kept` and `mem_edgeOrder_kept`: what is kept of the target is exactly what is not
  deleted. `nodeOrder_nodup` and `edgeOrder_nodup`: nothing comes twice.
-/

set_option autoImplicit false

namespace DoublePushout

/-- What an element of a rewritten graph stands for. -/
inductive Element where
  /-- An element of the target. -/
  | kept (id : Nat)
  /-- An element of the right side that the rule creates. -/
  | made (id : Nat)
  deriving DecidableEq, Repr

namespace Rule

/-- The target node that an interface node is matched to. -/
def interfaceImage (r : Rule) (m : Mapping) (c : NodeId) : Option NodeId :=
  (r.toLhs.nodes[c]?).bind (m.nodes[·]?)

/-- What a node of the right side becomes: the target node that its interface node is matched to,
or a new node if it has none. -/
def rhsElement (r : Rule) (m : Mapping) (i : NodeId) : Element :=
  ((r.interface.nodeIds.find? (r.toRhs.nodes[·]? = some i)).bind (r.interfaceImage m)).elim
    (.made i) .kept

/-- The nodes of the result in order: the target nodes outside the match, the preserved ones in
the order of the interface, and the created ones. -/
def nodeOrder (r : Rule) (target : Graph) (m : Mapping) : List Element :=
  (target.nodeIds.filter (· ∉ m.nodes)).map .kept ++
    (r.interface.nodeIds.filterMap (r.interfaceImage m)).map .kept ++ r.createdNodes.map .made

/-- The realisations of the preserved edges, in the order of the interface. -/
def keptRealisations (r : Rule) (m : Mapping) : List EdgeId :=
  (r.toLhs.edges.flatten.filterMap (m.edges[·]?)).flatten

/-- The edges of the result in order: the target edges outside the match, the realisations of the
preserved ones, each at its first occurrence, and the created ones. -/
def edgeOrder (r : Rule) (target : Graph) (m : Mapping) : List Element :=
  (target.edgeIds.filter (· ∉ m.edges.flatten)).map .kept ++
    (r.keptRealisations m).eraseDups.map .kept ++ r.createdEdges.map .made

/-- The attributes and ends of the elements of the result. What is kept has those
of the target. -/
def plan (r : Rule) (target : Graph) (m : Mapping) : Plan Element Element where
  node
    | .kept n => target.node? n
    | .made i => r.rhs.node? i
  link
    | .kept j => (target.edge? j).map fun e => ⟨.kept e.tail, .kept e.head, e.label⟩
    | .made j =>
      (r.rhs.edge? j).map fun e => ⟨r.rhsElement m e.tail, r.rhsElement m e.head, e.label⟩

/-- The graph has no subgraphs, and lists the elements of the rewrite in their order. -/
structure Gives (r : Rule) (target : Graph) (m : Mapping) (result : Graph) : Prop where
  subgraphs_eq : result.subgraphs = []
  lists : result.Lists (r.plan target m) (r.nodeOrder target m) (r.edgeOrder target m)

/-- A rule can be applied at a match in a target. -/
structure Redex (r : Rule) (target : Graph) (m : Mapping) : Prop where
  wellFormed : r.WellFormed
  valid : target.Valid
  applicable : r.Applicable target m

/-- An accepted match of a derived rule in a valid target is a redex. -/
theorem redex_of_verify {g : Graph} {d : DerivedRule} {target : Graph} {m : Mapping}
    (hd : g.toRule = .ok d) (ht : target.validate = .ok ())
    (hm : d.rule.verify target m = .ok ()) : d.rule.Redex target m where
  wellFormed := Graph.toRule_wellFormed hd
  valid := Graph.validate_eq_ok_iff.1 ht
  applicable := (verify_eq_ok_iff (Graph.toRule_wellFormed hd)).1 hm

variable {r : Rule} {target result : Graph} {m : Mapping}

/-- What a rewrite gives is a valid graph. -/
theorem Gives.valid (h : r.Gives target m result) : result.Valid where
  ends_lt := h.lists.ends_lt
  members_lt := by simp [h.subgraphs_eq]
  memberEdges_lt := by simp [h.subgraphs_eq]

/-- An edge of the result is one of the target, between copies of its ends, or one of the right
side, between what its ends become. -/
theorem Gives.edge_cases (h : r.Gives target m result) {k : EdgeId} {e : Edge}
    (hk : result.edge? k = some e) :
    (∃ j t, (r.edgeOrder target m)[k]? = some (.kept j) ∧ target.edge? j = some t ∧
      (r.nodeOrder target m)[e.tail]? = some (.kept t.tail) ∧
      (r.nodeOrder target m)[e.head]? = some (.kept t.head) ∧ t.label = e.label) ∨
    ∃ j f, (r.edgeOrder target m)[k]? = some (.made j) ∧ r.rhs.edge? j = some f ∧
      (r.nodeOrder target m)[e.tail]? = some (r.rhsElement m f.tail) ∧
      (r.nodeOrder target m)[e.head]? = some (r.rhsElement m f.head) ∧ f.label = e.label := by
  -- The handle was listed for an element, which says where the edge comes from.
  obtain ⟨x, hx⟩ := h.lists.exists_edge_key hk
  obtain ⟨e', tail, head, he', hlink, htail, hhead⟩ := h.lists.edge_at hx
  cases hk.symm.trans he'
  cases x with
  | kept j =>
    obtain ⟨t, ht, hends⟩ := Option.map_eq_some_iff.1 hlink
    obtain ⟨rfl, rfl, hlabel⟩ := Link.mk.inj hends
    exact .inl ⟨j, t, hx, ht, htail, hhead, hlabel⟩
  | made j =>
    obtain ⟨f, hf, hends⟩ := Option.map_eq_some_iff.1 hlink
    obtain ⟨rfl, rfl, hlabel⟩ := Link.mk.inj hends
    exact .inr ⟨j, f, hx, hf, htail, hhead, hlabel⟩

/-- The kept realisations are the edges that the rule keeps. -/
theorem mem_keptRealisations {e : EdgeId} : e ∈ r.keptRealisations m ↔ r.KeepsEdge m e := by
  simp only [keptRealisations, List.mem_flatten, List.mem_filterMap, KeepsEdge]
  constructor
  · rintro ⟨images, ⟨i, hi, himages⟩, he⟩
    exact ⟨i, hi, images, himages, he⟩
  · rintro ⟨i, hi, images, himages, he⟩
    exact ⟨images, ⟨i, hi, himages⟩, he⟩

/-- An interface node is matched through its node of the left side. -/
theorem interfaceImage_eq_some {c n : NodeId} :
    r.interfaceImage m c = some n ↔ ∃ l, r.toLhs.nodes[c]? = some l ∧ m.nodes[l]? = some n :=
  Option.bind_eq_some_iff

/-- A deleted edge is matched. -/
theorem DeletesEdge.mem {e : EdgeId} (h : r.DeletesEdge m e) : e ∈ m.edges.flatten := by
  obtain ⟨i, -, images, himages, he⟩ := h
  exact Mapping.mem_flatten_edges himages he

/-- A kept edge is matched. -/
theorem KeepsEdge.mem {e : EdgeId} (h : r.KeepsEdge m e) : e ∈ m.edges.flatten := by
  obtain ⟨i, -, images, himages, he⟩ := h
  exact Mapping.mem_flatten_edges himages he

/-- A deleted node is matched. -/
theorem DeletesNode.mem {n : NodeId} (h : r.DeletesNode m n) : n ∈ m.nodes := by
  obtain ⟨i, -, hi⟩ := h
  exact List.mem_of_getElem? hi

namespace Redex

/-! ### The interface in the target -/

/-- Nodes are matched to nodes of the target. -/
theorem image_lt (h : r.Redex target m) {n : NodeId} (hn : n ∈ m.nodes) :
    n < target.nodes.length := h.applicable.embeds.image_lt hn

/-- Edges are matched to edges of the target. -/
theorem realisation_lt (h : r.Redex target m) {e : EdgeId} (he : e ∈ m.edges.flatten) :
    e < target.edges.length := h.applicable.embeds.realisation_lt he

/-- Every interface node is matched. -/
theorem exists_interfaceImage (h : r.Redex target m) {c : Nat}
    (hc : c < r.interface.nodes.length) : ∃ n, r.interfaceImage m c = some n := by
  have hlen : c < r.toLhs.nodes.length := h.wellFormed.toLhs_length ▸ hc
  have hlt : r.toLhs.nodes[c] < m.nodes.length :=
    h.applicable.embeds.nodes_length ▸ h.wellFormed.toLhs_lt _ (List.getElem_mem hlen)
  exact ⟨_, interfaceImage_eq_some.2
    ⟨_, List.getElem?_eq_getElem hlen, List.getElem?_eq_getElem hlt⟩⟩

/-- Different interface nodes are matched to different nodes. -/
theorem interfaceImage_inj (h : r.Redex target m) {c c' n : NodeId}
    (hc : r.interfaceImage m c = some n) (hc' : r.interfaceImage m c' = some n) : c = c' := by
  obtain ⟨l, hl, hn⟩ := interfaceImage_eq_some.1 hc
  obtain ⟨l', hl', hn'⟩ := interfaceImage_eq_some.1 hc'
  obtain rfl := eq_of_getElem?_eq h.applicable.injective hn hn'
  exact eq_of_getElem?_eq h.wellFormed.toLhs_nodup hl hl'

/-- What an interface node is matched to is matched. -/
theorem mem_of_interfaceImage {c n : NodeId} (hc : r.interfaceImage m c = some n) :
    n ∈ m.nodes := by
  obtain ⟨l, -, hn⟩ := interfaceImage_eq_some.1 hc
  exact List.mem_of_getElem? hn

/-- A matched node stays exactly when an interface node is matched to it. -/
theorem not_deletesNode_iff (h : r.Redex target m) {n : NodeId} (hn : n ∈ m.nodes) :
    ¬ r.DeletesNode m n ↔ ∃ c < r.interface.nodes.length, r.interfaceImage m c = some n := by
  constructor
  · intro hstays
    obtain ⟨i, hi⟩ := List.getElem?_of_mem hn
    have hlt : i < r.lhs.nodes.length :=
      h.applicable.embeds.nodes_length ▸ (List.getElem?_eq_some_iff.1 hi).1
    -- A node that no interface node stands for would be deleted.
    have hmem : i ∈ r.toLhs.nodes := by
      by_contra hnot
      exact hstays ⟨i, mem_deletedNodes.2 ⟨hlt, hnot⟩, hi⟩
    obtain ⟨c, hc⟩ := List.getElem?_of_mem hmem
    refine ⟨c, ?_, interfaceImage_eq_some.2 ⟨i, hc, hi⟩⟩
    exact h.wellFormed.toLhs_length ▸ (List.getElem?_eq_some_iff.1 hc).1
  · -- A deleted node with the same image would be the interface node's own place.
    rintro ⟨c, -, hc⟩ ⟨i, hi, hin⟩
    obtain ⟨l, hl, hn⟩ := interfaceImage_eq_some.1 hc
    obtain rfl := eq_of_getElem?_eq h.applicable.injective hin hn
    exact (mem_deletedNodes.1 hi).2 (List.mem_of_getElem? hl)

/-! ### The right side in the result -/

/-- A node of the right side from the interface is the kept node that its interface node is
matched to. -/
theorem rhsElement_of_interface (h : r.Redex target m) {c i n : NodeId}
    (hi : r.toRhs.nodes[c]? = some i) (hn : r.interfaceImage m c = some n) :
    r.rhsElement m i = .kept n := by
  obtain ⟨c', hfind, hc'⟩ := exists_find?_range hi (Nat.le_of_eq h.wellFormed.toRhs_length)
  -- No other interface node has the same place in the right side.
  obtain rfl := eq_of_getElem?_eq h.wellFormed.toRhs_nodup hi hc'
  rw [rhsElement, Graph.nodeIds, hfind, Option.bind_some, hn]
  rfl

/-- A node of the right side outside the interface is a new one. -/
theorem rhsElement_of_not_mem {i : NodeId} (hi : i ∉ r.toRhs.nodes) :
    r.rhsElement m i = .made i := by
  rw [rhsElement, Graph.nodeIds, find?_range_eq_none hi]
  rfl

/-- A node of the right side comes from the interface, and becomes what its interface node is
matched to, or it is created. -/
theorem rhsElement_cases (h : r.Redex target m) (i : NodeId) :
    (∃ c n, r.toRhs.nodes[c]? = some i ∧ r.interfaceImage m c = some n ∧
      r.rhsElement m i = .kept n) ∨ (i ∉ r.toRhs.nodes ∧ r.rhsElement m i = .made i) := by
  by_cases hi : i ∈ r.toRhs.nodes
  · obtain ⟨c, hc⟩ := List.getElem?_of_mem hi
    obtain ⟨n, hn⟩ := h.exists_interfaceImage
      (h.wellFormed.toRhs_length ▸ (List.getElem?_eq_some_iff.1 hc).1)
    exact .inl ⟨c, n, hc, hn, h.rhsElement_of_interface hc hn⟩
  · exact .inr ⟨hi, rhsElement_of_not_mem hi⟩

/-! ### The elements of the result -/

/-- The target nodes that are kept are those that are not deleted. -/
theorem mem_nodeOrder_kept (h : r.Redex target m) {n : Nat} :
    .kept n ∈ r.nodeOrder target m ↔ n < target.nodes.length ∧ ¬ r.DeletesNode m n := by
  have hmem : .kept n ∈ r.nodeOrder target m ↔ (n < target.nodes.length ∧ n ∉ m.nodes) ∨
      ∃ c < r.interface.nodes.length, r.interfaceImage m c = some n := by
    simp [nodeOrder]
  rw [hmem]
  by_cases hn : n ∈ m.nodes
  · rw [h.not_deletesNode_iff hn]
    simp [hn, h.image_lt hn]
  · have hstays : ¬ r.DeletesNode m n := fun hdel => hn hdel.mem
    have hnone : ¬ ∃ c < r.interface.nodes.length, r.interfaceImage m c = some n :=
      fun ⟨_, _, hc⟩ => hn (mem_of_interfaceImage hc)
    simp [hn, hstays, hnone]

/-- The new nodes of the result are those that the rule creates. -/
theorem mem_nodeOrder_made {i : Nat} :
    .made i ∈ r.nodeOrder target m ↔ i ∈ r.createdNodes := by
  simp [nodeOrder]

/-- Every node of the right side is in the result. -/
theorem rhsElement_mem (h : r.Redex target m) {i : Nat} (hi : i < r.rhs.nodes.length) :
    r.rhsElement m i ∈ r.nodeOrder target m := by
  rcases h.rhsElement_cases i with ⟨c, n, hc, hn, heq⟩ | ⟨hnot, heq⟩
  · have hmem := mem_of_interfaceImage hn
    rw [heq, h.mem_nodeOrder_kept, h.not_deletesNode_iff hmem]
    exact ⟨h.image_lt hmem, c, h.wellFormed.toRhs_length ▸ (List.getElem?_eq_some_iff.1 hc).1, hn⟩
  · rw [heq, mem_nodeOrder_made]
    exact mem_createdNodes.2 ⟨hi, hnot⟩

/-- The edges of the target in the result are those that the rule does not delete. -/
theorem mem_edgeOrder_kept (h : r.Redex target m) {e : Nat} :
    .kept e ∈ r.edgeOrder target m ↔ e < target.edges.length ∧ ¬ r.DeletesEdge m e := by
  have hmem : .kept e ∈ r.edgeOrder target m ↔
      (e < target.edges.length ∧ e ∉ m.edges.flatten) ∨ r.KeepsEdge m e := by
    simp [edgeOrder, List.mem_eraseDups, mem_keptRealisations]
  rw [hmem]
  constructor
  · rintro (⟨hlt, hnot⟩ | hkeeps)
    · exact ⟨hlt, fun hdel => hnot hdel.mem⟩
    · exact ⟨h.realisation_lt hkeeps.mem, fun hdel => h.applicable.disjoint e hdel hkeeps⟩
  · rintro ⟨hlt, hstays⟩
    by_cases he : e ∈ m.edges.flatten
    · -- The edge realises an edge of the left side, which is not deleted, so it is preserved.
      obtain ⟨images, himages, hmem⟩ := List.mem_flatten.1 he
      obtain ⟨i, hi⟩ := List.getElem?_of_mem himages
      have hlt : i < r.lhs.edges.length :=
        h.applicable.embeds.edges_length ▸ (List.getElem?_eq_some_iff.1 hi).1
      refine .inr ⟨i, ?_, images, hi, hmem⟩
      by_contra hnot
      exact hstays ⟨i, mem_deletedEdges.2 ⟨hlt, hnot⟩, images, hi, hmem⟩
    · exact .inl ⟨hlt, he⟩

/-- The new edges of the result are those that the rule creates. -/
theorem mem_edgeOrder_made {i : Nat} :
    .made i ∈ r.edgeOrder target m ↔ i ∈ r.createdEdges := by
  simp [edgeOrder]

/-- Kept elements are told apart by their handles. -/
theorem kept_injective : Function.Injective Element.kept := fun _ _ h => Element.kept.inj h

/-- New elements are told apart by their handles. -/
theorem made_injective : Function.Injective Element.made := fun _ _ h => Element.made.inj h

/-- No node comes twice in the result. -/
theorem nodeOrder_nodup (h : r.Redex target m) : (r.nodeOrder target m).Nodup := by
  have hcontext : (target.nodeIds.filter (· ∉ m.nodes)).Nodup := List.nodup_range.filter _
  have hpreserved : (r.interface.nodeIds.filterMap (r.interfaceImage m)).Nodup :=
    List.nodup_range.filterMap fun c c' n hc hc' => h.interfaceImage_inj hc hc'
  have hcreated : r.createdNodes.Nodup := List.nodup_range.filter _
  refine List.nodup_append.2 ⟨List.nodup_append.2 ⟨hcontext.map kept_injective,
    hpreserved.map kept_injective, ?_⟩, hcreated.map made_injective, ?_⟩
  · simp only [List.mem_map, List.mem_filter, List.mem_filterMap]
    rintro _ ⟨n, ⟨-, hn⟩, rfl⟩ _ ⟨n', ⟨c, -, hc⟩, rfl⟩ heq
    obtain rfl := Element.kept.inj heq
    simp [mem_of_interfaceImage hc] at hn
  · simp only [List.mem_append, List.mem_map]
    rintro _ (⟨n, -, rfl⟩ | ⟨n, -, rfl⟩) _ ⟨i, -, rfl⟩ heq <;> cases heq

/-- The edges of the result are listed once. -/
theorem edgeOrder_nodup : (r.edgeOrder target m).Nodup := by
  have hcontext : (target.edgeIds.filter (· ∉ m.edges.flatten)).Nodup := List.nodup_range.filter _
  have hcreated : r.createdEdges.Nodup := List.nodup_range.filter _
  refine List.nodup_append.2 ⟨List.nodup_append.2 ⟨hcontext.map kept_injective,
    (nodup_eraseDups _).map kept_injective, ?_⟩, hcreated.map made_injective, ?_⟩
  · simp only [List.mem_map, List.mem_filter, List.mem_eraseDups, mem_keptRealisations]
    rintro _ ⟨e, ⟨-, he⟩, rfl⟩ _ ⟨e', hkeeps, rfl⟩ heq
    obtain rfl := Element.kept.inj heq
    simp only [decide_eq_true_eq] at he
    exact he hkeeps.mem
  · simp only [List.mem_append, List.mem_map]
    rintro _ (⟨n, -, rfl⟩ | ⟨n, -, rfl⟩) _ ⟨i, -, rfl⟩ heq <;> cases heq

end Redex

end Rule

end DoublePushout
