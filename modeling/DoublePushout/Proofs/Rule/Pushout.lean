import DoublePushout.Proofs.Rule.Result

/-!
# `DoublePushout.Proofs.Rule.Pushout`: a rewrite builds the double pushout

A rewrite takes the deleted elements out of the target and glues the created ones in. The result
is described without running it: `Rule.nodePosition` and `Rule.edgePosition` say where each
element of the target that stays, and each one that is created, stands in the result, and
`Rule.Rewrites` says what the result is in terms of them. It gives the two lists of the result
part by part, and says that the positions lose nothing, double nothing and attach every edge where
it belongs.

`apply_rewrites` is the statement about `Rule.apply`, for a derived rule, a valid target, and any
match that the rule accepts there.
-/

set_option autoImplicit false

namespace DoublePushout

namespace Rule

/-! ### Positions in the result -/

/-- The handle that a node has in the result. -/
def nodePosition (r : Rule) (target : Graph) (m : Mapping) (x : Element) : NodeId :=
  (r.nodeOrder target m).idxOf x

/-- The handle that an edge has in the result. -/
def edgePosition (r : Rule) (target : Graph) (m : Mapping) (x : Element) : EdgeId :=
  (r.edgeOrder target m).idxOf x

/-- An edge of the target, moved to where its ends stand in the result. -/
def keptEdge (r : Rule) (target : Graph) (m : Mapping) (j : EdgeId) : Option Edge :=
  (target.edge? j).map fun e =>
    { e with
      tail := r.nodePosition target m (.kept e.tail)
      head := r.nodePosition target m (.kept e.head) }

/-- An edge of the right side, moved to where its ends stand in the result. -/
def madeEdge (r : Rule) (target : Graph) (m : Mapping) (j : EdgeId) : Option Edge :=
  (r.rhs.edge? j).map fun e =>
    { e with
      tail := r.nodePosition target m (r.rhsElement m e.tail)
      head := r.nodePosition target m (r.rhsElement m e.head) }

/-- The nodes that a rewrite leaves: those of the target that it does not delete, and the created
ones. -/
def LeavesNode (r : Rule) (target : Graph) (m : Mapping) : Element → Prop
  | .kept n => n < target.nodes.length ∧ ¬ r.DeletesNode m n
  | .made i => i ∈ r.createdNodes

/-- The edges that a rewrite leaves: those of the target that it does not delete, and the created
ones. -/
def LeavesEdge (r : Rule) (target : Graph) (m : Mapping) : Element → Prop
  | .kept j => j < target.edges.length ∧ ¬ r.DeletesEdge m j
  | .made j => j ∈ r.createdEdges

/-- The graph is what rewriting the target at the match has to give. -/
structure Rewrites (r : Rule) (target : Graph) (m : Mapping) (result : Graph) : Prop where
  /-- There are no subgraphs. -/
  subgraphs_eq : result.subgraphs = []
  /-- The nodes are the unmatched nodes of the target in ascending order, the matched ones in the
  order of the interface, each as it is in the target, and the created ones in ascending order. -/
  nodes_eq : result.nodes.map some =
    (target.nodeIds.filter (· ∉ m.nodes)).map target.node? ++
      r.interface.nodeIds.map (fun c => (r.interfaceImage m c).bind target.node?) ++
      r.createdNodes.map r.rhs.node?
  /-- The edges are the unmatched edges of the target in ascending order, the realisations of
  preserved edges in the order of the interface, each once, and the created edges in ascending
  order. -/
  edges_eq : result.edges.map some =
    (target.edgeIds.filter (· ∉ m.edges.flatten)).map (r.keptEdge target m) ++
      (r.keptRealisations m).eraseDups.map (r.keptEdge target m) ++
      r.createdEdges.map (r.madeEdge target m)
  /-- The nodes that are left correspond to the nodes of the result. -/
  node_bijOn : Set.BijOn (r.nodePosition target m) {x | r.LeavesNode target m x}
    (Set.Iio result.nodes.length)
  /-- The edges that are left correspond to the edges of the result. -/
  edge_bijOn : Set.BijOn (r.edgePosition target m) {x | r.LeavesEdge target m x}
    (Set.Iio result.edges.length)
  /-- A node of the target that stays keeps its name and its stored label. -/
  node_kept : ∀ n, r.LeavesNode target m (.kept n) →
    result.node? (r.nodePosition target m (.kept n)) = target.node? n
  /-- A created node has the name and the stored label of the right side. -/
  node_made : ∀ i, r.LeavesNode target m (.made i) →
    result.node? (r.nodePosition target m (.made i)) = r.rhs.node? i
  /-- An edge of the target that stays keeps its label, and its ends stay too. -/
  edge_kept : ∀ j e, target.edge? j = some e → r.LeavesEdge target m (.kept j) →
    r.LeavesNode target m (.kept e.tail) ∧ r.LeavesNode target m (.kept e.head) ∧
      result.edge? (r.edgePosition target m (.kept j)) = r.keptEdge target m j
  /-- A created edge has the label of the right side, and ends at what its ends become. -/
  edge_made : ∀ j e, r.rhs.edge? j = some e → r.LeavesEdge target m (.made j) →
    r.LeavesNode target m (r.rhsElement m e.tail) ∧
      r.LeavesNode target m (r.rhsElement m e.head) ∧
      result.edge? (r.edgePosition target m (.made j)) = r.madeEdge target m j
  /-- A node of the right side that comes from the interface becomes the target node that its
  interface node is matched to. -/
  glued : ∀ c < r.interface.nodes.length, ∃ l i n, r.toLhs.nodes[c]? = some l ∧
    r.toRhs.nodes[c]? = some i ∧ m.nodes[l]? = some n ∧ r.rhsElement m i = .kept n
  /-- A created node of the right side becomes a new node. -/
  fresh : ∀ i ∈ r.createdNodes, r.rhsElement m i = .made i
  /-- The positions are the handles under which the rewrite itself finds the copies of nodes. -/
  copies : ∃ placed, r.placedNodes target m = .ok placed ∧
    (∀ n, r.LeavesNode target m (.kept n) →
      targetCopy target placed n = .ok (r.nodePosition target m (.kept n))) ∧
    ∀ i < r.rhs.nodes.length,
      r.rhsCopy placed i = .ok (r.nodePosition target m (r.rhsElement m i))

namespace Redex

variable {r : Rule} {target result : Graph} {m : Mapping}

/-- The nodes of the result are the elements that the rewrite leaves as nodes. -/
theorem mem_nodeOrder (h : r.Redex target m) {x : Element} :
    x ∈ r.nodeOrder target m ↔ r.LeavesNode target m x := by
  cases x with
  | kept n => exact h.mem_nodeOrder_kept
  | made i => exact mem_nodeOrder_made

/-- The edges of the result are the elements that the rewrite leaves as edges. -/
theorem mem_edgeOrder (h : r.Redex target m) {x : Element} :
    x ∈ r.edgeOrder target m ↔ r.LeavesEdge target m x := by
  cases x with
  | kept j => exact h.mem_edgeOrder_kept
  | made j => exact mem_edgeOrder_made

/-- Every interface node has its place in the target and in the right side. -/
theorem glued (h : r.Redex target m) {c : Nat} (hc : c < r.interface.nodes.length) :
    ∃ l i n, r.toLhs.nodes[c]? = some l ∧ r.toRhs.nodes[c]? = some i ∧ m.nodes[l]? = some n ∧
      r.rhsElement m i = .kept n := by
  obtain ⟨n, hn⟩ := h.exists_interfaceImage hc
  obtain ⟨l, hl, hln⟩ := interfaceImage_eq_some.1 hn
  have hi := List.getElem?_eq_getElem (h.wellFormed.toRhs_length ▸ hc)
  exact ⟨l, _, n, hl, hi, hln, h.rhsElement_of_interface hi hn⟩

/-- The preserved nodes are those that the interface nodes are matched to, one for each. -/
theorem filterMap_interfaceImage (h : r.Redex target m) :
    (r.interface.nodeIds.filterMap (r.interfaceImage m)).map target.node? =
      r.interface.nodeIds.map fun c => (r.interfaceImage m c).bind target.node? := by
  refine List.forall₂_eq_eq_eq ▸ List.forall₂_map_left_iff.2 (List.forall₂_map_right_iff.2
    (forall₂_filterMap_left (List.forall₂_same.2 fun c hc => ?_)))
  obtain ⟨n, hn⟩ := h.exists_interfaceImage (Graph.mem_nodeIds.1 hc)
  exact ⟨n, hn, by rw [hn]; rfl⟩

/-- The rewrite finds the copies of nodes at their positions. -/
theorem copies (h : r.Redex target m) : ∃ placed, r.placedNodes target m = .ok placed ∧
    (∀ n, r.LeavesNode target m (.kept n) →
      targetCopy target placed n = .ok (r.nodePosition target m (.kept n))) ∧
    ∀ i < r.rhs.nodes.length,
      r.rhsCopy placed i = .ok (r.nodePosition target m (r.rhsElement m i)) := by
  obtain ⟨placed, hok, hplaced⟩ := h.placedNodes_eq_ok
  refine ⟨placed, hok, fun n hn => ?_, fun i hi => ?_⟩
  · obtain ⟨k, hk, hat⟩ := targetCopy_eq_ok hplaced hn.1 (h.mem_nodeOrder.2 hn)
    rw [hk, nodePosition, idxOf_eq h.nodeOrder_nodup hat]
  · obtain ⟨k, hk, hat⟩ := rhsCopy_eq_ok hplaced hi (h.rhsElement_mem hi)
    rw [hk, nodePosition, idxOf_eq h.nodeOrder_nodup hat]

/-- An edge of the target that stays has moved with its ends. -/
theorem edge?_kept (h : r.Redex target m) (hg : r.Gives target m result) {j : Nat}
    (hj : .kept j ∈ r.edgeOrder target m) :
    result.edge? (r.edgePosition target m (.kept j)) = r.keptEdge target m j := by
  rw [edgePosition, hg.lists.edge?_idxOf h.nodeOrder_nodup hj]
  exact Option.map_map _ _ _

/-- A kept edge is in the result, between the copies of its ends. -/
theorem edge?_kept_eq_some (h : r.Redex target m) (hg : r.Gives target m result) {j : EdgeId}
    {e : Edge} (hj : .kept j ∈ r.edgeOrder target m) (he : target.edge? j = some e) :
    result.edge? (r.edgePosition target m (.kept j)) =
      some ⟨r.nodePosition target m (.kept e.tail), r.nodePosition target m (.kept e.head),
        e.label⟩ := by
  rw [h.edge?_kept hg hj, keptEdge, he]
  rfl

/-- A created edge runs between what its ends have become. -/
theorem edge?_made (h : r.Redex target m) (hg : r.Gives target m result) {j : EdgeId}
    (hj : .made j ∈ r.edgeOrder target m) :
    result.edge? (r.edgePosition target m (.made j)) = r.madeEdge target m j := by
  rw [edgePosition, hg.lists.edge?_idxOf h.nodeOrder_nodup hj]
  exact Option.map_map _ _ _

/-- A graph that lists the elements of the rewrite is what rewriting has to give. -/
theorem rewrites_of_gives (h : r.Redex target m) (hg : r.Gives target m result) :
    r.Rewrites target m result where
  subgraphs_eq := hg.subgraphs_eq
  nodes_eq := by
    rw [hg.lists.map_nodes, nodeOrder, List.map_append, List.map_append, List.map_map,
      List.map_map, List.map_map, ← h.filterMap_interfaceImage]
    rfl
  edges_eq := by
    -- The plan has elements for ends, and the two kinds of moved edges look up where those stand.
    have hkept : (fun x => ((r.plan target m).link x).map (Link.place (r.nodeOrder target m))) ∘
        .kept = r.keptEdge target m := funext fun j => Option.map_map _ _ _
    have hmade : (fun x => ((r.plan target m).link x).map (Link.place (r.nodeOrder target m))) ∘
        .made = r.madeEdge target m := funext fun j => Option.map_map _ _ _
    rw [hg.lists.map_edges h.nodeOrder_nodup, edgeOrder, List.map_append, List.map_append,
      List.map_map, List.map_map, List.map_map, hkept, hmade]
  node_bijOn := by
    have hset : {x | x ∈ r.nodeOrder target m} = {x | r.LeavesNode target m x} :=
      Set.ext fun x => h.mem_nodeOrder
    rw [← hset, ← hg.lists.length_nodes]
    exact bijOn_idxOf h.nodeOrder_nodup
  edge_bijOn := by
    have hset : {x | x ∈ r.edgeOrder target m} = {x | r.LeavesEdge target m x} :=
      Set.ext fun x => h.mem_edgeOrder
    rw [← hset, ← hg.lists.length_edges]
    exact bijOn_idxOf edgeOrder_nodup
  node_kept n hn := hg.lists.node?_idxOf (h.mem_nodeOrder.2 hn)
  node_made i hi := hg.lists.node?_idxOf (h.mem_nodeOrder.2 hi)
  edge_kept j e he hj := by
    obtain ⟨htail, hhead⟩ := h.valid.ends_of_edge? he
    obtain ⟨htail', hhead'⟩ := h.applicable.ends_stay j e he hj.2
    exact ⟨⟨htail, htail'⟩, ⟨hhead, hhead'⟩, h.edge?_kept hg (h.mem_edgeOrder.2 hj)⟩
  edge_made j e he hj := by
    obtain ⟨htail, hhead⟩ := h.wellFormed.rhs_valid.ends_of_edge? he
    exact ⟨h.mem_nodeOrder.1 (h.rhsElement_mem htail), h.mem_nodeOrder.1 (h.rhsElement_mem hhead),
      h.edge?_made hg (h.mem_edgeOrder.2 hj)⟩
  glued _ hc := h.glued hc
  fresh _ hi := rhsElement_of_not_mem (mem_createdNodes.1 hi).2
  copies := h.copies

end Redex

/-- A derived rule that is accepted at a match in a valid target applies there, and the result is
what rewriting the target at the match has to give. -/
theorem apply_rewrites {g : Graph} {d : DerivedRule} {target : Graph} {m : Mapping}
    (hd : g.toRule = .ok d) (ht : target.validate = .ok ())
    (hm : d.rule.verify target m = .ok ()) :
    ∃ result, d.rule.apply target m = .ok result ∧ d.rule.Rewrites target m result := by
  have hredex := redex_of_verify hd ht hm
  obtain ⟨result, happly, hgives⟩ := hredex.apply_gives
  exact ⟨result, happly, hredex.rewrites_of_gives hgives⟩

/-- A rule in writing: a node with a loop is kept, its edge to another node is deleted together
with that node, and an edge to a new node is created. -/
def replaceGraph : Graph where
  nodes := [{ name := "hub" }, { name := "old" }, { name := "new", label := some "n" }]
  edges := [
    { tail := 0, head := 0, label := some "k" }, { tail := 0, head := 0, label := some "k" },
    { tail := 0, head := 1 }, { tail := 0, head := 2 }]
  subgraphs := [
    { name := "L", nodes := IdSet.ofList [0, 1], edges := IdSet.ofList [0, 2] },
    { name := "R", nodes := IdSet.ofList [0, 2], edges := IdSet.ofList [1, 3] }]

/-- The rule that is written there. -/
def replaceRule : DerivedRule where
  rule := {
    lhs := {
      nodes := [{ name := "hub" }, { name := "old" }]
      edges := [{ tail := 0, head := 0, label := some "k" }, { tail := 0, head := 1 }] }
    rhs := {
      nodes := [{ name := "hub" }, { name := "new", label := some "n" }]
      edges := [{ tail := 0, head := 0, label := some "k" }, { tail := 0, head := 1 }] }
    interface := {
      nodes := [{ name := "hub" }]
      edges := [{ tail := 0, head := 0, label := some "k" }] }
    toLhs := { nodes := [0], edges := [[0]] }
    toRhs := { nodes := [0], edges := [[0]] } }
  lhsOrigin := { nodes := [0, 1], edges := [[0], [2]] }
  rhsOrigin := { nodes := [0, 2], edges := [[1], [3]] }

/-- A target with two loops at one node, and with a node outside the match. -/
def replaceTarget : Graph where
  nodes := [{ name := "x" }, { name := "y" }, { name := "z", label := some "" }]
  edges := [{ tail := 0, head := 0 }, { tail := 0, head := 1 }, { tail := 0, head := 0 },
    { tail := 2, head := 0 }]

/-- A match in it that lists one loop twice. -/
def replaceMatch : Mapping where
  nodes := [0, 1]
  edges := [[2, 0, 2], [1]]

/-- Replacing a node is a rewrite, at a match that lists one loop twice. -/
theorem apply_rewrites_replace :
    replaceGraph.toRule = .ok replaceRule ∧ replaceTarget.validate = .ok () ∧
    replaceRule.rule.verify replaceTarget replaceMatch = .ok () ∧
    ∃ result, replaceRule.rule.apply replaceTarget replaceMatch = .ok result ∧
      replaceRule.rule.Rewrites replaceTarget replaceMatch result :=
  have hd : replaceGraph.toRule = .ok replaceRule := by decide +kernel
  have ht : replaceTarget.validate = .ok () := by decide
  have hm : replaceRule.rule.verify replaceTarget replaceMatch = .ok () := by decide +kernel
  ⟨hd, ht, hm, apply_rewrites hd ht hm⟩

example : replaceRule.rule.apply replaceTarget replaceMatch = .ok
    { nodes := [{ name := "z", label := some "" }, { name := "x" },
        { name := "new", label := some "n" }]
      edges := [{ tail := 0, head := 1 }, { tail := 1, head := 1 }, { tail := 1, head := 1 },
        { tail := 1, head := 2 }] } := by decide +kernel

end Rule

end DoublePushout
