import DoublePushout.Proofs.Rule.Agreement
import DoublePushout.Proofs.Rule.Pushout

/-!
# `DoublePushout.Proofs.Rule.Comatch`: where the right side is in the result

After a rewrite the right side should be found where the left side was. `Rule.comatch` is the
mapping that says where: a node goes to what it has become, a created edge to the new edge, and a
preserved edge to what realises the edge of the left side that it is paired with. `Rule.Comatches`
says the same without running anything.

A preserved edge keeps the ends that it has in the target. So the right side is in the result
exactly when the two edges of each pair have the same ends, which derivation does not ask for.
`Redex.comatch_embeds_iff` says so for the rule, and `apply_comatch` for the annotated graph.
-/

set_option autoImplicit false

namespace DoublePushout

namespace Rule

/-- The target edges that realise an interface edge. -/
def interfaceRealisations (r : Rule) (m : Mapping) (c : EdgeId) : List EdgeId :=
  (((r.toLhs.edges[c]?).getD []).filterMap (m.edges[·]?)).flatten

/-- What realises an edge of the right side in the result: the target edges that realise its
interface edge, or a new edge if it has none. -/
def rhsRealisations (r : Rule) (m : Mapping) (j : EdgeId) : List Element :=
  (r.interface.edgeIds.find? (r.toRhs.edges[·]? = some [j])).elim [.made j] fun c =>
    (r.interfaceRealisations m c).map .kept

/-- The right side in the result of a rewrite. -/
def comatch (r : Rule) (target : Graph) (m : Mapping) : Mapping where
  nodes := r.rhs.nodeIds.map fun i => r.nodePosition target m (r.rhsElement m i)
  edges := r.rhs.edgeIds.map fun j => (r.rhsRealisations m j).map (r.edgePosition target m)

/-- The mapping sends the right side to where a rewrite leaves it. -/
structure Comatches (r : Rule) (target : Graph) (m m' : Mapping) : Prop where
  /-- Every node of the right side has an image. -/
  nodes_length : m'.nodes.length = r.rhs.nodes.length
  /-- Every edge of the right side has a list of realisations. -/
  edges_length : m'.edges.length = r.rhs.edges.length
  /-- A node from the interface goes to the copy of the target node that its interface node is
  matched to. -/
  preserved_node : ∀ c < r.interface.nodes.length, ∃ l i n : NodeId,
    r.toLhs.nodes[c]? = some l ∧ r.toRhs.nodes[c]? = some i ∧ m.nodes[l]? = some n ∧
      m'.nodes[i]? = some (r.nodePosition target m (.kept n))
  /-- A created node goes to the new node. -/
  created_node : ∀ i ∈ r.createdNodes, m'.nodes[i]? = some (r.nodePosition target m (.made i))
  /-- An edge from the interface goes to the copies of the target edges that realise the edge of
  the left side that it is paired with. -/
  preserved_edge : ∀ c < r.interface.edges.length, ∃ (i j : EdgeId) (images : List EdgeId),
    r.toLhs.edges[c]? = some [i] ∧ r.toRhs.edges[c]? = some [j] ∧ m.edges[i]? = some images ∧
      m'.edges[j]? = some (images.map fun k => r.edgePosition target m (.kept k))
  /-- A created edge goes to the new edge. -/
  created_edge : ∀ j ∈ r.createdEdges, m'.edges[j]? = some [r.edgePosition target m (.made j)]

variable {r : Rule} {target result : Graph} {m : Mapping}

/-! ### Reading the comatch -/

/-- The comatch leads every node of the right side to its copy in the result. -/
theorem comatch_nodes {i : NodeId} (hi : i < r.rhs.nodes.length) :
    (r.comatch target m).nodes[i]? = some (r.nodePosition target m (r.rhsElement m i)) := by
  rw [comatch, List.getElem?_map, Graph.nodeIds, List.getElem?_range hi]
  rfl

/-- The comatch leads every edge of the right side to its copies in the result. -/
theorem comatch_edges {j : EdgeId} (hj : j < r.rhs.edges.length) :
    (r.comatch target m).edges[j]? =
      some ((r.rhsRealisations m j).map (r.edgePosition target m)) := by
  rw [comatch, List.getElem?_map, Graph.edgeIds, List.getElem?_range hj]
  rfl

/-- A preserved edge is realised by what has realised the left edge of its pair. -/
theorem rhsRealisations_of_pairs (hb : r.Balanced) {i j : EdgeId} {images : List EdgeId}
    (hp : r.Pairs i j) (himages : m.edges[i]? = some images) :
    r.rhsRealisations m j = images.map .kept := by
  have ⟨c, _, hat⟩ := hp
  obtain ⟨c', hfind, hj⟩ := exists_find?_range hat (Nat.le_of_eq hb.toRhs_edges_length)
  obtain ⟨i', j', hi', hj'⟩ :=
    hb.pair c' (hb.toRhs_edges_length ▸ (List.getElem?_eq_some_iff.1 hj).1)
  cases hj.symm.trans hj'
  -- The interface edge that is found pairs the edge too, so it is with the same edge.
  obtain rfl := hb.pair_left i i' j hp ⟨c', hi', hj⟩
  rw [rhsRealisations, Graph.edgeIds, hfind]
  simp [interfaceRealisations, hi', himages]

/-- A created edge is realised by its one copy. -/
theorem rhsRealisations_of_not_mem {j : EdgeId} (hj : j ∉ r.toRhs.edges.flatten) :
    r.rhsRealisations m j = [.made j] := by
  have hnone : [j] ∉ r.toRhs.edges :=
    fun hmem => hj (List.mem_flatten.2 ⟨[j], hmem, List.mem_singleton_self j⟩)
  rw [rhsRealisations, Graph.edgeIds, find?_range_eq_none hnone]
  rfl

/-- Different nodes of the result have different positions. -/
theorem eq_of_nodePosition_eq {x y : Element} (hx : x ∈ r.nodeOrder target m)
    (heq : r.nodePosition target m x = r.nodePosition target m y) : x = y :=
  (List.idxOf_inj hx).1 heq

namespace Redex

/-- The realisations of an edge of the left side. -/
theorem exists_images (h : r.Redex target m) {i : EdgeId} (hi : i < r.lhs.edges.length) :
    ∃ e tail head images, r.lhs.edge? i = some e ∧ m.Realises target e i tail head images := by
  have he : r.lhs.edge? i = some _ := List.getElem?_eq_getElem hi
  obtain ⟨tail, head, images, hr⟩ := h.applicable.embeds.edge i _ he
  exact ⟨_, tail, head, images, he, hr⟩

/-- An edge of the right side is realised by the realisations of the edge that it is paired with,
or by the new edge if it is created. -/
theorem rhsRealisations_cases (h : r.Redex target m) (hb : r.Balanced) (j : EdgeId) :
    (∃ i e tail head images, r.Pairs i j ∧ r.lhs.edge? i = some e ∧
      m.Realises target e i tail head images ∧ r.rhsRealisations m j = images.map .kept) ∨
    (j ∉ r.toRhs.edges.flatten ∧ r.rhsRealisations m j = [.made j]) := by
  by_cases hj : j ∈ r.toRhs.edges.flatten
  · obtain ⟨i, hp⟩ := hb.exists_pairs_right hj
    obtain ⟨e, tail, head, images, he, hr⟩ := h.exists_images (hb.pair_lt i j hp).1
    exact .inl ⟨i, e, tail, head, images, hp, he, hr, rhsRealisations_of_pairs hb hp hr.images_eq⟩
  · exact .inr ⟨hj, rhsRealisations_of_not_mem hj⟩

/-- The comatch is what it should be. -/
theorem comatches (h : r.Redex target m) (hb : r.Balanced) :
    r.Comatches target m (r.comatch target m) where
  nodes_length := by simp [comatch, Graph.nodeIds]
  edges_length := by simp [comatch, Graph.edgeIds]
  -- A preserved node is where the match of the left side had it.
  preserved_node c hc := by
    obtain ⟨l, i, n, hl, hi, hn, heq⟩ := h.glued hc
    refine ⟨l, i, n, hl, hi, hn, ?_⟩
    rw [comatch_nodes (hb.toRhs_lt i (List.mem_of_getElem? hi)), heq]
  created_node i hi := by
    obtain ⟨hlt, hnot⟩ := mem_createdNodes.1 hi
    rw [comatch_nodes hlt, rhsElement_of_not_mem hnot]
  preserved_edge c hc := by
    obtain ⟨i, j, hi, hj⟩ := hb.pair c hc
    have hp : r.Pairs i j := ⟨c, hi, hj⟩
    obtain ⟨e, tail, head, images, -, hr⟩ := h.exists_images (hb.pair_lt i j hp).1
    refine ⟨i, j, images, hi, hj, hr.images_eq, ?_⟩
    rw [comatch_edges (hb.pair_lt i j hp).2, rhsRealisations_of_pairs hb hp hr.images_eq,
      List.map_map]
    rfl
  created_edge j hj := by
    obtain ⟨hlt, hnot⟩ := mem_createdEdges.1 hj
    rw [comatch_edges hlt, rhsRealisations_of_not_mem hnot]
    rfl

/-! ### Nodes -/

/-- Nodes of the right side become different nodes. -/
theorem rhsElement_inj (h : r.Redex target m) {i i' : NodeId}
    (heq : r.rhsElement m i = r.rhsElement m i') : i = i' := by
  rcases h.rhsElement_cases i with ⟨c, n, hc, hn, hkept⟩ | ⟨-, hmade⟩ <;>
    rcases h.rhsElement_cases i' with ⟨c', n', hc', hn', hkept'⟩ | ⟨-, hmade'⟩
  · rw [hkept, hkept'] at heq
    obtain rfl := Element.kept.inj heq
    obtain rfl := h.interfaceImage_inj hn hn'
    exact Option.some.inj (hc.symm.trans hc')
  · rw [hkept, hmade'] at heq
    cases heq
  · rw [hmade, hkept'] at heq
    cases heq
  · rw [hmade, hmade'] at heq
    exact Element.made.inj heq

/-- The comatch is injective. -/
theorem comatch_injective (h : r.Redex target m) : (r.comatch target m).Injective := by
  refine List.Nodup.map_on (fun i hi i' _ heq => ?_) List.nodup_range
  exact h.rhsElement_inj
    (eq_of_nodePosition_eq (h.rhsElement_mem (Graph.mem_nodeIds.1 hi)) heq)

/-- A node of the right side admits what it has become. -/
theorem admits_rhsElement (h : r.Redex target m) (hb : r.Balanced) (hg : r.Gives target m result)
    {i : NodeId} {n : Node} (hi : r.rhs.node? i = some n) :
    ∃ t, result.node? (r.nodePosition target m (r.rhsElement m i)) = some t ∧
      n.admits t = true := by
  have hmem := h.rhsElement_mem (List.getElem?_eq_some_iff.1 hi).1
  rw [nodePosition, hg.lists.node?_idxOf hmem]
  rcases h.rhsElement_cases i with ⟨c, k, hc, hk, heq⟩ | ⟨-, heq⟩
  · -- The interface node looks the same on the left side, which is matched to the target node.
    obtain ⟨l, hl, hlk⟩ := interfaceImage_eq_some.1 hk
    rw [← hb.shared_eq l i ⟨c, hl, hc⟩] at hi
    obtain ⟨k', t, hk', ht, hadmits⟩ := h.applicable.embeds.node l n hi
    cases hlk.symm.trans hk'
    rw [heq]
    exact ⟨t, ht, hadmits⟩
  · rw [heq]
    exact ⟨n, hi, by simp [Node.admits]⟩

/-- A node of the right side becomes the image of a node of the left side exactly when the two are
shared. -/
theorem rhsElement_eq_kept_iff (h : r.Redex target m) {l i n : NodeId}
    (hl : m.nodes[l]? = some n) : r.rhsElement m i = .kept n ↔ r.Shares l i := by
  constructor
  · intro heq
    rcases h.rhsElement_cases i with ⟨c, n', hc, hn, hkept⟩ | ⟨-, hmade⟩
    · rw [hkept] at heq
      obtain rfl := Element.kept.inj heq
      obtain ⟨l', hl', hn'⟩ := interfaceImage_eq_some.1 hn
      obtain rfl := eq_of_getElem?_eq h.applicable.injective hl hn'
      exact ⟨c, hl', hc⟩
    · rw [hmade] at heq
      cases heq
  · rintro ⟨c, hcl, hci⟩
    exact h.rhsElement_of_interface hci (interfaceImage_eq_some.2 ⟨l, hcl, hl⟩)

/-! ### Edges -/

/-- What realises a preserved edge is not deleted. -/
theorem mem_edgeOrder_of_pairs (h : r.Redex target m) {i j k : EdgeId} {images : List EdgeId}
    (hp : r.Pairs i j) (himages : m.edges[i]? = some images) (hk : k ∈ images) :
    .kept k ∈ r.edgeOrder target m := by
  have hkeeps : r.KeepsEdge m k := ⟨i, hp.mem_left, images, himages, hk⟩
  exact h.mem_edgeOrder_kept.2
    ⟨h.realisation_lt hkeeps.mem, fun hdel => h.applicable.disjoint k hdel hkeeps⟩

/-- The copy of a realisation of a preserved edge runs between the copies of the images of its
ends. -/
theorem edge?_realisation (h : r.Redex target m) (hg : r.Gives target m result) {i j k : EdgeId}
    {e : Edge} {tail head : NodeId} {images : List EdgeId} (hp : r.Pairs i j)
    (hr : m.Realises target e i tail head images) (hk : k ∈ images) :
    ∃ label, result.edge? (r.edgePosition target m (.kept k)) =
      some ⟨r.nodePosition target m (.kept tail), r.nodePosition target m (.kept head), label⟩ ∧
      .kept tail ∈ r.nodeOrder target m ∧ .kept head ∈ r.nodeOrder target m := by
  have hmem := h.mem_edgeOrder_of_pairs hp hr.images_eq hk
  obtain ⟨t, ht, hjoins⟩ := hr.joins k hk
  obtain ⟨rfl, rfl⟩ := Edge.joins_iff.1 hjoins
  obtain ⟨htail, hhead⟩ := h.applicable.ends_stay k t ht (h.mem_edgeOrder_kept.1 hmem).2
  obtain ⟨htaillt, hheadlt⟩ := h.valid.ends_of_edge? ht
  exact ⟨t.label, h.edge?_kept_eq_some hg hmem ht, h.mem_nodeOrder_kept.2 ⟨htaillt, htail⟩,
    h.mem_nodeOrder_kept.2 ⟨hheadlt, hhead⟩⟩

/-- An edge of the right side is realised between what its ends have become, provided that paired
edges agree. -/
theorem comatch_realises (h : r.Redex target m) (hb : r.Balanced) (hg : r.Gives target m result)
    (hagree : r.PairsAgree) {j : EdgeId} {f : Edge} (hj : r.rhs.edge? j = some f) :
    (r.comatch target m).Realises result f j (r.nodePosition target m (r.rhsElement m f.tail))
      (r.nodePosition target m (r.rhsElement m f.head))
      ((r.rhsRealisations m j).map (r.edgePosition target m)) := by
  obtain ⟨htail, hhead⟩ := hb.rhs_valid.ends_of_edge? hj
  have hlt : j < r.rhs.edges.length := (List.getElem?_eq_some_iff.1 hj).1
  refine ⟨comatch_nodes htail, comatch_nodes hhead, comatch_edges hlt, ?_, ?_⟩
  · rcases h.rhsRealisations_cases hb j with ⟨i, e, tail, head, images, -, -, hr, heq⟩ | ⟨-, heq⟩
    · rw [heq]
      simpa using hr.ne_nil
    · rw [heq]
      exact List.cons_ne_nil _ _
  · intro k hk
    obtain ⟨x, hx, rfl⟩ := List.mem_map.1 hk
    rcases h.rhsRealisations_cases hb j with
      ⟨i, e, tail, head, images, hp, he, hr, heq⟩ | ⟨hnot, heq⟩
    · rw [heq] at hx
      obtain ⟨k, himage, rfl⟩ := List.mem_map.1 hx
      obtain ⟨label, hedge, -, -⟩ := h.edge?_realisation hg hp hr himage
      -- The ends are shared, so they have become the images of the ends of the left edge.
      obtain ⟨hstail, hshead⟩ := hagree i j e f hp he hj
      rw [(h.rhsElement_eq_kept_iff hr.tail_eq).2 hstail,
        (h.rhsElement_eq_kept_iff hr.head_eq).2 hshead]
      exact ⟨_, hedge, Edge.joins_iff.2 ⟨rfl, rfl⟩⟩
    · rw [heq, List.mem_singleton] at hx
      subst hx
      have hmem : .made j ∈ r.edgeOrder target m :=
        mem_edgeOrder_made.2 (mem_createdEdges.2 ⟨hlt, hnot⟩)
      have hedge := h.edge?_made hg hmem
      rw [madeEdge, hj, Option.map_some] at hedge
      exact ⟨_, hedge, Edge.joins_iff.2 ⟨rfl, rfl⟩⟩

/-- Paired edges agree if the right side is in the result. -/
theorem pairsAgree_of_embeds (h : r.Redex target m) (hb : r.Balanced)
    (hg : r.Gives target m result) (hembeds : (r.comatch target m).Embeds r.rhs result) :
    r.PairsAgree := by
  intro i j e f hp he hf
  obtain ⟨tail, head, images, hr⟩ := h.applicable.embeds.edge i e he
  obtain ⟨tail', head', images', hr'⟩ := hembeds.edge j f hf
  -- Some edge of the target realises the pair, and its copy has both pairs of ends.
  obtain ⟨k, hk⟩ := List.exists_mem_of_ne_nil images hr.ne_nil
  obtain ⟨label, hedge, htail, hhead⟩ := h.edge?_realisation hg hp hr hk
  have hcopies : images' = (images.map .kept).map (r.edgePosition target m) := by
    have hat := hr'.images_eq.symm.trans (comatch_edges (hb.pair_lt i j hp).2)
    rw [rhsRealisations_of_pairs hb hp hr.images_eq] at hat
    exact Option.some.inj hat
  have hmem : r.edgePosition target m (.kept k) ∈ images' := by
    rw [hcopies]
    exact List.mem_map_of_mem (List.mem_map_of_mem hk)
  obtain ⟨t, ht, hjoins⟩ := hr'.joins _ hmem
  cases hedge.symm.trans ht
  obtain ⟨htail', hhead'⟩ := Edge.joins_iff.1 hjoins
  obtain ⟨hftail, hfhead⟩ := hb.rhs_valid.ends_of_edge? hf
  have heqtail := htail'.trans (Option.some.inj (hr'.tail_eq.symm.trans (comatch_nodes hftail)))
  have heqhead := hhead'.trans (Option.some.inj (hr'.head_eq.symm.trans (comatch_nodes hfhead)))
  exact ⟨(h.rhsElement_eq_kept_iff hr.tail_eq).1 (eq_of_nodePosition_eq htail heqtail).symm,
    (h.rhsElement_eq_kept_iff hr.head_eq).1 (eq_of_nodePosition_eq hhead heqhead).symm⟩

/-- The right side is in the result exactly when paired edges agree. -/
theorem comatch_embeds_iff (h : r.Redex target m) (hb : r.Balanced)
    (hg : r.Gives target m result) :
    (r.comatch target m).Embeds r.rhs result ↔ r.PairsAgree := by
  constructor
  · exact h.pairsAgree_of_embeds hb hg
  · intro hagree
    refine ⟨(h.comatches hb).nodes_length, (h.comatches hb).edges_length, fun i n hi => ?_,
      fun j f hf => ⟨_, _, _, h.comatch_realises hb hg hagree hf⟩⟩
    obtain ⟨t, ht, hadmits⟩ := h.admits_rhsElement hb hg hi
    exact ⟨_, t, comatch_nodes (List.getElem?_eq_some_iff.1 hi).1, ht, hadmits⟩

end Redex

/-- A derived rule that is accepted at a match in a valid target applies there, and the right side
is in the result, at the comatch, exactly when the edges of each pair have the same ends in the
annotated graph. No two nodes of the right side become one. -/
theorem apply_comatch {g : Graph} {d : DerivedRule} {target : Graph} {m : Mapping}
    (hd : g.toRule = .ok d) (ht : target.validate = .ok ())
    (hm : d.rule.verify target m = .ok ()) :
    ∃ result, d.rule.apply target m = .ok result ∧ d.rule.Rewrites target m result ∧
      d.rule.Comatches target m (d.rule.comatch target m) ∧
      (d.rule.comatch target m).Injective ∧
      ((d.rule.comatch target m).validate d.rule.rhs result = .ok () ↔ d.KeepsEnds g) := by
  have hredex := redex_of_verify hd ht hm
  obtain ⟨hb, hends⟩ := Graph.toRule_balanced hd
  obtain ⟨result, happly, hgives⟩ := hredex.apply_gives
  refine ⟨result, happly, hredex.rewrites_of_gives hgives, hredex.comatches hb,
    hredex.comatch_injective, ?_⟩
  rw [Mapping.validate_eq_ok_iff, hredex.comatch_embeds_iff hb hgives, hends]

/-- A rule that keeps the ends of its edges, at a match that lists one loop twice. -/
theorem apply_comatch_replace :
    replaceGraph.toRule = .ok replaceRule ∧ replaceTarget.validate = .ok () ∧
    replaceRule.rule.verify replaceTarget replaceMatch = .ok () ∧
    ∃ result, replaceRule.rule.apply replaceTarget replaceMatch = .ok result ∧
      replaceRule.rule.Rewrites replaceTarget replaceMatch result ∧
      replaceRule.rule.Comatches replaceTarget replaceMatch
        (replaceRule.rule.comatch replaceTarget replaceMatch) ∧
      (replaceRule.rule.comatch replaceTarget replaceMatch).Injective ∧
      ((replaceRule.rule.comatch replaceTarget replaceMatch).validate replaceRule.rule.rhs
        result = .ok () ↔ replaceRule.KeepsEnds replaceGraph) :=
  have hd : replaceGraph.toRule = .ok replaceRule := by decide +kernel
  have ht : replaceTarget.validate = .ok () := by decide
  have hm : replaceRule.rule.verify replaceTarget replaceMatch = .ok () := by decide +kernel
  ⟨hd, ht, hm, apply_comatch hd ht hm⟩

/-- A rule in writing that seems to redirect an edge. -/
def redirectGraph : Graph where
  nodes := [{ name := "from" }, { name := "to" }, { name := "other" }]
  edges := [{ tail := 0, head := 1, label := some "k" },
    { tail := 0, head := 2, label := some "k" }]
  subgraphs := [
    { name := "L", nodes := IdSet.ofList [0, 1, 2], edges := IdSet.ofList [0] },
    { name := "R", nodes := IdSet.ofList [0, 1, 2], edges := IdSet.ofList [1] }]

-- The pair has other ends on the right side, so the edge stays where it is.
example : (do
    let d ← redirectGraph.toRule.toOption
    let m : Mapping := { nodes := [0, 1, 2], edges := [[0]] }
    let result ← (d.rule.apply d.rule.lhs m).toOption
    return (d.rule.comatch d.rule.lhs m).validate d.rule.rhs result) =
    some (.error (.refused (.misplaced 0 0))) := by decide +kernel

end Rule

end DoublePushout
