import DoublePushout.Proofs.Rule.Result

/-!
# `DoublePushout.Proofs.Rule.Count`: how many elements a rewrite leaves

A rewrite takes the deleted elements from the target and adds the created ones. `Rule.Balances`
says this in numbers. For nodes the two numbers are those of the rule. For edges the rule knows
only what is created: a deleted edge may be realised by several target edges, and two deleted
edges by the same one, so the distinct realisations are counted.

The result lists the elements that are kept and those that are made, each once. What is kept and
what is deleted make up the target (`length_order`), and `Redex.balances` reads the two numbers
off it.
-/

set_option autoImplicit false

namespace DoublePushout

namespace Rule

/-- The nodes that the rule adds, less those that it deletes. -/
def nodeGrowth (r : Rule) : Int := r.createdNodes.length - r.deletedNodes.length

/-- The result has the nodes and edges of the target, less the deleted ones, and
the created ones. -/
structure Balances (r : Rule) (target : Graph) (m : Mapping) (result : Graph) : Prop where
  /-- The number of nodes changes as the rule says. -/
  nodes : (result.nodes.length : Int) = target.nodes.length + r.nodeGrowth
  /-- The number of edges grows by the created edges, and falls by the target edges that realise
  deleted edges, each counted once. -/
  edges : ∃ gone, r.deletedRealisations m = .ok gone ∧
    (result.edges.length : Int) =
      target.edges.length + r.createdEdges.length - gone.eraseDups.length

/-! ### What is kept and what is deleted -/

/-- Let a list of elements, none of them twice, have what is kept of a numbering and some made
ones. Then it is as long as the numbering without what is gone, and the made ones. -/
theorem length_order {kept made gone : List Nat} {n : Nat}
    (hnodup : (kept.map Element.kept ++ made.map Element.made).Nodup) (hgone : gone.Nodup)
    (hlt : ∀ i ∈ gone, i < n)
    (hmem : ∀ i, .kept i ∈ kept.map Element.kept ++ made.map Element.made ↔ i < n ∧ i ∉ gone) :
    (kept.map Element.kept ++ made.map Element.made).length + gone.length = n + made.length := by
  -- Kept and deleted handles together are all handles of the target, each once.
  have hkept : ∀ i, i ∈ kept ↔ i < n ∧ i ∉ gone := by
    intro i
    rw [← hmem]
    simp
  have hall : kept.length + gone.length = n := by
    refine length_add_length_eq ?_ hgone (fun i hi => ((hkept i).1 hi).2) fun i => ?_
    · exact (List.nodup_append.1 hnodup).1.of_map
    · rw [hkept]
      constructor
      · intro h
        exact h.elim And.left (hlt i)
      · intro hi
        by_cases hmem : i ∈ gone
        · exact .inr hmem
        · exact .inl ⟨hi, hmem⟩
  rw [List.length_append, List.length_map, List.length_map]
  omega

namespace Redex

variable {r : Rule} {target result : Graph} {m : Mapping}

/-- The match gives each deleted node a target node of its own. -/
theorem exists_deleted (h : r.Redex target m) :
    ∃ gone, r.deletedImages m = .ok gone ∧ gone.Nodup ∧ gone.length = r.deletedNodes.length := by
  obtain ⟨gone, hgone⟩ := exists_deletedImages (r := r) h.applicable.embeds.nodes_length
  have hread : List.Forall₂ (fun i n => m.nodes[i]? = some n) r.deletedNodes gone :=
    (mapM_eq_ok.1 hgone).imp fun _ _ => Mapping.node_eq_ok.1
  refine ⟨gone, hgone, ?_, hread.length_eq.symm⟩
  have hnodup : (r.deletedNodes.map (m.nodes[·]?)).Nodup := by
    refine (List.nodup_range.filter _).map_on fun i hi j _ heq => ?_
    have hlt : i < m.nodes.length :=
      h.applicable.embeds.nodes_length ▸ (mem_deletedNodes.1 hi).1
    exact (List.getElem?_inj hlt h.applicable.injective).1 heq
  rw [← forall₂_map_some hread] at hnodup
  exact hnodup.of_map

/-- The result has as many nodes more as are created and as many fewer as are deleted. -/
theorem length_nodeOrder (h : r.Redex target m) :
    (r.nodeOrder target m).length + r.deletedNodes.length =
      target.nodes.length + r.createdNodes.length := by
  obtain ⟨gone, hgone, hnodup, hlen⟩ := h.exists_deleted
  have horder : r.nodeOrder target m = (target.nodeIds.filter (· ∉ m.nodes) ++
      r.interface.nodeIds.filterMap (r.interfaceImage m)).map .kept ++
        r.createdNodes.map .made := by
    rw [List.map_append]
    rfl
  rw [← hlen, horder]
  refine length_order (horder ▸ h.nodeOrder_nodup) hnodup (fun n hn => ?_) fun n => ?_
  · exact h.image_lt ((mem_deletedImages hgone).1 hn).mem
  · rw [← horder, h.mem_nodeOrder_kept, mem_deletedImages hgone]

/-- The result has as many edges more as are created and as many fewer as are deleted, each
once. -/
theorem length_edgeOrder (h : r.Redex target m) {gone : List EdgeId}
    (hgone : r.deletedRealisations m = .ok gone) :
    (r.edgeOrder target m).length + gone.eraseDups.length =
      target.edges.length + r.createdEdges.length := by
  have horder : r.edgeOrder target m = (target.edgeIds.filter (· ∉ m.edges.flatten) ++
      (r.keptRealisations m).eraseDups).map .kept ++ r.createdEdges.map .made := by
    rw [List.map_append]
    rfl
  rw [horder]
  refine length_order (horder ▸ edgeOrder_nodup) (nodup_eraseDups gone)
    (fun j hj => ?_) fun j => ?_
  · rw [List.mem_eraseDups, mem_deletedRealisations hgone] at hj
    exact h.realisation_lt hj.mem
  · rw [← horder, h.mem_edgeOrder_kept, List.mem_eraseDups, mem_deletedRealisations hgone]

/-- A rewrite adds the created elements and takes away the deleted ones. -/
theorem balances (h : r.Redex target m) (hg : r.Gives target m result) :
    r.Balances target m result where
  nodes := by
    have hnodes := h.length_nodeOrder
    rw [hg.lists.length_nodes] at hnodes
    rw [nodeGrowth]
    omega
  edges := by
    obtain ⟨gone, hgone⟩ := exists_deletedRealisations (r := r) h.applicable.embeds.edges_length
    have hedges := h.length_edgeOrder hgone
    rw [hg.lists.length_edges] at hedges
    exact ⟨gone, hgone, by omega⟩

end Redex

end Rule

end DoublePushout
