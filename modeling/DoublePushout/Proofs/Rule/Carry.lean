import DoublePushout.Proofs.Rule.Pushout

/-!
# `DoublePushout.Proofs.Rule.Carry`: carrying a match along a rewrite

A rewrite moves every element of the target that stays, so a match of another rule has to be moved
along: `Rule.carry` sends each of its images to the position that the image has in the result.
This is sensible where the rewrite spares the match (`Rule.Spares`), that is, deletes nothing that
the match uses.

`Redex.carry` is the main statement: if two rules can be applied in one target and each spares the
match of the other, then the second can be applied in the result of the first, at the carried
match.
-/

set_option autoImplicit false

namespace DoublePushout

namespace Rule

/-- Rewriting at the first match deletes no node and no edge that the second match uses. -/
structure Spares (r : Rule) (m m' : Mapping) : Prop where
  node : ∀ n, r.DeletesNode m n → n ∉ m'.nodes
  edge : ∀ e, r.DeletesEdge m e → e ∉ m'.edges.flatten

/-- A match spares another exactly if nothing that its rule deletes has an image in the other. -/
theorem spares_iff {r : Rule} {m m' : Mapping} :
    r.Spares m m' ↔ (∀ i ∈ r.deletedNodes, ∀ n ∈ m.nodes[i]?, n ∉ m'.nodes) ∧
      ∀ i ∈ r.deletedEdges, ∀ images ∈ m.edges[i]?, ∀ e ∈ images, e ∉ m'.edges.flatten := by
  constructor
  · exact fun h => ⟨fun i hi n hn => h.node n ⟨i, hi, hn⟩,
      fun i hi images himages e he => h.edge e ⟨i, hi, images, himages, he⟩⟩
  · exact fun h => ⟨fun n ⟨i, hi, hn⟩ => h.1 i hi n hn,
      fun e ⟨i, hi, images, himages, he⟩ => h.2 i hi images himages e he⟩

instance (r : Rule) (m m' : Mapping) : Decidable (r.Spares m m') :=
  decidable_of_iff _ spares_iff.symm

/-- A match in the target, moved to where its images stand in the result of a rewrite. That these
are the positions at which `Rule.apply` puts the copies is what `Rule.Rewrites` says. -/
def carry (r : Rule) (target : Graph) (m m' : Mapping) : Mapping where
  nodes := m'.nodes.map fun n => r.nodePosition target m (.kept n)
  edges := m'.edges.map (·.map fun e => r.edgePosition target m (.kept e))

variable {r r' : Rule} {target result : Graph} {m m' : Mapping}

/-! ### The carried match -/

/-- Some edges are realised in the carried match by what realises them in the match, where that
stands. -/
theorem realised_carry {is : List EdgeId} {k : EdgeId} :
    (∃ i ∈ is, ∃ images, (r.carry target m m').edges[i]? = some images ∧ k ∈ images) ↔
      ∃ e, (∃ i ∈ is, ∃ images, m'.edges[i]? = some images ∧ e ∈ images) ∧
        r.edgePosition target m (.kept e) = k := by
  simp only [carry, List.getElem?_map, Option.map_eq_some_iff]
  constructor
  · rintro ⟨i, hi, _, ⟨images, himages, rfl⟩, hk⟩
    obtain ⟨e, he, heq⟩ := List.mem_map.1 hk
    exact ⟨e, ⟨i, hi, images, himages, he⟩, heq⟩
  · rintro ⟨e, ⟨i, hi, images, himages, he⟩, heq⟩
    exact ⟨i, hi, _, ⟨images, himages, rfl⟩, List.mem_map.2 ⟨e, he, heq⟩⟩

/-- A rule deletes at the carried match what it deletes at the match, where that stands. -/
theorem deletesNode_carry {k : NodeId} :
    r'.DeletesNode (r.carry target m m') k ↔
      ∃ n, r'.DeletesNode m' n ∧ r.nodePosition target m (.kept n) = k := by
  simp only [DeletesNode, carry, List.getElem?_map, Option.map_eq_some_iff]
  constructor
  · rintro ⟨i, hi, n, hn, heq⟩
    exact ⟨n, ⟨i, hi, hn⟩, heq⟩
  · rintro ⟨n, ⟨i, hi, hn⟩, heq⟩
    exact ⟨i, hi, n, hn, heq⟩

/-- At a carried match the rule deletes the copies of the edges that it deletes at the match. -/
theorem deletesEdge_carry {k : EdgeId} :
    r'.DeletesEdge (r.carry target m m') k ↔
      ∃ e, r'.DeletesEdge m' e ∧ r.edgePosition target m (.kept e) = k := realised_carry

/-- At a carried match the rule keeps the copies of the edges that it keeps at the match. -/
theorem keepsEdge_carry {k : EdgeId} :
    r'.KeepsEdge (r.carry target m m') k ↔
      ∃ e, r'.KeepsEdge m' e ∧ r.edgePosition target m (.kept e) = k := realised_carry

/-- The image of an interface node is carried to where its copy is. -/
theorem interfaceImage_carry (c : NodeId) :
    r'.interfaceImage (r.carry target m m') c =
      (r'.interfaceImage m' c).map fun n => r.nodePosition target m (.kept n) := by
  simp only [interfaceImage, carry, List.getElem?_map, Option.map_bind]
  rfl

/-- What a node of the right side becomes, at the carried match. -/
theorem rhsElement_carry (i : NodeId) :
    r'.rhsElement (r.carry target m m') i =
      (match r'.rhsElement m' i with
      | .kept n => .kept (r.nodePosition target m (.kept n))
      | .made k => .made k) := by
  simp only [rhsElement]
  cases r'.interface.nodeIds.find? (r'.toRhs.nodes[·]? = some i) with
  | none => rfl
  | some c =>
    simp only [Option.bind_some, interfaceImage_carry]
    cases r'.interfaceImage m' c <;> rfl

/-! ### Elements that are spared -/

namespace Redex

/-- A node of a match that is spared is still there. -/
theorem mem_nodeOrder_of_spares (h : r.Redex target m) (h' : r'.Redex target m')
    (hs : r.Spares m m') {n : NodeId} (hn : n ∈ m'.nodes) :
    .kept n ∈ r.nodeOrder target m :=
  h.mem_nodeOrder_kept.2 ⟨h'.image_lt hn, fun hdel => hs.node n hdel hn⟩

/-- An edge of a match that is spared is still there. -/
theorem mem_edgeOrder_of_spares (h : r.Redex target m) (h' : r'.Redex target m')
    (hs : r.Spares m m') {e : EdgeId} (he : e ∈ m'.edges.flatten) :
    .kept e ∈ r.edgeOrder target m :=
  h.mem_edgeOrder_kept.2 ⟨h'.realisation_lt he, fun hdel => hs.edge e hdel he⟩

/-- Nodes of a match that is spared have copies of their own. -/
theorem nodePosition_inj (h : r.Redex target m) (h' : r'.Redex target m') (hs : r.Spares m m')
    {n n' : NodeId} (hn : n ∈ m'.nodes)
    (heq : r.nodePosition target m (.kept n) = r.nodePosition target m (.kept n')) : n = n' :=
  Element.kept.inj ((List.idxOf_inj (h.mem_nodeOrder_of_spares h' hs hn)).1 heq)

/-- Edges of a match that is spared have copies of their own. -/
theorem edgePosition_inj (h : r.Redex target m) (h' : r'.Redex target m') (hs : r.Spares m m')
    {e e' : EdgeId} (he : e ∈ m'.edges.flatten)
    (heq : r.edgePosition target m (.kept e) = r.edgePosition target m (.kept e')) : e = e' :=
  Element.kept.inj ((List.idxOf_inj (h.mem_edgeOrder_of_spares h' hs he)).1 heq)

/-! ### The second rewrite -/

/-- A match that is spared is carried to a match in the result. -/
theorem carry_embeds (h : r.Redex target m) (h' : r'.Redex target m') (hs : r.Spares m m')
    (hg : r.Gives target m result) :
    (r.carry target m m').Embeds r'.lhs result where
  nodes_length := by rw [carry, List.length_map, h'.applicable.embeds.nodes_length]
  edges_length := by rw [carry, List.length_map, h'.applicable.embeds.edges_length]
  node i n hi := by
    obtain ⟨image, t, himage, ht, hadmits⟩ := h'.applicable.embeds.node i n hi
    refine ⟨r.nodePosition target m (.kept image), t, ?_, ?_, hadmits⟩
    · rw [carry, List.getElem?_map, himage]
      rfl
    · rw [nodePosition, hg.lists.node?_idxOf
        (h.mem_nodeOrder_of_spares h' hs (List.mem_of_getElem? himage))]
      exact ht
  edge i e hi := by
    obtain ⟨tail, head, images, hr⟩ := h'.applicable.embeds.edge i e hi
    refine ⟨r.nodePosition target m (.kept tail), r.nodePosition target m (.kept head),
      images.map fun j => r.edgePosition target m (.kept j), ?_, ?_, ?_, ?_, ?_⟩
    · rw [carry, List.getElem?_map, hr.tail_eq]
      rfl
    · rw [carry, List.getElem?_map, hr.head_eq]
      rfl
    · rw [carry, List.getElem?_map, hr.images_eq]
      rfl
    · exact fun hnil => hr.ne_nil (List.map_eq_nil_iff.1 hnil)
    · -- A realisation is a target edge that is kept, so it is in the result, at its new handle.
      intro k hk
      obtain ⟨j, hj, rfl⟩ := List.mem_map.1 hk
      obtain ⟨t, ht, hjoins⟩ := hr.joins j hj
      have hmem : j ∈ m'.edges.flatten := Mapping.mem_flatten_edges hr.images_eq hj
      obtain ⟨rfl, rfl⟩ := Edge.joins_iff.1 hjoins
      have hedge := h.edge?_kept_eq_some hg (h.mem_edgeOrder_of_spares h' hs hmem) ht
      exact ⟨_, hedge, Edge.joins_iff.2 ⟨rfl, rfl⟩⟩

/-- A node of the right side that becomes a node of the target is matched to it. -/
theorem mem_of_rhsElement (h : r.Redex target m) {i n : NodeId}
    (hi : r.rhsElement m i = .kept n) : n ∈ m.nodes := by
  rcases h.rhsElement_cases i with ⟨c, n', -, hc, heq⟩ | ⟨-, heq⟩
  · cases hi.symm.trans heq
    exact mem_of_interfaceImage hc
  · cases hi.symm.trans heq

/-- The second rule deletes no end of an edge that stays in the result of the first rewrite. -/
theorem carry_end_stays (h : r.Redex target m) (h' : r'.Redex target m') (hs : r.Spares m m')
    (hs' : r'.Spares m' m) (hg : r.Gives target m result) {k : EdgeId} {e : Edge}
    (hk : result.edge? k = some e) (hstays : ¬ r'.DeletesEdge (r.carry target m m') k)
    {i : NodeId} (hi : i ∈ e.ends) : ¬ r'.DeletesNode (r.carry target m m') i := by
  intro hdel
  obtain ⟨n, hn, rfl⟩ := deletesNode_carry.1 hdel
  -- The end stands where a node of the target does that the second rule deletes.
  have hat : (r.nodeOrder target m)[r.nodePosition target m (.kept n)]? = some (.kept n) :=
    getElem?_idxOf (h.mem_nodeOrder_of_spares h' hs hn.mem)
  have hend : ∀ tail head, (r.nodeOrder target m)[e.tail]? = some tail →
      (r.nodeOrder target m)[e.head]? = some head → .kept n = tail ∨ .kept n = head := by
    intro tail head htail hhead
    rcases List.mem_pair.1 hi with heq | heq
    · rw [heq, htail] at hat
      exact .inl (Option.some.inj hat).symm
    · rw [heq, hhead] at hat
      exact .inr (Option.some.inj hat).symm
  rcases hg.edge_cases hk with ⟨j, t, hx, ht, htail, hhead, -⟩ | ⟨j, f, -, -, htail, hhead, -⟩
  · have hedge : r'.DeletesEdge m' j := by
      by_contra hnot
      obtain ⟨htail', hhead'⟩ := h'.applicable.ends_stay j t ht hnot
      rcases hend _ _ htail hhead with heq | heq
      · exact htail' (Element.kept.inj heq ▸ hn)
      · exact hhead' (Element.kept.inj heq ▸ hn)
    exact hstays (deletesEdge_carry.2 ⟨j, hedge, idxOf_eq edgeOrder_nodup hx⟩)
  · -- A created edge ends at a node that the first rule preserves or creates.
    refine hs'.node n hn ?_
    rcases hend _ _ htail hhead with heq | heq
    · exact h.mem_of_rhsElement heq.symm
    · exact h.mem_of_rhsElement heq.symm

/-- If two rules can be applied in one target and each spares the match of the other, the second
can be applied in the result of the first. -/
theorem carry (h : r.Redex target m) (h' : r'.Redex target m') (hs : r.Spares m m')
    (hs' : r'.Spares m' m) (hg : r.Gives target m result) :
    r'.Redex result (r.carry target m m') where
  wellFormed := h'.wellFormed
  valid := hg.valid
  applicable := {
    embeds := h.carry_embeds h' hs hg
    injective := h'.applicable.injective.map_on fun _ hn _ _ heq =>
      h.nodePosition_inj h' hs hn heq
    disjoint := by
      -- Each clash of the carried match would be one of the match before it was carried.
      intro k hdel hkeeps
      obtain ⟨e, he, rfl⟩ := deletesEdge_carry.1 hdel
      obtain ⟨e', he', heq⟩ := keepsEdge_carry.1 hkeeps
      obtain rfl := h.edgePosition_inj h' hs he'.mem heq
      exact h'.applicable.disjoint _ he he'
    ends_stay := fun k e hk hstays =>
      ⟨h.carry_end_stays h' hs hs' hg hk hstays (by simp [Edge.ends]),
        h.carry_end_stays h' hs hs' hg hk hstays (by simp [Edge.ends])⟩ }

end Redex

end Rule

end DoublePushout
