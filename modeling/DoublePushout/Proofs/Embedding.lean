import DoublePushout.Mapping
import DoublePushout.Proofs.Graph.Validity

/-!
# `DoublePushout.Proofs.Embedding`: what the check of a mapping establishes

`Mapping.Embeds` says in one piece what `Mapping.validate` checks step by step: the two tables
cover the source, each node goes to a node of the target that it admits, and each edge is
realised, by edges between the images of its ends only.

* `validate_eq_ok_iff`: the check accepts the embeddings and nothing else.
* `validate_faultFree`: the check does not fault when the edges of the source end inside it. It
  reads its own tables only, so nothing is asked of the handles in the mapping or of the target.
-/

set_option autoImplicit false

namespace DoublePushout.Mapping

variable {m : Mapping} {source target : Graph}

/-- The images of an edge's ends, and the edges that realise it between them. -/
structure Realises (m : Mapping) (target : Graph) (e : Edge) (i : EdgeId) (tail head : NodeId)
    (images : List EdgeId) : Prop where
  /-- The image of the tail. -/
  tail_eq : m.nodes[e.tail]? = some tail
  /-- The image of the head. -/
  head_eq : m.nodes[e.head]? = some head
  /-- The realisations. -/
  images_eq : m.edges[i]? = some images
  /-- There is a realisation. -/
  ne_nil : images ≠ []
  /-- Each realisation joins the images of the ends. -/
  joins : ∀ j ∈ images, ∃ t, target.edge? j = some t ∧ t.joins tail head = true

/-- The mapping keeps the structure of the source. -/
structure Embeds (m : Mapping) (source target : Graph) : Prop where
  /-- Every node has an image. -/
  nodes_length : m.nodes.length = source.nodes.length
  /-- Every edge has a list of realisations. -/
  edges_length : m.edges.length = source.edges.length
  /-- The image of a node is a node of the target that it admits. -/
  node : ∀ i n, source.node? i = some n →
    ∃ image t, m.nodes[i]? = some image ∧ target.node? image = some t ∧ n.admits t = true
  /-- An edge is realised between the images of its ends. -/
  edge : ∀ i e, source.edge? i = some e →
    ∃ tail head images, m.Realises target e i tail head images

/-! ### Node by node and edge by edge -/

/-- The image of a node is its entry in the table of nodes. -/
theorem node_eq_ok {i image : NodeId} : m.node i = .ok image ↔ m.nodes[i]? = some image :=
  entry_eq_ok

/-- The realisations of an edge are its entry in the table of edges. -/
theorem edge_eq_ok {i : EdgeId} {images : List EdgeId} :
    m.edge i = .ok images ↔ m.edges[i]? = some images :=
  entry_eq_ok

/-- A realisation of an edge is among all realisations. -/
theorem mem_flatten_edges {i e : EdgeId} {images : List EdgeId} (h : m.edges[i]? = some images)
    (he : e ∈ images) : e ∈ m.edges.flatten :=
  List.mem_flatten.2 ⟨images, List.mem_of_getElem? h, he⟩

/-- The check of a node asks for an image in the target that the node admits. -/
theorem checkNode_eq_ok {n : Node} {i : NodeId} :
    m.checkNode target (n, i) = .ok () ↔
      ∃ image t, m.nodes[i]? = some image ∧ target.node? image = some t ∧ n.admits t = true := by
  simp only [checkNode, bind_eq_ok, orFault_eq_ok, node_eq_ok]
  constructor
  · rintro ⟨image, himage, h⟩
    split at h
    · cases h
    · next t ht =>
      split at h
      · next hadmits => exact ⟨image, t, himage, ht, hadmits⟩
      · cases h
  · rintro ⟨image, t, himage, ht, hadmits⟩
    exact ⟨image, himage, by simp [ht, hadmits]⟩

/-- The check of a realisation asks for an edge of the target between the images of the ends. -/
theorem checkRealisation_eq_ok {i image : EdgeId} {tail head : NodeId} :
    checkRealisation target i tail head image = .ok () ↔
      ∃ t, target.edge? image = some t ∧ t.joins tail head = true := by
  rw [checkRealisation]
  split
  · next h => simp [h]
  · next t h => by_cases hjoins : t.joins tail head = true <;> simp [h, hjoins]

/-- The check of an edge asks that the edge is realised. -/
theorem checkEdge_eq_ok {e : Edge} {i : EdgeId} :
    m.checkEdge target (e, i) = .ok () ↔
      ∃ tail head images, m.Realises target e i tail head images := by
  simp only [checkEdge, bind_eq_ok, orFault_eq_ok, edge_eq_ok]
  constructor
  · -- The checks are made in the order of the fields of `Realises`.
    rintro ⟨images, himages, h⟩
    split at h
    · simp at h
    · next hne =>
      simp only [bind_eq_ok, orFault_eq_ok, node_eq_ok, forM_eq_ok, checkRealisation_eq_ok] at h
      obtain ⟨tail, htail, head, hhead, hjoins⟩ := h
      exact ⟨tail, head, images, htail, hhead, himages, hne, hjoins⟩
  · rintro ⟨tail, head, images, h⟩
    refine ⟨images, h.images_eq, ?_⟩
    rw [if_neg h.ne_nil]
    simp only [bind_eq_ok, orFault_eq_ok, node_eq_ok, forM_eq_ok, checkRealisation_eq_ok]
    exact ⟨tail, h.tail_eq, head, h.head_eq, h.joins⟩

/-! ### The whole check -/

/-- The check accepts the embeddings and nothing else. -/
theorem validate_eq_ok_iff : m.validate source target = .ok () ↔ m.Embeds source target := by
  rw [validate]
  constructor
  · intro h
    split at h
    · simp at h
    · next hnodes =>
      split at h
      · simp at h
      · next hedges =>
        simp only [bind_eq_ok, forM_eq_ok, forall_mem_zipIdx, checkNode_eq_ok,
          checkEdge_eq_ok] at h
        obtain ⟨-, hnode, hedge⟩ := h
        exact ⟨by omega, by omega, hnode, hedge⟩
  · intro h
    rw [if_neg (by simp [h.nodes_length]), if_neg (by simp [h.edges_length])]
    simp only [bind_eq_ok, forM_eq_ok, forall_mem_zipIdx, checkNode_eq_ok, checkEdge_eq_ok]
    exact ⟨(), h.node, h.edge⟩

/-- The check does not fault when the edges of the source end inside it. -/
theorem validate_faultFree
    (h : ∀ e ∈ source.edges, e.tail < source.nodes.length ∧ e.head < source.nodes.length) :
    FaultFree (m.validate source target) := by
  rw [validate]
  split
  · exact .refused _
  · next hnodes =>
    split
    · exact .refused _
    · next hedges =>
      have hnodes : m.nodes.length = source.nodes.length := by omega
      have hedges : m.edges.length = source.edges.length := by omega
      -- Past the two sizes the tables have an entry at each handle of the source.
      refine .bind (.forM ?_) fun _ _ => .forM ?_
      · rw [forall_mem_zipIdx]
        intro i n hn
        have hi : i < m.nodes.length := hnodes ▸ (List.getElem?_eq_some_iff.1 hn).1
        refine .bind (.orFault (entry_of_lt hi)) fun image _ => ?_
        split
        · exact .refused _
        · split
          · exact .ok _
          · exact .refused _
      · rw [forall_mem_zipIdx]
        intro i e he
        obtain ⟨htail, hhead⟩ := h e (List.mem_of_getElem? he)
        have hi : i < m.edges.length := hedges ▸ (List.getElem?_eq_some_iff.1 he).1
        refine .bind (.orFault (entry_of_lt hi)) fun images _ => ?_
        split
        · exact .refused _
        · refine .bind (.orFault (entry_of_lt (hnodes ▸ htail))) fun tail _ => ?_
          refine .bind (.orFault (entry_of_lt (hnodes ▸ hhead))) fun head _ => .forM fun j _ => ?_
          rw [checkRealisation]
          split
          · exact .refused _
          · split
            · exact .ok _
            · exact .refused _

/-- The images of an embedding are nodes of the target. -/
theorem Embeds.image_lt (h : m.Embeds source target) {n : NodeId} (hn : n ∈ m.nodes) :
    n < target.nodes.length := by
  obtain ⟨i, hi⟩ := List.getElem?_of_mem hn
  have hlt : i < source.nodes.length := h.nodes_length ▸ (List.getElem?_eq_some_iff.1 hi).1
  obtain ⟨n', t, hn', ht, -⟩ := h.node i _ (List.getElem?_eq_getElem hlt)
  obtain rfl : n = n' := Option.some.inj (hi.symm.trans hn')
  exact (List.getElem?_eq_some_iff.1 ht).1

/-- The realisations of an embedding are edges of the target. -/
theorem Embeds.realisation_lt (h : m.Embeds source target) {e : EdgeId}
    (he : e ∈ m.edges.flatten) : e < target.edges.length := by
  obtain ⟨images, himages, hmem⟩ := List.mem_flatten.1 he
  obtain ⟨i, hi⟩ := List.getElem?_of_mem himages
  have hlt : i < source.edges.length := h.edges_length ▸ (List.getElem?_eq_some_iff.1 hi).1
  obtain ⟨tail, head, images', hr⟩ := h.edge i _ (List.getElem?_eq_getElem hlt)
  obtain rfl : images = images' := Option.some.inj (hi.symm.trans hr.images_eq)
  obtain ⟨t, ht, -⟩ := hr.joins e hmem
  exact (List.getElem?_eq_some_iff.1 ht).1

end DoublePushout.Mapping
