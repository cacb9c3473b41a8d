import DoublePushout.Proofs.Graph.Listing
import DoublePushout.Proofs.Matching.Exactness

/-!
# `DoublePushout.Proofs.Matching.Renumbering`: matching in a renumbered target

The order in which a target lists its nodes and edges decides in which order matches are found,
and nothing else. `Mapping.renumber` moves a match along a renumbering of the target: each image
is renamed, and the realisations of an edge are sorted again.

* `Renumbers.edgesBetween_eq`: the edges between two nodes are renamed and sorted again. The
  ascending order of realisations is the only place where the numbering shows in a match.
* `Renumbers.embeds` and `Renumbers.full`: a moved match is a match of the renumbered target.
* `Renumbers.symm`: a renumbering can be undone, so every match of the renumbered target is a
  moved one.
* `Renumbers.bijOn_findAll`: the matches that the two searches find correspond.
-/

set_option autoImplicit false

namespace DoublePushout

/-- The mapping into a target whose nodes and edges have been
renumbered, realisations ascending. -/
def Mapping.renumber (f : NodeId → NodeId) (k : EdgeId → EdgeId) (m : Mapping) : Mapping where
  nodes := m.nodes.map f
  edges := m.edges.map fun es => (es.map k).mergeSort (· ≤ ·)

namespace Graph.Renumbers

variable {target target' pattern : Graph} {f : NodeId → NodeId} {k : EdgeId → EdgeId}
  {m : Mapping}

/-! ### Renumbered graphs -/

/-- A node is found under its new handle. -/
theorem node?_eq (h : target.Renumbers target' f k) {i : NodeId} (hi : i < target.nodes.length) :
    target'.node? (f i) = target.node? i := by
  have hn : target.node? i = some target.nodes[i] := List.getElem?_eq_getElem hi
  rw [hn, h.node_eq i _ hn]

/-- An edge is found under its new handle, between the new handles of its ends. -/
theorem edge?_eq (h : target.Renumbers target' f k) {j : EdgeId} (hj : j < target.edges.length) :
    target'.edge? (k j) = (target.edge? j).map fun e => ⟨f e.tail, f e.head, e.label⟩ := by
  have he : target.edge? j = some target.edges[j] := List.getElem?_eq_getElem hj
  rw [he, h.edge_eq j _ he]
  rfl

/-- An edge of the renumbered graph is a renumbered edge. -/
theorem exists_edge (h : target.Renumbers target' f k) {j' : EdgeId} {e' : Edge}
    (hj' : target'.edge? j' = some e') :
    ∃ j e, k j = j' ∧ target.edge? j = some e ∧ e' = ⟨f e.tail, f e.head, e.label⟩ := by
  have hlt : j' < target'.edges.length := (List.getElem?_eq_some_iff.1 hj').1
  obtain ⟨j, hj, rfl⟩ := h.edges.surjOn hlt
  have he : target.edge? j = some target.edges[j] := List.getElem?_eq_getElem hj
  exact ⟨j, _, rfl, he, Option.some.inj (hj'.symm.trans (h.edge_eq j _ he))⟩

/-- The edges of a renumbered graph end inside it. -/
theorem ends_lt (h : target.Renumbers target' f k)
    (hends : ∀ e ∈ target.edges, e.tail < target.nodes.length ∧ e.head < target.nodes.length) :
    ∀ e ∈ target'.edges, e.tail < target'.nodes.length ∧ e.head < target'.nodes.length := by
  intro e' he'
  obtain ⟨j', hj'⟩ := List.getElem?_of_mem he'
  obtain ⟨j, e, -, he, rfl⟩ := h.exists_edge hj'
  obtain ⟨htail, hhead⟩ := hends e (List.mem_of_getElem? he)
  exact ⟨h.nodes.mapsTo htail, h.nodes.mapsTo hhead⟩

/-- A renumbering can be undone. -/
theorem symm (h : target.Renumbers target' f k)
    (hends : ∀ e ∈ target.edges, e.tail < target.nodes.length ∧ e.head < target.nodes.length) :
    ∃ f' k', target'.Renumbers target f' k' ∧ Set.InvOn f' f (Set.Iio target.nodes.length)
      (Set.Iio target'.nodes.length) := by
  have hf := h.nodes.invOn_invFunOn
  have hk := h.edges.invOn_invFunOn
  refine ⟨_, _, ⟨h.nodes.symm hf.symm, h.edges.symm hk.symm, fun i' n hi' => ?_,
    fun j' e' hj' => ?_⟩, hf⟩
  · obtain ⟨i, hi, rfl⟩ := h.nodes.surjOn (List.getElem?_eq_some_iff.1 hi').1
    rw [hf.1 hi, ← h.node?_eq hi, hi']
  · obtain ⟨j, e, rfl, he, rfl⟩ := h.exists_edge hj'
    obtain ⟨htail, hhead⟩ := hends e (List.mem_of_getElem? he)
    rw [hk.1 (List.getElem?_eq_some_iff.1 he).1, hf.1 htail, hf.1 hhead, he]

/-! ### Edges between two nodes -/

/-- The edge with a new number joins the renumbered nodes when the edge joins the nodes. -/
theorem joins_iff (h : target.Renumbers target' f k) {e : Edge} {tail head : NodeId}
    (hends : e.tail < target.nodes.length ∧ e.head < target.nodes.length)
    (htail : tail < target.nodes.length) (hhead : head < target.nodes.length) :
    (⟨f e.tail, f e.head, e.label⟩ : Edge).joins (f tail) (f head) = true ↔
      e.joins tail head = true := by
  rw [Edge.joins_iff, Edge.joins_iff]
  exact and_congr (h.nodes.injOn.eq_iff hends.1 htail) (h.nodes.injOn.eq_iff hends.2 hhead)

/-- Between the new handles of two nodes are the new handles of the edges between them. -/
theorem mem_edgesBetween_iff (h : target.Renumbers target' f k)
    (hends : ∀ e ∈ target.edges, e.tail < target.nodes.length ∧ e.head < target.nodes.length)
    {tail head : NodeId} (htail : tail < target.nodes.length)
    (hhead : head < target.nodes.length) {j' : EdgeId} :
    j' ∈ target'.edgesBetween (f tail) (f head) ↔
      ∃ j ∈ target.edgesBetween tail head, k j = j' := by
  simp only [Graph.mem_edgesBetween]
  constructor
  · intro hj'
    obtain ⟨e', he', hjoins⟩ := hj'
    obtain ⟨j, e, rfl, he, rfl⟩ := h.exists_edge he'
    have hlt := hends e (List.mem_of_getElem? he)
    exact ⟨j, ⟨e, he, (h.joins_iff hlt htail hhead).1 hjoins⟩, rfl⟩
  · intro hj'
    obtain ⟨j, ⟨e, he, hjoins⟩, rfl⟩ := hj'
    have hlt := hends e (List.mem_of_getElem? he)
    exact ⟨_, h.edge_eq j e he, (h.joins_iff hlt htail hhead).2 hjoins⟩

/-- The edges between two nodes, renumbered and sorted again, are those between the renumbered
nodes. -/
theorem edgesBetween_eq (h : target.Renumbers target' f k)
    (hends : ∀ e ∈ target.edges, e.tail < target.nodes.length ∧ e.head < target.nodes.length)
    {tail head : NodeId} (htail : tail < target.nodes.length)
    (hhead : head < target.nodes.length) :
    ((target.edgesBetween tail head).map k).mergeSort (· ≤ ·) =
      target'.edgesBetween (f tail) (f head) := by
  have hnodup : ((target.edgesBetween tail head).map k).Nodup := by
    refine List.Nodup.map_on (fun i hi j hj heq => ?_) (edgesBetween_pairwise.imp Nat.ne_of_lt)
    obtain ⟨e, he, -⟩ := Graph.mem_edgesBetween.1 hi
    obtain ⟨e', he', -⟩ := Graph.mem_edgesBetween.1 hj
    exact h.edges.injOn (List.getElem?_eq_some_iff.1 he).1 (List.getElem?_eq_some_iff.1 he').1 heq
  have hperm : (((target.edgesBetween tail head).map k).mergeSort (· ≤ ·)).Perm
      (target'.edgesBetween (f tail) (f head)) := by
    refine (List.mergeSort_perm _ _).trans ((List.perm_ext_iff_of_nodup hnodup
      (edgesBetween_pairwise.imp Nat.ne_of_lt)).2 fun j' => ?_)
    rw [List.mem_map, h.mem_edgesBetween_iff hends htail hhead]
  -- Both lists ascend, so the same members come in the same order.
  have hsorted : (((target.edgesBetween tail head).map k).mergeSort (· ≤ ·)).Pairwise
      (· ≤ ·) := by
    refine (List.pairwise_mergeSort ?_ ?_ _).imp (by simp)
    · intro a b c hab hbc
      simp only [decide_eq_true_eq] at hab hbc ⊢
      exact Nat.le_trans hab hbc
    · intro a b
      simpa using Nat.le_total a b
  exact hperm.eq_of_pairwise (fun _ _ _ _ hab hba => Nat.le_antisymm hab hba) hsorted
    (edgesBetween_pairwise.imp Nat.le_of_lt)

/-! ### Matches -/

/-- The realisations of an edge are renumbered and listed in order again. -/
theorem getElem?_renumber_edges {i : EdgeId} {images : List EdgeId}
    (hi : m.edges[i]? = some images) :
    (m.renumber f k).edges[i]? = some ((images.map k).mergeSort (· ≤ ·)) := by
  rw [Mapping.renumber, List.getElem?_map, hi]
  rfl

/-- The image of a node is renumbered. -/
theorem getElem?_renumber_nodes {i n : NodeId} (hi : m.nodes[i]? = some n) :
    (m.renumber f k).nodes[i]? = some (f n) := by
  rw [Mapping.renumber, List.getElem?_map, hi]
  rfl

/-- A renumbered embedding is one in the renumbered target. -/
theorem embeds (h : target.Renumbers target' f k) (hm : m.Embeds pattern target) :
    (m.renumber f k).Embeds pattern target' where
  nodes_length := by rw [Mapping.renumber, List.length_map, hm.nodes_length]
  edges_length := by rw [Mapping.renumber, List.length_map, hm.edges_length]
  node i n hi := by
    obtain ⟨image, t, himage, ht, hadmits⟩ := hm.node i n hi
    exact ⟨f image, t, getElem?_renumber_nodes himage, h.node_eq image t ht, hadmits⟩
  edge i e hi := by
    obtain ⟨tail, head, images, hr⟩ := hm.edge i e hi
    refine ⟨f tail, f head, (images.map k).mergeSort (· ≤ ·),
      getElem?_renumber_nodes hr.tail_eq, getElem?_renumber_nodes hr.head_eq,
      getElem?_renumber_edges hr.images_eq, fun hnil => hr.ne_nil ?_, fun j' hj' => ?_⟩
    · have hlen := congrArg List.length hnil
      rw [List.length_mergeSort, List.length_map] at hlen
      exact List.length_eq_zero_iff.1 hlen
    · -- The realisations are sorted again after the renumbering, with the same members.
      obtain ⟨j, hj, rfl⟩ := List.mem_map.1 (List.mem_mergeSort.1 hj')
      obtain ⟨t, ht, hjoins⟩ := hr.joins j hj
      obtain ⟨rfl, rfl⟩ := Edge.joins_iff.1 hjoins
      exact ⟨_, h.edge_eq j t ht, Edge.joins_iff.2 ⟨rfl, rfl⟩⟩

/-- It leaves no realisation out there if it has left none out before. -/
theorem full (h : target.Renumbers target' f k)
    (hends : ∀ e ∈ target.edges, e.tail < target.nodes.length ∧ e.head < target.nodes.length)
    (hm : m.Embeds pattern target) (hfull : m.Full pattern target) :
    (m.renumber f k).Full pattern target' := by
  intro i e hi
  obtain ⟨tail, head, htail, hhead, hedge⟩ := hfull i e hi
  rw [Mapping.node_eq_ok] at htail hhead
  rw [Mapping.edge_eq_ok] at hedge
  refine ⟨f tail, f head, Mapping.node_eq_ok.2 (getElem?_renumber_nodes htail),
    Mapping.node_eq_ok.2 (getElem?_renumber_nodes hhead), Mapping.edge_eq_ok.2 ?_⟩
  rw [getElem?_renumber_edges hedge, h.edgesBetween_eq hends
    (hm.image_lt (List.mem_of_getElem? htail)) (hm.image_lt (List.mem_of_getElem? hhead))]

/-- It is injective exactly if it has been before. -/
theorem injective_iff (h : target.Renumbers target' f k) (hm : m.Embeds pattern target) :
    (m.renumber f k).Injective ↔ m.Injective := by
  constructor
  · exact fun hinj => List.Nodup.of_map f hinj
  · exact fun hinj => List.Nodup.map_on
      (fun _ hi _ hj heq => h.nodes.injOn (hm.image_lt hi) (hm.image_lt hj) heq) hinj

/-! ### All matches -/

/-- Embeddings that realise every edge in full are told apart by their nodes. -/
theorem eq_of_nodes_eq {m' : Mapping} (hm : m.Embeds pattern target)
    (hfull : m.Full pattern target) (hm' : m'.Embeds pattern target)
    (hfull' : m'.Full pattern target) (heq : m.nodes = m'.nodes) : m = m' := by
  let q : Query := { pattern, target }
  rw [Query.eq_matchAt (q := q) hm hfull, Query.eq_matchAt (q := q) hm' hfull', heq]

/-- The matches in a target and in a renumbered one correspond: the first moved are the second. -/
theorem bijOn_findAll (h : target.Renumbers target' f k)
    (hends : ∀ e ∈ target.edges, e.tail < target.nodes.length ∧ e.head < target.nodes.length)
    (hne : pattern.nodes ≠ [])
    (hclosed : ∀ e ∈ pattern.edges,
      e.tail < pattern.nodes.length ∧ e.head < pattern.nodes.length) (injective : Bool) :
    ∃ q q' ms ms', Query.of pattern target injective = .ok q ∧ q.findAll = .ok ms ∧
      Query.of pattern target' injective = .ok q' ∧ q'.findAll = .ok ms' ∧
      ms.Nodup ∧ ms'.Nodup ∧ (∀ m ∈ ms, m.Embeds pattern target) ∧
      Set.BijOn (Mapping.renumber f k) {m | m ∈ ms} {m | m ∈ ms'} := by
  obtain ⟨ms, hms, hsorted, hmem⟩ := exists_findAll target injective hne hclosed
  obtain ⟨ms', hms', hsorted', hmem'⟩ := exists_findAll target' injective hne hclosed
  have hnodup : ∀ {xs : List Mapping}, (xs.map (·.nodes)).Pairwise (· < ·) → xs.Nodup := by
    intro xs hxs
    rw [List.nodup_iff_pairwise_ne]
    refine (List.pairwise_map.1 hxs).imp ?_
    rintro a b hlt rfl
    exact List.lt_irrefl a.nodes hlt
  simp only [Mapping.validate_eq_ok_iff] at hmem hmem'
  -- The inverse renumbering carries matches back.
  obtain ⟨f', k', hback, hinv⟩ := h.symm hends
  refine ⟨_, _, ms, ms', Query.of_eq_ok hne, hms, Query.of_eq_ok hne, hms', hnodup hsorted,
    hnodup hsorted', fun m hm => ((hmem m).1 hm).1, fun m hm => ?_, fun m hm m₂ hm₂ heq => ?_,
    fun m' hm' => ?_⟩
  · obtain ⟨hembeds, hfull, hinj⟩ := (hmem m).1 hm
    exact (hmem' _).2 ⟨h.embeds hembeds, h.full hends hembeds hfull,
      fun hflag => (h.injective_iff hembeds).2 (hinj hflag)⟩
  · obtain ⟨hembeds, hfull, -⟩ := (hmem m).1 hm
    obtain ⟨hembeds₂, hfull₂, -⟩ := (hmem m₂).1 hm₂
    refine eq_of_nodes_eq hembeds hfull hembeds₂ hfull₂ ?_
    have hnodes : m.nodes.map f = m₂.nodes.map f := congrArg Mapping.nodes heq
    rw [← map_map_of_leftInvOn hinv.1 fun _ => hembeds.image_lt, hnodes,
      map_map_of_leftInvOn hinv.1 fun _ => hembeds₂.image_lt]
  · -- The match moved back is found in the target, and moving it again gives the match.
    obtain ⟨hembeds, hfull, hinj⟩ := (hmem' m').1 hm'
    have hembeds₀ := hback.embeds hembeds
    have hfull₀ := hback.full (h.ends_lt hends) hembeds hfull
    refine ⟨m'.renumber f' k', (hmem _).2 ⟨hembeds₀, hfull₀,
      fun hflag => (hback.injective_iff hembeds).2 (hinj hflag)⟩, ?_⟩
    refine eq_of_nodes_eq (h.embeds hembeds₀) (h.full hends hembeds₀ hfull₀) hembeds hfull ?_
    exact map_map_of_leftInvOn hinv.2 fun _ => hembeds.image_lt

end Graph.Renumbers

end DoublePushout
