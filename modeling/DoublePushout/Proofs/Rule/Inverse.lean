import DoublePushout.Proofs.Rule.Comatch
import DoublePushout.Proofs.Rule.Exchange

/-!
# `DoublePushout.Proofs.Rule.Inverse`: the inverse rule undoes a rewrite

After a rewrite the right side is in the result, at the comatch, provided that paired edges agree.
There the inverse rule can be applied: what it deletes is what the rewrite created, and a created
node has created edges only (`Reversal.inverse`).

What it then gives back is the target, as far as the rule knows it. A deleted element is made
again from the left side, so its label has to be the one that it had, and an edge of the left side
is made again once, so it must have been realised once (`Rule.Reversible`).

As in `Commutation`, every handle has been moved twice, and the elements of the last graph are
traced to what they stand for. `restore` leads them back to the handles of the target, and
`Undoes` says why nothing is lost or doubled on the way, for nodes and for edges. `apply_inverse`
is the statement about `Rule.apply`.
-/

set_option autoImplicit false

namespace DoublePushout

/-- The label of a node, if there is a node with a label that counts. -/
def Graph.nodeLabel? (g : Graph) (n : NodeId) : Option String := (g.node? n).bind Node.effective

/-! ### Back to the target -/

/-- The element of the target that an element stands for after a rewrite has been undone. What is
kept is a position in what the rewrite lists, and what is made has been deleted. -/
def restore (xs : List Element) (source : Nat → Nat) : Element → Nat
  | .kept k => (xs[k]?).elim 0 fun
    | .kept n => n
    | .made _ => 0
  | .made i => source i

/-- A kept element is restored to where it was. -/
theorem restore_kept {xs : List Element} {source : Nat → Nat} {k n : Nat}
    (hk : xs[k]? = some (.kept n)) : restore xs source (.kept k) = n := by
  rw [restore, hk]
  rfl

/-- A rewrite of a target of the given size lists `xs`, without the sources of what it deletes.
Undoing it lists `ys`, without the places of what has been created. -/
structure Undoes (size : Nat) (source : Nat → Nat) (created deleted : List Nat)
    (xs ys : List Element) : Prop where
  nodup : xs.Nodup
  nodup' : ys.Nodup
  kept_iff : ∀ n, .kept n ∈ xs ↔ n < size ∧ ∀ i ∈ deleted, source i ≠ n
  made_iff : ∀ i, .made i ∈ xs ↔ i ∈ created
  kept_iff' : ∀ k, .kept k ∈ ys ↔ k < xs.length ∧ ∀ i ∈ created, xs.idxOf (.made i) ≠ k
  made_iff' : ∀ i, .made i ∈ ys ↔ i ∈ deleted
  source_lt : ∀ i ∈ deleted, source i < size
  source_inj : ∀ i ∈ deleted, ∀ i' ∈ deleted, source i = source i' → i = i'

namespace Undoes

variable {size : Nat} {source : Nat → Nat} {created deleted : List Nat} {xs ys : List Element}

/-- What is kept on the way back is what was kept on the way out. -/
theorem kept_mem_iff (h : Undoes size source created deleted xs ys) {k : Nat} :
    .kept k ∈ ys ↔ ∃ n, xs[k]? = some (.kept n) := by
  rw [h.kept_iff']
  constructor
  · rintro ⟨hlt, hstays⟩
    have hx := List.getElem?_eq_getElem hlt
    -- What the first rule kept stays; what it made is deleted by the inverse rule.
    cases hkey : xs[k] with
    | kept n => exact ⟨n, hkey ▸ hx⟩
    | made i =>
      rw [hkey] at hx
      exact absurd (idxOf_eq h.nodup hx) (hstays i ((h.made_iff i).1 (List.mem_of_getElem? hx)))
  · rintro ⟨n, hn⟩
    refine ⟨(List.getElem?_eq_some_iff.1 hn).1, fun i hi heq => ?_⟩
    have hmade := getElem?_idxOf ((h.made_iff i).2 hi)
    rw [heq, hn] at hmade
    cases hmade

/-- What is made on the way back is not what was kept on the way out. -/
theorem source_ne (h : Undoes size source created deleted xs ys) {i k n : Nat}
    (hi : i ∈ deleted) (hk : xs[k]? = some (.kept n)) : source i ≠ n :=
  ((h.kept_iff n).1 (List.mem_of_getElem? hk)).2 i hi

/-- Different elements on the way back stand for different elements of the target. -/
theorem restore_inj (h : Undoes size source created deleted xs ys) {y z : Element} (hy : y ∈ ys)
    (hz : z ∈ ys) (heq : restore xs source y = restore xs source z) : y = z := by
  -- Two kept elements come from different ones of the target, and so do two that are made again;
  -- no source of the latter was kept.
  cases y with
  | kept k =>
    obtain ⟨n, hn⟩ := h.kept_mem_iff.1 hy
    rw [restore_kept hn] at heq
    cases z with
    | kept k' =>
      obtain ⟨n', hn'⟩ := h.kept_mem_iff.1 hz
      rw [restore_kept hn'] at heq
      subst heq
      rw [eq_of_getElem?_eq h.nodup hn hn']
    | made i => exact absurd heq.symm (h.source_ne ((h.made_iff' i).1 hz) hn)
  | made i =>
    have hi := (h.made_iff' i).1 hy
    cases z with
    | kept k =>
      obtain ⟨n, hn⟩ := h.kept_mem_iff.1 hz
      rw [restore_kept hn] at heq
      exact absurd heq (h.source_ne hi hn)
    | made i' => exact congrArg _ (h.source_inj i hi i' ((h.made_iff' i').1 hz) heq)

/-- What is listed on the way back stands for the elements of the target. -/
theorem mem_map_restore (h : Undoes size source created deleted xs ys) {n : Nat} :
    n ∈ ys.map (restore xs source) ↔ n < size := by
  rw [List.mem_map]
  constructor
  · rintro ⟨y, hy, rfl⟩
    cases y with
    | kept k =>
      obtain ⟨n, hn⟩ := h.kept_mem_iff.1 hy
      rw [restore_kept hn]
      exact ((h.kept_iff n).1 (List.mem_of_getElem? hn)).1
    | made i => exact h.source_lt i ((h.made_iff' i).1 hy)
  · intro hlt
    -- An element of the target is deleted, or it is kept and has a position.
    by_cases hdel : ∃ i ∈ deleted, source i = n
    · obtain ⟨i, hi, heq⟩ := hdel
      exact ⟨.made i, (h.made_iff' i).2 hi, heq⟩
    · have hmem : .kept n ∈ xs := (h.kept_iff n).2 ⟨hlt, fun i hi heq => hdel ⟨i, hi, heq⟩⟩
      have hat := getElem?_idxOf hmem
      exact ⟨.kept (xs.idxOf (.kept n)), h.kept_mem_iff.2 ⟨n, hat⟩, restore_kept hat⟩

/-- What is listed on the way back stands for each element of the target once. -/
theorem map_restore_perm (h : Undoes size source created deleted xs ys) :
    (ys.map (restore xs source)).Perm (List.range size) := by
  have hnodup : (ys.map (restore xs source)).Nodup :=
    h.nodup'.map_on fun _ hy _ hz heq => h.restore_inj hy hz heq
  refine (List.perm_ext_iff_of_nodup hnodup List.nodup_range).2 fun n => ?_
  rw [h.mem_map_restore, List.mem_range]

end Undoes

namespace Rule

/-- A rewrite forgets nothing but names: a deleted node has the label of the node that it is
matched to, and a deleted edge is realised by one edge, which has its label and realises no other
deleted edge. -/
structure Reversible (r : Rule) (target : Graph) (m : Mapping) : Prop where
  node : ∀ i ∈ r.deletedNodes, ∀ n ∈ m.nodes[i]?, target.nodeLabel? n = r.lhs.nodeLabel? i
  edge : ∀ i ∈ r.deletedEdges, ∀ images ∈ m.edges[i]?, ∀ k ∈ images,
    target.edgeLabel? k = r.lhs.edgeLabel? i
  edge_once : ∀ i ∈ r.deletedEdges, ∀ images ∈ m.edges[i]?, ∀ k ∈ images, ∀ k' ∈ images, k = k'
  edge_inj : ∀ i ∈ r.deletedEdges, ∀ i' ∈ r.deletedEdges, ∀ images ∈ m.edges[i]?,
    ∀ images' ∈ m.edges[i']?, ∀ k ∈ images, k ∈ images' → i = i'

/-- The target node that a node of the left side is matched to. -/
def nodeSource (m : Mapping) (i : NodeId) : NodeId := (m.nodes[i]?).getD 0

/-- A target edge that realises an edge of the left side. -/
def edgeSource (m : Mapping) (i : EdgeId) : EdgeId := ((m.edges[i]?).bind List.head?).getD 0

variable {r s : Rule} {target result : Graph} {m : Mapping}

/-- A node that was matched is restored from its image. -/
theorem nodeSource_eq {i n : NodeId} (hi : m.nodes[i]? = some n) : nodeSource m i = n := by
  rw [nodeSource, hi]
  rfl

namespace Redex

/-- The image of a node of the left side. -/
theorem exists_image (h : r.Redex target m) {i : NodeId} (hi : i < r.lhs.nodes.length) :
    ∃ n t, m.nodes[i]? = some n ∧ target.node? n = some t := by
  obtain ⟨n, t, hn, ht, -⟩ := h.applicable.embeds.node i _ (List.getElem?_eq_getElem hi)
  exact ⟨n, t, hn, ht⟩

/-- The rule deletes exactly the images from which deleted nodes are restored. -/
theorem deletesNode_iff (h : r.Redex target m) {n : NodeId} :
    r.DeletesNode m n ↔ ∃ i ∈ r.deletedNodes, nodeSource m i = n := by
  refine exists_congr fun i => and_congr_right fun hi => ?_
  obtain ⟨n', t, hn', -⟩ := h.exists_image (mem_deletedNodes.1 hi).1
  rw [nodeSource_eq hn', hn', Option.some.injEq]

/-- An edge that was matched is restored from one of its realisations. -/
theorem edgeSource_mem (h : r.Redex target m) {i : EdgeId} (hi : i < r.lhs.edges.length) :
    ∃ e tail head images, r.lhs.edge? i = some e ∧ m.Realises target e i tail head images ∧
      edgeSource m i ∈ images := by
  obtain ⟨e, tail, head, images, he, hr⟩ := h.exists_images hi
  refine ⟨e, tail, head, images, he, hr, ?_⟩
  rw [edgeSource, hr.images_eq, Option.bind_some]
  cases images with
  | nil => exact absurd rfl hr.ne_nil
  | cons k ks => exact List.mem_cons_self

/-- A rewrite that forgets nothing but names deletes exactly the edges from which deleted ones are
restored. -/
theorem deletesEdge_iff (h : r.Redex target m) (hrev : r.Reversible target m) {k : EdgeId} :
    r.DeletesEdge m k ↔ ∃ i ∈ r.deletedEdges, edgeSource m i = k := by
  refine exists_congr fun i => and_congr_right fun hi => ?_
  obtain ⟨e, tail, head, images, -, hr, hmem⟩ := h.edgeSource_mem (mem_deletedEdges.1 hi).1
  constructor
  · rintro ⟨images', himages', hk⟩
    cases hr.images_eq.symm.trans himages'
    exact hrev.edge_once i hi images himages' _ hmem k hk
  · rintro rfl
    exact ⟨images, hr.images_eq, hmem⟩

end Redex

/-- A rewrite with a rule whose paired edges agree, and a rule that inverts it. -/
structure Reversal (r s : Rule) (target result : Graph) (m : Mapping) : Prop where
  redex : r.Redex target m
  balanced : r.Balanced
  agree : r.PairsAgree
  inverts : s.Inverts r
  wellFormed : s.WellFormed
  gives : r.Gives target m result

namespace Reversal

/-! ### What the inverse rule deletes and keeps -/

/-- The inverse rule deletes the created nodes. -/
theorem deletesNode_iff (h : Reversal r s target result m) {k : NodeId} :
    s.DeletesNode (r.comatch target m) k ↔
      ∃ i ∈ r.createdNodes, r.nodePosition target m (.made i) = k := by
  rw [DeletesNode, h.inverts.deletedNodes]
  refine exists_congr fun i => and_congr_right fun hi => ?_
  rw [(h.redex.comatches h.balanced).created_node i hi, Option.some.injEq]

/-- The inverse rule deletes the created edges. -/
theorem deletesEdge_iff (h : Reversal r s target result m) {k : EdgeId} :
    s.DeletesEdge (r.comatch target m) k ↔
      ∃ j ∈ r.createdEdges, r.edgePosition target m (.made j) = k := by
  rw [DeletesEdge, h.inverts.deletedEdges]
  refine exists_congr fun j => and_congr_right fun hj => ?_
  simp [(h.redex.comatches h.balanced).created_edge j hj, eq_comm]

/-- The inverse rule keeps copies of edges that the rewrite has kept. -/
theorem kept_of_keepsEdge (h : Reversal r s target result m) {k : EdgeId}
    (hk : s.KeepsEdge (r.comatch target m) k) :
    ∃ e, (r.edgeOrder target m)[k]? = some (.kept e) := by
  obtain ⟨j, hj, images, himages, hmem⟩ := hk
  obtain ⟨i, hp⟩ := h.balanced.exists_pairs_right ((h.inverts.mem_toLhs_edges j).1 hj)
  obtain ⟨hilt, hjlt⟩ := h.balanced.pair_lt i j hp
  obtain ⟨e, tail, head, images', -, hr⟩ := h.redex.exists_images hilt
  rw [comatch_edges hjlt, rhsRealisations_of_pairs h.balanced hp hr.images_eq] at himages
  obtain rfl := Option.some.inj himages
  obtain ⟨x, hx, rfl⟩ := List.mem_map.1 hmem
  obtain ⟨e', he', rfl⟩ := List.mem_map.1 hx
  exact ⟨e', getElem?_idxOf (h.redex.mem_edgeOrder_of_pairs hp hr.images_eq he')⟩

/-- An edge of the result that the inverse rule does not delete was kept, and so were its ends. -/
theorem kept_of_not_deletesEdge (h : Reversal r s target result m) {k : EdgeId} {e : Edge}
    (hk : result.edge? k = some e) (hstays : ¬ s.DeletesEdge (r.comatch target m) k) :
    ∃ j t, (r.edgeOrder target m)[k]? = some (.kept j) ∧ target.edge? j = some t ∧
      (r.nodeOrder target m)[e.tail]? = some (.kept t.tail) ∧
      (r.nodeOrder target m)[e.head]? = some (.kept t.head) ∧ t.label = e.label := by
  rcases h.gives.edge_cases hk with hkept | ⟨j, f, hx, -⟩
  · exact hkept
  · have hj : j ∈ r.createdEdges := Redex.mem_edgeOrder_made.1 (List.mem_of_getElem? hx)
    exact absurd (h.deletesEdge_iff.2 ⟨j, hj, idxOf_eq Redex.edgeOrder_nodup hx⟩) hstays

/-- What stands where a node was kept is not deleted by the inverse rule. -/
theorem not_deletesNode (h : Reversal r s target result m) {k n : NodeId}
    (hk : (r.nodeOrder target m)[k]? = some (.kept n)) :
    ¬ s.DeletesNode (r.comatch target m) k := by
  intro hdel
  obtain ⟨i, hi, rfl⟩ := h.deletesNode_iff.1 hdel
  have hmem : .made i ∈ r.nodeOrder target m := Redex.mem_nodeOrder_made.2 hi
  cases hk.symm.trans (getElem?_idxOf hmem)

/-- The inverse rule can be applied in the result, at the comatch. -/
theorem inverse (h : Reversal r s target result m) : s.Redex result (r.comatch target m) where
  wellFormed := h.wellFormed
  valid := h.gives.valid
  applicable := {
    embeds := h.inverts.lhs_eq ▸ (h.redex.comatch_embeds_iff h.balanced h.gives).2 h.agree
    injective := h.redex.comatch_injective
    -- What the inverse rule deletes was made, and what it keeps was kept.
    disjoint := by
      intro k hdel hkeeps
      obtain ⟨j, hj, rfl⟩ := h.deletesEdge_iff.1 hdel
      obtain ⟨e, he⟩ := h.kept_of_keepsEdge hkeeps
      have hmem : .made j ∈ r.edgeOrder target m := Redex.mem_edgeOrder_made.2 hj
      cases he.symm.trans (getElem?_idxOf hmem)
    ends_stay := by
      intro k e hk hstays
      obtain ⟨j, t, -, -, htail, hhead, -⟩ := h.kept_of_not_deletesEdge hk hstays
      exact ⟨h.not_deletesNode htail, h.not_deletesNode hhead⟩ }

/-! ### What undoing the rewrite lists -/

/-- Undoing the rewrite lists each node of the target once. -/
theorem undoes_nodes (h : Reversal r s target result m) :
    Undoes target.nodes.length (nodeSource m) r.createdNodes r.deletedNodes
      (r.nodeOrder target m) (s.nodeOrder result (r.comatch target m)) where
  nodup := h.redex.nodeOrder_nodup
  nodup' := h.inverse.nodeOrder_nodup
  kept_iff n := by
    rw [h.redex.mem_nodeOrder_kept, h.redex.deletesNode_iff]
    simp
  made_iff _ := Redex.mem_nodeOrder_made
  kept_iff' k := by
    rw [h.inverse.mem_nodeOrder_kept, h.gives.lists.length_nodes, h.deletesNode_iff]
    simp [nodePosition]
  made_iff' i := by rw [Redex.mem_nodeOrder_made, h.inverts.createdNodes]
  source_lt i hi := by
    obtain ⟨n, t, hn, ht⟩ := h.redex.exists_image (mem_deletedNodes.1 hi).1
    rw [nodeSource_eq hn]
    exact (List.getElem?_eq_some_iff.1 ht).1
  source_inj i hi i' hi' heq := by
    obtain ⟨n, t, hn, -⟩ := h.redex.exists_image (mem_deletedNodes.1 hi).1
    obtain ⟨n', t', hn', -⟩ := h.redex.exists_image (mem_deletedNodes.1 hi').1
    rw [nodeSource_eq hn, nodeSource_eq hn'] at heq
    subst heq
    exact eq_of_getElem?_eq h.redex.applicable.injective hn hn'

/-- Undoing the rewrite lists each edge of the target once. -/
theorem undoes_edges (h : Reversal r s target result m) (hrev : r.Reversible target m) :
    Undoes target.edges.length (edgeSource m) r.createdEdges r.deletedEdges
      (r.edgeOrder target m) (s.edgeOrder result (r.comatch target m)) where
  nodup := Redex.edgeOrder_nodup
  nodup' := Redex.edgeOrder_nodup
  kept_iff k := by
    rw [h.redex.mem_edgeOrder_kept, h.redex.deletesEdge_iff hrev]
    simp
  made_iff _ := Redex.mem_edgeOrder_made
  kept_iff' k := by
    rw [h.inverse.mem_edgeOrder_kept, h.gives.lists.length_edges, h.deletesEdge_iff]
    simp [edgePosition]
  made_iff' i := by rw [Redex.mem_edgeOrder_made, h.inverts.createdEdges]
  source_lt i hi := by
    obtain ⟨e, tail, head, images, -, hr, hmem⟩ :=
      h.redex.edgeSource_mem (mem_deletedEdges.1 hi).1
    exact h.redex.realisation_lt (Mapping.mem_flatten_edges hr.images_eq hmem)
  source_inj i hi i' hi' heq := by
    obtain ⟨e, tail, head, images, -, hr, hmem⟩ :=
      h.redex.edgeSource_mem (mem_deletedEdges.1 hi).1
    obtain ⟨e', tail', head', images', -, hr', hmem'⟩ :=
      h.redex.edgeSource_mem (mem_deletedEdges.1 hi').1
    -- A reversible match gives no two deleted edges a realisation in common.
    exact hrev.edge_inj i hi i' hi' images hr.images_eq images' hr'.images_eq _ hmem (heq ▸ hmem')

/-! ### The last graph -/

/-- What a node of the left side becomes on the way back stands for what it was matched to. -/
theorem restore_rhsElement (h : Reversal r s target result m) {l n : NodeId}
    (hl : m.nodes[l]? = some n) :
    restore (r.nodeOrder target m) (nodeSource m) (s.rhsElement (r.comatch target m) l) = n := by
  rcases h.inverse.rhsElement_cases l with ⟨c, k, hc, hk, heq⟩ | ⟨-, heq⟩
  · rw [heq]
    obtain ⟨i, hi, hik⟩ := interfaceImage_eq_some.1 hk
    rw [h.inverts.toLhs_nodes] at hi
    rw [h.inverts.toRhs_nodes] at hc
    have hlt : i < r.rhs.nodes.length := h.balanced.toRhs_lt i (List.mem_of_getElem? hi)
    -- The two nodes are shared, so the comatch goes to the copy of what was matched.
    have hkept := (h.redex.rhsElement_eq_kept_iff hl).2 ⟨c, hc, hi⟩
    have hmem := h.redex.rhsElement_mem hlt
    rw [comatch_nodes hlt, hkept] at hik
    rw [hkept] at hmem
    obtain rfl := Option.some.inj hik
    exact restore_kept (getElem?_idxOf hmem)
  · rw [heq]
    exact nodeSource_eq hl

/-- A node of the last graph looks like the node of the target that it stands for. -/
theorem plain_node_restore (h : Reversal r s target result m) (hrev : r.Reversible target m)
    {y : Element} (hy : y ∈ s.nodeOrder result (r.comatch target m)) :
    target.ownPlan.plain.node (restore (r.nodeOrder target m) (nodeSource m) y) =
      (s.plan result (r.comatch target m)).plain.node y := by
  cases y with
  | kept k =>
    obtain ⟨n, hn⟩ := h.undoes_nodes.kept_mem_iff.1 hy
    obtain ⟨node, hnode, hplan⟩ := h.gives.lists.node_at hn
    have htarget : target.node? n = some node := hplan
    show (target.node? _).map _ = (result.node? k).map _
    rw [restore_kept hn, htarget, hnode]
  | made i =>
    -- The node is made from the left side, which has the label that the target node had.
    rw [Redex.mem_nodeOrder_made, h.inverts.createdNodes] at hy
    obtain ⟨hlt, -⟩ := mem_deletedNodes.1 hy
    obtain ⟨n, t, hn, ht⟩ := h.redex.exists_image hlt
    have hi : r.lhs.node? i = some _ := List.getElem?_eq_getElem hlt
    have hlabel := hrev.node i hy n hn
    rw [Graph.nodeLabel?, Graph.nodeLabel?, ht, hi] at hlabel
    show (target.node? (nodeSource m i)).map _ = (s.rhs.node? i).map _
    rw [nodeSource_eq hn, h.inverts.rhs_eq, ht, hi]
    exact congrArg (fun label => some (⟨"", label⟩ : Node)) hlabel

/-- An edge of the last graph looks like the edge of the target that it stands for, and so do its
ends. -/
theorem plain_link_restore (h : Reversal r s target result m) (hrev : r.Reversible target m)
    {y : Element} (hy : y ∈ s.edgeOrder result (r.comatch target m)) :
    target.ownPlan.plain.link (restore (r.edgeOrder target m) (edgeSource m) y) =
      ((s.plan result (r.comatch target m)).plain.link y).map
        (Link.map (restore (r.nodeOrder target m) (nodeSource m))) := by
  cases y with
  | kept k =>
    obtain ⟨hlt, hstays⟩ := h.inverse.mem_edgeOrder_kept.1 hy
    have hk : result.edge? k = some _ := List.getElem?_eq_getElem hlt
    obtain ⟨j, t, hj, ht, htail, hhead, hlabel⟩ := h.kept_of_not_deletesEdge hk hstays
    -- The ends in the plan are positions in the result, where the ends of the target edge stand.
    show ((target.edge? _).map _).map _ = (((result.edge? k).map _).map _).map _
    rw [restore_kept hj, ht, hk]
    simp only [Option.map_some, Link.map, restore_kept htail, restore_kept hhead, hlabel]
  | made i =>
    rw [Redex.mem_edgeOrder_made, h.inverts.createdEdges] at hy
    obtain ⟨e, tail, head, images, he, hr, hmem⟩ :=
      h.redex.edgeSource_mem (mem_deletedEdges.1 hy).1
    obtain ⟨t, ht, hjoins⟩ := hr.joins _ hmem
    obtain ⟨rfl, rfl⟩ := Edge.joins_iff.1 hjoins
    have hlabel := hrev.edge i hy images hr.images_eq _ hmem
    rw [Graph.edgeLabel?, Graph.edgeLabel?, ht, he] at hlabel
    have hlabel' : effective t.label = effective e.label := hlabel
    show ((target.edge? (edgeSource m i)).map _).map _ = (((s.rhs.edge? i).map _).map _).map _
    rw [h.inverts.rhs_eq, ht, he]
    simp only [Option.map_some, Link.map, h.restore_rhsElement hr.tail_eq,
      h.restore_rhsElement hr.head_eq, hlabel']

/-- What the inverse rule gives looks like the target. -/
theorem alike (h : Reversal r s target result m) (hrev : r.Reversible target m) {last : Graph}
    (hlast : s.Gives result (r.comatch target m) last) : last.Alike target := by
  have hnodes := h.undoes_nodes.map_restore_perm
  have hedges := (h.undoes_edges hrev).map_restore_perm
  have hlists := hlast.lists.plain.rekey _ _ (fun y hy => h.plain_node_restore hrev hy)
    (fun y hy => h.plain_link_restore hrev hy)
  -- Both graphs list the handles of the target, each once.
  exact Graph.isomorphic_of_perm hlists (Graph.lists_ownPlan h.redex.valid.ends_lt).plain
    hnodes hedges (hnodes.nodup_iff.2 List.nodup_range) (hedges.nodup_iff.2 List.nodup_range)

end Reversal

/-- The inverse rule undoes a rewrite: if the pairs of a derived rule keep their ends, and the
rewrite forgets nothing but names, then the rule derived with the marks exchanged is accepted in
the result, at the comatch, and gives the target back, up to the order of nodes and edges. -/
theorem apply_inverse {g : Graph} {d : DerivedRule} {target : Graph} {m : Mapping}
    (hd : g.toRule = .ok d) (hends : d.KeepsEnds g) (ht : target.validate = .ok ())
    (hm : d.rule.verify target m = .ok ()) (hrev : d.rule.Reversible target m) :
    ∃ inv result last, g.exchanged.toRule = .ok inv ∧ d.rule.apply target m = .ok result ∧
      d.rule.Rewrites target m result ∧ d.rule.Comatches target m (d.rule.comatch target m) ∧
      inv.rule.verify result (d.rule.comatch target m) = .ok () ∧
      inv.rule.apply result (d.rule.comatch target m) = .ok last ∧ last.Alike target := by
  have hredex := redex_of_verify hd ht hm
  obtain ⟨hb, hagree⟩ := Graph.toRule_balanced hd
  -- Exchanging the marks exchanges the sides of the rule.
  obtain ⟨inv, hinv, hinverts⟩ := Graph.toRule_exchanged hd
  obtain ⟨result, hresult, hgives⟩ := hredex.apply_gives
  have hr := Graph.toRule_wellFormed hinv
  have hback : Reversal d.rule inv.rule target result m :=
    ⟨hredex, hb, hagree.1 hends, hinverts, hr, hgives⟩
  obtain ⟨last, hlast, hgives'⟩ := hback.inverse.apply_gives
  exact ⟨inv, result, last, hinv, hresult, hredex.rewrites_of_gives hgives, hredex.comatches hb,
    (verify_eq_ok_iff hr).2 hback.inverse.applicable, hlast, hback.alike hrev hgives'⟩

/-- Replacing a node is undone, loops and all. -/
theorem apply_inverse_replace :
    replaceGraph.toRule = .ok replaceRule ∧ replaceRule.KeepsEnds replaceGraph ∧
    replaceTarget.validate = .ok () ∧
    replaceRule.rule.verify replaceTarget replaceMatch = .ok () ∧
    replaceRule.rule.Reversible replaceTarget replaceMatch ∧
    ∃ inv result last, replaceGraph.exchanged.toRule = .ok inv ∧
      replaceRule.rule.apply replaceTarget replaceMatch = .ok result ∧
      replaceRule.rule.Rewrites replaceTarget replaceMatch result ∧
      replaceRule.rule.Comatches replaceTarget replaceMatch
        (replaceRule.rule.comatch replaceTarget replaceMatch) ∧
      inv.rule.verify result (replaceRule.rule.comatch replaceTarget replaceMatch) = .ok () ∧
      inv.rule.apply result (replaceRule.rule.comatch replaceTarget replaceMatch) = .ok last ∧
      last.Alike replaceTarget :=
  have hd : replaceGraph.toRule = .ok replaceRule := by decide +kernel
  have hends : replaceRule.KeepsEnds replaceGraph := by
    intro c hc
    -- There is one interface edge.
    obtain rfl : c = 0 := Nat.lt_one_iff.1 hc
    exact ⟨0, 0, 0, 1, _, _, rfl, rfl, rfl, rfl, rfl, rfl, rfl, rfl⟩
  have ht : replaceTarget.validate = .ok () := by decide
  have hm : replaceRule.rule.verify replaceTarget replaceMatch = .ok () := by decide +kernel
  have hrev : replaceRule.rule.Reversible replaceTarget replaceMatch :=
    ⟨by decide, by decide, by decide, by decide⟩
  ⟨hd, hends, ht, hm, hrev, apply_inverse hd hends ht hm hrev⟩

end Rule

end DoublePushout
