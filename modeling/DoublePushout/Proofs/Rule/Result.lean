import DoublePushout.Proofs.Rule.Redex

/-!
# `DoublePushout.Proofs.Rule.Result`: the graph that a rewrite builds

`Rule.build` puts the result together from `Placed` nodes and looks up the ends of edges among
them. `Rule.PlacedIs` says which element a placed node is. From it follows where the ends of edges
are found (`targetCopy_eq_ok`, `rhsCopy_eq_ok`), and so that each part of the result can be built,
and lists its share of the elements.

`apply_gives` is the main statement: at a redex the rule applies, and the result has no subgraphs
and lists the elements of `Rule.plan` in the order of `Rule.nodeOrder` and `Rule.edgeOrder`.
-/

set_option autoImplicit false

namespace DoublePushout

/-! ### The last position with a property -/

section LastIndex
variable {α β : Type}

/-- The last position at which a property holds is one at which it holds. -/
theorem lastIndex?_eq_some {p : α → Bool} {xs : List α} {i : Nat} (h : lastIndex? p xs = some i) :
    ∃ x, xs[i]? = some x ∧ p x = true := by
  rw [lastIndex?, Option.map_eq_some_iff] at h
  obtain ⟨⟨x, j⟩, hlast, rfl⟩ := h
  obtain ⟨hmem, hp⟩ := List.mem_filter.1 (List.mem_of_getLast? hlast)
  exact ⟨x, List.mem_zipIdx_iff_getElem?.1 hmem, hp⟩

/-- The last index with a property is inside the list. -/
theorem lastIndex?_lt {p : α → Bool} {xs : List α} {i : Nat}
    (h : lastIndex? p xs = some i) : i < xs.length := by
  obtain ⟨x, hx, -⟩ := lastIndex?_eq_some h
  exact (List.getElem?_eq_some_iff.1 hx).1

/-- There is a last index where there is an element with the property. -/
theorem exists_lastIndex? {p : α → Bool} {xs : List α} {x : α} (hx : x ∈ xs) (hp : p x = true) :
    ∃ i, lastIndex? p xs = some i := by
  obtain ⟨i, hi⟩ := List.getElem?_of_mem hx
  have hmem : (x, i) ∈ xs.zipIdx.filter fun y => p y.1 :=
    List.mem_filter.2 ⟨List.mem_zipIdx_iff_getElem?.2 hi, hp⟩
  have hlast := List.getLast?_eq_some_getLast (List.ne_nil_of_mem hmem)
  exact ⟨_, congrArg (Option.map Prod.snd) hlast⟩

/-- In a list that is paired with keys, the last position of one key holds that key. -/
theorem lastIndex?_of_forall₂ {p : β → Bool} {a : α} {keys : List α} {xs : List β}
    (h : List.Forall₂ (fun k x => p x = true ↔ k = a) keys xs) (ha : a ∈ keys) :
    ∃ i, lastIndex? p xs = some i ∧ keys[i]? = some a := by
  -- The key's own position shows that there is a last one, which need not be the same.
  obtain ⟨j, hj⟩ := List.getElem?_of_mem ha
  obtain ⟨x, hx, hpx⟩ := forall₂_getElem? h hj
  obtain ⟨i, hi⟩ := exists_lastIndex? (List.mem_of_getElem? hx) (hpx.2 rfl)
  obtain ⟨y, hy, hpy⟩ := lastIndex?_eq_some hi
  obtain ⟨k, hk, hiff⟩ := forall₂_getElem? h.flip hy
  exact ⟨i, hi, hiff.1 hpy ▸ hk⟩

end LastIndex

namespace Rule

variable {r : Rule} {target : Graph} {m : Mapping}

/-! ### Placed nodes -/

/-- The placed node is the given element: it has the element's attributes, and it is found under
the handles of the target and of the right side that become this element. -/
structure PlacedIs (r : Rule) (target : Graph) (m : Mapping) (x : Element) (p : Placed) :
    Prop where
  /-- The attributes. -/
  node_eq : (r.plan target m).node x = some p.node
  /-- The handle in the target. -/
  ofTarget_iff : ∀ n, p.ofTarget = some n ↔ x = .kept n
  /-- The handle in the right side. -/
  ofRhs_iff : ∀ i < r.rhs.nodes.length, p.ofRhs = some i ↔ x = r.rhsElement m i

namespace Redex

/-- A node outside the match is placed as a kept one. -/
theorem placedIs_context (h : r.Redex target m) {n : Nat} {node : Node}
    (hn : target.node? n = some node) (hfree : n ∉ m.nodes) :
    r.PlacedIs target m (.kept n) { node, ofTarget := some n } where
  node_eq := hn
  ofTarget_iff := by simp
  ofRhs_iff := by
    intro i _
    rcases h.rhsElement_cases i with ⟨c, n', -, hc, heq⟩ | ⟨-, heq⟩
    · have hne : n ≠ n' := fun hsame => hfree (hsame ▸ mem_of_interfaceImage hc)
      simp [heq, hne]
    · simp [heq]

/-- A preserved node is placed as a kept one, which is also a node of the right side. -/
theorem placedIs_preserved (h : r.Redex target m) {c i n : Nat} {node : Node}
    (hi : r.toRhs.nodes[c]? = some i) (hc : r.interfaceImage m c = some n)
    (hn : target.node? n = some node) :
    r.PlacedIs target m (.kept n) { node, ofTarget := some n, ofRhs := some i } where
  node_eq := hn
  ofTarget_iff := by simp
  ofRhs_iff := by
    intro j _
    rcases h.rhsElement_cases j with ⟨c', n', hj, hc', heq⟩ | ⟨hj, heq⟩
    · rw [heq]
      constructor
      · rintro ⟨⟩
        rw [← heq, h.rhsElement_of_interface hi hc]
      · -- Another interface node with this image would break the injectivity of the match.
        rintro ⟨⟩
        obtain rfl := h.interfaceImage_inj hc hc'
        exact hi.symm.trans hj
    · have hne : i ≠ j := fun hsame => hj (hsame ▸ List.mem_of_getElem? hi)
      simp [heq, hne]

/-- A new node is placed as a created one. -/
theorem placedIs_new (h : r.Redex target m) {i : Nat} {node : Node}
    (hi : r.rhs.node? i = some node) (hnew : i ∉ r.toRhs.nodes) :
    r.PlacedIs target m (.made i) { node, ofRhs := some i } where
  node_eq := hi
  ofTarget_iff := by simp
  ofRhs_iff := by
    intro j _
    rcases h.rhsElement_cases j with ⟨c, n, hj, -, heq⟩ | ⟨-, heq⟩
    · have hne : i ≠ j := fun hsame => hnew (hsame ▸ List.mem_of_getElem? hj)
      simp [heq, hne]
    · simp [heq]

/-- The nodes outside the match are placed in the order of the target. -/
theorem contextNodes_is (h : r.Redex target m) :
    List.Forall₂ (r.PlacedIs target m) ((target.nodeIds.filter (· ∉ m.nodes)).map .kept)
      (contextNodes target m) := by
  have hcontext : contextNodes target m = (target.nodes.zipIdx.filter fun x => x.2 ∉ m.nodes).map
      fun x => { node := x.1, ofTarget := some x.2 } :=
    filterMap_ite_none _ (fun x : Node × NodeId => x.2 ∈ m.nodes) _
  rw [hcontext, Graph.nodeIds, ← map_snd_filter_zipIdx, List.map_map, List.forall₂_map_left_iff,
    List.forall₂_map_right_iff, List.forall₂_same]
  rintro ⟨node, n⟩ hmem
  obtain ⟨hn, hfree⟩ := List.mem_filter.1 hmem
  exact h.placedIs_context (List.mem_zipIdx_iff_getElem?.1 hn) (by simpa using hfree)

/-- An interface node is placed, as the target node that it is matched to. -/
theorem preservedNode_eq_ok (h : r.Redex target m) {c : Nat}
    (hc : c < r.interface.nodes.length) :
    ∃ n i node, r.interfaceImage m c = some n ∧ r.toRhs.nodes[c]? = some i ∧
      target.node? n = some node ∧
      r.preservedNode target m c = .ok { node, ofTarget := some n, ofRhs := some i } := by
  obtain ⟨n, hn⟩ := h.exists_interfaceImage hc
  obtain ⟨l, hl, hln⟩ := interfaceImage_eq_some.1 hn
  have hlen : c < r.toRhs.nodes.length := h.wellFormed.toRhs_length ▸ hc
  have hi := List.getElem?_eq_getElem hlen
  have hrhs := h.wellFormed.toRhs_lt _ (List.getElem_mem hlen)
  have hnode := List.getElem?_eq_getElem (h.image_lt (mem_of_interfaceImage hn))
  refine ⟨n, _, _, hn, hi, hnode, ?_⟩
  simp only [preservedNode, bind_eq_ok, pure_eq_ok, Mapping.node_eq_ok, Graph.node, entry_eq_ok]
  exact ⟨l, hl, n, hln, _, hnode, _, hi, _, List.getElem?_eq_getElem hrhs, rfl⟩

/-- The preserved nodes are placed in the order of the interface. -/
theorem preservedNodes_is (h : r.Redex target m) {preserved : List Placed}
    (hp : r.interface.nodeIds.mapM (r.preservedNode target m) = .ok preserved) :
    List.Forall₂ (r.PlacedIs target m)
      ((r.interface.nodeIds.filterMap (r.interfaceImage m)).map .kept) preserved := by
  rw [List.forall₂_map_left_iff]
  refine forall₂_filterMap_left (((List.forall₂_and_left _ _).2
    ⟨fun c hc => Graph.mem_nodeIds.1 hc, mapM_eq_ok.1 hp⟩).imp ?_)
  rintro c p ⟨hc, hplaced⟩
  obtain ⟨n, i, node, hn, hi, hnode, hok⟩ := h.preservedNode_eq_ok hc
  rw [hok] at hplaced
  cases hplaced
  exact ⟨n, hn, h.placedIs_preserved hi hn hnode⟩

/-- The preserved nodes realise the nodes of the right side that the interface has. -/
theorem any_preserved (h : r.Redex target m) {preserved : List Placed}
    (hp : r.interface.nodeIds.mapM (r.preservedNode target m) = .ok preserved) {i : Nat} :
    preserved.any (·.ofRhs = some i) = true ↔ i ∈ r.toRhs.nodes := by
  simp only [List.any_eq_true, mem_of_mapM_eq_ok hp, decide_eq_true_eq]
  constructor
  · -- The nodes placed for the interface are the only ones placed so far.
    rintro ⟨p, ⟨c, hc, hplaced⟩, hofRhs⟩
    obtain ⟨n, j, node, -, hj, -, hok⟩ := h.preservedNode_eq_ok (Graph.mem_nodeIds.1 hc)
    rw [hok] at hplaced
    cases hplaced
    cases hofRhs
    exact List.mem_of_getElem? hj
  · intro hi
    obtain ⟨c, hc⟩ := List.getElem?_of_mem hi
    have hlt : c < r.interface.nodes.length :=
      h.wellFormed.toRhs_length ▸ (List.getElem?_eq_some_iff.1 hc).1
    obtain ⟨n, j, node, -, hj, -, hok⟩ := h.preservedNode_eq_ok hlt
    exact ⟨_, ⟨c, Graph.mem_nodeIds.2 hlt, hok⟩, hj.symm.trans hc⟩

/-- The new nodes are placed in the order of the right side. -/
theorem newNodes_is (h : r.Redex target m) {preserved : List Placed}
    (hp : r.interface.nodeIds.mapM (r.preservedNode target m) = .ok preserved) :
    List.Forall₂ (r.PlacedIs target m) (r.createdNodes.map .made) (r.newNodes preserved) := by
  have hnew : r.newNodes preserved = (r.rhs.nodes.zipIdx.filter fun x => x.2 ∉ r.toRhs.nodes).map
      fun x => { node := x.1, ofRhs := some x.2 } := by
    rw [← filterMap_ite_none _ (fun x : Node × NodeId => x.2 ∈ r.toRhs.nodes)]
    -- The rewrite asks the placed nodes, the list of created nodes asks the interface.
    refine List.filterMap_congr fun x _ => ?_
    by_cases hx : x.2 ∈ r.toRhs.nodes
    · simp only [(h.any_preserved hp).2 hx, hx, if_true]
    · simp [mt (h.any_preserved hp).1 hx, hx]
  rw [hnew, createdNodes, Graph.nodeIds, ← map_snd_filter_zipIdx, List.map_map,
    List.forall₂_map_left_iff, List.forall₂_map_right_iff, List.forall₂_same]
  rintro ⟨node, i⟩ hmem
  obtain ⟨hi, hnew⟩ := List.mem_filter.1 hmem
  exact h.placedIs_new (List.mem_zipIdx_iff_getElem?.1 hi) (by simpa using hnew)

/-- Every node is placed, in the order of the elements. -/
theorem placedNodes_eq_ok (h : r.Redex target m) :
    ∃ placed, r.placedNodes target m = .ok placed ∧
      List.Forall₂ (r.PlacedIs target m) (r.nodeOrder target m) placed := by
  obtain ⟨preserved, hp⟩ : ∃ preserved,
      r.interface.nodeIds.mapM (r.preservedNode target m) = .ok preserved := by
    refine exists_mapM_eq_ok fun c hc => ?_
    obtain ⟨n, i, node, -, -, -, hok⟩ := h.preservedNode_eq_ok (Graph.mem_nodeIds.1 hc)
    exact ⟨_, hok⟩
  refine ⟨_, by rw [placedNodes, hp]; rfl, ?_⟩
  exact List.rel_append (List.rel_append h.contextNodes_is (h.preservedNodes_is hp))
    (h.newNodes_is hp)

end Redex

/-! ### The ends of edges -/

section Ends
variable {placed : List Placed}

/-- A target node that is kept has its copy where the result lists it. -/
theorem targetCopy_eq_ok
    (hplaced : List.Forall₂ (r.PlacedIs target m) (r.nodeOrder target m) placed) {n : Nat}
    (hn : n < target.nodes.length) (hmem : .kept n ∈ r.nodeOrder target m) :
    ∃ i, targetCopy target placed n = .ok i ∧ (r.nodeOrder target m)[i]? = some (.kept n) := by
  obtain ⟨i, hlast, hi⟩ := lastIndex?_of_forall₂ (p := (·.ofTarget = some n))
    (hplaced.imp fun x p hp => by simpa using hp.ofTarget_iff n) hmem
  refine ⟨i, bind_eq_ok.2 ⟨_, entry_of_lt hn, ?_⟩, hi⟩
  rw [hlast]

/-- A node of the right side has its copy where the result lists what it becomes. -/
theorem rhsCopy_eq_ok (hplaced : List.Forall₂ (r.PlacedIs target m) (r.nodeOrder target m) placed)
    {n : Nat} (hn : n < r.rhs.nodes.length) (hmem : r.rhsElement m n ∈ r.nodeOrder target m) :
    ∃ i, r.rhsCopy placed n = .ok i ∧ (r.nodeOrder target m)[i]? = some (r.rhsElement m n) := by
  obtain ⟨i, hlast, hi⟩ := lastIndex?_of_forall₂ (p := (·.ofRhs = some n))
    (hplaced.imp fun x p hp => by simpa using hp.ofRhs_iff n hn) hmem
  refine ⟨i, bind_eq_ok.2 ⟨_, entry_of_lt hn, ?_⟩, hi⟩
  rw [hlast]

/-- Moving an edge moves both its ends and keeps its label. -/
theorem moveEdge_eq_ok {move : NodeId → Except Fault NodeId} {e e' : Edge} :
    moveEdge move e = .ok e' ↔ ∃ tail head, move e.tail = .ok tail ∧ move e.head = .ok head ∧
      e' = ⟨tail, head, e.label⟩ := by
  simp only [moveEdge, bind_eq_ok, pure_eq_ok]
  constructor
  · rintro ⟨tail, htail, head, hhead, rfl⟩
    exact ⟨tail, head, htail, hhead, rfl⟩
  · rintro ⟨tail, head, htail, hhead, rfl⟩
    exact ⟨tail, htail, head, hhead, rfl⟩

end Ends

/-- The edge of the result is the given element: it has the element's label, and its ends are
where the result lists the element's ends. -/
def EdgeIs (r : Rule) (target : Graph) (m : Mapping) (x : Element) (e : Edge) : Prop :=
  ∃ tail head, (r.plan target m).link x = some ⟨tail, head, e.label⟩ ∧
    (r.nodeOrder target m)[e.tail]? = some tail ∧ (r.nodeOrder target m)[e.head]? = some head

namespace Redex

variable {placed : List Placed}

/-- A target edge that is not deleted finds its ends in the result. -/
theorem moveEdge_kept (h : r.Redex target m)
    (hplaced : List.Forall₂ (r.PlacedIs target m) (r.nodeOrder target m) placed) {j : EdgeId}
    {e : Edge} (hj : target.edge? j = some e) (hstays : ¬ r.DeletesEdge m j) :
    ∃ e', moveEdge (targetCopy target placed) e = .ok e' ∧ r.EdgeIs target m (.kept j) e' := by
  -- This is where the dangling condition is used.
  obtain ⟨htail, hhead⟩ := h.valid.ends_of_edge? hj
  obtain ⟨htail', hhead'⟩ := h.applicable.ends_stay j e hj hstays
  obtain ⟨tail, hokt, hatt⟩ :=
    targetCopy_eq_ok hplaced htail (h.mem_nodeOrder_kept.2 ⟨htail, htail'⟩)
  obtain ⟨head, hokh, hath⟩ :=
    targetCopy_eq_ok hplaced hhead (h.mem_nodeOrder_kept.2 ⟨hhead, hhead'⟩)
  refine ⟨_, moveEdge_eq_ok.2 ⟨tail, head, hokt, hokh, rfl⟩, _, _, ?_, hatt, hath⟩
  show (target.edge? j).map _ = _
  rw [hj]
  rfl

/-- A created edge is moved to the copies of its ends. -/
theorem moveEdge_made (h : r.Redex target m)
    (hplaced : List.Forall₂ (r.PlacedIs target m) (r.nodeOrder target m) placed) {j : EdgeId}
    {e : Edge} (hj : r.rhs.edge? j = some e) :
    ∃ e', moveEdge (r.rhsCopy placed) e = .ok e' ∧ r.EdgeIs target m (.made j) e' := by
  obtain ⟨htail, hhead⟩ := h.wellFormed.rhs_valid.ends_of_edge? hj
  obtain ⟨tail, hokt, hatt⟩ := rhsCopy_eq_ok hplaced htail (h.rhsElement_mem htail)
  obtain ⟨head, hokh, hath⟩ := rhsCopy_eq_ok hplaced hhead (h.rhsElement_mem hhead)
  refine ⟨_, moveEdge_eq_ok.2 ⟨tail, head, hokt, hokh, rfl⟩, _, _, ?_, hatt, hath⟩
  show (r.rhs.edge? j).map _ = _
  rw [hj]
  rfl

/-- A part of the edges can be built when each of its edges can, and then lists its elements. -/
theorem exists_part {α : Type} (f : α → Except Fault Edge) (key : α → Element) (xs : List α)
    (hf : ∀ x ∈ xs, ∃ e, f x = .ok e ∧ r.EdgeIs target m (key x) e) :
    ∃ es, xs.mapM f = .ok es ∧ List.Forall₂ (r.EdgeIs target m) (xs.map key) es := by
  obtain ⟨es, hes⟩ : ∃ es, xs.mapM f = .ok es :=
    exists_mapM_eq_ok fun x hx => (hf x hx).imp fun _ he => he.1
  refine ⟨es, hes, List.forall₂_map_left_iff.2 (((List.forall₂_and_left _ _).2
    ⟨fun x hx => hx, mapM_eq_ok.1 hes⟩).imp ?_)⟩
  rintro x e ⟨hx, hok⟩
  obtain ⟨e', hok', his⟩ := hf x hx
  obtain rfl : e = e' := Except.ok.inj (hok.symm.trans hok')
  exact his

/-- The edges outside the match are moved in the order of the target. -/
theorem contextEdges_is (h : r.Redex target m)
    (hplaced : List.Forall₂ (r.PlacedIs target m) (r.nodeOrder target m) placed) :
    ∃ es, contextEdges target m placed = .ok es ∧ List.Forall₂ (r.EdgeIs target m)
      ((target.edgeIds.filter (· ∉ m.edges.flatten)).map .kept) es := by
  rw [Graph.edgeIds, ← map_snd_filter_zipIdx, List.map_map]
  refine exists_part (fun x : Edge × EdgeId => moveEdge (targetCopy target placed) x.1)
    (fun x => .kept x.2) (target.edges.zipIdx.filter fun x => x.2 ∉ m.edges.flatten)
    fun x hx => ?_
  obtain ⟨hmem, hfree⟩ := List.mem_filter.1 hx
  have hnot : x.2 ∉ m.edges.flatten := by simpa using hfree
  exact h.moveEdge_kept hplaced (List.mem_zipIdx_iff_getElem?.1 hmem) fun hdel => hnot hdel.mem

/-- The realisations of the preserved edges are all there to be read. -/
theorem preservedRealisations_eq_ok (h : r.Redex target m) :
    r.preservedRealisations m = .ok (r.keptRealisations m) := by
  obtain ⟨lists, hlists⟩ : ∃ lists, r.toLhs.edges.flatten.mapM m.edge = .ok lists :=
    exists_mapM_eq_ok fun i hi => ⟨_, entry_of_lt
      (h.applicable.embeds.edges_length ▸ h.wellFormed.toLhs_edge_lt i hi)⟩
  have heq : r.toLhs.edges.flatten.filterMap (m.edges[·]?) = lists := by
    refine List.forall₂_eq_eq_eq ▸ forall₂_filterMap_left ((mapM_eq_ok.1 hlists).imp ?_)
    intro i images hok
    exact ⟨images, Mapping.edge_eq_ok.1 hok, rfl⟩
  rw [preservedRealisations, hlists, keptRealisations, heq]
  rfl

/-- The preserved edges are moved, each once, in the order in which they are first preserved. -/
theorem preservedEdges_is (h : r.Redex target m)
    (hplaced : List.Forall₂ (r.PlacedIs target m) (r.nodeOrder target m) placed) :
    ∃ es, r.preservedEdges target m placed = .ok es ∧ List.Forall₂ (r.EdgeIs target m)
      ((r.keptRealisations m).eraseDups.map .kept) es := by
  rw [preservedEdges, h.preservedRealisations_eq_ok]
  refine exists_part (fun j => do moveEdge (targetCopy target placed) (← target.edge j)) .kept _
    fun j hj => ?_
  have hkeeps := mem_keptRealisations.1 (List.mem_eraseDups.1 hj)
  have hlt := h.realisation_lt hkeeps.mem
  obtain ⟨e, hok, his⟩ := h.moveEdge_kept hplaced (List.getElem?_eq_getElem hlt)
    fun hdel => h.applicable.disjoint j hdel hkeeps
  refine ⟨e, ?_, his⟩
  rw [Graph.edge, entry_of_lt hlt]
  exact hok

/-- The new edges are moved in the order of the right side. -/
theorem newEdges_is (h : r.Redex target m)
    (hplaced : List.Forall₂ (r.PlacedIs target m) (r.nodeOrder target m) placed) :
    ∃ es, r.newEdges placed = .ok es ∧
      List.Forall₂ (r.EdgeIs target m) (r.createdEdges.map .made) es :=
  exists_part _ _ _ fun j hj => by
    have hlt := (mem_createdEdges.1 hj).1
    obtain ⟨e, hok, his⟩ := h.moveEdge_made hplaced (List.getElem?_eq_getElem hlt)
    refine ⟨e, ?_, his⟩
    rw [Graph.edge, entry_of_lt hlt]
    exact hok

/-! ### The whole result -/

/-- Building the result faults nowhere, and gives what a rewrite has to give. -/
theorem build_gives (h : r.Redex target m) :
    ∃ result, r.build target m = .ok result ∧ r.Gives target m result := by
  -- Each stage places its elements in the order in which the result lists them.
  obtain ⟨placed, hok, hplaced⟩ := h.placedNodes_eq_ok
  obtain ⟨context, hcontext, hcontextIs⟩ := h.contextEdges_is hplaced
  obtain ⟨preserved, hpreserved, hpreservedIs⟩ := h.preservedEdges_is hplaced
  obtain ⟨created, hcreated, hcreatedIs⟩ := h.newEdges_is hplaced
  refine ⟨{ nodes := placed.map (·.node), edges := context ++ preserved ++ created },
    ?_, rfl, ?_, ?_⟩
  · rw [build, hok]
    show (contextEdges target m placed >>= _) = _
    rw [hcontext]
    show (r.preservedEdges target m placed >>= _) = _
    rw [hpreserved]
    show (r.newEdges placed >>= _) = _
    rw [hcreated]
    rfl
  · exact List.forall₂_map_right_iff.2 (hplaced.imp fun _ _ hp => hp.node_eq)
  · exact List.rel_append (List.rel_append hcontextIs hpreservedIs) hcreatedIs

/-- At a redex the rule applies, and the result lists the elements of the rewrite. -/
theorem apply_gives (h : r.Redex target m) :
    ∃ result, r.apply target m = .ok result ∧ r.Gives target m result := by
  obtain ⟨result, hbuild, hgives⟩ := h.build_gives
  refine ⟨result, ?_, hgives⟩
  rw [apply, (verify_eq_ok_iff h.wellFormed).2 h.applicable, hbuild]
  rfl

end Redex

end Rule

end DoublePushout
