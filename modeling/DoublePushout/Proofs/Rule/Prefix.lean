import DoublePushout.Proofs.Rule.Derivation

/-!
# `DoublePushout.Proofs.Rule.Prefix`: the first elements of an annotation

A pass over an annotated graph has seen the elements below some handle. They are an annotation of
their own, `Annotated.below`, of the same graph. Its sides grow at their end: the next element of
a side comes after all that are there, and it gets the next handle (`nodesOf_below_succ`,
`localNode_below_self`, `edges_belowEdge_succ`). What is there already keeps its handle
(`localNode_below_succ`). In the end the whole annotation is there (`Within.belowEdge_length`).

The nodes come before the edges. So `below k 0` is where a pass stands among the nodes, and
`belowEdge j` where it stands among the edges.
-/

set_option autoImplicit false

namespace DoublePushout

/-! ### Sets -/

namespace IdSet

variable {s : IdSet} {k n : Nat}

/-- The members below a bound. -/
def below (s : IdSet) (k : Nat) : IdSet where
  toList := s.toList.filter (· < k)
  ascending := s.ascending.filter _

/-- The members below a bound are those members that are less. -/
theorem mem_below : n ∈ s.below k ↔ n ∈ s ∧ n < k := by
  rw [← mem_toList, below, List.mem_filter, mem_toList, decide_eq_true_iff]

/-- No member is below zero. -/
theorem toList_below_zero (s : IdSet) : (s.below 0).toList = [] := by
  simp [below]

/-- Below a bound of all members is the whole set. -/
theorem below_eq_self (h : ∀ n ∈ s, n < k) : s.below k = s :=
  IdSet.ext (List.filter_eq_self.2 fun n hn => decide_eq_true (h n hn))

/-- Raising the bound past a number that is no member adds nothing. -/
theorem below_succ_of_not_mem (h : k ∉ s) : s.below (k + 1) = s.below k := by
  refine IdSet.ext (eq_of_ascending (s.below _).ascending (s.below _).ascending fun n => ?_)
  rw [mem_toList, mem_toList, mem_below, mem_below, Nat.lt_succ_iff_lt_or_eq]
  constructor
  · intro hn
    rcases hn with ⟨hn, hlt | rfl⟩
    · exact ⟨hn, hlt⟩
    · exact absurd hn h
  · exact fun hn => ⟨hn.1, .inl hn.2⟩

/-- A member comes after all members below it. -/
theorem toList_below_succ (h : k ∈ s) : (s.below (k + 1)).toList = (s.below k).toList ++ [k] := by
  -- Both lists ascend, so it is enough that they have the same members.
  have hascending : ((s.below k).toList ++ [k]).Pairwise (· < ·) := by
    refine List.pairwise_append.2 ⟨(s.below k).ascending, List.pairwise_singleton _ _, ?_⟩
    intro n hn m hm
    rw [List.mem_singleton.1 hm]
    exact (mem_below.1 hn).2
  refine eq_of_ascending (s.below _).ascending hascending fun n => ?_
  rw [List.mem_append, List.mem_singleton, mem_toList, mem_toList, mem_below, mem_below,
    Nat.lt_succ_iff_lt_or_eq]
  constructor
  · intro hn
    exact hn.2.imp (fun hlt => ⟨hn.1, hlt⟩) id
  · intro hn
    rcases hn with hn | rfl
    · exact ⟨hn.1, .inl hn.2⟩
    · exact ⟨h, .inr rfl⟩

end IdSet

namespace Annotated

variable {a : Annotated} {side : Side} {k n : NodeId} {j : EdgeId} {e : Edge}

/-! ### Among the nodes -/

/-- The annotation of the elements below two handles. -/
def below (a : Annotated) (k : NodeId) (j : EdgeId) : Annotated where
  graph := a.graph
  lhs := { a.lhs with nodes := a.lhs.nodes.below k, edges := a.lhs.edges.below j }
  rhs := { a.rhs with nodes := a.rhs.nodes.below k, edges := a.rhs.edges.below j }

/-- The part of a side below two handles has the members below them. -/
theorem part_below (a : Annotated) (k : NodeId) (j : EdgeId) (side : Side) :
    (a.below k j).part side =
      { a.part side with
        nodes := (a.part side).nodes.below k
        edges := (a.part side).edges.below j } := by
  cases side with
  | lhs => rfl
  | rhs => rfl

/-- Its nodes are listed up to the bound. -/
theorem nodesOf_below (k : NodeId) (j : EdgeId) (side : Side) :
    (a.below k j).nodesOf side = ((a.part side).nodes.below k).toList := by
  rw [nodesOf, part_below]

/-- Its edges are listed up to the bound. -/
theorem edgesOf_below (k : NodeId) (j : EdgeId) (side : Side) :
    (a.below k j).edgesOf side = ((a.part side).edges.below j).toList := by
  rw [edgesOf, part_below]

/-- A node is below the bound on a side exactly if it is on the side and less. -/
theorem mem_nodes_below :
    n ∈ ((a.below k j).part side).nodes ↔ n ∈ (a.part side).nodes ∧ n < k := by
  rw [part_below]
  exact IdSet.mem_below

/-- The next node of a side comes after the nodes below it. -/
theorem nodesOf_below_succ (hk : k ∈ (a.part side).nodes) :
    (a.below (k + 1) 0).nodesOf side = (a.below k 0).nodesOf side ++ [k] := by
  rw [nodesOf_below, nodesOf_below, IdSet.toList_below_succ hk]

/-- A node that is on a side by now keeps its handle there. -/
theorem localNode_below_succ (hn : n ∈ ((a.below k 0).part side).nodes) :
    (a.below (k + 1) 0).localNode side n = (a.below k 0).localNode side n := by
  by_cases hk : k ∈ (a.part side).nodes
  · -- The node stands in the part of the list that is there already.
    rw [localNode, nodesOf_below_succ hk]
    exact List.idxOf_append_of_mem hn
  · rw [localNode, nodesOf_below, IdSet.below_succ_of_not_mem hk, ← nodesOf_below k 0 side]
    rfl

/-- The next node gets the next handle. -/
theorem localNode_below_self (hk : k ∈ (a.part side).nodes) :
    (a.below (k + 1) 0).localNode side k = ((a.below k 0).nodesOf side).length := by
  have hnot : k ∉ (a.below k 0).nodesOf side := by
    rw [nodesOf_below, IdSet.mem_toList, IdSet.mem_below]
    exact fun h => Nat.lt_irrefl k h.2
  rw [localNode, nodesOf_below_succ hk, List.idxOf_append_of_notMem hnot, List.idxOf_cons_self,
    Nat.add_zero]

/-- The set of the nodes that are on both sides. -/
def shared (a : Annotated) : IdSet where
  toList := a.sharedNodes
  ascending := a.lhs.nodes.ascending.filter _

/-- A node is in the shared set exactly if it is on both sides. -/
theorem mem_shared : n ∈ a.shared ↔ n ∈ a.lhs.nodes ∧ n ∈ a.rhs.nodes :=
  mem_sharedNodes

/-- The shared nodes are listed up to the bound. -/
theorem sharedNodes_below (a : Annotated) (k : NodeId) (j : EdgeId) :
    (a.below k j).sharedNodes = (a.shared.below k).toList := by
  refine eq_of_ascending (a.below k j).shared.ascending (a.shared.below k).ascending fun n => ?_
  rw [mem_sharedNodes, mem_nodes_below, mem_nodes_below, IdSet.mem_toList, IdSet.mem_below,
    mem_shared]
  exact and_and_and_comm.symm.trans (and_congr_right fun _ => and_self_iff)

/-- What is there of the interface stays as it is when the next node is looked at. -/
theorem map_localNode_below_succ (a : Annotated) (k : NodeId) (side : Side) :
    (a.below k 0).sharedNodes.map ((a.below (k + 1) 0).localNode side) =
      (a.below k 0).sharedNodes.map ((a.below k 0).localNode side) :=
  List.map_congr_left fun _ hn => localNode_below_succ (mem_part_of_mem_sharedNodes hn side)

/-! ### Among the edges -/

/-- The annotation of all nodes and of the edges below a handle. -/
def belowEdge (a : Annotated) (j : EdgeId) : Annotated := a.below a.graph.nodes.length j

/-- Once the nodes are passed, a side has all of its nodes. -/
theorem Within.nodesOf_belowEdge (h : a.Within) (side : Side) (j : EdgeId) :
    (a.belowEdge j).nodesOf side = a.nodesOf side := by
  rw [belowEdge, nodesOf_below, IdSet.below_eq_self (h.node_lt side)]
  rfl

/-- Once the nodes are passed, a node has its final handle on a side. -/
theorem Within.localNode_belowEdge (h : a.Within) (side : Side) (j : EdgeId) :
    (a.belowEdge j).localNode side = a.localNode side := by
  funext n
  rw [localNode, h.nodesOf_belowEdge, localNode]

/-- The ends of an edge are nodes of the side when they are on the side. -/
theorem Within.localNode_lt_belowEdge (h : a.Within) (hn : n ∈ (a.part side).nodes) :
    a.localNode side n < ((a.belowEdge j).sideGraph side).nodes.length := by
  have hlength : (((a.belowEdge j).nodesOf side).filterMap a.graph.node?).length =
      (a.nodesOf side).length := by
    rw [h.nodesOf_belowEdge]
    exact (forall₂_filterMap_right fun n hn =>
      ⟨_, List.getElem?_eq_getElem (h.node_lt side n hn)⟩).length_eq.symm
  exact hlength ▸ localNode_lt hn

/-- Passing an edge of a side adds it to the edges of the side, as the last one. -/
theorem edgesOf_belowEdge_succ (hj : j ∈ (a.part side).edges) :
    (a.belowEdge (j + 1)).edgesOf side = (a.belowEdge j).edgesOf side ++ [j] := by
  rw [belowEdge, belowEdge, edgesOf_below, edgesOf_below, IdSet.toList_below_succ hj]

/-- The next edge of a side comes after the edges below it. -/
theorem Within.edges_belowEdge_succ (h : a.Within) (he : a.graph.edge? j = some e)
    (hj : j ∈ (a.part side).edges) :
    ((a.belowEdge (j + 1)).sideGraph side).edges =
      ((a.belowEdge j).sideGraph side).edges ++ [a.localEdge side e] := by
  have hlocal : ∀ j', (a.belowEdge j').localEdge side = a.localEdge side := by
    intro j'
    funext e'
    rw [localEdge, h.localNode_belowEdge, localEdge]
  show (((a.belowEdge (j + 1)).edgesOf side).filterMap a.graph.edge?).map _ =
    (((a.belowEdge j).edgesOf side).filterMap a.graph.edge?).map _ ++ _
  rw [edgesOf_belowEdge_succ hj, List.filterMap_append, List.map_append, hlocal, hlocal,
    List.filterMap_cons, he]
  rfl

/-- After its last step the pass has seen the whole annotation. -/
theorem Within.belowEdge_length (h : a.Within) : a.belowEdge a.graph.edges.length = a := by
  have hparts : ∀ side, (a.part side).nodes.below a.graph.nodes.length = (a.part side).nodes ∧
      (a.part side).edges.below a.graph.edges.length = (a.part side).edges :=
    fun side => ⟨IdSet.below_eq_self (h.node_lt side), IdSet.below_eq_self (h.edge_lt side)⟩
  obtain ⟨g, l, r⟩ := a
  have hl : l.nodes.below g.nodes.length = l.nodes ∧ l.edges.below g.edges.length = l.edges :=
    hparts .lhs
  have hr : r.nodes.below g.nodes.length = r.nodes ∧ r.edges.below g.edges.length = r.edges :=
    hparts .rhs
  show Annotated.mk g { l with nodes := _, edges := _ } { r with nodes := _, edges := _ } = _
  rw [hl.1, hl.2, hr.1, hr.2]

end Annotated

end DoublePushout
