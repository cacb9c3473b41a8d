import DoublePushout.Proofs.Rule.Marking
import Mathlib.Order.Bounds.Basic

/-!
# `DoublePushout.Proofs.Rule.FirstFault`: which fault of an annotated graph is reported

A graph that describes no rule may have many faults at once, and `Graph.toRule` reports one of
them. `Graph.FirstFault` says which one without going through the graph: every fault has its
conditions on the graph as a whole, and where there are several elements with such a fault, the
one with the least handle counts.

* `Graph.FirstBadHandle` does so for an invalid graph. `validate_eq_error_iff` shows that it is
  what `Graph.validate` reports.
* `Annotated.EdgeFault` says what is wrong with one edge. `edgeError?_eq_some_iff` shows that it
  is what the check of that edge finds.
* `Annotated.firstError?_eq_some_iff` finds the first node or edge that is marked wrongly.

`Graph.toRule_eq_error_iff` puts these together: a graph is refused exactly for its `FirstFault`.
-/

set_option autoImplicit false

namespace DoublePushout

/-- The first member of a set with a property is its least one. -/
theorem IdSet.find?_eq_some_iff {s : IdSet} {p : Nat → Bool} {n : Nat} :
    s.toList.find? p = some n ↔ IsLeast {k | k ∈ s ∧ p k = true} n := by
  have hlist : ∀ ms : List Nat, ms.Pairwise (· < ·) →
      (ms.find? p = some n ↔ IsLeast {k | k ∈ ms ∧ p k = true} n) := by
    intro ms
    induction ms with
    | nil =>
      intro _
      simp [IsLeast]
    | cons m ms ih =>
      intro h
      rw [List.pairwise_cons] at h
      rw [List.find?_cons]
      -- The head is below everything that follows, so it is the least member if it has the
      -- property.
      cases hm : p m with
      | true =>
        have hleast : IsLeast {k | k ∈ m :: ms ∧ p k = true} m := by
          refine ⟨⟨by simp, hm⟩, fun k hk => ?_⟩
          rcases List.mem_cons.1 hk.1 with rfl | hmem
          · exact Nat.le_refl _
          · exact Nat.le_of_lt (h.1 k hmem)
        simp only [Option.some.injEq]
        exact ⟨fun heq => heq ▸ hleast, fun hn => hleast.unique hn⟩
      | false =>
        have hset : {k | k ∈ m :: ms ∧ p k = true} = {k | k ∈ ms ∧ p k = true} := by
          ext k
          simp only [Set.mem_ofPred_eq, List.mem_cons]
          constructor
          · intro hk
            rcases hk.1 with rfl | hmem
            · rw [hm] at hk
              exact absurd hk.2 (by decide)
            · exact ⟨hmem, hk.2⟩
          · exact fun hk => ⟨.inr hk.1, hk.2⟩
        rw [hset]
        exact ih h.2
  exact hlist s.toList s.ascending

/-! ### The first bad handle -/

namespace Graph

variable {g : Graph}

/-- Both ends of an edge are nodes of the graph. -/
def EndsExist (g : Graph) (e : Edge) : Prop := e.tail < g.nodes.length ∧ e.head < g.nodes.length

/-- All members of a subgraph are nodes or edges of the graph. -/
def MembersExist (g : Graph) (s : Subgraph) : Prop :=
  (∀ n ∈ s.nodes, n < g.nodes.length) ∧ ∀ j ∈ s.edges, j < g.edges.length

/-- What is wrong with an edge: its tail is missing, or else its head. -/
def EndpointFault (g : Graph) (i : EdgeId) (e : Edge) (err : GraphError) : Prop :=
  g.nodes.length ≤ e.tail ∧ err = .badEndpoint i e.tail ∨
    e.tail < g.nodes.length ∧ g.nodes.length ≤ e.head ∧ err = .badEndpoint i e.head

/-- What is wrong with a subgraph: its least missing node, or else its least missing edge. -/
def MemberFault (g : Graph) (s : Subgraph) (err : GraphError) : Prop :=
  (∃ n, IsLeast {k | k ∈ s.nodes ∧ g.nodes.length ≤ k} n ∧ err = .badMemberNode s.name n) ∨
    (∀ n ∈ s.nodes, n < g.nodes.length) ∧
      ∃ j, IsLeast {k | k ∈ s.edges ∧ g.edges.length ≤ k} j ∧ err = .badMemberEdge s.name j

/-- The first bad handle of an invalid graph: in the first edge that has one, or else in the first
subgraph that has one. -/
def FirstBadHandle (g : Graph) (err : GraphError) : Prop :=
  (∃ (i : EdgeId) (e : Edge), g.edge? i = some e ∧ g.EndpointFault i e err ∧
    IsLeast {j : Nat | ∃ e, g.edge? j = some e ∧ ¬ g.EndsExist e} i) ∨
  (∀ e ∈ g.edges, g.EndsExist e) ∧ ∃ (k : Nat) (s : Subgraph), g.subgraphs[k]? = some s ∧
    g.MemberFault s err ∧
    IsLeast {j : Nat | ∃ s, g.subgraphs[j]? = some s ∧ ¬ g.MembersExist s} k

/-- The check of an edge finds which of its ends is missing. -/
theorem endpointError?_eq_some_iff {e : Edge} {i : EdgeId} {err : GraphError} :
    g.endpointError? (e, i) = some err ↔ g.EndpointFault i e err := by
  rw [endpointError?, Edge.ends, EndpointFault, List.find?_cons, List.find?_cons]
  by_cases htail : e.tail < g.nodes.length
  · by_cases hhead : e.head < g.nodes.length <;>
      simp [hasNode, htail, hhead, Nat.not_le.2, Nat.le_of_not_lt, eq_comm]
  · simp [hasNode, htail, Nat.le_of_not_lt htail, eq_comm]

/-- The check of a subgraph finds its least missing member. -/
theorem memberError?_eq_some_iff {s : Subgraph} {err : GraphError} :
    g.memberError? s = some err ↔ g.MemberFault s err := by
  have hnone : s.nodes.toList.find? (!g.hasNode ·) = none ↔
      ∀ n ∈ s.nodes, n < g.nodes.length := by
    simp [hasNode]
  rw [memberError?, MemberFault, Option.or_eq_some_iff, Option.map_eq_some_iff,
    Option.map_eq_none_iff, Option.map_eq_some_iff, hnone]
  simp only [IdSet.find?_eq_some_iff, hasNode, hasEdge, Bool.not_eq_true',
    decide_eq_false_iff_not, Nat.not_lt, eq_comm (a := err)]

/-- The check of a graph reports its first bad handle. -/
theorem validate_eq_error_iff {err : GraphError} :
    g.validate = .error err ↔ g.FirstBadHandle err := by
  have hends : ∀ (e : Edge) (i : EdgeId), g.endpointError? (e, i) ≠ none ↔ ¬ g.EndsExist e :=
    fun e i => not_congr endpointError?_eq_none
  have hmembers : ∀ s, g.memberError? s ≠ none ↔ ¬ g.MembersExist s :=
    fun s => not_congr memberError?_eq_none
  have hfirst : g.validate = .error err ↔ g.firstError? = some err := by
    rw [validate]
    cases g.firstError? <;> simp
  rw [hfirst, firstError?, Option.or_eq_some_iff, findSome?_endpointError?_eq_none_iff,
    findSome?_zipIdx_eq_some_iff, findSome?_eq_some_iff_isLeast]
  simp only [endpointError?_eq_some_iff, memberError?_eq_some_iff, hends, hmembers]
  exact Iff.rfl

end Graph

/-! ### The first element that is marked wrongly -/

namespace Annotated

variable {a : Annotated}

/-- An edge is on one side and not on the other. -/
def OnlyOn (a : Annotated) (side : Side) (j : EdgeId) : Prop :=
  ∀ side', j ∈ (a.part side').edges ↔ side' = side

/-- Both ends of an edge are on a side. -/
def EndsOn (a : Annotated) (side : Side) (e : Edge) : Prop :=
  e.tail ∈ (a.part side).nodes ∧ e.head ∈ (a.part side).nodes

/-- What is wrong with an edge: it is on neither side or on both, or else it ends outside its
side, or else an edge with a lower handle has its label on its side. -/
def EdgeFault (a : Annotated) (j : EdgeId) (e : Edge) : RuleError → Prop
  | .strayEdge i => i = j ∧ ∀ side, j ∉ (a.part side).edges
  | .sharedEdge i => i = j ∧ ∀ side, j ∈ (a.part side).edges
  | .endOutsideSide i side => i = j ∧ a.OnlyOn side j ∧ ¬ a.EndsOn side e
  | .repeatedLabel label side => a.OnlyOn side j ∧ a.EndsOn side e ∧ e.effective = some label ∧
    ∃ k < j, k ∈ (a.part side).edges ∧ a.graph.edgeLabel? k = some label
  | _ => False

/-- The handles of the nodes that are on neither side. -/
def strayNodes (a : Annotated) : Set NodeId :=
  {n | n < a.graph.nodes.length ∧ ∀ side, n ∉ (a.part side).nodes}

/-- The handles of the edges with which something is wrong. -/
def faultyEdges (a : Annotated) : Set EdgeId :=
  {j | ∃ e err, a.graph.edge? j = some e ∧ a.EdgeFault j e err}

/-- What is wrong with an annotation: its first node that is on neither side, or else whatever is
wrong with its first faulty edge. -/
def MarkingFault (a : Annotated) (err : RuleError) : Prop :=
  (∃ i n, a.graph.node? i = some n ∧ err = .strayNode i n.name ∧ IsLeast a.strayNodes i) ∨
    a.strayNodes = ∅ ∧
      ∃ j e, a.graph.edge? j = some e ∧ a.EdgeFault j e err ∧ IsLeast a.faultyEdges j

/-- On its side an edge is checked for its ends, and then for its label. -/
theorem placementError?_eq_some_iff {side : Side} {e : Edge} {j : EdgeId} {err : RuleError} :
    a.placementError? side e j = some err ↔
      ¬ a.EndsOn side e ∧ err = .endOutsideSide j side ∨
        a.EndsOn side e ∧ ∃ label, e.effective = some label ∧ label ∈ a.labelsBefore side j ∧
          err = .repeatedLabel label side := by
  have hends : e.ends.any (· ∉ (a.part side).nodes) = true ↔ ¬ a.EndsOn side e := by
    simp [Edge.ends, EndsOn, imp_iff_not_or]
  rw [placementError?]
  by_cases hin : a.EndsOn side e
  · rw [if_neg (by rw [hends]; exact not_not.2 hin)]
    cases e.effective with
    | none => simp [hin]
    | some label => by_cases hmem : label ∈ a.labelsBefore side j <;> simp [hin, hmem, eq_comm]
  · rw [if_pos (hends.2 hin)]
    simp [hin, eq_comm]

/-- To be on one side only is a condition on the left side and one on the right side. -/
theorem onlyOn_iff {side : Side} {j : EdgeId} : a.OnlyOn side j ↔
    (j ∈ a.lhs.edges ↔ .lhs = side) ∧ (j ∈ a.rhs.edges ↔ .rhs = side) :=
  Side.forall_iff

/-- There is one such side at most. -/
theorem OnlyOn.side_eq {side side' : Side} {j : EdgeId} (h : a.OnlyOn side j)
    (h' : a.OnlyOn side' j) : side = side' :=
  (h' side).1 ((h side).2 rfl)

/-- An edge that is on one side only is checked on that side. -/
theorem OnlyOn.placementError?_eq_some_iff {side : Side} {e : Edge} {j : EdgeId} {err : RuleError}
    (h : a.OnlyOn side j) : a.placementError? side e j = some err ↔ a.EdgeFault j e err := by
  -- The edge is on this side and on no other, so it is neither stray nor shared.
  have hmem : ∃ side, j ∈ (a.part side).edges := ⟨side, (h side).2 rfl⟩
  have hmiss : ∃ side, j ∉ (a.part side).edges := by
    cases side with
    | lhs => exact ⟨.rhs, fun hr => absurd ((h .rhs).1 hr) (by decide)⟩
    | rhs => exact ⟨.lhs, fun hl => absurd ((h .lhs).1 hl) (by decide)⟩
  rw [Annotated.placementError?_eq_some_iff]
  cases err with
  | strayEdge i => simpa [EdgeFault] using fun _ => hmem
  | sharedEdge i => simpa [EdgeFault] using fun _ => hmiss
  | endOutsideSide i side' =>
    simp only [EdgeFault, RuleError.endOutsideSide.injEq, reduceCtorEq, and_false, exists_false,
      or_false]
    constructor
    · intro hfault
      obtain ⟨hout, rfl, rfl⟩ := hfault
      exact ⟨rfl, h, hout⟩
    · intro hfault
      obtain ⟨rfl, honly, hout⟩ := hfault
      obtain rfl := h.side_eq honly
      exact ⟨hout, rfl, rfl⟩
  | repeatedLabel label side' =>
    simp only [EdgeFault, RuleError.repeatedLabel.injEq, reduceCtorEq, and_false, false_or,
      mem_labelsBefore]
    constructor
    · intro hfault
      obtain ⟨hin, _, heff, hbefore, rfl, rfl⟩ := hfault
      exact ⟨h, hin, heff, hbefore⟩
    · intro hfault
      obtain ⟨honly, hin, heff, hbefore⟩ := hfault
      obtain rfl := h.side_eq honly
      exact ⟨hin, label, heff, hbefore, rfl, rfl⟩
  | missingMark => simp [EdgeFault]
  | strayNode => simp [EdgeFault]
  | invalidGraph => simp [EdgeFault]

/-- The check of an edge finds what is wrong with it. -/
theorem edgeError?_eq_some_iff {e : Edge} {j : EdgeId} {err : RuleError} :
    a.edgeError? (e, j) = some err ↔ a.EdgeFault j e err := by
  rw [edgeError?]
  -- An edge on both sides or on neither is on no side only, which leaves one kind of fault to it.
  by_cases hlhs : j ∈ a.lhs.edges <;> by_cases hrhs : j ∈ a.rhs.edges <;>
    simp only [hlhs, hrhs, if_true, if_false]
  · have hnone : ∀ side, ¬ a.OnlyOn side j := by
      intro side honly
      have hboth : Side.lhs = Side.rhs :=
        ((onlyOn_iff.1 honly).1.1 hlhs).trans ((onlyOn_iff.1 honly).2.1 hrhs).symm
      cases hboth
    cases err <;> simp [EdgeFault, hnone, Side.forall_iff, part, hlhs, hrhs, eq_comm]
  · exact OnlyOn.placementError?_eq_some_iff (onlyOn_iff.2 (by simp [hlhs, hrhs]))
  · exact OnlyOn.placementError?_eq_some_iff (onlyOn_iff.2 (by simp [hlhs, hrhs]))
  · have hnone : ∀ side, ¬ a.OnlyOn side j := by
      intro side honly
      cases side with
      | lhs => exact hlhs ((onlyOn_iff.1 honly).1.2 rfl)
      | rhs => exact hrhs ((onlyOn_iff.1 honly).2.2 rfl)
    cases err <;> simp [EdgeFault, hnone, Side.forall_iff, part, hlhs, hrhs, eq_comm]

/-- The check of a node finds that it is on neither side. -/
theorem nodeError?_eq_some_iff {n : Node} {i : NodeId} {err : RuleError} :
    a.nodeError? (n, i) = some err ↔
      (∀ side, i ∉ (a.part side).nodes) ∧ err = .strayNode i n.name := by
  rw [nodeError?, Side.forall_iff]
  by_cases h : i ∈ a.lhs.nodes ∨ i ∈ a.rhs.nodes
  · rw [if_pos h]
    simp [part, ← not_or, h]
  · rw [if_neg h]
    simp [part, ← not_or, h, eq_comm]

/-- The first stray node is the first node that the check of the nodes refuses. -/
theorem findSome?_nodeError?_eq_some_iff {err : RuleError} :
    a.graph.nodes.zipIdx.findSome? a.nodeError? = some err ↔
      ∃ i n, a.graph.node? i = some n ∧ err = .strayNode i n.name ∧ IsLeast a.strayNodes i := by
  have hstray : {i : Nat | ∃ n, a.graph.nodes[i]? = some n ∧ a.nodeError? (n, i) ≠ none} =
      a.strayNodes := by
    ext i
    simp only [Set.mem_ofPred_eq, strayNodes, ne_eq, nodeError?_eq_none, not_exists]
    constructor
    · intro h
      obtain ⟨n, hn, hout⟩ := h
      exact ⟨(List.getElem?_eq_some_iff.1 hn).1, hout⟩
    · intro h
      exact ⟨_, List.getElem?_eq_getElem h.1, h.2⟩
  rw [findSome?_zipIdx_eq_some_iff, hstray]
  simp only [nodeError?_eq_some_iff]
  constructor
  · intro h
    obtain ⟨i, n, hn, ⟨-, herr⟩, hleast⟩ := h
    exact ⟨i, n, hn, herr, hleast⟩
  · intro h
    obtain ⟨i, n, hn, herr, hleast⟩ := h
    exact ⟨i, n, hn, ⟨hleast.1.2, herr⟩, hleast⟩

/-- The check of the nodes finds nothing exactly if no node is stray. -/
theorem findSome?_nodeError?_eq_none_iff :
    a.graph.nodes.zipIdx.findSome? a.nodeError? = none ↔ a.strayNodes = ∅ := by
  rw [List.findSome?_eq_none_iff, forall_mem_zipIdx, Set.eq_empty_iff_forall_notMem]
  simp only [nodeError?_eq_none, strayNodes, Set.mem_ofPred_eq, not_and, not_forall, not_not]
  constructor
  · exact fun h i hi => h i _ (List.getElem?_eq_getElem hi)
  · exact fun h i n hn => h i (List.getElem?_eq_some_iff.1 hn).1

/-- The first faulty edge is the first edge that the check of the edges refuses. -/
theorem findSome?_edgeError?_eq_some_iff {err : RuleError} :
    a.graph.edges.zipIdx.findSome? a.edgeError? = some err ↔
      ∃ j e, a.graph.edge? j = some e ∧ a.EdgeFault j e err ∧ IsLeast a.faultyEdges j := by
  have hfaulty : {j : Nat | ∃ e, a.graph.edges[j]? = some e ∧ a.edgeError? (e, j) ≠ none} =
      a.faultyEdges := by
    ext j
    simp only [Set.mem_ofPred_eq, faultyEdges, Option.ne_none_iff_exists', edgeError?_eq_some_iff,
      Graph.edge?]
    exact exists_congr fun e => exists_and_left.symm
  rw [findSome?_zipIdx_eq_some_iff, hfaulty]
  simp only [edgeError?_eq_some_iff]
  exact Iff.rfl

/-- The check of an annotation finds what is wrong with it. -/
theorem firstError?_eq_some_iff {err : RuleError} :
    a.firstError? = some err ↔ a.MarkingFault err := by
  rw [firstError?, Option.or_eq_some_iff, findSome?_nodeError?_eq_some_iff,
    findSome?_nodeError?_eq_none_iff, findSome?_edgeError?_eq_some_iff, MarkingFault]

end Annotated

/-! ### The first fault of a graph -/

namespace Graph

variable {g : Graph}

/-- The subgraphs that mark the sides are in the graph. The first of each name counts. -/
def Marked (g : Graph) (a : Annotated) : Prop :=
  a.graph = g ∧ ∀ side, g.subgraph? side.mark = some (a.part side)

/-- A side is without a mark: the left one, or else the right one. -/
def MarkFault (g : Graph) (err : RuleError) : Prop :=
  g.subgraph? Side.lhs.mark = none ∧ err = .missingMark .lhs ∨
    g.subgraph? Side.lhs.mark ≠ none ∧ g.subgraph? Side.rhs.mark = none ∧ err = .missingMark .rhs

/-- Why a graph describes no rule: its first bad handle, or else the first mark that is missing,
or else what is wrong with its annotation. -/
def FirstFault (g : Graph) (err : RuleError) : Prop :=
  (∃ e, g.FirstBadHandle e ∧ err = .invalidGraph e) ∨
    g.Valid ∧ (g.MarkFault err ∨ ∃ a, g.Marked a ∧ a.MarkingFault err)

/-- Without a mark of each side there is no annotation, and the first missing one is reported. -/
theorem annotated_eq_error_iff {err : RuleError} :
    g.annotated = .error err ↔ g.MarkFault err := by
  rw [annotated, MarkFault]
  cases g.subgraph? Side.lhs.mark <;> cases g.subgraph? Side.rhs.mark <;> simp [eq_comm]

/-- Whatever a graph is refused for is its first fault. -/
theorem toRule_eq_error_iff {err : RuleError} : g.toRule = .error err ↔ g.FirstFault err := by
  rw [toRule, FirstFault, ← validate_eq_ok_iff]
  simp only [← validate_eq_error_iff]
  -- Each check is made only behind the one before it, as `FirstFault` names the faults.
  cases g.validate with
  | error e => simp [eq_comm]
  | ok u =>
    simp only [bind_eq_error, annotated_eq_error_iff, Marked, ← annotated_eq_ok_iff, reduceCtorEq,
      false_and, exists_false, false_or, true_and, ← Annotated.firstError?_eq_some_iff]
    refine or_congr Iff.rfl (exists_congr fun a => and_congr_right fun _ => ?_)
    cases a.firstError? <;> simp

end Graph

end DoublePushout
