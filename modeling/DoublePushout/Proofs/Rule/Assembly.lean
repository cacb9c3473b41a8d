import DoublePushout.Proofs.Rule.Draft
import Mathlib.Logic.Function.Basic

/-!
# `DoublePushout.Proofs.Rule.Assembly`: a rule is put together in one pass

The library derives a rule while it goes through the annotated graph: the nodes are copied to
their sides and to the interface, then the edges to their sides, and in the end the labels that
both sides have are paired. `Graph.assemble` is this pass. `Graph.toRule` describes the same rule
without it, as one expression in the annotation.

On its way the pass reads and writes tables at handles that only the check of the graph has
bounded, and what it has put together is not checked again. `Graph.assemble_eq` says that it gives
what `Graph.toRule` gives for every graph, so none of its reads and writes faults.

The pass is followed step by step. `Annotated.assembly` is its state after the whole annotation,
and the states before are those of the elements passed so far. `assembleNode_eq` and
`Within.assembleEdge_eq` are the step lemmas, and `Within.assemble_eq` is the whole pass.

`Graph.toRule_reports_first_fault` says which graphs describe a rule, and for which fault any
other is refused, both by the description and by the pass.
-/

set_option autoImplicit false

namespace DoublePushout

/-! ### The pass -/

/-- A rule while it is put together. -/
structure Assembly where
  /-- The two sides. -/
  draft : Side → Draft
  /-- The interface so far. -/
  interface : Graph := {}
  /-- The interface in each side. -/
  into : Side → Mapping := fun _ => {}

namespace Assembly

/-- The assembly with another draft of a side. -/
def withDraft (s : Assembly) (side : Side) (d : Draft) : Assembly :=
  { s with draft := Function.update s.draft side d }

/-- Copies a node of a graph to a side. -/
def addNodeTo (s : Assembly) (g : Graph) (side : Side) (n : NodeId) :
    Except (Failure RuleError) (NodeId × Assembly) := do
  let (copy, d) ← orFault ((s.draft side).addNode g n)
  return (copy, s.withDraft side d)

/-- Copies an edge of a graph to a side. -/
def addEdgeTo (s : Assembly) (g : Graph) (side : Side) (i : EdgeId) :
    Except (Failure RuleError) Assembly := do
  let d ← (s.draft side).addEdge g side i
  return s.withDraft side d

/-- Adds a node of both sides to the interface. -/
def share (s : Assembly) (node : Node) (copies : Side → NodeId) : Assembly :=
  { s with
    interface := (s.interface.addNode node).2
    into := fun side => { s.into side with nodes := (s.into side).nodes ++ [copies side] } }

/-- The edges of the two sides that have the same label, in the order of the left side. -/
def pairs (s : Assembly) : List Annotated.Pair :=
  (s.draft .lhs).labels.filterMap fun (label, i) =>
    ((s.draft .rhs).labels.lookup label).map (⟨label, i, ·⟩)

/-- Adds the pairs to the interface. -/
def finish (s : Assembly) : DerivedRule where
  rule := {
    lhs := (s.draft .lhs).graph
    rhs := (s.draft .rhs).graph
    interface := { s.interface with
      edges := s.pairs.map fun p => { tail := 0, head := 0, label := some p.label } }
    toLhs := { s.into .lhs with edges := s.pairs.map fun p => [p.lhs] }
    toRhs := { s.into .rhs with edges := s.pairs.map fun p => [p.rhs] } }
  lhsOrigin := (s.draft .lhs).origin
  rhsOrigin := (s.draft .rhs).origin

end Assembly

namespace Annotated

/-- Copies a node to the sides that it is on, and to the interface if it is on both. -/
def assembleNode (a : Annotated) (s : Assembly) :
    Node × NodeId → Except (Failure RuleError) Assembly
  | (node, n) => do
    if n ∈ a.lhs.nodes then
      let (l, s) ← s.addNodeTo a.graph .lhs n
      if n ∈ a.rhs.nodes then
        let (r, s) ← s.addNodeTo a.graph .rhs n
        return s.share node fun
          | .lhs => l
          | .rhs => r
      else return s
    else
      if n ∈ a.rhs.nodes then return (← s.addNodeTo a.graph .rhs n).2
      else .error (.refused (.strayNode n node.name))

/-- Copies an edge to the side that it is on. -/
def assembleEdge (a : Annotated) (s : Assembly) :
    Edge × EdgeId → Except (Failure RuleError) Assembly
  | (_, i) =>
    if i ∈ a.lhs.edges then
      if i ∈ a.rhs.edges then .error (.refused (.sharedEdge i)) else s.addEdgeTo a.graph .lhs i
    else
      if i ∈ a.rhs.edges then s.addEdgeTo a.graph .rhs i else .error (.refused (.strayEdge i))

/-- Puts the rule together: the nodes first, then the edges, then the edges of the interface. -/
def assemble (a : Annotated) : Except (Failure RuleError) DerivedRule := do
  let empty : Assembly := { draft := fun _ => { places := a.graph.nodes.map fun _ => none } }
  let s ← a.graph.nodes.zipIdx.foldlM a.assembleNode empty
  return (← a.graph.edges.zipIdx.foldlM a.assembleEdge s).finish

variable {a : Annotated} {side : Side} {k : NodeId} {node : Node} {j : EdgeId} {e : Edge}

/-- The rule of an annotation before the edges of the interface are added. -/
def assembly (a : Annotated) : Assembly where
  draft := a.draft
  interface := { nodes := a.sharedNodes.filterMap a.graph.node? }
  into side := { nodes := a.sharedNodes.map (a.localNode side) }

/-! ### The nodes -/

/-- Copying a node to a side leads from the draft below its handle to the draft below the next
one. -/
theorem addNodeTo_eq (s : Assembly) (side : Side) (hs : s.draft side = (a.below k 0).draft side)
    (hnode : a.graph.node? k = some node) (hk : k ∈ (a.part side).nodes) :
    s.addNodeTo a.graph side k = .ok ((a.below (k + 1) 0).localNode side k,
      s.withDraft side ((a.below (k + 1) 0).draft side)) := by
  rw [Assembly.addNodeTo, hs, draft_addNode hnode hk]
  rfl

/-- A node that is not on both sides leaves the interface as it is. -/
theorem assembly_below_succ_of_not_shared (hk : ¬ (k ∈ a.lhs.nodes ∧ k ∈ a.rhs.nodes)) :
    { (a.below k 0).assembly with draft := (a.below (k + 1) 0).draft } =
      (a.below (k + 1) 0).assembly := by
  -- A node on one side only adds nothing to the interface.
  have hnodes : (a.below (k + 1) 0).sharedNodes = (a.below k 0).sharedNodes := by
    rw [sharedNodes_below, sharedNodes_below, IdSet.below_succ_of_not_mem (mt mem_shared.1 hk)]
  have hinto : (a.below (k + 1) 0).assembly.into = (a.below k 0).assembly.into := by
    funext side
    show Mapping.mk _ _ = Mapping.mk _ _
    rw [hnodes, map_localNode_below_succ]
  have hinterface :
      (a.below (k + 1) 0).assembly.interface = (a.below k 0).assembly.interface := by
    show Graph.mk _ _ _ = Graph.mk _ _ _
    rw [hnodes]
    rfl
  show Assembly.mk _ _ _ = Assembly.mk _ _ _
  rw [Assembly.mk.injEq]
  exact ⟨rfl, hinterface.symm, hinto.symm⟩

/-- A node that is on both sides comes last in the interface. -/
theorem assembly_below_succ_of_shared (hnode : a.graph.node? k = some node)
    (hk : k ∈ a.lhs.nodes ∧ k ∈ a.rhs.nodes) :
    ({ (a.below k 0).assembly with draft := (a.below (k + 1) 0).draft } : Assembly).share node
        (fun side => (a.below (k + 1) 0).localNode side k) =
      (a.below (k + 1) 0).assembly := by
  -- A shared node goes to the end of the interface, since the nodes are passed in order.
  have hnodes : (a.below (k + 1) 0).sharedNodes = (a.below k 0).sharedNodes ++ [k] := by
    rw [sharedNodes_below, sharedNodes_below, IdSet.toList_below_succ (mem_shared.2 hk)]
  have hinto : (a.below (k + 1) 0).assembly.into = fun side =>
      ⟨(a.below k 0).sharedNodes.map ((a.below k 0).localNode side) ++
        [(a.below (k + 1) 0).localNode side k], []⟩ := by
    funext side
    show Mapping.mk _ _ = Mapping.mk _ _
    rw [hnodes, List.map_append, map_localNode_below_succ]
    rfl
  have hinterface : (a.below (k + 1) 0).assembly.interface =
      ⟨(a.below k 0).sharedNodes.filterMap a.graph.node? ++ [node], [], []⟩ := by
    show Graph.mk (List.filterMap a.graph.node? _) _ _ = Graph.mk _ _ _
    rw [hnodes, List.filterMap_append, List.filterMap_cons, hnode]
    rfl
  show Assembly.mk _ _ _ = Assembly.mk _ _ _
  rw [Assembly.mk.injEq]
  exact ⟨rfl, hinterface.symm, hinto.symm⟩

/-- A node is copied to the sides that it is on, or refused for being on none. -/
theorem assembleNode_eq (hnode : a.graph.node? k = some node) :
    a.assembleNode (a.below k 0).assembly (node, k) =
      match a.nodeError? (node, k) with
      | some err => .error (.refused err)
      | none => .ok (a.below (k + 1) 0).assembly := by
  have hsides : ∀ f f' : Side → Draft, f .lhs = f' .lhs → f .rhs = f' .rhs → f = f' := by
    intro f f' hl hr
    funext side
    cases side with
    | lhs => exact hl
    | rhs => exact hr
  -- The cases are those of the pass: a node of both sides, of one of them, or of none. The draft
  -- of a side that the node is not on has not changed.
  rw [assembleNode, nodeError?]
  by_cases hl : k ∈ a.lhs.nodes
  · rw [if_pos hl, if_pos (.inl hl),
      addNodeTo_eq (a.below k 0).assembly .lhs rfl hnode hl]
    show (if k ∈ a.rhs.nodes then _ else _) = Except.ok (a.below (k + 1) 0).assembly
    by_cases hr : k ∈ a.rhs.nodes
    · have hsecond := addNodeTo_eq
        ((a.below k 0).assembly.withDraft .lhs ((a.below (k + 1) 0).draft .lhs)) .rhs rfl hnode hr
      have hdraft : Function.update (Function.update (a.below k 0).draft .lhs
          ((a.below (k + 1) 0).draft .lhs)) .rhs ((a.below (k + 1) 0).draft .rhs) =
          (a.below (k + 1) 0).draft := hsides _ _ rfl rfl
      rw [if_pos hr]
      show (Assembly.addNodeTo _ a.graph .rhs k >>= _) = Except.ok (a.below (k + 1) 0).assembly
      rw [hsecond, ← assembly_below_succ_of_shared hnode ⟨hl, hr⟩, ← hdraft]
      refine congrArg Except.ok (congrArg (Assembly.share _ node) (funext fun side => ?_))
      cases side with
      | lhs => rfl
      | rhs => rfl
    · have hdraft : Function.update (a.below k 0).draft .lhs ((a.below (k + 1) 0).draft .lhs) =
          (a.below (k + 1) 0).draft := hsides _ _ rfl (draft_below_succ_of_not_mem hr).symm
      rw [if_neg hr, ← assembly_below_succ_of_not_shared fun h => hr h.2, ← hdraft]
      rfl
  · by_cases hr : k ∈ a.rhs.nodes
    · have hdraft : Function.update (a.below k 0).draft .rhs ((a.below (k + 1) 0).draft .rhs) =
          (a.below (k + 1) 0).draft := hsides _ _ (draft_below_succ_of_not_mem hl).symm rfl
      rw [if_neg hl, if_pos hr, if_pos (.inr hr),
        addNodeTo_eq (a.below k 0).assembly .rhs rfl hnode hr,
        ← assembly_below_succ_of_not_shared fun h => hl h.1, ← hdraft]
      rfl
    · rw [if_neg hl, if_neg hr, if_neg fun h => h.elim hl hr]

/-! ### The edges -/

/-- An edge is copied to its side, or refused for what is wrong with it there. -/
theorem Within.addEdgeTo_eq (h : a.Within) (he : a.graph.edge? j = some e)
    (honly : a.OnlyOn side j) :
    (a.belowEdge j).assembly.addEdgeTo a.graph side j =
      match a.placementError? side e j with
      | some err => .error (.refused err)
      | none => .ok (a.belowEdge (j + 1)).assembly := by
  -- The other side does not see the edge, and the interface has no edges yet.
  have hdraft : Function.update (a.belowEdge j).draft side ((a.belowEdge (j + 1)).draft side) =
      (a.belowEdge (j + 1)).draft := by
    funext side'
    by_cases hside : side' = side
    · subst hside
      exact Function.update_self ..
    · rw [Function.update_of_ne hside]
      refine (draft_congr (a := a.belowEdge j) (b := a.belowEdge (j + 1)) rfl ?_).symm
      have hj : j ∉ (a.part side').edges := mt (honly side').1 hside
      rw [belowEdge, belowEdge, part_below, part_below, IdSet.below_succ_of_not_mem hj]
  have hinto : (a.belowEdge (j + 1)).assembly.into = (a.belowEdge j).assembly.into := by
    funext side'
    cases side' with
    | lhs => rfl
    | rhs => rfl
  rw [Assembly.addEdgeTo]
  show (((a.belowEdge j).draft side).addEdge a.graph side j >>= _) = _
  rw [h.draft_addEdge he ((honly side).2 rfl)]
  cases a.placementError? side e j with
  | some err => rfl
  | none =>
    refine congrArg Except.ok ?_
    show Assembly.mk (Function.update (a.belowEdge j).draft _ _) _ _ = Assembly.mk _ _ _
    rw [Assembly.mk.injEq]
    exact ⟨hdraft, rfl, hinto.symm⟩

/-- An edge is copied to the side that it is on, or refused for what is wrong with it. -/
theorem Within.assembleEdge_eq (h : a.Within) (he : a.graph.edge? j = some e) :
    a.assembleEdge (a.belowEdge j).assembly (e, j) =
      match a.edgeError? (e, j) with
      | some err => .error (.refused err)
      | none => .ok (a.belowEdge (j + 1)).assembly := by
  -- The pass and the description tell the cases apart in the same way.
  rw [assembleEdge, edgeError?]
  by_cases hlhs : j ∈ a.lhs.edges <;> by_cases hrhs : j ∈ a.rhs.edges <;>
    simp only [hlhs, hrhs, if_true, if_false]
  · exact h.addEdgeTo_eq he (onlyOn_iff.2 (by simp [hlhs, hrhs]))
  · exact h.addEdgeTo_eq he (onlyOn_iff.2 (by simp [hlhs, hrhs]))

/-! ### The whole pass -/

/-- Before its first step the pass has put nothing anywhere. -/
theorem assembly_below_zero (a : Annotated) :
    (a.below 0 0).assembly =
      { draft := fun _ => { places := a.graph.nodes.map fun _ => none } } := by
  -- Below the first node there is nothing on either side.
  have hnodes : ∀ side, (a.below 0 0).nodesOf side = [] := by
    intro side
    rw [nodesOf_below, IdSet.toList_below_zero]
  have hplaces : ∀ side, ((a.below 0 0).draft side).places = a.graph.nodes.map fun _ => none := by
    intro side
    have hnone : ((a.below 0 0).draft side).places =
        List.replicate a.graph.nodes.length none := by
      refine List.eq_replicate_iff.2 ⟨length_places (a := a.below 0 0) side, fun p hp => ?_⟩
      obtain ⟨n, -, rfl⟩ := List.mem_map.1 hp
      exact if_neg fun hn => Nat.not_lt_zero n (mem_nodes_below.1 hn).2
    rw [hnone, List.map_const']
  have hshared : (a.below 0 0).sharedNodes = [] := by
    rw [sharedNodes_below, IdSet.toList_below_zero]
  have hdraft : (a.below 0 0).draft = fun _ => { places := a.graph.nodes.map fun _ => none } := by
    funext side
    rw [draft_below_zero, hplaces, hnodes]
    rfl
  rw [assembly, hdraft, hshared]
  rfl

/-- The labels of the two sides give the pairs of the rule. -/
theorem pairs_assembly (a : Annotated) : a.assembly.pairs = a.pairs := by
  show (filed _).filterMap _ = _
  rw [filed, List.filterMap_filterMap, pairs]
  refine List.filterMap_congr fun x _ => ?_
  obtain ⟨e, i⟩ := x
  show (e.effective.map (·, i)).bind _ = e.effective.bind fun label =>
    ((a.sideGraph .rhs).edges.findIdx? (·.effective = some label)).bind fun j =>
      some (⟨label, i, j⟩ : Pair)
  cases e.effective with
  | none => rfl
  | some label =>
    show ((filed (a.sideGraph .rhs).edges).lookup label).map _ = _
    rw [lookup_filed, Option.map_eq_bind]
    rfl

/-- With the edges of the interface the whole assembly is the derived rule. -/
theorem finish_assembly (a : Annotated) : a.assembly.finish = a.derived := by
  rw [Assembly.finish, pairs_assembly]
  rfl

/-- The pass puts together the rule that the annotation describes, or stops at its first fault. -/
theorem Within.assemble_eq (h : a.Within) :
    a.assemble =
      match a.firstError? with
      | some err => .error (.refused err)
      | none => .ok a.derived := by
  have hnodes := foldlM_zipIdx_eq a.assembleNode
    (fun x => (a.nodeError? x).map Failure.refused) (fun k => (a.below k 0).assembly)
    a.graph.nodes fun k node hnode => by
      rw [assembleNode_eq hnode]
      cases a.nodeError? (node, k) with
      | none => rfl
      | some err => rfl
  have hedges := foldlM_zipIdx_eq a.assembleEdge
    (fun x => (a.edgeError? x).map Failure.refused) (fun j => (a.belowEdge j).assembly)
    a.graph.edges fun j e he => by
      rw [h.assembleEdge_eq he]
      cases a.edgeError? (e, j) with
      | none => rfl
      | some err => rfl
  have hfinds : ∀ {α : Type} (f : α → Option RuleError) (xs : List α),
      xs.findSome? (fun x => (f x).map (Failure.refused)) =
        (xs.findSome? f).map Failure.refused :=
    fun f xs => (List.map_findSome? ..).symm
  rw [hfinds] at hnodes hedges
  rw [assemble, ← assembly_below_zero, hnodes, firstError?]
  cases a.graph.nodes.zipIdx.findSome? a.nodeError? with
  | some err => rfl
  | none =>
    show (a.graph.edges.zipIdx.foldlM a.assembleEdge (a.belowEdge 0).assembly >>= _) = _
    rw [hedges, Option.none_or]
    cases a.graph.edges.zipIdx.findSome? a.edgeError? with
    | some err => rfl
    | none =>
      show Except.ok (a.belowEdge a.graph.edges.length).assembly.finish = Except.ok a.derived
      rw [h.belowEdge_length, finish_assembly]

end Annotated

/-- Checks a graph and its marks, then puts the rule together in one pass. -/
def Graph.assemble (g : Graph) : Except (Failure RuleError) DerivedRule := do
  match g.validate with
  | .error e => .error (.refused (.invalidGraph e))
  | .ok () => (← orRefuse g.annotated).assemble

/-- Deriving a rule reads and writes no table outside it, and adds no edge at a missing node. -/
theorem Graph.assemble_eq (g : Graph) : g.assemble = orRefuse g.toRule := by
  rw [assemble, toRule]
  cases hcheck : g.validate with
  | error e => rfl
  | ok u =>
    have hvalid := validate_eq_ok_iff.1 hcheck
    cases ha : g.annotated with
    | error e => rfl
    | ok a =>
      have hwithin := Annotated.within hvalid ha
      show a.assemble = orRefuse (match a.firstError? with | some e => _ | none => _)
      rw [hwithin.assemble_eq]
      cases a.firstError? with
      | some e => rfl
      | none => rfl

/-- A rule is derived exactly from a valid graph with a well-marked annotation. Any other graph is
refused for its first fault. The pass that puts the rule together knows of the sides only what it
has put there, and it stops at the same fault and at nothing else. -/
theorem Graph.toRule_reports_first_fault (g : Graph) :
    ((∃ d, g.toRule = .ok d) ↔ g.Valid ∧ ∃ a, g.Marked a ∧ a.WellMarked) ∧
      (∀ err, g.toRule = .error err ↔ g.FirstFault err) ∧
        FaultFree g.assemble ∧ ∀ err, g.assemble = .error (.refused err) ↔ g.FirstFault err := by
  rw [g.assemble_eq]
  refine ⟨?_, fun err => toRule_eq_error_iff, faultFree_orRefuse _, fun err => ?_⟩
  · simp only [toRule_eq_ok_iff, Marked, ← annotated_eq_ok_iff]
    constructor
    · intro h
      obtain ⟨_, hvalid, a, ha, hmarked, -⟩ := h
      exact ⟨hvalid, a, ha, hmarked⟩
    · intro h
      obtain ⟨hvalid, a, ha, hmarked⟩ := h
      exact ⟨_, hvalid, a, ha, hmarked, rfl⟩
  · exact orRefuse_eq_refused.trans toRule_eq_error_iff

/-- An edge that ends outside its side comes before an edge that is on neither side, but not
before a node that is on neither. -/
example :
    let nodes : List Node := [⟨"a", none⟩, ⟨"b", none⟩]
    let edges : List Edge := [⟨0, 1, none⟩, ⟨1, 0, none⟩]
    let marks (right : List NodeId) : List Subgraph :=
      [⟨"R", .ofList right, .empty⟩, ⟨"L", .ofList [0], .ofList [0]⟩]
    Graph.toRule ⟨nodes, edges, marks [1]⟩ = .error (.endOutsideSide 0 .lhs) ∧
      Graph.toRule ⟨nodes, edges, marks []⟩ = .error (.strayNode 1 "b") := by
  decide

end DoublePushout
