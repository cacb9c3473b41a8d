import DoublePushout.Proofs.Rule.Exchange
import DoublePushout.Proofs.Rule.FirstFault

/-!
# `DoublePushout.Proofs.Rule.Symmetry`: deriving a rule treats the two sides alike

Deriving a rule does not look symmetric. The left mark is looked for first, and the interface is
formed by going through the edges of the left side. The two sides come out alike nonetheless, but
for the order of the interface edges, and for the mark that is reported when both are missing.

* A rule from the exchanged graph `DerivedRule.Mirrors` the rule from the graph.
* What one graph is refused for, `RuleError.exchanged`, is what the other is refused for.
  `validate_exchanged`, `symmetric_of_missing` and `firstError?_exchanged` say so of the three
  checks, each of which finds the same first fault on the other side.

`Graph.toRule_symmetric` puts these together.
-/

set_option autoImplicit false

namespace DoublePushout

/-! ### Errors with the sides exchanged -/

/-- The name that a part of the given name has when the marks of the two sides are exchanged. -/
def exchangedName (name : String) : String := ({ name } : Subgraph).exchanged.name

/-- The error that the exchanged graph has in its place. -/
def GraphError.exchanged : GraphError → GraphError
  | .badEndpoint i n => .badEndpoint i n
  | .badMemberNode name n => .badMemberNode (exchangedName name) n
  | .badMemberEdge name i => .badMemberEdge (exchangedName name) i

/-- The same error about the same element, on the other side. -/
def RuleError.exchanged : RuleError → RuleError
  | .missingMark side => .missingMark side.other
  | .strayNode n name => .strayNode n name
  | .strayEdge i => .strayEdge i
  | .sharedEdge i => .sharedEdge i
  | .endOutsideSide i side => .endOutsideSide i side.other
  | .repeatedLabel label side => .repeatedLabel label side.other
  | .invalidGraph e => .invalidGraph e.exchanged

/-! ### Rules with the sides exchanged -/

/-- The interface edges of a rule are these pairs, in this order. An interface edge has the label
of its pair, and its own ends mean nothing. -/
structure Rule.ListsPairs (r : Rule) (ps : List Annotated.Pair) : Prop where
  interface_edges :
    r.interface.edges = ps.map fun p => { tail := 0, head := 0, label := some p.label }
  toLhs_edges : r.toLhs.edges = ps.map fun p => [p.lhs]
  toRhs_edges : r.toRhs.edges = ps.map fun p => [p.rhs]

/-- A derived rule is another one with the two sides exchanged. -/
structure DerivedRule.Mirrors (d' d : DerivedRule) : Prop where
  lhs_eq : d'.rule.lhs = d.rule.rhs
  rhs_eq : d'.rule.rhs = d.rule.lhs
  lhsOrigin_eq : d'.lhsOrigin = d.rhsOrigin
  rhsOrigin_eq : d'.rhsOrigin = d.lhsOrigin
  /-- The interface has the same nodes in the same order. -/
  interface_nodes : d'.rule.interface.nodes = d.rule.interface.nodes
  toLhs_nodes : d'.rule.toLhs.nodes = d.rule.toRhs.nodes
  toRhs_nodes : d'.rule.toRhs.nodes = d.rule.toLhs.nodes
  deletedNodes_eq : d'.rule.deletedNodes = d.rule.createdNodes
  createdNodes_eq : d'.rule.createdNodes = d.rule.deletedNodes
  deletedEdges_eq : d'.rule.deletedEdges = d.rule.createdEdges
  createdEdges_eq : d'.rule.createdEdges = d.rule.deletedEdges
  /-- The interface has the same edges with their two ends exchanged, in whatever order. -/
  interface_edges : ∃ ps qs, d.rule.ListsPairs ps ∧ d'.rule.ListsPairs qs ∧
    qs.Perm (ps.map Annotated.Pair.exchanged)

/-- What is derived from the exchanged graph, as against what is derived from the graph. -/
inductive Graph.Symmetric (g : Graph) :
    Except RuleError DerivedRule → Except RuleError DerivedRule → Prop
  /-- Both describe a rule, each that of the other with the sides exchanged. -/
  | derived {d' d : DerivedRule} (mirrors : d'.Mirrors d) : Symmetric g (.ok d') (.ok d)
  /-- Both are refused for the same fault, on opposite sides. -/
  | refused (e : RuleError) : Symmetric g (.error e.exchanged) (.error e)
  /-- Neither has a mark, so that both miss the left one first. -/
  | unmarked (valid : g.Valid) (missing : ∀ side : Side, g.subgraph? side.mark = none) :
    Symmetric g (.error (.missingMark .lhs)) (.error (.missingMark .lhs))

/-! ### The check of the graph -/

namespace Graph

variable {g : Graph}

/-- The ends of the edges do not depend on the marks. -/
theorem endpointError?_exchanged (g : Graph) (x : Edge × EdgeId) :
    g.exchanged.endpointError? x = (g.endpointError? x).map GraphError.exchanged := by
  show g.endpointError? x = _
  rw [endpointError?, Option.map_map]
  rfl

/-- A subgraph lacks the same member under its other name. -/
theorem memberError?_exchanged (g : Graph) (s : Subgraph) :
    g.exchanged.memberError? s.exchanged = (g.memberError? s).map GraphError.exchanged := by
  rw [memberError?, memberError?, Option.map_or, Option.map_map, Option.map_map]
  rfl

/-- The first bad handle of the exchanged graph is that of the graph. -/
theorem validate_exchanged (g : Graph) :
    g.exchanged.validate = g.validate.mapError GraphError.exchanged := by
  have hfirst : g.exchanged.firstError? = g.firstError?.map GraphError.exchanged := by
    rw [firstError?, firstError?, Option.map_or, List.map_findSome?, List.map_findSome?]
    refine congrArg₂ Option.or ?_ ?_
    · exact congrArg (List.findSome? · _) (funext g.endpointError?_exchanged)
    · show (g.subgraphs.map Subgraph.exchanged).findSome? _ = _
      rw [List.findSome?_map]
      exact congrArg (List.findSome? · _) (funext g.memberError?_exchanged)
  rw [validate, hfirst, validate]
  cases g.firstError? with
  | none => rfl
  | some e => rfl

end Graph

/-! ### The check of the annotation -/

namespace Annotated

variable {a : Annotated}

/-- What is wrong with a node is the same with the sides exchanged. -/
theorem nodeError?_exchanged (a : Annotated) (x : Node × NodeId) :
    a.exchanged.nodeError? x = (a.nodeError? x).map RuleError.exchanged := by
  obtain ⟨n, i⟩ := x
  have hor : (i ∈ a.exchanged.lhs.nodes ∨ i ∈ a.exchanged.rhs.nodes) ↔
      (i ∈ a.lhs.nodes ∨ i ∈ a.rhs.nodes) := or_comm
  rw [nodeError?, nodeError?, if_congr hor rfl rfl]
  split
  · rfl
  · rfl

/-- The labels before an edge on a side are those on the other side. -/
theorem labelsBefore_exchanged (a : Annotated) (s : Side) (i : EdgeId) :
    a.exchanged.labelsBefore s i = a.labelsBefore s.other i := by
  cases s with
  | lhs => rfl
  | rhs => rfl

/-- An edge is placed as badly on a side as it is on the other side of
the exchanged annotation. -/
theorem placementError?_exchanged (a : Annotated) (s : Side) (e : Edge) (i : EdgeId) :
    a.exchanged.placementError? s.other e i =
      (a.placementError? s e i).map RuleError.exchanged := by
  rw [placementError?, nodes_part_exchanged, labelsBefore_exchanged, Side.other_other,
    placementError?]
  split
  · rfl
  · cases e.effective with
    | none => rfl
    | some label =>
      dsimp only
      split
      · rfl
      · rfl

/-- Whether an edge is on no side, on both or on one of them is asked of both sides at once. -/
theorem edgeError?_exchanged (a : Annotated) (x : Edge × EdgeId) :
    a.exchanged.edgeError? x = (a.edgeError? x).map RuleError.exchanged := by
  obtain ⟨e, i⟩ := x
  have hlhs : i ∈ a.exchanged.lhs.edges ↔ i ∈ a.rhs.edges := Iff.rfl
  have hrhs : i ∈ a.exchanged.rhs.edges ↔ i ∈ a.lhs.edges := Iff.rfl
  rw [edgeError?, edgeError?]
  simp only [hlhs, hrhs]
  -- An edge on both sides is refused before either side places it, so the order does not show.
  by_cases hl : i ∈ a.lhs.edges
  · by_cases hr : i ∈ a.rhs.edges
    · simp only [hl, hr, if_true]
      rfl
    · simp only [hl, hr, if_true, if_false]
      exact a.placementError?_exchanged .lhs e i
  · by_cases hr : i ∈ a.rhs.edges
    · simp only [hl, hr, if_true, if_false]
      exact a.placementError?_exchanged .rhs e i
    · simp only [hl, hr, if_false]
      rfl

/-- The first fault of the exchanged annotation is that of the annotation, on the other side. -/
theorem firstError?_exchanged (a : Annotated) :
    a.exchanged.firstError? = a.firstError?.map RuleError.exchanged := by
  rw [firstError?, firstError?, Option.map_or, List.map_findSome?, List.map_findSome?]
  refine congrArg₂ Option.or ?_ ?_
  · exact congrArg (List.findSome? · _) (funext a.nodeError?_exchanged)
  · exact congrArg (List.findSome? · _) (funext a.edgeError?_exchanged)

/-! ### The rule -/

/-- The origin of a side is that of the other side. -/
theorem origin_exchanged (a : Annotated) (s : Side) :
    a.exchanged.origin s = a.origin s.other := by
  cases s with
  | lhs => rfl
  | rhs => rfl

/-- The rule of an annotation lists its pairs. -/
theorem listsPairs (a : Annotated) : a.rule.ListsPairs a.pairs := ⟨rfl, rfl, rfl⟩

/-- Pairs are listed once. -/
theorem pairs_nodup : a.pairs.Nodup :=
  List.Nodup.of_map _ (pairs_pairwise.imp Nat.ne_of_lt)

/-- Both annotations have the same pairs. Each has them in the order of its own left side. -/
theorem Sound.pairs_perm (h : a.Sound) : a.exchanged.pairs.Perm (a.pairs.map Pair.exchanged) := by
  have hinj : Function.Injective Pair.exchanged :=
    Function.LeftInverse.injective Pair.exchanged_exchanged
  refine (List.perm_ext_iff_of_nodup pairs_nodup (pairs_nodup.map hinj)).2 fun p => ?_
  rw [h.mem_pairs_exchanged, List.mem_map]
  constructor
  · intro hp
    exact ⟨p.exchanged, hp, p.exchanged_exchanged⟩
  · intro hp
    obtain ⟨q, hq, rfl⟩ := hp
    exact hq

/-- The rules of an annotation and of the exchanged one mirror each other. -/
theorem Sound.mirrors (h : a.Sound) : a.exchanged.derived.Mirrors a.derived where
  lhs_eq := h.inverts.lhs_eq
  rhs_eq := h.inverts.rhs_eq
  lhsOrigin_eq := a.origin_exchanged .lhs
  rhsOrigin_eq := a.origin_exchanged .rhs
  interface_nodes := by
    show a.exchanged.sharedNodes.filterMap a.graph.node? = _
    rw [sharedNodes_exchanged]
    rfl
  toLhs_nodes := h.inverts.toLhs_nodes
  toRhs_nodes := h.inverts.toRhs_nodes
  deletedNodes_eq := h.inverts.deletedNodes
  createdNodes_eq := h.inverts.createdNodes
  deletedEdges_eq := h.inverts.deletedEdges
  createdEdges_eq := h.inverts.createdEdges
  interface_edges :=
    ⟨a.pairs, a.exchanged.pairs, a.listsPairs, a.exchanged.listsPairs, h.pairs_perm⟩

end Annotated

/-! ### The whole derivation -/

namespace Graph

variable {g : Graph} {a : Annotated}

/-- The exchanged graph lacks a mark exactly when the graph lacks the other one. -/
theorem subgraph?_exchanged_eq_none (g : Graph) (s : Side) :
    g.exchanged.subgraph? s.mark = none ↔ g.subgraph? s.other.mark = none := by
  rw [subgraph?_exchanged, Option.map_eq_none_iff]

/-- The error of a valid graph without one of the marks. -/
theorem toRule_of_markFault {e : RuleError} (hvalid : g.Valid) (h : g.MarkFault e) :
    g.toRule = .error e :=
  toRule_eq_error_iff.2 (.inr ⟨hvalid, .inl h⟩)

/-- The result for a valid graph with both marks. -/
theorem toRule_of_annotated (hvalid : g.Valid) (ha : g.annotated = .ok a) :
    g.toRule =
      match a.firstError? with
      | some e => .error e
      | none => .ok a.derived := by
  rw [toRule, validate_eq_ok_iff.2 hvalid, ha]
  rfl

/-- Where one mark is missing, the exchanged graph misses the other one. -/
theorem symmetric_of_missing (hvalid : g.Valid) {s : Side} (hs : g.subgraph? s.mark = none) :
    g.Symmetric g.exchanged.toRule g.toRule := by
  have hswapped := g.subgraph?_exchanged_eq_none
  by_cases hother : g.subgraph? s.other.mark = none
  · -- Both marks are missing: each graph is refused for its own left mark.
    have hnone : ∀ side : Side, g.subgraph? side.mark = none := by
      refine Side.forall_iff.2 ?_
      cases s with
      | lhs => exact ⟨hs, hother⟩
      | rhs => exact ⟨hother, hs⟩
    rw [toRule_of_markFault hvalid (.inl ⟨hnone .lhs, rfl⟩),
      toRule_of_markFault hvalid.exchanged (.inl ⟨(hswapped .lhs).2 (hnone .rhs), rfl⟩)]
    exact .unmarked hvalid hnone
  · -- With one mark missing, the order in which the marks are looked for does not matter.
    cases s with
    | lhs =>
      rw [toRule_of_markFault hvalid (.inl ⟨hs, rfl⟩), toRule_of_markFault hvalid.exchanged
        (.inr ⟨mt (hswapped .lhs).1 hother, (hswapped .rhs).2 hs, rfl⟩)]
      exact .refused (.missingMark .lhs)
    | rhs =>
      rw [toRule_of_markFault hvalid (.inr ⟨hother, hs, rfl⟩),
        toRule_of_markFault hvalid.exchanged (.inl ⟨(hswapped .lhs).2 hs, rfl⟩)]
      exact .refused (.missingMark .rhs)

/-- With both marks, the annotations are checked in the same order and found at fault together. -/
theorem symmetric_of_annotated (hvalid : g.Valid) (ha : g.annotated = .ok a) :
    g.Symmetric g.exchanged.toRule g.toRule := by
  rw [toRule_of_annotated hvalid.exchanged (Annotated.annotated_exchanged ha),
    a.firstError?_exchanged]
  have hresult := toRule_of_annotated hvalid ha
  cases hfirst : a.firstError? with
  | some e =>
    rw [hfirst] at hresult
    rw [hresult]
    exact .refused e
  | none =>
    rw [hfirst] at hresult
    obtain ⟨b, hb, hsound, -⟩ := toRule_eq_ok hresult
    obtain rfl : a = b := Except.ok.inj (ha.symm.trans hb)
    rw [hresult]
    exact .derived hsound.mirrors

/-- A rule is derived from the exchanged graph exactly when one is derived from the graph, and it
is that rule with its sides exchanged. Otherwise both are refused for the same fault on opposite
sides, but that the left mark is reported by both where both marks are missing. -/
theorem toRule_symmetric (g : Graph) : g.Symmetric g.exchanged.toRule g.toRule := by
  cases hcheck : g.validate with
  | error e =>
    have hg : g.toRule = .error (.invalidGraph e) := by rw [toRule, hcheck]
    have hx : g.exchanged.toRule = .error (.invalidGraph e.exchanged) := by
      rw [toRule, validate_exchanged, hcheck]
      rfl
    rw [hg, hx]
    exact .refused (.invalidGraph e)
  | ok u =>
    have hvalid : g.Valid := validate_eq_ok_iff.1 hcheck
    -- An invalid graph and a missing mark are refused before the sides are looked at.
    by_cases hmissing : ∃ s : Side, g.subgraph? s.mark = none
    · obtain ⟨s, hs⟩ := hmissing
      exact symmetric_of_missing hvalid hs
    · have hmarked : ∀ s : Side, ∃ p, g.subgraph? s.mark = some p :=
        fun s => Option.ne_none_iff_exists'.1 fun hs => hmissing ⟨s, hs⟩
      obtain ⟨l, hl⟩ := hmarked .lhs
      obtain ⟨r, hr⟩ := hmarked .rhs
      have ha : g.annotated = .ok ⟨g, l, r⟩ :=
        annotated_eq_ok_iff.2 ⟨rfl, Side.forall_iff.2 ⟨hl, hr⟩⟩
      exact symmetric_of_annotated hvalid ha

/-- The interface edges are in the order of the left side, which need not be that of the right. -/
example :
    let loop (label : String) : Edge := ⟨0, 0, some label⟩
    let g : Graph := {
      nodes := [{ name := "a" }]
      edges := [loop "p", loop "q", loop "q", loop "p"]
      subgraphs := [⟨"L", .ofList [0], .ofList [0, 1]⟩, ⟨"R", .ofList [0], .ofList [2, 3]⟩] }
    let labels (d : DerivedRule) := d.rule.interface.edges.map Edge.effective
    g.toRule.map labels = .ok [some "p", some "q"] ∧
      g.exchanged.toRule.map labels = .ok [some "q", some "p"] := by
  decide

end Graph

end DoublePushout
