import DoublePushout.Proofs.Graph.Validity
import DoublePushout.Rule.Annotation

/-!
# `DoublePushout.Proofs.Rule.Marking`: what the check of an annotation establishes

`Annotated.firstError?` goes through the nodes of an annotated graph, then through the edges, and
stops at the first one that is marked wrongly. `Annotated.WellMarked` says in one piece what it
asks for, without an order: every element is on a side, an edge on one side only and with both its
ends, and no label that counts is on two edges of a side. Neither side is treated in its own way,
so the two can be exchanged.

* `firstError?_eq_none_iff`: the annotation has no fault exactly when it is well marked.
* `toRule_eq_ok_iff`: a rule is derived exactly from a valid graph with a well-marked annotation.
-/

set_option autoImplicit false

namespace DoublePushout

/-- What holds of both sides holds of every side. -/
theorem Side.forall_iff {p : Side → Prop} : (∀ side, p side) ↔ p .lhs ∧ p .rhs :=
  ⟨fun h => ⟨h _, h _⟩, fun ⟨hl, hr⟩ side => by
    cases side with
    | lhs => exact hl
    | rhs => exact hr⟩

/-- The label of an edge, if there is an edge with a label that counts. -/
def Graph.edgeLabel? (g : Graph) (j : EdgeId) : Option String := (g.edge? j).bind Edge.effective

/-- The label of a handle is the one that counts of the edge there. -/
theorem Graph.edgeLabel?_eq_some {g : Graph} {j : EdgeId} {label : String} :
    g.edgeLabel? j = some label ↔ ∃ e, g.edge? j = some e ∧ e.effective = some label :=
  Option.bind_eq_some_iff

/-- Only the handles of edges have a label. -/
theorem Graph.edgeLabel?_lt {g : Graph} {i : EdgeId} {label : String}
    (h : g.edgeLabel? i = some label) : i < g.edges.length := by
  obtain ⟨e, he, -⟩ := edgeLabel?_eq_some.1 h
  exact (List.getElem?_eq_some_iff.1 he).1

namespace Annotated

variable {a : Annotated}

/-- The annotation describes a rule. -/
structure WellMarked (a : Annotated) : Prop where
  /-- Every node is on a side. -/
  node : ∀ n < a.graph.nodes.length, ∃ side, n ∈ (a.part side).nodes
  /-- Every edge is on a side. -/
  edge : ∀ j < a.graph.edges.length, ∃ side, j ∈ (a.part side).edges
  /-- An edge is on one side only. -/
  side_eq : ∀ j < a.graph.edges.length, ∀ side side',
    j ∈ (a.part side).edges → j ∈ (a.part side').edges → side = side'
  /-- An edge ends inside its side. -/
  ends : ∀ side j e, a.graph.edge? j = some e → j ∈ (a.part side).edges →
    e.tail ∈ (a.part side).nodes ∧ e.head ∈ (a.part side).nodes
  /-- A label that counts is on one edge of a side at most. -/
  edge_eq : ∀ side j j' label, j ∈ (a.part side).edges → j' ∈ (a.part side).edges →
    a.graph.edgeLabel? j = some label → a.graph.edgeLabel? j' = some label → j = j'

/-! ### One node, one edge -/

/-- The check passes a node exactly if it is on a side. -/
theorem nodeError?_eq_none {n : Node} {i : NodeId} :
    a.nodeError? (n, i) = none ↔ ∃ side, i ∈ (a.part side).nodes := by
  rw [nodeError?]
  constructor
  · intro h
    split at h
    · next hmem =>
      rcases hmem with hlhs | hrhs
      · exact ⟨.lhs, hlhs⟩
      · exact ⟨.rhs, hrhs⟩
    · cases h
  · rintro ⟨side, hi⟩
    cases side with
    | lhs => exact if_pos (.inl hi)
    | rhs => exact if_pos (.inr hi)

/-- The labels before an edge are those of the edges of its side with a lower handle. -/
theorem mem_labelsBefore {side : Side} {i : EdgeId} {label : String} :
    label ∈ a.labelsBefore side i ↔
      ∃ j < i, j ∈ (a.part side).edges ∧ a.graph.edgeLabel? j = some label := by
  simp only [labelsBefore, List.mem_filterMap, Prod.exists, Graph.edgeLabel?_eq_some, Graph.edge?]
  constructor
  · rintro ⟨e, j, hmem, h⟩
    -- Only the edges before `i` are looked at.
    have hj := List.mem_zipIdx_iff_getElem?.1 hmem
    rw [List.getElem?_take] at hj
    split at hj
    · next hlt =>
      split at h
      · next hside => exact ⟨j, hlt, hside, e, hj, h⟩
      · cases h
    · cases hj
  · rintro ⟨j, hlt, hside, e, hj, h⟩
    refine ⟨e, j, List.mem_zipIdx_iff_getElem?.2 ?_, ?_⟩
    · rw [List.getElem?_take, if_pos hlt]
      exact hj
    · rw [if_pos hside]
      exact h

/-- The check passes an edge on a side exactly if its ends are there and its label is new
there. -/
theorem placementError?_eq_none {side : Side} {e : Edge} {i : EdgeId} :
    a.placementError? side e i = none ↔
      (e.tail ∈ (a.part side).nodes ∧ e.head ∈ (a.part side).nodes) ∧
        ∀ label, e.effective = some label → label ∉ a.labelsBefore side i := by
  have hends : e.ends.any (· ∉ (a.part side).nodes) = true ↔
      ¬ (e.tail ∈ (a.part side).nodes ∧ e.head ∈ (a.part side).nodes) := by
    simp [Edge.ends, imp_iff_not_or]
  rw [placementError?]
  split
  · next h => simp [hends.1 h]
  · next h =>
    have hin := not_not.1 (mt hends.2 h)
    cases e.effective with
    | none => simp [hin]
    | some label => by_cases hmem : label ∈ a.labelsBefore side i <;> simp [hin, hmem]

/-- An edge has no fault when it is on exactly one side and is placed well there. -/
theorem edgeError?_eq_none {e : Edge} {i : EdgeId} :
    a.edgeError? (e, i) = none ↔
      ∃ side, (∀ side', i ∈ (a.part side').edges ↔ side' = side) ∧
        a.placementError? side e i = none := by
  rw [edgeError?]
  -- Each of the four cases of membership leaves one side to speak of, or none.
  by_cases hlhs : i ∈ a.lhs.edges <;> by_cases hrhs : i ∈ a.rhs.edges <;>
    simp only [hlhs, hrhs, if_true, if_false, reduceCtorEq, false_iff, not_exists, not_and]
  · intro side hside
    have hl := (hside .lhs).1 hlhs
    have hr := (hside .rhs).1 hrhs
    exact absurd (hl.trans hr.symm) (by decide)
  · constructor
    · intro h
      exact ⟨.lhs, by simp [Side.forall_iff, part, hlhs, hrhs], h⟩
    · rintro ⟨side, hside, h⟩
      rw [(hside .lhs).1 hlhs]
      exact h
  · constructor
    · intro h
      exact ⟨.rhs, by simp [Side.forall_iff, part, hlhs, hrhs], h⟩
    · rintro ⟨side, hside, h⟩
      rw [(hside .rhs).1 hrhs]
      exact h
  · intro side hside
    have hmem := (hside side).2 rfl
    cases side with
    | lhs => exact absurd hmem hlhs
    | rhs => exact absurd hmem hrhs

/-! ### The whole annotation -/

/-- No label is repeated on a side when none is among the labels before it. -/
theorem edge_eq_of_not_mem_labelsBefore {side : Side}
    (h : ∀ j label, j ∈ (a.part side).edges → a.graph.edgeLabel? j = some label →
      label ∉ a.labelsBefore side j) {j j' : EdgeId} {label : String}
    (hj : j ∈ (a.part side).edges) (hj' : j' ∈ (a.part side).edges)
    (hlabel : a.graph.edgeLabel? j = some label) (hlabel' : a.graph.edgeLabel? j' = some label) :
    j = j' := by
  rcases Nat.lt_trichotomy j j' with hlt | heq | hgt
  · exact absurd (mem_labelsBefore.2 ⟨j, hlt, hj, hlabel⟩) (h j' label hj' hlabel')
  · exact heq
  · exact absurd (mem_labelsBefore.2 ⟨j', hgt, hj', hlabel'⟩) (h j label hj hlabel)

/-- An annotation has no fault exactly when it is well marked. -/
theorem firstError?_eq_none_iff : a.firstError? = none ↔ a.WellMarked := by
  rw [firstError?, Option.or_eq_none_iff, List.findSome?_eq_none_iff, List.findSome?_eq_none_iff,
    forall_mem_zipIdx, forall_mem_zipIdx]
  simp only [nodeError?_eq_none, edgeError?_eq_none, placementError?_eq_none]
  constructor
  · rintro ⟨hnodes, hedges⟩
    -- An edge that is on a side has been checked on that side.
    have hplaced : ∀ side j e, a.graph.edge? j = some e → j ∈ (a.part side).edges →
        (∀ side', j ∈ (a.part side').edges ↔ side' = side) ∧
        (e.tail ∈ (a.part side).nodes ∧ e.head ∈ (a.part side).nodes) ∧
        ∀ label, e.effective = some label → label ∉ a.labelsBefore side j := by
      intro side j e he hj
      obtain ⟨side', hside', hrest⟩ := hedges j e he
      obtain rfl := (hside' side).1 hj
      exact ⟨hside', hrest⟩
    refine ⟨fun n hn => hnodes n _ (List.getElem?_eq_getElem hn), fun j hj => ?_,
      fun j hlt side side' hj hj' => ?_, fun side j e he hj => (hplaced side j e he hj).2.1,
      fun side j j' label => edge_eq_of_not_mem_labelsBefore ?_⟩
    · obtain ⟨side, hside, -⟩ := hedges j _ (List.getElem?_eq_getElem hj)
      exact ⟨side, (hside side).2 rfl⟩
    · exact (((hplaced side j _ (List.getElem?_eq_getElem hlt) hj).1 side').1 hj').symm
    · intro j label hj hlabel
      obtain ⟨e, he, heff⟩ := Graph.edgeLabel?_eq_some.1 hlabel
      exact (hplaced side j e he hj).2.2 label heff
  · intro h
    refine ⟨fun i n hn => h.node i (List.getElem?_eq_some_iff.1 hn).1, fun j e he => ?_⟩
    have hlt : j < a.graph.edges.length := (List.getElem?_eq_some_iff.1 he).1
    obtain ⟨side, hside⟩ := h.edge j hlt
    refine ⟨side, fun side' => ⟨fun h' => h.side_eq j hlt side' side h' hside, ?_⟩,
      h.ends side j e he hside, fun label heff hmem => ?_⟩
    · rintro rfl
      exact hside
    · obtain ⟨j', hlt', hside', hlabel'⟩ := mem_labelsBefore.1 hmem
      have hlabel := Graph.edgeLabel?_eq_some.2 ⟨e, he, heff⟩
      exact absurd (h.edge_eq side j' j label hside' hside hlabel' hlabel) (Nat.ne_of_lt hlt')

end Annotated

/-! ### Derivation -/

namespace Graph

variable {g : Graph} {d : DerivedRule}

/-- The parts that mark the sides are the first subgraphs of their names. -/
theorem annotated_eq_ok_iff {a : Annotated} :
    g.annotated = .ok a ↔ a.graph = g ∧ ∀ side, g.subgraph? side.mark = some (a.part side) := by
  rw [annotated, Side.forall_iff]
  constructor
  · intro h
    split at h
    · cases h
    · cases h
    · next lhs rhs hlhs hrhs =>
      cases h
      exact ⟨rfl, hlhs, hrhs⟩
  · rintro ⟨rfl, hlhs, hrhs⟩
    rw [hlhs, hrhs]
    rfl

/-- A rule is derived exactly from a valid graph with a well-marked annotation. -/
theorem toRule_eq_ok_iff :
    g.toRule = .ok d ↔ g.Valid ∧ ∃ a, g.annotated = .ok a ∧ a.WellMarked ∧
      d = ⟨a.rule, a.origin .lhs, a.origin .rhs⟩ := by
  rw [toRule, ← validate_eq_ok_iff]
  constructor
  · intro h
    split at h
    · cases h
    · next hvalid =>
      obtain ⟨a, ha, hrest⟩ := bind_eq_ok.1 h
      split at hrest
      · cases hrest
      · next hnone =>
        cases hrest
        exact ⟨hvalid, a, ha, Annotated.firstError?_eq_none_iff.1 hnone, rfl⟩
  · rintro ⟨hvalid, a, ha, hmarked, rfl⟩
    rw [hvalid]
    refine bind_eq_ok.2 ⟨a, ha, ?_⟩
    rw [Annotated.firstError?_eq_none_iff.2 hmarked]

end Graph

end DoublePushout
