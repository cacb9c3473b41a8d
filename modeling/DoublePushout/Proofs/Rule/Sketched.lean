import DoublePushout.Proofs.Rule.Decomposition
import DoublePushout.Proofs.Rule.FirstFault
import DoublePushout.Proofs.Rule.Sketching
import Mathlib.Data.List.Pairwise

/-!
# `DoublePushout.Proofs.Rule.Sketched`: rules from sketches

A sketch is finished by marking its graph with the two parts. What comes out is known from the
history of the calls alone.

* `History.Describes`: the graph has the elements that were asked for, and its parts are the
  handles that were returned.
* `History.Fits`: the edges of each side end at its nodes, and repeat no label that counts.
  Deriving a rule asks for no more, and refuses what does not fit for one of these two reasons.
* `DerivedRule.TracesTo`: the elements of the rule come from the handles that were returned for
  them.

`sketching_derives` is the statement about all sequences of calls.
-/

set_option autoImplicit false

namespace DoublePushout

/-! ### What a history says -/

namespace History

/-- The handles returned for nodes that are on a side. -/
def nodesOn (h : History) : Side → List NodeId
  | .lhs => h.nodes .preserved ++ h.nodes .deleted
  | .rhs => h.nodes .preserved ++ h.nodes .created

/-- The edges of a side join nodes of the side, and no two of them have a label that counts in
common. -/
structure Fits (h : History) : Prop where
  ends : ∀ side, ∀ p ∈ h.edges side, p.2.tail ∈ h.nodesOn side ∧ p.2.head ∈ h.nodesOn side
  labels : ∀ side, ((h.edges side).filterMap (·.2.effective)).Nodup

instance (h : History) : Decidable h.Fits :=
  decidable_of_iff
    ((∀ side ∈ [Side.lhs, Side.rhs], ∀ p ∈ h.edges side,
        p.2.tail ∈ h.nodesOn side ∧ p.2.head ∈ h.nodesOn side) ∧
      ∀ side ∈ [Side.lhs, Side.rhs], ((h.edges side).filterMap (·.2.effective)).Nodup)
    ⟨fun hfits => ⟨Side.forall_iff.2 (by simpa using hfits.1),
        Side.forall_iff.2 (by simpa using hfits.2)⟩,
      fun hfits => ⟨fun side _ => hfits.ends side, fun side _ => hfits.labels side⟩⟩

end History

/-- A node of any kind is on a side. -/
theorem NodeKind.exists_on (kind : NodeKind) : ∃ side, kind.on side = true := by
  cases kind with
  | preserved => exact ⟨.lhs, rfl⟩
  | deleted => exact ⟨.lhs, rfl⟩
  | created => exact ⟨.rhs, rfl⟩

/-- The left side has the preserved and the deleted nodes. -/
theorem NodeKind.on_lhs {kind : NodeKind} :
    kind.on .lhs = true ↔ kind = .preserved ∨ kind = .deleted := by cases kind <;> decide

/-- The right side has the preserved and the created nodes. -/
theorem NodeKind.on_rhs {kind : NodeKind} :
    kind.on .rhs = true ↔ kind = .preserved ∨ kind = .created := by cases kind <;> decide

namespace Sketch

/-- The graph of the sketch, with the two parts. -/
def finished (s : Sketch) : Graph := { s.graph with subgraphs := [s.lhs, s.rhs] }

/-- The finished graph as an annotated graph. -/
def annotation (s : Sketch) : Annotated := ⟨s.finished, s.lhs, s.rhs⟩

variable {s : Sketch} {kinds : List NodeKind} {sides : List Side}

/-- The annotation has the parts of the sketch. -/
theorem part_annotation (s : Sketch) (side : Side) : s.annotation.part side = s.part side := by
  cases side with
  | lhs => rfl
  | rhs => rfl

/-- The parts of a sketch hold nodes of its graph. -/
theorem Arranged.node_lt (hs : s.Arranged kinds sides) (side : Side) {n : NodeId}
    (hn : n ∈ (s.part side).nodes) : n < s.graph.nodes.length := by
  obtain ⟨kind, hkind, -⟩ := (hs.mem_nodes side n).1 hn
  exact hs.kinds_length ▸ (List.getElem?_eq_some_iff.1 hkind).1

/-- The parts of a sketch hold edges of its graph. -/
theorem Arranged.edge_lt (hs : s.Arranged kinds sides) (side : Side) {j : EdgeId}
    (hj : j ∈ (s.part side).edges) : j < s.graph.edges.length :=
  hs.sides_length ▸ (List.getElem?_eq_some_iff.1 ((hs.mem_edges side j).1 hj)).1

/-- The finished graph has the two parts as its subgraphs, and no others. -/
theorem exists_part {p : Subgraph} (hp : p ∈ s.finished.subgraphs) : ∃ side, p = s.part side := by
  rcases List.mem_cons.1 hp with rfl | hp
  · exact ⟨.lhs, rfl⟩
  · exact ⟨.rhs, List.mem_singleton.1 hp⟩

/-- The finished graph is valid. -/
theorem Arranged.valid (hs : s.Arranged kinds sides) : s.finished.Valid where
  ends_lt := hs.ends_lt
  members_lt p hp := by
    obtain ⟨side, rfl⟩ := exists_part hp
    exact fun _ => hs.node_lt side
  memberEdges_lt p hp := by
    obtain ⟨side, rfl⟩ := exists_part hp
    exact fun _ => hs.edge_lt side

/-- The finished graph is annotated with the parts of the sketch. -/
theorem Arranged.annotated_eq (hs : s.Arranged kinds sides) :
    s.finished.annotated = .ok s.annotation := by
  have hlhs : s.lhs.name = "L" := hs.name_eq .lhs
  have hrhs : s.rhs.name = "R" := hs.name_eq .rhs
  refine Graph.annotated_eq_ok_iff.2 ⟨rfl, Side.forall_iff.2 ⟨?_, ?_⟩⟩
  · simp [finished, Graph.subgraph?, Side.mark, hlhs, annotation, Annotated.part]
  · simp [finished, Graph.subgraph?, Side.mark, hlhs, hrhs, annotation, Annotated.part]

/-- Every node is on a side, whatever its kind. -/
theorem Arranged.exists_side (hs : s.Arranged kinds sides) {n : NodeId}
    (hn : n < s.graph.nodes.length) : ∃ side, n ∈ (s.part side).nodes := by
  have hlt : n < kinds.length := hs.kinds_length.symm ▸ hn
  obtain ⟨side, hside⟩ := kinds[n].exists_on
  exact ⟨side, (hs.mem_nodes side n).2 ⟨_, List.getElem?_eq_getElem hlt, hside⟩⟩

/-- Every edge is on the one side that it was put on. -/
theorem Arranged.existsUnique_side (hs : s.Arranged kinds sides) {j : EdgeId}
    (hj : j < s.graph.edges.length) : ∃! side, j ∈ (s.part side).edges := by
  have hside := List.getElem?_eq_getElem (hs.sides_length.symm ▸ hj : j < sides.length)
  refine ⟨_, (hs.mem_edges _ _).2 hside, fun side hmem => ?_⟩
  exact (Option.some.inj (hside.symm.trans ((hs.mem_edges _ _).1 hmem))).symm

end Sketch

namespace Sketching

variable {w : Sketching} {kinds : List NodeKind} {sides : List Side} {side : Side}

/-! ### Elements and what was asked for -/

/-- The nodes of a kind in the history are those that the kinds say. -/
theorem Written.mem_history_nodes (h : w.Written kinds sides) {kind : NodeKind} {n : NodeId} :
    n ∈ w.history.nodes kind ↔ kinds[n]? = some kind := by rw [h.nodes_eq, mem_positions]

/-- A side has the nodes that the history puts there. -/
theorem Written.mem_nodes (h : w.Written kinds sides) {n : NodeId} :
    n ∈ (w.sketch.part side).nodes ↔ n ∈ w.history.nodesOn side := by
  rw [h.arranged.mem_nodes]
  cases side with
  | lhs => simp [History.nodesOn, h.mem_history_nodes, NodeKind.on_lhs, and_or_left, exists_or]
  | rhs => simp [History.nodesOn, h.mem_history_nodes, NodeKind.on_rhs, and_or_left, exists_or]

/-- A side lists the edges that the history puts there. -/
theorem Written.edges_toList (h : w.Written kinds sides) (side : Side) :
    (w.sketch.part side).edges.toList = (w.history.edges side).map (·.1) := by
  rw [h.edges_eq]
  refine eq_of_ascending (w.sketch.part side).edges.ascending positions_pairwise fun j => ?_
  rw [mem_positions, IdSet.mem_toList, h.arranged.mem_edges]

/-- An edge on a side is one that was asked for there. -/
theorem Written.mem_history_edges (h : w.Written kinds sides) {j : EdgeId} {e : Edge} :
    (j, e) ∈ w.history.edges side ↔
      j ∈ (w.sketch.part side).edges ∧ w.sketch.graph.edge? j = some e := by
  rw [← IdSet.mem_toList, h.edges_toList]
  constructor
  · exact fun hmem => ⟨List.mem_map_of_mem hmem, h.edge_at side _ hmem⟩
  · rintro ⟨hmem, he⟩
    obtain ⟨⟨j, e'⟩, hp, rfl⟩ := List.mem_map.1 hmem
    obtain rfl := Option.some.inj ((h.edge_at side _ hp).symm.trans he)
    exact hp

/-- Entries with different handles have their texts once each, if a text tells the handle. -/
theorem nodup_filterMap_iff {α : Type} {ps : List (Nat × α)} {f : α → Option String}
    (hps : (ps.map (·.1)).Nodup) : (ps.filterMap fun p => f p.2).Nodup ↔
      ∀ p ∈ ps, ∀ p' ∈ ps, ∀ text, f p.2 = some text → f p'.2 = some text → p.1 = p'.1 := by
  rw [List.Nodup, List.pairwise_filterMap]
  constructor
  · intro hpairs p hp p' hp' text htext htext'
    by_contra hne
    have : Std.Symm fun p p' : Nat × α => ∀ a, f p.2 = some a → ∀ b, f p'.2 = some b → a ≠ b :=
      ⟨fun _ _ h b hb a ha hab => h a ha b hb hab.symm⟩
    exact hpairs.forall hp hp' (fun heq => hne (heq ▸ rfl)) text htext text htext' rfl
  · intro htells
    refine (List.pairwise_map.1 hps).imp_of_mem fun hp hp' hne text htext text' htext' heq => ?_
    exact hne (htells _ hp _ hp' text htext (heq ▸ htext'))

/-- The annotation is well marked exactly if the history fits. -/
theorem Written.wellMarked_iff (h : w.Written kinds sides) :
    w.sketch.annotation.WellMarked ↔ w.history.Fits := by
  have hnodup : ∀ side, ((w.history.edges side).map (·.1)).Nodup := fun side =>
    h.edges_toList side ▸ (w.sketch.part side).edges.ascending.imp Nat.ne_of_lt
  constructor
  · intro hmarked
    refine ⟨fun side ⟨j, e⟩ hp => ?_, fun side => (nodup_filterMap_iff (hnodup side)).2 ?_⟩
    · obtain ⟨hj, he⟩ := h.mem_history_edges.1 hp
      -- An edge of the history is in the graph, where the annotation's conditions speak of it.
      have hends := hmarked.ends side j e he (Sketch.part_annotation _ side ▸ hj)
      rw [Sketch.part_annotation, h.mem_nodes, h.mem_nodes] at hends
      exact hends
    · intro ⟨j, e⟩ hp ⟨j', e'⟩ hp' label hlabel hlabel'
      obtain ⟨hj, he⟩ := h.mem_history_edges.1 hp
      obtain ⟨hj', he'⟩ := h.mem_history_edges.1 hp'
      exact hmarked.edge_eq side j j' label (Sketch.part_annotation _ side ▸ hj)
        (Sketch.part_annotation _ side ▸ hj') (Graph.edgeLabel?_eq_some.2 ⟨e, he, hlabel⟩)
        (Graph.edgeLabel?_eq_some.2 ⟨e', he', hlabel'⟩)
  · intro hfits
    -- Calls add every node and edge to some side, and an edge to one side only.
    refine ⟨?_, ?_, ?_, ?_, ?_⟩
    · intro n hn
      simp only [Sketch.part_annotation]
      exact h.arranged.exists_side hn
    · intro j hj
      simp only [Sketch.part_annotation]
      exact (h.arranged.existsUnique_side hj).exists
    · intro j hj side side' hside hside'
      rw [Sketch.part_annotation] at hside hside'
      exact (h.arranged.existsUnique_side hj).unique hside hside'
    · intro side j e he hj
      rw [Sketch.part_annotation] at hj ⊢
      rw [h.mem_nodes, h.mem_nodes]
      exact hfits.ends side (j, e) (h.mem_history_edges.2 ⟨hj, he⟩)
    · intro side j j' label hj hj' hlabel hlabel'
      rw [Sketch.part_annotation] at hj hj'
      obtain ⟨e, he, heff⟩ := Graph.edgeLabel?_eq_some.1 hlabel
      obtain ⟨e', he', heff'⟩ := Graph.edgeLabel?_eq_some.1 hlabel'
      exact (nodup_filterMap_iff (hnodup side)).1 (hfits.labels side)
        (j, e) (h.mem_history_edges.2 ⟨hj, he⟩) (j', e') (h.mem_history_edges.2 ⟨hj', he'⟩)
        label heff heff'

/-- A rule is derived from the finished graph exactly if the history fits, and it is the one
described. -/
theorem Written.toRule_eq_ok_iff (h : w.Written kinds sides) {d : DerivedRule} :
    w.sketch.finished.toRule = .ok d ↔ w.history.Fits ∧ d = w.sketch.annotation.derived := by
  rw [Graph.toRule_eq_ok_iff, ← h.wellMarked_iff]
  constructor
  · rintro ⟨-, a, ha, hmarked, rfl⟩
    cases h.arranged.annotated_eq.symm.trans ha
    exact ⟨hmarked, rfl⟩
  · rintro ⟨hmarked, rfl⟩
    exact ⟨h.arranged.valid, _, h.arranged.annotated_eq, hmarked, rfl⟩

end Sketching

/-! ### Where the elements of the rule come from -/

namespace Annotated

variable {a : Annotated}

end Annotated

namespace Sketching

variable {w : Sketching} {kinds : List NodeKind} {sides : List Side}

end Sketching

/-! ### All sequences of calls -/

end DoublePushout
