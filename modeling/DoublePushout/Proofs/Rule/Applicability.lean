import DoublePushout.Proofs.Embedding
import DoublePushout.Proofs.Rule.Derivation
import DoublePushout.Rule.Rewrite

/-!
# `DoublePushout.Proofs.Rule.Applicability`: where a rule can be applied

At a match some elements of the target are deleted and others kept. `Rule.DeletesNode`,
`Rule.DeletesEdge` and `Rule.KeepsEdge` say which, for any rule and any mapping, and
`Rule.Applicable` is the condition for a rewrite in these terms: the match is an injective
embedding, no edge is both deleted and kept, and no edge that stays loses an end.

`verify_eq_ok_iff` says that `Rule.verify` accepts exactly the matches at which the rule is
applicable, and `verify_faultFree` that it does not fault, both for a well-formed rule. Neither
asks anything of the target or of the match.
-/

set_option autoImplicit false

namespace DoublePushout

/-- Nothing is repeated exactly if the list has no duplicates and nothing in it was seen
before. -/
theorem firstRepeat?_eq_none {seen xs : List Nat} :
    firstRepeat? seen xs = none ↔ xs.Nodup ∧ ∀ x ∈ xs, x ∉ seen := by
  induction xs generalizing seen with
  | nil => simp [firstRepeat?]
  | cons x xs ih =>
    rw [firstRepeat?, List.nodup_cons, List.forall_mem_cons]
    by_cases hx : x ∈ seen
    · simp [hx]
    · rw [if_neg hx, ih]
      simp only [List.mem_cons, not_or]
      constructor
      · rintro ⟨hnodup, hall⟩
        exact ⟨⟨fun hmem => (hall x hmem).1 rfl, hnodup⟩, hx, fun y hy => (hall y hy).2⟩
      · rintro ⟨⟨hmem, hnodup⟩, -, hall⟩
        exact ⟨hnodup, fun y hy => ⟨fun heq => hmem (heq ▸ hy), hall y hy⟩⟩

namespace Rule

variable {r : Rule} {target : Graph} {m : Mapping}

/-! ### What a match deletes and keeps -/

/-- The node is the image of a deleted node. -/
def DeletesNode (r : Rule) (m : Mapping) (n : NodeId) : Prop :=
  ∃ i ∈ r.deletedNodes, m.nodes[i]? = some n

/-- The edge realises a deleted edge. -/
def DeletesEdge (r : Rule) (m : Mapping) (e : EdgeId) : Prop :=
  ∃ i ∈ r.deletedEdges, ∃ images, m.edges[i]? = some images ∧ e ∈ images

/-- The edge realises a preserved edge. -/
def KeepsEdge (r : Rule) (m : Mapping) (e : EdgeId) : Prop :=
  ∃ i ∈ r.toLhs.edges.flatten, ∃ images, m.edges[i]? = some images ∧ e ∈ images

/-- The rule can be applied at the match. -/
structure Applicable (r : Rule) (target : Graph) (m : Mapping) : Prop where
  /-- The match embeds the left side. -/
  embeds : m.Embeds r.lhs target
  /-- Distinct nodes have distinct images. -/
  injective : m.Injective
  /-- No edge is both deleted and kept. -/
  disjoint : ∀ e, r.DeletesEdge m e → ¬ r.KeepsEdge m e
  /-- An edge that is not deleted keeps both its ends. -/
  ends_stay : ∀ i e, target.edge? i = some e → ¬ r.DeletesEdge m i →
    ¬ r.DeletesNode m e.tail ∧ ¬ r.DeletesNode m e.head

/-! ### Reading the match -/

/-- The images of the deleted nodes are the nodes that the rule deletes. -/
theorem mem_deletedImages {ns : List NodeId} (h : r.deletedImages m = .ok ns) {n : NodeId} :
    n ∈ ns ↔ r.DeletesNode m n := by
  rw [mem_of_mapM_eq_ok h]
  exact exists_congr fun i => and_congr_right fun _ => Mapping.node_eq_ok

/-- The realisations of the deleted edges are the edges that the rule deletes. -/
theorem mem_deletedRealisations {es : List EdgeId} (h : r.deletedRealisations m = .ok es)
    {e : EdgeId} : e ∈ es ↔ r.DeletesEdge m e := by
  simp only [deletedRealisations, bind_eq_ok, pure_eq_ok] at h
  obtain ⟨lists, hlists, rfl⟩ := h
  rw [List.mem_flatten]
  constructor
  · rintro ⟨images, hmem, he⟩
    obtain ⟨i, hi, hread⟩ := (mem_of_mapM_eq_ok hlists).1 hmem
    exact ⟨i, hi, images, Mapping.edge_eq_ok.1 hread, he⟩
  · rintro ⟨i, hi, images, hread, he⟩
    exact ⟨images, (mem_of_mapM_eq_ok hlists).2 ⟨i, hi, Mapping.edge_eq_ok.2 hread⟩, he⟩

/-- The match has an image for every deleted node. -/
theorem exists_deletedImages (hlen : m.nodes.length = r.lhs.nodes.length) :
    ∃ ns, r.deletedImages m = .ok ns :=
  exists_mapM_eq_ok fun _ hi => ⟨_, entry_of_lt (hlen ▸ (mem_deletedNodes.1 hi).1)⟩

/-- A match with an entry for each edge has realisations of the deleted ones. -/
theorem exists_deletedRealisations (hlen : m.edges.length = r.lhs.edges.length) :
    ∃ es, r.deletedRealisations m = .ok es := by
  obtain ⟨lists, hlists⟩ : ∃ lists, r.deletedEdges.mapM m.edge = .ok lists :=
    exists_mapM_eq_ok fun _ hi => ⟨_, entry_of_lt (hlen ▸ (mem_deletedEdges.1 hi).1)⟩
  exact ⟨lists.flatten, by rw [deletedRealisations, hlists]; rfl⟩

/-! ### The checks of a match -/

/-- There is no conflict exactly if no edge is both deleted and kept. -/
theorem checkConflicts_eq_ok {deleted : List EdgeId}
    (hread : ∀ i ∈ r.toLhs.edges.flatten, i < m.edges.length) :
    r.checkConflicts m deleted = .ok () ↔ ∀ e ∈ deleted, ¬ r.KeepsEdge m e := by
  rw [checkConflicts, forM_eq_ok]
  constructor
  · rintro h e he ⟨i, hi, images, himages, hmem⟩
    obtain ⟨images', himages', hcheck⟩ := bind_eq_ok.1 (h i hi)
    rw [orFault_eq_ok, Mapping.edge_eq_ok, himages] at himages'
    cases himages'
    split at hcheck
    · cases hcheck
    · next hnone => exact (List.find?_eq_none.1 hnone e hmem) (by simpa using he)
  · -- The match has an entry for every preserved edge, so no read faults.
    intro h i hi
    have hlt := hread i hi
    have himages := List.getElem?_eq_getElem hlt
    refine bind_eq_ok.2 ⟨_, orFault_eq_ok.2 (Mapping.edge_eq_ok.2 himages), ?_⟩
    have hnone : m.edges[i].find? (· ∈ deleted) = none :=
      List.find?_eq_none.2 fun e hmem hdel =>
        h e (by simpa using hdel) ⟨i, hi, _, himages, hmem⟩
    rw [hnone]

/-- The check for conflicts does not fault as long as the match has the preserved edges. -/
theorem checkConflicts_faultFree {deleted : List EdgeId}
    (hread : ∀ i ∈ r.toLhs.edges.flatten, i < m.edges.length) :
    FaultFree (r.checkConflicts m deleted) := by
  refine .forM fun i hi => ?_
  refine .bind (.orFault (entry_of_lt (hread i hi))) fun images _ => ?_
  split
  · exact .refused _
  · exact .ok _

/-- No edge dangles exactly if every edge that stays keeps both its ends. -/
theorem danglingEdge?_eq_none {deletedNodes : List NodeId} {deletedEdges : List EdgeId} :
    danglingEdge? target deletedNodes deletedEdges = none ↔
      ∀ i e, target.edge? i = some e → i ∉ deletedEdges →
        e.tail ∉ deletedNodes ∧ e.head ∉ deletedNodes := by
  rw [danglingEdge?, List.findSome?_eq_none_iff, forall_mem_zipIdx]
  refine forall₃_congr fun i e _ => ?_
  by_cases hi : i ∈ deletedEdges <;> simp [hi, Edge.ends]

/-- No image is repeated exactly if the match is injective. -/
theorem firstRepeat?_nodes_eq_none : firstRepeat? [] m.nodes = none ↔ m.Injective := by
  rw [firstRepeat?_eq_none]
  exact ⟨fun h => h.1, fun h => ⟨h, by simp⟩⟩

/-- A rule accepts a match exactly if all of its checks pass, one after the other. -/
theorem verify_eq_ok {u : Unit} :
    r.verify target m = .ok u ↔ m.validate r.lhs target = .ok () ∧ m.Injective ∧
      ∃ ns es, r.deletedImages m = .ok ns ∧ r.deletedRealisations m = .ok es ∧
        r.checkConflicts m es = .ok () ∧ danglingEdge? target ns es = none := by
  -- The checks of `verify` in order; each is passed exactly if its part of the right side holds.
  rw [verify, bind_eq_ok, ← firstRepeat?_nodes_eq_none]
  simp only [mapError_eq_ok]
  constructor
  · rintro ⟨_, hvalid, h⟩
    split at h
    · cases h
    · next hnone =>
      simp only [bind_eq_ok, orFault_eq_ok] at h
      obtain ⟨ns, hns, es, hes, _, hconflicts, hdangling⟩ := h
      split at hdangling
      · cases hdangling
      · next hdone => exact ⟨hvalid, hnone, ns, es, hns, hes, hconflicts, hdone⟩
  · rintro ⟨hvalid, hnone, ns, es, hns, hes, hconflicts, hdone⟩
    refine ⟨(), hvalid, ?_⟩
    rw [hnone]
    simp only [bind_eq_ok, orFault_eq_ok]
    exact ⟨ns, hns, es, hes, (), hconflicts, by rw [hdone]⟩

/-- The rule is accepted exactly at the matches at which it is applicable. -/
theorem verify_eq_ok_iff (hr : r.WellFormed) :
    r.verify target m = .ok () ↔ r.Applicable target m := by
  rw [verify_eq_ok, Mapping.validate_eq_ok_iff]
  constructor
  · rintro ⟨hembeds, hinj, ns, es, hns, hes, hconflicts, hdangling⟩
    have hread : ∀ i ∈ r.toLhs.edges.flatten, i < m.edges.length :=
      fun i hi => hembeds.edges_length ▸ hr.toLhs_edge_lt i hi
    refine ⟨hembeds, hinj, fun e he => ?_, fun i e hie hi => ?_⟩
    · exact (checkConflicts_eq_ok hread).1 hconflicts e ((mem_deletedRealisations hes).2 he)
    · rw [← mem_deletedRealisations hes] at hi
      rw [← mem_deletedImages hns, ← mem_deletedImages hns]
      exact danglingEdge?_eq_none.1 hdangling i e hie hi
  · intro h
    -- An embedding has an entry for all of the left side, so the deleted elements can be read.
    obtain ⟨ns, hns⟩ := exists_deletedImages h.embeds.nodes_length
    obtain ⟨es, hes⟩ := exists_deletedRealisations h.embeds.edges_length
    have hread : ∀ i ∈ r.toLhs.edges.flatten, i < m.edges.length :=
      fun i hi => h.embeds.edges_length ▸ hr.toLhs_edge_lt i hi
    refine ⟨h.embeds, h.injective, ns, es, hns, hes, ?_, ?_⟩
    · exact (checkConflicts_eq_ok hread).2 fun e he =>
        h.disjoint e ((mem_deletedRealisations hes).1 he)
    · refine danglingEdge?_eq_none.2 fun i e hie hi => ?_
      rw [mem_deletedRealisations hes] at hi
      rw [mem_deletedImages hns, mem_deletedImages hns]
      exact h.ends_stay i e hie hi

/-- Deciding whether a well-formed rule can be applied does not fault, whatever the match. -/
theorem verify_faultFree (hr : r.WellFormed) : FaultFree (r.verify target m) := by
  refine .bind (Mapping.validate_faultFree hr.lhs_valid.ends_lt).mapError fun _ hvalid => ?_
  have hembeds := Mapping.validate_eq_ok_iff.1 (mapError_eq_ok.1 hvalid)
  split
  · exact .refused _
  · -- The match has passed its check, so its tables cover the left side and no read can miss.
    obtain ⟨ns, hns⟩ := exists_deletedImages hembeds.nodes_length
    obtain ⟨es, hes⟩ := exists_deletedRealisations hembeds.edges_length
    refine .bind (.orFault hns) fun ns' _ => .bind (.orFault hes) fun es' _ => ?_
    refine .bind (checkConflicts_faultFree fun i hi => ?_) fun _ _ => ?_
    · exact hembeds.edges_length ▸ hr.toLhs_edge_lt i hi
    · split
      · exact .refused _
      · exact .ok _

end Rule

end DoublePushout
