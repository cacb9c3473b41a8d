import DoublePushout.Proofs.Matching.Exactness
import DoublePushout.Proofs.Rule.Refusal

/-!
# `DoublePushout.Proofs.Rule.Blocked`: rules that can be applied nowhere

Whether a rule can be applied is asked at a match, but for some rules the answer is known
beforehand. This module has two such conditions on the left side alone. Both can be computed.

* A rule is `Contested` if a deleted and a preserved edge have the same ends. A match that the
  search finds realises both by all edges between the images of the ends, so every one of them is
  deleted and kept (`exists_conflict_of_contested`). Without such a pair an injective match keeps
  the realisations of its edges apart (`contested_of_conflict`).
* A rule is `Stranded` if a preserved edge ends at a deleted node. Whatever realises this edge
  stays, and dangles (`Stranded.not_applicable`).

`conflict_decided_by_rule` is the statement about derived rules.
-/

set_option autoImplicit false

namespace DoublePushout.Rule

variable {r : Rule} {target : Graph} {m : Mapping}

/-- A deleted and a preserved edge of the left side have the same tail and the same head. -/
def Contested (r : Rule) : Prop :=
  ∃ i ∈ r.deletedEdges, ∃ k ∈ r.toLhs.edges.flatten,
    (r.lhs.edge? i).map Edge.ends = (r.lhs.edge? k).map Edge.ends

instance (r : Rule) : Decidable r.Contested :=
  inferInstanceAs (Decidable (∃ i ∈ r.deletedEdges, ∃ k ∈ r.toLhs.edges.flatten,
    (r.lhs.edge? i).map Edge.ends = (r.lhs.edge? k).map Edge.ends))

/-- A preserved edge of the left side ends at a deleted node. -/
def Stranded (r : Rule) : Prop :=
  ∃ k ∈ r.toLhs.edges.flatten, ∃ f ∈ r.lhs.edge? k, ∃ n ∈ f.ends, n ∈ r.deletedNodes

instance (r : Rule) : Decidable r.Stranded :=
  inferInstanceAs (Decidable (∃ k ∈ r.toLhs.edges.flatten, ∃ f ∈ r.lhs.edge? k, ∃ n ∈ f.ends,
    n ∈ r.deletedNodes))

/-! ### Contested rules -/

/-- An edge that is deleted and kept realises two edges of the left side. An injective match tells
their ends from those of others, so they have the same. -/
theorem contested_of_conflict (hr : r.WellFormed) (hm : m.Embeds r.lhs target)
    (hinj : m.Injective) {j : EdgeId} (hdel : r.DeletesEdge m j) (hkeep : r.KeepsEdge m j) :
    r.Contested := by
  obtain ⟨i, hi, images, himages, hj⟩ := hdel
  obtain ⟨k, hk, images', himages', hj'⟩ := hkeep
  have he := List.getElem?_eq_getElem (mem_deletedEdges.1 hi).1
  have hf := List.getElem?_eq_getElem (hr.toLhs_edge_lt k hk)
  obtain ⟨tail, head, _, hi'⟩ := hm.edge i _ he
  obtain ⟨tail', head', _, hk'⟩ := hm.edge k _ hf
  cases himages.symm.trans hi'.images_eq
  cases himages'.symm.trans hk'.images_eq
  -- The one target edge joins the images of the ends of both.
  obtain ⟨t, ht, hjoins⟩ := hi'.joins j hj
  obtain ⟨t', ht', hjoins'⟩ := hk'.joins j hj'
  cases ht.symm.trans ht'
  obtain ⟨rfl, rfl⟩ := Edge.joins_iff.1 hjoins
  obtain ⟨htail, hhead⟩ := Edge.joins_iff.1 hjoins'
  have htails := eq_of_getElem?_eq hinj hi'.tail_eq (htail ▸ hk'.tail_eq)
  have hheads := eq_of_getElem?_eq hinj hi'.head_eq (hhead ▸ hk'.head_eq)
  refine ⟨i, hi, k, hk, ?_⟩
  rw [Graph.edge?, Graph.edge?, he, hf, Option.map_some, Option.map_some, Edge.ends, Edge.ends,
    htails, hheads]

/-- A match that realises its edges in full realises both edges of a contested pair alike. -/
theorem exists_conflict_of_contested (hm : m.Embeds r.lhs target) (hfull : m.Full r.lhs target)
    (h : r.Contested) : ∃ j, r.DeletesEdge m j ∧ r.KeepsEdge m j := by
  obtain ⟨i, hi, k, hk, hends⟩ := h
  have he := List.getElem?_eq_getElem (mem_deletedEdges.1 hi).1
  rw [Graph.edge?, he, Option.map_some, eq_comm, Option.map_eq_some_iff] at hends
  obtain ⟨f, hf, hends⟩ := hends
  simp only [Edge.ends, List.cons.injEq, and_true] at hends
  obtain ⟨htails, hheads⟩ := hends
  -- Both are realised by all edges between the same two nodes.
  obtain ⟨tail, head, htail, hhead, hedges⟩ := hfull i _ he
  obtain ⟨tail', head', htail', hhead', hedges'⟩ := hfull k f hf
  rw [htails] at htail'
  rw [hheads] at hhead'
  cases htail.symm.trans htail'
  cases hhead.symm.trans hhead'
  obtain ⟨_, _, images, hrealises⟩ := hm.edge i _ he
  have himages := hrealises.images_eq
  rw [Mapping.edge_eq_ok.1 hedges] at himages
  cases himages
  obtain ⟨j, hj⟩ := List.exists_mem_of_ne_nil _ hrealises.ne_nil
  exact ⟨j, ⟨i, hi, _, Mapping.edge_eq_ok.1 hedges, hj⟩,
    ⟨k, hk, _, Mapping.edge_eq_ok.1 hedges', hj⟩⟩

/-! ### Stranded rules -/

/-- What realises an edge that is preserved without an end dangles. -/
theorem Stranded.not_applicable (h : r.Stranded) : ¬ r.Applicable target m := by
  intro happ
  obtain ⟨k, hk, f, hf, n, hn, hdel⟩ := h
  obtain ⟨tail, head, images, hrealises⟩ := happ.embeds.edge k f hf
  obtain ⟨j, hj⟩ := List.exists_mem_of_ne_nil _ hrealises.ne_nil
  obtain ⟨t, ht, hjoins⟩ := hrealises.joins j hj
  obtain ⟨rfl, rfl⟩ := Edge.joins_iff.1 hjoins
  -- The edge is kept, so it is not deleted, and both its ends would have to stay.
  have hkeep : r.KeepsEdge m j := ⟨k, hk, images, hrealises.images_eq, hj⟩
  obtain ⟨htail, hhead⟩ := happ.ends_stay j t ht fun hdel => happ.disjoint j hdel hkeep
  rw [Edge.ends, List.mem_cons, List.mem_singleton] at hn
  rcases hn with rfl | rfl
  · exact htail ⟨f.tail, hdel, hrealises.tail_eq⟩
  · exact hhead ⟨f.head, hdel, hrealises.head_eq⟩

/-! ### Derived rules -/

/-- Whether an injective match that the search finds is refused for a conflict depends on the rule
alone: it is if the rule is contested. A stranded rule is accepted at no match in any target. -/
theorem conflict_decided_by_rule {g : Graph} {d : DerivedRule} (hd : g.toRule = .ok d) :
    (d.rule.lhs.nodes ≠ [] → ∀ target injective, ∃ ms,
      (Query.of d.rule.lhs target injective >>= Query.findAll) = .ok ms ∧
        ∀ m ∈ ms, m.Injective →
          ((∃ j, d.rule.verify target m = .error (.refused (.edgeConflict j))) ↔
            d.rule.Contested)) ∧
    (d.rule.Stranded → ∀ target m, d.rule.verify target m ≠ .ok ()) := by
  have hr := Graph.toRule_wellFormed hd
  refine ⟨fun hne target injective => ?_, fun hstranded target m hverify => ?_⟩
  · obtain ⟨ms, hms, -, hmem⟩ := exists_findAll target injective hne hr.lhs_valid.ends_lt
    refine ⟨ms, by rw [Query.of_eq_ok hne]; exact hms, fun m hm hinj => ?_⟩
    obtain ⟨hvalid, hfull, -⟩ := (hmem m).1 hm
    have hembeds := Mapping.validate_eq_ok_iff.1 hvalid
    rw [exists_conflict_refused_iff hr hvalid hinj]
    constructor
    · intro h
      obtain ⟨j, hdel, hkeep⟩ := h
      exact contested_of_conflict hr hembeds hinj hdel hkeep
    · exact exists_conflict_of_contested hembeds hfull
  · exact hstranded.not_applicable ((verify_eq_ok_iff hr).1 hverify)

/-- A rule in writing that can be applied nowhere. It deletes a node `b` and an edge to it, and
keeps a second edge to `b` as a loop at `a`. -/
def blockedGraph : Graph where
  nodes := [{ name := "a" }, { name := "b" }]
  edges := [{ tail := 0, head := 1 }, { tail := 0, head := 1, label := some "k" },
    { tail := 0, head := 0, label := some "k" }]
  subgraphs := [
    { name := "L", nodes := IdSet.ofList [0, 1], edges := IdSet.ofList [0, 1] },
    { name := "R", nodes := IdSet.ofList [0], edges := IdSet.ofList [2] }]

/-- The rule that is written there. -/
def blockedRule : DerivedRule where
  rule := {
    lhs := {
      nodes := [{ name := "a" }, { name := "b" }]
      edges := [{ tail := 0, head := 1 }, { tail := 0, head := 1, label := some "k" }] }
    rhs := {
      nodes := [{ name := "a" }]
      edges := [{ tail := 0, head := 0, label := some "k" }] }
    interface := {
      nodes := [{ name := "a" }]
      edges := [{ tail := 0, head := 0, label := some "k" }] }
    toLhs := { nodes := [0], edges := [[1]] }
    toRhs := { nodes := [0], edges := [[0]] } }
  lhsOrigin := { nodes := [0, 1], edges := [[0], [1]] }
  rhsOrigin := { nodes := [0], edges := [[2]] }

/-- A rule that deletes one of two parallel edges and keeps the other, in a target where it has
matches. -/
theorem conflict_decided_by_rule_blocked :
    blockedGraph.toRule = .ok blockedRule ∧ blockedRule.rule.lhs.nodes ≠ [] ∧
    blockedRule.rule.Stranded ∧ blockedRule.rule.Contested ∧
    (∃ ms, (Query.of blockedRule.rule.lhs replaceTarget true >>= Query.findAll) = .ok ms ∧
      ∀ m ∈ ms, m.Injective →
        ((∃ j, blockedRule.rule.verify replaceTarget m = .error (.refused (.edgeConflict j))) ↔
          blockedRule.rule.Contested)) ∧
    ∀ target m, blockedRule.rule.verify target m ≠ .ok () :=
  have hd : blockedGraph.toRule = .ok blockedRule := by decide +kernel
  have hne : blockedRule.rule.lhs.nodes ≠ [] := by decide
  have hstranded : blockedRule.rule.Stranded := by decide
  ⟨hd, hne, hstranded, by decide, (conflict_decided_by_rule hd).1 hne replaceTarget true,
    (conflict_decided_by_rule hd).2 hstranded⟩

end DoublePushout.Rule
