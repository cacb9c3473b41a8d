import DoublePushout.Proofs.Matching.Renumbering
import DoublePushout.Proofs.Rule.Refusal

/-!
# `DoublePushout.Proofs.Rule.Renumbering`: rewriting in a renumbered target

Which error a check reports first depends on the order of the elements it goes through, so the
node or edge that an error names may change with the numbering of the target. Its kind does not:
`verify_kind` says what `Rule.verify` answers, up to the handles in its errors, in terms of what
the match deletes and keeps.

* `deletesNode_renumber`, `deletesEdge_renumber` and `keepsEdge_renumber`: at the moved match a
  rule deletes and keeps what it does at the match, renumbered.
* `verify_renumber`: so the answers at both matches are of the same kind.
* `Redex.isomorphic_renumber`: the two results list the same elements, under renumbered keys, and
  so they are isomorphic.

`rewriting_renumber` joins this with the correspondence of the matches.
-/

set_option autoImplicit false

namespace DoublePushout

/-- The kinds of apply errors. -/
inductive ApplyError.Kind where
  | invalidMatch
  | nonInjective
  | edgeConflict
  | danglingEdge
  deriving DecidableEq, Repr

/-- The kind of an apply error. -/
def ApplyError.kind : ApplyError → ApplyError.Kind
  | .invalidMatch _ => .invalidMatch
  | .nonInjective _ => .nonInjective
  | .edgeConflict _ => .edgeConflict
  | .danglingEdge _ _ => .danglingEdge

/-- An answer up to the handles that its error names. -/
def ApplyError.answer (x : Except (Failure ApplyError) Unit) : Except (Failure Kind) Unit :=
  x.mapError (Failure.map kind)

/-- The element with its handle in the target renumbered. -/
def Element.renumber (f : Nat → Nat) : Element → Element
  | .kept i => .kept (f i)
  | .made i => .made i

namespace Rule

variable {r : Rule} {target target' : Graph} {f : NodeId → NodeId} {k : EdgeId → EdgeId}
  {m : Mapping}

/-! ### Which answer a check gives -/

/-- Some edge of the target is both deleted and kept. -/
def Conflicts (r : Rule) (m : Mapping) : Prop := ∃ e, r.DeletesEdge m e ∧ r.KeepsEdge m e

/-- Some edge of the target stays and ends at a deleted node. -/
def Dangles (r : Rule) (target : Graph) (m : Mapping) : Prop :=
  ∃ j e, target.edge? j = some e ∧ ¬ r.DeletesEdge m j ∧
    (r.DeletesNode m e.tail ∨ r.DeletesNode m e.head)

open Classical in
/-- What the check of a valid mapping answers: it refuses one that is not injective, then one with
an edge that is both deleted and kept, then one that leaves an edge dangling, and accepts the
rest. -/
theorem verify_kind (hr : r.WellFormed) (hm : m.Embeds r.lhs target) :
    ApplyError.answer (r.verify target m) =
      if ¬ m.Injective then .error (.refused .nonInjective)
      else if r.Conflicts m then .error (.refused .edgeConflict)
      else if r.Dangles target m then .error (.refused .danglingEdge) else .ok () := by
  obtain ⟨ns, es, hns, hes, hverify⟩ := verify_eq hr (Mapping.validate_eq_ok_iff.2 hm)
  have hconflict : (r.keptRealisations m).find? (· ∈ es) = none ↔ ¬ r.Conflicts m := by
    rw [find?_conflict_eq_none hes, Conflicts, not_exists]
  have hdangling : danglingEdge? target ns es = none ↔ ¬ r.Dangles target m := by
    rw [danglingEdge?_eq_none]
    simp only [mem_deletedRealisations hes, mem_deletedImages hns, Dangles, not_exists, not_and,
      not_or]
  -- Each question that finds nothing leaves the answer to the next one.
  rw [hverify]
  cases hrepeat : firstRepeat? [] m.nodes with
  | some n =>
    rw [if_pos (mt firstRepeat?_nodes_eq_none.2 (by simp [hrepeat]))]
    rfl
  | none =>
    rw [if_neg (not_not.2 (firstRepeat?_nodes_eq_none.1 hrepeat))]
    cases hfind : (r.keptRealisations m).find? (· ∈ es) with
    | some j =>
      rw [if_pos (not_not.1 (mt hconflict.2 (by simp [hfind])))]
      rfl
    | none =>
      rw [if_neg (hconflict.1 hfind)]
      cases hlost : danglingEdge? target ns es with
      | some x =>
        rw [if_pos (not_not.1 (mt hdangling.2 (by simp [hlost])))]
        rfl
      | none =>
        rw [if_neg (hdangling.1 hlost)]
        rfl

/-! ### The moved match -/

/-- Some edges are realised in the moved match by what realises them in the match, renumbered. -/
theorem realised_renumber {is : List EdgeId} {j' : EdgeId} :
    (∃ i ∈ is, ∃ images, (m.renumber f k).edges[i]? = some images ∧ j' ∈ images) ↔
      ∃ j, (∃ i ∈ is, ∃ images, m.edges[i]? = some images ∧ j ∈ images) ∧ k j = j' := by
  simp only [Mapping.renumber, List.getElem?_map, Option.map_eq_some_iff]
  constructor
  · rintro ⟨i, hi, _, ⟨images, himages, rfl⟩, hj'⟩
    obtain ⟨j, hj, heq⟩ := List.mem_map.1 (List.mem_mergeSort.1 hj')
    exact ⟨j, ⟨i, hi, images, himages, hj⟩, heq⟩
  · rintro ⟨j, ⟨i, hi, images, himages, hj⟩, heq⟩
    exact ⟨i, hi, _, ⟨images, himages, rfl⟩, List.mem_mergeSort.2 (List.mem_map.2 ⟨j, hj, heq⟩)⟩

/-- At a renumbered match the rule deletes the renumbered nodes. -/
theorem deletesNode_renumber {n' : NodeId} :
    r.DeletesNode (m.renumber f k) n' ↔ ∃ n, r.DeletesNode m n ∧ f n = n' := by
  simp only [DeletesNode, Mapping.renumber, List.getElem?_map, Option.map_eq_some_iff]
  constructor
  · rintro ⟨i, hi, n, hn, heq⟩
    exact ⟨n, ⟨i, hi, hn⟩, heq⟩
  · rintro ⟨n, ⟨i, hi, hn⟩, heq⟩
    exact ⟨i, hi, n, hn, heq⟩

/-- At a renumbered match the rule deletes the renumbered edges. -/
theorem deletesEdge_renumber {j' : EdgeId} :
    r.DeletesEdge (m.renumber f k) j' ↔ ∃ j, r.DeletesEdge m j ∧ k j = j' := realised_renumber

/-- At a renumbered match the rule keeps the renumbered edges. -/
theorem keepsEdge_renumber {j' : EdgeId} :
    r.KeepsEdge (m.renumber f k) j' ↔ ∃ j, r.KeepsEdge m j ∧ k j = j' := realised_renumber

/-- A node of the right side is the renumbered element. -/
theorem rhsElement_renumber (i : NodeId) :
    r.rhsElement (m.renumber f k) i = (r.rhsElement m i).renumber f := by
  have himage : ∀ c, r.interfaceImage (m.renumber f k) c = (r.interfaceImage m c).map f := by
    intro c
    simp only [interfaceImage, Mapping.renumber, List.getElem?_map, Option.map_bind]
    rfl
  rw [rhsElement, rhsElement]
  cases r.interface.nodeIds.find? (r.toRhs.nodes[·]? = some i) with
  | none => rfl
  | some c =>
    simp only [Option.bind_some, himage]
    cases r.interfaceImage m c with
    | none => rfl
    | some n => rfl

section Verdict
variable (h : target.Renumbers target' f k) (hm : m.Embeds r.lhs target)
include h hm

/-- A node is deleted at the moved match when the node with the old number is deleted. -/
theorem deletesNode_renumber_iff {n : NodeId} (hn : n < target.nodes.length) :
    r.DeletesNode (m.renumber f k) (f n) ↔ r.DeletesNode m n := by
  rw [deletesNode_renumber]
  constructor
  · intro hdel
    obtain ⟨n₂, hdel, heq⟩ := hdel
    rwa [← h.nodes.injOn (hm.image_lt hdel.mem) hn heq]
  · exact fun hdel => ⟨n, hdel, rfl⟩

/-- An edge is deleted under its new handle exactly if it is deleted under its old one. -/
theorem deletesEdge_renumber_iff {j : EdgeId} (hj : j < target.edges.length) :
    r.DeletesEdge (m.renumber f k) (k j) ↔ r.DeletesEdge m j := by
  rw [deletesEdge_renumber]
  constructor
  · intro hdel
    obtain ⟨j₂, hdel, heq⟩ := hdel
    rwa [← h.edges.injOn (hm.realisation_lt hdel.mem) hj heq]
  · exact fun hdel => ⟨j, hdel, rfl⟩

/-- Whether edges conflict does not depend on the numbering. -/
theorem conflicts_renumber_iff : r.Conflicts (m.renumber f k) ↔ r.Conflicts m := by
  simp only [Conflicts, deletesEdge_renumber, keepsEdge_renumber]
  constructor
  · rintro ⟨_, ⟨j, hdel, rfl⟩, j₂, hkeeps, heq⟩
    rw [h.edges.injOn (hm.realisation_lt hkeeps.mem) (hm.realisation_lt hdel.mem) heq] at hkeeps
    exact ⟨j, hdel, hkeeps⟩
  · rintro ⟨j, hdel, hkeeps⟩
    exact ⟨k j, ⟨j, hdel, rfl⟩, j, hkeeps, rfl⟩

/-- Whether an edge dangles does not depend on the numbering. -/
theorem dangles_renumber_iff
    (hends : ∀ e ∈ target.edges, e.tail < target.nodes.length ∧ e.head < target.nodes.length) :
    r.Dangles target' (m.renumber f k) ↔ r.Dangles target m := by
  -- One edge and the edge with its new number stay together and lose ends together.
  have hat : ∀ j e, target.edge? j = some e →
      ((¬ r.DeletesEdge (m.renumber f k) (k j) ∧ (r.DeletesNode (m.renumber f k) (f e.tail) ∨
        r.DeletesNode (m.renumber f k) (f e.head))) ↔
      (¬ r.DeletesEdge m j ∧ (r.DeletesNode m e.tail ∨ r.DeletesNode m e.head))) := by
    intro j e hj
    obtain ⟨htail, hhead⟩ := hends e (List.mem_of_getElem? hj)
    rw [deletesEdge_renumber_iff h hm (List.getElem?_eq_some_iff.1 hj).1,
      deletesNode_renumber_iff h hm htail, deletesNode_renumber_iff h hm hhead]
  constructor
  · rintro ⟨j', e', hj', hdangles⟩
    obtain ⟨j, e, rfl, hj, rfl⟩ := h.exists_edge hj'
    exact ⟨j, e, hj, (hat j e hj).1 hdangles⟩
  · rintro ⟨j, e, hj, hdangles⟩
    exact ⟨k j, _, h.edge_eq j e hj, (hat j e hj).2 hdangles⟩

/-- A rule is accepted at a match and at the moved match, or refused at both with errors of the
same kind. -/
theorem verify_renumber (hr : r.WellFormed)
    (hends : ∀ e ∈ target.edges, e.tail < target.nodes.length ∧ e.head < target.nodes.length) :
    ApplyError.answer (r.verify target' (m.renumber f k)) =
      ApplyError.answer (r.verify target m) := by
  rw [verify_kind hr (h.embeds hm), verify_kind hr hm]
  classical
  refine if_congr (not_congr (h.injective_iff hm)) rfl ?_
  exact if_congr (conflicts_renumber_iff h hm) rfl
    (if_congr (dangles_renumber_iff h hm hends) rfl rfl)

end Verdict

/-! ### The results -/

/-- Renumbering keeps elements apart where it keeps their handles apart. -/
theorem Element.renumber_injOn {f : Nat → Nat} {s : Set Nat} (hf : Set.InjOn f s)
    {x y : Element} (hx : ∀ i, x = .kept i → i ∈ s) (hy : ∀ i, y = .kept i → i ∈ s)
    (heq : x.renumber f = y.renumber f) : x = y := by
  cases x with
  | kept i =>
    cases y with
    | kept j => rw [hf (hx i rfl) (hy j rfl) (Element.kept.inj heq)]
    | made j => cases heq
  | made i =>
    cases y with
    | kept j => cases heq
    | made j => exact congrArg Element.made (Element.made.inj heq)

/-- Elements are listed in some order, and the renumbered elements in another, if what is kept
corresponds and what is made is the same. -/
theorem map_renumber_perm {f : Nat → Nat} {a b : Nat} (hf : Set.BijOn f (Set.Iio a) (Set.Iio b))
    {stays stays' made : Nat → Prop} (hstays : ∀ i < a, stays' (f i) ↔ stays i)
    {xs ys : List Element} (hxs : xs.Nodup) (hys : ys.Nodup)
    (hkept : ∀ i, .kept i ∈ xs ↔ i < a ∧ stays i) (hmade : ∀ i, .made i ∈ xs ↔ made i)
    (hkept' : ∀ i, .kept i ∈ ys ↔ i < b ∧ stays' i) (hmade' : ∀ i, .made i ∈ ys ↔ made i) :
    (xs.map (Element.renumber f)).Perm ys := by
  -- The renumbering is injective on the handles below `a`, and all kept ones are.
  have hlt : ∀ x ∈ xs, ∀ i, x = .kept i → i ∈ Set.Iio a := by
    rintro _ hx i rfl
    exact ((hkept i).1 hx).1
  have hnodup : (xs.map (Element.renumber f)).Nodup := List.Nodup.map_on
    (fun x hx y hy heq => Element.renumber_injOn hf.injOn (hlt x hx) (hlt y hy) heq) hxs
  refine (List.perm_ext_iff_of_nodup hnodup hys).2 fun y => ?_
  rw [List.mem_map]
  cases y with
  | kept i' =>
    rw [hkept']
    constructor
    · rintro ⟨x, hx, heq⟩
      cases x with
      | kept i =>
        obtain rfl := Element.kept.inj heq
        obtain ⟨hi, hs⟩ := (hkept i).1 hx
        exact ⟨hf.mapsTo hi, (hstays i hi).2 hs⟩
      | made i => cases heq
    · rintro ⟨hi', hs'⟩
      obtain ⟨i, hi, rfl⟩ := hf.surjOn hi'
      exact ⟨.kept i, (hkept i).2 ⟨hi, (hstays i hi).1 hs'⟩, rfl⟩
  | made i' =>
    rw [hmade', ← hmade]
    constructor
    · rintro ⟨x, hx, heq⟩
      cases x with
      | kept i => cases heq
      | made i => rwa [← heq]
    · exact fun hx => ⟨_, hx, rfl⟩

namespace Redex

/-- Rewriting a target at a match, and a renumbered one at the moved match, gives isomorphic
graphs. -/
theorem isomorphic_renumber (h : target.Renumbers target' f k) (hx : r.Redex target m)
    (hx' : r.Redex target' (m.renumber f k)) {result result' : Graph}
    (hg : r.Gives target m result) (hg' : r.Gives target' (m.renumber f k) result') :
    result.Isomorphic result' := by
  have hm := hx.applicable.embeds
  -- The kept nodes correspond along the renumbering; the made ones are the same.
  have hnodes : ((r.nodeOrder target m).map (Element.renumber f)).Perm
      (r.nodeOrder target' (m.renumber f k)) :=
    map_renumber_perm h.nodes (fun n hn => not_congr (deletesNode_renumber_iff h hm hn))
      hx.nodeOrder_nodup hx'.nodeOrder_nodup (fun _ => hx.mem_nodeOrder_kept)
      (fun _ => mem_nodeOrder_made) (fun _ => hx'.mem_nodeOrder_kept) fun _ => mem_nodeOrder_made
  have hedges : ((r.edgeOrder target m).map (Element.renumber k)).Perm
      (r.edgeOrder target' (m.renumber f k)) :=
    map_renumber_perm h.edges (fun j hj => not_congr (deletesEdge_renumber_iff h hm hj))
      edgeOrder_nodup edgeOrder_nodup (fun _ => hx.mem_edgeOrder_kept)
      (fun _ => mem_edgeOrder_made) (fun _ => hx'.mem_edgeOrder_kept) fun _ => mem_edgeOrder_made
  refine Graph.isomorphic_of_perm (hg.lists.rekey (Element.renumber f) (Element.renumber k)
    (fun x hmem => ?_) fun x hmem => ?_) hg'.lists hnodes hedges
    (hnodes.nodup_iff.2 hx'.nodeOrder_nodup) (hedges.nodup_iff.2 edgeOrder_nodup)
  · cases x with
    | kept n => exact h.node?_eq (hx.mem_nodeOrder_kept.1 hmem).1
    | made i => rfl
  · cases x with
    | kept j =>
      show (target'.edge? (k j)).map _ = ((target.edge? j).map _).map _
      rw [h.edge?_eq (hx.mem_edgeOrder_kept.1 hmem).1, Option.map_map, Option.map_map]
      rfl
    | made j =>
      show (r.rhs.edge? j).map _ = ((r.rhs.edge? j).map _).map _
      rw [Option.map_map]
      refine congrArg (Option.map · _) (funext fun e => ?_)
      rw [rhsElement_renumber, rhsElement_renumber]
      rfl

end Redex

/-- Matching and rewriting do not depend on the numbering of the target. For a derived rule whose
left side has a node, a valid target, and a renumbering of it, moving a match along the
renumbering is a bijection between the matches that are found. The rule is accepted at a match and
at the moved one, or refused at both with errors of the same kind, and neither faults. Where it is
accepted, the two results are isomorphic. -/
theorem rewriting_renumber {g : Graph} {d : DerivedRule} {target target' : Graph}
    {f : NodeId → NodeId} {k : EdgeId → EdgeId} (hd : g.toRule = .ok d)
    (hne : d.rule.lhs.nodes ≠ []) (ht : target.validate = .ok ())
    (h : target.Renumbers target' f k) (injective : Bool) :
    ∃ q q' ms ms', Query.of d.rule.lhs target injective = .ok q ∧ q.findAll = .ok ms ∧
      Query.of d.rule.lhs target' injective = .ok q' ∧ q'.findAll = .ok ms' ∧
      ms.Nodup ∧ ms'.Nodup ∧ Set.BijOn (Mapping.renumber f k) {m | m ∈ ms} {m | m ∈ ms'} ∧
      ∀ m ∈ ms, FaultFree (d.rule.verify target m) ∧
        ApplyError.answer (d.rule.verify target' (m.renumber f k)) =
          ApplyError.answer (d.rule.verify target m) ∧
        (d.rule.verify target m = .ok () →
          ∃ result result', d.rule.apply target m = .ok result ∧
            d.rule.apply target' (m.renumber f k) = .ok result' ∧ result.Isomorphic result') := by
  have hr := Graph.toRule_wellFormed hd
  have hvalid := Graph.validate_eq_ok_iff.1 ht
  obtain ⟨q, q', ms, ms', hq, hms, hq', hms', hnodup, hnodup', hembeds, hbij⟩ :=
    h.bijOn_findAll hvalid.ends_lt hne hr.lhs_valid.ends_lt injective
  refine ⟨q, q', ms, ms', hq, hms, hq', hms', hnodup, hnodup', hbij, fun m hm => ?_⟩
  have hanswer := verify_renumber h (hembeds m hm) hr hvalid.ends_lt
  refine ⟨verify_faultFree hr, hanswer, fun hok => ?_⟩
  have hok' : d.rule.verify target' (m.renumber f k) = .ok () := by
    rw [hok] at hanswer
    exact mapError_eq_ok.1 hanswer
  -- Neither the match nor the result sees the subgraphs of the target, which need not be valid.
  let bare : Graph := { target' with subgraphs := [] }
  have hbare : target.Renumbers bare f k := ⟨h.nodes, h.edges, h.node_eq, h.edge_eq⟩
  have hx : d.rule.Redex target m := redex_of_verify hd ht hok
  have hx' : d.rule.Redex bare (m.renumber f k) :=
    ⟨hr, Graph.valid_of_ends (h.ends_lt hvalid.ends_lt), (verify_eq_ok_iff hr).1 hok'⟩
  obtain ⟨result, happly, hg⟩ := hx.apply_gives
  obtain ⟨result', happly', hg'⟩ := hx'.apply_gives
  exact ⟨result, result', happly, happly', hx.isomorphic_renumber hbare hx' hg hg'⟩

/-- The target `replaceTarget` with its nodes and its edges listed in the opposite order. -/
def reversedTarget : Graph where
  nodes := [{ name := "z", label := some "" }, { name := "y" }, { name := "x" }]
  edges := [{ tail := 0, head := 2 }, { tail := 2, head := 2 }, { tail := 2, head := 1 },
    { tail := 2, head := 2 }]

/-- Counting from the other end is a renumbering. -/
theorem bijOn_reversed (n : Nat) : Set.BijOn (n - ·) (Set.Iio (n + 1)) (Set.Iio (n + 1)) := by
  have hmaps : Set.MapsTo (n - ·) (Set.Iio (n + 1)) (Set.Iio (n + 1)) := by
    intro i _
    show n - i < n + 1
    omega
  have hinv : Set.LeftInvOn (n - ·) (n - ·) (Set.Iio (n + 1)) := by
    intro i hi
    have hi : i < n + 1 := hi
    show n - (n - i) = i
    omega
  exact Set.InvOn.bijOn ⟨hinv, hinv⟩ hmaps hmaps

/-- The reversed target is the target under reversed handles. -/
theorem replaceTarget_renumbers :
    replaceTarget.Renumbers reversedTarget (2 - ·) (3 - ·) where
  nodes := bijOn_reversed 2
  edges := bijOn_reversed 3
  node_eq i n hi := by
    have hall : ∀ i < 3, reversedTarget.node? (2 - i) = replaceTarget.node? i := by decide
    rw [hall i (List.getElem?_eq_some_iff.1 hi).1, hi]
  edge_eq j e hj := by
    have hall : ∀ j < 4, reversedTarget.edge? (3 - j) =
        (replaceTarget.edge? j).map fun e => ⟨2 - e.tail, 2 - e.head, e.label⟩ := by decide
    rw [hall j (List.getElem?_eq_some_iff.1 hj).1, hj]
    rfl

/-- The search and the rewrites in a target and in the same target listed backwards. -/
theorem rewriting_renumber_reversed :
    replaceGraph.toRule = .ok replaceRule ∧ replaceRule.rule.lhs.nodes ≠ [] ∧
    replaceTarget.validate = .ok () ∧
    replaceTarget.Renumbers reversedTarget (2 - ·) (3 - ·) ∧
    ∃ q q' ms ms', Query.of replaceRule.rule.lhs replaceTarget false = .ok q ∧
      q.findAll = .ok ms ∧ Query.of replaceRule.rule.lhs reversedTarget false = .ok q' ∧
      q'.findAll = .ok ms' ∧ ms.Nodup ∧ ms'.Nodup ∧
      Set.BijOn (Mapping.renumber (2 - ·) (3 - ·)) {m | m ∈ ms} {m | m ∈ ms'} ∧
      ∀ m ∈ ms, FaultFree (replaceRule.rule.verify replaceTarget m) ∧
        ApplyError.answer (replaceRule.rule.verify reversedTarget
            (m.renumber (2 - ·) (3 - ·))) =
          ApplyError.answer (replaceRule.rule.verify replaceTarget m) ∧
        (replaceRule.rule.verify replaceTarget m = .ok () →
          ∃ result result', replaceRule.rule.apply replaceTarget m = .ok result ∧
            replaceRule.rule.apply reversedTarget (m.renumber (2 - ·) (3 - ·)) =
              .ok result' ∧ result.Isomorphic result') :=
  have hd : replaceGraph.toRule = .ok replaceRule := by decide +kernel
  ⟨hd, by decide, by decide, replaceTarget_renumbers,
    rewriting_renumber hd (by decide) (by decide) replaceTarget_renumbers false⟩

end Rule

end DoublePushout
