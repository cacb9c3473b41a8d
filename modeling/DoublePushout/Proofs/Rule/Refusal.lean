import DoublePushout.Proofs.Rule.Pushout
import DoublePushout.Proofs.Steps

/-!
# `DoublePushout.Proofs.Rule.Refusal`: why a match is refused

`Rule.verify` asks four things of a match, one after the other, and stops at the first that the
match lacks. The error that it stops with names a witness. `Rule.Obstacle` says without the code
what each error means: what has passed before it, what its witness is, and among several witnesses
which one is named.

* `verify_eq` is the check of a mapping that is valid, with its three questions side by side.
* `firstRepeat?_eq_some`, `find?_conflict_eq_some` and `danglingEdge?_eq_some` say for each
  question which witness it finds.
* `verify_eq_refused_iff` puts them together, for every well-formed rule.

`verify_reports_first_obstacle` is the statement about derived rules, with the four conditions
that make a match acceptable beside the obstacles.
-/

set_option autoImplicit false

namespace DoublePushout

/-- The first repeat of a list is its first element that occurs before itself. What comes before
that is without repeats. -/
theorem firstRepeat?_eq_some {seen xs : List Nat} {x : Nat} :
    firstRepeat? seen xs = some x ↔ ∃ before after, xs = before ++ x :: after ∧
      (x ∈ seen ∨ x ∈ before) ∧ before.Nodup ∧ ∀ y ∈ before, y ∉ seen := by
  -- An element that is passed goes over from the rest of the list to what has been seen.
  induction xs generalizing seen with
  | nil => simp [firstRepeat?]
  | cons z zs ih =>
    rw [firstRepeat?]
    by_cases hz : z ∈ seen
    · rw [if_pos hz]
      constructor
      · intro h
        obtain rfl := Option.some.inj h
        exact ⟨[], zs, rfl, .inl hz, List.nodup_nil, by simp⟩
      · intro h
        obtain ⟨before, after, heq, -, -, hfresh⟩ := h
        cases before with
        | nil =>
          obtain ⟨rfl, -⟩ := List.cons.inj heq
          rfl
        | cons y before =>
          obtain ⟨rfl, -⟩ := List.cons.inj heq
          exact absurd hz (hfresh z (by simp))
    · rw [if_neg hz, ih]
      constructor
      · intro h
        obtain ⟨before, after, rfl, hx, hnodup, hfresh⟩ := h
        exact ⟨z :: before, after, rfl, by grind, by grind, by grind⟩
      · intro h
        obtain ⟨before, after, heq, hx, hnodup, hfresh⟩ := h
        cases before with
        | nil =>
          obtain ⟨rfl, -⟩ := List.cons.inj heq
          exact absurd (hx.resolve_right (by simp)) hz
        | cons y before =>
          obtain ⟨rfl, rfl⟩ := List.cons.inj heq
          exact ⟨before, after, rfl, by grind, by grind, by grind⟩

namespace Rule

variable {r : Rule} {target : Graph} {m : Mapping}

/-! ### Obstacles -/

/-- The target edges that stay although an end of theirs is deleted. -/
def danglingEdges (r : Rule) (target : Graph) (m : Mapping) : Set EdgeId :=
  {j | ∃ e, target.edge? j = some e ∧ ¬ r.DeletesEdge m j ∧
    (r.DeletesNode m e.tail ∨ r.DeletesNode m e.head)}

/-- The end that an edge loses: its tail, or else its head. -/
def LostEnd (r : Rule) (m : Mapping) (e : Edge) (n : NodeId) : Prop :=
  r.DeletesNode m n ∧ (n = e.tail ∨ ¬ r.DeletesNode m e.tail ∧ n = e.head)

/-- What stands in the way of applying the rule at the match, in the words of an error. Each error
says that everything asked before has passed.

* A mapping that is not valid has the defect that its check reports.
* Two nodes with one image are those whose later one comes first in the table.
* An edge that is deleted and kept is the first such among the realisations of the preserved
  edges.
* An edge that dangles is the one with the least handle, and the node named is the end that it
  loses. -/
def Obstacle (r : Rule) (target : Graph) (m : Mapping) : ApplyError → Prop
  | .invalidMatch defect => m.validate r.lhs target = .error (.refused defect)
  | .nonInjective n => m.validate r.lhs target = .ok () ∧
      ∃ before after, m.nodes = before ++ n :: after ∧ n ∈ before ∧ before.Nodup
  | .edgeConflict j => m.validate r.lhs target = .ok () ∧ m.Injective ∧
      r.DeletesEdge m j ∧ r.KeepsEdge m j ∧ ∃ before after,
        r.keptRealisations m = before ++ j :: after ∧ ∀ i ∈ before, ¬ r.DeletesEdge m i
  | .danglingEdge j n => m.validate r.lhs target = .ok () ∧ m.Injective ∧
      (∀ i, ¬ (r.DeletesEdge m i ∧ r.KeepsEdge m i)) ∧ IsLeast (r.danglingEdges target m) j ∧
        ∃ e, target.edge? j = some e ∧ r.LostEnd m e n

/-! ### The three questions about a valid mapping -/

/-- The first repeated image is the one up to which the images are distinct. -/
theorem firstRepeat?_nodes_eq_some {n : NodeId} : firstRepeat? [] m.nodes = some n ↔
    ∃ before after, m.nodes = before ++ n :: after ∧ n ∈ before ∧ before.Nodup := by
  simp [firstRepeat?_eq_some]

/-- The check of conflicts goes through the realisations of the preserved edges in order. -/
theorem checkConflicts_eq {deleted : List EdgeId}
    (hread : ∀ i ∈ r.toLhs.edges.flatten, i < m.edges.length) :
    r.checkConflicts m deleted =
      match (r.keptRealisations m).find? (· ∈ deleted) with
      | some j => .error (.refused (.edgeConflict j))
      | none => .ok () := by
  rw [checkConflicts, keptRealisations]
  generalize r.toLhs.edges.flatten = kept at hread ⊢
  induction kept with
  | nil => rfl
  | cons i kept ih =>
    obtain ⟨images, himages⟩ : ∃ images, m.edges[i]? = some images :=
      ⟨_, List.getElem?_eq_getElem (hread i (by simp))⟩
    have hrest := ih fun i hi => hread i (by simp [hi])
    rw [List.filterMap_cons, himages, List.flatten_cons, List.find?_append]
    show ((orFault (m.edge i) >>= fun images => _) >>= fun _ => kept.forM _) = _
    rw [Mapping.edge_eq_ok.2 himages]
    show ((match images.find? (· ∈ deleted) with
      | some image => Except.error (Failure.refused (ApplyError.edgeConflict image))
      | none => .ok ()) >>= fun _ => kept.forM _) = _
    -- The first edge decides, or else leaves the decision to the others.
    cases images.find? (· ∈ deleted) with
    | some j => rfl
    | none => exact hrest

/-- The conflict that is found is the first realisation of a preserved edge that is deleted. -/
theorem find?_conflict_eq_some {es : List EdgeId} (hes : r.deletedRealisations m = .ok es)
    {j : EdgeId} : (r.keptRealisations m).find? (· ∈ es) = some j ↔
      r.DeletesEdge m j ∧ r.KeepsEdge m j ∧ ∃ before after,
        r.keptRealisations m = before ++ j :: after ∧ ∀ i ∈ before, ¬ r.DeletesEdge m i := by
  rw [List.find?_eq_some_iff_append]
  simp only [decide_eq_true_eq, Bool.not_eq_true', decide_eq_false_iff_not,
    mem_deletedRealisations hes]
  refine and_congr_right fun _ => ⟨fun h => ⟨?_, h⟩, fun h => h.2⟩
  obtain ⟨before, after, heq, -⟩ := h
  exact mem_keptRealisations.1 (by simp [heq])

/-- No conflict is found exactly if no edge is both deleted and kept. -/
theorem find?_conflict_eq_none {es : List EdgeId} (hes : r.deletedRealisations m = .ok es) :
    (r.keptRealisations m).find? (· ∈ es) = none ↔
      ∀ j, ¬ (r.DeletesEdge m j ∧ r.KeepsEdge m j) := by
  simp only [List.find?_eq_none, decide_eq_true_eq, mem_deletedRealisations hes,
    mem_keptRealisations, not_and']

/-- The edge that is found to dangle is the least one, with the end that it loses. -/
theorem danglingEdge?_eq_some {ns : List NodeId} {es : List EdgeId}
    (hns : r.deletedImages m = .ok ns) (hes : r.deletedRealisations m = .ok es) {j : EdgeId}
    {n : NodeId} : danglingEdge? target ns es = some (j, n) ↔
      IsLeast (r.danglingEdges target m) j ∧
        ∃ e, target.edge? j = some e ∧ r.LostEnd m e n := by
  have hlost : ∀ e : Edge, e.ends.find? (· ∈ ns) = some n ↔ r.LostEnd m e n := by
    intro e
    rw [Edge.ends, List.find?_cons, List.find?_cons, LostEnd, ← mem_deletedImages hns,
      ← mem_deletedImages hns]
    by_cases htail : e.tail ∈ ns <;> by_cases hhead : e.head ∈ ns <;>
      simp [htail, hhead] <;> grind
  have hset : {j : Nat | ∃ e, target.edges[j]? = some e ∧
      (if j ∈ es then none else (e.ends.find? (· ∈ ns)).map (j, ·)) ≠ none} =
      r.danglingEdges target m := by
    ext j
    simp only [danglingEdges, ← mem_deletedImages hns, ← mem_deletedRealisations hes]
    refine exists_congr fun e => and_congr_right fun _ => ?_
    by_cases hj : j ∈ es
    · simp [hj]
    · have hfinds : e.ends.find? (· ∈ ns) = none ↔ ¬ (e.tail ∈ ns ∨ e.head ∈ ns) := by
        simp [Edge.ends]
      rw [if_neg hj, Ne, Option.map_eq_none_iff, hfinds, not_not]
      exact (and_iff_right hj).symm
  rw [danglingEdge?, findSome?_zipIdx_eq_some_iff]
  dsimp only
  rw [hset]
  constructor
  · intro h
    obtain ⟨i, e, he, hfound, hleast⟩ := h
    split at hfound
    · cases hfound
    · obtain ⟨n', hn', heq⟩ := Option.map_eq_some_iff.1 hfound
      cases heq
      exact ⟨hleast, e, he, (hlost e).1 hn'⟩
  · intro h
    obtain ⟨hleast, e, he, hn⟩ := h
    -- An edge that dangles is not deleted, so the search looks at its ends.
    obtain ⟨-, -, hstays, -⟩ := hleast.1
    rw [← mem_deletedRealisations hes] at hstays
    refine ⟨j, e, he, ?_, hleast⟩
    rw [if_neg hstays, (hlost e).2 hn]
    rfl

/-! ### The whole check -/

/-- A valid mapping is refused for a repeated image, then for a conflict, then for an edge that
dangles. -/
theorem verify_eq (hr : r.WellFormed) (hm : m.validate r.lhs target = .ok ()) :
    ∃ ns es, r.deletedImages m = .ok ns ∧ r.deletedRealisations m = .ok es ∧
      r.verify target m =
        match firstRepeat? [] m.nodes with
        | some n => .error (.refused (.nonInjective n))
        | none =>
          match (r.keptRealisations m).find? (· ∈ es) with
          | some j => .error (.refused (.edgeConflict j))
          | none =>
            match danglingEdge? target ns es with
            | some x => .error (.refused (.danglingEdge x.1 x.2))
            | none => .ok () := by
  have hembeds := Mapping.validate_eq_ok_iff.1 hm
  obtain ⟨ns, hns⟩ := exists_deletedImages (r := r) hembeds.nodes_length
  obtain ⟨es, hes⟩ := exists_deletedRealisations (r := r) hembeds.edges_length
  have hread : ∀ i ∈ r.toLhs.edges.flatten, i < m.edges.length :=
    fun i hi => hembeds.edges_length ▸ hr.toLhs_edge_lt i hi
  refine ⟨ns, es, hns, hes, ?_⟩
  rw [verify, hm, hns, hes]
  -- The three checks that are left, in their order.
  cases firstRepeat? [] m.nodes with
  | some n => rfl
  | none =>
    show (r.checkConflicts m es >>= fun _ => _) = _
    rw [checkConflicts_eq hread]
    cases (r.keptRealisations m).find? (· ∈ es) with
    | some j => rfl
    | none =>
      cases danglingEdge? target ns es with
      | some x => rfl
      | none => rfl

/-- A well-formed rule is refused at a match exactly for the obstacle there. -/
theorem verify_eq_refused_iff (hr : r.WellFormed) {err : ApplyError} :
    r.verify target m = .error (.refused err) ↔ r.Obstacle target m err := by
  cases hvalid : m.validate r.lhs target with
  | error failure =>
    have hverify : r.verify target m = .error (failure.map .invalidMatch) := by
      rw [verify, hvalid]
      rfl
    rw [hverify]
    cases err <;> cases failure <;> simp [Obstacle, hvalid, Failure.map, eq_comm]
  | ok u =>
    obtain ⟨ns, es, hns, hes, hverify⟩ := verify_eq hr hvalid
    -- An obstacle is what one of the three questions finds, where those before it have found
    -- nothing.
    have hobstacle : r.Obstacle target m err ↔
        match err with
        | .invalidMatch _ => False
        | .nonInjective n => firstRepeat? [] m.nodes = some n
        | .edgeConflict j =>
          firstRepeat? [] m.nodes = none ∧ (r.keptRealisations m).find? (· ∈ es) = some j
        | .danglingEdge j n =>
          firstRepeat? [] m.nodes = none ∧ (r.keptRealisations m).find? (· ∈ es) = none ∧
            danglingEdge? target ns es = some (j, n) := by
      cases err <;> simp only [Obstacle, hvalid, firstRepeat?_nodes_eq_some,
        firstRepeat?_nodes_eq_none, find?_conflict_eq_some hes, find?_conflict_eq_none hes,
        danglingEdge?_eq_some hns hes, reduceCtorEq, true_and]
    rw [hobstacle, hverify]
    cases firstRepeat? [] m.nodes with
    | some n => cases err <;> simp [eq_comm]
    | none =>
      cases (r.keptRealisations m).find? (· ∈ es) with
      | some j => cases err <;> simp [eq_comm]
      | none =>
        cases danglingEdge? target ns es with
        | some x => cases err <;> simp [Prod.ext_iff]
        | none => cases err <;> simp

/-- A valid and injective match is refused for a conflict exactly if some edge is deleted and
kept. -/
theorem exists_conflict_refused_iff (hr : r.WellFormed)
    (hvalid : m.validate r.lhs target = .ok ()) (hinj : m.Injective) :
    (∃ j, r.verify target m = .error (.refused (.edgeConflict j))) ↔
      ∃ j, r.DeletesEdge m j ∧ r.KeepsEdge m j := by
  simp only [verify_eq_refused_iff hr, Obstacle, hvalid, hinj, true_and]
  constructor
  · intro h
    obtain ⟨j, hdel, hkeep, -⟩ := h
    exact ⟨j, hdel, hkeep⟩
  · intro h
    obtain ⟨es, hes⟩ := exists_deletedRealisations (r := r)
      (Mapping.validate_eq_ok_iff.1 hvalid).edges_length
    -- Where there is a conflict, going through the realisations in order finds one.
    cases hfind : (r.keptRealisations m).find? (· ∈ es) with
    | some j => exact ⟨j, (find?_conflict_eq_some hes).1 hfind⟩
    | none =>
      obtain ⟨j, hconflict⟩ := h
      exact absurd hconflict ((find?_conflict_eq_none hes).1 hfind j)

/-- A derived rule is accepted at a match that is valid and injective, at which no target edge is
both deleted and kept, and every target edge at a deleted node is deleted. It is refused at any
other, for the first of these conditions that fails, with a witness. -/
theorem verify_reports_first_obstacle {g : Graph} {d : DerivedRule} (hd : g.toRule = .ok d)
    (target : Graph) (m : Mapping) :
    (d.rule.verify target m = .ok () ↔
      m.validate d.rule.lhs target = .ok () ∧ m.Injective ∧
        (∀ j, ¬ (d.rule.DeletesEdge m j ∧ d.rule.KeepsEdge m j)) ∧
        ∀ j e, target.edge? j = some e →
          d.rule.DeletesNode m e.tail ∨ d.rule.DeletesNode m e.head → d.rule.DeletesEdge m j) ∧
    (d.rule.verify target m ≠ .ok () →
      ∃ err, d.rule.verify target m = .error (.refused err)) ∧
    ∀ err, d.rule.verify target m = .error (.refused err) ↔ d.rule.Obstacle target m err := by
  have hr := Graph.toRule_wellFormed hd
  refine ⟨?_, fun hnot => ?_, fun err => verify_eq_refused_iff hr⟩
  · rw [verify_eq_ok_iff hr, Mapping.validate_eq_ok_iff]
    constructor
    · intro h
      refine ⟨h.embeds, h.injective, fun j hj => h.disjoint j hj.1 hj.2, fun j e he hends => ?_⟩
      -- A staying edge at a deleted node would dangle.
      by_contra hstays
      obtain ⟨htail, hhead⟩ := h.ends_stay j e he hstays
      exact hends.elim htail hhead
    · intro h
      obtain ⟨hembeds, hinj, hdisjoint, hends⟩ := h
      refine ⟨hembeds, hinj, fun j hdel hkeep => hdisjoint j ⟨hdel, hkeep⟩,
        fun j e he hstays => ?_⟩
      exact not_or.1 fun hlost => hstays (hends j e he hlost)
  · cases hverify : d.rule.verify target m with
    | ok u => exact absurd hverify hnot
    | error failure =>
      cases failure with
      | refused err => exact ⟨err, rfl⟩
      | fault x => exact absurd hverify (verify_faultFree hr x)

/-- The target `replaceTarget` with a loop at the node that is deleted. -/
def crowdedTarget : Graph :=
  { replaceTarget with edges := replaceTarget.edges ++ [{ tail := 1, head := 1 }] }

/-- A match that would leave an edge dangling, in a target with an edge more at the deleted
node. -/
theorem verify_reports_first_obstacle_crowded :
    replaceGraph.toRule = .ok replaceRule ∧
    (replaceRule.rule.verify crowdedTarget replaceMatch = .ok () ↔
      replaceMatch.validate replaceRule.rule.lhs crowdedTarget = .ok () ∧ replaceMatch.Injective ∧
        (∀ j, ¬ (replaceRule.rule.DeletesEdge replaceMatch j ∧
          replaceRule.rule.KeepsEdge replaceMatch j)) ∧
        ∀ j e, crowdedTarget.edge? j = some e →
          replaceRule.rule.DeletesNode replaceMatch e.tail ∨
            replaceRule.rule.DeletesNode replaceMatch e.head →
          replaceRule.rule.DeletesEdge replaceMatch j) ∧
    (replaceRule.rule.verify crowdedTarget replaceMatch ≠ .ok () →
      ∃ err, replaceRule.rule.verify crowdedTarget replaceMatch = .error (.refused err)) ∧
    ∀ err, replaceRule.rule.verify crowdedTarget replaceMatch = .error (.refused err) ↔
      replaceRule.rule.Obstacle crowdedTarget replaceMatch err :=
  have hd : replaceGraph.toRule = .ok replaceRule := by decide +kernel
  ⟨hd, verify_reports_first_obstacle hd crowdedTarget replaceMatch⟩

example :
    replaceRule.rule.verify crowdedTarget replaceMatch =
      .error (.refused (.danglingEdge 4 1)) ∧
    replaceRule.rule.verify crowdedTarget ⟨[0, 0], [[0], [2]]⟩ =
      .error (.refused (.nonInjective 0)) := by
  decide +kernel

end Rule

end DoublePushout
