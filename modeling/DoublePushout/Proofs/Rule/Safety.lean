import DoublePushout.Proofs.Rule.Pushout

/-!
# `DoublePushout.Proofs.Rule.Safety`: applying a rule is safe

Two statements about `Rule.apply`, of different reach.

* For a derived rule and a valid target, no operation faults, whatever mapping it is given as a
  match. `Rule.apply` succeeds exactly when `Rule.verify` accepts the match and refuses it for the
  same reason otherwise (`apply_eq_error`), and what it returns is valid.
* For any rule whatsoever, with tables of any sizes that point anywhere, what `Rule.apply` returns
  is valid. Ends of edges are looked up among the placed nodes, so a position that is found is a
  handle of the result (`targetCopy_lt`, `rhsCopy_lt`). So no edge faults either when the result
  is put together edge by edge with `Graph.addEdge`, which `Graph.grow` says.

`apply_safe` joins them.
-/

set_option autoImplicit false

namespace DoublePushout

namespace Rule

variable {r : Rule} {target result : Graph} {m : Mapping} {placed : List Placed}

/-! ### Ends that are found -/

/-- The copy of a target node is one of the placed nodes. -/
theorem targetCopy_lt {n i : NodeId} (h : targetCopy target placed n = .ok i) :
    i < placed.length := by
  obtain ⟨_, -, hi⟩ := bind_eq_ok.1 h
  split at hi
  · next j hj =>
    cases hi
    exact lastIndex?_lt hj
  · cases hi

/-- The copy of a node of the right side is one of the placed nodes. -/
theorem rhsCopy_lt {n i : NodeId} (h : r.rhsCopy placed n = .ok i) : i < placed.length := by
  obtain ⟨_, -, hi⟩ := bind_eq_ok.1 h
  split at hi
  · next j hj =>
    cases hi
    exact lastIndex?_lt hj
  · cases hi

/-- An edge that is moved to positions below a bound ends there. -/
theorem ends_lt_of_moveEdge {move : NodeId → Except Fault NodeId} {e e' : Edge} {bound : Nat}
    (hmove : ∀ n i, move n = .ok i → i < bound) (h : moveEdge move e = .ok e') :
    e'.tail < bound ∧ e'.head < bound := by
  obtain ⟨tail, head, htail, hhead, rfl⟩ := moveEdge_eq_ok.1 h
  exact ⟨hmove _ _ htail, hmove _ _ hhead⟩

/-- The edges outside the match end at placed nodes. -/
theorem contextEdges_ends_lt {es : List Edge} (h : contextEdges target m placed = .ok es) :
    ∀ e ∈ es, e.tail < placed.length ∧ e.head < placed.length := by
  intro e he
  obtain ⟨_, -, hmove⟩ := (mem_of_mapM_eq_ok h).1 he
  exact ends_lt_of_moveEdge (fun _ _ => targetCopy_lt) hmove

/-- The preserved edges end at placed nodes. -/
theorem preservedEdges_ends_lt {es : List Edge} (h : r.preservedEdges target m placed = .ok es) :
    ∀ e ∈ es, e.tail < placed.length ∧ e.head < placed.length := by
  intro e he
  obtain ⟨_, -, hes⟩ := bind_eq_ok.1 h
  obtain ⟨_, -, hread⟩ := (mem_of_mapM_eq_ok hes).1 he
  obtain ⟨_, -, hmove⟩ := bind_eq_ok.1 hread
  exact ends_lt_of_moveEdge (fun _ _ => targetCopy_lt) hmove

/-- The new edges end at placed nodes. -/
theorem newEdges_ends_lt {es : List Edge} (h : r.newEdges placed = .ok es) :
    ∀ e ∈ es, e.tail < placed.length ∧ e.head < placed.length := by
  intro e he
  obtain ⟨_, -, hread⟩ := (mem_of_mapM_eq_ok h).1 he
  obtain ⟨_, -, hmove⟩ := bind_eq_ok.1 hread
  exact ends_lt_of_moveEdge (fun _ _ => rhsCopy_lt) hmove

/-- What any rule builds has no subgraphs, and its edges end at its nodes. -/
theorem ends_lt_of_build (h : r.build target m = .ok result) :
    result.subgraphs = [] ∧
      ∀ e ∈ result.edges, e.tail < result.nodes.length ∧ e.head < result.nodes.length := by
  simp only [build, bind_eq_ok, pure_eq_ok] at h
  -- Nothing is known of the placed nodes, only that every end has been found among them.
  obtain ⟨placed, -, context, hcontext, preserved, hpreserved, created, hcreated, rfl⟩ := h
  refine ⟨rfl, fun e he => ?_⟩
  simp only [List.mem_append] at he
  rw [List.length_map]
  rcases he with (he | he) | he
  · exact contextEdges_ends_lt hcontext e he
  · exact preservedEdges_ends_lt hpreserved e he
  · exact newEdges_ends_lt hcreated e he

/-- A result has no subgraphs, and its edges end at its nodes. -/
theorem ends_lt_of_apply (h : r.apply target m = .ok result) :
    result.subgraphs = [] ∧
      ∀ e ∈ result.edges, e.tail < result.nodes.length ∧ e.head < result.nodes.length := by
  obtain ⟨_, -, hbuild⟩ := bind_eq_ok.1 h
  exact ends_lt_of_build (orFault_eq_ok.1 hbuild)

/-- What any rule returns is put together edge by edge without a fault. -/
theorem grow_of_apply (h : r.apply target m = .ok result) :
    Graph.grow result.nodes result.edges = .ok result := by
  obtain ⟨hsub, hends⟩ := ends_lt_of_apply h
  refine Graph.grow_eq_ok_iff.2 ⟨hends, ?_⟩
  cases result
  cases hsub
  rfl

/-- What any rule returns is valid. -/
theorem valid_of_apply (h : r.apply target m = .ok result) : result.Valid := by
  have hends := (ends_lt_of_apply h).2
  rw [(Graph.grow_eq_ok_iff.1 (grow_of_apply h)).2]
  exact Graph.valid_of_ends hends

/-! ### Refusals and faults -/

/-- A rule that is refused at a match is not applied there, for the same reason. -/
theorem apply_eq_error {e : Failure ApplyError} (h : r.verify target m = .error e) :
    r.apply target m = .error e := by
  rw [apply, h]
  rfl

/-- A rule is applicable exactly where it is accepted. -/
theorem isApplicable_eq_ok_true_iff :
    r.isApplicable target m = .ok true ↔ r.verify target m = .ok () := by
  rw [isApplicable]
  split <;> simp_all

/-- Asking whether a rule can be applied gives an answer unless the check of the match faults. -/
theorem exists_isApplicable (h : FaultFree (r.verify target m)) :
    ∃ answer, r.isApplicable target m = .ok answer := by
  rw [isApplicable]
  split
  · exact ⟨true, rfl⟩
  · exact ⟨false, rfl⟩
  · next fault hfault => exact absurd hfault (h fault)

/-- A well-formed rule applies to a valid target at every match at which it is accepted. -/
theorem exists_apply_eq_ok_iff (hr : r.WellFormed) (ht : target.Valid) :
    (∃ result, r.apply target m = .ok result) ↔ r.verify target m = .ok () := by
  constructor
  · rintro ⟨result, happly⟩
    obtain ⟨_, hverify, -⟩ := bind_eq_ok.1 happly
    exact hverify
  · intro hverify
    obtain ⟨result, happly, -⟩ := Redex.apply_gives ⟨hr, ht, (verify_eq_ok_iff hr).1 hverify⟩
    exact ⟨result, happly⟩

/-- Applying a well-formed rule to a valid target does not fault, whatever the match. -/
theorem apply_faultFree (hr : r.WellFormed) (ht : target.Valid) :
    FaultFree (r.apply target m) := by
  cases hverify : r.verify target m with
  | ok u =>
    obtain ⟨result, happly⟩ := (exists_apply_eq_ok_iff hr ht).2 hverify
    exact happly ▸ .ok result
  | error e =>
    rw [apply_eq_error hverify]
    rintro fault ⟨⟩
    exact verify_faultFree hr fault hverify

/-- Applying a derived rule to a valid target does not fault and returns a valid graph, and what
any rule returns is a valid graph. -/
theorem apply_safe :
    (∀ (g : Graph) (d : DerivedRule) (target : Graph) (m : Mapping),
      g.toRule = .ok d → target.validate = .ok () →
      FaultFree (d.rule.verify target m) ∧ FaultFree (d.rule.apply target m) ∧
      (∃ answer, d.rule.isApplicable target m = .ok answer) ∧
      ((∃ result, d.rule.apply target m = .ok result) ↔ d.rule.verify target m = .ok ()) ∧
      (d.rule.isApplicable target m = .ok true ↔ d.rule.verify target m = .ok ()) ∧
      (∀ e, d.rule.verify target m = .error e → d.rule.apply target m = .error e)) ∧
    ∀ (r : Rule) (target : Graph) (m : Mapping) (result : Graph),
      r.apply target m = .ok result →
      result.validate = .ok () ∧ Graph.grow result.nodes result.edges = .ok result := by
  constructor
  · intro g d target m hd ht
    have hr := Graph.toRule_wellFormed hd
    have hvalid := Graph.validate_eq_ok_iff.1 ht
    have hverify : FaultFree (d.rule.verify target m) := verify_faultFree hr
    exact ⟨hverify, apply_faultFree hr hvalid, exists_isApplicable hverify,
      exists_apply_eq_ok_iff hr hvalid, isApplicable_eq_ok_true_iff, fun _ => apply_eq_error⟩
  · intro r target m result h
    exact ⟨Graph.validate_eq_ok_iff.2 (valid_of_apply h), grow_of_apply h⟩

/-- A rule that nothing derives: two interface nodes share their places, and a third table entry
points nowhere. -/
def crookedRule : Rule where
  lhs := { nodes := [{ name := "l" }] }
  rhs := { nodes := [{ name := "r" }], edges := [{ tail := 0, head := 0 }] }
  interface := { nodes := [{ name := "c" }, { name := "d" }] }
  toLhs := { nodes := [0, 0, 9] }
  toRhs := { nodes := [0, 0] }

/-- What it makes of the target `replaceTarget` without its edges, at the node `x`. -/
def crookedResult : Graph where
  nodes := [{ name := "y" }, { name := "z", label := some "" }, { name := "x" }, { name := "x" }]
  edges := [{ tail := 3, head := 3 }]

/-- A match with too few entries, all of them out of range. -/
def strayMatch : Mapping where
  nodes := [18446744073709551615]
  edges := [[5, 5], []]

/-- A match out of range is refused, and a rule that nothing derives gives a valid graph where it
gives one. -/
theorem apply_safe_replace :
    (replaceGraph.toRule = .ok replaceRule ∧ replaceTarget.validate = .ok () ∧
      FaultFree (replaceRule.rule.verify replaceTarget strayMatch) ∧
      FaultFree (replaceRule.rule.apply replaceTarget strayMatch) ∧
      (∃ answer, replaceRule.rule.isApplicable replaceTarget strayMatch = .ok answer) ∧
      ((∃ result, replaceRule.rule.apply replaceTarget strayMatch = .ok result) ↔
        replaceRule.rule.verify replaceTarget strayMatch = .ok ()) ∧
      (replaceRule.rule.isApplicable replaceTarget strayMatch = .ok true ↔
        replaceRule.rule.verify replaceTarget strayMatch = .ok ()) ∧
      ∀ e, replaceRule.rule.verify replaceTarget strayMatch = .error e →
        replaceRule.rule.apply replaceTarget strayMatch = .error e) ∧
    crookedRule.apply { replaceTarget with edges := [] } ⟨[0], []⟩ = .ok crookedResult ∧
      crookedResult.validate = .ok () ∧
      Graph.grow crookedResult.nodes crookedResult.edges = .ok crookedResult :=
  have hd : replaceGraph.toRule = .ok replaceRule := by decide +kernel
  have ht : replaceTarget.validate = .ok () := by decide
  have happly : crookedRule.apply { replaceTarget with edges := [] } ⟨[0], []⟩ =
    .ok crookedResult := by decide +kernel
  ⟨⟨hd, ht, apply_safe.1 _ _ _ strayMatch hd ht⟩, happly, apply_safe.2 _ _ _ _ happly⟩

end Rule

end DoublePushout
