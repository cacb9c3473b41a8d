import DoublePushout.Proofs.Rule.Decomposition
import DoublePushout.Proofs.Rule.Result

/-!
# `DoublePushout.Proofs.Rule.Neutral`: rules that change nothing

A rule is `Neutral` if its interface has all of either side: each node once, and every edge. Then
nothing is deleted or created, so a match has nothing to be refused for but two nodes with one
image. The result is built anew all the same: matched elements come after the others, an edge that
several edges of the left side are realised by is asked for more than once, and every end is
looked up. It has the elements of the target, in another order.

* `Neutral.verify_eq_ok_iff` and `Neutral.verify_nonInjective`: a valid match is accepted exactly
  if it is injective, and refused for no other reason.
* `Neutral.isomorphic`: what is built is the target, up to the order.
* `Graph.identityRule_neutral` and `Graph.toRule_neutral`: a rule that keeps a whole graph is
  neutral, and so is a derived one without elements of its own on either side.

`neutral_changes_nothing` is the statement about all of these.
-/

set_option autoImplicit false

namespace DoublePushout

namespace Rule

/-- The interface has all of either side. -/
structure Neutral (r : Rule) : Prop where
  /-- The sides are valid. -/
  valid : ∀ s, (r.side s).validate = .ok ()
  /-- The interface has each node of a side once. -/
  nodes : ∀ s, (r.into s).nodes.Perm (r.side s).nodeIds
  /-- Its nodes are those that it maps to a side. -/
  nodes_length : ∀ s, (r.into s).nodes.length = r.interface.nodes.length
  /-- The interface has every edge of a side, and no other. -/
  mem_edges : ∀ s e, e ∈ (r.into s).edges.flatten ↔ e < (r.side s).edges.length

variable {r : Rule} {target : Graph} {m : Mapping}

namespace Neutral

/-- The interface of a neutral rule has every node of either side. -/
theorem mem_nodes (h : r.Neutral) {s : Side} {n : NodeId} :
    n ∈ (r.into s).nodes ↔ n < (r.side s).nodes.length :=
  (h.nodes s).mem_iff.trans Graph.mem_nodeIds

/-- A neutral rule is well-formed. -/
theorem wellFormed (h : r.Neutral) : r.WellFormed where
  lhs_valid := Graph.validate_eq_ok_iff.1 (h.valid .lhs)
  rhs_valid := Graph.validate_eq_ok_iff.1 (h.valid .rhs)
  toLhs_length := h.nodes_length .lhs
  toRhs_length := h.nodes_length .rhs
  toLhs_lt _ := (h.mem_nodes (s := .lhs)).1
  toRhs_lt _ := (h.mem_nodes (s := .rhs)).1
  toLhs_nodup := (h.nodes .lhs).nodup_iff.2 List.nodup_range
  toRhs_nodup := (h.nodes .rhs).nodup_iff.2 List.nodup_range
  toLhs_edge_lt e := (h.mem_edges .lhs e).1

/-! ### Nothing is deleted or created -/

/-- No node of a neutral rule is on one side only. -/
theorem ownNodes_eq_nil (h : r.Neutral) (s : Side) : r.ownNodes s = [] := by
  rw [Rule.ownNodes_eq, List.filter_eq_nil_iff]
  intro n hn
  simpa [h.mem_nodes] using hn

/-- No edge of a neutral rule is on one side only. -/
theorem ownEdges_eq_nil (h : r.Neutral) (s : Side) : r.ownEdges s = [] := by
  rw [Rule.ownEdges_eq, List.filter_eq_nil_iff]
  intro e he
  simpa only [h.mem_edges, decide_eq_true_eq, not_not] using Graph.mem_edgeIds.1 he

/-- A neutral rule deletes no node. -/
theorem not_deletesNode (h : r.Neutral) (n : NodeId) : ¬ r.DeletesNode m n := by
  have hdeleted : r.deletedNodes = [] := h.ownNodes_eq_nil .lhs
  rintro ⟨i, hi, -⟩
  exact List.not_mem_nil (hdeleted ▸ hi)

/-- A neutral rule deletes no edge. -/
theorem not_deletesEdge (h : r.Neutral) (e : EdgeId) : ¬ r.DeletesEdge m e := by
  have hdeleted : r.deletedEdges = [] := h.ownEdges_eq_nil .lhs
  rintro ⟨i, hi, -⟩
  exact List.not_mem_nil (hdeleted ▸ hi)

/-! ### Which matches are accepted -/

/-- A neutral rule can be applied at any injective match. -/
theorem applicable (h : r.Neutral) (hm : m.validate r.lhs target = .ok ()) (hinj : m.Injective) :
    r.Applicable target m where
  embeds := Mapping.validate_eq_ok_iff.1 hm
  injective := hinj
  disjoint e hdel := absurd hdel (h.not_deletesEdge e)
  ends_stay _ _ _ _ := ⟨h.not_deletesNode _, h.not_deletesNode _⟩

/-- It is accepted there and nowhere else. -/
theorem verify_eq_ok_iff (h : r.Neutral) (hm : m.validate r.lhs target = .ok ()) :
    r.verify target m = .ok () ↔ m.Injective :=
  (Rule.verify_eq_ok_iff h.wellFormed).trans ⟨Applicable.injective, h.applicable hm⟩

/-- Two nodes with one image are the only reason to refuse a valid match. -/
theorem verify_nonInjective (hm : m.validate r.lhs target = .ok ()) (hinj : ¬ m.Injective) :
    ∃ n, r.verify target m = .error (.refused (.nonInjective n)) := by
  obtain ⟨n, hn⟩ := Option.ne_none_iff_exists'.1 (mt firstRepeat?_nodes_eq_none.1 hinj)
  refine ⟨n, ?_⟩
  rw [verify, hm, hn]
  rfl

/-! ### What is built -/

/-- The nodes of the result are those of the target. -/
theorem nodeOrder_perm (h : r.Neutral) (hredex : r.Redex target m) :
    (target.nodeIds.map .kept).Perm (r.nodeOrder target m) := by
  refine (List.perm_ext_iff_of_nodup (List.nodup_range.map Redex.kept_injective)
    hredex.nodeOrder_nodup).2 fun x => ?_
  cases x with
  | kept n => simp [hredex.mem_nodeOrder_kept, h.not_deletesNode]
  | made i =>
    have hcreated : r.createdNodes = [] := h.ownNodes_eq_nil .rhs
    simp [Redex.mem_nodeOrder_made, hcreated]

/-- The edges of the result are those of the target. -/
theorem edgeOrder_perm (h : r.Neutral) (hredex : r.Redex target m) :
    (target.edgeIds.map .kept).Perm (r.edgeOrder target m) := by
  refine (List.perm_ext_iff_of_nodup (List.nodup_range.map Redex.kept_injective)
    Redex.edgeOrder_nodup).2 fun x => ?_
  cases x with
  | kept e => simp [hredex.mem_edgeOrder_kept, h.not_deletesEdge]
  | made i =>
    have hcreated : r.createdEdges = [] := h.ownEdges_eq_nil .rhs
    simp [Redex.mem_edgeOrder_made, hcreated]

/-- The target lists its own elements as the ones that are kept. -/
theorem lists_target (hvalid : target.Valid) :
    target.Lists (r.plan target m) (target.nodeIds.map .kept) (target.edgeIds.map .kept) := by
  refine (Graph.lists_ownPlan hvalid.ends_lt).rekey Element.kept Element.kept (fun n _ => rfl)
    fun j _ => ?_
  show (target.edge? j).map _ = ((target.edge? j).map _).map _
  rw [Option.map_map]
  rfl

/-- A rewrite gives back the target, up to the order of its nodes and edges. -/
theorem isomorphic (h : r.Neutral) (hredex : r.Redex target m) {result : Graph}
    (hgives : r.Gives target m result) : target.Isomorphic result :=
  Graph.isomorphic_of_perm (lists_target hredex.valid) hgives.lists (h.nodeOrder_perm hredex)
    (h.edgeOrder_perm hredex) (List.nodup_range.map Redex.kept_injective)
    (List.nodup_range.map Redex.kept_injective)

end Neutral

/-- A well-formed rule without elements of its own on either side is neutral, if the edges of its
interface are edges of the sides. -/
theorem WellFormed.neutral (h : r.WellFormed) (hnodes : ∀ s, r.ownNodes s = [])
    (hedges : ∀ s, r.ownEdges s = [])
    (hlt : ∀ s, ∀ e ∈ (r.into s).edges.flatten, e < (r.side s).edges.length) : r.Neutral where
  valid := Side.forall_iff.2
    ⟨Graph.validate_eq_ok_iff.2 h.lhs_valid, Graph.validate_eq_ok_iff.2 h.rhs_valid⟩
  nodes s := by
    -- A side without nodes of its own lists every node in the interface, and each once.
    have hnodup : ∀ s, (r.into s).nodes.Nodup := Side.forall_iff.2 ⟨h.toLhs_nodup, h.toRhs_nodup⟩
    have hbelow : ∀ s, ∀ n ∈ (r.into s).nodes, n < (r.side s).nodes.length :=
      Side.forall_iff.2 ⟨h.toLhs_lt, h.toRhs_lt⟩
    have hown := hnodes s
    rw [ownNodes_eq, List.filter_eq_nil_iff] at hown
    refine (List.perm_ext_iff_of_nodup (hnodup s) List.nodup_range).2 fun n => ?_
    exact ⟨fun hn => List.mem_range.2 (hbelow s n hn), fun hn => by simpa using hown n hn⟩
  nodes_length := Side.forall_iff.2 ⟨h.toLhs_length, h.toRhs_length⟩
  mem_edges s e := by
    have hown := hedges s
    rw [ownEdges_eq, List.filter_eq_nil_iff] at hown
    exact ⟨hlt s e, fun he => by simpa using hown e (Graph.mem_edgeIds.2 he)⟩

end Rule

/-! ### Neutral rules -/

namespace Graph

/-- The rule whose sides and interface are all the graph. -/
def identityRule (g : Graph) : Rule where
  lhs := g
  rhs := g
  interface := g
  toLhs := { nodes := g.nodeIds, edges := g.edgeIds.map ([·]) }
  toRhs := { nodes := g.nodeIds, edges := g.edgeIds.map ([·]) }

/-- Doing nothing to a valid graph is neutral. -/
theorem identityRule_neutral {g : Graph} (hg : g.validate = .ok ()) : g.identityRule.Neutral := by
  have hside : ∀ s, g.identityRule.side s = g := Side.forall_iff.2 ⟨rfl, rfl⟩
  have hinto : ∀ s, g.identityRule.into s =
      { nodes := g.nodeIds, edges := g.edgeIds.map ([·]) } :=
    Side.forall_iff.2 ⟨rfl, rfl⟩
  refine ⟨fun s => ?_, fun s => ?_, fun s => ?_, fun s e => ?_⟩
  · rw [hside, hg]
  · rw [hside, hinto]
  · rw [hinto]
    exact List.length_range
  · rw [hside, hinto, ← List.flatMap_def, ← List.map_eq_flatMap, List.map_id', mem_edgeIds]

/-- A derived rule without elements of its own on either side is neutral. -/
theorem toRule_neutral {g : Graph} {d : DerivedRule} (hd : g.toRule = .ok d)
    (hnodes : ∀ s, d.rule.ownNodes s = []) (hedges : ∀ s, d.rule.ownEdges s = []) :
    d.rule.Neutral := by
  refine (toRule_wellFormed hd).neutral hnodes hedges fun s e he => ?_
  obtain ⟨a, -, hsound, rfl⟩ := toRule_eq_ok hd
  obtain ⟨p, hp, rfl⟩ := Annotated.mem_flatten_edges_into.1 he
  rw [Annotated.side_rule]
  exact hsound.pair_lt hp s

end Graph

/-- A neutral rule can be applied at the injective matches, is refused at the others for two nodes
with one image, and gives back its target with names, stored labels and ends, in another order.
The rule that keeps a whole valid graph is neutral, and so is a derived rule that deletes and
creates nothing. -/
theorem neutral_changes_nothing :
    (∀ (r : Rule) (target : Graph) (m : Mapping), r.Neutral → target.validate = .ok () →
      m.validate r.lhs target = .ok () →
        (r.verify target m = .ok () ↔ m.Injective) ∧
        (¬ m.Injective → ∃ n, r.verify target m = .error (.refused (.nonInjective n))) ∧
        (m.Injective → ∃ result, r.apply target m = .ok result ∧ target.Isomorphic result)) ∧
    (∀ g : Graph, g.validate = .ok () → g.identityRule.Neutral) ∧
    ∀ (g : Graph) (d : DerivedRule), g.toRule = .ok d → d.rule.deletedNodes = [] →
      d.rule.createdNodes = [] → d.rule.deletedEdges = [] → d.rule.createdEdges = [] →
        d.rule.Neutral := by
  refine ⟨fun r target m hr htarget hm => ⟨hr.verify_eq_ok_iff hm,
    Rule.Neutral.verify_nonInjective hm, fun hinj => ?_⟩, fun g => Graph.identityRule_neutral,
    fun g d hd hdn hcn hde hce =>
      Graph.toRule_neutral hd (Side.forall_iff.2 ⟨hdn, hcn⟩) (Side.forall_iff.2 ⟨hde, hce⟩)⟩
  -- A neutral rule deletes nothing, so an injective match meets no obstacle.
  have hredex : r.Redex target m :=
    ⟨hr.wellFormed, Graph.validate_eq_ok_iff.1 htarget, hr.applicable hm hinj⟩
  obtain ⟨result, happly, hgives⟩ := hredex.apply_gives
  exact ⟨result, happly, hr.isomorphic hredex hgives⟩

/-- Two edges side by side and a loop. -/
def twinGraph : Graph where
  nodes := [{ name := "a", label := some "x" }, { name := "b" }]
  edges := [{ tail := 0, head := 1 }, { tail := 0, head := 1, label := some "k" },
    { tail := 1, head := 1 }]

/-- A graph in which the two edges have three to be realised by. -/
def twinTarget : Graph where
  nodes := [{ name := "end", label := some "x" }, { name := "apart" },
    { name := "start", label := some "x" }]
  edges := [{ tail := 2, head := 0, label := some "" }, { tail := 1, head := 0 },
    { tail := 2, head := 0 }, { tail := 0, head := 0 },
    { tail := 2, head := 0, label := some "k" }]

/-- A rule in writing that keeps a node and a loop at it. -/
def keepGraph : Graph where
  nodes := [{ name := "n" }]
  edges := [{ tail := 0, head := 0, label := some "k" },
    { tail := 0, head := 0, label := some "k" }]
  subgraphs := [{ name := "L", nodes := IdSet.ofList [0], edges := IdSet.ofList [0] },
    { name := "R", nodes := IdSet.ofList [0], edges := IdSet.ofList [1] }]

/-- The rule that is written there. -/
def keepRule : DerivedRule where
  rule := {
    lhs := { nodes := [{ name := "n" }], edges := [{ tail := 0, head := 0, label := some "k" }] }
    rhs := { nodes := [{ name := "n" }], edges := [{ tail := 0, head := 0, label := some "k" }] }
    interface := {
      nodes := [{ name := "n" }]
      edges := [{ tail := 0, head := 0, label := some "k" }] }
    toLhs := { nodes := [0], edges := [[0]] }
    toRhs := { nodes := [0], edges := [[0]] } }
  lhsOrigin := { nodes := [0], edges := [[0]] }
  rhsOrigin := { nodes := [0], edges := [[1]] }

/-- An identity rule with parallel edges, at an injective match and at one that is not, and a
derived neutral rule. -/
theorem neutral_changes_nothing_twin :
    (∃ result, twinGraph.identityRule.apply twinTarget ⟨[2, 0], [[0, 2], [2, 4], [3]]⟩ =
      .ok result ∧ twinTarget.Isomorphic result) ∧
    (∃ n, twinGraph.identityRule.verify twinTarget ⟨[0, 0], [[3], [3], [3]]⟩ =
      .error (.refused (.nonInjective n))) ∧
    keepGraph.toRule = .ok keepRule ∧ keepRule.rule.Neutral := by
  obtain ⟨happlies, hidentity, hderived⟩ := neutral_changes_nothing
  have htwin : twinGraph.identityRule.Neutral := hidentity twinGraph (by decide +kernel)
  have htarget : twinTarget.validate = .ok () := by decide +kernel
  have hkeep : keepGraph.toRule = .ok keepRule := by decide +kernel
  refine ⟨?_, ?_, hkeep, hderived keepGraph keepRule hkeep (by decide +kernel) (by decide +kernel)
    (by decide +kernel) (by decide +kernel)⟩
  · exact (happlies _ _ _ htwin htarget (by decide +kernel)).2.2 (by decide +kernel)
  · exact (happlies _ _ _ htwin htarget (by decide +kernel)).2.1 (by decide +kernel)

end DoublePushout
