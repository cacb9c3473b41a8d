import DoublePushout.Proofs.Rule.Carry

/-!
# `DoublePushout.Proofs.Rule.Commutation`: independent rewrites commute

Two rewrites of one target are independent if neither deletes what the other's match uses. Each
can then be done after the other (`Redex.carry`), and both orders give the same graph up to its
order.

After the second rewrite every handle has been moved twice, so the two results have no handles in
common to compare. An `Origin` names an element by where it comes from: the target, or the right
side of one of the two rules. `Origin.trace` looks up the origin of what the second rewrite lists,
and `Graph.Lists.rekey` turns the listing into one of origins under `jointPlan`, which does not
know the order of the rewrites. What is left after both rewrites does not depend on the order
either (`Chain.mem_map_trace`), so the two listings hold the same origins, and
`Graph.isomorphic_of_perm` gives the isomorphism.

`apply_comm` is the statement about `Rule.apply` for derived rules.
-/

set_option autoImplicit false

namespace DoublePushout

/-- Where an element comes from that two rewrites leave. The rules are told apart by a boolean. -/
inductive Origin where
  /-- It is an element of the target. -/
  | target (id : Nat)
  /-- It is an element of the right side of a rule. -/
  | made (rule : Bool) (id : Nat)
  deriving DecidableEq, Repr

namespace Origin

/-- Where an element of the result of one rewrite comes from. -/
def of (b : Bool) : Element → Origin
  | .kept n => .target n
  | .made i => .made b i

/-- Where an element of the result of the second rewrite comes from. What it keeps is a position
in the listing of the first. -/
def trace (b : Bool) (xs : List Element) : Element → Origin
  | .kept k => (xs[k]?).elim (.target k) (of b)
  | .made i => .made (!b) i

/-- Elements that come from one rule are told apart as they were there. -/
theorem of_injective (b : Bool) : Function.Injective (of b) := by
  intro x y h
  cases x <;> cases y <;> cases h <;> rfl

/-- A kept element is traced to where it was before. -/
theorem trace_kept {b : Bool} {xs : List Element} {k : Nat} {x : Element}
    (hx : xs[k]? = some x) : trace b xs (.kept k) = of b x := by
  rw [trace, hx]
  rfl

/-- Whether an element outlasts both rewrites, in whatever order they are done. -/
def Outlasts (size : Nat) (deletes : Bool → Nat → Prop) (created : Bool → List Nat) :
    Origin → Prop
  | .target n => n < size ∧ ∀ b, ¬ deletes b n
  | .made b i => i ∈ created b

end Origin

/-! ### What two rewrites list -/

/-- The first rewrite lists `xs`, and the second lists `ys`, where what is kept is a position in
`xs`. Of a target of the given size each lists what it does not delete, and what it creates. -/
structure Chain (size : Nat) (deletes : Bool → Nat → Prop) (created : Bool → List Nat) (b : Bool)
    (xs ys : List Element) : Prop where
  nodup : xs.Nodup
  nodup' : ys.Nodup
  kept_iff : ∀ n, .kept n ∈ xs ↔ n < size ∧ ¬ deletes b n
  made_iff : ∀ i, .made i ∈ xs ↔ i ∈ created b
  /-- The second rewrite keeps what the first lists, without what it deletes of the target. -/
  kept_iff' : ∀ k, .kept k ∈ ys ↔
    k < xs.length ∧ ∀ n, xs[k]? = some (.kept n) → ¬ deletes (!b) n
  made_iff' : ∀ i, .made i ∈ ys ↔ i ∈ created (!b)

namespace Chain

variable {size : Nat} {deletes : Bool → Nat → Prop} {created : Bool → List Nat} {b : Bool}
  {xs ys : List Element}

/-- A kept element of the second result was in the first one. -/
theorem exists_kept (h : Chain size deletes created b xs ys) {k : Nat} (hk : .kept k ∈ ys) :
    ∃ x, xs[k]? = some x :=
  ⟨_, List.getElem?_eq_getElem ((h.kept_iff' k).1 hk).1⟩

/-- What is left after both rewrites does not depend on their order. -/
theorem mem_map_trace (h : Chain size deletes created b xs ys) {o : Origin} :
    o ∈ ys.map (Origin.trace b xs) ↔ o.Outlasts size deletes created := by
  rw [List.mem_map]
  constructor
  · rintro ⟨y, hy, rfl⟩
    cases y with
    | kept k =>
      obtain ⟨x, hx⟩ := h.exists_kept hy
      rw [Origin.trace_kept hx]
      cases x with
      | kept n =>
        obtain ⟨hlt, hdel⟩ := (h.kept_iff n).1 (List.mem_of_getElem? hx)
        have hdel' := ((h.kept_iff' k).1 hy).2 n hx
        refine ⟨hlt, fun c => ?_⟩
        rcases Bool.eq_or_eq_not c b with rfl | rfl
        · exact hdel
        · exact hdel'
      | made i => exact (h.made_iff i).1 (List.mem_of_getElem? hx)
    | made i => exact (h.made_iff' i).1 hy
  · intro ho
    -- The first rewrite lists an element with this origin, or the second creates it.
    have hfirst : ∀ x ∈ xs, (∀ n, x = .kept n → ¬ deletes (!b) n) →
        ∃ y ∈ ys, Origin.trace b xs y = Origin.of b x := by
      intro x hx hstays
      have hat := getElem?_idxOf hx
      refine ⟨.kept (xs.idxOf x), (h.kept_iff' _).2 ⟨List.idxOf_lt_length_of_mem hx, ?_⟩,
        Origin.trace_kept hat⟩
      intro n hn
      exact hstays n (Option.some.inj (hat.symm.trans hn))
    cases o with
    | target n =>
      obtain ⟨hlt, hdel⟩ := ho
      exact hfirst (.kept n) ((h.kept_iff n).2 ⟨hlt, hdel b⟩) fun n' hn' =>
        Element.kept.inj hn' ▸ hdel (!b)
    | made c i =>
      rcases Bool.eq_or_eq_not c b with rfl | rfl
      · exact hfirst (.made i) ((h.made_iff i).2 ho) (by simp)
      · exact ⟨.made i, (h.made_iff' i).2 ho, rfl⟩

/-- Different elements of the second listing have different origins. -/
theorem nodup_map_trace (h : Chain size deletes created b xs ys) :
    (ys.map (Origin.trace b xs)).Nodup := by
  -- What the second rule finds was kept or made by the first, so it is not made by the second.
  have hmade : ∀ k i, .kept k ∈ ys → Origin.trace b xs (.kept k) ≠ Origin.made (!b) i := by
    intro k i hk heq
    obtain ⟨x, hx⟩ := h.exists_kept hk
    rw [Origin.trace_kept hx] at heq
    cases x <;> simp [Origin.of] at heq
  refine h.nodup'.map_on fun y hy z hz heq => ?_
  cases y with
  | kept k =>
    cases z with
    | kept k' =>
      obtain ⟨x, hx⟩ := h.exists_kept hy
      obtain ⟨x', hx'⟩ := h.exists_kept hz
      rw [Origin.trace_kept hx, Origin.trace_kept hx'] at heq
      obtain rfl := Origin.of_injective b heq
      rw [eq_of_getElem?_eq h.nodup hx hx']
    | made i => exact absurd heq (hmade k i hy)
  | made i =>
    cases z with
    | kept k => exact absurd heq.symm (hmade k i hz)
    | made i' => exact congrArg Element.made (Origin.made.inj heq).2

end Chain

namespace Rule

/-! ### Two independent rewrites -/

/-- The elements that two rewrites of a target may leave, by their origins. -/
def jointPlan (r : Bool → Rule) (target : Graph) (m : Bool → Mapping) : Plan Origin Origin where
  node
    | .target n => target.node? n
    | .made b i => (r b).rhs.node? i
  link
    | .target j =>
      (target.edge? j).map fun e => ⟨.target e.tail, .target e.head, e.label⟩
    | .made b j => ((r b).rhs.edge? j).map fun e =>
      ⟨.of b ((r b).rhsElement (m b) e.tail), .of b ((r b).rhsElement (m b) e.head), e.label⟩

section Joint
variable {r : Bool → Rule} {target result : Graph} {m : Bool → Mapping} {b : Bool}

/-- The joint plan has the nodes that the plan of each rule has. -/
theorem jointPlan_node (x : Element) :
    (jointPlan r target m).node (.of b x) = ((r b).plan target (m b)).node x := by
  cases x <;> rfl

/-- The joint plan has the edges that the plan of each rule has. -/
theorem jointPlan_link (x : Element) :
    (jointPlan r target m).link (.of b x) =
      (((r b).plan target (m b)).link x).map (Link.map (.of b)) := by
  cases x with
  | kept j =>
    show (target.edge? j).map _ = ((target.edge? j).map _).map _
    rw [Option.map_map]
    rfl
  | made j =>
    show ((r b).rhs.edge? j).map _ = (((r b).rhs.edge? j).map _).map _
    rw [Option.map_map]
    rfl

/-- Two rules can be applied in one target, and neither deletes what the match of
the other uses. -/
structure Independent (r : Bool → Rule) (target : Graph) (m : Bool → Mapping) : Prop where
  redex : ∀ b, (r b).Redex target (m b)
  spares : ∀ b c, b ≠ c → (r b).Spares (m b) (m c)

namespace Independent

/-- The second rule can be applied in the result of the first. -/
theorem carry (h : Independent r target m) (hg : (r b).Gives target (m b) result) :
    (r !b).Redex result ((r b).carry target (m b) (m !b)) :=
  (h.redex b).carry (h.redex !b) (h.spares _ _ (by simp)) (h.spares _ _ (by simp)) hg

/-- What the second rule's right side becomes does not depend on the first rewrite. -/
theorem trace_rhsElement (h : Independent r target m) (i : NodeId) :
    Origin.trace b ((r b).nodeOrder target (m b))
        ((r !b).rhsElement ((r b).carry target (m b) (m !b)) i) =
      .of (!b) ((r !b).rhsElement (m !b) i) := by
  rw [rhsElement_carry]
  cases hx : (r !b).rhsElement (m !b) i with
  | kept n =>
    have hmem := (h.redex b).mem_nodeOrder_of_spares (h.redex !b) (h.spares _ _ (by simp))
      ((h.redex !b).mem_of_rhsElement hx)
    exact Origin.trace_kept (getElem?_idxOf hmem)
  | made k => rfl

/-- After both rewrites the result lists origins. -/
theorem lists_trace (h : Independent r target m) {last : Graph}
    (hg : (r b).Gives target (m b) result)
    (hlast : (r !b).Gives result ((r b).carry target (m b) (m !b)) last) :
    last.Lists (jointPlan r target m)
      (((r !b).nodeOrder result ((r b).carry target (m b) (m !b))).map
        (.trace b ((r b).nodeOrder target (m b))))
      (((r !b).edgeOrder result ((r b).carry target (m b) (m !b))).map
        (.trace b ((r b).edgeOrder target (m b)))) := by
  have hredex := h.carry hg
  refine hlast.lists.rekey _ _ (fun y hy => ?_) fun y hy => ?_
  · cases y with
    | kept k =>
      have hlt : k < result.nodes.length := (hredex.mem_nodeOrder_kept.1 hy).1
      obtain ⟨x, hx⟩ := hg.lists.exists_node_key (List.getElem?_eq_getElem hlt)
      obtain ⟨n, hn, hplan⟩ := hg.lists.node_at hx
      rw [Origin.trace_kept hx, jointPlan_node, hplan]
      exact hn.symm
    | made i => rfl
  · cases y with
    | kept k =>
      have hlt : k < result.edges.length := (hredex.mem_edgeOrder_kept.1 hy).1
      obtain ⟨x, hx⟩ := hg.lists.exists_edge_key (List.getElem?_eq_getElem hlt)
      obtain ⟨e, tail, head, he, hlink, htail, hhead⟩ := hg.lists.edge_at hx
      rw [Origin.trace_kept hx, jointPlan_link, hlink]
      -- The ends of the edge are positions, and what stands there are the ends of its key's edge.
      show _ = ((result.edge? k).map _).map _
      rw [he]
      simp only [Option.map_some, Link.map, Origin.trace_kept htail, Origin.trace_kept hhead]
    | made j =>
      show ((r !b).rhs.edge? j).map _ = (((r !b).rhs.edge? j).map _).map _
      rw [Option.map_map]
      refine congrArg (Option.map · _) (funext fun e => ?_)
      simp only [Function.comp_apply, Link.map, h.trace_rhsElement]

/-- The nodes that the two rewrites list. -/
theorem node_chain (h : Independent r target m) (hg : (r b).Gives target (m b) result) :
    Chain target.nodes.length (fun c => (r c).DeletesNode (m c)) (fun c => (r c).createdNodes) b
      ((r b).nodeOrder target (m b))
      ((r !b).nodeOrder result ((r b).carry target (m b) (m !b))) where
  nodup := (h.redex b).nodeOrder_nodup
  nodup' := (h.carry hg).nodeOrder_nodup
  kept_iff _ := (h.redex b).mem_nodeOrder_kept
  made_iff _ := Redex.mem_nodeOrder_made
  kept_iff' k := by
    rw [(h.carry hg).mem_nodeOrder_kept, hg.lists.length_nodes, deletesNode_carry]
    -- A position that the second rule deletes is that of a target node that it deletes.
    refine and_congr_right fun _ => ⟨fun hnot n hn hdel => ?_, ?_⟩
    · exact hnot ⟨n, hdel, idxOf_eq (h.redex b).nodeOrder_nodup hn⟩
    · rintro hstays ⟨n, hdel, rfl⟩
      have hmem := (h.redex b).mem_nodeOrder_of_spares (h.redex !b) (h.spares _ _ (by simp))
        hdel.mem
      exact hstays n (getElem?_idxOf hmem) hdel
  made_iff' _ := Redex.mem_nodeOrder_made

/-- The edges of the second result come from those of the first by what the second rule does. -/
theorem edge_chain (h : Independent r target m) (hg : (r b).Gives target (m b) result) :
    Chain target.edges.length (fun c => (r c).DeletesEdge (m c)) (fun c => (r c).createdEdges) b
      ((r b).edgeOrder target (m b))
      ((r !b).edgeOrder result ((r b).carry target (m b) (m !b))) where
  nodup := Redex.edgeOrder_nodup
  nodup' := Redex.edgeOrder_nodup
  kept_iff _ := (h.redex b).mem_edgeOrder_kept
  made_iff _ := Redex.mem_edgeOrder_made
  kept_iff' k := by
    rw [(h.carry hg).mem_edgeOrder_kept, hg.lists.length_edges, deletesEdge_carry]
    refine and_congr_right fun _ => ⟨fun hnot e he hdel => ?_, ?_⟩
    · exact hnot ⟨e, hdel, idxOf_eq Redex.edgeOrder_nodup he⟩
    · rintro hstays ⟨e, hdel, rfl⟩
      have hmem := (h.redex b).mem_edgeOrder_of_spares (h.redex !b) (h.spares _ _ (by simp))
        hdel.mem
      exact hstays e (getElem?_idxOf hmem) hdel
  made_iff' _ := Redex.mem_edgeOrder_made

/-- One rule can be applied after the other, and the result lists the origins
that outlast both. -/
theorem exists_second (h : Independent r target m) (b : Bool) :
    ∃ first last ns es, (r b).apply target (m b) = .ok first ∧
      (r !b).verify first ((r b).carry target (m b) (m !b)) = .ok () ∧
      (r !b).apply first ((r b).carry target (m b) (m !b)) = .ok last ∧
      last.Lists (jointPlan r target m) ns es ∧ ns.Nodup ∧ es.Nodup ∧
      (∀ o, o ∈ ns ↔ o.Outlasts target.nodes.length (fun c => (r c).DeletesNode (m c))
        fun c => (r c).createdNodes) ∧
      ∀ o, o ∈ es ↔ o.Outlasts target.edges.length (fun c => (r c).DeletesEdge (m c))
        fun c => (r c).createdEdges := by
  obtain ⟨first, hfirst, hg⟩ := (h.redex b).apply_gives
  have hredex := h.carry hg
  -- The second rule applies in the result of the first, because neither takes away what the other
  -- needs.
  obtain ⟨last, hlast, hg'⟩ := hredex.apply_gives
  have hnodes := h.node_chain hg
  have hedges := h.edge_chain hg
  exact ⟨first, last, _, _, hfirst,
    (verify_eq_ok_iff hredex.wellFormed).2 hredex.applicable, hlast,
    h.lists_trace hg hg', hnodes.nodup_map_trace, hedges.nodup_map_trace,
    fun _ => hnodes.mem_map_trace, fun _ => hedges.mem_map_trace⟩

end Independent

end Joint

/-- Independent rewrites commute: if two derived rules are accepted in a valid target, and each
spares the match of the other, then either is accepted after the other, at the match that the
other rewrite carries along, and both orders give the same graph up to the order of nodes and
edges. -/
theorem apply_comm {g₁ g₂ : Graph} {d₁ d₂ : DerivedRule} {target : Graph} {m₁ m₂ : Mapping}
    (hd₁ : g₁.toRule = .ok d₁) (hd₂ : g₂.toRule = .ok d₂) (ht : target.validate = .ok ())
    (hm₁ : d₁.rule.verify target m₁ = .ok ()) (hm₂ : d₂.rule.verify target m₂ = .ok ())
    (hs₁ : d₁.rule.Spares m₁ m₂) (hs₂ : d₂.rule.Spares m₂ m₁) :
    ∃ result₁ result₂ result₁₂ result₂₁,
      d₁.rule.apply target m₁ = .ok result₁ ∧ d₂.rule.apply target m₂ = .ok result₂ ∧
      d₂.rule.verify result₁ (d₁.rule.carry target m₁ m₂) = .ok () ∧
      d₁.rule.verify result₂ (d₂.rule.carry target m₂ m₁) = .ok () ∧
      d₂.rule.apply result₁ (d₁.rule.carry target m₁ m₂) = .ok result₁₂ ∧
      d₁.rule.apply result₂ (d₂.rule.carry target m₂ m₁) = .ok result₂₁ ∧
      result₁₂.Isomorphic result₂₁ := by
  -- The first rule goes by `false`, the second by `true`.
  have hind : Independent (cond · d₂.rule d₁.rule) target (cond · m₂ m₁) := by
    constructor
    · rintro (_ | _)
      · exact redex_of_verify hd₁ ht hm₁
      · exact redex_of_verify hd₂ ht hm₂
    · rintro (_ | _) (_ | _) hne
      · exact absurd rfl hne
      · exact hs₁
      · exact hs₂
      · exact absurd rfl hne
  obtain ⟨result₁, result₁₂, ns, es, happly₁, hverify₁, happly₁₂, hlists, hns, hes, hmem,
    hmem'⟩ := hind.exists_second false
  obtain ⟨result₂, result₂₁, ns', es', happly₂, hverify₂, happly₂₁, hlists', hns', hes', hmem₂,
    hmem₂'⟩ := hind.exists_second true
  -- Both results list the origins that outlast both rewrites, each once.
  refine ⟨result₁, result₂, result₁₂, result₂₁, happly₁, happly₂, hverify₁, hverify₂, happly₁₂,
    happly₂₁, Graph.isomorphic_of_perm hlists hlists' ?_ ?_ hns hes⟩
  · exact (List.perm_ext_iff_of_nodup hns hns').2 fun o => (hmem o).trans (hmem₂ o).symm
  · exact (List.perm_ext_iff_of_nodup hes hes').2 fun o => (hmem' o).trans (hmem₂' o).symm

/-- A rule in writing: an edge is turned round, and an edge from a new node marks its end. -/
def turnGraph : Graph where
  nodes := [{ name := "from" }, { name := "to" }, { name := "mark" }]
  edges := [{ tail := 0, head := 1 }, { tail := 1, head := 0, label := some "t" },
    { tail := 2, head := 1 }]
  subgraphs := [
    { name := "L", nodes := IdSet.ofList [0, 1], edges := IdSet.ofList [0] },
    { name := "R", nodes := IdSet.ofList [0, 1, 2], edges := IdSet.ofList [1, 2] }]

/-- The rule that is written there. -/
def turnRule : DerivedRule where
  rule := {
    lhs := {
      nodes := [{ name := "from" }, { name := "to" }]
      edges := [{ tail := 0, head := 1 }] }
    rhs := {
      nodes := [{ name := "from" }, { name := "to" }, { name := "mark" }]
      edges := [{ tail := 1, head := 0, label := some "t" }, { tail := 2, head := 1 }] }
    interface := { nodes := [{ name := "from" }, { name := "to" }] }
    toLhs := { nodes := [0, 1] }
    toRhs := { nodes := [0, 1] } }
  lhsOrigin := { nodes := [0, 1], edges := [[0]] }
  rhsOrigin := { nodes := [0, 1, 2], edges := [[1], [2]] }

/-- A match of it in `replaceTarget` that meets `replaceMatch` in the node with the loops. -/
def turnMatch : Mapping where
  nodes := [2, 0]
  edges := [[3]]

/-- Replacing a node and turning an edge elsewhere can be done in either order. -/
theorem apply_comm_replace_turn :
    replaceGraph.toRule = .ok replaceRule ∧ turnGraph.toRule = .ok turnRule ∧
    replaceTarget.validate = .ok () ∧
    replaceRule.rule.verify replaceTarget replaceMatch = .ok () ∧
    turnRule.rule.verify replaceTarget turnMatch = .ok () ∧
    replaceRule.rule.Spares replaceMatch turnMatch ∧
    turnRule.rule.Spares turnMatch replaceMatch ∧
    ∃ result₁ result₂ result₁₂ result₂₁,
      replaceRule.rule.apply replaceTarget replaceMatch = .ok result₁ ∧
      turnRule.rule.apply replaceTarget turnMatch = .ok result₂ ∧
      turnRule.rule.verify result₁
        (replaceRule.rule.carry replaceTarget replaceMatch turnMatch) = .ok () ∧
      replaceRule.rule.verify result₂
        (turnRule.rule.carry replaceTarget turnMatch replaceMatch) = .ok () ∧
      turnRule.rule.apply result₁
        (replaceRule.rule.carry replaceTarget replaceMatch turnMatch) = .ok result₁₂ ∧
      replaceRule.rule.apply result₂
        (turnRule.rule.carry replaceTarget turnMatch replaceMatch) = .ok result₂₁ ∧
      result₁₂.Isomorphic result₂₁ :=
  have hd₁ : replaceGraph.toRule = .ok replaceRule := by decide +kernel
  have hd₂ : turnGraph.toRule = .ok turnRule := by decide +kernel
  have ht : replaceTarget.validate = .ok () := by decide
  have hm₁ : replaceRule.rule.verify replaceTarget replaceMatch = .ok () := by decide +kernel
  have hm₂ : turnRule.rule.verify replaceTarget turnMatch = .ok () := by decide +kernel
  have hs₁ : replaceRule.rule.Spares replaceMatch turnMatch := by decide
  have hs₂ : turnRule.rule.Spares turnMatch replaceMatch := by decide
  ⟨hd₁, hd₂, ht, hm₁, hm₂, hs₁, hs₂, apply_comm hd₁ hd₂ ht hm₁ hm₂ hs₁ hs₂⟩

end Rule

end DoublePushout
