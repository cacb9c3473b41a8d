import DoublePushout.Proofs.Embedding
import DoublePushout.Proofs.Rule.Decomposition

/-!
# `DoublePushout.Proofs.Rule.Agreement`: how the two sides of a rule hang together

The interface relates the sides of a rule. Two nodes are one interface node (`Rule.Shares`), and
two edges are one interface edge (`Rule.Pairs`). `Rule.Balanced` is what a derived rule has beyond
`WellFormed`: a shared node looks the same on both sides, and an interface edge is one edge of
either side.

Edges are paired by their labels, so the ends of a pair need not agree. `DerivedRule.KeepsEnds`
says in the annotated graph that they do, and `Rule.PairsAgree` says it in the rule.
`Decomposes.keepsEnds_iff` is that these are the same.
-/

set_option autoImplicit false

namespace DoublePushout

namespace Rule

/-- The nodes of the left and of the right side are one interface node. -/
def Shares (r : Rule) (l i : NodeId) : Prop :=
  ∃ c : NodeId, r.toLhs.nodes[c]? = some l ∧ r.toRhs.nodes[c]? = some i

/-- The edges of the left and of the right side are one interface edge. -/
def Pairs (r : Rule) (i j : EdgeId) : Prop :=
  ∃ c : EdgeId, r.toLhs.edges[c]? = some [i] ∧ r.toRhs.edges[c]? = some [j]

/-- The rule is well-formed, and its interface is in either side what it is in the other. -/
structure Balanced (r : Rule) : Prop extends r.WellFormed where
  /-- A shared node looks the same on both sides. -/
  shared_eq : ∀ l i, r.Shares l i → r.lhs.node? l = r.rhs.node? i
  /-- The interface has as many edges as it maps to the left side. -/
  toLhs_edges_length : r.toLhs.edges.length = r.interface.edges.length
  /-- The interface has as many edges as it maps to the right side. -/
  toRhs_edges_length : r.toRhs.edges.length = r.interface.edges.length
  /-- An interface edge is one edge of either side. -/
  pair : ∀ c < r.interface.edges.length,
    ∃ i j, r.toLhs.edges[c]? = some [i] ∧ r.toRhs.edges[c]? = some [j]
  /-- An edge of the right side is paired with one edge. -/
  pair_left : ∀ i i' j, r.Pairs i j → r.Pairs i' j → i = i'
  /-- A pair is of edges that the sides have. -/
  pair_lt : ∀ i j, r.Pairs i j → i < r.lhs.edges.length ∧ j < r.rhs.edges.length

/-- Paired edges have shared ends. -/
def PairsAgree (r : Rule) : Prop :=
  ∀ i j e f, r.Pairs i j → r.lhs.edge? i = some e → r.rhs.edge? j = some f →
    r.Shares e.tail f.tail ∧ r.Shares e.head f.head

variable {r : Rule}

/-- The left edge of a pair is one that the rule preserves. -/
theorem Pairs.mem_left {i j : EdgeId} (h : r.Pairs i j) : i ∈ r.toLhs.edges.flatten := by
  obtain ⟨c, hi, -⟩ := h
  exact Mapping.mem_flatten_edges hi (List.mem_singleton_self i)

/-- In a balanced rule every preserved edge of the right side is the right one of a pair. -/
theorem Balanced.exists_pairs_right (h : r.Balanced) {j : EdgeId}
    (hj : j ∈ r.toRhs.edges.flatten) : ∃ i, r.Pairs i j := by
  obtain ⟨js, hjs, hmem⟩ := List.mem_flatten.1 hj
  obtain ⟨c, hc⟩ := List.getElem?_of_mem hjs
  obtain ⟨i, j', hi, hj'⟩ :=
    h.pair c (h.toRhs_edges_length ▸ (List.getElem?_eq_some_iff.1 hc).1)
  cases hc.symm.trans hj'
  rw [List.mem_singleton.1 hmem]
  exact ⟨i, c, hi, hj'⟩

end Rule

/-! ### The sides of a derived rule in the annotated graph -/

namespace Graph.Presents

variable {g side : Graph} {part : Subgraph} {origin : Mapping}

/-- A node looks like the one that it comes from. -/
theorem node?_eq (h : g.Presents part side origin) {i n : NodeId}
    (hi : origin.nodes[i]? = some n) : side.node? i = g.node? n := by
  have hat := congrArg (·[i]?) h.node_eq
  simp only [List.getElem?_map, hi, Option.map_some] at hat
  obtain ⟨node, hnode, heq⟩ := Option.map_eq_some_iff.1 hat
  rw [← heq]
  exact hnode

/-- An edge comes from an edge of the annotated graph, and so do its ends. -/
theorem edge_at (h : g.Presents part side origin) {i : EdgeId} {e : Edge}
    (hi : side.edge? i = some e) :
    ∃ a e', origin.edges[i]? = some [a] ∧ g.edge? a = some e' ∧
      origin.nodes[e.tail]? = some e'.tail ∧ origin.nodes[e.head]? = some e'.head := by
  have hlt : i < part.edges.toList.length := by
    rw [h.edge_eq.length_eq]
    exact (List.getElem?_eq_some_iff.1 hi).1
  have ha := List.getElem?_eq_getElem hlt
  obtain ⟨e₁, he₁, e', he', -, htail, hhead⟩ := forall₂_getElem? h.edge_eq ha
  cases hi.symm.trans he₁
  refine ⟨_, e', ?_, he', htail, hhead⟩
  rw [h.edges_eq, List.getElem?_map, ha]
  rfl

end Graph.Presents

/-- The two edges that an interface edge stands for have the same ends in the annotated graph. -/
def DerivedRule.KeepsEnds (d : DerivedRule) (g : Graph) : Prop :=
  ∀ c < d.rule.interface.edges.length, ∃ i j a b e f,
    d.rule.toLhs.edges[c]? = some [i] ∧ d.rule.toRhs.edges[c]? = some [j] ∧
    d.lhsOrigin.edges[i]? = some [a] ∧ d.rhsOrigin.edges[j]? = some [b] ∧
    g.edge? a = some e ∧ g.edge? b = some f ∧ e.tail = f.tail ∧ e.head = f.head

namespace DerivedRule.Decomposes

variable {d : DerivedRule} {g : Graph} {part : Side → Subgraph}

/-- A shared node comes from one node. -/
theorem origin_of_shares (h : d.Decomposes g part) {l i : NodeId} (hs : d.rule.Shares l i) :
    ∃ n, d.lhsOrigin.nodes[l]? = some n ∧ d.rhsOrigin.nodes[i]? = some n := by
  obtain ⟨c, hl, hi⟩ := hs
  -- Either side leads the interface node to the node at its place among those of both parts.
  have hread : ∀ s, ∀ k : NodeId, (d.rule.into s).nodes[c]? = some k →
      some ((d.origin s).nodes[k]?) =
        (((part .lhs).nodes.toList.filter (· ∈ (part .rhs).nodes)).map some)[c]? := by
    intro s k hk
    rw [← h.interface_origin s, List.getElem?_map, hk]
    rfl
  have hlhs := hread .lhs l hl
  have hrhs := hread .rhs i hi
  obtain ⟨n, -, hn⟩ := Option.map_eq_some_iff.1 ((List.getElem?_map ..).symm.trans hlhs.symm)
  refine ⟨n, hn.symm, ?_⟩
  exact (Option.some.inj (hrhs.trans hlhs.symm)).trans hn.symm

/-- Nodes of the two sides are shared exactly when they come from one node. -/
theorem shares_iff (h : d.Decomposes g part) {l i n n' : NodeId}
    (hl : d.lhsOrigin.nodes[l]? = some n) (hi : d.rhsOrigin.nodes[i]? = some n') :
    d.rule.Shares l i ↔ n = n' := by
  constructor
  · intro hs
    obtain ⟨k, hlk, hik⟩ := h.origin_of_shares hs
    have hn : n = k := Option.some.inj (hl.symm.trans hlk)
    have hn' : n' = k := Option.some.inj (hi.symm.trans hik)
    exact hn.trans hn'.symm
  · intro heq
    subst heq
    obtain ⟨c, hc, -⟩ := h.pullback l i n hl hi
    exact ⟨c, hc⟩

/-- The two edges of an interface edge have one label. -/
theorem label_of_pairs (h : d.Decomposes g part) {c i j : EdgeId}
    (hi : d.rule.toLhs.edges[c]? = some [i]) (hj : d.rule.toRhs.edges[c]? = some [j]) :
    ∃ label, d.rule.lhs.edgeLabel? i = some label ∧ d.rule.rhs.edgeLabel? j = some label := by
  have hlt : c < d.rule.interface.edges.length :=
    h.interface_edges_length .lhs ▸ (List.getElem?_eq_some_iff.1 hi).1
  obtain ⟨label, -, -, hsides⟩ := h.interface_edge c _ (List.getElem?_eq_getElem hlt)
  obtain ⟨i', hi', hlhs⟩ := hsides .lhs
  obtain ⟨j', hj', hrhs⟩ := hsides .rhs
  cases hi.symm.trans hi'
  cases hj.symm.trans hj'
  exact ⟨label, hlhs, hrhs⟩

/-- A derived rule is balanced. -/
theorem balanced (h : d.Decomposes g part) (hr : d.rule.WellFormed) : d.rule.Balanced where
  toWellFormed := hr
  shared_eq l i hs := by
    obtain ⟨n, hl, hi⟩ := h.origin_of_shares hs
    have hlhs : d.rule.lhs.node? l = g.node? n := (h.presents .lhs).node?_eq hl
    have hrhs : d.rule.rhs.node? i = g.node? n := (h.presents .rhs).node?_eq hi
    rw [hlhs, hrhs]
  toLhs_edges_length := h.interface_edges_length .lhs
  toRhs_edges_length := h.interface_edges_length .rhs
  pair c hc := by
    obtain ⟨label, -, -, hsides⟩ := h.interface_edge c _ (List.getElem?_eq_getElem hc)
    obtain ⟨i, hi, -⟩ := hsides .lhs
    obtain ⟨j, hj, -⟩ := hsides .rhs
    exact ⟨i, j, hi, hj⟩
  -- Two interface edges with the same right edge have one label, and labels are unique on a side.
  pair_left i i' j := by
    rintro ⟨c, hi, hj⟩ ⟨c', hi', hj'⟩
    obtain ⟨label, hlhs, hrhs⟩ := h.label_of_pairs hi hj
    obtain ⟨label', hlhs', hrhs'⟩ := h.label_of_pairs hi' hj'
    cases hrhs.symm.trans hrhs'
    exact h.label_unique .lhs i i' label hlhs hlhs'
  pair_lt i j := by
    rintro ⟨c, hi, hj⟩
    obtain ⟨label, hlhs, hrhs⟩ := h.label_of_pairs hi hj
    exact ⟨Graph.edgeLabel?_lt hlhs, Graph.edgeLabel?_lt hrhs⟩

/-- The edges of an interface edge have the same ends in the annotated graph exactly when their
ends in the two sides are shared. -/
theorem keepsEnds_iff (h : d.Decomposes g part) (hb : d.rule.Balanced) :
    d.KeepsEnds g ↔ d.rule.PairsAgree := by
  -- Both sides present nodes of the annotated graph, so ends agree there exactly if they are
  -- shared.
  constructor
  · rintro hkeeps i j e f ⟨c, hi, hj⟩ he hf
    obtain ⟨i', j', a, b, e', f', hi', hj', ha, hb, he', hf', htail, hhead⟩ :=
      hkeeps c (hb.toLhs_edges_length ▸ (List.getElem?_eq_some_iff.1 hi).1)
    cases hi.symm.trans hi'
    cases hj.symm.trans hj'
    obtain ⟨a', e₁, ha', he₁, hetail, hehead⟩ := (h.presents .lhs).edge_at he
    obtain ⟨b', f₁, hb', hf₁, hftail, hfhead⟩ := (h.presents .rhs).edge_at hf
    cases ha.symm.trans ha'
    cases hb.symm.trans hb'
    cases he'.symm.trans he₁
    cases hf'.symm.trans hf₁
    exact ⟨(h.shares_iff hetail hftail).2 htail, (h.shares_iff hehead hfhead).2 hhead⟩
  · intro hagree c hc
    obtain ⟨i, j, hi, hj⟩ := hb.pair c hc
    obtain ⟨hilt, hjlt⟩ := hb.pair_lt i j ⟨c, hi, hj⟩
    have he : d.rule.lhs.edge? i = some _ := List.getElem?_eq_getElem hilt
    have hf : d.rule.rhs.edge? j = some _ := List.getElem?_eq_getElem hjlt
    obtain ⟨a, e, ha, hae, hetail, hehead⟩ := (h.presents .lhs).edge_at he
    obtain ⟨b, f, hb, hbf, hftail, hfhead⟩ := (h.presents .rhs).edge_at hf
    obtain ⟨htail, hhead⟩ := hagree i j _ _ ⟨c, hi, hj⟩ he hf
    exact ⟨i, j, a, b, e, f, hi, hj, ha, hb, hae, hbf, (h.shares_iff hetail hftail).1 htail,
      (h.shares_iff hehead hfhead).1 hhead⟩

end DerivedRule.Decomposes

/-- A derived rule is balanced, and its pairs keep their ends in the annotated graph exactly when
they agree in the rule. -/
theorem Graph.toRule_balanced {g : Graph} {d : DerivedRule} (h : g.toRule = .ok d) :
    d.rule.Balanced ∧ (d.KeepsEnds g ↔ d.rule.PairsAgree) := by
  have hr := toRule_wellFormed h
  obtain ⟨a, ha, hsound, rfl⟩ := toRule_eq_ok h
  obtain ⟨rfl, hparts⟩ := annotated_eq_ok_iff.1 ha
  have hdec := hsound.decomposes hparts
  have hb := hdec.balanced hr
  exact ⟨hb, hdec.keepsEnds_iff hb⟩

end DoublePushout
