import DoublePushout.Proofs.Graph.Placement
import DoublePushout.Proofs.Graph.Validity
import Mathlib.Data.Multiset.Basic

/-!
# `DoublePushout.Proofs.Graph.Bundles`: isomorphism of graphs is decided

`Graph.isIsomorphic` compares the bundled views of two graphs, in which parallel edges are one
arc. A graph is a multigraph, and its isomorphisms keep how often each label occurs between two
nodes.

* `bundle_eq_iff`: two bundles are the same list exactly when the labels are the same with their
  numbers, because a bundle is sorted and `labelLe` leaves no choice of order.
* `bundled_eq_ok` and `bundles_simple`: the bundled view of a valid graph whose handles fit into
  32 bits is a digraph without parallel arcs. `link_bundles_eq_iff` reads its links as bundles.
* `isoAlong_bundles_iff`: so the isomorphisms of the bundled views are those of the graphs.

With `Digraph.isomorphic_decides` this gives `Graph.isIsomorphic_decides`.
-/

set_option autoImplicit false

namespace DoublePushout

/-! ### The order of labels -/

/-- The order of labels is transitive. -/
theorem labelLe_trans (a b c : Option String) (hab : labelLe a b = true)
    (hbc : labelLe b c = true) : labelLe a c = true := by
  cases a with
  | none => rfl
  | some a =>
    cases b with
    | none => cases hab
    | some b =>
      cases c with
      | none => cases hbc
      | some c =>
        exact decide_eq_true (String.le_trans (of_decide_eq_true hab) (of_decide_eq_true hbc))

/-- Any two labels can be ordered. -/
theorem labelLe_total (a b : Option String) : (labelLe a b || labelLe b a) = true := by
  cases a with
  | none => rfl
  | some a =>
    cases b with
    | none => rfl
    | some b =>
      rw [Bool.or_eq_true]
      exact (String.le_total a b).imp decide_eq_true decide_eq_true

/-- Labels before each other are the same. -/
theorem labelLe_antisymm {a b : Option String} (hab : labelLe a b = true)
    (hba : labelLe b a = true) : a = b := by
  cases a with
  | none =>
    cases b with
    | none => rfl
    | some b => cases hba
  | some a =>
    cases b with
    | none => cases hab
    | some b =>
      rw [String.le_antisymm (of_decide_eq_true hab) (of_decide_eq_true hba)]

/-- Sorted lists of labels are the same exactly when the labels are, up to their order. -/
theorem mergeSort_labelLe_eq_iff {xs ys : List (Option String)} :
    xs.mergeSort labelLe = ys.mergeSort labelLe ↔ xs.Perm ys := by
  constructor
  · intro h
    calc xs.Perm (xs.mergeSort labelLe) := (List.mergeSort_perm xs labelLe).symm
      _ = ys.mergeSort labelLe := h
      List.Perm _ ys := List.mergeSort_perm ys labelLe
  · intro h
    have hperm := (List.mergeSort_perm xs labelLe).trans
      (h.trans (List.mergeSort_perm ys labelLe).symm)
    exact hperm.eq_of_pairwise (fun _ _ _ _ => labelLe_antisymm)
      (List.pairwise_mergeSort labelLe_trans labelLe_total xs)
      (List.pairwise_mergeSort labelLe_trans labelLe_total ys)

namespace Graph

variable {a b g : Graph} {f : NodeId → NodeId} {t h : NodeId}

/-! ### Multigraphs -/

/-- The labels of the edges from one node to another that count, each as often as it occurs. -/
def labelsBetween (g : Graph) (tail head : NodeId) : Multiset (Option String) :=
  ((g.edges.filter (·.joins tail head)).map Edge.effective : List (Option String))

/-- A bijection of nodes that keeps the labels of nodes, and for every ordered pair of nodes the
labels of the edges between them. -/
structure IsoAlong (a b : Graph) (f : NodeId → NodeId) : Prop where
  /-- Nodes correspond. -/
  bijOn : Set.BijOn f (Set.Iio a.nodes.length) (Set.Iio b.nodes.length)
  /-- Corresponding nodes have the same label. -/
  label_eq : ∀ n < a.nodes.length,
    (a.node? n).map Node.effective = (b.node? (f n)).map Node.effective
  /-- Corresponding pairs of nodes have the same labels between them. -/
  labels_eq : ∀ t < a.nodes.length, ∀ h < a.nodes.length,
    a.labelsBetween t h = b.labelsBetween (f t) (f h)

/-! ### Bundles -/

/-- Bundles are the same exactly if the same labels are in them equally often. -/
theorem bundle_eq_iff {t' h' : NodeId} :
    a.bundle t h = b.bundle t' h' ↔ a.labelsBetween t h = b.labelsBetween t' h' := by
  rw [bundle, bundle, mergeSort_labelLe_eq_iff, labelsBetween, labelsBetween, Multiset.coe_eq_coe]

/-- A pair of handles is joined exactly if some edge joins it. -/
theorem mem_joinedPairs : (t, h) ∈ g.joinedPairs ↔ ∃ e ∈ g.edges, e.joins t h = true := by
  rw [joinedPairs, (List.mergeSort_perm _ _).mem_iff, List.mem_eraseDups, List.mem_map]
  simp only [Edge.joins_iff, Prod.mk.injEq]

/-- Each pair is listed once. -/
theorem nodup_joinedPairs (g : Graph) : g.joinedPairs.Nodup :=
  (List.mergeSort_perm _ _).nodup_iff.2 (nodup_eraseDups _)

/-- A bundle is empty where no edge runs. -/
theorem bundle_eq_nil_iff : g.bundle t h = [] ↔ (t, h) ∉ g.joinedPairs := by
  rw [bundle, ← List.length_eq_zero_iff, List.length_mergeSort, List.length_map,
    List.length_eq_zero_iff, List.filter_eq_nil_iff, mem_joinedPairs]
  simp only [not_exists, not_and]

/-- The bundled view, with its arcs at the handles themselves. -/
def bundles (g : Graph) : Digraph (List (Option String)) where
  nodes := g.nodeLabels
  arcs := g.joinedPairs.map fun p => ⟨p.1, p.2, g.bundle p.1 p.2⟩

/-- The bundled view has a position for each node. -/
theorem length_nodes_bundles (g : Graph) : g.bundles.nodes.length = g.nodes.length :=
  List.length_map _

/-- The bundled view has an arc for each joined pair, with the bundle between the two. -/
theorem mem_arcs_bundles {w : List (Option String)} :
    (⟨t, h, w⟩ : Arc (List (Option String))) ∈ g.bundles.arcs ↔
      (t, h) ∈ g.joinedPairs ∧ g.bundle t h = w := by
  rw [bundles, List.mem_map]
  constructor
  · intro hmem
    obtain ⟨p, hp, heq⟩ := hmem
    cases heq
    exact ⟨hp, rfl⟩
  · intro hmem
    exact ⟨(t, h), hmem.1, by rw [hmem.2]⟩

/-- In a valid graph both handles of a joined pair are those of nodes. -/
theorem Valid.joinedPairs_lt (hg : g.Valid) :
    ∀ p ∈ g.joinedPairs, p.1 < g.nodes.length ∧ p.2 < g.nodes.length := by
  intro p hp
  obtain ⟨e, he, hjoins⟩ := mem_joinedPairs.1 (show (p.1, p.2) ∈ g.joinedPairs from hp)
  obtain ⟨htail, hhead⟩ := Edge.joins_iff.1 hjoins
  rw [← htail, ← hhead]
  exact hg.ends_lt e he

/-- The bundled view of a valid graph has its arcs between nodes, and no two of
them are parallel. -/
theorem bundles_simple (hg : g.Valid) : g.bundles.Simple := by
  refine ⟨fun c hc => ?_, fun c hc => ?_, ?_⟩
  · rw [length_nodes_bundles]
    exact (hg.joinedPairs_lt _ (mem_arcs_bundles.1 hc).1).1
  · rw [length_nodes_bundles]
    exact (hg.joinedPairs_lt _ (mem_arcs_bundles.1 hc).1).2
  · refine List.pairwise_map.2 ((nodup_joinedPairs g).imp fun hne htail hhead => ?_)
    exact hne (Prod.ext htail hhead)

/-- A valid graph whose handles fit into 32 bits has a bundled view, and its arcs are at the
handles themselves. -/
theorem bundled_eq_ok (hg : g.Valid) (hlt : g.nodes.length < Nat.pow 2 32) :
    g.bundled = .ok g.bundles := by
  -- No handle is cut off, because all nodes are counted in 32 bits.
  have hposition : ∀ n < g.nodes.length, Digraph.position n = n :=
    fun n hn => Nat.mod_eq_of_lt (Nat.lt_trans hn hlt)
  have harcs : (g.joinedPairs.map fun p => Digraph.arcAt p.1 p.2 (g.bundle p.1 p.2)) =
      g.bundles.arcs := by
    refine List.map_congr_left fun p hp => ?_
    obtain ⟨htail, hhead⟩ := hg.joinedPairs_lt p hp
    rw [Digraph.arcAt, hposition _ htail, hposition _ hhead]
  have hends : g.bundles.arcs.all
      fun c => c.tail < g.bundles.nodes.length && c.head < g.bundles.nodes.length := by
    refine List.all_eq_true.2 fun c hc => ?_
    rw [Bool.and_eq_true]
    exact ⟨decide_eq_true ((bundles_simple hg).tail_lt c hc),
      decide_eq_true ((bundles_simple hg).head_lt c hc)⟩
  show Digraph.ofArcs g.nodeLabels
    (g.joinedPairs.map fun p => Digraph.arcAt p.1 p.2 (g.bundle p.1 p.2)) = .ok g.bundles
  rw [harcs, Digraph.ofArcs]
  exact if_pos hends

/-- The links of the bundled views are the same exactly when the labels are. -/
theorem link_bundles_eq_iff (ha : a.Valid) (hb : b.Valid) {t' h' : NodeId} :
    a.bundles.link t h = b.bundles.link t' h' ↔ a.labelsBetween t h = b.labelsBetween t' h' := by
  have hlink : ∀ {c : Graph}, c.Valid → ∀ t h : NodeId,
      c.bundles.link t h = if c.bundle t h = [] then none else some (c.bundle t h) := by
    intro c hc t h
    refine Option.ext fun w => ?_
    rw [(bundles_simple hc).link_eq_some_iff, mem_arcs_bundles]
    split
    · next hnil => simp [bundle_eq_nil_iff.1 hnil]
    · next hne => simp [not_not.1 (mt bundle_eq_nil_iff.2 hne)]
  rw [hlink ha, hlink hb, ← bundle_eq_iff]
  by_cases hnil : a.bundle t h = [] <;> by_cases hnil' : b.bundle t' h' = []
  · simp [hnil, hnil']
  · rw [hnil, if_pos rfl, if_neg hnil']
    exact iff_of_false (by simp) (Ne.symm hnil')
  · simp [hnil, hnil']
  · rw [if_neg hnil, if_neg hnil', Option.some.injEq]

/-- The isomorphisms of the bundled views are those of the graphs. -/
theorem isoAlong_bundles_iff (ha : a.Valid) (hb : b.Valid) :
    a.bundles.IsoAlong b.bundles f ↔ a.IsoAlong b f := by
  have hlabel : ∀ (c : Graph) (n : NodeId),
      c.bundles.nodes[n]? = (c.node? n).map Node.effective :=
    fun c n => List.getElem?_map
  constructor
  · intro h
    obtain ⟨hbij, hlabels, hlinks⟩ := h
    simp only [length_nodes_bundles] at hbij hlabels hlinks
    refine ⟨hbij, fun n hn => ?_, fun t ht h hh =>
      (link_bundles_eq_iff ha hb).1 (hlinks t ht h hh)⟩
    rw [← hlabel, ← hlabel, hlabels n hn]
  · intro h
    refine ⟨?_, fun n hn => ?_, fun t ht h' hh => (link_bundles_eq_iff ha hb).2 ?_⟩
    · rw [length_nodes_bundles, length_nodes_bundles]
      exact h.bijOn
    · rw [length_nodes_bundles] at hn
      rw [hlabel, hlabel, h.label_eq n hn]
    · rw [length_nodes_bundles] at ht hh
      exact h.labels_eq t ht h' hh

/-! ### The answer -/

/-- Compares the bundled views of two graphs by any test. -/
def isomorphicBy (test : Digraph (List (Option String)) → Digraph (List (Option String)) → Bool)
    (a b : Graph) : Except Fault Bool := do
  let a' ← a.bundled
  let b' ← b.bundled
  return test a' b'

/-- A test that decides isomorphism of simple digraphs decides that of graphs. -/
theorem isomorphicBy_decides (ha : a.Valid) (hb : b.Valid) (hna : a.nodes.length < Nat.pow 2 32)
    (hnb : b.nodes.length < Nat.pow 2 32)
    {test : Digraph (List (Option String)) → Digraph (List (Option String)) → Bool}
    (htest : Digraph.Decides test) :
    ∃ answer, a.isomorphicBy test b = .ok answer ∧ (answer = true ↔ ∃ f, a.IsoAlong b f) := by
  refine ⟨test a.bundles b.bundles, ?_, ?_⟩
  · rw [isomorphicBy, bundled_eq_ok ha hna, bundled_eq_ok hb hnb]
    rfl
  · rw [htest _ _ (bundles_simple ha) (bundles_simple hb)]
    exact exists_congr fun f => isoAlong_bundles_iff ha hb

/-- Two valid graphs whose handles fit into 32 bits can be compared, and the answer is whether
they are isomorphic as labelled directed multigraphs. Any other test that decides isomorphism of
digraphs without parallel arcs comes to the same answer on their bundled views. -/
theorem isIsomorphic_decides {a b : Graph} (ha : a.validate = .ok ()) (hb : b.validate = .ok ())
    (hna : a.nodes.length < Nat.pow 2 32) (hnb : b.nodes.length < Nat.pow 2 32) :
    (∃ answer, a.isIsomorphic b = .ok answer ∧ (answer = true ↔ ∃ f, a.IsoAlong b f)) ∧
      ∀ test, Digraph.Decides test → a.isomorphicBy test b = a.isIsomorphic b := by
  have hby : ∀ test, Digraph.Decides test →
      ∃ answer, a.isomorphicBy test b = .ok answer ∧ (answer = true ↔ ∃ f, a.IsoAlong b f) :=
    fun test htest =>
      isomorphicBy_decides (validate_eq_ok_iff.1 ha) (validate_eq_ok_iff.1 hb) hna hnb htest
  obtain ⟨answer, hok, hanswer⟩ := hby _ (Digraph.isomorphic_decides Fingerprint.ofBundle)
  refine ⟨⟨answer, hok, hanswer⟩, fun test htest => ?_⟩
  obtain ⟨answer', hok', hanswer'⟩ := hby test htest
  rw [hok', show a.isIsomorphic b = .ok answer from hok,
    Bool.eq_iff_iff.2 (hanswer'.trans hanswer.symm)]

/-- Two nodes with two edges from the first to the second and one back. -/
def braid : Graph where
  nodes := [{ name := "a", label := some "" }, { name := "b", label := some "n" }]
  edges := [{ tail := 0, head := 1, label := some "x" }, { tail := 1, head := 0 },
    { tail := 0, head := 1, label := some "y" }]

/-- The same with its nodes and edges in another order. -/
def braidTurned : Graph where
  nodes := [{ name := "c", label := some "n" }, { name := "d" }]
  edges := [{ tail := 1, head := 0, label := some "y" },
    { tail := 1, head := 0, label := some "x" }, { tail := 0, head := 1, label := some "" }]

/-- Turning the braid round exchanges its two nodes. -/
theorem braid_isoAlong : braid.IsoAlong braidTurned (1 - ·) where
  bijOn := by
    have hmaps : ∀ n < 2, 1 - n < 2 := by decide
    have hback : ∀ n < 2, 1 - (1 - n) = n := by decide
    refine ⟨hmaps, fun n hn m hm heq => ?_, fun m hm => ⟨1 - m, hmaps m hm, hback m hm⟩⟩
    rw [← hback n hn, ← hback m hm]
    exact congrArg (1 - ·) heq
  label_eq := by decide
  labels_eq := by decide

/-- Two braids with the parallel edges in another order are found to be isomorphic. -/
theorem isIsomorphic_decides_braid :
    braid.validate = .ok () ∧ braidTurned.validate = .ok () ∧
    braid.nodes.length < Nat.pow 2 32 ∧ braidTurned.nodes.length < Nat.pow 2 32 ∧
    ((∃ answer, braid.isIsomorphic braidTurned = .ok answer ∧
        (answer = true ↔ ∃ f, braid.IsoAlong braidTurned f)) ∧
      ∀ test, Digraph.Decides test →
        braid.isomorphicBy test braidTurned = braid.isIsomorphic braidTurned) ∧
    braid.isIsomorphic braidTurned = .ok true ∧
    ∃ test, Digraph.Decides test ∧ braid.isomorphicBy test braidTurned = .ok true := by
  have ha : braid.validate = .ok () := by decide
  have hb : braidTurned.validate = .ok () := by decide
  have hna : braid.nodes.length < Nat.pow 2 32 := by decide
  have hnb : braidTurned.nodes.length < Nat.pow 2 32 := by decide
  have hdecides := isIsomorphic_decides ha hb hna hnb
  have hyes : braid.isIsomorphic braidTurned = .ok true := by
    obtain ⟨answer, hok, hanswer⟩ := hdecides.1
    rw [hok, hanswer.2 ⟨_, braid_isoAlong⟩]
  have hsearch := Digraph.isomorphic_decides Fingerprint.ofBundle
  exact ⟨ha, hb, hna, hnb, hdecides, hyes, _, hsearch, (hdecides.2 _ hsearch).trans hyes⟩

end Graph

end DoublePushout
