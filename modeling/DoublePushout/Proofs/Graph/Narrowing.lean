import DoublePushout.Proofs.Graph.Bundles

/-!
# `DoublePushout.Proofs.Graph.Narrowing`: handles cut to positions

A digraph has 32-bit positions, so a graph's handles are cut to their low 32 bits before anything
compares them with the number of nodes. `Graph.Strays` says that an edge ends outside its graph
once handles are read in a given way, and `Digraph.Draws` that a digraph shows a graph in that
reading. The handles themselves are the reading `id`, the positions are the reading
`Digraph.position`.

* `toDigraph_eq_error_iff` and `bundled_eq_error_iff`: both views fault exactly when an edge
  strays by its positions. `toDigraph_draws`: a view that is built shows the positions.
* `views_cut_handles`: what follows for the two operations. It also says when they do what one
  wants, which is to fault at every edge that ends outside the graph, and to show all ends where
  they are: they do, unless the low bits of every stray end happen to name a node.
* `views_invent_ends`: this does happen. An edge to node 4294967296 is shown as one to node 0.
-/

set_option autoImplicit false

namespace DoublePushout

/-- Some edge ends outside the graph, if its ends are read in the given way. -/
def Graph.Strays (g : Graph) (place : NodeId → Nat) : Prop :=
  ∃ e ∈ g.edges, g.nodes.length ≤ place e.tail ∨ g.nodes.length ≤ place e.head

namespace Digraph

variable {α : Type} {nodes : List (Option String)} {arcs : List (Arc α)}

/-- The digraph shows every node and every edge of the graph, in order and with the labels that
count, the ends of edges being read in the given way. -/
structure Draws (d : Digraph (Option String)) (g : Graph) (place : NodeId → Nat) : Prop where
  /-- A node's label. -/
  node_eq : ∀ i, d.nodes[i]? = (g.node? i).map Node.effective
  /-- An edge's ends and label. -/
  arc_eq : ∀ j, d.arcs[j]? =
    (g.edge? j).map fun e => ⟨place e.tail, place e.head, e.effective⟩

/-- Arcs are refused when one of them ends outside the nodes. -/
theorem ofArcs_eq_error_iff {x : Fault} : ofArcs nodes arcs = .error x ↔
    x = .strayArc ∧ ∃ c ∈ arcs, nodes.length ≤ c.tail ∨ nodes.length ≤ c.head := by
  have hall : (arcs.all fun c => c.tail < nodes.length && c.head < nodes.length) = false ↔
      ∃ c ∈ arcs, nodes.length ≤ c.tail ∨ nodes.length ≤ c.head := by
    simp [imp_iff_not_or]
  rw [ofArcs, ← hall]
  split
  · next h => simp [h]
  · next h => simp [h, eq_comm]

/-- A digraph that is built has the nodes and the arcs it is built from. -/
theorem eq_of_ofArcs_eq_ok {d : Digraph α} (h : ofArcs nodes arcs = .ok d) :
    d = ⟨nodes, arcs⟩ := by
  rw [ofArcs] at h
  split at h
  · cases h
    rfl
  · cases h

end Digraph

namespace Graph

variable {a b g : Graph}

/-! ### The two views -/

/-- The view with one arc for each edge faults exactly if an edge strays by its positions. -/
theorem toDigraph_eq_error_iff {x : Fault} :
    g.toDigraph = .error x ↔ x = .strayArc ∧ g.Strays Digraph.position := by
  simp [toDigraph, Digraph.ofArcs_eq_error_iff, nodeLabels, Digraph.arcAt, Strays]

/-- A view that is built has a node for each node and an arc for each edge, between positions. -/
theorem toDigraph_draws {d : Digraph (Option String)} (h : g.toDigraph = .ok d) :
    d.Draws g Digraph.position := by
  obtain rfl := Digraph.eq_of_ofArcs_eq_ok h
  exact ⟨fun i => List.getElem?_map, fun j => List.getElem?_map⟩

/-- The bundled view faults exactly if an edge strays by its positions. -/
theorem bundled_eq_error_iff {x : Fault} :
    g.bundled = .error x ↔ x = .strayArc ∧ g.Strays Digraph.position := by
  -- The arcs of this view come from the pairs of joined handles, and those from the edges.
  have hpairs : (∃ p ∈ g.joinedPairs, g.nodes.length ≤ Digraph.position p.1 ∨
      g.nodes.length ≤ Digraph.position p.2) ↔ g.Strays Digraph.position := by
    constructor
    · rintro ⟨⟨tail, head⟩, hp, hstray⟩
      obtain ⟨e, he, hjoins⟩ := mem_joinedPairs.1 hp
      obtain ⟨rfl, rfl⟩ := Edge.joins_iff.1 hjoins
      exact ⟨e, he, hstray⟩
    · rintro ⟨e, he, hstray⟩
      exact ⟨(e.tail, e.head), mem_joinedPairs.2 ⟨e, he, Edge.joins_iff.2 ⟨rfl, rfl⟩⟩, hstray⟩
  have harcs : g.bundled = .error x ↔ x = .strayArc ∧ ∃ p ∈ g.joinedPairs,
      g.nodes.length ≤ Digraph.position p.1 ∨ g.nodes.length ≤ Digraph.position p.2 := by
    show Digraph.ofArcs g.nodeLabels
      (g.joinedPairs.map fun p => Digraph.arcAt p.1 p.2 (g.bundle p.1 p.2)) = .error x ↔ _
    simp [Digraph.ofArcs_eq_error_iff, nodeLabels, Digraph.arcAt]
  rw [harcs, hpairs]

/-- A comparison by any test faults when one of the two graphs has an edge that strays by its
positions. -/
theorem isomorphicBy_eq_error_iff
    {test : Digraph (List (Option String)) → Digraph (List (Option String)) → Bool} {x : Fault} :
    a.isomorphicBy test b = .error x ↔
      x = .strayArc ∧ (a.Strays Digraph.position ∨ b.Strays Digraph.position) := by
  rw [isomorphicBy, bind_eq_error, bundled_eq_error_iff]
  constructor
  · rintro (⟨rfl, ha⟩ | ⟨a', -, h⟩)
    · exact ⟨rfl, .inl ha⟩
    · obtain h | ⟨b', -, h⟩ := bind_eq_error.1 h
      · obtain ⟨rfl, hb⟩ := bundled_eq_error_iff.1 h
        exact ⟨rfl, .inr hb⟩
      · cases h
  · rintro ⟨rfl, h⟩
    -- Without a fault of the first graph it is the second one's.
    cases ha : a.bundled with
    | error y => exact .inl ⟨rfl, (bundled_eq_error_iff.1 ha).2⟩
    | ok a' =>
      have hfine : ¬ a.Strays Digraph.position := fun hstrays => by
        have herror := bundled_eq_error_iff.2 ⟨rfl, hstrays⟩
        rw [ha] at herror
        cases herror
      have hb := bundled_eq_error_iff.2 ⟨rfl, h.resolve_left hfine⟩
      exact .inr ⟨a', rfl, bind_eq_error.2 (.inl hb)⟩

/-! ### Views of the handles themselves -/

/-- The view of the graph faults exactly when an edge ends outside the graph, and otherwise it
shows every end where it is. -/
structure Mirrored (g : Graph) : Prop where
  fault_iff : (∃ x, g.toDigraph = .error x) ↔ g.Strays id
  draws : ∀ d, g.toDigraph = .ok d → d.Draws g id

/-- Comparing the graphs faults exactly when an edge of one of them ends outside that one. -/
def ComparedSafely (a b : Graph) : Prop :=
  (∃ x, a.isIsomorphic b = .error x) ↔ a.Strays id ∨ b.Strays id

/-- An edge that strays by its positions strays by its handles: cutting a handle never raises
it. -/
theorem strays_of_position (h : g.Strays Digraph.position) : g.Strays id := by
  obtain ⟨e, he, hstray⟩ := h
  exact ⟨e, he, hstray.imp (·.trans (Nat.mod_le _ _)) (·.trans (Nat.mod_le _ _))⟩

/-- Nothing is cut off the ends of edges that end inside a graph whose handles fit
into 32 bits. -/
theorem position_of_not_strays (hlt : g.nodes.length < Nat.pow 2 32) (h : ¬ g.Strays id)
    {e : Edge} (he : e ∈ g.edges) :
    Digraph.position e.tail = e.tail ∧ Digraph.position e.head = e.head := by
  have hin : ∀ n, ¬ g.nodes.length ≤ n → Digraph.position n = n :=
    fun n hn => Nat.mod_eq_of_lt (Nat.lt_trans (Nat.lt_of_not_le hn) hlt)
  exact ⟨hin _ fun ht => h ⟨e, he, .inl ht⟩, hin _ fun hh => h ⟨e, he, .inr hh⟩⟩

/-- A view is that of the handles exactly if no edge is drawn inside by the cut alone. -/
theorem mirrored_iff (hlt : g.nodes.length < Nat.pow 2 32) :
    g.Mirrored ↔ (g.Strays id → g.Strays Digraph.position) := by
  have hfault : (∃ x, g.toDigraph = .error x) ↔ g.Strays Digraph.position := by
    simp [toDigraph_eq_error_iff]
  constructor
  · exact fun h hstrays => hfault.1 (h.fault_iff.2 hstrays)
  · -- If a stray end stays a stray end after the cut, the view faults for it. Otherwise there was
    -- no stray end at all, and every end is its own position.
    intro h
    refine ⟨hfault.trans ⟨strays_of_position, h⟩, fun d hd => ?_⟩
    have hdraws := toDigraph_draws hd
    have hinside : ¬ g.Strays id := fun hstrays => by
      obtain ⟨x, hx⟩ := hfault.2 (h hstrays)
      rw [hd] at hx
      cases hx
    refine ⟨hdraws.node_eq, fun j => ?_⟩
    rw [hdraws.arc_eq]
    refine Option.map_congr fun e he => ?_
    obtain ⟨htail, hhead⟩ := position_of_not_strays hlt hinside (List.mem_of_getElem? he)
    rw [htail, hhead]
    rfl

/-- A comparison goes by the handles exactly if the cut hides no stray edge of both graphs. -/
theorem comparedSafely_iff : a.ComparedSafely b ↔ (a.Strays id ∨ b.Strays id →
    a.Strays Digraph.position ∨ b.Strays Digraph.position) := by
  have hfault : (∃ x, a.isIsomorphic b = .error x) ↔
      a.Strays Digraph.position ∨ b.Strays Digraph.position := by
    show (∃ x, a.isomorphicBy (Digraph.isomorphic Fingerprint.ofBundle) b = .error x) ↔ _
    simp [isomorphicBy_eq_error_iff]
  rw [ComparedSafely, hfault]
  exact ⟨fun h => h.2, fun h => ⟨.imp strays_of_position strays_of_position, h⟩⟩

/-- The view of a graph, and the comparison of two by any test, fault exactly when an edge ends at
a handle whose low 32 bits are not below the number of nodes, and a view that is built shows those
bits. For graphs whose own handles fit into 32 bits this is right, ends being shown where they are
and every end outside the graph being a fault, exactly when the graphs with an end outside have
one whose low bits are outside as well. -/
theorem views_cut_handles (ha : a.nodes.length < Nat.pow 2 32) :
    ((∀ x, a.toDigraph = .error x ↔ x = .strayArc ∧ a.Strays Digraph.position) ∧
      ∀ d, a.toDigraph = .ok d → d.Draws a Digraph.position) ∧
    (∀ test x, a.isomorphicBy test b = .error x ↔
      x = .strayArc ∧ (a.Strays Digraph.position ∨ b.Strays Digraph.position)) ∧
    (a.Mirrored ↔ (a.Strays id → a.Strays Digraph.position)) ∧
    (a.ComparedSafely b ↔ (a.Strays id ∨ b.Strays id →
      a.Strays Digraph.position ∨ b.Strays Digraph.position)) :=
  ⟨⟨fun _ => toDigraph_eq_error_iff, fun _ => toDigraph_draws⟩,
    fun _ _ => isomorphicBy_eq_error_iff, mirrored_iff ha, comparedSafely_iff⟩

/-- One node, and an edge from it to a handle whose low 32 bits are zero. -/
def wrapped : Graph where
  nodes := [{ name := "v0" }]
  edges := [{ tail := 0, head := 4294967296 }]

/-- One node with a loop, and an edge to a handle whose low 32 bits are beyond the node. -/
def beyond : Graph where
  nodes := [{ name := "v0" }]
  edges := [{ tail := 0, head := 0 }, { tail := 4294967297, head := 0 }]

/-- An edge that ends far outside its graph is drawn as a loop, and another graph's stray edge is
still a fault. -/
theorem views_cut_handles_wrapped :
    wrapped.nodes.length < Nat.pow 2 32 ∧
    wrapped.toDigraph = .ok ⟨[none], [⟨0, 0, none⟩]⟩ ∧
    ((⟨[none], [⟨0, 0, none⟩]⟩ : Digraph (Option String)).Draws wrapped Digraph.position) ∧
    wrapped.isIsomorphic beyond = .error .strayArc ∧ wrapped.ComparedSafely beyond := by
  have hlt : wrapped.nodes.length < Nat.pow 2 32 := by decide
  obtain ⟨⟨-, hdraws⟩, hcompare, -, hsafe⟩ := views_cut_handles (b := beyond) hlt
  have hview : wrapped.toDigraph = .ok ⟨[none], [⟨0, 0, none⟩]⟩ := by decide
  have hbeyond : beyond.Strays Digraph.position :=
    ⟨{ tail := 4294967297, head := 0 }, by decide, .inl (by decide)⟩
  exact ⟨hlt, hview, hdraws _ hview, (hcompare _ _).2 ⟨rfl, .inr hbeyond⟩,
    hsafe.2 fun _ => .inr hbeyond⟩

/-- Views need not be those of the handles: ends outside a graph are shown inside it, and compared
as if they were there. -/
theorem views_invent_ends :
    ¬ (∀ a : Graph, a.nodes.length < Nat.pow 2 32 → a.edges.length < Nat.pow 2 32 →
      (∀ e ∈ a.edges, e.tail < Nat.pow 2 64 ∧ e.head < Nat.pow 2 64) → a.Mirrored) ∧
    ¬ (∀ a b : Graph, a.nodes.length < Nat.pow 2 32 → a.edges.length < Nat.pow 2 32 →
      b.nodes.length < Nat.pow 2 32 → b.edges.length < Nat.pow 2 32 →
      (∀ e ∈ a.edges ++ b.edges, e.tail < Nat.pow 2 64 ∧ e.head < Nat.pow 2 64) →
      a.ComparedSafely b) := by
  -- The handle 2^32 is outside the graph, but its lowest 32 bits are those of the only node.
  have hstrays : wrapped.Strays id :=
    ⟨{ tail := 0, head := 4294967296 }, by decide, .inr (by decide)⟩
  have hinside : ¬ wrapped.Strays Digraph.position := by
    intro h
    have hview := (toDigraph_eq_error_iff (x := .strayArc)).2 ⟨rfl, h⟩
    rw [show wrapped.toDigraph = .ok ⟨[none], [⟨0, 0, none⟩]⟩ by decide] at hview
    cases hview
  constructor
  · intro h
    have hmirrored := h wrapped (by decide) (by decide) (by decide)
    exact hinside ((mirrored_iff (by decide)).1 hmirrored hstrays)
  · intro h
    have hsafe := h wrapped wrapped (by decide) (by decide) (by decide) (by decide) (by decide)
    exact hinside (or_self_iff.1 (comparedSafely_iff.1 hsafe (.inl hstrays)))

end Graph

end DoublePushout
