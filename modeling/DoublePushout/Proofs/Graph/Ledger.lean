import DoublePushout.Proofs.Graph.Growth

/-!
# `DoublePushout.Proofs.Graph.Ledger`: the ledger of a graph under construction

A graph is put together by additions. Each returns a handle, or nothing, or faults. `Growing` is a
graph with the ledger of what has been added to it and of the answers, and `growing` makes
additions to a given graph one after the other.

* `add_cases`: what one addition does, with the condition for it.
* `Growing.Recorded`: the ledger accounts for the graph. The numbered nodes and edges of the graph
  are those from the beginning and then those of the ledger, each with the handle returned for it.
  `Recorded.after` is the step, and `recorded_growing` the run.
* `growing_reliable`: after any additions to a valid graph it is valid, every handle goes on
  naming what it named, and an addition faults exactly if it has a handle that nobody was given.
-/

set_option autoImplicit false

namespace DoublePushout

namespace Graph

/-! ### One addition -/

/-- What an addition returns. -/
inductive Answer where
  /-- The handle of a node. -/
  | node (n : NodeId)
  /-- The handle of an edge. -/
  | edge (e : EdgeId)
  /-- Nothing: a subgraph has no handle. -/
  | done
  /-- The addition has faulted. -/
  | fault (fault : Fault)
  deriving DecidableEq, Repr

/-- What the graph answers to an addition. -/
def answer (g : Graph) : Addition → Answer
  | .node n => .node (g.addNode n).1
  | .edge e =>
    match g.addEdge e with
    | .ok (j, _) => .edge j
    | .error x => .fault x
  | .subgraph s =>
    match g.addSubgraph s with
    | .ok _ => .done
    | .error x => .fault x

variable {g : Graph}

/-- The four things that an addition can do: put a node at the end, put an edge between two nodes
of the graph at the end, add a subgraph of the graph, or fault and leave the graph as it was. -/
theorem add_cases (g : Graph) (a : Addition) :
    (∃ n, a = .node n ∧ g.answer a = .node g.nodes.length ∧
      g.add a = { g with nodes := g.nodes ++ [n] }) ∨
    (∃ e, a = .edge e ∧ (e.tail < g.nodes.length ∧ e.head < g.nodes.length) ∧
      g.answer a = .edge g.edges.length ∧ g.add a = { g with edges := g.edges ++ [e] }) ∨
    (∃ s, a = .subgraph s ∧ g.Encloses s ∧ g.answer a = .done ∧
      g.add a = { g with subgraphs := g.subgraphs ++ [s] }) ∨
    ∃ x, g.answer a = .fault x ∧ g.add a = g := by
  cases a with
  | node n => exact .inl ⟨n, rfl, rfl, rfl⟩
  | edge e =>
    cases hadd : g.addEdge e with
    -- A refused edge leaves the graph as it was.
    | error x => exact .inr (.inr (.inr ⟨x, by simp [answer, hadd], by simp [add, tryAdd, hadd]⟩))
    | ok r =>
      obtain ⟨hends, hj, hg⟩ := addEdge_eq_ok_iff.1 hadd
      exact .inr (.inl
        ⟨e, rfl, hends, by simp [answer, hadd, hj], by simp [add, tryAdd, hadd, hg]⟩)
  | subgraph s =>
    cases hadd : g.addSubgraph s with
    | error x => exact .inr (.inr (.inr ⟨x, by simp [answer, hadd], by simp [add, tryAdd, hadd]⟩))
    | ok g' =>
      obtain ⟨hmembers, hg⟩ := addSubgraph_eq_ok_iff.1 hadd
      exact .inr (.inr (.inl ⟨s, rfl, hmembers, by simp [answer, hadd],
        by simp [add, tryAdd, hadd, hg]⟩))

/-- A valid graph stays valid when its lists become longer, if its own elements are all that the
new edges and subgraphs refer to. -/
theorem Valid.append (h : g.Valid) (nodes : List Node) (edges : List Edge)
    (subgraphs : List Subgraph)
    (hedges : ∀ e ∈ edges, e.tail < g.nodes.length ∧ e.head < g.nodes.length)
    (hsubgraphs : ∀ s ∈ subgraphs, g.Encloses s) :
    Valid ⟨g.nodes ++ nodes, g.edges ++ edges, g.subgraphs ++ subgraphs⟩ where
  ends_lt e he := by
    have hlt : e.tail < g.nodes.length ∧ e.head < g.nodes.length :=
      (List.mem_append.1 he).elim (h.ends_lt e) (hedges e)
    rw [List.length_append]
    exact ⟨Nat.lt_add_right _ hlt.1, Nat.lt_add_right _ hlt.2⟩
  members_lt s hs n hn := by
    have hlt : n < g.nodes.length :=
      (List.mem_append.1 hs).elim (h.members_lt s · n hn) fun hs =>
        (hsubgraphs s hs).nodes_lt n hn
    rw [List.length_append]
    exact Nat.lt_add_right _ hlt
  memberEdges_lt s hs j hj := by
    have hlt : j < g.edges.length :=
      (List.mem_append.1 hs).elim (h.memberEdges_lt s · j hj) fun hs =>
        (hsubgraphs s hs).edges_lt j hj
    rw [List.length_append]
    exact Nat.lt_add_right _ hlt

/-- A valid graph stays valid when something is added to it. -/
theorem Valid.add (h : g.Valid) (a : Addition) : (g.add a).Valid := by
  rcases g.add_cases a with ⟨n, -, -, hadd⟩ | ⟨e, -, hends, -, hadd⟩ | ⟨s, -, hs, -, hadd⟩ |
    ⟨x, -, hadd⟩ <;> rw [hadd]
  · simpa using h.append [n] [] [] (by simp) (by simp)
  · simpa using h.append [] [e] [] (by simpa using hends) (by simp)
  · simpa using h.append [] [] [s] (by simp) (by simpa using hs)
  · exact h

/-! ### Ledgers -/

/-- Additions with the answers to them, the first addition first. -/
abbrev Ledger := List (Addition × Answer)

namespace Ledger

variable {l l' : Ledger}

/-- The nodes that have been added, each with the handle returned for it. -/
def nodes (l : Ledger) : List (Node × NodeId) :=
  l.filterMap fun
    | (.node n, .node i) => some (n, i)
    | _ => none

/-- The edges that have been added, each with the handle returned for it. -/
def edges (l : Ledger) : List (Edge × EdgeId) :=
  l.filterMap fun
    | (.edge e, .edge j) => some (e, j)
    | _ => none

/-- The subgraphs that have been added. -/
def subgraphs (l : Ledger) : List Subgraph :=
  l.filterMap fun
    | (.subgraph s, .done) => some s
    | _ => none

/-- The handles of nodes that anyone knows: those of the graph at the beginning, and those
returned since then. -/
def knownNodes (g : Graph) (l : Ledger) : List NodeId := g.nodeIds ++ l.nodes.map (·.2)

/-- The handles of edges that anyone knows. -/
def knownEdges (g : Graph) (l : Ledger) : List EdgeId := g.edgeIds ++ l.edges.map (·.2)

/-- The handles returned for edges from one node to another. -/
def edgesBetween (l : Ledger) (tail head : NodeId) : List EdgeId :=
  l.edges.filterMap fun p => if p.1.joins tail head then some p.2 else none

/-- The nodes of one ledger after another are listed one after the other. -/
theorem nodes_append : (l ++ l').nodes = l.nodes ++ l'.nodes := List.filterMap_append

/-- So are the edges. -/
theorem edges_append : (l ++ l').edges = l.edges ++ l'.edges := List.filterMap_append

/-- So are the subgraphs. -/
theorem subgraphs_append : (l ++ l').subgraphs = l.subgraphs ++ l'.subgraphs :=
  List.filterMap_append

/-- An addition that faults adds nothing. -/
theorem of_fault (a : Addition) (x : Fault) :
    nodes [(a, .fault x)] = [] ∧ edges [(a, .fault x)] = [] ∧ subgraphs [(a, .fault x)] = [] := by
  cases a with
  | node n => exact ⟨rfl, rfl, rfl⟩
  | edge e => exact ⟨rfl, rfl, rfl⟩
  | subgraph s => exact ⟨rfl, rfl, rfl⟩

end Ledger

end Graph

/-- A graph under construction. -/
structure Growing where
  /-- The graph so far. -/
  graph : Graph
  /-- What has been added to it. -/
  ledger : Graph.Ledger := []
  deriving Repr

/-- The next addition is made. -/
def Growing.after (w : Growing) (a : Addition) : Growing :=
  ⟨w.graph.add a, w.ledger ++ [(a, w.graph.answer a)]⟩

/-- The additions are made to the graph one after the other. -/
def growing (g : Graph) (additions : List Addition) : Growing :=
  additions.foldl Growing.after ⟨g, []⟩

/-- Later additions go on from where the earlier ones have led. -/
theorem growing_append (g : Graph) (additions later : List Addition) :
    growing g (additions ++ later) = later.foldl Growing.after (growing g additions) :=
  List.foldl_append

namespace Growing

open DoublePushout.Graph (Ledger)

variable {g : Graph} {w : Growing}

/-- The graph of a ledger has grown by exactly the additions that were tried. -/
theorem graph_foldl_after (w : Growing) (later : List Addition) :
    (later.foldl after w).graph = w.graph.addAll later := by
  induction later generalizing w with
  | nil => rfl
  | cons a later ih => exact ih (w.after a)

/-! ### What the ledger accounts for -/

/-- The ledger accounts for what the graph has beyond the one at the beginning. -/
structure Recorded (g : Graph) (w : Growing) : Prop where
  /-- The nodes, each with its handle. -/
  nodes_eq : w.graph.nodes.zipIdx = g.nodes.zipIdx ++ w.ledger.nodes
  /-- The edges, each with its handle. -/
  edges_eq : w.graph.edges.zipIdx = g.edges.zipIdx ++ w.ledger.edges
  /-- The subgraphs. -/
  subgraphs_eq : w.graph.subgraphs = g.subgraphs ++ w.ledger.subgraphs

/-- What is put into the graph is put into the ledger. -/
theorem Recorded.entry (h : w.Recorded g) {g' : Graph} {entry : Addition × Graph.Answer}
    (hnodes : g'.nodes.zipIdx = w.graph.nodes.zipIdx ++ Ledger.nodes [entry])
    (hedges : g'.edges.zipIdx = w.graph.edges.zipIdx ++ Ledger.edges [entry])
    (hsubgraphs : g'.subgraphs = w.graph.subgraphs ++ Ledger.subgraphs [entry]) :
    Recorded g ⟨g', w.ledger ++ [entry]⟩ where
  nodes_eq := by rw [hnodes, h.nodes_eq, Ledger.nodes_append, List.append_assoc]
  edges_eq := by rw [hedges, h.edges_eq, Ledger.edges_append, List.append_assoc]
  subgraphs_eq := by rw [hsubgraphs, h.subgraphs_eq, Ledger.subgraphs_append, List.append_assoc]

/-- The last element of a list has the greatest number. -/
theorem zipIdx_concat {α : Type} (xs : List α) (x : α) :
    (xs ++ [x]).zipIdx = xs.zipIdx ++ [(x, xs.length)] := by
  rw [List.zipIdx_append, List.zipIdx_singleton, Nat.zero_add]

/-- One addition: the handle returned is the one under which the element can be found. -/
theorem Recorded.after (h : w.Recorded g) (a : Addition) : (w.after a).Recorded g := by
  rw [Growing.after]
  rcases w.graph.add_cases a with ⟨n, rfl, hanswer, hadd⟩ | ⟨e, rfl, -, hanswer, hadd⟩ |
    ⟨s, rfl, -, hanswer, hadd⟩ | ⟨x, hanswer, hadd⟩ <;> rw [hanswer, hadd]
  · exact h.entry (zipIdx_concat _ _) (List.append_nil _).symm (List.append_nil _).symm
  · exact h.entry (List.append_nil _).symm (zipIdx_concat _ _) (List.append_nil _).symm
  · exact h.entry (List.append_nil _).symm (List.append_nil _).symm rfl
  · obtain ⟨hnodes, hedges, hsubgraphs⟩ := Ledger.of_fault a x
    exact h.entry (by rw [hnodes, List.append_nil]) (by rw [hedges, List.append_nil])
      (by rw [hsubgraphs, List.append_nil])

/-- A whole construction: its ledger accounts for the graph, which is valid if it was at the
beginning. -/
theorem recorded_growing (g : Graph) (additions : List Addition) :
    (growing g additions).Recorded g ∧ (g.Valid → (growing g additions).graph.Valid) := by
  suffices h : ∀ w : Growing, w.Recorded g → (additions.foldl after w).Recorded g ∧
      (w.graph.Valid → (additions.foldl after w).graph.Valid) from
    h ⟨g, []⟩ ⟨(List.append_nil _).symm, (List.append_nil _).symm, (List.append_nil _).symm⟩
  induction additions with
  | nil => exact fun _ h => ⟨h, id⟩
  | cons a additions ih =>
    intro w h
    obtain ⟨hrecorded, hvalid⟩ := ih (w.after a) (h.after a)
    exact ⟨hrecorded, fun hw => hvalid (hw.add a)⟩

/-! ### What follows for handles -/

/-- A node is found under the handle that the ledger has for it. -/
theorem Recorded.node? (h : w.Recorded g) {n : Node} {i : NodeId}
    (hmem : (n, i) ∈ w.ledger.nodes) : w.graph.node? i = some n := by
  have hin : (n, i) ∈ w.graph.nodes.zipIdx := h.nodes_eq ▸ List.mem_append_right _ hmem
  exact List.mem_zipIdx_iff_getElem?.1 hin

/-- An edge is found under the handle that the ledger has for it. -/
theorem Recorded.edge? (h : w.Recorded g) {e : Edge} {j : EdgeId}
    (hmem : (e, j) ∈ w.ledger.edges) : w.graph.edge? j = some e := by
  have hin : (e, j) ∈ w.graph.edges.zipIdx := h.edges_eq ▸ List.mem_append_right _ hmem
  exact List.mem_zipIdx_iff_getElem?.1 hin

/-- The positions of a longer list are those of the list and those of what has been added. -/
theorem range_length_of_zipIdx_eq {α : Type} {xs ys : List α} {added : List (α × Nat)}
    (h : ys.zipIdx = xs.zipIdx ++ added) :
    List.range ys.length = List.range xs.length ++ added.map (·.2) := by
  have hpositions := congrArg (List.map Prod.snd) h
  rwa [List.map_append, List.zipIdx_map_snd, List.zipIdx_map_snd, ← List.range_eq_range',
    ← List.range_eq_range'] at hpositions

/-- The handles that anyone knows are those of the graph. -/
theorem Recorded.known_eq (h : w.Recorded g) :
    w.ledger.knownNodes g = w.graph.nodeIds ∧ w.ledger.knownEdges g = w.graph.edgeIds :=
  ⟨(range_length_of_zipIdx_eq h.nodes_eq).symm, (range_length_of_zipIdx_eq h.edges_eq).symm⟩

/-- New edges between two nodes come after those that were there. -/
theorem Recorded.edgesBetween_eq (h : w.Recorded g) (tail head : NodeId) :
    w.graph.edgesBetween tail head =
      g.edgesBetween tail head ++ w.ledger.edgesBetween tail head := by
  rw [Graph.edgesBetween, h.edges_eq, List.filterMap_append]
  rfl

/-- What can be relied on after a construction that began with a given graph. -/
structure Reliable (g : Graph) (w : Growing) : Prop where
  /-- The graph is valid. -/
  valid : w.graph.validate = .ok ()
  /-- The handle returned for a node names it. -/
  node?_eq : ∀ n i, (n, i) ∈ w.ledger.nodes → w.graph.node? i = some n
  /-- The handle returned for an edge names it. -/
  edge?_eq : ∀ e j, (e, j) ∈ w.ledger.edges → w.graph.edge? j = some e
  /-- Subgraphs are added after those from the beginning. -/
  subgraphs_eq : w.graph.subgraphs = g.subgraphs ++ w.ledger.subgraphs
  /-- The edges between two nodes are those from the beginning and then those returned. -/
  edgesBetween_eq : ∀ tail head, w.graph.edgesBetween tail head =
    g.edgesBetween tail head ++ w.ledger.edgesBetween tail head
  /-- They are in ascending order. -/
  edgesBetween_pairwise : ∀ tail head, (w.graph.edgesBetween tail head).Pairwise (· < ·)
  /-- A further edge faults if the handle of an end is not known, and names the first such end. -/
  addEdge_faults : ∀ e x, w.graph.addEdge e = .error x ↔
    (e.tail ∉ w.ledger.knownNodes g ∧ x = .missingEndpoint e.tail) ∨
      (e.tail ∈ w.ledger.knownNodes g ∧ e.head ∉ w.ledger.knownNodes g ∧
        x = .missingEndpoint e.head)
  /-- A further subgraph faults if the handle of a member is not known. -/
  addSubgraph_faults : ∀ s x, w.graph.addSubgraph s = .error x ↔
    ((∃ n ∈ s.nodes, n ∉ w.ledger.knownNodes g) ∨ ∃ j ∈ s.edges, j ∉ w.ledger.knownEdges g) ∧
      x = .strayMember s.name

/-- What is recorded of a valid graph can be relied upon. -/
theorem Recorded.reliable (h : w.Recorded g) (hw : w.graph.Valid) : w.Reliable g where
  valid := Graph.validate_eq_ok_iff.2 hw
  node?_eq _ _ := h.node?
  edge?_eq _ _ := h.edge?
  subgraphs_eq := h.subgraphs_eq
  edgesBetween_eq := h.edgesBetween_eq
  edgesBetween_pairwise _ _ := Graph.edgesBetween_pairwise
  addEdge_faults e x := by
    simp only [h.known_eq.1, Graph.mem_nodeIds, Graph.addEdge_eq_error_iff]
  addSubgraph_faults s x := by
    simp only [h.known_eq.1, h.known_eq.2, Graph.mem_nodeIds, Graph.mem_edgeIds,
      Graph.addSubgraph_eq_error_iff, Graph.not_encloses_iff]

end Growing

/-- After any additions to a valid graph, of which some may fault, the graph is valid, the handles
returned name what they were returned for, the edges between two nodes are those that were put
there, and a further addition faults exactly if it has a handle that was not there at the
beginning and has not been returned since. Whatever is added later, a handle goes on naming what
it names. -/
theorem growing_reliable {g : Graph} (additions : List Addition) (hg : g.validate = .ok ()) :
    (growing g additions).Reliable g ∧
      ∀ later,
        (∀ i n, (growing g additions).graph.node? i = some n →
          (growing g (additions ++ later)).graph.node? i = some n) ∧
        ∀ j e, (growing g additions).graph.edge? j = some e →
          (growing g (additions ++ later)).graph.edge? j = some e := by
  obtain ⟨h, hvalid⟩ := Growing.recorded_growing g additions
  refine ⟨h.reliable (hvalid (Graph.validate_eq_ok_iff.1 hg)), fun later => ?_⟩
  have hextends : (growing g additions).graph.Extends (growing g (additions ++ later)).graph := by
    rw [growing_append, Growing.graph_foldl_after]
    exact Graph.extends_addAll _ later
  exact ⟨fun _ _ => hextends.node?_eq, fun _ _ => hextends.edge?_eq⟩

/-- A node with a loop, and a subgraph of both. -/
def ring : Graph where
  nodes := [{ name := "a" }]
  edges := [{ tail := 0, head := 0 }]
  subgraphs := [{ name := "S", nodes := .ofList [0], edges := .ofList [0] }]

/-- Another node, edges to it and to a node that is never added, another loop, and two subgraphs
with the name of the first, of which one has a node that is never added. -/
def ringAdditions : List Addition :=
  [.node { name := "b", label := some "" }, .edge { tail := 0, head := 1 },
    .edge { tail := 18446744073709551615, head := 7 }, .edge { tail := 0, head := 0 },
    .subgraph { name := "S", nodes := .ofList [1, 7] },
    .subgraph { name := "S", nodes := .ofList [1], edges := .ofList [2] }]

/-- A ring to which nodes, parallel edges and subgraphs are added, some of them in vain. -/
theorem growing_reliable_ring :
    ring.validate = .ok () ∧ (growing ring ringAdditions).Reliable ring ∧
      ∀ later,
        (∀ i n, (growing ring ringAdditions).graph.node? i = some n →
          (growing ring (ringAdditions ++ later)).graph.node? i = some n) ∧
        ∀ j e, (growing ring ringAdditions).graph.edge? j = some e →
          (growing ring (ringAdditions ++ later)).graph.edge? j = some e :=
  have hring : ring.validate = .ok () := by decide
  ⟨hring, growing_reliable ringAdditions hring⟩

example : (growing ring ringAdditions).ledger.map (·.2) =
    [.node 1, .edge 1, .fault (.missingEndpoint 18446744073709551615), .edge 2,
      .fault (.strayMember "S"), .done] := by decide

example : (growing ring ringAdditions).graph.edgesBetween 0 0 = [0, 2] := by decide

end DoublePushout
