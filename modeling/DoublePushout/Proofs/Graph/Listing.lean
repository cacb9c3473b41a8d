import DoublePushout.Graph
import DoublePushout.Proofs.Positions

/-!
# `DoublePushout.Proofs.Graph.Listing`: graphs as listings

A handle is a position, so two graphs with the same elements in another order are different
values. A `Plan` says what the elements are without an order: it names nodes and edges by keys of
any type, gives each key its attributes, and an edge its ends as keys. `Graph.Lists` says that a
graph has the elements of a plan, in the order of a list of node keys and a list of edge keys.

* `Isomorphic` is sameness up to the order: bijections of the node and of the edge handles that
  keep names, stored labels and ends.
* `isomorphic_of_perm`: two graphs that list the same keys of one plan, in whatever orders, are
  isomorphic.
* `Lists.rekey`: a listing stays one when its keys are renamed. This is how listings over
  different key types are compared.
* `Alike` is sameness as directed multigraphs with labelled nodes and edges: names do not count,
  and of labels only what comparisons see.
-/

set_option autoImplicit false

namespace DoublePushout

/-! ### Plans and listings -/

/-- An edge between keys. -/
structure Link (α : Type) where
  tail : α
  head : α
  label : Option String

/-- An edge between renamed keys. -/
def Link.map {α γ : Type} (f : α → γ) (l : Link α) : Link γ := ⟨f l.tail, f l.head, l.label⟩

/-- An edge between keys as one between the positions at which the keys are listed. -/
def Link.place {α : Type} [DecidableEq α] (ns : List α) (l : Link α) : Edge :=
  ⟨ns.idxOf l.tail, ns.idxOf l.head, l.label⟩

/-- The attributes of nodes and edges by their keys. -/
structure Plan (α β : Type) where
  /-- The node under a key. -/
  node : α → Option Node
  /-- The edge under a key. -/
  link : β → Option (Link α)

namespace Graph

section Listing
variable {α β γ δ : Type} {g : Graph} {p : Plan α β} {ns : List α} {es : List β}

/-- The graph has the elements of the plan that are under the given keys, in the given order. -/
structure Lists (g : Graph) (p : Plan α β) (ns : List α) (es : List β) : Prop where
  /-- Each node is the one under its key. -/
  nodes : List.Forall₂ (fun a n => p.node a = some n) ns g.nodes
  /-- Each edge is the one under its key, its ends being the positions of their keys. -/
  edges : List.Forall₂ (fun b e => ∃ tail head, p.link b = some ⟨tail, head, e.label⟩ ∧
    ns[e.tail]? = some tail ∧ ns[e.head]? = some head) es g.edges

/-- A listing has a key for each node. -/
theorem Lists.length_nodes (h : g.Lists p ns es) : ns.length = g.nodes.length :=
  h.nodes.length_eq

/-- A listing has a key for each edge. -/
theorem Lists.length_edges (h : g.Lists p ns es) : es.length = g.edges.length :=
  h.edges.length_eq

/-- A key stands at the position of the node that it plans. -/
theorem Lists.node_at (h : g.Lists p ns es) {i : Nat} {a : α} (hi : ns[i]? = some a) :
    ∃ n, g.node? i = some n ∧ p.node a = some n := forall₂_getElem? h.nodes hi

/-- A key stands at the position of the edge that it plans, and the edge ends where the keys of
its ends stand. -/
theorem Lists.edge_at (h : g.Lists p ns es) {j : Nat} {b : β} (hj : es[j]? = some b) :
    ∃ e tail head, g.edge? j = some e ∧ p.link b = some ⟨tail, head, e.label⟩ ∧
      ns[e.tail]? = some tail ∧ ns[e.head]? = some head := by
  obtain ⟨e, he, tail, head, h⟩ := forall₂_getElem? h.edges hj
  exact ⟨e, tail, head, he, h⟩

/-- Every node has a key. -/
theorem Lists.exists_node_key (h : g.Lists p ns es) {i : Nat} {n : Node}
    (hi : g.node? i = some n) : ∃ a, ns[i]? = some a := by
  have hlt : i < ns.length := h.length_nodes ▸ (List.getElem?_eq_some_iff.1 hi).1
  exact ⟨ns[i], List.getElem?_eq_getElem hlt⟩

/-- Every edge has a key. -/
theorem Lists.exists_edge_key (h : g.Lists p ns es) {j : Nat} {e : Edge}
    (hj : g.edge? j = some e) : ∃ b, es[j]? = some b := by
  have hlt : j < es.length := h.length_edges ▸ (List.getElem?_eq_some_iff.1 hj).1
  exact ⟨es[j], List.getElem?_eq_getElem hlt⟩

/-- The nodes of a listed graph are the nodes under its keys. -/
theorem Lists.map_nodes (h : g.Lists p ns es) : g.nodes.map some = ns.map p.node :=
  forall₂_map_some h.nodes

/-- The node of a listed graph at the position of a key. -/
theorem Lists.node?_idxOf [DecidableEq α] (h : g.Lists p ns es) {a : α} (ha : a ∈ ns) :
    g.node? (ns.idxOf a) = p.node a := by
  obtain ⟨n, hn, hp⟩ := h.node_at (getElem?_idxOf ha)
  rw [hn, hp]

/-- The edges of a listed graph are the edges under its keys, with their ends where the ends of
those are listed. -/
theorem Lists.map_edges [DecidableEq α] (h : g.Lists p ns es) (hnodup : ns.Nodup) :
    g.edges.map some = es.map fun b => (p.link b).map (Link.place ns) := by
  refine forall₂_map_some (h.edges.imp ?_)
  rintro b e ⟨tail, head, hl, htail, hhead⟩
  rw [hl, Option.map_some, Link.place, idxOf_eq hnodup htail, idxOf_eq hnodup hhead]

/-- Where keys of nodes are listed once, the edge of a key is what the plan says. -/
theorem Lists.edge?_idxOf [DecidableEq α] [DecidableEq β] (h : g.Lists p ns es)
    (hnodup : ns.Nodup) {b : β} (hb : b ∈ es) :
    g.edge? (es.idxOf b) = (p.link b).map (Link.place ns) := by
  obtain ⟨e, tail, head, he, hl, htail, hhead⟩ := h.edge_at (getElem?_idxOf hb)
  rw [he, hl, Option.map_some, Link.place, idxOf_eq hnodup htail, idxOf_eq hnodup hhead]

/-- In a graph that is listed every edge ends at nodes of the graph. -/
theorem Lists.ends_lt (h : g.Lists p ns es) :
    ∀ e ∈ g.edges, e.tail < g.nodes.length ∧ e.head < g.nodes.length := by
  intro e he
  obtain ⟨j, hj⟩ := List.getElem?_of_mem he
  obtain ⟨b, hb⟩ := h.exists_edge_key hj
  obtain ⟨e', tail, head, he', -, htail, hhead⟩ := h.edge_at hb
  obtain rfl : e = e' := Option.some.inj (hj.symm.trans he')
  rw [← h.length_nodes]
  exact ⟨(List.getElem?_eq_some_iff.1 htail).1, (List.getElem?_eq_some_iff.1 hhead).1⟩

/-- A listing stays one when its keys are renamed, as far as the other plan has the same under the
new keys. -/
theorem Lists.rekey (h : g.Lists p ns es) {q : Plan γ δ} (f : α → γ) (k : β → δ)
    (hnode : ∀ a ∈ ns, q.node (f a) = p.node a)
    (hlink : ∀ b ∈ es, q.link (k b) = (p.link b).map (Link.map f)) :
    g.Lists q (ns.map f) (es.map k) where
  nodes := by
    rw [List.forall₂_map_left_iff]
    refine ((List.forall₂_and_left _ _).2 ⟨hnode, h.nodes⟩).imp ?_
    rintro a n ⟨ha, hn⟩
    rw [ha, hn]
  edges := by
    rw [List.forall₂_map_left_iff]
    refine ((List.forall₂_and_left _ _).2 ⟨hlink, h.edges⟩).imp ?_
    rintro b e ⟨hb, tail, head, hl, htail, hhead⟩
    refine ⟨f tail, f head, ?_, ?_, ?_⟩
    · rw [hb, hl]
      rfl
    · rw [List.getElem?_map, htail]
      rfl
    · rw [List.getElem?_map, hhead]
      rfl

end Listing

/-! ### Isomorphic graphs -/

/-- The second graph is the first with its nodes and edges renumbered: names, stored labels and
ends are kept. -/
structure Renumbers (g h : Graph) (f : NodeId → NodeId) (k : EdgeId → EdgeId) : Prop where
  /-- Nodes correspond. -/
  nodes : Set.BijOn f (Set.Iio g.nodes.length) (Set.Iio h.nodes.length)
  /-- Edges correspond. -/
  edges : Set.BijOn k (Set.Iio g.edges.length) (Set.Iio h.edges.length)
  /-- Corresponding nodes have the same name and the same stored label. -/
  node_eq : ∀ i n, g.node? i = some n → h.node? (f i) = some n
  /-- Corresponding edges have corresponding ends and the same stored label. -/
  edge_eq : ∀ j e, g.edge? j = some e → h.edge? (k j) = some ⟨f e.tail, f e.head, e.label⟩

/-- Two graphs are the same up to the order of their nodes and edges. Subgraphs do not count. -/
def Isomorphic (g h : Graph) : Prop := ∃ f k, g.Renumbers h f k

/-- Two graphs that list the same keys of one plan are isomorphic. -/
theorem isomorphic_of_perm {α β : Type} [DecidableEq α] [DecidableEq β] {g h : Graph}
    {p : Plan α β} {ns ns' : List α} {es es' : List β} (hg : g.Lists p ns es)
    (hh : h.Lists p ns' es') (hns : ns.Perm ns') (hes : es.Perm es') (hnodup : ns.Nodup)
    (henodup : es.Nodup) : g.Isomorphic h := by
  refine ⟨moveIndex ns ns', moveIndex es es', ?_, ?_, fun i n hi => ?_, fun j e hj => ?_⟩
  · rw [← hg.length_nodes, ← hh.length_nodes]
    exact bijOn_moveIndex hns hnodup
  · rw [← hg.length_edges, ← hh.length_edges]
    exact bijOn_moveIndex hes henodup
  · obtain ⟨a, ha⟩ := hg.exists_node_key hi
    obtain ⟨n₁, hn₁, hp₁⟩ := hg.node_at ha
    obtain ⟨n₂, hn₂, hp₂⟩ :=
      hh.node_at (getElem?_moveIndex ha (hns.subset (List.mem_of_getElem? ha)))
    rw [hn₂, ← hp₂, hp₁, ← hn₁, hi]
  · obtain ⟨b, hb⟩ := hg.exists_edge_key hj
    obtain ⟨e₁, tail, head, he₁, hl₁, htail₁, hhead₁⟩ := hg.edge_at hb
    obtain rfl : e = e₁ := Option.some.inj (hj.symm.trans he₁)
    obtain ⟨e₂, tail₂, head₂, he₂, hl₂, htail₂, hhead₂⟩ :=
      hh.edge_at (getElem?_moveIndex hb (hes.subset (List.mem_of_getElem? hb)))
    -- Both edges are the one under the key, so their ends have the same keys.
    obtain ⟨rfl, rfl, hlabel⟩ : tail = tail₂ ∧ head = head₂ ∧ e.label = e₂.label := by
      simpa using hl₁.symm.trans hl₂
    have hnodup' := hns.nodup_iff.1 hnodup
    have htail := getElem?_moveIndex htail₁ (hns.subset (List.mem_of_getElem? htail₁))
    have hhead := getElem?_moveIndex hhead₁ (hns.subset (List.mem_of_getElem? hhead₁))
    rw [he₂, eq_of_getElem?_eq hnodup' htail htail₂, eq_of_getElem?_eq hnodup' hhead hhead₂,
      hlabel]

end Graph

/-! ### Graphs that look alike -/

/-- The node without its name and with the label that counts. -/
def Node.plain (n : Node) : Node := { name := "", label := n.effective }

/-- The edge with the label that counts. -/
def Edge.plain (e : Edge) : Edge := { e with label := e.effective }

/-- The plan of the elements without names and with the labels that count. -/
def Plan.plain {α β : Type} (p : Plan α β) : Plan α β where
  node a := (p.node a).map Node.plain
  link b := (p.link b).map fun l => { l with label := effective l.label }

namespace Graph

/-- The graph as a directed multigraph with labelled nodes and edges: names, subgraphs and empty
labels do not count. -/
def plain (g : Graph) : Graph where
  nodes := g.nodes.map Node.plain
  edges := g.edges.map Edge.plain

/-- Two graphs are isomorphic as directed multigraphs with labelled nodes and edges. -/
def Alike (g h : Graph) : Prop := g.plain.Isomorphic h.plain

/-- A listing stays one when names and blank labels are dropped from the graph and from the
plan. -/
theorem Lists.plain {α β : Type} {g : Graph} {p : Plan α β} {ns : List α} {es : List β}
    (h : g.Lists p ns es) : g.plain.Lists p.plain ns es where
  nodes := by
    refine List.forall₂_map_right_iff.2 (h.nodes.imp fun a n hn => ?_)
    show (p.node a).map _ = _
    rw [hn]
    rfl
  edges := by
    refine List.forall₂_map_right_iff.2 (h.edges.imp ?_)
    rintro b e ⟨tail, head, hl, htail, hhead⟩
    refine ⟨tail, head, ?_, htail, hhead⟩
    show (p.link b).map _ = _
    rw [hl]
    rfl

/-- The elements of the graph under their handles. -/
def ownPlan (g : Graph) : Plan NodeId EdgeId where
  node := g.node?
  link j := (g.edge? j).map fun e => ⟨e.tail, e.head, e.label⟩

/-- A graph lists its handles. -/
theorem lists_ownPlan {g : Graph}
    (h : ∀ e ∈ g.edges, e.tail < g.nodes.length ∧ e.head < g.nodes.length) :
    g.Lists g.ownPlan g.nodeIds g.edgeIds where
  nodes := by
    refine List.forall₂_iff_get.2 ⟨List.length_range, fun i _ hi => ?_⟩
    simp only [nodeIds, List.get_eq_getElem, List.getElem_range]
    exact List.getElem?_eq_getElem hi
  edges := by
    refine List.forall₂_iff_get.2 ⟨List.length_range, fun j _ hj => ?_⟩
    obtain ⟨htail, hhead⟩ := h _ (List.getElem_mem hj)
    simp only [edgeIds, List.get_eq_getElem, List.getElem_range]
    refine ⟨_, _, ?_, List.getElem?_range htail, List.getElem?_range hhead⟩
    show (g.edge? j).map _ = _
    rw [edge?, List.getElem?_eq_getElem hj]
    rfl

end Graph

end DoublePushout
