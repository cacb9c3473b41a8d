import DoublePushout.Proofs.Graph.Validity
import DoublePushout.Proofs.Matching.Normalised
import DoublePushout.Proofs.Rule.Pushout
import DoublePushout.Rule.Annotation

/-!
# `DoublePushout.Proofs.Rule.Normalised`: rules without empty labels

Normalising commutes with everything that makes a rule or uses one. A rule read from a normalised
graph is the normalised rule (`Graph.toRule_normalised`); the parts of an annotation, its faults
and the pairing of edges by label see only the labels that count. A rewrite of normalised graphs
gives the normalised result (`Rule.apply_normalised`): it copies stored labels without comparing
them, so each part of the result is built from normalised elements as it is from the others.

`empty_label_counts_as_none` collects what this and the two modules on graphs and matching say.
-/

set_option autoImplicit false

namespace DoublePushout

/-- The rule with every empty label taken away. -/
def Rule.normalised (r : Rule) : Rule :=
  { r with
    lhs := r.lhs.normalised
    rhs := r.rhs.normalised
    interface := r.interface.normalised }

/-- The derived rule with every empty label taken away. Where its elements come from stays. -/
def DerivedRule.normalised (d : DerivedRule) : DerivedRule := { d with rule := d.rule.normalised }

/-! ### Reading a rule -/

namespace Annotated

/-- The annotation of the normalised graph. -/
def normalised (a : Annotated) : Annotated := { a with graph := a.graph.normalised }

variable (a : Annotated)

/-- Normalising keeps the parts of the sides. -/
theorem part_normalised (side : Side) : a.normalised.part side = a.part side := by
  cases side with
  | lhs => rfl
  | rhs => rfl

/-- A side has the same nodes. -/
theorem nodesOf_normalised (side : Side) : a.normalised.nodesOf side = a.nodesOf side := by
  rw [nodesOf, part_normalised, nodesOf]

/-- A side has the same edges. -/
theorem edgesOf_normalised (side : Side) : a.normalised.edgesOf side = a.edgesOf side := by
  rw [edgesOf, part_normalised, edgesOf]

/-- A node has the same handle on a side. -/
theorem localNode_normalised (side : Side) : a.normalised.localNode side = a.localNode side := by
  funext n
  rw [localNode, nodesOf_normalised, localNode]

/-- The same labels come before an edge, for blank ones do not count. -/
theorem labelsBefore_normalised (side : Side) (i : EdgeId) :
    a.normalised.labelsBefore side i = a.labelsBefore side i := by
  rw [labelsBefore, part_normalised, labelsBefore]
  show (((a.graph.edges.map Edge.plain).take i).zipIdx.filterMap _) = _
  rw [← List.map_take, List.zipIdx_map, List.filterMap_map]
  refine List.filterMap_congr fun x _ => ?_
  show (if x.2 ∈ (a.part side).edges then x.1.plain.effective else none) = _
  rw [Edge.effective_plain]

/-- The check of an edge on a side sees no difference. -/
theorem placementError?_normalised (side : Side) (e : Edge) (i : EdgeId) :
    a.normalised.placementError? side e.plain i = a.placementError? side e i := by
  rw [placementError?, placementError?, part_normalised, Edge.ends_plain, Edge.effective_plain,
    labelsBefore_normalised]

/-- The check of an edge sees no difference. -/
theorem edgeError?_normalised :
    a.normalised.edgeError? ∘ Prod.map Edge.plain id = a.edgeError? := by
  funext x
  obtain ⟨e, i⟩ := x
  show a.normalised.edgeError? (e.plain, i) = _
  rw [edgeError?, edgeError?, placementError?_normalised, placementError?_normalised]
  rfl

/-- The first fault of an annotation is the same. -/
theorem firstError?_normalised : a.normalised.firstError? = a.firstError? := by
  rw [firstError?, firstError?]
  show (List.findSome? _ a.graph.normalised.nodes.zipIdx).or
    (List.findSome? _ a.graph.normalised.edges.zipIdx) = _
  rw [Graph.zipIdx_nodes_normalised, Graph.zipIdx_edges_normalised, List.findSome?_map,
    List.findSome?_map, edgeError?_normalised]
  rfl

/-- Nodes that are read by handle, in the normalised graph. -/
theorem filterMap_node?_normalised (ns : List NodeId) :
    ns.filterMap a.normalised.graph.node? = (ns.filterMap a.graph.node?).map Node.normalised := by
  rw [List.map_filterMap]
  exact List.filterMap_congr fun n _ => a.graph.node?_normalised n

/-- A side graph of the normalised annotation is the normalised side graph. -/
theorem sideGraph_normalised (side : Side) :
    a.normalised.sideGraph side = (a.sideGraph side).normalised := by
  have hedges : (a.edgesOf side).filterMap a.normalised.graph.edge? =
      ((a.edgesOf side).filterMap a.graph.edge?).map Edge.plain := by
    rw [List.map_filterMap]
    exact List.filterMap_congr fun e _ => a.graph.edge?_normalised e
  have hlocal : a.normalised.localEdge side ∘ Edge.plain = Edge.plain ∘ a.localEdge side := by
    funext e
    rw [Function.comp_apply, localEdge, localNode_normalised]
    rfl
  rw [sideGraph, nodesOf_normalised, edgesOf_normalised, filterMap_node?_normalised, hedges,
    List.map_map, hlocal, ← List.map_map]
  rfl

/-- The same nodes are shared. -/
theorem sharedNodes_normalised : a.normalised.sharedNodes = a.sharedNodes := rfl

/-- Edges are paired by the labels that count. -/
theorem pairs_normalised : a.normalised.pairs = a.pairs := by
  have hfind : ∀ label : String,
      (a.normalised.sideGraph .rhs).edges.findIdx? (fun e => e.effective = some label) =
        (a.sideGraph .rhs).edges.findIdx? fun e => e.effective = some label := by
    intro label
    rw [sideGraph_normalised]
    show ((a.sideGraph .rhs).edges.map Edge.plain).findIdx? _ = _
    rw [List.findIdx?_map]
    refine congrArg (List.findIdx? · _) (funext fun e => ?_)
    rw [Function.comp_apply, Edge.effective_plain]
  rw [pairs, pairs, sideGraph_normalised a .lhs, Graph.zipIdx_edges_normalised,
    List.filterMap_map]
  refine List.filterMap_congr fun x _ => ?_
  show Option.bind x.1.plain.effective _ = Option.bind x.1.effective _
  rw [Edge.effective_plain]
  refine congrArg (Option.bind _) (funext fun label => ?_)
  exact congrArg (Option.bind · _) (hfind label)

/-- Only a label that is not empty pairs two edges. -/
theorem label_ne_of_mem_pairs {p : Pair} (hp : p ∈ a.pairs) : p.label ≠ "" := by
  obtain ⟨x, -, hx⟩ := List.mem_filterMap.1 hp
  obtain ⟨label, hlabel, hx⟩ := Option.bind_eq_some_iff.1 hx
  obtain ⟨j, -, hx⟩ := Option.bind_eq_some_iff.1 hx
  cases hx
  rintro rfl
  exact effective_ne_blank hlabel

/-- The rule of the normalised annotation is the normalised rule. -/
theorem rule_normalised : a.normalised.rule = a.rule.normalised := by
  -- The labels of the interface edges are not copied from the graph. None of them is empty.
  have hedges : (a.pairs.map fun p => (⟨0, 0, some p.label⟩ : Edge)).map Edge.plain =
      a.pairs.map fun p => ⟨0, 0, some p.label⟩ := by
    rw [List.map_map]
    refine List.map_congr_left fun p hp => ?_
    have hne : some p.label ≠ some "" :=
      fun heq => a.label_ne_of_mem_pairs hp (Option.some.inj heq)
    exact congrArg (Edge.mk 0 0) (effective_eq_self_iff.2 hne)
  rw [rule, sideGraph_normalised, sideGraph_normalised, pairs_normalised, sharedNodes_normalised,
    filterMap_node?_normalised, localNode_normalised, localNode_normalised, ← hedges]
  rfl

end Annotated

/-- The rule that a normalised graph describes is the normalised rule, and a graph that describes
none has the same fault. -/
theorem Graph.toRule_normalised (g : Graph) :
    g.normalised.toRule = g.toRule.map DerivedRule.normalised := by
  have hannotated : g.normalised.annotated = g.annotated.map Annotated.normalised := by
    have hparts : g.normalised.subgraph? = g.subgraph? := rfl
    rw [annotated, annotated, hparts]
    cases g.subgraph? Side.lhs.mark with
    | none => rfl
    | some lhs =>
      cases g.subgraph? Side.rhs.mark with
      | none => rfl
      | some rhs => rfl
  -- A rule is read in three stages, each of which can stop: the check, the marks, the first
  -- fault.
  rw [toRule, toRule, validate_normalised, hannotated]
  cases g.validate with
  | error e => rfl
  | ok _ =>
    cases g.annotated with
    | error e => rfl
    | ok a =>
      simp only [Except.map, bind, Except.bind, a.firstError?_normalised]
      cases a.firstError? with
      | some e => rfl
      | none =>
        show Except.ok (⟨a.normalised.rule, _, _⟩ : DerivedRule) = _
        rw [a.rule_normalised]
        rfl

/-! ### Rewriting -/

/-- The placed node with the label that counts. -/
def Placed.normalised (p : Placed) : Placed := { p with node := p.node.normalised }

/-- The last index in a translated list is found by translating the question. -/
theorem lastIndex?_map {α β : Type} {f : α → β} {p : β → Bool} (xs : List α) :
    lastIndex? p (xs.map f) = lastIndex? (p ∘ f) xs := by
  rw [lastIndex?, lastIndex?, List.zipIdx_map, List.filter_map, List.getLast?_map, Option.map_map]
  rfl

namespace Rule

variable (r : Rule) (t : Graph) (m : Mapping)

/-- The normalised rule deletes the same nodes. -/
theorem deletedNodes_normalised : r.normalised.deletedNodes = r.deletedNodes :=
  congrArg (List.filter _) r.lhs.nodeIds_normalised

/-- The normalised rule deletes the same edges. -/
theorem deletedEdges_normalised : r.normalised.deletedEdges = r.deletedEdges :=
  congrArg (List.filter _) r.lhs.edgeIds_normalised

/-- The normalised rule creates the same edges. -/
theorem createdEdges_normalised : r.normalised.createdEdges = r.createdEdges :=
  congrArg (List.filter _) r.rhs.edgeIds_normalised

/-- The same edge dangles in a normalised target. -/
theorem danglingEdge?_normalised (ns : List NodeId) (es : List EdgeId) :
    danglingEdge? t.normalised ns es = danglingEdge? t ns es := by
  rw [danglingEdge?, Graph.zipIdx_edges_normalised, List.findSome?_map]
  rfl

/-- The check of a match does not see empty labels. -/
theorem verify_normalised : r.normalised.verify t.normalised m = r.verify t m := by
  have hvalidate : m.validate r.normalised.lhs t.normalised = m.validate r.lhs t :=
    m.validate_normalised r.lhs t
  have hnodes : r.normalised.deletedImages m = r.deletedImages m := by
    rw [deletedImages, deletedNodes_normalised, deletedImages]
  have hedges : r.normalised.deletedRealisations m = r.deletedRealisations m := by
    rw [deletedRealisations, deletedEdges_normalised, deletedRealisations]
  have hconflicts : r.normalised.checkConflicts m = r.checkConflicts m := rfl
  simp only [verify, hvalidate, hnodes, hedges, hconflicts, danglingEdge?_normalised]

/-! ### The nodes of the result -/

/-- Reading a node of a normalised target gives the normalised node. -/
theorem node_normalised (n : NodeId) : t.normalised.node n = (t.node n).map Node.normalised :=
  entry_map ..

/-- Reading an edge of a normalised target gives the edge without a blank label. -/
theorem edge_normalised (e : EdgeId) : t.normalised.edge e = (t.edge e).map Edge.plain :=
  entry_map ..

/-- The nodes outside the match are normalised. -/
theorem contextNodes_normalised :
    contextNodes t.normalised m = (contextNodes t m).map Placed.normalised := by
  rw [contextNodes, contextNodes, Graph.zipIdx_nodes_normalised, List.filterMap_map,
    List.map_filterMap]
  refine List.filterMap_congr fun x _ => ?_
  show (if x.2 ∈ m.nodes then none else _) = Option.map _ (if x.2 ∈ m.nodes then none else _)
  split
  · rfl
  · rfl

/-- A preserved node is normalised. -/
theorem preservedNode_normalised (c : NodeId) :
    r.normalised.preservedNode t.normalised m c =
      (r.preservedNode t m c).map Placed.normalised := by
  have hrhs : ∀ i, r.normalised.rhs.node i = (r.rhs.node i).map Node.normalised :=
    node_normalised r.rhs
  simp only [preservedNode, node_normalised, hrhs, map_bind_eq, bind_map_eq]
  rfl

/-- The new nodes are normalised. -/
theorem newNodes_normalised (preserved : List Placed) :
    r.normalised.newNodes (preserved.map Placed.normalised) =
      (r.newNodes preserved).map Placed.normalised := by
  have hany : ∀ i, (preserved.map Placed.normalised).any (fun p => p.ofRhs = some i) =
      preserved.any fun p => p.ofRhs = some i := fun i => List.any_map
  rw [newNodes, newNodes]
  show List.filterMap _ r.rhs.normalised.nodes.zipIdx = _
  rw [Graph.zipIdx_nodes_normalised, List.filterMap_map, List.map_filterMap]
  refine List.filterMap_congr fun x _ => ?_
  show (if (preserved.map Placed.normalised).any (fun p => p.ofRhs = some x.2) then none else _) =
    Option.map _ (if preserved.any (fun p => p.ofRhs = some x.2) then none else _)
  rw [hany]
  split
  · rfl
  · rfl

/-- All nodes of the result are normalised. -/
theorem placedNodes_normalised : r.normalised.placedNodes t.normalised m =
    (r.placedNodes t m).map (List.map Placed.normalised) := by
  have hpreserved : r.normalised.interface.nodeIds.mapM
      (r.normalised.preservedNode t.normalised m) =
        (r.interface.nodeIds.mapM (r.preservedNode t m)).map (List.map Placed.normalised) := by
    rw [show r.normalised.interface.nodeIds = r.interface.nodeIds from
      r.interface.nodeIds_normalised]
    exact mapM_map_eq fun c _ => r.preservedNode_normalised t m c
  rw [placedNodes, placedNodes, hpreserved, map_bind_eq, bind_map_eq]
  refine congrArg (_ >>= ·) (funext fun preserved => ?_)
  show Except.ok _ = Except.ok _
  rw [contextNodes_normalised, newNodes_normalised, List.map_append, List.map_append]

/-! ### The edges of the result -/

section Edges
variable (placed : List Placed)

/-- The copy of a target node is at the same position. -/
theorem targetCopy_normalised (n : NodeId) :
    targetCopy t.normalised (placed.map Placed.normalised) n = targetCopy t placed n := by
  rw [targetCopy, targetCopy, node_normalised, map_bind_eq, lastIndex?_map]
  rfl

/-- The copy of a node of the right side is at the same position. -/
theorem rhsCopy_normalised (n : NodeId) :
    r.normalised.rhsCopy (placed.map Placed.normalised) n = r.rhsCopy placed n := by
  rw [rhsCopy, rhsCopy, show r.normalised.rhs.node n = _ from node_normalised r.rhs n,
    map_bind_eq, lastIndex?_map]
  rfl

/-- Moving an edge does not touch its label. -/
theorem moveEdge_plain {move move' : NodeId → Except Fault NodeId} (h : ∀ n, move' n = move n)
    (e : Edge) : moveEdge move' e.plain = (moveEdge move e).map Edge.plain := by
  obtain rfl : move' = move := funext h
  simp only [moveEdge, bind_map_eq]
  rfl

/-- The edges outside the match are moved without their blank labels. -/
theorem contextEdges_normalised :
    contextEdges t.normalised m (placed.map Placed.normalised) =
      (contextEdges t m placed).map (List.map Edge.plain) := by
  rw [contextEdges, contextEdges, Graph.zipIdx_edges_normalised, List.filter_map, List.mapM_map]
  exact mapM_map_eq fun x _ => moveEdge_plain (targetCopy_normalised t placed) x.1

/-- So are the preserved edges. -/
theorem preservedEdges_normalised :
    r.normalised.preservedEdges t.normalised m (placed.map Placed.normalised) =
      (r.preservedEdges t m placed).map (List.map Edge.plain) := by
  rw [preservedEdges, preservedEdges, bind_map_eq]
  refine congrArg (r.preservedRealisations m >>= ·) (funext fun es => mapM_map_eq fun j _ => ?_)
  rw [edge_normalised, map_bind_eq, bind_map_eq]
  exact congrArg (_ >>= ·) (funext fun e => moveEdge_plain (targetCopy_normalised t placed) e)

/-- So are the new edges. -/
theorem newEdges_normalised :
    r.normalised.newEdges (placed.map Placed.normalised) =
      (r.newEdges placed).map (List.map Edge.plain) := by
  rw [newEdges, newEdges, createdEdges_normalised]
  refine mapM_map_eq fun j _ => ?_
  rw [show r.normalised.rhs.edge j = _ from edge_normalised r.rhs j, map_bind_eq, bind_map_eq]
  exact congrArg (_ >>= ·) (funext fun e => moveEdge_plain (rhsCopy_normalised r placed) e)

end Edges

/-! ### The whole result -/

/-- The result is built normalised from normalised parts. -/
theorem build_normalised :
    r.normalised.build t.normalised m = (r.build t m).map Graph.normalised := by
  -- Each part is the normalised part, so only the graph that is put together is left to compare.
  simp only [build, placedNodes_normalised, map_bind_eq, bind_map_eq, contextEdges_normalised,
    preservedEdges_normalised, newEdges_normalised]
  refine congrArg (_ >>= ·) (funext fun placed => congrArg (_ >>= ·) (funext fun context =>
    congrArg (_ >>= ·) (funext fun preserved => congrArg (_ >>= ·) (funext fun created => ?_))))
  show Except.ok (Graph.mk ((placed.map Placed.normalised).map (·.node)) _ _) =
    Except.ok (Graph.normalised _)
  rw [Graph.normalised, List.map_append, List.map_append, List.map_map, List.map_map]
  rfl

/-- Rewriting among normalised graphs gives the normalised result, or fails in the same way. -/
theorem apply_normalised :
    r.normalised.apply t.normalised m = (r.apply t m).map Graph.normalised := by
  rw [apply, apply, verify_normalised, build_normalised, bind_map_eq]
  refine congrArg (_ >>= ·) (funext fun _ => ?_)
  cases r.build t m with
  | error x => rfl
  | ok result => rfl

end Rule

/-- An empty label counts as no label everywhere. Taking the empty labels away does not change
which matches are found, in whatever part of the target is searched, whether a mapping is valid,
and whether a rule can be applied, nor any error or fault. A rule read from the graph, and a
rewritten graph, lose their empty labels and nothing else. And a valid graph is isomorphic to what
it becomes. -/
theorem empty_label_counts_as_none :
    (∀ (o : SearchOptions) (pattern target : Graph),
      (o.query pattern.normalised target.normalised >>= Query.findAll) =
        (o.query pattern target >>= Query.findAll)) ∧
    (∀ (m : Mapping) (source target : Graph),
      m.validate source.normalised target.normalised = m.validate source target) ∧
    (∀ g : Graph, g.normalised.toRule = g.toRule.map DerivedRule.normalised) ∧
    (∀ (r : Rule) (target : Graph) (m : Mapping),
      r.normalised.verify target.normalised m = r.verify target m ∧
      r.normalised.apply target.normalised m = (r.apply target m).map Graph.normalised) ∧
    ∀ g : Graph, g.validate = .ok () → g.isIsomorphic g.normalised = .ok true :=
  ⟨fun o => o.findAll_normalised, fun m => m.validate_normalised, Graph.toRule_normalised,
    fun r t m => ⟨r.verify_normalised t m, r.apply_normalised t m⟩,
    fun _ h => Graph.isIsomorphic_normalised (Graph.validate_eq_ok_iff.1 h)⟩

/-- A graph with empty labels on a node and on parallel edges. -/
def blankGraph : Graph where
  nodes := [{ name := "a", label := some "" }, { name := "b", label := some "x" }]
  edges := [{ tail := 0, head := 1, label := some "" }, { tail := 0, head := 1 },
    { tail := 0, head := 1, label := some "y" }]
  subgraphs := [{ name := "L", nodes := IdSet.ofList [0, 1] }]

/-- A graph with blank labels is isomorphic to the graph without them. -/
theorem empty_label_counts_as_none_blank :
    blankGraph ≠ blankGraph.normalised ∧ blankGraph.validate = .ok () ∧
      blankGraph.isIsomorphic blankGraph.normalised = .ok true :=
  ⟨by decide, by decide, empty_label_counts_as_none.2.2.2.2 blankGraph (by decide)⟩

end DoublePushout
