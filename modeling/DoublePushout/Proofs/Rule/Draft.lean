import DoublePushout.Proofs.Rule.FirstFault
import DoublePushout.Proofs.Rule.Prefix

/-!
# `DoublePushout.Proofs.Rule.Draft`: one side of a rule under construction

A `Draft` is a side of a rule while the rule is put together: the graph so far, with tables that
lead to it and back. Its operations read and write these tables at handles that come from
elsewhere, and they fault outside of them. An edge is added by `Graph.addEdge`, which faults at a
missing end.

`Annotated.draft` is the draft of a side when all of it is there. The drafts that a pass comes by
are those of the annotation of the elements passed so far, and one step leads from each to the
next:

* `draft_addNode`: a node of the side is copied;
* `Within.draft_addEdge`: an edge of the side is copied, or refused for what is wrong with it
  there;
* `draft_below_succ_of_not_mem`: an element that is not on the side changes nothing.
-/

set_option autoImplicit false

namespace DoublePushout

/-! ### Tables -/

/-- The table with another entry at a position that nothing has checked. -/
def putEntry {α : Type} (table : List α) (i : Nat) (a : α) : Except Fault (List α) :=
  if i < table.length then .ok (table.set i a) else .error (.outOfRange table.length i)

/-- Inside a table an entry can always be put. -/
theorem putEntry_of_lt {α : Type} {table : List α} {i : Nat} {a : α} (h : i < table.length) :
    putEntry table i a = .ok (table.set i a) := if_pos h

/-- The labels of some edges that count, each with the position of its edge. -/
def filed (es : List Edge) : List (String × EdgeId) :=
  es.zipIdx.filterMap fun x => x.1.effective.map (·, x.2)

/-- One more edge is filed last, if its label counts. -/
theorem filed_concat (es : List Edge) (e : Edge) :
    filed (es ++ [e]) = filed es ++ (e.effective.map (·, es.length)).toList := by
  rw [filed, List.zipIdx_append, List.filterMap_append, Nat.zero_add, List.zipIdx_singleton,
    filed]
  refine congrArg (_ ++ ·) ?_
  cases h : e.effective with
  | none => simp [h]
  | some label => simp [h]

/-- The filed labels are those of the edges that count. -/
theorem map_fst_filed (es : List Edge) : (filed es).map (·.1) = es.filterMap Edge.effective := by
  conv_rhs => rw [← List.zipIdx_map_fst 0 es, List.filterMap_map]
  rw [filed, List.map_filterMap]
  refine List.filterMap_congr fun x _ => ?_
  rw [Option.map_map]
  exact Option.map_id'

/-- A label leads to the first edge that has it. -/
theorem lookup_filed (label : String) (es : List Edge) :
    (filed es).lookup label = es.findIdx? (·.effective = some label) := by
  -- The edges after the first are numbered from one on, so the first number is left open.
  have hfrom : ∀ k, ((es.zipIdx k).filterMap fun x => x.1.effective.map (·, x.2)).lookup label =
      (es.findIdx? (·.effective = some label)).map (· + k) := by
    induction es with
    | nil => exact fun _ => rfl
    | cons e es ih =>
      intro k
      have hrest : (es.findIdx? (·.effective = some label)).map (· + (k + 1)) =
          ((es.findIdx? (·.effective = some label)).map (· + 1)).map (· + k) := by
        rw [Option.map_map]
        refine congrArg (Option.map · _) (funext fun i => ?_)
        show i + (k + 1) = i + 1 + k
        omega
      rw [List.zipIdx_cons, List.filterMap_cons, List.findIdx?_cons]
      cases heff : e.effective with
      | none => simpa [heff] using (ih (k + 1)).trans hrest
      | some label' =>
        by_cases hlabel : label = label'
        · simp [hlabel]
        · have hlabel' : ¬ label' = label := fun h => hlabel h.symm
          have hbeq : (label == label') = false := beq_eq_false_iff_ne.2 hlabel
          simpa [heff, hlabel', List.lookup_cons, hbeq] using (ih (k + 1)).trans hrest
  rw [filed, hfrom 0]
  exact Option.map_id'

/-! ### Drafts -/

/-- A side of a rule while it is put together. -/
structure Draft where
  /-- The side so far. -/
  graph : Graph := {}
  /-- For each node of the annotated graph its handle on the side, if it is there by now. -/
  places : List (Option NodeId)
  /-- Where the elements of the side come from. -/
  origin : Mapping := {}
  /-- The labels of the side's edges, each with its edge. -/
  labels : List (String × EdgeId) := []

namespace Draft

/-- Copies a node of a graph to the side. -/
def addNode (d : Draft) (g : Graph) (n : NodeId) : Except Fault (NodeId × Draft) := do
  let (copy, graph) := d.graph.addNode (← g.node n)
  let places ← putEntry d.places n (some copy)
  return (copy, { d with graph, places, origin.nodes := d.origin.nodes ++ [n] })

/-- The handle on the side of a node at which an edge ends. -/
def place (d : Draft) (side : Side) (i : EdgeId) (n : NodeId) :
    Except (Failure RuleError) NodeId := do
  match ← orFault (entry d.places n) with
  | some copy => return copy
  | none => .error (.refused (.endOutsideSide i side))

/-- Files an edge under its label, if it has one that counts. -/
def file (d : Draft) (side : Side) (copy : EdgeId) :
    Option String → Except (Failure RuleError) Draft
  | none => return d
  | some label =>
    if label ∈ d.labels.map (·.1) then .error (.refused (.repeatedLabel label side))
    else return { d with labels := d.labels ++ [(label, copy)] }

/-- Copies an edge of a graph to the side. -/
def addEdge (d : Draft) (g : Graph) (side : Side) (i : EdgeId) :
    Except (Failure RuleError) Draft := do
  let e ← orFault (g.edge i)
  let tail ← d.place side i e.tail
  let head ← d.place side i e.head
  let (copy, graph) ← orFault (d.graph.addEdge { e with tail, head })
  { d with graph, origin.edges := d.origin.edges ++ [[i]] }.file side copy e.effective

/-- The side with an edge more, which comes from an edge of the annotated graph. -/
def withEdge (d : Draft) (i : EdgeId) (e : Edge) : Draft where
  graph := { d.graph with edges := d.graph.edges ++ [e] }
  places := d.places
  origin := { d.origin with edges := d.origin.edges ++ [[i]] }
  labels := d.labels ++ (e.effective.map (·, d.graph.edges.length)).toList

/-- An edge that repeats no label is filed. -/
theorem file_eq_ok {d : Draft} {side : Side} {i : EdgeId} {e : Edge}
    (h : ∀ label, e.effective = some label → label ∉ d.labels.map (·.1)) :
    ({ d with
      graph := { d.graph with edges := d.graph.edges ++ [e] }
      origin.edges := d.origin.edges ++ [[i]] } : Draft).file side d.graph.edges.length
        e.effective = .ok (d.withEdge i e) := by
  rw [withEdge]
  cases heff : e.effective with
  | none =>
    rw [Option.map_none, Option.toList_none, List.append_nil]
    rfl
  | some label => exact if_neg (h label heff)

end Draft

namespace Annotated

variable {a b : Annotated} {side : Side} {k n : NodeId} {node : Node} {j : EdgeId} {e : Edge}

/-- The draft of a side when all of it is there. -/
def draft (a : Annotated) (side : Side) : Draft where
  graph := a.sideGraph side
  places := a.graph.nodeIds.map fun n =>
    if n ∈ (a.part side).nodes then some (a.localNode side n) else none
  origin := a.origin side
  labels := filed (a.sideGraph side).edges

/-- A side does not depend on the part that marks the other. -/
theorem draft_congr (hgraph : b.graph = a.graph)
    (hpart : b.part side = a.part side) : b.draft side = a.draft side := by
  obtain ⟨g, l, r⟩ := a
  obtain ⟨g', l', r'⟩ := b
  cases hgraph
  cases side with
  | lhs =>
    cases hpart
    rfl
  | rhs =>
    cases hpart
    rfl

/-- A side on which the next node is not does not change. -/
theorem draft_below_succ_of_not_mem (hk : k ∉ (a.part side).nodes) :
    (a.below (k + 1) 0).draft side = (a.below k 0).draft side := by
  refine draft_congr (a := a.below k 0) rfl ?_
  rw [part_below, part_below, IdSet.below_succ_of_not_mem hk]

/-- A draft has a place for each node of the annotated graph. -/
theorem length_places (side : Side) : (a.draft side).places.length = a.graph.nodes.length := by
  simp [draft, Graph.nodeIds]

/-- What is known of a node's place on a side. -/
theorem getElem?_places (side : Side) (hn : n < a.graph.nodes.length) :
    (a.draft side).places[n]? =
      some (if n ∈ (a.part side).nodes then some (a.localNode side n) else none) := by
  rw [draft, List.getElem?_map, Graph.nodeIds, List.getElem?_range hn]
  rfl

/-! ### Copying a node -/

/-- Without edges there is nothing but the nodes. -/
theorem draft_below_zero (k : NodeId) (side : Side) :
    (a.below k 0).draft side = {
      graph := { nodes := ((a.below k 0).nodesOf side).filterMap a.graph.node? }
      places := ((a.below k 0).draft side).places
      origin := { nodes := (a.below k 0).nodesOf side } } := by
  have hedges : (a.below k 0).edgesOf side = [] := by
    rw [edgesOf_below, IdSet.toList_below_zero]
  simp only [draft, sideGraph, origin, hedges, List.filterMap_nil, List.map_nil]
  rfl

/-- The next node is entered in the table of places. -/
theorem places_below_succ (hlt : k < a.graph.nodes.length) (hk : k ∈ (a.part side).nodes) :
    ((a.below (k + 1) 0).draft side).places =
      ((a.below k 0).draft side).places.set k (some ((a.below (k + 1) 0).localNode side k)) := by
  -- Only the entry of the next node is new.
  refine List.ext_getElem? fun n => ?_
  have hlength : ∀ k', ((a.below k' 0).draft side).places.length = a.graph.nodes.length :=
    fun k' => length_places side
  by_cases hn : n < a.graph.nodes.length
  · rw [getElem?_places (a := a.below (k + 1) 0) side hn]
    by_cases hkn : k = n
    · subst hkn
      rw [List.getElem?_set_self (hlength k ▸ hlt),
        if_pos (mem_nodes_below.2 ⟨hk, Nat.lt_succ_self k⟩)]
    · rw [List.getElem?_set_ne hkn, getElem?_places (a := a.below k 0) side hn]
      have hiff : n ∈ ((a.below (k + 1) 0).part side).nodes ↔
          n ∈ ((a.below k 0).part side).nodes := by
        rw [mem_nodes_below, mem_nodes_below, Nat.lt_succ_iff_lt_or_eq, or_iff_left (Ne.symm hkn)]
      by_cases hmem : n ∈ ((a.below k 0).part side).nodes
      · rw [if_pos hmem, if_pos (hiff.2 hmem), localNode_below_succ hmem]
      · rw [if_neg hmem, if_neg (mt hiff.1 hmem)]
  · rw [List.getElem?_eq_none, List.getElem?_eq_none]
    · rw [List.length_set, hlength]
      exact Nat.le_of_not_lt hn
    · rw [hlength]
      exact Nat.le_of_not_lt hn

/-- A node of a side is copied to it. -/
theorem draft_addNode (hnode : a.graph.node? k = some node) (hk : k ∈ (a.part side).nodes) :
    ((a.below k 0).draft side).addNode a.graph k =
      .ok ((a.below (k + 1) 0).localNode side k, (a.below (k + 1) 0).draft side) := by
  have hlt : k < a.graph.nodes.length := (List.getElem?_eq_some_iff.1 hnode).1
  -- The nodes that are there are nodes of the graph, so their number is the handle of the next
  -- one.
  have hhandle : (((a.below k 0).nodesOf side).filterMap a.graph.node?).length =
      (a.below (k + 1) 0).localNode side k := by
    rw [localNode_below_self hk]
    refine (forall₂_filterMap_right fun n hn => ?_).length_eq.symm
    rw [nodesOf_below, IdSet.mem_toList, IdSet.mem_below] at hn
    exact ⟨_, List.getElem?_eq_getElem (Nat.lt_trans hn.2 hlt)⟩
  have hput : putEntry ((a.below k 0).draft side).places k
      (some ((a.below (k + 1) 0).localNode side k)) =
        .ok ((a.below (k + 1) 0).draft side).places := by
    rw [places_below_succ hlt hk]
    exact putEntry_of_lt ((length_places (a := a.below k 0) side).symm ▸ hlt)
  rw [Draft.addNode, Graph.node, entry_eq_ok.2 hnode, draft_below_zero (k + 1),
    draft_below_zero k, nodesOf_below_succ hk, List.filterMap_append]
  simp only [Graph.addNode, hhandle, hput, List.filterMap_cons, hnode, List.filterMap_nil]
  rfl

/-! ### Copying an edge -/

/-- Once all nodes are there, an end of an edge is found on the side if it is on the
side at all. -/
theorem Within.draft_place (h : a.Within) (side : Side) (i j : EdgeId)
    (hn : n < a.graph.nodes.length) :
    ((a.belowEdge j).draft side).place side i n =
      if n ∈ (a.part side).nodes then .ok (a.localNode side n)
      else .error (.refused (.endOutsideSide i side)) := by
  have hiff : n ∈ ((a.belowEdge j).part side).nodes ↔ n ∈ (a.part side).nodes :=
    mem_nodes_below.trans (and_iff_left hn)
  rw [Draft.place, entry_eq_ok.2 (getElem?_places (a := a.belowEdge j) side hn),
    h.localNode_belowEdge]
  by_cases hmem : n ∈ (a.part side).nodes
  · rw [if_pos (hiff.2 hmem), if_pos hmem]
    rfl
  · rw [if_neg (mt hiff.1 hmem), if_neg hmem]
    rfl

/-- What the next edge of a side adds to it. -/
theorem Within.draft_belowEdge_succ (h : a.Within) (he : a.graph.edge? j = some e)
    (hj : j ∈ (a.part side).edges) :
    (a.belowEdge (j + 1)).draft side =
      ((a.belowEdge j).draft side).withEdge j (a.localEdge side e) := by
  -- The nodes are all there, so only what is read off the edges changes.
  have hnodes : ((a.belowEdge (j + 1)).sideGraph side).nodes =
      ((a.belowEdge j).sideGraph side).nodes := by
    cases side with
    | lhs => rfl
    | rhs => rfl
  have hplaces : ((a.belowEdge (j + 1)).draft side).places =
      ((a.belowEdge j).draft side).places := by
    cases side with
    | lhs => rfl
    | rhs => rfl
  have hedges := h.edges_belowEdge_succ he hj
  have hgraph : (a.belowEdge (j + 1)).sideGraph side =
      ⟨((a.belowEdge j).sideGraph side).nodes,
        ((a.belowEdge j).sideGraph side).edges ++ [a.localEdge side e], []⟩ :=
    congrArg₂ (fun ns es => (⟨ns, es, []⟩ : Graph)) hnodes hedges
  have horigin : (a.belowEdge (j + 1)).origin side =
      ⟨((a.belowEdge j).origin side).nodes, ((a.belowEdge j).origin side).edges ++ [[j]]⟩ := by
    rw [origin, edgesOf_belowEdge_succ hj, List.map_append, h.nodesOf_belowEdge,
      ← h.nodesOf_belowEdge side j]
    rfl
  have hlabels : filed ((a.belowEdge (j + 1)).sideGraph side).edges =
      filed ((a.belowEdge j).sideGraph side).edges ++
        (e.effective.map (·, ((a.belowEdge j).sideGraph side).edges.length)).toList := by
    rw [hedges, filed_concat]
    rfl
  show Draft.mk _ _ _ _ = Draft.mk _ _ _ _
  rw [Draft.mk.injEq]
  exact ⟨hgraph, hplaces, horigin, hlabels⟩

/-- A label is filed when an edge of the side with a lower handle has it. -/
theorem mem_labels_belowEdge {label : String} :
    label ∈ ((a.belowEdge j).draft side).labels.map (·.1) ↔ label ∈ a.labelsBefore side j := by
  -- Both sides say that an earlier edge on this side has the label.
  show label ∈ (filed _).map (·.1) ↔ _
  rw [map_fst_filed, mem_labelsBefore, List.mem_filterMap]
  constructor
  · intro h
    obtain ⟨f, hf, hlabel⟩ := h
    obtain ⟨e, he, rfl⟩ := List.mem_map.1 hf
    obtain ⟨i, hi, hget⟩ := List.mem_filterMap.1 he
    rw [belowEdge, edgesOf_below, IdSet.mem_toList, IdSet.mem_below] at hi
    exact ⟨i, hi.2, hi.1, Graph.edgeLabel?_eq_some.2 ⟨e, hget, hlabel⟩⟩
  · intro h
    obtain ⟨i, hlt, hi, hlabel⟩ := h
    obtain ⟨e, hget, heff⟩ := Graph.edgeLabel?_eq_some.1 hlabel
    refine ⟨_, List.mem_map.2 ⟨e, List.mem_filterMap.2 ⟨i, ?_, hget⟩, rfl⟩, heff⟩
    rw [belowEdge, edgesOf_below, IdSet.mem_toList, IdSet.mem_below]
    exact ⟨hi, hlt⟩

/-- An edge of a side is copied to it, or refused for what is wrong with it there. -/
theorem Within.draft_addEdge (h : a.Within) (he : a.graph.edge? j = some e)
    (hj : j ∈ (a.part side).edges) :
    ((a.belowEdge j).draft side).addEdge a.graph side j =
      match a.placementError? side e j with
      | some err => .error (.refused err)
      | none => .ok ((a.belowEdge (j + 1)).draft side) := by
  -- The tail is looked up first, then the head, and only then the label.
  obtain ⟨htail, hhead⟩ := h.valid.ends_of_edge? he
  rw [Draft.addEdge, Graph.edge, entry_eq_ok.2 he]
  show (((a.belowEdge j).draft side).place side j e.tail >>= _) = _
  rw [h.draft_place side j j htail]
  by_cases hends : a.EndsOn side e
  · have hadd : ((a.belowEdge j).draft side).graph.addEdge (a.localEdge side e) =
        .ok (_, _) := Graph.addEdge_eq_ok_iff.2
      ⟨⟨h.localNode_lt_belowEdge hends.1, h.localNode_lt_belowEdge hends.2⟩, rfl, rfl⟩
    rw [if_pos hends.1]
    show (((a.belowEdge j).draft side).place side j e.head >>= _) = _
    rw [h.draft_place side j j hhead, if_pos hends.2]
    show (orFault (((a.belowEdge j).draft side).graph.addEdge (a.localEdge side e)) >>= _) = _
    rw [hadd]
    by_cases hrepeat : ∃ label, e.effective = some label ∧ label ∈ a.labelsBefore side j
    · obtain ⟨label, heff, hbefore⟩ := hrepeat
      rw [placementError?_eq_some_iff.2 (.inr ⟨hends, label, heff, hbefore, rfl⟩)]
      show Draft.file _ side _ e.effective = _
      rw [heff]
      exact if_pos (mem_labels_belowEdge.2 hbefore)
    · have hfresh : ∀ label, e.effective = some label → label ∉ a.labelsBefore side j :=
        fun label heff hbefore => hrepeat ⟨label, heff, hbefore⟩
      rw [placementError?_eq_none.2 ⟨hends, hfresh⟩, h.draft_belowEdge_succ he hj]
      exact Draft.file_eq_ok (e := a.localEdge side e) fun label heff =>
        mt mem_labels_belowEdge.1 (hfresh label heff)
  · rw [placementError?_eq_some_iff.2 (.inl ⟨hends, rfl⟩)]
    by_cases ht : e.tail ∈ (a.part side).nodes
    · rw [if_pos ht]
      show (((a.belowEdge j).draft side).place side j e.head >>= _) = _
      rw [h.draft_place side j j hhead, if_neg fun hh => hends ⟨ht, hh⟩]
      rfl
    · rw [if_neg ht]
      rfl

end Annotated

end DoublePushout
