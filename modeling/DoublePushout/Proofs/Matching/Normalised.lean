import DoublePushout.Proofs.Graph.Normalised
import DoublePushout.Proofs.Steps
import DoublePushout.Rewriting

/-!
# `DoublePushout.Proofs.Matching.Normalised`: matching without empty labels

Neither the check of a mapping nor the search for matches can tell a graph from its normalised
form. For the check it is a matter of going through the same lists
(`Mapping.validate_normalised`). For the search, `Query.Agrees` collects what it reads of a query.
Queries that agree take the same steps (`Agrees.step_eq`), so by induction over the search they
find the same matches (`Agrees.findAll_eq`).
-/

set_option autoImplicit false

namespace DoublePushout

/-! ### The check of a mapping -/

namespace Mapping

variable (m : Mapping) (s t : Graph)

/-- The check of a node sees no difference in a normalised target. -/
theorem checkNode_normalised (x : Node × NodeId) :
    m.checkNode t.normalised (Prod.map Node.normalised id x) = m.checkNode t x := by
  obtain ⟨n, i⟩ := x
  show m.checkNode t.normalised (n.normalised, i) = _
  rw [checkNode, checkNode]
  refine congrArg (orFault (m.node i) >>= ·) (funext fun image => ?_)
  rw [Graph.node?_normalised]
  cases t.node? image with
  | none => rfl
  | some t =>
    show (if n.normalised.admits t.normalised = true then _ else _) = _
    rw [Node.admits_normalised]

/-- Neither does the check of a realisation, since labels of edges are not compared. -/
theorem checkRealisation_normalised (i : EdgeId) (tail head : NodeId) :
    checkRealisation t.normalised i tail head = checkRealisation t i tail head := by
  funext image
  rw [checkRealisation, checkRealisation, Graph.edge?_normalised]
  cases t.edge? image with
  | none => rfl
  | some t => rfl

/-- Neither does the check of an edge. -/
theorem checkEdge_normalised (x : Edge × EdgeId) :
    m.checkEdge t.normalised (Prod.map Edge.plain id x) = m.checkEdge t x := by
  obtain ⟨e, i⟩ := x
  show m.checkEdge t.normalised (e.plain, i) = _
  simp only [checkEdge, checkRealisation_normalised]
  rfl

/-- The check of a mapping does not see empty labels. -/
theorem validate_normalised : m.validate s.normalised t.normalised = m.validate s t := by
  rw [validate, validate, Graph.length_nodes_normalised, Graph.length_edges_normalised,
    Graph.zipIdx_nodes_normalised, Graph.zipIdx_edges_normalised,
    forM_map_eq (m.checkNode_normalised t), forM_map_eq (m.checkEdge_normalised t)]

end Mapping

/-! ### The search -/

namespace Query

/-- What a search reads of two queries is the same. -/
structure Agrees (q q' : Query) : Prop where
  size_eq : q.pattern.nodes.length = q'.pattern.nodes.length
  start_eq : q.start = q'.start
  candidateEnd_eq : q.candidateEnd = q'.candidateEnd
  accepts_eq : q.accepts = q'.accepts
  matchAt_eq : q.matchAt = q'.matchAt
  /-- An edge that ends outside the pattern is found at the same place. -/
  outside_eq : (q.pattern.edges.find? fun e => q.pattern.nodes.length ≤ max e.tail e.head).map
      (fun e => max e.tail e.head) =
    (q'.pattern.edges.find? fun e => q'.pattern.nodes.length ≤ max e.tail e.head).map
      fun e => max e.tail e.head

namespace Agrees

variable {q q' : Query}

/-- One step of the search is the same. -/
theorem step_eq (h : q.Agrees q') : q.step = q'.step := by
  funext stack
  cases stack with
  | nil => rfl
  | cons f fs => rw [step, step, h.candidateEnd_eq, h.accepts_eq, h.size_eq]

/-- The whole search is the same, from any stack on. -/
theorem collect_eq (h : q.Agrees q') (stack : List Frame) (found : List (List NodeId)) :
    q.collect stack found = q'.collect stack found := by
  -- The induction goes along the search of `q`, and every step of it is also one of `q'`.
  fun_induction collect q stack found with
  | case1 stack found hstep =>
    rw [h.step_eq] at hstep
    rw [collect]
    split <;> simp_all
  | case2 stack found stack' hstep ih =>
    rw [h.step_eq] at hstep
    rw [ih, eq_comm, collect]
    split <;> simp_all
  | case3 stack found images stack' hstep ih =>
    rw [h.step_eq] at hstep
    rw [ih, eq_comm, collect]
    split <;> simp_all

/-- Queries that agree find the same matches. -/
theorem findAll_eq (h : q.Agrees q') : q.findAll = q'.findAll := by
  -- Before the first step a search faults at an edge that ends outside the pattern.
  have houtside := h.outside_eq
  rw [findAll, findAll, Matches.start, Matches.start]
  cases hfind : q.pattern.edges.find? fun e => q.pattern.nodes.length ≤ max e.tail e.head with
  | none =>
    rw [hfind] at houtside
    rw [Option.map_eq_none_iff.1 houtside.symm]
    show Except.ok ((q.collect [⟨[], q.start⟩] []).map q.matchAt) =
      Except.ok ((q'.collect [⟨[], q'.start⟩] []).map q'.matchAt)
    rw [h.collect_eq, h.start_eq, h.matchAt_eq]
  | some e =>
    rw [hfind] at houtside
    obtain ⟨e', hfind', heq⟩ := Option.map_eq_some_iff.1 houtside.symm
    rw [hfind', h.size_eq]
    show Except.error (Fault.outOfRange _ (max e.tail e.head)) =
      Except.error (Fault.outOfRange _ (max e'.tail e'.head))
    rw [heq]

end Agrees

/-- The query with its two graphs normalised. -/
def normalised (q : Query) : Query where
  pattern := q.pattern.normalised
  target := q.target.normalised
  injective := q.injective
  start := q.start
  stop := q.stop

/-- A candidate is admitted regardless of how the labels are spelt. -/
theorem admits_normalised (q : Query) : q.normalised.admits = q.admits := by
  funext position candidate
  have hp : q.normalised.pattern.node? position = _ := q.pattern.node?_normalised position
  have ht : q.normalised.target.node? candidate = _ := q.target.node?_normalised candidate
  simp only [admits, Index.node?_eq, hp, ht]
  cases q.pattern.node? position with
  | none => rfl
  | some p =>
    cases q.target.node? candidate with
    | none => rfl
    | some t => exact p.admits_normalised t

/-- A pattern edge is realised by the same images, since adjacency goes by the labels that
count. -/
theorem realises_normalised (q : Query) (images : List NodeId) (e : Edge) :
    q.normalised.realises images e.plain = q.realises images e := by
  simp only [realises, Index.adjacent_eq, Edge.tail_plain, Edge.head_plain]
  cases images[e.tail]? with
  | none => rfl
  | some tail =>
    cases images[e.head]? with
    | none => rfl
    | some head => exact q.target.adjacent_normalised tail head

/-- Nor does normalising change which target edges realise it. -/
theorem realisations_normalised (q : Query) (images : List NodeId) (e : Edge) :
    q.normalised.realisations images e.plain = q.realisations images e := by
  simp only [realisations, Index.edgesBetween_eq, Edge.tail_plain, Edge.head_plain]
  cases images[e.tail]? with
  | none => rfl
  | some tail =>
    cases images[e.head]? with
    | none => rfl
    | some head => exact q.target.edgesBetween_normalised tail head

/-- The edges that a position closes are the same ones, normalised. -/
theorem edgesClosedAt_normalised (q : Query) (position : Nat) :
    q.normalised.edgesClosedAt position = (q.edgesClosedAt position).map Edge.plain := by
  rw [edgesClosedAt, edgesClosedAt]
  exact List.filter_map

/-- A normalised query agrees with the query. -/
theorem normalised_agrees (q : Query) : q.normalised.Agrees q where
  size_eq := Graph.length_nodes_normalised _
  start_eq := rfl
  candidateEnd_eq := by
    funext position
    simp only [candidateEnd, Index.size_eq]
    rw [show q.normalised.target.nodes.length = q.target.nodes.length from
      Graph.length_nodes_normalised _]
    rfl
  accepts_eq := by
    funext assigned candidate
    rw [accepts, accepts, admits_normalised, edgesClosedAt_normalised, List.all_map]
    refine congrArg (_ && ·) (congrArg (List.all _) (funext fun e => ?_))
    exact q.realises_normalised _ e
  matchAt_eq := by
    funext images
    rw [matchAt, matchAt]
    show (⟨images, (q.pattern.edges.map Edge.plain).map _⟩ : Mapping) = _
    rw [List.map_map]
    refine congrArg (Mapping.mk images) (List.map_congr_left fun e _ => ?_)
    exact q.realisations_normalised images e
  outside_eq := by
    -- Normalising moves no end, so the first edge with one outside is still the first.
    have hsize : q.normalised.pattern.nodes.length = q.pattern.nodes.length :=
      q.pattern.length_nodes_normalised
    rw [hsize]
    show ((q.pattern.edges.map Edge.plain).find? _).map _ = _
    rw [List.find?_map, Option.map_map]
    rfl

end Query

namespace SearchOptions

variable (o : SearchOptions) (pattern target : Graph)

/-- A search among normalised graphs is the normalised search. -/
theorem query_normalised : o.query pattern.normalised target.normalised =
    (o.query pattern target).map Query.normalised := by
  have hempty : pattern.normalised.nodes.isEmpty = pattern.nodes.isEmpty := List.isEmpty_map
  have hof : Query.of pattern.normalised target.normalised o.injective =
      (Query.of pattern target o.injective).map Query.normalised := by
    rw [Query.of, Query.of, hempty, Graph.length_nodes_normalised]
    split
    · rfl
    · rfl
  rw [query, hof, query]
  cases Query.of pattern target o.injective with
  | error x => rfl
  | ok q =>
    cases o.roots with
    | none => rfl
    | some range =>
      have hsize : q.normalised.index.size = q.index.size := by
        rw [Index.size_eq, Index.size_eq]
        exact q.target.length_nodes_normalised
      show Except.ok (q.normalised.withRoots range.1 range.2) =
        Except.ok (q.withRoots range.1 range.2).normalised
      rw [Query.withRoots, hsize]
      rfl

/-- The search for matches does not see empty labels. -/
theorem findAll_normalised : (o.query pattern.normalised target.normalised >>= Query.findAll) =
    (o.query pattern target >>= Query.findAll) := by
  rw [query_normalised]
  cases o.query pattern target with
  | error x => rfl
  | ok q => exact q.normalised_agrees.findAll_eq

end SearchOptions

end DoublePushout
