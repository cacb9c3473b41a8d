import DoublePushout.Proofs.Embedding
import DoublePushout.Proofs.Graph.Growth
import DoublePushout.Proofs.Matching.Reads

/-!
# `DoublePushout.Proofs.Matching.Exactness`: the matches of a query

`Query.findAll` gives the matches that a search finds one after the other. This module says which
mappings they are, in terms of the check of a mapping and of the graphs alone.

* `matchAt_embeds`: the match at an occurrence is an embedding that realises every edge in full.
* `eq_matchAt`: an embedding that realises every edge in full is the match at its own images, so a
  search that comes by the images finds this very mapping.
* `findAll_exact`: the matches of a query, in lexicographic order, are the embeddings that realise
  every edge in full, those with distinct images only if the query asks for that. The search reads
  no table outside it. The target may be any graph, the pattern any with a node whose edges end
  inside it.
-/

set_option autoImplicit false

namespace DoublePushout

/-- The mapping realises every edge of the source by all edges of the target between the images of
its ends. -/
def Mapping.Full (m : Mapping) (source target : Graph) : Prop :=
  ∀ i e, source.edge? i = some e → ∃ tail head, m.node e.tail = .ok tail ∧
    m.node e.head = .ok head ∧ m.edge i = .ok (target.edgesBetween tail head)

namespace Query

variable {q : Query} {images : List NodeId}

/-! ### The match at an image list -/

/-- The realisations of an edge are the edges between the images of its ends. -/
theorem realisations_eq {e : Edge} {tail head : NodeId} (htail : images[e.tail]? = some tail)
    (hhead : images[e.head]? = some head) :
    q.realisations images e = q.target.edgesBetween tail head := by
  simp [realisations, htail, hhead]

/-- The match at an image list has all realisations of each edge. -/
theorem getElem?_matchAt_edges {i : EdgeId} {e : Edge} (he : q.pattern.edge? i = some e) :
    (q.matchAt images).edges[i]? = some (q.realisations images e) := by
  rw [matchAt, List.getElem?_map]
  exact congrArg (Option.map _) he

/-- An occurrence is the node table of an embedding. -/
theorem matchAt_embeds (h : q.Occurs images) :
    (q.matchAt images).Embeds q.pattern q.target where
  nodes_length := h.length_eq
  edges_length := by simp [matchAt]
  node := h.node
  edge := by
    intro i e he
    obtain ⟨tail, head, htail, hhead, hadj⟩ := h.edge e (List.mem_of_getElem? he)
    refine ⟨tail, head, _, htail, hhead, getElem?_matchAt_edges he, ?_, ?_⟩
    · rw [realisations_eq htail hhead]
      exact Graph.adjacent_eq_true.1 hadj
    · rw [realisations_eq htail hhead]
      exact fun j hj => Graph.mem_edgesBetween.1 hj

/-- The match at an occurrence leaves no realisation out. -/
theorem matchAt_full (h : q.Occurs images) : (q.matchAt images).Full q.pattern q.target := by
  intro i e he
  obtain ⟨tail, head, htail, hhead, -⟩ := h.edge e (List.mem_of_getElem? he)
  refine ⟨tail, head, Mapping.node_eq_ok.2 htail, Mapping.node_eq_ok.2 hhead, ?_⟩
  rw [Mapping.edge_eq_ok, getElem?_matchAt_edges he, realisations_eq htail hhead]

/-- The images of an embedding are an occurrence. -/
theorem occurs_of_embeds {m : Mapping} (h : m.Embeds q.pattern q.target)
    (hinj : q.injective = true → m.Injective) : q.Occurs m.nodes where
  length_eq := h.nodes_length
  node := h.node
  edge := by
    intro e he
    obtain ⟨i, hi⟩ := List.getElem?_of_mem he
    obtain ⟨tail, head, realisers, hr⟩ := h.edge i e hi
    obtain ⟨j, hj⟩ := List.exists_mem_of_ne_nil _ hr.ne_nil
    refine ⟨tail, head, hr.tail_eq, hr.head_eq, Graph.adjacent_eq_true.2 ?_⟩
    exact List.ne_nil_of_mem (Graph.mem_edgesBetween.2 (hr.joins j hj))
  distinct := hinj

/-- An embedding that realises every edge in full is the match at its own images. -/
theorem eq_matchAt {m : Mapping} (h : m.Embeds q.pattern q.target)
    (hfull : m.Full q.pattern q.target) : m = q.matchAt m.nodes := by
  have hedges : m.edges = q.pattern.edges.map (q.realisations m.nodes) := by
    -- Past the pattern's edges both tables have ended.
    refine List.ext_getElem? fun i => ?_
    rcases Nat.lt_or_ge i q.pattern.edges.length with hi | hi
    · have he : q.pattern.edge? i = some q.pattern.edges[i] := List.getElem?_eq_getElem hi
      obtain ⟨tail, head, htail, hhead, hrealisers⟩ := hfull i _ he
      rw [Mapping.edge_eq_ok.1 hrealisers, List.getElem?_map, List.getElem?_eq_getElem hi,
        Option.map_some,
        realisations_eq (Mapping.node_eq_ok.1 htail) (Mapping.node_eq_ok.1 hhead)]
    · rw [List.getElem?_eq_none (h.edges_length ▸ hi), List.getElem?_eq_none (by simpa using hi)]
  exact congrArg (Mapping.mk m.nodes) hedges

/-! ### All matches -/

/-- A search for a pattern whose edges end inside it starts, with nothing placed. -/
theorem matches_start_eq (hclosed : q.Closed) : Matches.start q = .ok ⟨q, [⟨[], q.start⟩]⟩ := by
  have hnone :
      q.pattern.edges.find? (fun e => q.pattern.nodes.length ≤ max e.tail e.head) = none := by
    rw [List.find?_eq_none]
    intro e he
    have hlt : max e.tail e.head < q.pattern.nodes.length := Nat.max_lt.2 (hclosed e he)
    simpa using hlt
  rw [Matches.start, hnone]

/-- A search finds the matches at the images that its first stack leads to. -/
theorem findAll_eq (hclosed : q.Closed) :
    q.findAll = .ok ((q.remaining [⟨[], q.start⟩]).map q.matchAt) := by
  rw [findAll, matches_start_eq hclosed]
  rfl

/-- The matches of a query are the embeddings that realise every edge in full, with distinct
images if the query asks for that, and the first image in the query's range. -/
theorem mem_findAll (hne : q.pattern.nodes ≠ []) (hclosed : q.Closed) {ms : List Mapping}
    (hms : q.findAll = .ok ms) {m : Mapping} :
    m ∈ ms ↔ (∀ c, m.nodes[0]? = some c → q.start ≤ c ∧ c < q.stop) ∧
      m.Embeds q.pattern q.target ∧ m.Full q.pattern q.target ∧
        (q.injective = true → m.Injective) := by
  rw [findAll_eq hclosed] at hms
  cases hms
  rw [List.mem_map]
  constructor
  · rintro ⟨images, himages, rfl⟩
    obtain ⟨hrange, hocc⟩ := (mem_remaining_start hne hclosed).1 himages
    exact ⟨hrange, matchAt_embeds hocc, matchAt_full hocc, hocc.distinct⟩
  · rintro ⟨hrange, hembeds, hfull, hinj⟩
    exact ⟨m.nodes, (mem_remaining_start hne hclosed).2 ⟨hrange, occurs_of_embeds hembeds hinj⟩,
      (eq_matchAt hembeds hfull).symm⟩

/-- Matches are found in the lexicographic order of their node tables. -/
theorem findAll_pairwise (hne : q.pattern.nodes ≠ []) (hclosed : q.Closed) {ms : List Mapping}
    (hms : q.findAll = .ok ms) : (ms.map (·.nodes)).Pairwise (· < ·) := by
  rw [findAll_eq hclosed] at hms
  cases hms
  have himages : ((q.remaining [⟨[], q.start⟩]).map q.matchAt).map (·.nodes) =
      q.remaining [⟨[], q.start⟩] := by
    rw [List.map_map]
    exact List.map_id _
  rw [himages]
  exact remaining_start_pairwise hne

/-- A query for a pattern with a node ranges over the whole target. -/
theorem of_eq_ok {pattern target : Graph} {injective : Bool} (hne : pattern.nodes ≠ []) :
    Query.of pattern target injective = .ok { pattern, target, injective } := by
  rw [Query.of, if_neg (by simpa using hne)]

end Query

/-- The search of a whole target finds the mappings that pass the check, that realise every edge
in full, and that are injective if that was asked for, in lexicographic order of their images. -/
theorem exists_findAll {pattern : Graph} (target : Graph) (injective : Bool)
    (hne : pattern.nodes ≠ [])
    (hends : ∀ e ∈ pattern.edges,
      e.tail < pattern.nodes.length ∧ e.head < pattern.nodes.length) :
    ∃ ms, Query.findAll { pattern, target, injective } = .ok ms ∧
      (ms.map (·.nodes)).Pairwise (· < ·) ∧
      ∀ m, m ∈ ms ↔ m.validate pattern target = .ok () ∧ m.Full pattern target ∧
        (injective = true → m.Injective) := by
  let q : Query := { pattern, target, injective }
  have hclosed : q.Closed := hends
  have hms := Query.findAll_eq hclosed
  refine ⟨_, hms, Query.findAll_pairwise hne hclosed hms, fun m => ?_⟩
  rw [Query.mem_findAll hne hclosed hms, Mapping.validate_eq_ok_iff]
  constructor
  · exact fun ⟨_, h⟩ => h
  · intro h
    refine ⟨fun c hc => ⟨Nat.zero_le c, ?_⟩, h⟩
    -- The range is the whole target here, and the first image is a node of it.
    have hpos : 0 < pattern.nodes.length := List.length_pos_iff.2 hne
    obtain ⟨c', t, hc', ht, -⟩ := h.1.node 0 _ (List.getElem?_eq_getElem hpos)
    rw [hc] at hc'
    cases hc'
    exact (List.getElem?_eq_some_iff.1 ht).1

/-- The edges that realise an edge in full are in ascending order. -/
theorem Mapping.Full.realisers_pairwise {m : Mapping} {source target : Graph}
    (h : m.Full source target) (hlength : m.edges.length = source.edges.length)
    {realisers : List EdgeId} (hr : realisers ∈ m.edges) : realisers.Pairwise (· < ·) := by
  obtain ⟨i, hi⟩ := List.getElem?_of_mem hr
  have hlt : i < source.edges.length := hlength ▸ (List.getElem?_eq_some_iff.1 hi).1
  obtain ⟨tail, head, -, -, hedges⟩ := h i _ (List.getElem?_eq_getElem hlt)
  rw [Mapping.edge_eq_ok, hi] at hedges
  cases hedges
  exact Graph.edgesBetween_pairwise

/-- The search for a pattern with a node, whose edges end inside it, reads no table outside it and
finds a list of matches. They are in lexicographic order of their images, so none comes twice.
They are the mappings that pass the check, that realise every pattern edge by all target edges
between the images of its ends, in ascending order, and that are injective if that was asked for.
-/
theorem findAll_exact {pattern : Graph} (target : Graph) (injective : Bool)
    (hne : pattern.nodes ≠ [])
    (hends : ∀ e ∈ pattern.edges,
      e.tail < pattern.nodes.length ∧ e.head < pattern.nodes.length) :
    ∃ q ms, Query.of pattern target injective = .ok q ∧ q.ReadsInside ∧ q.findAll = .ok ms ∧
      (ms.map (·.nodes)).Pairwise (· < ·) ∧
      (∀ m ∈ ms, ∀ realisers ∈ m.edges, realisers.Pairwise (· < ·)) ∧
      ∀ m, m ∈ ms ↔ m.validate pattern target = .ok () ∧ m.Full pattern target ∧
        (injective = true → m.Injective) := by
  obtain ⟨ms, hms, hsorted, hmem⟩ := exists_findAll target injective hne hends
  refine ⟨_, ms, Query.of_eq_ok hne, Query.readsInside hne hends (Nat.le_refl _), hms, hsorted,
    fun m hm realisers hr => ?_, hmem⟩
  obtain ⟨hvalid, hfull, -⟩ := (hmem m).1 hm
  exact hfull.realisers_pairwise (Mapping.validate_eq_ok_iff.1 hvalid).edges_length hr

/-- A pattern with a loop: `p` leads to `q`, and `q` to itself. -/
def loopPattern : Graph where
  nodes := [{ name := "p" }, { name := "q" }]
  edges := [{ tail := 0, head := 1 }, { tail := 1, head := 1 }]

/-- A target with a loop, two parallel edges, and an edge that ends outside it. -/
def loopTarget : Graph where
  nodes := [{ name := "a", label := some "x" }, { name := "b", label := some "" }]
  edges := [{ tail := 0, head := 1 }, { tail := 1, head := 1 }, { tail := 0, head := 1 },
    { tail := 1, head := 7 }]

/-- A loop, parallel edges and an edge that ends outside the target do not disturb the search. -/
theorem findAll_exact_loop :
    loopPattern.nodes ≠ [] ∧
    (∀ e ∈ loopPattern.edges,
      e.tail < loopPattern.nodes.length ∧ e.head < loopPattern.nodes.length) ∧
    ∃ q ms, Query.of loopPattern loopTarget false = .ok q ∧ q.ReadsInside ∧ q.findAll = .ok ms ∧
      (ms.map (·.nodes)).Pairwise (· < ·) ∧
      (∀ m ∈ ms, ∀ realisers ∈ m.edges, realisers.Pairwise (· < ·)) ∧
      ∀ m, m ∈ ms ↔ m.validate loopPattern loopTarget = .ok () ∧ m.Full loopPattern loopTarget ∧
        (false = true → m.Injective) :=
  ⟨by decide, by decide, findAll_exact loopTarget false (by decide) (by decide)⟩

example : (Query.of loopPattern loopTarget false >>= Query.findAll) =
    .ok [⟨[0, 1], [[0, 2], [1]]⟩, ⟨[1, 1], [[1], [1]]⟩] := by cbv

end DoublePushout
