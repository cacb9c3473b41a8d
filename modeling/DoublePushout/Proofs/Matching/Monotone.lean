import DoublePushout.Proofs.Graph.Growth
import DoublePushout.Proofs.Matching.Exactness
import Mathlib.Data.List.Sort

/-!
# `DoublePushout.Proofs.Matching.Monotone`: more target and less pattern keep every match

A match places a pattern in a target and asks nothing of the rest of the target: an occurrence
need not be induced. So nothing that is found is lost when the target grows, or when the pattern
is relaxed by leaving out edges and labels. The two searches may look at candidates that the first
one never had, and check edges at other moments. What they find in common still comes in the same
order, because both orders are the lexicographic one.

* `Occurs.mono`: an occurrence stays one.
* `Query.Keeps` says that one list of matches is kept in another: the images are a sublist, and
  every pattern edge that is left is realised by the edges that realised it, perhaps followed by
  new ones. `exists_keeps` says when two searches have such lists.
* `findAll_monotone`: the three comparisons, with the target grown by any additions.
-/

set_option autoImplicit false

namespace DoublePushout

/-- The second pattern has the nodes of the first, some of them without their label, and some of
its edges. -/
structure Graph.Relaxes (p p' : Graph) : Prop where
  /-- A node keeps its name, and its label unless that is cleared. -/
  nodes : List.Forall₂ (fun n n' : Node =>
    n'.name = n.name ∧ (n'.label = n.label ∨ n'.effective = none)) p.nodes p'.nodes
  /-- The edges that are left keep their order. -/
  edges : p'.edges.Sublist p.edges

namespace Graph.Relaxes

variable {p p' : Graph}

/-- A pattern relaxes to itself. -/
theorem refl (p : Graph) : p.Relaxes p :=
  ⟨List.forall₂_same.2 fun _ _ => ⟨rfl, .inl rfl⟩, .refl _⟩

/-- A relaxed pattern has the same nodes, but for their labels. -/
theorem length_nodes (h : p.Relaxes p') : p.nodes.length = p'.nodes.length := h.nodes.length_eq

/-- A node of the relaxed pattern admits what the node admits. -/
theorem admits (h : p.Relaxes p') {i : NodeId} {n' : Node} (hn' : p'.node? i = some n') :
    ∃ n, p.node? i = some n ∧ ∀ t, n.admits t = true → n'.admits t = true := by
  obtain ⟨n, hn, -, hlabel⟩ := forall₂_getElem? h.nodes.flip hn'
  refine ⟨n, hn, fun t hadmits => ?_⟩
  cases hlabel with
  | inl hsame =>
    have heffective : n'.effective = n.effective := congrArg DoublePushout.effective hsame
    rwa [Node.admits, heffective]
  | inr hnone => simp [Node.admits, hnone]

end Graph.Relaxes

namespace Query

variable {q q' : Query} {images : List NodeId}

/-- The second query asks for less: it searches an extended target for a relaxed pattern. -/
structure Eases (q q' : Query) : Prop where
  pattern : q.pattern.Relaxes q'.pattern
  target : q.target.Extends q'.target
  injective : q'.injective = q.injective

/-- An occurrence stays one when less is asked for. -/
theorem Occurs.mono (h : q.Occurs images) (hq : q.Eases q') : q'.Occurs images where
  length_eq := h.length_eq.trans hq.pattern.length_nodes
  node i n' hn' := by
    obtain ⟨n, hn, hadmits⟩ := hq.pattern.admits hn'
    obtain ⟨image, t, himage, ht, ht'⟩ := h.node i n hn
    exact ⟨image, t, himage, hq.target.node?_eq ht, hadmits t ht'⟩
  edge e he := by
    obtain ⟨tail, head, htail, hhead, hadj⟩ := h.edge e (hq.pattern.edges.subset he)
    refine ⟨tail, head, htail, hhead, ?_⟩
    rw [Graph.adjacent_eq_true] at hadj ⊢
    exact fun hnil => hadj (List.prefix_nil.1 (hnil ▸ hq.target.edgesBetween_prefix tail head))
  distinct hinj := h.distinct (hq.injective ▸ hinj)

/-- Each match of the first list is kept in the second: its images come in the same order, and a
pattern edge that is left is realised by the same edges, perhaps followed by others. -/
structure Keeps (p p' : Graph) (ms ms' : List Mapping) : Prop where
  images : (ms.map (·.nodes)).Sublist (ms'.map (·.nodes))
  edges : ∀ m ∈ ms, ∃ m' ∈ ms', m'.nodes = m.nodes ∧ ∀ i j e, p.edge? i = some e →
    p'.edge? j = some e → ∃ es es', m.edges[i]? = some es ∧ m'.edges[j]? = some es' ∧ es <+: es'

/-- The realisations of an edge at an occurrence are the first ones when less is asked for. -/
theorem realisations_prefix (h : q.Occurs images) (hq : q.Eases q') {i j : EdgeId} {e : Edge}
    (hi : q.pattern.edge? i = some e) (hj : q'.pattern.edge? j = some e) :
    ∃ es es', (q.matchAt images).edges[i]? = some es ∧
      (q'.matchAt images).edges[j]? = some es' ∧ es <+: es' := by
  obtain ⟨tail, head, htail, hhead, -⟩ := h.edge e (List.mem_of_getElem? hi)
  refine ⟨_, _, getElem?_matchAt_edges hi, getElem?_matchAt_edges hj, ?_⟩
  rw [realisations_eq htail hhead, realisations_eq htail hhead]
  exact hq.target.edgesBetween_prefix tail head

end Query

/-- Two searches, of which the second asks for less, both find lists of matches, and the second
keeps the first. -/
theorem exists_keeps {p p' t t' : Graph} (hp : p.Valid) (hne : p.nodes ≠ [])
    (hrelax : p.Relaxes p') (hextend : t.Extends t') (injective : Bool) :
    ∃ ms ms', (Query.of p t injective >>= Query.findAll) = .ok ms ∧
      (Query.of p' t' injective >>= Query.findAll) = .ok ms' ∧ Query.Keeps p p' ms ms' := by
  have hne' : p'.nodes ≠ [] := fun hnil => hne (List.length_eq_zero_iff.1
    (hrelax.length_nodes.trans (congrArg List.length hnil)))
  have hends' : ∀ e ∈ p'.edges, e.tail < p'.nodes.length ∧ e.head < p'.nodes.length := by
    rw [← hrelax.length_nodes]
    exact fun e he => hp.ends_lt e (hrelax.edges.subset he)
  let q : Query := { pattern := p, target := t, injective }
  let q' : Query := { pattern := p', target := t', injective }
  have hq : q.Eases q' := ⟨hrelax, hextend, rfl⟩
  obtain ⟨ms, hms, hsorted, hmem⟩ := exists_findAll t injective hne hp.ends_lt
  obtain ⟨ms', hms', hsorted', hmem'⟩ := exists_findAll t' injective hne' hends'
  simp only [Mapping.validate_eq_ok_iff] at hmem hmem'
  -- A match of the first search is its occurrence's match, and so is the one kept in the second.
  have hkept : ∀ m ∈ ms, q.Occurs m.nodes ∧ m = q.matchAt m.nodes ∧ q'.matchAt m.nodes ∈ ms' := by
    intro m hm
    obtain ⟨hembeds, hfull, hinj⟩ := (hmem m).1 hm
    have hocc : q.Occurs m.nodes := Query.occurs_of_embeds hembeds hinj
    have hocc' := hocc.mono hq
    exact ⟨hocc, Query.eq_matchAt hembeds hfull, (hmem' _).2
      ⟨Query.matchAt_embeds hocc', Query.matchAt_full hocc', hocc'.distinct⟩⟩
  refine ⟨ms, ms', bind_eq_ok.2 ⟨_, Query.of_eq_ok hne, hms⟩,
    bind_eq_ok.2 ⟨_, Query.of_eq_ok hne', hms'⟩, ?_, fun m hm => ?_⟩
  · have : Std.Irrefl (α := List NodeId) (· < ·) := ⟨List.lt_irrefl⟩
    have hsubset : ms.map (·.nodes) ⊆ ms'.map (·.nodes) := by
      intro images himages
      obtain ⟨m, hm, rfl⟩ := List.mem_map.1 himages
      exact List.mem_map.2 ⟨_, (hkept m hm).2.2, rfl⟩
    exact List.sublist_of_subperm_of_pairwise
      (List.subperm_of_subset hsorted.nodup hsubset) hsorted hsorted'
  · obtain ⟨hocc, heq, hmem⟩ := hkept m hm
    refine ⟨_, hmem, rfl, fun i j e hi hj => ?_⟩
    have hrealised := Query.realisations_prefix hocc hq hi hj
    rwa [← heq] at hrealised

/-- Whatever is added to the target, and whatever edges and labels are left out of the pattern,
the search finds what it found before, in the same order, and perhaps more. A pattern edge is
realised by the edges that realised it, perhaps followed by new ones. -/
theorem findAll_monotone {p p' : Graph} (t : Graph) (additions : List Addition) (injective : Bool)
    (hp : p.validate = .ok ()) (hne : p.nodes ≠ []) (hrelax : p.Relaxes p') :
    ∃ ms, (Query.of p t injective >>= Query.findAll) = .ok ms ∧
      (∃ ms', (Query.of p (t.addAll additions) injective >>= Query.findAll) = .ok ms' ∧
        Query.Keeps p p ms ms') ∧
      (∃ ms', (Query.of p' t injective >>= Query.findAll) = .ok ms' ∧ Query.Keeps p p' ms ms') ∧
      ∃ ms', (Query.of p' (t.addAll additions) injective >>= Query.findAll) = .ok ms' ∧
        Query.Keeps p p' ms ms' := by
  have hvalid := Graph.validate_eq_ok_iff.1 hp
  have hgrown := t.extends_addAll additions
  obtain ⟨ms, grown, hms, hgrownms, hkeeps⟩ := exists_keeps hvalid hne (.refl p) hgrown injective
  -- The search for the pattern in the target is one and the same in the other two comparisons.
  obtain ⟨ms₁, relaxed, hms₁, hrelaxedms, hkeeps₁⟩ :=
    exists_keeps hvalid hne hrelax (.refl t) injective
  obtain ⟨ms₂, both, hms₂, hbothms, hkeeps₂⟩ := exists_keeps hvalid hne hrelax hgrown injective
  obtain rfl : ms = ms₁ := Except.ok.inj (hms.symm.trans hms₁)
  obtain rfl : ms = ms₂ := Except.ok.inj (hms.symm.trans hms₂)
  exact ⟨ms, hms, ⟨grown, hgrownms, hkeeps⟩, ⟨relaxed, hrelaxedms, hkeeps₁⟩, both, hbothms,
    hkeeps₂⟩

/-- A labelled node that leads to a node with a loop. -/
def tetherPattern : Graph where
  nodes := [{ name := "p", label := some "x" }, { name := "q" }]
  edges := [{ tail := 0, head := 1 }, { tail := 1, head := 1 }]

/-- The same without the label and without the first edge. -/
def tetherRelaxed : Graph where
  nodes := [{ name := "p" }, { name := "q" }]
  edges := [{ tail := 1, head := 1 }]

/-- The second pattern asks for less than the first. -/
theorem tether_relaxes : tetherPattern.Relaxes tetherRelaxed where
  nodes := .cons ⟨rfl, .inr rfl⟩ (.cons ⟨rfl, .inl rfl⟩ .nil)
  edges := .cons _ (.refl _)

/-- A target with one place for the pattern. -/
def tetherTarget : Graph where
  nodes := [{ name := "a", label := some "x" }, { name := "b", label := some "y" }]
  edges := [{ tail := 0, head := 1 }, { tail := 1, head := 1 }]

/-- A second place for the pattern's first node, a parallel edge, and an edge that is refused. -/
def tetherAdditions : List Addition :=
  [.edge { tail := 0, head := 1 }, .node { name := "c", label := some "x" },
    .edge { tail := 2, head := 1 }, .edge { tail := 5, head := 0 }]

/-- A search that finds more when a node, a parallel edge and an edge are added to its target. -/
theorem findAll_monotone_tether :
    tetherPattern.validate = .ok () ∧ tetherPattern.nodes ≠ [] ∧
    tetherPattern.Relaxes tetherRelaxed ∧
    ∃ ms, (Query.of tetherPattern tetherTarget false >>= Query.findAll) = .ok ms ∧
      (∃ ms', (Query.of tetherPattern (tetherTarget.addAll tetherAdditions) false >>=
          Query.findAll) = .ok ms' ∧ Query.Keeps tetherPattern tetherPattern ms ms') ∧
      (∃ ms', (Query.of tetherRelaxed tetherTarget false >>= Query.findAll) = .ok ms' ∧
        Query.Keeps tetherPattern tetherRelaxed ms ms') ∧
      ∃ ms', (Query.of tetherRelaxed (tetherTarget.addAll tetherAdditions) false >>=
          Query.findAll) = .ok ms' ∧ Query.Keeps tetherPattern tetherRelaxed ms ms' :=
  have hp : tetherPattern.validate = .ok () := by decide
  have hne : tetherPattern.nodes ≠ [] := by decide
  ⟨hp, hne, tether_relaxes,
    findAll_monotone tetherTarget tetherAdditions false hp hne tether_relaxes⟩

example : (Query.of tetherPattern tetherTarget false >>= Query.findAll) =
    .ok [⟨[0, 1], [[0], [1]]⟩] := by cbv

example : (Query.of tetherPattern (tetherTarget.addAll tetherAdditions) false >>= Query.findAll) =
    .ok [⟨[0, 1], [[0, 2], [1]]⟩, ⟨[2, 1], [[3], [1]]⟩] := by cbv

end DoublePushout
