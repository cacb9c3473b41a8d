import DoublePushout.Proofs.Graph.Bundles
import DoublePushout.Proofs.Graph.Listing

/-!
# `DoublePushout.Proofs.Graph.Normalised`: graphs without empty labels

A label may be stored as the empty text, and then it counts as none. `Graph.normalised` is the
graph with every such label taken away: names, ends and subgraphs are kept. Whatever reads labels
through `effective` cannot tell the two apart, and the lemmas here say so for the ways in which a
graph is read: its elements (`node?_normalised`, `edge?_normalised`), its check
(`validate_normalised`), and its views as a digraph (`bundled_normalised`).

`isIsomorphic_normalised` follows: a valid graph is isomorphic to its normalised form. The search
need not be followed for that. Both sides are one digraph, and `Digraph.isomorphic_self` places
each of its nodes on itself.
-/

set_option autoImplicit false

namespace DoublePushout

/-! ### Elements -/

/-- The node with the label that counts. -/
def Node.normalised (n : Node) : Node := { n with label := n.effective }

/-- Normalising a node keeps its label as far as it counts. -/
@[simp] theorem Node.effective_normalised (n : Node) : n.normalised.effective = n.effective :=
  effective_effective

/-- Normalised nodes admit each other as the nodes do. -/
@[simp] theorem Node.admits_normalised (n t : Node) :
    n.normalised.admits t.normalised = n.admits t := by
  simp [admits]

/-- Dropping a blank label keeps the label of an edge as far as it counts. -/
@[simp] theorem Edge.effective_plain (e : Edge) : e.plain.effective = e.effective :=
  effective_effective

/-- It keeps what the edge joins. -/
@[simp] theorem Edge.joins_plain (e : Edge) (tail head : NodeId) :
    e.plain.joins tail head = e.joins tail head := rfl

/-- It keeps the tail of the edge. -/
@[simp] theorem Edge.tail_plain (e : Edge) : e.plain.tail = e.tail := rfl

/-- It keeps the head of the edge. -/
@[simp] theorem Edge.head_plain (e : Edge) : e.plain.head = e.head := rfl

/-- It keeps both ends of the edge. -/
@[simp] theorem Edge.ends_plain (e : Edge) : e.plain.ends = e.ends := rfl

/-- The label that counts differs from the stored one only where that is empty. -/
theorem effective_eq_self_iff {label : Option String} :
    effective label = label ↔ label ≠ some "" := by
  cases label with
  | none => simp
  | some text => by_cases h : text = "" <;> simp [effective, Option.filter, h]

namespace Graph

/-! ### The normalised graph -/

/-- The graph with every empty label taken away. -/
def normalised (g : Graph) : Graph where
  nodes := g.nodes.map Node.normalised
  edges := g.edges.map Edge.plain
  subgraphs := g.subgraphs

section Read
variable (g : Graph)

/-- A normalised graph has as many nodes. -/
@[simp] theorem length_nodes_normalised : g.normalised.nodes.length = g.nodes.length :=
  List.length_map _

/-- A normalised graph has as many edges. -/
@[simp] theorem length_edges_normalised : g.normalised.edges.length = g.edges.length :=
  List.length_map _

/-- A normalised graph has the same handles for its nodes. -/
@[simp] theorem nodeIds_normalised : g.normalised.nodeIds = g.nodeIds :=
  congrArg List.range g.length_nodes_normalised

/-- A normalised graph has the same handles for its edges. -/
@[simp] theorem edgeIds_normalised : g.normalised.edgeIds = g.edgeIds :=
  congrArg List.range g.length_edges_normalised

/-- The nodes of a normalised graph are the normalised nodes. -/
@[simp] theorem node?_normalised (n : NodeId) :
    g.normalised.node? n = (g.node? n).map Node.normalised := List.getElem?_map

/-- The edges of a normalised graph are the edges without blank labels. -/
@[simp] theorem edge?_normalised (e : EdgeId) :
    g.normalised.edge? e = (g.edge? e).map Edge.plain := List.getElem?_map

/-- The numbered edges are those of the graph, normalised. -/
theorem zipIdx_edges_normalised :
    g.normalised.edges.zipIdx = g.edges.zipIdx.map (Prod.map Edge.plain id) :=
  List.zipIdx_map

/-- Normalising keeps the numbers of the nodes. -/
theorem zipIdx_nodes_normalised :
    g.normalised.nodes.zipIdx = g.nodes.zipIdx.map (Prod.map Node.normalised id) :=
  List.zipIdx_map

/-- A normalised graph has the same edges between two nodes. -/
@[simp] theorem edgesBetween_normalised (tail head : NodeId) :
    g.normalised.edgesBetween tail head = g.edgesBetween tail head := by
  rw [edgesBetween, zipIdx_edges_normalised, List.filterMap_map]
  rfl

/-- The same nodes are joined in a normalised graph. -/
@[simp] theorem adjacent_normalised (tail head : NodeId) :
    g.normalised.adjacent tail head = g.adjacent tail head := by
  rw [adjacent, normalised, List.any_map]
  rfl

/-- The check of a graph reads no labels. -/
@[simp] theorem validate_normalised : g.normalised.validate = g.validate := by
  have hnode : g.normalised.hasNode = g.hasNode := by
    funext n
    rw [hasNode, length_nodes_normalised, hasNode]
  have hedge : g.normalised.hasEdge = g.hasEdge := by
    funext e
    rw [hasEdge, length_edges_normalised, hasEdge]
  have hends : g.normalised.endpointError? ∘ Prod.map Edge.plain id = g.endpointError? := by
    funext x
    rw [Function.comp_apply, endpointError?, hnode]
    rfl
  have hmember : g.normalised.memberError? = g.memberError? := by
    funext s
    rw [memberError?, hnode, hedge, memberError?]
  have hfirst : g.normalised.firstError? = g.firstError? := by
    rw [firstError?, zipIdx_edges_normalised, List.findSome?_map, hends, hmember]
    rfl
  rw [validate, hfirst, validate]

/-- The bundled view has only the labels that count. -/
@[simp] theorem bundled_normalised : g.normalised.bundled = g.bundled := by
  have hlabels : g.normalised.nodeLabels = g.nodeLabels := by
    rw [nodeLabels, normalised, List.map_map]
    exact List.map_congr_left fun n _ => n.effective_normalised
  have hbundle : g.normalised.bundle = g.bundle := by
    funext tail head
    rw [bundle, normalised, List.filter_map, List.map_map]
    refine congrArg (List.mergeSort · labelLe) (List.map_congr_left fun e _ => e.effective_plain)
  have hpairs : g.normalised.joinedPairs = g.joinedPairs := by
    rw [joinedPairs, normalised, List.map_map]
    rfl
  rw [bundled, hlabels, hbundle, hpairs, bundled]

end Read

end Graph

/-! ### A digraph and itself -/

namespace Survey

variable {α : Type} [DecidableEq α] {s : Survey α}

/-- Where the nodes placed so far are placed on themselves, a node fits its own place. -/
theorem fits_self {placed : List (Nat × Nat)} {n : Nat} (hn : n < s.stars.size)
    (hplaced : ∀ p ∈ placed, p.1 = p.2) : s.fits s placed n n = true := by
  have hlinks : s.stars[n].keepsLinks s.stars[n] placed = true := by
    rw [Star.keepsLinks, List.all_eq_true]
    rintro ⟨m, d⟩ hmem
    obtain rfl : m = d := hplaced _ hmem
    simp
  rw [fits, Array.getElem?_eq_getElem hn]
  simp [Star.resembles, hlinks]

/-- Nodes that are free can be placed on themselves, beside nodes that are placed so. -/
theorem extends?_self (ns : List Nat) : ∀ (free : List Nat) (placed : List (Nat × Nat)),
    ns.Nodup → (∀ n ∈ ns, n ∈ free ∧ n < s.stars.size) → (∀ p ∈ placed, p.1 = p.2) →
    s.extends? s ns free placed = true := by
  induction ns with
  | nil =>
    intro free placed _ _ _
    rfl
  | cons n ns ih =>
    intro free placed hnodup hns hplaced
    obtain ⟨hnot, hnodup⟩ := List.nodup_cons.1 hnodup
    obtain ⟨hfree, hn⟩ := hns n (by simp)
    -- With `n` placed on itself the other nodes are still free, since none of them is `n`.
    have hrest : s.extends? s ns (free.erase n) ((n, n) :: placed) = true := by
      refine ih _ _ hnodup (fun k hk => ?_) ?_
      · obtain ⟨hkfree, hklt⟩ := hns k (by simp [hk])
        have hne : k ≠ n := fun heq => hnot (heq ▸ hk)
        exact ⟨(List.mem_erase_of_ne hne).2 hkfree, hklt⟩
      · exact List.forall_mem_cons.2 ⟨rfl, hplaced⟩
    rw [extends?, List.any_eq_true]
    exact ⟨n, hfree, by rw [fits_self hn hplaced, hrest]; rfl⟩

end Survey

/-- The search for a bijection finds one between a digraph and itself. -/
theorem Digraph.isomorphic_self {α : Type} [DecidableEq α] (weight : α → Nat) (d : Digraph α) :
    d.isomorphic weight d = true := by
  have horder := placingOrder_perm (d.survey weight).stars []
    (List.range (d.survey weight).stars.size)
  have hsearch := Survey.extends?_self (s := d.survey weight) _
    (List.range (d.survey weight).stars.size) [] (horder.nodup_iff.2 List.nodup_range)
    (fun n hn => ⟨horder.subset hn, List.mem_range.1 (horder.subset hn)⟩) (by simp)
  simp [isomorphic, hsearch, List.isPerm_iff]

/-- The bundled view of a valid graph can be built, whatever its size: positions are the low bits
of handles, so they are no greater. -/
theorem Graph.Valid.exists_bundled {g : Graph} (h : g.Valid) : ∃ d, g.bundled = .ok d := by
  rw [bundled, Digraph.ofArcs, if_pos]
  · exact ⟨_, rfl⟩
  · rw [List.all_map, List.all_eq_true]
    intro p hp
    obtain ⟨htail, hhead⟩ := h.joinedPairs_lt p hp
    have hle : ∀ n, Digraph.position n ≤ n := fun n => Nat.mod_le n _
    simp only [Function.comp_apply, Digraph.arcAt, nodeLabels, List.length_map, Bool.and_eq_true,
      decide_eq_true_eq]
    exact ⟨Nat.lt_of_le_of_lt (hle _) htail, Nat.lt_of_le_of_lt (hle _) hhead⟩

/-- A valid graph is isomorphic to its normalised form. -/
theorem Graph.isIsomorphic_normalised {g : Graph} (h : g.Valid) :
    g.isIsomorphic g.normalised = .ok true := by
  obtain ⟨d, hd⟩ := h.exists_bundled
  rw [isIsomorphic, bundled_normalised, hd]
  show (Except.ok (d.isomorphic Fingerprint.ofBundle d) : Except Fault Bool) = _
  rw [d.isomorphic_self]

end DoublePushout
