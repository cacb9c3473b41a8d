import DoublePushout.Graph.Digraph

/-!
# `DoublePushout.Graph.Isomorphism`: isomorphism

Two digraphs are isomorphic if some bijection of their positions keeps labels, degrees and links.
`Graph.isIsomorphic` compares the bundled views of two graphs, where the links are the bundles of
labels: that is a bijection of nodes which keeps the labels that count, and the labels of the
edges between each pair of nodes up to order.

`Digraph.isomorphic` searches for the bijection. It places the nodes of the first digraph one
after the other on free nodes of the second, and keeps a placement only while labels and degrees
agree and the links to and from every node placed so far are the same.

Two means keep the search short, and neither changes the answer. Nodes are placed along the arcs,
so that most of them have a neighbour placed before. And each node has a fingerprint, a number
computed from its surroundings in the same way in both digraphs: a bijection that keeps the
surroundings keeps the fingerprint, so no node is placed on one with another fingerprint.
-/

set_option autoImplicit false

namespace DoublePushout

/-- The pairs of a list without those whose first component occurs before. -/
def firstOfEach {α : Type} : List (Nat × α) → List (Nat × α)
  | [] => []
  | p :: ps => p :: (firstOfEach ps).filter (·.1 ≠ p.1)

/-- Dropping the later pairs of a number does not change what the number leads to. -/
theorem lookup_firstOfEach {α : Type} (n : Nat) (ps : List (Nat × α)) :
    (firstOfEach ps).lookup n = ps.lookup n := by
  -- Leaving out the pairs of another number does not change what is found for `n`.
  have skip : ∀ (k : Nat) (qs : List (Nat × α)), n ≠ k →
      (qs.filter (·.1 ≠ k)).lookup n = qs.lookup n := by
    intro k qs hk
    induction qs with
    | nil => rfl
    | cons q qs ih =>
      obtain ⟨m, w⟩ := q
      by_cases hm : m = k
      · have hn : (n == m) = false := by simp [hm, hk]
        simp only [hm, ne_eq, not_true_eq_false, decide_false, Bool.false_eq_true,
          not_false_eq_true, List.filter_cons_of_neg] at ih ⊢
        rw [ih, List.lookup_cons, ← hm, hn]
      · simp only [ne_eq, hm, not_false_eq_true, decide_true, List.filter_cons_of_pos,
          List.lookup_cons, ih]
  induction ps with
  | nil => rfl
  | cons p ps ih =>
    obtain ⟨m, w⟩ := p
    by_cases hm : n = m
    · simp [firstOfEach, hm]
    · have hn : (n == m) = false := by simp [hm]
      rw [firstOfEach, List.lookup_cons, List.lookup_cons, hn, skip m _ hm, ih]

/-- A node with what is around it in a digraph. -/
structure Star (α : Type) where
  /-- The label of the node. -/
  label : Option String
  /-- The number of arcs that leave the node. -/
  outDegree : Nat
  /-- The number of arcs that enter the node. -/
  inDegree : Nat
  /-- The links that leave the node: each head, once, with the weight. -/
  outLinks : List (Nat × α)
  /-- The links that enter the node: each tail, once, with the weight. -/
  inLinks : List (Nat × α)
  deriving Repr

namespace Star

variable {α : Type}

/-- The positions that are linked to the node. -/
def neighbours (s : Star α) : List Nat := s.outLinks.map (·.1) ++ s.inLinks.map (·.1)

/-- Whether a node may be placed on another as far as the two themselves go: they have the same
label, the same degrees and the same link to themselves. -/
def resembles [DecidableEq α] (s t : Star α) (n c : Nat) : Bool :=
  s.label = t.label && s.outDegree = t.outDegree && s.inDegree = t.inDegree &&
    s.outLinks.lookup n = t.outLinks.lookup c

/-- Whether a node has the same links with the nodes already placed as another has with their
places. -/
def keepsLinks [DecidableEq α] (s t : Star α) (placed : List (Nat × Nat)) : Bool :=
  placed.all fun (m, d) =>
    s.outLinks.lookup m = t.outLinks.lookup d && s.inLinks.lookup m = t.inLinks.lookup d

end Star

/-! ### Fingerprints -/

namespace Fingerprint

/-- What all fingerprints are below. -/
def bound : Nat := Nat.pow 2 31 - 1

/-- The fingerprint of an ordered pair of numbers. -/
def mix (a b : Nat) : Nat :=
  let x := (65599 * a + b + 1) % bound
  (x * x + 31 * x + b) % bound

/-- The fingerprint of a text. -/
def ofText (s : String) : Nat := s.toList.foldl (fun h c => mix h c.toNat) 1

/-- The fingerprint of a label. -/
def ofLabel : Option String → Nat
  | none => 2
  | some s => mix 3 (ofText s)

/-- The fingerprint of a bundle. -/
def ofBundle (labels : List (Option String)) : Nat :=
  labels.foldl (fun h l => mix h (ofLabel l)) 4

variable {α : Type}

/-- The fingerprint of a node by itself. -/
def ofStar (s : Star α) : Nat := mix (ofLabel s.label) (mix s.outDegree s.inDegree)

/-- The fingerprint of some links, whatever their order, given the fingerprints of weights and of
nodes. -/
def ofLinks (weight : α → Nat) (prints : Array Nat) (links : List (Nat × α)) : Nat :=
  (links.map fun (m, w) => mix (weight w) (prints.getD m 0)).foldl (· + ·) 0 % bound

/-- The fingerprints of nodes after one look at their neighbours. -/
def refine (weight : α → Nat) (stars : Array (Star α)) (prints : Array Nat) : Array Nat :=
  Array.zipWith (fun s p =>
    mix (mix p (ofLinks weight prints s.outLinks)) (ofLinks weight prints s.inLinks)) stars prints

/-- The fingerprints of nodes after so many looks at their neighbours. -/
def refineTimes (weight : α → Nat) (stars : Array (Star α)) : Nat → Array Nat → Array Nat
  | 0, prints => prints
  | n + 1, prints => refineTimes weight stars n (refine weight stars prints)

/-- The fingerprints of all nodes. They tell apart nodes whose surroundings differ within a
distance of 64, which is as far as it pays to look. -/
def ofStars (weight : α → Nat) (stars : Array (Star α)) : Array Nat :=
  refineTimes weight stars (min 64 stars.size) (stars.map ofStar)

end Fingerprint

/-! ### The search -/

/-- The order in which a search places nodes: those in a queue come first, and the neighbours of a
node that is placed join the queue. Every node that is left comes once. -/
def placingOrder {α : Type} (stars : Array (Star α)) (queue left : List Nat) : List Nat :=
  match queue, left with
  | [], [] => []
  | [], n :: left => n :: placingOrder stars (neighboursOf n) left
  | n :: queue, left =>
    if n ∈ left then n :: placingOrder stars (queue ++ neighboursOf n) (left.erase n)
    else placingOrder stars queue left
termination_by (left.length, queue.length)
decreasing_by
  · exact Prod.Lex.left _ _ (Nat.lt_succ_self _)
  · next h =>
    refine Prod.Lex.left _ _ ?_
    have := List.length_erase_of_mem h
    have := List.length_pos_of_mem h
    omega
  · exact Prod.Lex.right _ (Nat.lt_succ_self _)
where
  /-- The neighbours of a node. -/
  neighboursOf (n : Nat) : List Nat := ((stars[n]?).map Star.neighbours).getD []

/-- The order of placing is an order of the positions that are left. -/
theorem placingOrder_perm {α : Type} (stars : Array (Star α)) (queue left : List Nat) :
    (placingOrder stars queue left).Perm left := by
  fun_induction placingOrder stars queue left with
  | case1 => exact .refl _
  | case2 n left ih => exact ih.cons n
  | case3 n queue left h ih => exact (ih.cons n).trans (List.perm_cons_erase h).symm
  | case4 n queue left h ih => exact ih

/-- A digraph prepared for the search. -/
structure Survey (α : Type) where
  /-- The star of each node. -/
  stars : Array (Star α)
  /-- The fingerprint of each node. -/
  prints : Array Nat
  deriving Repr

namespace Survey

variable {α : Type} [DecidableEq α]

/-- Whether a node of one digraph may be placed on one of another, beside the nodes already
placed, each of which is paired with its place. -/
def fits (a b : Survey α) (placed : List (Nat × Nat)) (n c : Nat) : Bool :=
  a.prints[n]? == b.prints[c]? &&
    match a.stars[n]?, b.stars[c]? with
    | some s, some t => s.resembles t n c && s.keepsLinks t placed
    | _, _ => false

/-- Whether the listed nodes of one digraph can be placed, one after the other, on free nodes of
another, beside the nodes already placed. -/
def extends? (a b : Survey α) : List Nat → List Nat → List (Nat × Nat) → Bool
  | [], _, _ => true
  | n :: ns, free, placed =>
    free.any fun c => fits a b placed n c && extends? a b ns (free.erase c) ((n, c) :: placed)

end Survey

namespace Digraph

variable {α : Type}

/-- The star of a node with the given label. -/
def star (d : Digraph α) (label : Option String) (n : Nat) : Star α where
  label := label
  outDegree := (d.leaving n).length
  inDegree := (d.entering n).length
  outLinks := firstOfEach (d.leaving n)
  inLinks := firstOfEach (d.entering n)

/-- The digraph prepared for a search, given the fingerprint of a weight. -/
def survey (d : Digraph α) (weight : α → Nat) : Survey α :=
  let stars := (d.nodes.zipIdx.map fun (label, n) => d.star label n).toArray
  ⟨stars, Fingerprint.ofStars weight stars⟩

/-- Whether some bijection of positions keeps labels, degrees and links. -/
def isomorphic [DecidableEq α] (weight : α → Nat) (a b : Digraph α) : Bool :=
  let a := a.survey weight
  let b := b.survey weight
  let positions := List.range a.stars.size
  a.stars.size == b.stars.size && a.prints.toList.isPerm b.prints.toList &&
    a.extends? b (placingOrder a.stars [] positions) positions []

end Digraph

/-- Whether two graphs are isomorphic. It faults where one of the two, the first before the
second, has an edge that ends outside it. -/
def Graph.isIsomorphic (a b : Graph) : Except Fault Bool := do
  let a' ← a.bundled
  let b' ← b.bundled
  return a'.isomorphic Fingerprint.ofBundle b'

end DoublePushout
