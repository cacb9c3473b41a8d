import DoublePushout.Graph

/-!
# `DoublePushout.Graph.Digraph`: graphs as digraphs

A `Digraph` keeps of a graph what its structure is: the labels that count, and the arcs between
positions. Positions of a digraph are 32-bit words, so a handle is cut to its low 32 bits on the
way, and an arc whose cut ends are not below the number of nodes is a fault.

Two views of a graph are built. `Graph.toDigraph` has one arc for each edge. `Graph.bundled` has
one arc for each ordered pair of handles that edges join, in ascending order, carrying the sorted
labels of all those edges, so that parallel edges form one bundle whatever their order.

Several arcs may join the same positions. Then the last of them is the `link` between the two, and
the others only count towards degrees. A bundled view has such arcs only if two handles are cut to
one position.
-/

set_option autoImplicit false

namespace DoublePushout

/-- An arc between two positions of a digraph. -/
structure Arc (α : Type) where
  /-- The position that the arc leaves. -/
  tail : Nat
  /-- The position that the arc enters. -/
  head : Nat
  /-- What the arc carries. -/
  weight : α
  deriving DecidableEq, Repr

/-- A directed graph on positions, with labels on its nodes and weights on its arcs. -/
structure Digraph (α : Type) where
  /-- The label of each node. -/
  nodes : List (Option String)
  /-- The arcs. -/
  arcs : List (Arc α)
  deriving DecidableEq, Repr

namespace Digraph

/-- The position that a handle has in a digraph: its low 32 bits. -/
def position (n : NodeId) : Nat := n % Nat.pow 2 32

variable {α : Type}

/-- An arc between the positions of two handles. -/
def arcAt (tail head : NodeId) (weight : α) : Arc α := ⟨position tail, position head, weight⟩

/-- The digraph with the given labels and arcs, if every arc ends at one of its nodes.

Any number of nodes and arcs will do here. That petgraph holds no more of either than 32-bit
positions can tell apart, a limit of about 2 ^ 32, and faults beyond it, is not modelled. -/
def ofArcs (nodes : List (Option String)) (arcs : List (Arc α)) : Except Fault (Digraph α) :=
  if arcs.all fun a => a.tail < nodes.length && a.head < nodes.length then
    .ok ⟨nodes, arcs⟩
  else
    .error .strayArc

/-- The arcs that leave a position: the head and the weight of each, the last arc first. -/
def leaving (d : Digraph α) (n : Nat) : List (Nat × α) :=
  (d.arcs.filterMap fun a => if a.tail = n then some (a.head, a.weight) else none).reverse

/-- The arcs that enter a position: the tail and the weight of each, the last arc first. -/
def entering (d : Digraph α) (n : Nat) : List (Nat × α) :=
  (d.arcs.filterMap fun a => if a.head = n then some (a.tail, a.weight) else none).reverse

/-- The link from one position to another: the weight of the last arc between them. -/
def link (d : Digraph α) (tail head : Nat) : Option α := (d.leaving tail).lookup head

/-- The last arc between two positions is found from its head as it is from its tail. -/
theorem lookup_entering (d : Digraph α) (tail head : Nat) :
    (d.entering head).lookup tail = d.link tail head := by
  -- Reading the arcs into `head` at `tail` is reading the arcs out of `tail` at `head`: both come
  -- to the last arc between the two.
  have key : ∀ (arcs : List (Arc α)),
      ((arcs.filterMap fun a => if a.head = head then some (a.tail, a.weight) else none).lookup
        tail) =
      ((arcs.filterMap fun a => if a.tail = tail then some (a.head, a.weight) else none).lookup
        head) := by
    intro arcs
    induction arcs with
    | nil => rfl
    | cons a arcs ih =>
      simp only [List.filterMap_cons]
      by_cases ht : a.tail = tail
      · by_cases hh : a.head = head
        · simp [ht, hh]
        · have hne : (head == a.head) = false := by simp [Ne.symm hh]
          simp [ht, hh, hne, List.lookup_cons, ih]
      · by_cases hh : a.head = head
        · have hne : (tail == a.tail) = false := by simp [Ne.symm ht]
          simp [ht, hh, hne, List.lookup_cons, ih]
        · simp [ht, hh, ih]
  simp only [link, entering, leaving, ← List.filterMap_reverse]
  exact key d.arcs.reverse

end Digraph

/-- The order of labels in a bundle: none first, then by text. -/
def labelLe : Option String → Option String → Bool
  | none, _ => true
  | some _, none => false
  | some a, some b => a ≤ b

/-- The order of pairs of handles: by the first, then by the second. -/
def pairLe (a b : NodeId × NodeId) : Bool := a.1 < b.1 || (a.1 == b.1 && a.2 ≤ b.2)

namespace Graph

/-- The labels of the nodes that count. -/
def nodeLabels (g : Graph) : List (Option String) := g.nodes.map Node.effective

/-- The graph as a digraph with one arc for each edge, carrying its label. -/
def toDigraph (g : Graph) : Except Fault (Digraph (Option String)) :=
  Digraph.ofArcs g.nodeLabels (g.edges.map fun e => Digraph.arcAt e.tail e.head e.effective)

/-- The labels of all edges from one node to another, sorted. -/
def bundle (g : Graph) (tail head : NodeId) : List (Option String) :=
  ((g.edges.filter (·.joins tail head)).map Edge.effective).mergeSort labelLe

/-- The ordered pairs of handles that some edge joins, each once, ascending. -/
def joinedPairs (g : Graph) : List (NodeId × NodeId) :=
  (g.edges.map fun e => (e.tail, e.head)).eraseDups.mergeSort pairLe

/-- The graph as a digraph with one arc for each pair of joined handles, carrying the bundle of
labels between them. -/
def bundled (g : Graph) : Except Fault (Digraph (List (Option String))) :=
  Digraph.ofArcs g.nodeLabels
    (g.joinedPairs.map fun (tail, head) => Digraph.arcAt tail head (g.bundle tail head))

end Graph

end DoublePushout
