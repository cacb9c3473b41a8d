import DoublePushout.Rule

/-!
# `DoublePushout.Rule.Rewrite`: rewriting a graph with a rule

A rule is applied at a match of its left side. `Rule.verify` decides whether it can be: the match
has to be a valid mapping, send distinct nodes to distinct nodes, realise no preserved edge by a
target edge that a deleted edge is realised by, and leave no edge behind at a deleted node.

`Rule.apply` then builds the result. Its nodes are those of the target that are not matched, the
matched ones that the interface preserves, and the created ones, in this order. `Placed` notes for
each what it stands for in the target and in the right side, and edges find their ends by that.
The edges are the unmatched ones of the target, the realisations of the preserved ones, each once,
and the created ones. The result has no subgraphs.
-/

set_option autoImplicit false

namespace DoublePushout

/-- Why a rule cannot be applied at a match. -/
inductive ApplyError where
  /-- The match is no mapping of the left side into the target. -/
  | invalidMatch (error : MappingError)
  /-- Two nodes of the left side are matched to one node. -/
  | nonInjective (node : NodeId)
  /-- A target edge would be both deleted and preserved. -/
  | edgeConflict (edge : EdgeId)
  /-- A target edge would lose an end. -/
  | danglingEdge (edge : EdgeId) (node : NodeId)
  deriving DecidableEq, Repr

/-- What an apply error says. -/
def ApplyError.message : ApplyError → String
  | .invalidMatch error => "Invalid match: " ++ error.message
  | .nonInjective node =>
    "Target node " ++ nodeText node ++ " is matched by more than one LHS node."
  | .edgeConflict edge =>
    "Target edge " ++ edgeText edge ++ " realises both a deleted and a preserved LHS edge."
  | .danglingEdge edge node =>
    "Target edge " ++ edgeText edge ++ " would be left dangling by deleting node " ++
      nodeText node ++ "."

/-- The first element that repeats one before it, or one of those already seen. -/
def firstRepeat? : List Nat → List Nat → Option Nat
  | _, [] => none
  | seen, x :: xs => if x ∈ seen then some x else firstRepeat? (x :: seen) xs

/-- The last position in a list at which a property holds. -/
def lastIndex? {α : Type} (p : α → Bool) (xs : List α) : Option Nat :=
  (xs.zipIdx.filter fun (x, _) => p x).getLast?.map (·.2)

/-- A node of the result of a rewrite. -/
structure Placed where
  /-- The node. -/
  node : Node
  /-- The target node that it continues. -/
  ofTarget : Option NodeId := none
  /-- The node of the right side that it realises. -/
  ofRhs : Option NodeId := none
  deriving DecidableEq, Repr

namespace Rule

/-! ### Whether a rule can be applied -/

/-- The target nodes that a match gives for the deleted nodes. -/
def deletedImages (r : Rule) (m : Mapping) : Except Fault (List NodeId) :=
  r.deletedNodes.mapM m.node

/-- The target edges that realise the deleted edges. -/
def deletedRealisations (r : Rule) (m : Mapping) : Except Fault (List EdgeId) :=
  return (← r.deletedEdges.mapM m.edge).flatten

/-- The target edges that realise the preserved edges, in the order of the interface. -/
def preservedRealisations (r : Rule) (m : Mapping) : Except Fault (List EdgeId) :=
  return (← r.toLhs.edges.flatten.mapM m.edge).flatten

/-- Refuses the match if a target edge realises both a deleted and a preserved edge. -/
def checkConflicts (r : Rule) (m : Mapping) (deleted : List EdgeId) :
    Except (Failure ApplyError) Unit :=
  r.toLhs.edges.flatten.forM fun e => do
    let images ← orFault (m.edge e)
    match images.find? (· ∈ deleted) with
    | some image => .error (.refused (.edgeConflict image))
    | none => .ok ()

/-- The first target edge that stays although a node that it ends at is deleted,
with that node. -/
def danglingEdge? (target : Graph) (deletedNodes : List NodeId) (deletedEdges : List EdgeId) :
    Option (EdgeId × NodeId) :=
  target.edges.zipIdx.findSome? fun (e, i) =>
    if i ∈ deletedEdges then none else (e.ends.find? (· ∈ deletedNodes)).map (i, ·)

/-- Accepts the match, or refuses it with the first condition that it fails. -/
def verify (r : Rule) (target : Graph) (m : Mapping) : Except (Failure ApplyError) Unit := do
  (m.validate r.lhs target).mapError (Failure.map .invalidMatch)
  match firstRepeat? [] m.nodes with
  | some n => .error (.refused (.nonInjective n))
  | none =>
    let deletedNodes ← orFault (r.deletedImages m)
    let deletedEdges ← orFault (r.deletedRealisations m)
    r.checkConflicts m deletedEdges
    match danglingEdge? target deletedNodes deletedEdges with
    | some (e, n) => .error (.refused (.danglingEdge e n))
    | none => .ok ()

/-- Whether the rule can be applied at the match. -/
def isApplicable (r : Rule) (target : Graph) (m : Mapping) : Except Fault Bool :=
  match r.verify target m with
  | .ok () => .ok true
  | .error (.refused _) => .ok false
  | .error (.fault x) => .error x

/-! ### The nodes of the result -/

/-- The nodes of the target that are not matched. -/
def contextNodes (target : Graph) (m : Mapping) : List Placed :=
  target.nodes.zipIdx.filterMap fun (node, i) =>
    if i ∈ m.nodes then none else some { node, ofTarget := some i }

/-- The copy of the target node that an interface node is matched to. -/
def preservedNode (r : Rule) (target : Graph) (m : Mapping) (c : NodeId) :
    Except Fault Placed := do
  let n ← m.node (← r.toLhs.node c)
  let node ← target.node n
  let i ← r.toRhs.node c
  let _ ← r.rhs.node i
  return { node, ofTarget := some n, ofRhs := some i }

/-- The nodes of the right side that no preserved node realises. -/
def newNodes (r : Rule) (preserved : List Placed) : List Placed :=
  r.rhs.nodes.zipIdx.filterMap fun (node, i) =>
    if preserved.any (·.ofRhs = some i) then none else some { node, ofRhs := some i }

/-- The nodes of the result. -/
def placedNodes (r : Rule) (target : Graph) (m : Mapping) : Except Fault (List Placed) := do
  let preserved ← r.interface.nodeIds.mapM (r.preservedNode target m)
  return contextNodes target m ++ preserved ++ r.newNodes preserved

/-! ### The edges of the result -/

/-- The handle in the result of a target node. -/
def targetCopy (target : Graph) (placed : List Placed) (n : NodeId) : Except Fault NodeId := do
  let _ ← target.node n
  match lastIndex? (·.ofTarget = some n) placed with
  | some i => .ok i
  | none => .error .orphanedEdge

/-- The handle in the result of a node of the right side. -/
def rhsCopy (r : Rule) (placed : List Placed) (n : NodeId) : Except Fault NodeId := do
  let _ ← r.rhs.node n
  match lastIndex? (·.ofRhs = some n) placed with
  | some i => .ok i
  | none => .error .unplacedNode

/-- An edge with its ends moved. -/
def moveEdge (move : NodeId → Except Fault NodeId) (e : Edge) : Except Fault Edge :=
  return { e with tail := ← move e.tail, head := ← move e.head }

/-- The edges of the target that are not matched, in the result. -/
def contextEdges (target : Graph) (m : Mapping) (placed : List Placed) :
    Except Fault (List Edge) :=
  (target.edges.zipIdx.filter fun (_, i) => i ∉ m.edges.flatten).mapM fun (e, _) =>
    moveEdge (targetCopy target placed) e

/-- The preserved edges, in the result: each realisation once. -/
def preservedEdges (r : Rule) (target : Graph) (m : Mapping) (placed : List Placed) :
    Except Fault (List Edge) := do
  (← r.preservedRealisations m).eraseDups.mapM fun i => do
    moveEdge (targetCopy target placed) (← target.edge i)

/-- The created edges, in the result. -/
def newEdges (r : Rule) (placed : List Placed) : Except Fault (List Edge) :=
  r.createdEdges.mapM fun i => do moveEdge (r.rhsCopy placed) (← r.rhs.edge i)

/-- The result of a rewrite at a match that has been accepted. -/
def build (r : Rule) (target : Graph) (m : Mapping) : Except Fault Graph := do
  let placed ← r.placedNodes target m
  let context ← contextEdges target m placed
  let preserved ← r.preservedEdges target m placed
  let created ← r.newEdges placed
  return { nodes := placed.map (·.node), edges := context ++ preserved ++ created }

/-- Applies the rule at a match, or refuses as `verify` does. -/
def apply (r : Rule) (target : Graph) (m : Mapping) : Except (Failure ApplyError) Graph := do
  r.verify target m
  orFault (r.build target m)

end Rule

end DoublePushout
