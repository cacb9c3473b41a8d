import DoublePushout.Graph

/-!
# `DoublePushout.Mapping`: mappings between graphs

A `Mapping` takes every node of a source graph to a node of a target graph and every edge to the
target edges that realise it, of which there may be several. A match of a pattern is such a
mapping.

`Mapping.validate` checks one against its two graphs. It compares the sizes, then goes through the
nodes and after them the edges, and reports the first defect. An unlabelled node may go anywhere
and a labelled one only to a node with its label. Edge labels are not compared.
-/

set_option autoImplicit false

namespace DoublePushout

/-- The images of the nodes and of the edges of a source graph, by position. -/
structure Mapping where
  /-- The image of each node. -/
  nodes : List NodeId := []
  /-- The realisations of each edge. -/
  edges : List (List EdgeId) := []
  deriving DecidableEq, Repr, Inhabited

/-- A defect of a mapping between two given graphs. -/
inductive MappingError where
  /-- The node table has another length than the source's node list. -/
  | nodeCount (expected actual : Nat)
  /-- The edge table has another length than the source's edge list. -/
  | edgeCount (expected actual : Nat)
  /-- A node goes outside the target. -/
  | nodeOutOfRange (node image : NodeId)
  /-- A labelled node goes to a node with another label, or with none. -/
  | labelMismatch (node image : NodeId)
  /-- An edge has no realisation. -/
  | unrealised (edge : EdgeId)
  /-- An edge is realised outside the target. -/
  | edgeOutOfRange (edge image : EdgeId)
  /-- An edge is realised between other nodes than the images of its ends. -/
  | misplaced (edge image : EdgeId)
  deriving DecidableEq, Repr

/-- What a mapping error says. -/
def MappingError.message : MappingError → String
  | .nodeCount expected actual =>
    "Mapping covers " ++ toString actual ++ " nodes but the source graph has " ++
      toString expected ++ "."
  | .edgeCount expected actual =>
    "Mapping covers " ++ toString actual ++ " edges but the source graph has " ++
      toString expected ++ "."
  | .nodeOutOfRange node image =>
    "Node " ++ nodeText node ++ " is mapped to " ++ nodeText image ++
      ", which is not in the target graph."
  | .labelMismatch node image =>
    "Node " ++ nodeText node ++ " is mapped to " ++ nodeText image ++
      ", which has a different label."
  | .unrealised edge => "Edge " ++ edgeText edge ++ " is not realised by any target edge."
  | .edgeOutOfRange edge image =>
    "Edge " ++ edgeText edge ++ " is mapped to " ++ edgeText image ++
      ", which is not in the target graph."
  | .misplaced edge image =>
    "Edge " ++ edgeText edge ++ " is mapped to " ++ edgeText image ++
      ", which does not join the mapped endpoints."

namespace Mapping

/-- The image of a node. -/
def node (m : Mapping) (n : NodeId) : Except Fault NodeId := entry m.nodes n

/-- The realisations of an edge. -/
def edge (m : Mapping) (e : EdgeId) : Except Fault (List EdgeId) := entry m.edges e

/-- The nodes that are the image of some node. -/
def nodeImage (m : Mapping) : IdSet := IdSet.ofList m.nodes

/-- The edges that realise some edge. -/
def edgeImage (m : Mapping) : IdSet := IdSet.ofList m.edges.flatten

/-- Distinct nodes have distinct images. -/
def Injective (m : Mapping) : Prop := m.nodes.Nodup

instance (m : Mapping) : Decidable m.Injective := inferInstanceAs (Decidable m.nodes.Nodup)

/-- Checks that a node goes to a node of the target that it admits. -/
def checkNode (m : Mapping) (target : Graph) : Node × NodeId → Except (Failure MappingError) Unit
  | (n, i) => do
    let image ← orFault (m.node i)
    match target.node? image with
    | none => .error (.refused (.nodeOutOfRange i image))
    | some t => if n.admits t then .ok () else .error (.refused (.labelMismatch i image))

/-- Checks that one realisation of an edge joins the given nodes of the target. -/
def checkRealisation (target : Graph) (i : EdgeId) (tail head : NodeId) (image : EdgeId) :
    Except (Failure MappingError) Unit :=
  match target.edge? image with
  | none => .error (.refused (.edgeOutOfRange i image))
  | some t => if t.joins tail head then .ok () else .error (.refused (.misplaced i image))

/-- Checks that an edge is realised, and only between the images of its ends. -/
def checkEdge (m : Mapping) (target : Graph) : Edge × EdgeId → Except (Failure MappingError) Unit
  | (e, i) => do
    let images ← orFault (m.edge i)
    if images = [] then .error (.refused (.unrealised i))
    let tail ← orFault (m.node e.tail)
    let head ← orFault (m.node e.head)
    images.forM (checkRealisation target i tail head)

/-- Accepts the mapping as one from `source` to `target`, or refuses it with its first defect. It
faults only at an edge of the source that ends outside the source. -/
def validate (m : Mapping) (source target : Graph) : Except (Failure MappingError) Unit := do
  if m.nodes.length ≠ source.nodes.length then
    .error (.refused (.nodeCount source.nodes.length m.nodes.length))
  if m.edges.length ≠ source.edges.length then
    .error (.refused (.edgeCount source.edges.length m.edges.length))
  source.nodes.zipIdx.forM (m.checkNode target)
  source.edges.zipIdx.forM (m.checkEdge target)

end Mapping

end DoublePushout
