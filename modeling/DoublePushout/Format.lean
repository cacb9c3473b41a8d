import DoublePushout.Json.Schema
import DoublePushout.Rule

/-!
# `DoublePushout.Format`: the JSON form of graphs, mappings and rules

Each structure has a schema, from which its text is written and read. A label is left out when it
is absent, and an empty label is kept. The subgraphs of a graph are left out when there are none.
Sets are written in ascending order and read in any order.

Reading does not check handles against the graph they belong to: `Graph.validate` does.
-/

set_option autoImplicit false

namespace DoublePushout

open Json (Value Parsed Field Schema)

/-- A list of handles as written. -/
def writeHandles (ns : List Nat) : Value := .list (ns.map .natural)

/-- A label as written: nothing if it is absent. -/
def writeLabel (label : Option String) : Option Value := label.map .text

/-- The form of a node. -/
def Node.schema : Schema Node where
  kind := "Node"
  blank := { name := "" }
  fields := [
    { name := "name"
      required := true
      write := fun n => some (.text n.name)
      read := fun j n => do return { n with name := ← j.asText } },
    { name := "label"
      required := false
      write := fun n => writeLabel n.label
      read := fun j n => do return { n with label := ← j.asOptional Parsed.asText } }]

/-- The form of an edge. -/
def Edge.schema : Schema Edge where
  kind := "Edge"
  blank := { tail := 0, head := 0 }
  fields := [
    { name := "tail"
      required := true
      write := fun e => some (.natural e.tail)
      read := fun j e => do return { e with tail := ← j.asHandle } },
    { name := "head"
      required := true
      write := fun e => some (.natural e.head)
      read := fun j e => do return { e with head := ← j.asHandle } },
    { name := "label"
      required := false
      write := fun e => writeLabel e.label
      read := fun j e => do return { e with label := ← j.asOptional Parsed.asText } }]

/-- The form of a subgraph. -/
def Subgraph.schema : Schema Subgraph where
  kind := "Subgraph"
  blank := { name := "" }
  fields := [
    { name := "name"
      required := true
      write := fun s => some (.text s.name)
      read := fun j s => do return { s with name := ← j.asText } },
    { name := "nodes"
      required := false
      write := fun s => some (writeHandles s.nodes.toList)
      read := fun j s => do
        return { s with nodes := IdSet.ofList (← j.asList Parsed.asHandle) } },
    { name := "edges"
      required := false
      write := fun s => some (writeHandles s.edges.toList)
      read := fun j s => do
        return { s with edges := IdSet.ofList (← j.asList Parsed.asHandle) } }]

/-- The form of a graph. -/
def Graph.schema : Schema Graph where
  kind := "Graph"
  blank := {}
  fields := [
    { name := "nodes"
      required := true
      write := fun g => some (.list (g.nodes.map Node.schema.write))
      read := fun j g => do return { g with nodes := ← j.asList Node.schema.read } },
    { name := "edges"
      required := true
      write := fun g => some (.list (g.edges.map Edge.schema.write))
      read := fun j g => do return { g with edges := ← j.asList Edge.schema.read } },
    { name := "subgraphs"
      required := false
      write := fun g =>
        if g.subgraphs = [] then none else some (.list (g.subgraphs.map Subgraph.schema.write))
      read := fun j g => do return { g with subgraphs := ← j.asList Subgraph.schema.read } }]

/-- The form of a mapping. -/
def Mapping.schema : Schema Mapping where
  kind := "GraphMapping"
  blank := {}
  fields := [
    { name := "node_mapping"
      required := true
      write := fun m => some (writeHandles m.nodes)
      read := fun j m => do return { m with nodes := ← j.asList Parsed.asHandle } },
    { name := "edge_mapping"
      required := true
      write := fun m => some (.list (m.edges.map writeHandles))
      read := fun j m => do
        return { m with edges := ← j.asList (Parsed.asList Parsed.asHandle) } }]

/-- The form of a rule. -/
def Rule.schema : Schema Rule where
  kind := "Rule"
  blank := {}
  fields := [
    { name := "lhs"
      required := true
      write := fun r => some (Graph.schema.write r.lhs)
      read := fun j r => do return { r with lhs := ← Graph.schema.read j } },
    { name := "rhs"
      required := true
      write := fun r => some (Graph.schema.write r.rhs)
      read := fun j r => do return { r with rhs := ← Graph.schema.read j } },
    { name := "common"
      required := true
      write := fun r => some (Graph.schema.write r.interface)
      read := fun j r => do return { r with interface := ← Graph.schema.read j } },
    { name := "common_to_lhs"
      required := true
      write := fun r => some (Mapping.schema.write r.toLhs)
      read := fun j r => do return { r with toLhs := ← Mapping.schema.read j } },
    { name := "common_to_rhs"
      required := true
      write := fun r => some (Mapping.schema.write r.toRhs)
      read := fun j r => do return { r with toRhs := ← Mapping.schema.read j } }]

end DoublePushout
