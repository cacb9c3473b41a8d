import DoublePushout.Handle

/-!
# `DoublePushout.Fault`: faults

An operation may find its input malformed and refuse it with an error of its own kind. It may also
be used against its contract: a handle outside a table, an edge to a missing node, a search for a
pattern without nodes. The second case is a `Fault`. It is a value like any other here, so that
"this never faults" is a statement about the result and not about the absence of a crash.

`Failure ε` joins the two for operations that can do either, and `entry` is the one place where a
table is read at a handle that nothing has checked.
-/

set_option autoImplicit false

namespace DoublePushout

/-- A use of an operation outside its contract. -/
inductive Fault where
  /-- A table of the given length was read at a position outside it. -/
  | outOfRange (length index : Nat)
  /-- An edge was added at a node that the graph does not have. -/
  | missingEndpoint (node : NodeId)
  /-- A subgraph was added with a member that the graph does not have. -/
  | strayMember (subgraph : String)
  /-- Matches were sought for a pattern without nodes. -/
  | emptyPattern
  /-- A pair of preserved edges was asked for under the empty label. -/
  | blankPreservedLabel
  /-- An edge that survives a rewrite lost one of its ends. -/
  | orphanedEdge
  /-- A node of a right-hand side has no copy in the result. -/
  | unplacedNode
  /-- An arc of a digraph would end outside it. -/
  | strayArc
  deriving DecidableEq, Repr

/-- What a fault says. -/
def Fault.message : Fault → String
  | .outOfRange length index =>
    "index out of bounds: the len is " ++ toString length ++
      " but the index is " ++ toString index
  | .missingEndpoint node => "Cannot add an edge to missing node " ++ nodeText node ++ "."
  | .strayMember subgraph =>
    "Subgraph \"" ++ subgraph ++ "\" refers to elements outside the graph."
  | .emptyPattern => "Cannot search for a pattern without nodes."
  | .blankPreservedLabel => "Preserved edges need a non-empty label."
  | .orphanedEdge => "verified matches leave no surviving edge on a deleted node"
  | .unplacedNode => "every RHS node is preserved or created above"
  | .strayArc => "Graph::add_edge: node indices out of bounds"

/-- Why an operation gave no result: it refused its input for a reason of its own,
or it faulted. -/
inductive Failure (ε : Type) where
  /-- The operation's own error. -/
  | refused (reason : ε)
  /-- The operation was used outside its contract. -/
  | fault (fault : Fault)
  deriving DecidableEq, Repr

/-- The same failure with the operation's own error reworded. -/
def Failure.map {ε ζ : Type} (f : ε → ζ) : Failure ε → Failure ζ
  | .refused e => .refused (f e)
  | .fault x => .fault x

/-- A computation that can only fault, within one that can also refuse. -/
def orFault {ε α : Type} : Except Fault α → Except (Failure ε) α
  | .ok a => .ok a
  | .error x => .error (.fault x)

/-- A computation that can only refuse, within one that can also fault. -/
def orRefuse {ε α : Type} : Except ε α → Except (Failure ε) α
  | .ok a => .ok a
  | .error e => .error (.refused e)

/-- The entry of a table at a position that nothing has checked. -/
def entry {α : Type} (table : List α) (i : Nat) : Except Fault α :=
  match table[i]? with
  | some a => .ok a
  | none => .error (.outOfRange table.length i)

/-- Reading a table succeeds with the entry that is there. -/
theorem entry_eq_ok {α : Type} {table : List α} {i : Nat} {a : α} :
    entry table i = .ok a ↔ table[i]? = some a := by
  unfold entry
  cases table[i]? <;> simp

/-- Inside the table there is always an entry to read. -/
theorem entry_of_lt {α : Type} {table : List α} {i : Nat} (h : i < table.length) :
    entry table i = .ok table[i] :=
  entry_eq_ok.2 (List.getElem?_eq_getElem h)

/-- An entry of a translated table is the translated entry. -/
theorem entry_map {α β : Type} (f : α → β) (table : List α) (i : Nat) :
    entry (table.map f) i = (entry table i).map f := by
  rw [entry, entry, List.getElem?_map, List.length_map]
  cases table[i]? with
  | none => rfl
  | some a => rfl

end DoublePushout
