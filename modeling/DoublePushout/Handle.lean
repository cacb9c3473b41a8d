/-!
# `DoublePushout.Handle`: handles

A graph numbers its nodes and its edges from zero, and a handle is such a number. Handles of two
graphs are unrelated: only a mapping takes one to the other. A handle may name nothing, because
graphs, mappings and rules are also read from outside.

Handles are plain natural numbers, so that positions in a list and handles need no conversion. The
two abbreviations say in a signature which of the two kinds is meant.
-/

set_option autoImplicit false

namespace DoublePushout

/-- The position of a node in its graph. -/
abbrev NodeId := Nat

/-- The position of an edge in its graph. -/
abbrev EdgeId := Nat

/-- A node handle as messages show it, such as `n3`. -/
def nodeText (n : NodeId) : String := "n" ++ toString n

/-- An edge handle as messages show it, such as `e5`. -/
def edgeText (e : EdgeId) : String := "e" ++ toString e

end DoublePushout
