import DoublePushout.Matching

/-!
# `DoublePushout.Proofs.Matching.Stack`: the stack of a search

`Query.step` looks at the top frame only. `Query.step_cases` says once what it can do there,
guards included, and everything here about the stack follows from it.

`Query.Reachable` holds of the stacks that a search comes by, between two matches and on the way
from one to the next. `Reachable.unfinished` is the invariant that the search lives on: every
frame has a pattern node left to place, so the node after a frame's images exists.
-/

set_option autoImplicit false

namespace DoublePushout.Query

variable {q : Query}

/-! ### Unfinished frames -/

/-- Every frame of the stack has a pattern node left to place. -/
def Unfinished (q : Query) (stack : List Frame) : Prop :=
  ∀ f ∈ stack, f.assigned.length < q.pattern.nodes.length

/-- Moving the top frame on leaves all frames unfinished. -/
theorem Unfinished.advance {stack : List Frame} (h : q.Unfinished stack) :
    q.Unfinished (advance stack) := by
  cases stack with
  | nil => exact h
  | cons f fs =>
    intro g hg
    rcases List.mem_cons.1 hg with rfl | hg
    · exact h f (by simp)
    · exact h g (by simp [hg])

/-- So does giving the top frame up. -/
theorem Unfinished.tail {f : Frame} {fs : List Frame} (h : q.Unfinished (f :: fs)) :
    q.Unfinished fs := fun g hg => h g (by simp [hg])

/-- A frame for one node more is unfinished when there is another node after it. -/
theorem Unfinished.push {f : Frame} {fs : List Frame} (h : q.Unfinished (f :: fs))
    (hmore : f.assigned.length + 1 < q.pattern.nodes.length) (c : NodeId) :
    q.Unfinished (⟨f.assigned ++ [c], 0⟩ :: f :: fs) := by
  intro g hg
  rcases List.mem_cons.1 hg with rfl | hg
  · simpa using hmore
  · exact h g hg

/-- A step keeps every frame unfinished, and a match that it reports has an image for each pattern
node. -/
theorem Unfinished.step {stack : List Frame} (h : q.Unfinished stack) :
    (∀ stack', q.step stack = .moved stack' → q.Unfinished stack') ∧
      ∀ images stack', q.step stack = .found images stack' →
        q.Unfinished stack' ∧ images.length = q.pattern.nodes.length := by
  cases stack with
  | nil => exact ⟨fun _ hs => (by cases hs), fun _ _ hs => (by cases hs)⟩
  | cons f fs =>
    have hf := h f (by simp)
    rcases q.step_cases f fs with ⟨-, hs⟩ | ⟨-, -, hs⟩ | ⟨-, -, hmore, hs⟩ | ⟨-, -, hlast, hs⟩ <;>
      rw [hs]
    · exact ⟨fun _ he => (by cases he; exact h.tail.advance), fun _ _ he => (by cases he)⟩
    · exact ⟨fun _ he => (by cases he; exact h.advance), fun _ _ he => (by cases he)⟩
    · exact ⟨fun _ he => (by cases he; exact h.push hmore _), fun _ _ he => (by cases he)⟩
    · -- Only this step reports a match, and its candidate was the last image missing.
      refine ⟨fun _ he => (by cases he), fun _ _ he => ?_⟩
      cases he
      exact ⟨h.advance, by rw [List.length_append, List.length_singleton]; omega⟩

/-! ### Reachable stacks -/

/-- The stacks that a search comes by. -/
inductive Reachable (q : Query) : List Frame → Prop where
  /-- The stack before the first step. -/
  | start : Reachable q [⟨[], q.start⟩]
  /-- The stack after a step that only moves on. -/
  | moved {stack stack' : List Frame} : Reachable q stack → q.step stack = .moved stack' →
    Reachable q stack'
  /-- The stack after a step that reports a match. -/
  | found {stack stack' : List Frame} {images : List NodeId} : Reachable q stack →
    q.step stack = .found images stack' → Reachable q stack'

/-- Every stack of a search for a pattern with a node is unfinished. -/
theorem Reachable.unfinished {stack : List Frame} (hne : q.pattern.nodes ≠ [])
    (h : q.Reachable stack) : q.Unfinished stack := by
  induction h with
  | start => simpa [Unfinished] using List.length_pos_iff.2 hne
  | moved _ hs ih => exact ih.step.1 _ hs
  | found _ hs ih => exact (ih.step.2 _ _ hs).1

end DoublePushout.Query
