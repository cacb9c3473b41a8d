import DoublePushout.Graph.Index
import DoublePushout.Mapping

/-!
# `DoublePushout.Matching`: matching

A `Query` asks for the occurrences of a pattern in a target. The nodes of the pattern are placed
one after the other, depth first, and the candidates for each are tried in ascending order, so
matches come in lexicographic order of their node tables. A candidate is kept when the pattern
node admits its label and the target has an edge for every pattern edge between the new node and
those placed before. Edge labels are not compared, the target may have more edges than the
pattern, and two pattern nodes may share an image unless the query is injective. A match records
for each pattern edge all target edges that realise it.

The search is a stack of frames and can be stopped after any match and resumed: `Matches` is such
a suspended search. Each frame has the images placed so far and a cursor to the next candidate.
`Query.step` does one step on the stack, and `Query.effort` falls with every step, which is why
`Query.next` ends.
-/

set_option autoImplicit false

namespace DoublePushout

/-- A question for the occurrences of a pattern in a target. -/
structure Query where
  /-- The graph that is sought. -/
  pattern : Graph
  /-- The graph that is searched. -/
  target : Graph
  /-- Whether distinct pattern nodes need distinct images. -/
  injective : Bool := false
  /-- The first candidate for the first pattern node. -/
  start : Nat := 0
  /-- The end of the candidates for the first pattern node. -/
  stop : Nat := target.nodes.length
  /-- The target, filed for look-up. -/
  index : Index target := .of target
  deriving Repr

/-- A level of the search: the images of the first pattern nodes, and the next candidate. -/
structure Frame where
  /-- The images placed so far, that of the first pattern node first. -/
  assigned : List NodeId
  /-- The next candidate for the node after those. -/
  cursor : Nat
  deriving DecidableEq, Repr

/-- The outcome of one step of a search. -/
inductive Step where
  /-- The search is at its end. -/
  | exhausted
  /-- The search goes on with another stack. -/
  | moved (stack : List Frame)
  /-- Every pattern node has an image. -/
  | found (images : List NodeId) (stack : List Frame)
  deriving DecidableEq, Repr

namespace Query

/-- The query for all matches of a pattern that has nodes. -/
def of (pattern target : Graph) (injective : Bool) : Except Fault Query :=
  if pattern.nodes.isEmpty then .error .emptyPattern
  else .ok { pattern, target, injective }

/-- The query with the images of the first pattern node restricted to a half-open range. -/
def withRoots (q : Query) (start stop : NodeId) : Query :=
  { q with start := start, stop := min stop q.index.size }

/-- The end of the candidates for a pattern node. -/
def candidateEnd (q : Query) (position : NodeId) : Nat :=
  if position = 0 then q.stop else q.index.size

/-- The target edges that realise a pattern edge, given the images of the pattern nodes. -/
def realisations (q : Query) (images : List NodeId) (e : Edge) : List EdgeId :=
  match images[e.tail]?, images[e.head]? with
  | some tail, some head => q.index.edgesBetween tail head
  | _, _ => []

/-- Whether some target edge realises a pattern edge, given the images of the pattern nodes. -/
def realises (q : Query) (images : List NodeId) (e : Edge) : Bool :=
  match images[e.tail]?, images[e.head]? with
  | some tail, some head => q.index.adjacent tail head
  | _, _ => false

/-- The pattern edges whose later end is a given node. -/
def edgesClosedAt (q : Query) (position : NodeId) : List Edge :=
  q.pattern.edges.filter fun e => max e.tail e.head = position

/-- Whether a pattern node admits a target node. -/
def admits (q : Query) (position candidate : NodeId) : Bool :=
  match q.pattern.node? position, q.index.node? candidate with
  | some p, some t => p.admits t
  | _, _ => false

/-- Whether the next pattern node may be placed at a candidate. -/
def accepts (q : Query) (assigned : List NodeId) (candidate : NodeId) : Bool :=
  q.admits assigned.length candidate &&
    !(q.injective && assigned.contains candidate) &&
    (q.edgesClosedAt assigned.length).all (q.realises (assigned ++ [candidate]))

/-- The stack with the cursor of its top frame moved on. -/
def advance : List Frame → List Frame
  | [] => []
  | f :: fs => { f with cursor := f.cursor + 1 } :: fs

/-- One step of the search. The top of the stack is the first frame. -/
def step (q : Query) : List Frame → Step
  | [] => .exhausted
  | f :: fs =>
    if q.candidateEnd f.assigned.length ≤ f.cursor then .moved (advance fs)
    else if !q.accepts f.assigned f.cursor then .moved (advance (f :: fs))
    else
      let images := f.assigned ++ [f.cursor]
      if images.length < q.pattern.nodes.length then .moved (⟨images, 0⟩ :: f :: fs)
      else .found images (advance (f :: fs))

/-- The four things that a step can do at the top frame: give the frame up, pass over a candidate
that is not accepted, open a frame for the next pattern node, or report a match. -/
theorem step_cases (q : Query) (f : Frame) (fs : List Frame) :
    (q.candidateEnd f.assigned.length ≤ f.cursor ∧ q.step (f :: fs) = .moved (advance fs)) ∨
    (f.cursor < q.candidateEnd f.assigned.length ∧ q.accepts f.assigned f.cursor = false ∧
      q.step (f :: fs) = .moved (advance (f :: fs))) ∨
    (f.cursor < q.candidateEnd f.assigned.length ∧ q.accepts f.assigned f.cursor = true ∧
      f.assigned.length + 1 < q.pattern.nodes.length ∧
      q.step (f :: fs) = .moved (⟨f.assigned ++ [f.cursor], 0⟩ :: f :: fs)) ∨
    (f.cursor < q.candidateEnd f.assigned.length ∧ q.accepts f.assigned f.cursor = true ∧
      q.pattern.nodes.length ≤ f.assigned.length + 1 ∧
      q.step (f :: fs) = .found (f.assigned ++ [f.cursor]) (advance (f :: fs))) := by
  by_cases hend : q.candidateEnd f.assigned.length ≤ f.cursor
  · exact .inl ⟨hend, by simp [step, hend]⟩
  · have hlt : f.cursor < q.candidateEnd f.assigned.length := by omega
    -- The candidate is in range: it is rejected, or placed with nodes missing, or placed last.
    cases hacc : q.accepts f.assigned f.cursor with
    | false => exact .inr (.inl ⟨hlt, rfl, by simp [step, hend, hacc]⟩)
    | true =>
      by_cases hmore : f.assigned.length + 1 < q.pattern.nodes.length
      · exact .inr (.inr (.inl ⟨hlt, rfl, hmore, by simp [step, hend, hacc, hmore]⟩))
      · exact .inr (.inr (.inr ⟨hlt, rfl, by omega, by simp [step, hend, hacc, hmore]⟩))

/-! ### Why a search ends

A bound on the steps left: each candidate of a frame costs the whole search below it. A frame with
another one on top of it has already begun its current candidate. -/

/-- A bound on the steps that one candidate costs, by the number of pattern nodes after it. -/
def candidateEffort (q : Query) : Nat → Nat
  | 0 => 1
  | below + 1 => q.target.nodes.length * candidateEffort q below + 2

/-- A bound on the steps for a number of candidates of a frame. -/
def frameEffort (q : Query) (f : Frame) (candidates : Nat) : Nat :=
  candidates * q.candidateEffort (q.pattern.nodes.length - 1 - f.assigned.length) + 1

/-- The candidates of a frame from its cursor on. -/
def candidatesLeft (q : Query) (f : Frame) : Nat :=
  q.candidateEnd f.assigned.length - f.cursor

/-- A bound on the steps for the frames below the top. -/
def waitingEffort (q : Query) : List Frame → Nat
  | [] => 0
  | f :: fs => q.frameEffort f (q.candidatesLeft f - 1) + waitingEffort q fs

/-- A bound on the steps left. -/
def effort (q : Query) : List Frame → Nat
  | [] => 0
  | f :: fs => q.frameEffort f (q.candidatesLeft f) + q.waitingEffort fs

/-- Every candidate costs at least one step. -/
theorem candidateEffort_pos (q : Query) (below : Nat) : 0 < q.candidateEffort below := by
  cases below <;> simp [candidateEffort]

/-- Moving the top cursor on leaves at most what was counted for the waiting frames. -/
theorem effort_advance_le (q : Query) (fs : List Frame) :
    q.effort (advance fs) ≤ q.waitingEffort fs := by
  cases fs with
  | nil => simp [advance, effort]
  | cons f fs =>
    simp only [advance, effort, waitingEffort, candidatesLeft, frameEffort, Nat.sub_add_eq,
      Nat.le_refl]

/-- Moving on from a candidate lowers the effort. -/
theorem effort_advance_lt (q : Query) (f : Frame) (fs : List Frame)
    (h : f.cursor < q.candidateEnd f.assigned.length) :
    q.effort (advance (f :: fs)) < q.effort (f :: fs) := by
  have hpos := q.candidateEffort_pos (q.pattern.nodes.length - 1 - f.assigned.length)
  have hleft : q.candidatesLeft f = q.candidatesLeft { f with cursor := f.cursor + 1 } + 1 := by
    simp only [candidatesLeft]
    omega
  simp only [advance, effort, frameEffort, hleft, Nat.add_mul, Nat.one_mul]
  omega

/-- Opening a frame at a candidate lowers the effort: the candidate has paid for the frame. -/
theorem effort_push_lt (q : Query) (f : Frame) (fs : List Frame) (images : List NodeId)
    (hlen : images.length = f.assigned.length + 1)
    (h : f.cursor < q.candidateEnd f.assigned.length)
    (hmore : images.length < q.pattern.nodes.length) :
    q.effort (⟨images, 0⟩ :: f :: fs) < q.effort (f :: fs) := by
  -- The waiting frame gives up one of the candidates that it had left.
  have hleft : q.candidatesLeft f = q.candidatesLeft f - 1 + 1 := by
    simp only [candidatesLeft]
    omega
  have hbelow : q.pattern.nodes.length - 1 - f.assigned.length =
      q.pattern.nodes.length - 1 - images.length + 1 := by omega
  have hend : q.candidateEnd images.length = q.target.nodes.length := by
    simp [candidateEnd, hlen]
  -- The frame pushed has all nodes of the target before it.
  have htop : q.candidatesLeft ⟨images, 0⟩ = q.target.nodes.length := by
    simp [candidatesLeft, hend]
  simp only [effort, waitingEffort, frameEffort, htop, hbelow, candidateEffort]
  rw [hleft, Nat.add_sub_cancel, Nat.add_mul, Nat.one_mul]
  omega

/-- A step that moves the search lowers the effort that is left. -/
theorem effort_lt_of_moved {q : Query} {stack stack' : List Frame}
    (h : q.step stack = .moved stack') : q.effort stack' < q.effort stack := by
  cases stack with
  | nil => cases h
  | cons f fs =>
    rcases q.step_cases f fs with ⟨-, hs⟩ | ⟨hlt, -, hs⟩ | ⟨hlt, -, hmore, hs⟩ | ⟨-, -, -, hs⟩ <;>
      cases hs.symm.trans h
    · -- The frame given up has no candidates left, but still counted for one step.
      refine Nat.lt_of_le_of_lt (q.effort_advance_le fs) ?_
      simp only [effort, frameEffort]
      omega
    · exact q.effort_advance_lt f fs hlt
    · exact q.effort_push_lt f fs _ (by simp) hlt (by simpa using hmore)

/-- So does a step that finds something. -/
theorem effort_lt_of_found {q : Query} {stack stack' : List Frame} {images : List NodeId}
    (h : q.step stack = .found images stack') : q.effort stack' < q.effort stack := by
  cases stack with
  | nil => cases h
  | cons f fs =>
    rcases q.step_cases f fs with ⟨-, hs⟩ | ⟨-, -, hs⟩ | ⟨-, -, -, hs⟩ | ⟨hlt, -, -, hs⟩ <;>
      cases hs.symm.trans h
    exact q.effort_advance_lt f fs hlt

/-! ### Running a search -/

/-- The next match of a suspended search, and the search after it. -/
def next (q : Query) (stack : List Frame) : Option (List NodeId × List Frame) :=
  match _h : q.step stack with
  | .exhausted => none
  | .moved stack' => q.next stack'
  | .found images stack' => some (images, stack')
termination_by q.effort stack
decreasing_by exact effort_lt_of_moved _h

/-- The matches that a suspended search has yet to find, after those found before, which are given
with the last one first. -/
def collect (q : Query) (stack : List Frame) (found : List (List NodeId)) : List (List NodeId) :=
  match _h : q.step stack with
  | .exhausted => found.reverse
  | .moved stack' => q.collect stack' found
  | .found images stack' => q.collect stack' (images :: found)
termination_by q.effort stack
decreasing_by
  · exact effort_lt_of_moved _h
  · exact effort_lt_of_found _h

/-- All matches that a suspended search has yet to find. -/
def remaining (q : Query) (stack : List Frame) : List (List NodeId) := q.collect stack []

/-- What was found before comes before what is still found. -/
theorem collect_append (q : Query) (stack : List Frame) (found before : List (List NodeId)) :
    q.collect stack (found ++ before) = before.reverse ++ q.collect stack found := by
  fun_induction collect q stack found with
  | case1 stack found h => rw [collect]; split <;> simp_all
  | case2 stack found stack' h ih => rw [collect]; split <;> simp_all
  | case3 stack found images stack' h ih => rw [collect]; split <;> simp_all

/-- What a search still finds is what its next step finds, and what it finds after that. -/
theorem remaining_eq (q : Query) (stack : List Frame) :
    q.remaining stack = match q.step stack with
      | .exhausted => []
      | .moved stack' => q.remaining stack'
      | .found images stack' => images :: q.remaining stack' := by
  rw [remaining, collect]
  split
  · simp_all
  · simp_all [remaining]
  · next images stack' h => simpa [h, remaining] using q.collect_append stack' [] [images]

/-- The match that places the pattern nodes at the given images. -/
def matchAt (q : Query) (images : List NodeId) : Mapping :=
  ⟨images, q.pattern.edges.map (q.realisations images)⟩

end Query

/-- A search that can be resumed. -/
structure Matches where
  /-- What is sought. -/
  query : Query
  /-- The frames of the search, the top first. -/
  stack : List Frame
  deriving Repr

namespace Matches

/-- The search for a query, before its first match. It faults at a pattern edge that ends outside
the pattern. -/
def start (q : Query) : Except Fault Matches :=
  let size := q.pattern.nodes.length
  match q.pattern.edges.find? fun e => size ≤ max e.tail e.head with
  | some e => .error (.outOfRange size (max e.tail e.head))
  | none => .ok ⟨q, [⟨[], q.start⟩]⟩

/-- The next match, and the search after it. -/
def next (ms : Matches) : Option (Mapping × Matches) :=
  (ms.query.next ms.stack).map fun (images, stack) => (ms.query.matchAt images, { ms with stack })

/-- All matches from here on. -/
def toList (ms : Matches) : List Mapping := (ms.query.remaining ms.stack).map ms.query.matchAt

/-- Up to so many matches from here on, after those found before, which are given with the last
one first, and the search after them. -/
def takeOnto (found : List Mapping) : Nat → Matches → List Mapping × Matches
  | 0, ms => (found.reverse, ms)
  | n + 1, ms =>
    match ms.next with
    | none => (found.reverse, { ms with stack := [] })
    | some (m, ms) => takeOnto (m :: found) n ms

/-- Up to so many matches from here on, and the search after them. -/
def take (n : Nat) (ms : Matches) : List Mapping × Matches := takeOnto [] n ms

/-- Taking matches onto a pile is taking them and putting the pile before them. -/
theorem takeOnto_eq (found : List Mapping) (n : Nat) (ms : Matches) :
    takeOnto found n ms = (found.reverse ++ (take n ms).1, (take n ms).2) := by
  induction n generalizing found ms with
  | zero => simp [take, takeOnto]
  | succ n ih =>
    cases h : ms.next with
    | none => simp [take, takeOnto, h]
    | some next => simp [take, takeOnto, h, ih (_ :: _)]

/-- Taking no match leaves the search as it is. -/
@[simp] theorem take_zero (ms : Matches) : take 0 ms = ([], ms) := rfl

/-- Taking one match more is taking the next one first. -/
theorem take_succ (n : Nat) (ms : Matches) :
    take (n + 1) ms = match ms.next with
      | none => ([], { ms with stack := [] })
      | some (m, ms) => (m :: (take n ms).1, (take n ms).2) := by
  rw [take, takeOnto]
  split
  · simp_all
  · simp [takeOnto_eq [_]]

end Matches

/-- All matches of a query. -/
def Query.findAll (q : Query) : Except Fault (List Mapping) := do
  return (← Matches.start q).toList

end DoublePushout
