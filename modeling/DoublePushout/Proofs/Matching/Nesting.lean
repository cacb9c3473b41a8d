import DoublePushout.Proofs.Matching.Cursor
import DoublePushout.Proofs.Matching.Safety

/-!
# `DoublePushout.Proofs.Matching.Nesting`: how the frames of a search are stacked

Each frame of a stack but the bottom one was opened by the frame below it, at a candidate that was
accepted there and that this frame still points at. `Query.Nested` says so from the top of the
stack down, and `Nested.step` is the invariant: giving a frame up uncovers one that can move on,
because its cursor stands at a candidate.

Seen from the bottom this is `Query.InOrder`. The frame at a height has that many images, they and
its cursor are the images of the next frame, and they place the first pattern nodes in the target
(`Query.Fits`). The checks at these nodes look at every pattern edge between them, and only once
(`flatMap_edgesClosedAt_perm`).

`Query.Proceeds` is what a step does to such a stack. It reads no table outside it, and it moves a
cursor only before the end of the candidates. The loop of `Query.next`, which `Query.nextWithin`
runs for a number of rounds, needs at most one more than the stack's effort.

`search_inOrder` is the main statement: all of this holds at whatever stack a search comes by.
-/

set_option autoImplicit false

namespace DoublePushout

/-- The frames that a step leaves. The last step of a search finds none and leaves none. -/
def Step.rest : Step → List Frame
  | .exhausted => []
  | .moved stack => stack
  | .found _ stack => stack

/-- The frame at a height of a stack, counted from the bottom. -/
def frameAt (stack : List Frame) (i : Nat) : Option Frame := stack.reverse[i]?

/-- The top frame stands as high as there are frames below it. -/
theorem frameAt_top {f : Frame} {fs : List Frame} : frameAt (f :: fs) fs.length = some f := by
  simp [frameAt]

/-- There are frames only below the height of the stack. -/
theorem lt_length_of_frameAt {f : Frame} {stack : List Frame} {i : Nat}
    (h : frameAt stack i = some f) : i < stack.length := by
  rw [← List.length_reverse]
  exact (List.getElem?_eq_some_iff.1 h).1

/-- A height holds the top frame, or one of the frames below it. -/
theorem frameAt_cons_cases {f g : Frame} {fs : List Frame} {i : Nat}
    (h : frameAt (f :: fs) i = some g) :
    (g = f ∧ i = fs.length) ∨ (i < fs.length ∧ frameAt fs i = some g) := by
  rw [frameAt, List.reverse_cons, getElem?_concat_eq_some, List.length_reverse] at h
  rcases h with htop | hbelow
  · exact .inl htop
  · exact .inr ⟨lt_length_of_frameAt hbelow, hbelow⟩

namespace Query

variable {q : Query} {images : List NodeId} {stack fs : List Frame} {f : Frame}

/-! ### The images placed so far -/

/-- The images place the first pattern nodes in the target. -/
structure Fits (q : Query) (images : List NodeId) : Prop where
  /-- Each of these nodes admits its image. -/
  node : ∀ i image, images[i]? = some image →
    ∃ p t, q.pattern.node? i = some p ∧ q.target.node? image = some t ∧ p.admits t = true
  /-- The images of the ends of a pattern edge between these nodes are joined in the target. -/
  edge : ∀ e ∈ q.pattern.edges, e.tail < images.length → e.head < images.length →
    ∃ tail head, images[e.tail]? = some tail ∧ images[e.head]? = some head ∧
      q.target.adjacent tail head = true
  /-- The images are distinct if they have to be. -/
  distinct : q.injective = true → images.Nodup

/-- No images fit everywhere. -/
theorem Fits.nil : q.Fits [] where
  node i image h := by simp at h
  edge e _ h := by simp at h
  distinct _ := List.nodup_nil

/-- An accepted candidate is one more image. -/
theorem Fits.concat {c : NodeId} (h : q.Fits images) (hacc : q.accepts images c = true) :
    q.Fits (images ++ [c]) := by
  obtain ⟨hadmits, hfresh, hedges⟩ := accepts_eq_true.1 hacc
  constructor
  case node =>
    intro i image himage
    rcases getElem?_concat_eq_some.1 himage with ⟨rfl, rfl⟩ | himage
    · exact admits_eq_true.1 hadmits
    · exact h.node i image himage
  case edge =>
    -- An edge with both ends placed has them among the older images, or was closed just now.
    intro e he htail hhead
    rw [List.length_append, List.length_singleton] at htail hhead
    have hle : max e.tail e.head ≤ images.length :=
      Nat.le_of_lt_succ (Nat.max_lt.2 ⟨htail, hhead⟩)
    rcases Nat.lt_or_eq_of_le hle with hbefore | hnow
    · obtain ⟨htail, hhead⟩ := Nat.max_lt.1 hbefore
      obtain ⟨tail, head, htail, hhead, hadj⟩ := h.edge e he htail hhead
      exact ⟨tail, head, getElem?_concat_eq_some.2 (.inr htail),
        getElem?_concat_eq_some.2 (.inr hhead), hadj⟩
    · -- The node placed now is the later end, so the edge is one of those checked with it.
      exact realises_eq_true.1 (hedges e he hnow)
  case distinct =>
    intro hinj
    rw [← List.concat_eq_append]
    exact (h.distinct hinj).concat (hfresh hinj)

/-- The checks at the first pattern nodes look at the edges between these nodes, at each once. -/
theorem flatMap_edgesClosedAt_perm (q : Query) (k : Nat) :
    ((List.range k).flatMap q.edgesClosedAt).Perm
      (q.pattern.edges.filter fun e => max e.tail e.head < k) :=
  flatMap_filter_range_perm q.pattern.edges (fun e => max e.tail e.head) k

/-! ### Frames opened by the frames below them -/

/-- Every frame but the bottom one was opened by the frame below it, at the candidate that this
frame's cursor stands at. -/
inductive Nested (q : Query) : List Frame → Prop where
  | nil : Nested q []
  /-- The bottom frame has placed nothing. Its range may begin behind its end. -/
  | root {cursor : Nat} (inside : cursor ≤ max q.start q.stop) : Nested q [⟨[], cursor⟩]
  /-- A frame for the next pattern node. -/
  | opened {f : Frame} {fs : List Frame} {cursor : Nat} (below : Nested q (f :: fs))
    (candidate : f.cursor < q.candidateEnd f.assigned.length)
    (accepted : q.accepts f.assigned f.cursor = true)
    (more : f.assigned.length + 1 < q.pattern.nodes.length)
    (inside : cursor ≤ q.target.nodes.length) :
    Nested q (⟨f.assigned ++ [f.cursor], cursor⟩ :: f :: fs)

/-- The top frame has as many images as there are frames below it. -/
theorem Nested.length_assigned (h : q.Nested (f :: fs)) : f.assigned.length = fs.length := by
  generalize hstack : f :: fs = stack at h
  induction h generalizing f fs with
  | nil => cases hstack
  | root _ =>
    cases hstack
    rfl
  | opened _ _ _ _ _ ih =>
    cases hstack
    rw [List.length_append, ih rfl]
    rfl

/-- After the first node all nodes of the target are candidates. -/
theorem candidateEnd_succ (q : Query) (i : Nat) :
    q.candidateEnd (i + 1) = q.target.nodes.length := by
  rw [candidateEnd, if_neg (Nat.succ_ne_zero i), Index.size_eq]

/-- The top frame can move on from a candidate. -/
theorem Nested.advance (h : q.Nested (f :: fs))
    (hlt : f.cursor < q.candidateEnd f.assigned.length) : q.Nested (advance (f :: fs)) := by
  cases h with
  | root _ => exact .root (Nat.le_trans hlt (Nat.le_max_right _ _))
  | opened h hbelow hacc hmore _ =>
    rw [List.length_append, List.length_singleton, candidateEnd_succ] at hlt
    exact .opened h hbelow hacc hmore hlt

/-- A frame that is given up leaves one that can move on, or none. -/
theorem Nested.giveUp (h : q.Nested (f :: fs)) : q.Nested (Query.advance fs) := by
  -- The frame below still stands at the candidate at which it opened this one.
  cases h with
  | root _ => exact .nil
  | opened h hbelow _ _ _ => exact h.advance hbelow

/-- One step keeps the frames nested. -/
theorem Nested.step (h : q.Nested stack) : q.Nested (q.step stack).rest := by
  cases stack with
  | nil => exact .nil
  | cons f fs =>
    rcases q.step_cases f fs with ⟨-, hs⟩ | ⟨hlt, -, hs⟩ | ⟨hlt, hacc, hmore, hs⟩ |
      ⟨hlt, -, -, hs⟩ <;> rw [hs]
    · exact h.giveUp
    · exact h.advance hlt
    · exact .opened h hlt hacc hmore (Nat.zero_le _)
    · exact h.advance hlt

/-- What a step leaves is reachable, also when the step is the last one. -/
theorem Reachable.step (h : q.Reachable stack) : q.Reachable (q.step stack).rest := by
  cases hs : q.step stack with
  | exhausted => exact h.nil hs
  | moved stack' => exact h.moved hs
  | found images stack' => exact h.found hs

/-- A search keeps its frames nested. -/
theorem Reachable.nested (h : q.Reachable stack) : q.Nested stack := by
  induction h with
  | start => exact .root (Nat.le_max_left _ _)
  | moved _ hs ih =>
    have hnested := ih.step
    rwa [hs] at hnested
  | found _ hs ih =>
    have hnested := ih.step
    rwa [hs] at hnested

/-! ### The stack from the bottom -/

/-- What holds of a stack, height by height. -/
structure InOrder (q : Query) (stack : List Frame) : Prop where
  /-- There are no more frames than pattern nodes. -/
  length_le : stack.length ≤ q.pattern.nodes.length
  /-- The frame at a height has that many images. -/
  length_assigned : ∀ i f, frameAt stack i = some f → f.assigned.length = i
  /-- The images of a frame and its cursor are the images of the frame above it. -/
  assigned_above : ∀ i f g, frameAt stack i = some f → frameAt stack (i + 1) = some g →
    g.assigned = f.assigned ++ [f.cursor]
  /-- The images of a frame place the first pattern nodes in the target. -/
  fits : ∀ i f, frameAt stack i = some f → q.Fits f.assigned
  /-- Below the top every cursor stands at a candidate. -/
  cursor_lt : ∀ i f, frameAt stack i = some f → i + 1 < stack.length →
    f.cursor < q.candidateEnd i
  /-- No cursor goes beyond the target, but for one that begins there. -/
  cursor_le : ∀ i f, frameAt stack i = some f → f.cursor ≤ max q.start q.target.nodes.length

/-- An empty stack is in order. -/
theorem InOrder.nil : q.InOrder [] where
  length_le := Nat.zero_le _
  length_assigned i f hf := by cases hf
  assigned_above i f g hf _ := by cases hf
  fits i f hf := by cases hf
  cursor_lt i f hf _ := by cases hf
  cursor_le i f hf := by cases hf

/-- A bottom frame alone is in order. -/
theorem InOrder.root {cursor : Nat} (hne : q.pattern.nodes ≠ [])
    (hle : cursor ≤ max q.start q.target.nodes.length) : q.InOrder [⟨[], cursor⟩] := by
  -- The root frame is the only one on the stack, so nothing is said of frames above it.
  have honly : ∀ i f, frameAt [⟨[], cursor⟩] i = some f → f = ⟨[], cursor⟩ ∧ i = 0 := by
    intro i f hf
    rcases frameAt_cons_cases hf with htop | ⟨hi, -⟩
    · exact htop
    · exact absurd hi (Nat.not_lt_zero i)
  constructor
  case length_le => exact List.length_pos_iff.2 hne
  case length_assigned =>
    intro i f hf
    obtain ⟨rfl, rfl⟩ := honly i f hf
    rfl
  case assigned_above =>
    intro i f g _ hg
    exact absurd (honly _ g hg).2 (Nat.succ_ne_zero i)
  case fits =>
    intro i f hf
    obtain ⟨rfl, -⟩ := honly i f hf
    exact .nil
  case cursor_lt =>
    intro i f _ hi
    exact absurd (Nat.lt_of_succ_lt_succ hi) (Nat.not_lt_zero i)
  case cursor_le =>
    intro i f hf
    obtain ⟨rfl, -⟩ := honly i f hf
    exact hle

/-- A frame that is opened by the top one is in order with those below it. -/
theorem InOrder.opened {cursor : Nat} (h : q.InOrder (f :: fs))
    (hlt : f.cursor < q.candidateEnd f.assigned.length)
    (hacc : q.accepts f.assigned f.cursor = true)
    (hmore : f.assigned.length + 1 < q.pattern.nodes.length)
    (hle : cursor ≤ q.target.nodes.length) :
    q.InOrder (⟨f.assigned ++ [f.cursor], cursor⟩ :: f :: fs) := by
  have hlen : f.assigned.length = fs.length := h.length_assigned _ f frameAt_top
  -- At each height is either the new frame or one that was in order before. The two statements
  -- about a frame and what is above it speak of the new one when the height is that of `f`.
  constructor
  case length_le =>
    show fs.length + 1 + 1 ≤ _
    omega
  case length_assigned =>
    intro i g hg
    rcases frameAt_cons_cases hg with ⟨rfl, rfl⟩ | ⟨-, hg⟩
    · rw [List.length_append, hlen]
      rfl
    · exact h.length_assigned i g hg
  case assigned_above =>
    intro i g g' hg hg'
    rcases frameAt_cons_cases hg' with ⟨rfl, hi⟩ | ⟨hi, hg'⟩
    · obtain rfl : i = fs.length := Nat.succ.inj hi
      rcases frameAt_cons_cases hg with ⟨-, hi⟩ | ⟨-, hg⟩
      · exact absurd hi (Nat.ne_of_lt (Nat.lt_succ_self _))
      · cases frameAt_top.symm.trans hg
        rfl
    · rcases frameAt_cons_cases hg with ⟨-, rfl⟩ | ⟨-, hg⟩
      · omega
      · exact h.assigned_above i g g' hg hg'
  case fits =>
    intro i g hg
    rcases frameAt_cons_cases hg with ⟨rfl, -⟩ | ⟨-, hg⟩
    · exact (h.fits _ f frameAt_top).concat hacc
    · exact h.fits i g hg
  case cursor_lt =>
    intro i g hg hi
    rcases frameAt_cons_cases hg with ⟨-, rfl⟩ | ⟨-, hg⟩
    · exact absurd hi (Nat.lt_irrefl _)
    · rcases Nat.lt_or_eq_of_le (Nat.le_of_lt_succ hi) with hi | hi
      · exact h.cursor_lt i g hg hi
      · obtain rfl : i = fs.length := Nat.succ.inj hi
        cases frameAt_top.symm.trans hg
        rwa [hlen] at hlt
  case cursor_le =>
    intro i g hg
    rcases frameAt_cons_cases hg with ⟨rfl, -⟩ | ⟨-, hg⟩
    · exact Nat.le_trans hle (Nat.le_max_right _ _)
    · exact h.cursor_le i g hg

/-- A nested stack is in order, by induction on how its frames were opened. -/
theorem Nested.inOrder (hne : q.pattern.nodes ≠ []) (hstop : q.stop ≤ q.target.nodes.length)
    (h : q.Nested stack) : q.InOrder stack := by
  induction h with
  | nil => exact .nil
  | root hle => exact .root hne (by omega)
  | opened _ hlt hacc hmore hle ih => exact ih.opened hlt hacc hmore hle

/-! ### What a step does to the frames -/

/-- A frame that stays at its height is as it was, or its cursor has moved on from a candidate. -/
def FramesStay (q : Query) (stack stack' : List Frame) : Prop :=
  ∀ i f f', frameAt stack i = some f → frameAt stack' i = some f' →
    f' = f ∨ f.cursor < q.candidateEnd i ∧ f' = { f with cursor := f.cursor + 1 }

/-- Moving the top frame on leaves the frames below it as they were. -/
theorem Nested.framesStay_advance (h : q.Nested (f :: fs))
    (hlt : f.cursor < q.candidateEnd f.assigned.length) :
    q.FramesStay (f :: fs) (Query.advance (f :: fs)) := by
  intro i g g' hg hg'
  rcases frameAt_cons_cases hg with ⟨rfl, hi⟩ | ⟨hi, hg⟩
  · rcases frameAt_cons_cases hg' with ⟨rfl, -⟩ | ⟨hi', -⟩
    · rw [h.length_assigned, ← hi] at hlt
      exact .inr ⟨hlt, rfl⟩
    · omega
  · rcases frameAt_cons_cases hg' with ⟨-, hi'⟩ | ⟨-, hg'⟩
    · omega
    · cases hg.symm.trans hg'
      exact .inl rfl

/-- A new frame leaves those below it as they were. -/
theorem framesStay_push (q : Query) (f : Frame) (stack : List Frame) :
    q.FramesStay stack (f :: stack) := by
  intro i g g' hg hg'
  have hi := lt_length_of_frameAt hg
  rcases frameAt_cons_cases hg' with ⟨-, htop⟩ | ⟨-, hg'⟩
  · omega
  · cases hg.symm.trans hg'
    exact .inl rfl

/-- Nothing stays at the height of a frame that is given up. -/
theorem FramesStay.giveUp {stack' : List Frame} (h : q.FramesStay stack stack')
    (hlen : stack'.length = stack.length) : q.FramesStay (f :: stack) stack' := by
  intro i g g' hg hg'
  have hi := lt_length_of_frameAt hg'
  rcases frameAt_cons_cases hg with ⟨-, htop⟩ | ⟨-, hg⟩
  · omega
  · exact h i g g' hg hg'

/-- One step moves a cursor only if it stands at a candidate. -/
theorem Nested.framesStay_step (h : q.Nested stack) : q.FramesStay stack (q.step stack).rest := by
  cases stack with
  | nil =>
    intro i f f' hf
    cases hf
  | cons f fs =>
    rcases q.step_cases f fs with ⟨-, hs⟩ | ⟨hlt, -, hs⟩ | ⟨-, -, -, hs⟩ | ⟨hlt, -, -, hs⟩ <;>
      rw [hs]
    · -- Only the frame below the one given up has changed, and it stood at a candidate.
      cases h with
      | root _ =>
        intro i g g' _ hg'
        cases hg'
      | opened h hbelow _ _ _ => exact (h.framesStay_advance hbelow).giveUp rfl
    · exact h.framesStay_advance hlt
    · exact q.framesStay_push _ _
    · exact h.framesStay_advance hlt

/-! ### Rounds of the loop -/

/-- The next match of a suspended search, looked for in so many rounds at most. There is no answer
if they are not enough. -/
def nextWithin (q : Query) : Nat → List Frame → Option (Option (List NodeId × List Frame))
  | 0, _ => none
  | rounds + 1, stack =>
    match q.step stack with
    | .exhausted => some none
    | .moved stack' => q.nextWithin rounds stack'
    | .found images stack' => some (some (images, stack'))

/-- More rounds than the effort that a stack takes are enough. -/
theorem nextWithin_eq {rounds : Nat} (h : q.effort stack < rounds) :
    q.nextWithin rounds stack = some (q.next stack) := by
  -- A round that is not the last one lowers the effort, and leaves one round less.
  induction rounds generalizing stack with
  | zero => exact absurd h (Nat.not_lt_zero _)
  | succ rounds ih =>
    rw [nextWithin, next]
    split
    · next hs => rw [hs]
    · next stack' hs =>
      rw [hs]
      have hless := effort_lt_of_moved hs
      exact ih (by omega)
    · next images stack' hs => rw [hs]

/-- What a stack does next. -/
structure Proceeds (q : Query) (stack : List Frame) : Prop where
  /-- No read of a step is outside its table. -/
  reads_inside : q.checkedStep stack = .ok (q.step stack)
  /-- A step moves a cursor only before the end of its candidates. -/
  frames_stay : q.FramesStay stack (q.step stack).rest
  /-- The loop for the next match comes to its end. -/
  ends : q.nextWithin (q.effort stack + 1) stack = some (q.next stack)

end Query

/-- The first image begins where the range does, or at the first node without a range. -/
theorem SearchOptions.start_of_query {o : SearchOptions} {pattern target : Graph} {q : Query}
    (h : o.query pattern target = .ok q) : q.start = (o.roots.map Prod.fst).getD 0 := by
  obtain ⟨q', hof, hq⟩ := bind_eq_ok.1 h
  rw [Query.of] at hof
  split at hof
  · cases hof
  · cases hof
    rw [← pure_eq_ok.1 hq]
    cases o.roots <;> rfl

/-- The search for a valid pattern with a node keeps its stack in order, whatever the target, the
injectivity and the range of the first image. At every stack that it comes by, within a read or
between two reads, the frames are in order and the next step goes well: it reads only what is
there, it moves a cursor only before the end of its candidates, and the read that it belongs to
comes to its end. The checks at the first pattern nodes look at each pattern edge between these
nodes once. -/
theorem search_inOrder {pattern : Graph} (target : Graph) (options : SearchOptions)
    (hvalid : pattern.validate = .ok ()) (hne : pattern.nodes ≠ []) :
    ∃ q, options.query pattern target = .ok q ∧ q.pattern = pattern ∧ q.target = target ∧
      q.injective = options.injective ∧ q.start = (options.roots.map Prod.fst).getD 0 ∧
      Matches.start q = .ok ⟨q, [⟨[], q.start⟩]⟩ ∧
      (∀ k, ((List.range k).flatMap q.edgesClosedAt).Perm
        (q.pattern.edges.filter fun e => max e.tail e.head < k)) ∧
      ∀ stack, q.Reachable stack → q.InOrder stack ∧ q.Proceeds stack ∧
        q.Reachable (q.step stack).rest ∧
        ∀ m ms, Matches.next ⟨q, stack⟩ = some (m, ms) → ms.query = q ∧ q.Reachable ms.stack := by
  obtain ⟨q, hq, rfl, htarget, hinjective, hstop⟩ := options.query_spec target hne
  have hclosed : q.Closed := (Graph.validate_eq_ok_iff.1 hvalid).ends_lt
  have hinside := Query.readsInside hne hclosed hstop
  refine ⟨q, hq, rfl, htarget, hinjective, SearchOptions.start_of_query hq,
    Query.matches_start_eq hclosed, q.flatMap_edgesClosedAt_perm, fun stack h => ?_⟩
  refine ⟨h.nested.inOrder hne hstop, ?_, h.step, ?_⟩
  · have hnext := Query.nextWithin_eq (q := q) (Nat.lt_succ_self (q.effort stack))
    exact ⟨(hinside stack h).1, h.nested.framesStay_step, hnext⟩
  · -- A match that is reported comes with the stack that the search goes on from.
    intro m ms hnext
    rw [Matches.next, Option.map_eq_some_iff] at hnext
    obtain ⟨found, hfound, heq⟩ := hnext
    cases heq
    exact ⟨rfl, ((h.checkedNext_eq hinside).2.2 found.1 found.2 hfound).1⟩

/-- The stack of a search for `loopPattern` in `loopTarget` that has placed the first node. -/
def loopStack : List Frame := [⟨[0], 0⟩, ⟨[], 0⟩]

/-- The first step of that search opens a frame, and the stack with both frames is in order. -/
theorem search_inOrder_loop :
    loopPattern.validate = .ok () ∧ loopPattern.nodes ≠ [] ∧
    ∃ q, SearchOptions.query { roots := some (0, 7) } loopPattern loopTarget = .ok q ∧
      q.pattern = loopPattern ∧ q.target = loopTarget ∧ q.injective = false ∧ q.start = 0 ∧
      Matches.start q = .ok ⟨q, [⟨[], q.start⟩]⟩ ∧
      (∀ k, ((List.range k).flatMap q.edgesClosedAt).Perm
        (q.pattern.edges.filter fun e => max e.tail e.head < k)) ∧
      (∀ stack, q.Reachable stack → q.InOrder stack ∧ q.Proceeds stack ∧
        q.Reachable (q.step stack).rest ∧
        ∀ m ms, Matches.next ⟨q, stack⟩ = some (m, ms) → ms.query = q ∧ q.Reachable ms.stack) ∧
      q.Reachable loopStack ∧ q.InOrder loopStack ∧ q.Proceeds loopStack := by
  have hvalid : loopPattern.validate = .ok () := by decide
  -- One step from the root opens a second frame, below which the root waits.
  have hfirst : (SearchOptions.query { roots := some (0, 7) } loopPattern loopTarget).map
      (fun q => (q.step [⟨[], 0⟩]).rest) = .ok loopStack := by decide +kernel
  obtain ⟨q, hq, hpattern, htarget, hinjective, hstart, hms, hperm, hall⟩ :=
    search_inOrder loopTarget { roots := some (0, 7) } hvalid (by decide)
  have hreachable : q.Reachable loopStack := by
    rw [hq] at hfirst
    rw [← Except.ok.inj hfirst]
    exact (hstart ▸ Query.Reachable.start).step
  obtain ⟨horder, hproceeds, -⟩ := hall loopStack hreachable
  exact ⟨hvalid, by decide, q, hq, hpattern, htarget, hinjective, hstart, hms, hperm, hall,
    hreachable, horder, hproceeds⟩

-- A range that ends before it begins leaves nothing to look for.
example : (do
    let q ← SearchOptions.query { roots := some (7, 1) } loopPattern loopTarget
    return (q.step [⟨[], q.start⟩], q.next [⟨[], q.start⟩]) : Except Fault (Step × Option _)) =
    .ok (.moved [], none) := by cbv

end DoublePushout
