import DoublePushout.Proofs.Matching.Occurrence
import DoublePushout.Proofs.Steps

/-!
# `DoublePushout.Proofs.Matching.Reads`: the tables that a search reads

A search reads several tables at handles that come from elsewhere: the nodes of both graphs, the
images placed so far, and the pattern edges filed by the node at which they are checked.
`Query.step` answers for a handle outside its table as well. `Query.checkedStep` is the same step
with every read made through `entry`, which faults there, and `Query.checkedMatch` is the match at
an image list with its reads made so.

`checkedStep_eq` and `checkedMatch_eq` say that no read of a reachable stack faults: the checked
versions give a value, and the same one. What they need is that the pattern's edges end inside it
and that the range for the first node ends inside the target. Handles of the target's edges are
not read at all, so the target may be any graph.
-/

set_option autoImplicit false

namespace DoublePushout.Query

variable {q : Query}

/-! ### The checked versions -/

/-- The image of a pattern node, the candidate counting as that of the node being placed. -/
def readImage (assigned : List NodeId) (candidate p : NodeId) : Except Fault NodeId :=
  if p = assigned.length then .ok candidate else entry assigned p

/-- Whether a pattern node admits a target node. The target is read for a labelled node only. -/
def checkedAdmits (q : Query) (position candidate : NodeId) : Except Fault Bool := do
  let p ← q.pattern.node position
  if p.effective = none then return true
  return (← q.target.node candidate).effective = p.effective

/-- Whether some target edge realises a pattern edge between nodes placed by now. -/
def checkedRealises (q : Query) (assigned : List NodeId) (candidate : NodeId) (e : Edge) :
    Except Fault Bool := do
  let tail ← readImage assigned candidate e.tail
  let head ← readImage assigned candidate e.head
  return q.target.adjacent tail head

/-- Whether the next pattern node may be placed at a candidate. The edges to check are filed under
the pattern's nodes. -/
def checkedAccepts (q : Query) (assigned : List NodeId) (candidate : NodeId) :
    Except Fault Bool := do
  if !(← q.checkedAdmits assigned.length candidate) then return false
  if q.injective && assigned.contains candidate then return false
  let edges ← entry (q.pattern.nodeIds.map q.edgesClosedAt) assigned.length
  edges.allM (q.checkedRealises assigned candidate)

/-- One step of the search. -/
def checkedStep (q : Query) : List Frame → Except Fault Step
  | [] => return .exhausted
  | f :: fs => do
    if q.candidateEnd f.assigned.length ≤ f.cursor then return .moved (advance fs)
    if !(← q.checkedAccepts f.assigned f.cursor) then return .moved (advance (f :: fs))
    let images := f.assigned ++ [f.cursor]
    if images.length < q.pattern.nodes.length then return .moved (⟨images, 0⟩ :: f :: fs)
    return .found images (advance (f :: fs))

/-- The match that places the pattern nodes at the given images. -/
def checkedMatch (q : Query) (images : List NodeId) : Except Fault Mapping := do
  let edges ← q.pattern.edges.mapM fun e => do
    let tail ← entry images e.tail
    let head ← entry images e.head
    return q.target.edgesBetween tail head
  return ⟨images, edges⟩

/-! ### No read faults -/

/-- Going through a list with reads that succeed is going through it without them. -/
theorem allM_eq_ok {ε α : Type} {xs : List α} {f : α → Except ε Bool} {g : α → Bool}
    (h : ∀ x ∈ xs, f x = .ok (g x)) : xs.allM f = .ok (xs.all g) := by
  induction xs with
  | nil => rfl
  | cons x xs ih =>
    have hrest := ih fun x hx => h x (by simp [hx])
    rw [List.allM, h x (by simp), List.all_cons]
    cases g x with
    | false => rfl
    | true => exact hrest

/-- The images so far and the candidate have an entry for each node up to the candidate's. -/
theorem readImage_eq {assigned : List NodeId} {c p : Nat} (h : p ≤ assigned.length) :
    ∃ image, readImage assigned c p = .ok image ∧ (assigned ++ [c])[p]? = some image := by
  rcases Nat.eq_or_lt_of_le h with rfl | hlt
  · exact ⟨c, by simp [readImage], by simp⟩
  · refine ⟨assigned[p], ?_, ?_⟩
    · rw [readImage, if_neg (Nat.ne_of_lt hlt)]
      exact entry_of_lt hlt
    · rw [List.getElem?_append_left hlt]
      exact List.getElem?_eq_getElem hlt

/-- Whether a candidate is admitted is read inside the tables. -/
theorem checkedAdmits_eq {i c : Nat} (hi : i < q.pattern.nodes.length)
    (hc : c < q.target.nodes.length) : q.checkedAdmits i c = .ok (q.admits i c) := by
  have hp : q.pattern.node? i = some q.pattern.nodes[i] := List.getElem?_eq_getElem hi
  have ht : q.target.node? c = some q.target.nodes[c] := List.getElem?_eq_getElem hc
  simp only [checkedAdmits, admits, Graph.node, entry_of_lt hi, entry_of_lt hc, hp,
    Index.node?_eq, ht, Node.admits]
  by_cases hlabel : q.pattern.nodes[i].effective = none
  · simp [hlabel, bind, Except.bind, pure, Except.pure]
  · simp [hlabel, bind, Except.bind, pure, Except.pure]

/-- An edge checked where its later end is placed reads images that are there. -/
theorem checkedRealises_eq {assigned : List NodeId} {c : NodeId} {e : Edge}
    (h : max e.tail e.head = assigned.length) :
    q.checkedRealises assigned c e = .ok (q.realises (assigned ++ [c]) e) := by
  obtain ⟨tail, htail, htail'⟩ := readImage_eq (c := c) (h ▸ Nat.le_max_left e.tail e.head)
  obtain ⟨head, hhead, hhead'⟩ := readImage_eq (c := c) (h ▸ Nat.le_max_right e.tail e.head)
  rw [checkedRealises, htail, hhead]
  simp only [realises, htail', hhead', Index.adjacent_eq]
  rfl

/-- Whether a candidate is accepted is read inside the tables. -/
theorem checkedAccepts_eq {assigned : List NodeId} {c : NodeId}
    (hlen : assigned.length < q.pattern.nodes.length) (hc : c < q.target.nodes.length) :
    q.checkedAccepts assigned c = .ok (q.accepts assigned c) := by
  have hedges : entry (q.pattern.nodeIds.map q.edgesClosedAt) assigned.length =
      .ok (q.edgesClosedAt assigned.length) := by
    refine entry_eq_ok.2 ?_
    rw [List.getElem?_map, Graph.nodeIds, List.getElem?_range hlen]
    rfl
  have hall : (q.edgesClosedAt assigned.length).allM (q.checkedRealises assigned c) =
      .ok ((q.edgesClosedAt assigned.length).all (q.realises (assigned ++ [c]))) :=
    allM_eq_ok fun e he => checkedRealises_eq (by simpa using (List.mem_filter.1 he).2)
  rw [checkedAccepts, checkedAdmits_eq hlen hc, accepts]
  cases hadmits : q.admits assigned.length c with
  | false => rfl
  | true =>
    cases hused : q.injective && assigned.contains c with
    | true => rfl
    | false =>
      -- Only here are the edges looked up, so only here does the bound of that table matter.
      show (entry (q.pattern.nodeIds.map q.edgesClosedAt) assigned.length >>=
        fun edges : List Edge => edges.allM (q.checkedRealises assigned c)) = _
      rw [hedges]
      exact hall

/-- No read of a step faults while every frame has a node left to place. -/
theorem checkedStep_eq (hstop : q.stop ≤ q.target.nodes.length) {stack : List Frame}
    (h : q.Unfinished stack) : q.checkedStep stack = .ok (q.step stack) := by
  cases stack with
  | nil => rfl
  | cons f fs =>
    rw [checkedStep, step]
    by_cases hend : q.candidateEnd f.assigned.length ≤ f.cursor
    · rw [if_pos hend, if_pos hend]
      rfl
    · -- A candidate within its range is a node of the target, also for the first pattern node.
      have hc : f.cursor < q.target.nodes.length := by
        refine Nat.lt_of_lt_of_le (Nat.lt_of_not_le hend) ?_
        rw [candidateEnd, Index.size_eq]
        split
        · exact hstop
        · exact Nat.le_refl _
      rw [if_neg hend, if_neg hend, checkedAccepts_eq (h f (by simp)) hc]
      cases q.accepts f.assigned f.cursor with
      | false => rfl
      | true => exact (apply_ite Except.ok _ _ _).symm

/-- No read of a match faults when its image list covers the pattern. -/
theorem checkedMatch_eq (hclosed : q.Closed) {images : List NodeId}
    (hlen : images.length = q.pattern.nodes.length) :
    q.checkedMatch images = .ok (q.matchAt images) := by
  -- Every edge of the pattern ends at nodes that have been placed.
  have hedges : q.pattern.edges.mapM (fun e => do
      let tail ← entry images e.tail
      let head ← entry images e.head
      return q.target.edgesBetween tail head) =
      .ok (q.pattern.edges.map (q.realisations images)) := by
    refine mapM_eq_ok.2 (List.forall₂_map_right_iff.2 (List.forall₂_same.2 fun e he => ?_))
    obtain ⟨htail, hhead⟩ := hclosed e he
    rw [← hlen] at htail hhead
    simp only [entry_of_lt htail, entry_of_lt hhead, realisations, List.getElem?_eq_getElem htail,
      List.getElem?_eq_getElem hhead, Index.edgesBetween_eq]
    rfl
  rw [checkedMatch, hedges]
  rfl

/-- A restricted range ends inside the target. -/
theorem stop_withRoots_le (start stop : NodeId) :
    (q.withRoots start stop).stop ≤ q.target.nodes.length := by
  show min stop q.index.size ≤ q.target.nodes.length
  rw [Index.size_eq]
  exact Nat.min_le_right _ _

/-- The search reads no table outside it, at whatever stack it comes by. -/
def ReadsInside (q : Query) : Prop :=
  ∀ stack, q.Reachable stack → q.checkedStep stack = .ok (q.step stack) ∧
    ∀ images stack', q.step stack = .found images stack' →
      q.checkedMatch images = .ok (q.matchAt images)

/-- At every stack that a search comes by, its tables are read inside. -/
theorem readsInside (hne : q.pattern.nodes ≠ []) (hclosed : q.Closed)
    (hstop : q.stop ≤ q.target.nodes.length) : q.ReadsInside := by
  intro stack h
  have hunfinished := h.unfinished hne
  exact ⟨checkedStep_eq hstop hunfinished,
    fun images stack' hs => checkedMatch_eq hclosed (hunfinished.step.2 images stack' hs).2⟩

end DoublePushout.Query
