import DoublePushout.Proofs.Matching.Stack
import Mathlib.Data.List.Infix

/-!
# `DoublePushout.Proofs.Matching.Enumeration`: what a search enumerates

`Query.step` works on a stack. `Query.completions` says without one what the search looks for: the
image lists that extend a given one, each node in turn taking the candidates that are accepted, in
ascending order. A frame of the stack stands for the completions of its images from its cursor on,
`Query.pending`.

* `remaining_eq_pending_append`: a stack finds what its top frame stands for, and after that what
  the frames below find once their cursors have moved on. So a stack is a position in one fixed
  list, and `remaining_start` names that list for a search that has not begun.
* `mem_completions`: an image list is a completion exactly when each new position holds a
  candidate that is accepted beside those before it.
* `completions_pairwise` and `pending_pairwise`: completions come in lexicographic order, so none
  comes twice.
-/

set_option autoImplicit false

namespace DoublePushout.Query

variable {q : Query}

/-- The candidates of a frame that are still to be tried and will be accepted. -/
def branches (q : Query) (f : Frame) : List NodeId :=
  (List.range' f.cursor (q.candidatesLeft f)).filter (q.accepts f.assigned)

/-- The image lists that extend the given images by so many more nodes. -/
def completions (q : Query) : Nat → List NodeId → List (List NodeId)
  | 0, images => [images]
  | more + 1, images =>
    (q.branches ⟨images, 0⟩).flatMap fun c => completions q more (images ++ [c])

/-- The image lists that a frame has yet to lead to. -/
def pending (q : Query) (f : Frame) : List (List NodeId) :=
  (q.branches f).flatMap fun c =>
    q.completions (q.pattern.nodes.length - (f.assigned.length + 1)) (f.assigned ++ [c])

/-! ### A stack as a position in the enumeration -/

/-- A frame that has come to the end of its candidates has no branch left. -/
theorem branches_of_end_le {f : Frame} (h : q.candidateEnd f.assigned.length ≤ f.cursor) :
    q.branches f = [] := by
  have hleft : q.candidatesLeft f = 0 := by
    simp only [candidatesLeft]
    omega
  simp [branches, hleft]

/-- A frame's first candidate is tried before the others. -/
theorem branches_of_lt {f : Frame} (h : f.cursor < q.candidateEnd f.assigned.length) :
    q.branches f =
      if q.accepts f.assigned f.cursor then
        f.cursor :: q.branches { f with cursor := f.cursor + 1 }
      else q.branches { f with cursor := f.cursor + 1 } := by
  have hleft : q.candidatesLeft f = q.candidatesLeft { f with cursor := f.cursor + 1 } + 1 := by
    simp only [candidatesLeft]
    omega
  rw [branches, hleft, List.range'_succ, List.filter_cons]
  rfl

/-- A frame at a candidate leads to what this candidate leads to, and to what the later ones
do. -/
theorem pending_of_lt {f : Frame} (h : f.cursor < q.candidateEnd f.assigned.length) :
    q.pending f =
      (if q.accepts f.assigned f.cursor then
        q.completions (q.pattern.nodes.length - (f.assigned.length + 1))
          (f.assigned ++ [f.cursor])
      else []) ++ q.pending { f with cursor := f.cursor + 1 } := by
  rw [pending, branches_of_lt h]
  split <;> simp [pending]

/-- To complete images by a node or more is what a new frame on top of them does. -/
theorem completions_succ (more : Nat) (images : List NodeId)
    (h : images.length + (more + 1) = q.pattern.nodes.length) :
    q.completions (more + 1) images = q.pending ⟨images, 0⟩ := by
  have hmore : q.pattern.nodes.length - (images.length + 1) = more := by omega
  simp only [completions, pending, hmore]

/-- A stack finds what its top frame stands for, then what the frames below find. -/
theorem remaining_eq_pending_append (f : Frame) (fs : List Frame)
    (h : q.Unfinished (f :: fs)) :
    q.remaining (f :: fs) = q.pending f ++ q.remaining (advance fs) := by
  -- The induction is on the effort, which bounds the steps left. A frame that opens another one
  -- needs the statement twice: for the new frame, and for itself with the cursor moved on.
  induction hn : q.effort (f :: fs) using Nat.strong_induction_on generalizing f fs with
  | _ n ih =>
    subst hn
    have hnext : f.cursor < q.candidateEnd f.assigned.length →
        q.remaining (advance (f :: fs)) =
          q.pending { f with cursor := f.cursor + 1 } ++ q.remaining (advance fs) := fun hlt =>
      ih _ (q.effort_advance_lt f fs hlt) { f with cursor := f.cursor + 1 } fs h.advance rfl
    rw [remaining_eq]
    rcases q.step_cases f fs with ⟨hend, hs⟩ | ⟨hlt, hacc, hs⟩ | ⟨hlt, hacc, hmore, hs⟩ |
      ⟨hlt, hacc, hlast, hs⟩ <;> simp only [hs]
    · rw [pending, branches_of_end_le hend, List.flatMap_nil, List.nil_append]
    · rw [hnext hlt, pending_of_lt hlt, hacc]
      rfl
    · -- The new frame stands for the completions of this candidate, and once it is used up the
      -- cursor of the old frame moves on.
      have hpush := q.effort_push_lt f fs (f.assigned ++ [f.cursor]) (by simp) hlt
        (by simpa using hmore)
      obtain ⟨more, hcount⟩ : ∃ more,
          q.pattern.nodes.length - (f.assigned.length + 1) = more + 1 :=
        ⟨q.pattern.nodes.length - (f.assigned.length + 1) - 1, by omega⟩
      rw [ih _ hpush _ _ (h.push hmore f.cursor) rfl, hnext hlt, pending_of_lt hlt, hacc,
        if_pos rfl, hcount, completions_succ more _ (by simp; omega), List.append_assoc]
    · have hcount : q.pattern.nodes.length - (f.assigned.length + 1) = 0 := by omega
      rw [hnext hlt, pending_of_lt hlt, hacc, if_pos rfl, hcount, completions, List.append_assoc,
        List.singleton_append]

/-- A search that has not begun finds what its first frame stands for. -/
theorem remaining_start (h : q.pattern.nodes ≠ []) :
    q.remaining [⟨[], q.start⟩] = q.pending ⟨[], q.start⟩ := by
  have hpos : 0 < q.pattern.nodes.length := List.length_pos_iff.2 h
  have hend : q.remaining [] = [] := by
    rw [remaining_eq]
    rfl
  rw [remaining_eq_pending_append _ _ (by simpa [Unfinished] using hpos), advance, hend,
    List.append_nil]

/-! ### The members of the enumeration -/

/-- A position of an image list holds a candidate that is accepted beside those before it. -/
def PlacesAt (q : Query) (images : List NodeId) (i : NodeId) : Prop :=
  ∃ c, images[i]? = some c ∧ c < q.candidateEnd i ∧ q.accepts (images.take i) c = true

/-- The branches of a frame are the accepted candidates that its cursor has not passed. -/
theorem mem_branches {f : Frame} {c : Nat} :
    c ∈ q.branches f ↔
      f.cursor ≤ c ∧ c < q.candidateEnd f.assigned.length ∧ q.accepts f.assigned c = true := by
  simp only [branches, candidatesLeft, List.mem_filter, List.mem_range'_1]
  constructor
  · rintro ⟨⟨hle, hlt⟩, hacc⟩
    exact ⟨hle, by omega, hacc⟩
  · rintro ⟨hle, hlt, hacc⟩
    exact ⟨⟨hle, by omega⟩, hacc⟩

/-- One more node is placed exactly when the first of the new positions holds its candidate. -/
theorem placesAt_of_extends {before images : List NodeId} {c : NodeId}
    (hpre : before ++ [c] <+: images) :
    q.PlacesAt images before.length ↔
      c < q.candidateEnd before.length ∧ q.accepts before c = true := by
  obtain ⟨rest, rfl⟩ := hpre
  simp [PlacesAt]

/-- The completions are the image lists that place a node at each new position. -/
theorem mem_completions {more : Nat} {before images : List NodeId} :
    images ∈ q.completions more before ↔
      before <+: images ∧ images.length = before.length + more ∧
        ∀ i, before.length ≤ i → i < images.length → q.PlacesAt images i := by
  induction more generalizing before with
  | zero =>
    simp only [completions, List.mem_singleton, Nat.add_zero]
    constructor
    · rintro rfl
      exact ⟨List.prefix_rfl, rfl, fun i hle hlt => by omega⟩
    · rintro ⟨hpre, hlen, -⟩
      exact (hpre.eq_of_length hlen.symm).symm
  | succ more ih =>
    simp only [completions, List.mem_flatMap, mem_branches, ih, List.length_append,
      List.length_singleton]
    -- The first new position holds the branch taken here, and the others are the hypothesis's.
    constructor
    · rintro ⟨c, ⟨-, hlt, hacc⟩, hpre, hlen, hplaces⟩
      refine ⟨(List.prefix_append _ _).trans hpre, by omega, fun i hle hi => ?_⟩
      rcases Nat.eq_or_lt_of_le hle with rfl | hgt
      · exact (placesAt_of_extends hpre).2 ⟨hlt, hacc⟩
      · exact hplaces i hgt hi
    · rintro ⟨⟨rest, rfl⟩, hlen, hplaces⟩
      cases rest with
      | nil => simp at hlen
      | cons c rest =>
        have hpre : before ++ [c] <+: before ++ c :: rest := ⟨rest, by simp⟩
        obtain ⟨hlt, hacc⟩ :=
          (placesAt_of_extends hpre).1 (hplaces before.length (Nat.le_refl _) (by simp))
        exact ⟨c, ⟨Nat.zero_le c, hlt, hacc⟩, hpre, by omega,
          fun i hle hi => hplaces i (by omega) hi⟩

/-- The search leads to every image list that places each pattern node, from the first root on. -/
theorem mem_pending_start {start : NodeId} {images : List NodeId} (h : q.pattern.nodes ≠ []) :
    images ∈ q.pending ⟨[], start⟩ ↔
      images.length = q.pattern.nodes.length ∧ (∀ c, images[0]? = some c → start ≤ c) ∧
        ∀ i < images.length, q.PlacesAt images i := by
  have hpos : 0 < q.pattern.nodes.length := List.length_pos_iff.2 h
  simp only [pending, List.mem_flatMap, mem_branches, mem_completions, List.length_nil,
    List.nil_append, List.length_singleton, Nat.zero_add]
  constructor
  · rintro ⟨c, ⟨hle, hlt, hacc⟩, ⟨rest, rfl⟩, hlen, hplaces⟩
    refine ⟨by omega, by simpa using hle, fun i hi => ?_⟩
    -- The first image is the candidate at the root; the others are placed below it.
    rcases Nat.eq_zero_or_pos i with rfl | hi'
    · exact ⟨c, by simp, hlt, by simpa using hacc⟩
    · exact hplaces i hi' hi
  · rintro ⟨hlen, hstart, hplaces⟩
    cases images with
    | nil => simp at hlen; omega
    | cons c rest =>
      obtain ⟨c', hc', hlt, hacc⟩ := hplaces 0 (by simp)
      obtain rfl : c = c' := by simpa using hc'
      exact ⟨c, ⟨hstart c rfl, hlt, by simpa using hacc⟩, ⟨rest, rfl⟩, by omega,
        fun i _ hi => hplaces i hi⟩

/-! ### The order of the enumeration -/

/-- The branches of a frame ascend. -/
theorem branches_pairwise (f : Frame) : (q.branches f).Pairwise (· < ·) :=
  (List.pairwise_lt_range' ..).filter _

/-- Image lists that agree up to a position are ordered by what they hold there. -/
theorem lt_of_prefix_lt {before images images' : List NodeId} {c c' : NodeId} (hlt : c < c')
    (h : before ++ [c] <+: images) (h' : before ++ [c'] <+: images') : images < images' := by
  obtain ⟨rest, rfl⟩ := h
  obtain ⟨rest', rfl⟩ := h'
  rw [List.append_assoc, List.append_assoc]
  exact List.append_left_lt (List.cons_lt_cons_iff.2 (.inl hlt))

/-- What a frame stands for is in order when the completions of each of its candidates are. -/
theorem flatMap_branches_pairwise (f : Frame) (more : Nat)
    (h : ∀ c, (q.completions more (f.assigned ++ [c])).Pairwise (· < ·)) :
    ((q.branches f).flatMap fun c =>
      q.completions more (f.assigned ++ [c])).Pairwise (· < ·) := by
  refine List.pairwise_flatMap.2 ⟨fun c _ => h c, ?_⟩
  refine (q.branches_pairwise f).imp fun {c c'} hlt images himages images' himages' => ?_
  exact lt_of_prefix_lt hlt (mem_completions.1 himages).1 (mem_completions.1 himages').1

/-- The completions of the same images come in lexicographic order. -/
theorem completions_pairwise (more : Nat) (before : List NodeId) :
    (q.completions more before).Pairwise (· < ·) := by
  induction more generalizing before with
  | zero => simp [completions]
  | succ more ih => exact flatMap_branches_pairwise ⟨before, 0⟩ more fun c => ih _

/-- What a frame leads to comes in lexicographic order. -/
theorem pending_pairwise (f : Frame) : (q.pending f).Pairwise (· < ·) :=
  flatMap_branches_pairwise f _ fun _ => completions_pairwise _ _

end DoublePushout.Query
