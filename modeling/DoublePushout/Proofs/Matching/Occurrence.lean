import DoublePushout.Proofs.Matching.Enumeration
import DoublePushout.Proofs.Positions

/-!
# `DoublePushout.Proofs.Matching.Occurrence`: what an accepted image list is

The search checks a node when it is placed, beside the nodes before it only. `Query.Occurs` says
of a whole image list what these checks amount to: the pattern nodes admit their images, every
pattern edge has a target edge between the images of its ends, and the images are distinct if the
query asks for that. Nothing in it mentions an order of the nodes.

* `forall_placesAt_iff`: when the pattern's edges end inside it, a whole image list passes the
  checks of the search exactly when it occurs. Each edge is checked once, at the later of its
  ends, where both images are known.
* `mem_remaining_start`: a search that has not begun finds the occurrences whose first image is in
  its range, and `remaining_start_pairwise` says that it finds them in lexicographic order.
-/

set_option autoImplicit false

namespace DoublePushout.Query

variable {q : Query} {images : List NodeId}

/-- The image list places the whole pattern in the target. -/
structure Occurs (q : Query) (images : List NodeId) : Prop where
  /-- Every pattern node has an image. -/
  length_eq : images.length = q.pattern.nodes.length
  /-- A pattern node's image is a node of the target that it admits. -/
  node : ∀ i n, q.pattern.node? i = some n →
    ∃ image t, images[i]? = some image ∧ q.target.node? image = some t ∧ n.admits t = true
  /-- The images of a pattern edge's ends are joined in the target. -/
  edge : ∀ e ∈ q.pattern.edges, ∃ tail head, images[e.tail]? = some tail ∧
    images[e.head]? = some head ∧ q.target.adjacent tail head = true
  /-- The images are distinct if they have to be. -/
  distinct : q.injective = true → images.Nodup

/-- The edges of the query's pattern end inside it. -/
def Closed (q : Query) : Prop :=
  ∀ e ∈ q.pattern.edges, e.tail < q.pattern.nodes.length ∧ e.head < q.pattern.nodes.length

/-! ### One check -/

/-- A pattern edge is realised exactly if its ends have images and these are joined. -/
theorem realises_eq_true {e : Edge} :
    q.realises images e = true ↔ ∃ tail head, images[e.tail]? = some tail ∧
      images[e.head]? = some head ∧ q.target.adjacent tail head = true := by
  rw [realises]
  split
  · next tail head htail hhead => simp [htail, hhead]
  · next hnone =>
    simp only [Bool.false_eq_true, false_iff]
    rintro ⟨tail, head, htail, hhead, -⟩
    exact hnone tail head htail hhead

/-- A candidate is admitted exactly if both nodes are there and the one admits the other. -/
theorem admits_eq_true {i c : NodeId} :
    q.admits i c = true ↔ ∃ p t, q.pattern.node? i = some p ∧ q.target.node? c = some t ∧
      p.admits t = true := by
  rw [admits]
  split
  · next p t hp ht =>
    rw [Index.node?_eq] at ht
    simp [hp, ht]
  · next hnone =>
    simp only [Bool.false_eq_true, false_iff]
    rintro ⟨p, t, hp, ht, -⟩
    exact hnone p t hp (by rwa [Index.node?_eq])

/-- A candidate is accepted exactly if it is admitted, new where it has to be, and joined as the
pattern asks. -/
theorem accepts_eq_true {c : NodeId} :
    q.accepts images c = true ↔
      q.admits images.length c = true ∧ (q.injective = true → c ∉ images) ∧
        ∀ e ∈ q.pattern.edges, max e.tail e.head = images.length →
          q.realises (images ++ [c]) e = true := by
  simp [accepts, edgesClosedAt, and_assoc, ← imp_iff_not_or, ← Bool.not_eq_true]

/-! ### All checks -/

/-- An edge is realised by a whole image list exactly when it is by the images up to its later
end. -/
theorem realises_take {e : Edge} {i : Nat} (h : max e.tail e.head = i) :
    q.realises (images.take (i + 1)) e = q.realises images e := by
  have htail : (images.take (i + 1))[e.tail]? = images[e.tail]? :=
    List.getElem?_take_of_lt (Nat.lt_succ_of_le (h ▸ Nat.le_max_left _ _))
  have hhead : (images.take (i + 1))[e.head]? = images[e.head]? :=
    List.getElem?_take_of_lt (Nat.lt_succ_of_le (h ▸ Nat.le_max_right _ _))
  simp only [realises, htail, hhead]

/-- A position passes the checks of the search in terms of the whole image list. -/
theorem placesAt_iff {i : Nat} :
    q.PlacesAt images i ↔ ∃ c, images[i]? = some c ∧ c < q.candidateEnd i ∧ q.admits i c = true ∧
      (q.injective = true → c ∉ images.take i) ∧
        ∀ e ∈ q.pattern.edges, max e.tail e.head = i → q.realises images e = true := by
  -- Only the edge checks differ: the search sees the images up to this position, and the position
  -- is the later end of each edge it checks.
  refine exists_congr fun c => and_congr_right fun hc => and_congr_right fun _ => ?_
  obtain ⟨hi, rfl⟩ := List.getElem?_eq_some_iff.1 hc
  have hlen : (images.take i).length = i := by rw [List.length_take]; omega
  rw [accepts_eq_true, hlen, List.take_concat_get' images i hi]
  refine and_congr_right fun _ => and_congr_right fun _ => ?_
  exact forall₂_congr fun e _ => forall_congr' fun hmax => by rw [realises_take hmax]

/-- A whole image list passes the checks of the search exactly when it occurs, its first image
being below the end of the range. -/
theorem forall_placesAt_iff (hclosed : q.Closed)
    (hlen : images.length = q.pattern.nodes.length) :
    (∀ i < images.length, q.PlacesAt images i) ↔
      (∀ c, images[0]? = some c → c < q.stop) ∧ q.Occurs images := by
  constructor
  · intro h
    -- The checks at one position, without those of the edges that are closed there.
    have hplaced : ∀ i c, images[i]? = some c → c < q.candidateEnd i ∧ q.admits i c = true ∧
        (q.injective = true → c ∉ images.take i) := by
      intro i c hc
      obtain ⟨c', hc', hlt, hadmits, hfresh, -⟩ :=
        placesAt_iff.1 (h i (List.getElem?_eq_some_iff.1 hc).1)
      rw [hc] at hc'
      cases hc'
      exact ⟨hlt, hadmits, hfresh⟩
    refine ⟨fun c hc => (hplaced 0 c hc).1, hlen, fun i n hn => ?_, fun e he => ?_,
      fun hinj => ?_⟩
    · have hi : i < images.length := hlen ▸ (List.getElem?_eq_some_iff.1 hn).1
      have himage := List.getElem?_eq_getElem hi
      obtain ⟨p, t, hp, ht, hadmits⟩ := admits_eq_true.1 (hplaced i _ himage).2.1
      rw [hn] at hp
      cases hp
      exact ⟨_, t, himage, ht, hadmits⟩
    · -- The edge was checked when its later end was placed.
      obtain ⟨htail, hhead⟩ := hclosed e he
      have hlt : max e.tail e.head < images.length := hlen ▸ Nat.max_lt.2 ⟨htail, hhead⟩
      obtain ⟨-, -, -, -, -, hedges⟩ := placesAt_iff.1 (h (max e.tail e.head) hlt)
      exact realises_eq_true.1 (hedges e he rfl)
    · exact nodup_iff_not_mem_take.2 fun i c hc => (hplaced i c hc).2.2 hinj
  · -- The checks at one position are instances of what holds of the whole list.
    rintro ⟨hstop, hocc⟩ i hi
    obtain ⟨image, t, himage, ht, hadmits⟩ :=
      hocc.node i _ (List.getElem?_eq_getElem (hlen ▸ hi))
    refine placesAt_iff.2 ⟨image, himage, ?_, ?_, fun hinj => ?_, fun e he _ => ?_⟩
    · rw [candidateEnd]
      split
      · next h0 => exact hstop image (h0 ▸ himage)
      · rw [Index.size_eq]
        exact (List.getElem?_eq_some_iff.1 ht).1
    · exact admits_eq_true.2 ⟨_, t, List.getElem?_eq_getElem (hlen ▸ hi), ht, hadmits⟩
    · exact nodup_iff_not_mem_take.1 (hocc.distinct hinj) i image himage
    · exact realises_eq_true.2 (hocc.edge e he)

/-! ### What a search finds -/

/-- A search that has not begun finds the occurrences whose first image is in its range. -/
theorem mem_remaining_start (hne : q.pattern.nodes ≠ []) (hclosed : q.Closed) :
    images ∈ q.remaining [⟨[], q.start⟩] ↔
      (∀ c, images[0]? = some c → q.start ≤ c ∧ c < q.stop) ∧ q.Occurs images := by
  rw [remaining_start hne, mem_pending_start hne]
  constructor
  · rintro ⟨hlen, hstart, hplaces⟩
    obtain ⟨hstop, hocc⟩ := (forall_placesAt_iff hclosed hlen).1 hplaces
    exact ⟨fun c hc => ⟨hstart c hc, hstop c hc⟩, hocc⟩
  · rintro ⟨hrange, hocc⟩
    exact ⟨hocc.length_eq, fun c hc => (hrange c hc).1,
      (forall_placesAt_iff hclosed hocc.length_eq).2 ⟨fun c hc => (hrange c hc).2, hocc⟩⟩

/-- The whole search goes through the image lists in lexicographic order. -/
theorem remaining_start_pairwise (hne : q.pattern.nodes ≠ []) :
    (q.remaining [⟨[], q.start⟩]).Pairwise (· < ·) := by
  rw [remaining_start hne]
  exact pending_pairwise _

end DoublePushout.Query
