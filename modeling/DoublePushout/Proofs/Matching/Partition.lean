import DoublePushout.Proofs.Matching.Exactness

/-!
# `DoublePushout.Proofs.Matching.Partition`: splitting a search at its first node

A query can be restricted to a half-open range of images of the first pattern node. Searches over
ranges that follow each other can be made apart, and this module says that nothing is lost or
moved by that.

* `findAll_withRoots_eq`: a restricted search finds the matches of the whole search whose first
  image is in the range, in the same order and with the same realisations. The range may be empty,
  run backwards, or lie beyond the target.
* `filter_rootIn_append`: two ranges that follow each other make one. From it
  `flatten_filter_rootIn` goes by induction along a list of cuts.

Both rest on `eq_of_nodes_pairwise`: matches come in lexicographic order of their images, so a
list of them is known by its members. A first image that is lower puts a match before another
(`nodes_lt_of_root_lt`), which is why the ranges can be joined in order.

`findAll_partition` is the main statement.
-/

set_option autoImplicit false

namespace DoublePushout

/-! ### The image of the first node -/

namespace Mapping

/-- The first node has an image, and it is in the half-open range. -/
def RootIn (m : Mapping) (start stop : Nat) : Prop :=
  ∃ root ∈ m.nodes[0]?, start ≤ root ∧ root < stop

instance (m : Mapping) (start stop : Nat) : Decidable (m.RootIn start stop) :=
  inferInstanceAs (Decidable (∃ root ∈ m.nodes[0]?, start ≤ root ∧ root < stop))

variable {m m' : Mapping} {start mid stop root root' : Nat}

/-- Whether a match lies in a range is decided by its first image. -/
theorem rootIn_iff (h : m.nodes[0]? = some root) :
    m.RootIn start stop ↔ start ≤ root ∧ root < stop := by
  simp [RootIn, h]

/-- A range that is cut is the union of its two parts. -/
theorem rootIn_join (hstart : start ≤ mid) (hstop : mid ≤ stop) :
    m.RootIn start stop ↔ m.RootIn start mid ∨ m.RootIn mid stop := by
  cases h : m.nodes[0]? with
  | none => simp [RootIn, h]
  | some root =>
    rw [rootIn_iff h, rootIn_iff h, rootIn_iff h]
    omega

/-- No image is in a range that ends where it starts. -/
theorem not_rootIn_self : ¬ m.RootIn start start := by
  intro h
  obtain ⟨root, -, hle, hlt⟩ := h
  omega

/-- Of two image lists, the one with the lower first image is the lower one. -/
theorem nodes_lt_of_root_lt (h : m.nodes[0]? = some root) (h' : m'.nodes[0]? = some root')
    (hlt : root < root') : m.nodes < m'.nodes := by
  have hpre : ∀ {images : List NodeId} {c : NodeId},
      images[0]? = some c → [] ++ [c] <+: images := by
    intro images c hc
    cases images with
    | nil => cases hc
    | cons d images =>
      cases hc
      exact ⟨images, rfl⟩
  exact Query.lt_of_prefix_lt hlt (hpre h) (hpre h')

end Mapping

/-! ### Lists of matches in order -/

/-- Lists of mappings in the order of their images are equal when they have the same members. -/
theorem eq_of_nodes_pairwise {ms ms' : List Mapping} (h : (ms.map (·.nodes)).Pairwise (· < ·))
    (h' : (ms'.map (·.nodes)).Pairwise (· < ·)) (hmem : ∀ m, m ∈ ms ↔ m ∈ ms') : ms = ms' := by
  have hord := List.pairwise_map.1 h
  have hord' := List.pairwise_map.1 h'
  have hne : ∀ {m m' : Mapping}, m.nodes < m'.nodes → m ≠ m' := by
    intro m m' hlt heq
    exact List.lt_irrefl _ (heq ▸ hlt)
  refine List.Perm.eq_of_pairwise (fun m m' _ _ hlt hgt => ?_) hord hord' ?_
  · exact absurd hgt (List.lt_asymm hlt)
  · exact (List.perm_ext_iff_of_nodup (hord.imp hne) (hord'.imp hne)).2 hmem

variable {all : List Mapping}

/-- Selected matches come in the same order. -/
theorem filter_nodes_pairwise (h : (all.map (·.nodes)).Pairwise (· < ·)) (p : Mapping → Bool) :
    ((all.filter p).map (·.nodes)).Pairwise (· < ·) :=
  List.pairwise_map.2 ((List.pairwise_map.1 h).filter _)

/-- What two ranges select that follow each other is what they select as one. -/
theorem filter_rootIn_append (h : (all.map (·.nodes)).Pairwise (· < ·)) {start mid stop : Nat}
    (hstart : start ≤ mid) (hstop : mid ≤ stop) :
    all.filter (·.RootIn start mid) ++ all.filter (·.RootIn mid stop) =
      all.filter (·.RootIn start stop) := by
  refine eq_of_nodes_pairwise ?_ (filter_nodes_pairwise h _) fun m => ?_
  · rw [List.map_append]
    refine List.pairwise_append.2
      ⟨filter_nodes_pairwise h _, filter_nodes_pairwise h _,
        fun images himages images' himages' => ?_⟩
    -- Only here does the order of the two ranges matter.
    obtain ⟨m, hm, rfl⟩ := List.mem_map.1 himages
    obtain ⟨m', hm', rfl⟩ := List.mem_map.1 himages'
    obtain ⟨root, hroot, -, hlt⟩ : m.RootIn start mid := by simpa using (List.mem_filter.1 hm).2
    obtain ⟨root', hroot', hle, -⟩ : m'.RootIn mid stop := by
      simpa using (List.mem_filter.1 hm').2
    exact Mapping.nodes_lt_of_root_lt hroot hroot' (Nat.lt_of_lt_of_le hlt hle)
  · rw [List.mem_append, List.mem_filter, List.mem_filter, List.mem_filter, ← and_or_left,
      decide_eq_true_eq, decide_eq_true_eq, decide_eq_true_eq, Mapping.rootIn_join hstart hstop]

/-- What the ranges between consecutive cuts select, one after the other, is what the range from
the first cut to the last selects. -/
theorem flatten_filter_rootIn (h : (all.map (·.nodes)).Pairwise (· < ·)) (first : NodeId)
    (cuts : List NodeId) (hcuts : (first :: cuts).Pairwise (· ≤ ·)) :
    (((first :: cuts).zip cuts).map fun r => all.filter (·.RootIn r.1 r.2)).flatten =
      all.filter (·.RootIn first ((first :: cuts).getLast (List.cons_ne_nil _ _))) := by
  induction cuts generalizing first with
  | nil =>
    -- With no cut left, both sides are empty: no match has its root in an empty range.
    have hnone : all.filter (·.RootIn first first) = [] :=
      List.filter_eq_nil_iff.2 fun m _ => by simpa using Mapping.not_rootIn_self
    exact hnone.symm
  | cons cut cuts ih =>
    obtain ⟨hfirst, hrest⟩ := List.pairwise_cons.1 hcuts
    -- The cuts ascend, so the last of them is not before the next one.
    have hlast : cut ≤ (cut :: cuts).getLast (List.cons_ne_nil _ _) := by
      cases List.mem_cons.1 (List.getLast_mem (List.cons_ne_nil cut cuts)) with
      | inl heq => exact Nat.le_of_eq heq.symm
      | inr hmem => exact (List.pairwise_cons.1 hrest).1 _ hmem
    rw [List.zip_cons_cons, List.map_cons, List.flatten_cons, ih cut hrest,
      List.getLast_cons (List.cons_ne_nil cut cuts)]
    exact filter_rootIn_append h (hfirst cut (by simp)) hlast

/-! ### Restricted searches -/

namespace Query

variable {q : Query}

/-- A query that is not restricted finds matches whose first image is a node of the target. -/
theorem rootIn_of_mem (hne : q.pattern.nodes ≠ []) {m : Mapping}
    (hm : m.Embeds q.pattern q.target) {stop : NodeId} (hstop : q.target.nodes.length ≤ stop) :
    m.RootIn 0 stop := by
  have hpos : 0 < q.pattern.nodes.length := List.length_pos_iff.2 hne
  obtain ⟨root, t, hroot, ht, -⟩ := hm.node 0 _ (List.getElem?_eq_getElem hpos)
  have hlt : root < q.target.nodes.length := (List.getElem?_eq_some_iff.1 ht).1
  exact ⟨root, hroot, Nat.zero_le _, Nat.lt_of_lt_of_le hlt hstop⟩

/-- A restricted search finds what the whole search finds with a first image in the range. -/
theorem findAll_withRoots_eq (hne : q.pattern.nodes ≠ []) (hclosed : q.Closed)
    (hstart : q.start = 0) (hstop : q.stop = q.target.nodes.length) {all : List Mapping}
    (hall : q.findAll = .ok all) (start stop : NodeId) :
    (q.withRoots start stop).findAll = .ok (all.filter (·.RootIn start stop)) := by
  have hclosed' : (q.withRoots start stop).Closed := hclosed
  obtain ⟨part, hpart⟩ : ∃ part, (q.withRoots start stop).findAll = .ok part :=
    ⟨_, findAll_eq hclosed'⟩
  have hsame : part = all.filter (·.RootIn start stop) := by
    refine eq_of_nodes_pairwise
      (findAll_pairwise (q := q.withRoots start stop) hne hclosed' hpart)
      (filter_nodes_pairwise (findAll_pairwise hne hclosed hall) _) fun m => ?_
    rw [List.mem_filter, decide_eq_true_eq, mem_findAll hne hclosed hall,
      mem_findAll (q := q.withRoots start stop) hne hclosed' hpart, hstart, hstop]
    -- Both searches ask the same of a match, apart from the range of its first image. The end of
    -- the restricted range is cut at the target, where the first image of any match lies.
    show (∀ c, m.nodes[0]? = some c → start ≤ c ∧ c < min stop q.index.size) ∧
        m.Embeds q.pattern q.target ∧ _ ↔ _
    constructor
    · intro hm
      obtain ⟨root, hroot, -, hlt⟩ := rootIn_of_mem hne hm.2.1 (Nat.le_refl _)
      obtain ⟨hle, hend⟩ := hm.1 root hroot
      refine ⟨⟨fun c hc => ?_, hm.2⟩, root, hroot, hle, (Nat.lt_min.1 hend).1⟩
      cases hroot.symm.trans hc
      exact ⟨Nat.zero_le _, hlt⟩
    · intro hm
      obtain ⟨root, hroot, hle, hend⟩ := hm.2
      refine ⟨fun c hc => ?_, hm.1.2⟩
      cases hroot.symm.trans hc
      have hlt := (hm.1.1 root hroot).2
      rw [Index.size_eq]
      exact ⟨hle, Nat.lt_min.2 ⟨hend, hlt⟩⟩
  rw [hpart, hsame]

end Query

/-- Let a pattern be valid and have a node, and let any target be searched. A search that is
restricted to a range of first images reads no table outside it and finds, in the same order, the
matches of the whole search whose first image is in the range. So the whole search can be cut:
along cuts that do not decrease, from zero up to the end of the target or beyond, the parts make
up the whole list. -/
theorem findAll_partition {pattern : Graph} (target : Graph) (injective : Bool)
    (hvalid : pattern.validate = .ok ()) (hne : pattern.nodes ≠ []) :
    ∃ q all, Query.of pattern target injective = .ok q ∧ q.findAll = .ok all ∧
      (∀ start stop, (q.withRoots start stop).ReadsInside ∧
        (q.withRoots start stop).findAll = .ok (all.filter (·.RootIn start stop))) ∧
      ∀ cuts : List NodeId, cuts.Pairwise (· ≤ ·) → cuts.head? = some 0 →
        (∀ last ∈ cuts.getLast?, target.nodes.length ≤ last) →
        ∃ parts, (cuts.zip cuts.tail).mapM (fun r => (q.withRoots r.1 r.2).findAll) = .ok parts ∧
          parts.flatten = all := by
  let q : Query := { pattern, target, injective }
  have hof : Query.of pattern target injective = .ok q := by
    rw [Query.of, if_neg (by simpa using hne)]
  have hclosed : q.Closed := (Graph.validate_eq_ok_iff.1 hvalid).ends_lt
  obtain ⟨all, hall⟩ : ∃ all, q.findAll = .ok all := ⟨_, Query.findAll_eq hclosed⟩
  have hpart := Query.findAll_withRoots_eq (q := q) hne hclosed rfl rfl hall
  refine ⟨q, all, hof, hall, fun start stop => ⟨?_, hpart start stop⟩, ?_⟩
  · exact Query.readsInside (q := q.withRoots start stop) hne hclosed
      (Query.stop_withRoots_le start stop)
  · intro cuts hcuts hhead hlast
    cases cuts with
    | nil => cases hhead
    | cons first cuts =>
      obtain rfl : first = 0 := Option.some.inj hhead
      refine ⟨_, mapM_eq_ok.2 (List.forall₂_map_right_iff.2
        (List.forall₂_same.2 fun r _ => hpart r.1 r.2)), ?_⟩
      rw [List.tail_cons,
        flatten_filter_rootIn (Query.findAll_pairwise hne hclosed hall) 0 cuts hcuts]
      -- The last cut is behind every node of the target, so the range between the ends leaves out
      -- nothing.
      refine List.filter_eq_self.2 fun m hm => decide_eq_true ?_
      refine Query.rootIn_of_mem hne ((Query.mem_findAll hne hclosed hall).1 hm).2.1 (hlast _ ?_)
      exact List.getLast?_eq_some_getLast _

/-- The matches of a pattern with a loop, cut at any roots. -/
theorem findAll_partition_loop :
    loopPattern.validate = .ok () ∧ loopPattern.nodes ≠ [] ∧
    ∃ q all, Query.of loopPattern loopTarget false = .ok q ∧ q.findAll = .ok all ∧
      (∀ start stop, (q.withRoots start stop).ReadsInside ∧
        (q.withRoots start stop).findAll = .ok (all.filter (·.RootIn start stop))) ∧
      ∀ cuts : List NodeId, cuts.Pairwise (· ≤ ·) → cuts.head? = some 0 →
        (∀ last ∈ cuts.getLast?, loopTarget.nodes.length ≤ last) →
        ∃ parts, (cuts.zip cuts.tail).mapM (fun r => (q.withRoots r.1 r.2).findAll) = .ok parts ∧
          parts.flatten = all :=
  ⟨by decide, by decide, findAll_partition loopTarget false (by decide) (by decide)⟩

example : (do
    let q ← Query.of loopPattern loopTarget false
    return (← (q.withRoots 1 18446744073709551615).findAll, ← (q.withRoots 2 1).findAll) :
      Except Fault (List Mapping × List Mapping)) = .ok ([⟨[1, 1], [[1], [1]]⟩], []) := by cbv

end DoublePushout
