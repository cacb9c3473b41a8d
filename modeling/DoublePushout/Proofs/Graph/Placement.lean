import DoublePushout.Proofs.Graph.Fingerprint
import Mathlib.Data.List.Pairwise

/-!
# `DoublePushout.Proofs.Graph.Placement`: the search for an isomorphism decides

`Digraph.isomorphic` places the nodes of one digraph one after the other on free nodes of another.
A run of it that comes to its end has made a list of placements, each node with its place.

* `Survey.Placeable` says when such a list can be made, placement by placement.
  `extends?_eq_true_iff` shows that the search answers yes exactly when some list can.
* `Digraph.placeable_iff` reads it without an order: every placement suits by itself (`Suits`),
  and any two of them keep the links between them (`LinksKept`).
* `Digraph.exists_isoAlong`: from a list of all nodes that can be placed, the isomorphism is read
  off. `IsoAlong.placeable`: along an isomorphism all nodes can be placed, in any order.

`Digraph.isomorphic_decides` puts them together for digraphs without parallel arcs.
`Digraph.Decides` is what can be asked of any such search.
-/

set_option autoImplicit false

namespace DoublePushout

variable {α : Type}

/-! ### What a placement keeps -/

namespace Digraph

variable {d e : Digraph α} {f : Nat → Nat} {weight : α → Nat}

/-- A node may be placed on another as far as the two themselves go. -/
structure Suits (d e : Digraph α) (weight : α → Nat) (p : Nat × Nat) : Prop where
  /-- The node is one of the first digraph. -/
  node_lt : p.1 < d.nodes.length
  /-- The place is a node of the second. -/
  place_lt : p.2 < e.nodes.length
  /-- The two have the same fingerprint. -/
  print_eq : (d.survey weight).prints[p.1]? = (e.survey weight).prints[p.2]?
  /-- The two have the same label. -/
  label_eq : d.nodes[p.1]? = e.nodes[p.2]?
  /-- As many arcs leave the two. -/
  outDegree_eq : (d.leaving p.1).length = (e.leaving p.2).length
  /-- As many arcs enter the two. -/
  inDegree_eq : (d.entering p.1).length = (e.entering p.2).length
  /-- The two have the same link to themselves. -/
  loop_eq : d.link p.1 p.1 = e.link p.2 p.2

/-- Two placements keep the links between the nodes, in both directions. -/
def LinksKept (d e : Digraph α) (p q : Nat × Nat) : Prop :=
  d.link p.1 q.1 = e.link p.2 q.2 ∧ d.link q.1 p.1 = e.link q.2 p.2

instance LinksKept.symm : Std.Symm (d.LinksKept e) := ⟨fun _ _ h => ⟨h.2, h.1⟩⟩

/-- Along an isomorphism of simple digraphs every node suits its image. -/
theorem IsoAlong.suits (h : d.IsoAlong e f) (hd : d.Simple) (he : e.Simple) {n : Nat}
    (hn : n < d.nodes.length) : d.Suits e weight (n, f n) where
  node_lt := hn
  place_lt := h.bijOn.mapsTo hn
  print_eq := h.prints_agree hd he weight n hn
  label_eq := h.label_eq n hn
  outDegree_eq := (h.star_corresponds hd he hn none).outDegree_eq
  inDegree_eq := (h.star_corresponds hd he hn none).inDegree_eq
  loop_eq := h.link_eq n hn n hn

/-- A test answers whether two simple digraphs are isomorphic. -/
def Decides (test : Digraph α → Digraph α → Bool) : Prop :=
  ∀ d e : Digraph α, d.Simple → e.Simple → (test d e = true ↔ ∃ f, d.IsoAlong e f)

end Digraph

/-! ### Lists of placements -/

variable [DecidableEq α]

namespace Survey

variable {a b : Survey α}

/-- The listed placements can be made one after the other, beside those made already. -/
def Placeable (a b : Survey α) : List (Nat × Nat) → List (Nat × Nat) → Prop
  | [], _ => True
  | p :: ps, placed => a.fits b placed p.1 p.2 = true ∧ Placeable a b ps (p :: placed)

/-- The search answers yes exactly when the nodes have different free places on which they can be
placed. -/
theorem extends?_eq_true_iff :
    ∀ (ns free : List Nat) (placed : List (Nat × Nat)), free.Nodup →
      (a.extends? b ns free placed = true ↔ ∃ ps : List (Nat × Nat), ps.map Prod.fst = ns ∧
        (ps.map Prod.snd).Nodup ∧ (∀ c ∈ ps.map Prod.snd, c ∈ free) ∧
          a.Placeable b ps placed) := by
  intro ns
  induction ns with
  | nil =>
    intro free placed _
    exact ⟨fun _ => ⟨[], rfl, List.nodup_nil, by simp, trivial⟩, fun _ => rfl⟩
  | cons n ns ih =>
    intro free placed hfree
    rw [extends?, List.any_eq_true]
    constructor
    · intro h
      obtain ⟨c, hc, h⟩ := h
      obtain ⟨hfits, hrest⟩ := Bool.and_eq_true_iff.1 h
      obtain ⟨ps, hns, hnodup, hin, hplaced⟩ := (ih _ _ (hfree.erase c)).1 hrest
      -- A place that has been taken is free no more, so no later node has it.
      refine ⟨(n, c) :: ps, by rw [List.map_cons, hns], ?_, ?_, hfits, hplaced⟩
      · rw [List.map_cons, List.nodup_cons]
        exact ⟨fun hmem => (hfree.mem_erase_iff.1 (hin c hmem)).1 rfl, hnodup⟩
      · rw [List.map_cons, List.forall_mem_cons]
        exact ⟨hc, fun c' hc' => List.mem_of_mem_erase (hin c' hc')⟩
    · intro h
      obtain ⟨ps, hns, hnodup, hin, hplaced⟩ := h
      cases ps with
      | nil => cases hns
      | cons p ps =>
        obtain ⟨rfl, hrest⟩ : p.1 = n ∧ ps.map Prod.fst = ns := List.cons.inj hns
        rw [List.map_cons, List.nodup_cons] at hnodup
        rw [List.map_cons, List.forall_mem_cons] at hin
        refine ⟨p.2, hin.1, Bool.and_eq_true_iff.2 ⟨hplaced.1, ?_⟩⟩
        refine (ih _ _ (hfree.erase p.2)).2 ⟨ps, hrest, hnodup.2, fun c hc => ?_, hplaced.2⟩
        refine hfree.mem_erase_iff.2 ⟨?_, hin.2 c hc⟩
        rintro rfl
        exact hnodup.1 hc

end Survey

namespace Digraph

variable {d e : Digraph α} {f : Nat → Nat} {weight : α → Nat}

/-- Two stars resemble each other exactly if label, degrees and loops are the same. -/
theorem resembles_star_iff {label label' : Option String} {n c : Nat} :
    (d.star label n).resembles (e.star label' c) n c = true ↔ label = label' ∧
      (d.leaving n).length = (e.leaving c).length ∧
        (d.entering n).length = (e.entering c).length ∧ d.link n n = e.link c c := by
  simp only [Star.resembles, lookup_outLinks, Bool.and_eq_true, decide_eq_true_eq, and_assoc]
  exact Iff.rfl

/-- A star keeps its links exactly if every link with a node placed before is kept. -/
theorem keepsLinks_star_iff {label label' : Option String} {placed : List (Nat × Nat)}
    {n c : Nat} :
    (d.star label n).keepsLinks (e.star label' c) placed = true ↔
      ∀ q ∈ placed, d.LinksKept e (n, c) q := by
  simp only [Star.keepsLinks, List.all_eq_true, Bool.and_eq_true, decide_eq_true_eq,
    lookup_outLinks, lookup_inLinks]
  exact Iff.rfl

/-- One placement is possible when it suits by itself and beside every placement made already. -/
theorem fits_eq_true_iff {placed : List (Nat × Nat)} {p : Nat × Nat} :
    (d.survey weight).fits (e.survey weight) placed p.1 p.2 = true ↔
      d.Suits e weight p ∧ ∀ q ∈ placed, d.LinksKept e p q := by
  rw [Survey.fits, stars_survey, stars_survey, Bool.and_eq_true, beq_iff_eq]
  constructor
  · intro h
    obtain ⟨hprint, hstars⟩ := h
    -- Both nodes must exist for their stars to resemble each other.
    cases hn : d.nodes[p.1]? with
    | none =>
      rw [hn] at hstars
      cases hstars
    | some label =>
      cases hc : e.nodes[p.2]? with
      | none =>
        rw [hn, hc] at hstars
        cases hstars
      | some label' =>
        rw [hn, hc] at hstars
        obtain ⟨hresembles, hlinks⟩ := Bool.and_eq_true_iff.1 hstars
        obtain ⟨rfl, hout, hin, hloop⟩ := resembles_star_iff.1 hresembles
        exact ⟨⟨(List.getElem?_eq_some_iff.1 hn).1, (List.getElem?_eq_some_iff.1 hc).1, hprint,
          hn.trans hc.symm, hout, hin, hloop⟩, keepsLinks_star_iff.1 hlinks⟩
  · intro h
    obtain ⟨hsuits, hlinks⟩ := h
    have hn := List.getElem?_eq_getElem hsuits.node_lt
    rw [← hsuits.label_eq, hn]
    refine ⟨hsuits.print_eq, Bool.and_eq_true_iff.2 ⟨resembles_star_iff.2 ?_, ?_⟩⟩
    · exact ⟨rfl, hsuits.outDegree_eq, hsuits.inDegree_eq, hsuits.loop_eq⟩
    · exact keepsLinks_star_iff.2 hlinks

/-- A list of placements can be made when each suits by itself and any two keep their links. -/
theorem placeable_iff :
    ∀ ps placed : List (Nat × Nat),
      (d.survey weight).Placeable (e.survey weight) ps placed ↔ (∀ p ∈ ps, d.Suits e weight p) ∧
        (∀ p ∈ ps, ∀ q ∈ placed, d.LinksKept e p q) ∧ ps.Pairwise (d.LinksKept e) := by
  intro ps
  induction ps with
  | nil =>
    intro placed
    simp [Survey.Placeable]
  | cons p ps ih =>
    intro placed
    rw [Survey.Placeable, fits_eq_true_iff, ih, List.pairwise_cons, List.forall_mem_cons,
      List.forall_mem_cons]
    simp only [List.forall_mem_cons]
    constructor
    · -- Keeping links is symmetric, so it can be read off the later pair as well.
      intro h
      obtain ⟨⟨hp, hplaced⟩, hps, hlinks, hpairs⟩ := h
      exact ⟨⟨hp, hps⟩, ⟨hplaced, fun q hq => (hlinks q hq).2⟩,
        fun q hq => LinksKept.symm.symm _ _ (hlinks q hq).1, hpairs⟩
    · intro h
      obtain ⟨⟨hp, hps⟩, ⟨hplaced, hlinks⟩, hfirst, hpairs⟩ := h
      exact ⟨⟨hp, hplaced⟩, hps,
        fun q hq => ⟨LinksKept.symm.symm _ _ (hfirst q hq), hlinks q hq⟩, hpairs⟩

/-! ### Placements of all nodes -/

/-- From placements of all nodes on different nodes an isomorphism is read off. -/
theorem exists_isoAlong {ps : List (Nat × Nat)} (hlength : d.nodes.length = e.nodes.length)
    (hnodes : (ps.map Prod.fst).Perm (List.range d.nodes.length))
    (hplaces : (ps.map Prod.snd).Nodup)
    (hps : (d.survey weight).Placeable (e.survey weight) ps []) : ∃ f, d.IsoAlong e f := by
  obtain ⟨hsuits, -, hpairs⟩ := (placeable_iff ps []).1 hps
  have hplaced : ∀ n, n < d.nodes.length → ∃ c, (n, c) ∈ ps := by
    intro n hn
    obtain ⟨p, hp, rfl⟩ := List.mem_map.1 (hnodes.mem_iff.2 (List.mem_range.2 hn))
    exact ⟨p.2, hp⟩
  choose! f hf using hplaced
  have hlinks : ∀ p ∈ ps, ∀ q ∈ ps, d.LinksKept e p q := fun p hp q hq =>
    hpairs.forall_of_forall (fun r hr => ⟨(hsuits r hr).loop_eq, (hsuits r hr).loop_eq⟩) hp hq
  have hmaps : ∀ n < d.nodes.length, f n < e.nodes.length :=
    fun n hn => (hsuits _ (hf n hn)).place_lt
  have hinj : Set.InjOn f (Set.Iio d.nodes.length) := by
    intro n hn m hm heq
    have hsame := List.inj_on_of_nodup_map hplaces (hf n hn) (hf m hm) heq
    exact (Prod.mk.inj hsame).1
  refine ⟨f, ⟨hmaps, hinj, ?_⟩, fun n hn => (hsuits _ (hf n hn)).label_eq,
    fun t ht h hh => (hlinks _ (hf t ht) _ (hf h hh)).1⟩
  -- There are as many places as nodes, so none is left over.
  have hall : (ps.map Prod.snd).Perm (List.range d.nodes.length) := by
    refine (List.subperm_of_subset hplaces fun c hc => ?_).perm_of_length_le ?_
    · obtain ⟨p, hp, rfl⟩ := List.mem_map.1 hc
      rw [hlength]
      exact List.mem_range.2 (hsuits p hp).place_lt
    · rw [← hnodes.length_eq, List.length_map, List.length_map]
  intro c hc
  rw [Set.mem_Iio, ← hlength, ← List.mem_range, ← hall.mem_iff] at hc
  obtain ⟨p, hp, rfl⟩ := List.mem_map.1 hc
  have hn := (hsuits p hp).node_lt
  have hsame := List.inj_on_of_nodup_map (hnodes.nodup_iff.2 List.nodup_range) (hf p.1 hn) hp rfl
  exact ⟨p.1, hn, congrArg Prod.snd hsame⟩

/-- Along an isomorphism of simple digraphs nodes can be placed in any order. -/
theorem IsoAlong.placeable (h : d.IsoAlong e f) (hd : d.Simple) (he : e.Simple) {ns : List Nat}
    (hns : ∀ n ∈ ns, n < d.nodes.length) :
    (d.survey weight).Placeable (e.survey weight) (ns.map fun n => (n, f n)) [] := by
  refine (placeable_iff _ _).2 ⟨fun p hp => ?_, by simp, ?_⟩
  · obtain ⟨n, hn, rfl⟩ := List.mem_map.1 hp
    exact h.suits hd he (hns n hn)
  · rw [List.pairwise_map]
    exact List.pairwise_of_forall_mem_list fun n hn m hm =>
      ⟨h.link_eq n (hns n hn) m (hns m hm), h.link_eq m (hns m hm) n (hns n hn)⟩

/-! ### The answer -/

/-- The search answers whether two simple digraphs are isomorphic. -/
theorem isomorphic_decides (weight : α → Nat) : Decides (isomorphic (α := α) weight) := by
  intro d e hd he
  have horder := placingOrder_perm (d.survey weight).stars [] (List.range d.nodes.length)
  simp only [isomorphic, Bool.and_eq_true, beq_iff_eq, List.isPerm_iff, size_stars_survey,
    Survey.extends?_eq_true_iff _ _ _ List.nodup_range]
  -- Of the order in which nodes are placed only this counts: every node comes in it, and comes
  -- once.
  constructor
  · intro h
    obtain ⟨⟨hlength, -⟩, ps, hns, hplaces, -, hps⟩ := h
    exact exists_isoAlong hlength (hns ▸ horder) hplaces hps
  · intro h
    obtain ⟨f, h⟩ := h
    have hlt : ∀ n ∈ placingOrder (d.survey weight).stars [] (List.range d.nodes.length),
        n < d.nodes.length := fun n hn => List.mem_range.1 (horder.mem_iff.1 hn)
    refine ⟨⟨h.length_eq, h.prints_perm hd he weight⟩, _, ?_, ?_, ?_, h.placeable hd he hlt⟩
    · rw [List.map_map]
      exact List.map_id _
    · rw [List.map_map]
      exact (horder.nodup_iff.2 List.nodup_range).map_on fun n hn m hm heq =>
        h.bijOn.injOn (hlt n hn) (hlt m hm) heq
    · intro c hc
      obtain ⟨p, hp, rfl⟩ := List.mem_map.1 hc
      obtain ⟨n, hn, rfl⟩ := List.mem_map.1 hp
      rw [h.length_eq]
      exact List.mem_range.2 (h.bijOn.mapsTo (hlt n hn))

end Digraph

end DoublePushout
