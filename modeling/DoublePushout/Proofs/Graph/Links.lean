import DoublePushout.Graph.Isomorphism
import Mathlib.Data.List.Nodup
import Mathlib.Data.List.Perm.Basic
import Mathlib.Data.Set.Function
import Mathlib.Order.Interval.Set.Defs

/-!
# `DoublePushout.Proofs.Graph.Links`: digraphs without parallel arcs

A search for an isomorphism reads a digraph through its stars, which list the links of each node
in the order of the arcs. `Digraph.IsoAlong` speaks of links between positions and knows no order.
This module relates the two.

* `mem_firstOfEach` reads an entry of a star as a link, and `firstOfEach_perm` moves all entries
  along a bijection of positions that keeps links.
* `Digraph.Simple` says that a digraph has no parallel arcs. There a link is an arc
  (`Simple.link_eq_some_iff`), and a star lists every arc at its node, so that the degrees are
  known from the links (`length_outLinks`, `length_inLinks`).
* `IsoAlong.star_corresponds`: an isomorphism of simple digraphs takes stars to stars, up to the
  order of the links.
-/

set_option autoImplicit false

namespace DoublePushout

variable {α : Type}

/-! ### Lists of keys with values -/

/-- What a number leads to is in the list with the number. -/
theorem mem_of_lookup {ps : List (Nat × α)} {m : Nat} {w : α} (h : ps.lookup m = some w) :
    (m, w) ∈ ps := by
  obtain ⟨before, after, rfl, -⟩ := List.lookup_eq_some_iff.1 h
  simp

/-- A list without repeated keys is read at a key by its entry there. -/
theorem lookup_eq_some_iff_mem {ps : List (Nat × α)} (h : (ps.map Prod.fst).Nodup) {m : Nat}
    {w : α} : ps.lookup m = some w ↔ (m, w) ∈ ps := by
  refine ⟨mem_of_lookup, fun hmem => ?_⟩
  cases hlookup : ps.lookup m with
  | none => simpa using List.lookup_eq_none_iff.1 hlookup (m, w) hmem
  | some w' =>
    have heq := List.inj_on_of_nodup_map h (mem_of_lookup hlookup) hmem rfl
    rw [(Prod.mk.inj heq).2]

/-- The first pairs of each number have different numbers. -/
theorem nodup_map_fst_firstOfEach (ps : List (Nat × α)) :
    ((firstOfEach ps).map Prod.fst).Nodup := by
  induction ps with
  | nil => exact List.nodup_nil
  | cons p ps ih =>
    rw [firstOfEach, List.map_cons, List.nodup_cons]
    refine ⟨?_, ih.sublist (List.filter_sublist.map _)⟩
    intro hmem
    obtain ⟨q, hq, heq⟩ := List.mem_map.1 hmem
    simpa [heq] using (List.mem_filter.1 hq).2

/-- The entries that are kept are those by which the list is read. -/
theorem mem_firstOfEach {ps : List (Nat × α)} {m : Nat} {w : α} :
    (m, w) ∈ firstOfEach ps ↔ ps.lookup m = some w := by
  rw [← lookup_eq_some_iff_mem (nodup_map_fst_firstOfEach ps), lookup_firstOfEach]

/-- Nothing is left out of a list without repeated keys. -/
theorem firstOfEach_eq_self {ps : List (Nat × α)} (h : (ps.map Prod.fst).Nodup) :
    firstOfEach ps = ps := by
  induction ps with
  | nil => rfl
  | cons p ps ih =>
    rw [List.map_cons, List.nodup_cons] at h
    rw [firstOfEach, ih h.2, List.filter_eq_self.2]
    intro q hq
    have hne : q.1 ≠ p.1 := fun heq => h.1 (List.mem_map.2 ⟨q, hq, heq⟩)
    simpa using hne

/-- Two lists that are read in the same way at corresponding keys keep corresponding entries. -/
theorem firstOfEach_perm {f : Nat → Nat} {N M : Nat} (hf : Set.BijOn f (Set.Iio N) (Set.Iio M))
    {ps qs : List (Nat × α)} (hps : ∀ p ∈ ps, p.1 < N) (hqs : ∀ q ∈ qs, q.1 < M)
    (hlookup : ∀ m < N, ps.lookup m = qs.lookup (f m)) :
    ((firstOfEach ps).map (Prod.map f id)).Perm (firstOfEach qs) := by
  have hlt : ∀ p ∈ firstOfEach ps, p.1 < N :=
    fun p hp => hps p (mem_of_lookup (mem_firstOfEach.1 hp))
  have hnodup : ((firstOfEach ps).map (Prod.map f id)).Nodup := by
    refine List.Nodup.map_on ?_ (nodup_map_fst_firstOfEach ps).of_map
    intro p hp q hq heq
    obtain ⟨hkey, hvalue⟩ : f p.1 = f q.1 ∧ p.2 = q.2 := Prod.ext_iff.1 heq
    exact Prod.ext (hf.injOn (hlt p hp) (hlt q hq) hkey) hvalue
  refine (List.perm_ext_iff_of_nodup hnodup (nodup_map_fst_firstOfEach qs).of_map).2 fun q => ?_
  rw [List.mem_map]
  constructor
  · intro h
    obtain ⟨p, hp, rfl⟩ := h
    exact mem_firstOfEach.2 ((hlookup p.1 (hlt p hp)).symm.trans (mem_firstOfEach.1 hp))
  · intro hq
    have hread := mem_firstOfEach.1 (show (q.1, q.2) ∈ firstOfEach qs from hq)
    obtain ⟨m, hm, heq⟩ := hf.surjOn (hqs q (mem_of_lookup hread))
    -- The key corresponds to one below the bound, and there the other list reads the same.
    refine ⟨(m, q.2), mem_firstOfEach.2 ?_, Prod.ext heq rfl⟩
    rw [hlookup m hm, heq, hread]

/-! ### Simple digraphs -/

namespace Digraph

variable {d e : Digraph α}

/-- Arcs end at nodes, and no two of them join the same nodes in the same direction. -/
structure Simple (d : Digraph α) : Prop where
  /-- Arcs leave nodes of the digraph. -/
  tail_lt : ∀ a ∈ d.arcs, a.tail < d.nodes.length
  /-- Arcs enter nodes of the digraph. -/
  head_lt : ∀ a ∈ d.arcs, a.head < d.nodes.length
  /-- Arcs with the same tail have different heads. -/
  pairwise : d.arcs.Pairwise fun a b => a.tail = b.tail → a.head ≠ b.head

section Ends
variable {arcs : List (Arc α)} {near far : Arc α → Nat} {n : Nat}

/-- The arcs with an end at a node, as the far end and the weight of each. -/
theorem mem_filterMap_ends {m : Nat} {w : α} :
    (m, w) ∈ (arcs.filterMap fun a =>
        if near a = n then some (far a, a.weight) else none).reverse ↔
      ∃ a ∈ arcs, near a = n ∧ far a = m ∧ a.weight = w := by
  rw [List.mem_reverse, List.mem_filterMap]
  refine exists_congr fun a => and_congr_right fun _ => ?_
  by_cases h : near a = n <;> simp [h]

/-- Arcs that differ in their far ends where their near ends are the same have different far ends
at one position. -/
theorem nodup_filterMap_ends (h : arcs.Pairwise fun a b => near a = near b → far a ≠ far b) :
    ((arcs.filterMap fun a => if near a = n then some (far a, a.weight) else none).reverse.map
      Prod.fst).Nodup := by
  rw [List.map_reverse, List.nodup_reverse, List.nodup_iff_pairwise_ne, List.pairwise_map,
    List.pairwise_filterMap]
  refine h.imp fun {a b} hne p hp q hq heq => ?_
  split at hp
  · split at hq
    · next ha hb =>
      cases hp
      cases hq
      exact hne (ha.trans hb.symm) heq
    · cases hq
  · cases hp

end Ends

/-- The arcs that leave a position are those of the digraph from there. -/
theorem mem_leaving {n m : Nat} {w : α} :
    (m, w) ∈ d.leaving n ↔ (⟨n, m, w⟩ : Arc α) ∈ d.arcs := by
  rw [leaving, mem_filterMap_ends]
  constructor
  · intro h
    obtain ⟨a, ha, rfl, rfl, rfl⟩ := h
    exact ha
  · exact fun h => ⟨_, h, rfl, rfl, rfl⟩

/-- The arcs that enter a position are those of the digraph to there. -/
theorem mem_entering {n m : Nat} {w : α} :
    (m, w) ∈ d.entering n ↔ (⟨m, n, w⟩ : Arc α) ∈ d.arcs := by
  rw [entering, mem_filterMap_ends]
  constructor
  · intro h
    obtain ⟨a, ha, rfl, rfl, rfl⟩ := h
    exact ha
  · exact fun h => ⟨_, h, rfl, rfl, rfl⟩

/-- In a simple digraph the arcs that leave a position lead to different positions. -/
theorem Simple.nodup_leaving (hd : d.Simple) (n : Nat) : ((d.leaving n).map Prod.fst).Nodup :=
  nodup_filterMap_ends hd.pairwise

/-- In a simple digraph the arcs that enter a position come from different positions. -/
theorem Simple.nodup_entering (hd : d.Simple) (n : Nat) : ((d.entering n).map Prod.fst).Nodup :=
  nodup_filterMap_ends (hd.pairwise.imp fun hne hhead htail => hne htail hhead)

/-- A link of a simple digraph is an arc. -/
theorem Simple.link_eq_some_iff (hd : d.Simple) {t h : Nat} {w : α} :
    d.link t h = some w ↔ (⟨t, h, w⟩ : Arc α) ∈ d.arcs := by
  rw [link, lookup_eq_some_iff_mem (hd.nodup_leaving t), mem_leaving]

/-- In a simple digraph every arc that leaves a position is a link. -/
theorem length_outLinks (hd : d.Simple) (label : Option String) (n : Nat) :
    (d.star label n).outLinks.length = (d.star label n).outDegree := by
  rw [star, firstOfEach_eq_self (hd.nodup_leaving n)]

/-- In a simple digraph every arc that enters a position is a link. -/
theorem length_inLinks (hd : d.Simple) (label : Option String) (n : Nat) :
    (d.star label n).inLinks.length = (d.star label n).inDegree := by
  rw [star, firstOfEach_eq_self (hd.nodup_entering n)]

/-- The links of a star lead out as the links of the digraph do. -/
@[simp] theorem lookup_outLinks (label : Option String) (n m : Nat) :
    (d.star label n).outLinks.lookup m = d.link n m :=
  lookup_firstOfEach m _

/-- The links of a star lead in as the links of the digraph do. -/
@[simp] theorem lookup_inLinks (label : Option String) (n m : Nat) :
    (d.star label n).inLinks.lookup m = d.link m n :=
  (lookup_firstOfEach m _).trans (d.lookup_entering m n)

end Digraph

/-! ### Isomorphisms -/

/-- One star is the other with its nodes renamed, up to the order of the links. All links are with
nodes below a bound. -/
structure Star.Corresponds (f : Nat → Nat) (bound : Nat) (s t : Star α) : Prop where
  /-- The labels are the same. -/
  label_eq : s.label = t.label
  /-- As many arcs leave. -/
  outDegree_eq : s.outDegree = t.outDegree
  /-- As many arcs enter. -/
  inDegree_eq : s.inDegree = t.inDegree
  /-- The links that leave correspond. -/
  outLinks_perm : (s.outLinks.map (Prod.map f id)).Perm t.outLinks
  /-- The links that enter correspond. -/
  inLinks_perm : (s.inLinks.map (Prod.map f id)).Perm t.inLinks
  /-- The links that leave are with nodes below the bound. -/
  outLinks_lt : ∀ l ∈ s.outLinks, l.1 < bound
  /-- The links that enter are with nodes below the bound. -/
  inLinks_lt : ∀ l ∈ s.inLinks, l.1 < bound

namespace Digraph

variable {d e : Digraph α} {f : Nat → Nat}

/-- A bijection of positions that keeps labels and links. -/
structure IsoAlong (d e : Digraph α) (f : Nat → Nat) : Prop where
  /-- Positions correspond. -/
  bijOn : Set.BijOn f (Set.Iio d.nodes.length) (Set.Iio e.nodes.length)
  /-- Corresponding nodes have the same label. -/
  label_eq : ∀ n < d.nodes.length, d.nodes[n]? = e.nodes[f n]?
  /-- Corresponding pairs of nodes have the same link. -/
  link_eq : ∀ t < d.nodes.length, ∀ h < d.nodes.length, d.link t h = e.link (f t) (f h)

/-- An isomorphism of simple digraphs takes the star of a node to the star of its image. -/
theorem IsoAlong.star_corresponds (h : d.IsoAlong e f) (hd : d.Simple) (he : e.Simple) {n : Nat}
    (hn : n < d.nodes.length) (label : Option String) :
    (d.star label n).Corresponds f d.nodes.length (e.star label (f n)) := by
  -- Between corresponding nodes, the links out of and into them are matched up by `link_eq`.
  have hout : ((d.star label n).outLinks.map (Prod.map f id)).Perm
      (e.star label (f n)).outLinks :=
    firstOfEach_perm h.bijOn (fun p hp => hd.head_lt _ (mem_leaving.1 hp))
      (fun q hq => he.head_lt _ (mem_leaving.1 hq)) fun m hm => h.link_eq n hn m hm
  have hin : ((d.star label n).inLinks.map (Prod.map f id)).Perm
      (e.star label (f n)).inLinks := by
    refine firstOfEach_perm h.bijOn (fun p hp => hd.tail_lt _ (mem_entering.1 hp))
      (fun q hq => he.tail_lt _ (mem_entering.1 hq)) fun m hm => ?_
    rw [lookup_entering, lookup_entering]
    exact h.link_eq m hm n hn
  refine ⟨rfl, ?_, ?_, hout, hin, fun l hl => ?_, fun l hl => ?_⟩
  · rw [← length_outLinks hd, ← length_outLinks he, ← hout.length_eq, List.length_map]
  · rw [← length_inLinks hd, ← length_inLinks he, ← hin.length_eq, List.length_map]
  · exact hd.head_lt _ (mem_leaving.1 (mem_of_lookup (mem_firstOfEach.1 hl)))
  · exact hd.tail_lt _ (mem_entering.1 (mem_of_lookup (mem_firstOfEach.1 hl)))

end Digraph

end DoublePushout
