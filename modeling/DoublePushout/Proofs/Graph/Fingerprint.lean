import DoublePushout.Proofs.Graph.Links
import DoublePushout.Proofs.Positions
import Mathlib.Algebra.BigOperators.Group.List.Basic

/-!
# `DoublePushout.Proofs.Graph.Fingerprint`: fingerprints do not depend on the order of nodes

The search for an isomorphism places a node only on one with the same fingerprint. It misses
nothing by that, because an isomorphism keeps fingerprints. They are computed in rounds, each from
the fingerprints of the round before, and the argument goes round by round.

* `ofStar_eq` and `ofLinks_eq` are about one node: corresponding stars have the same fingerprint
  by themselves, and from corresponding links the same number is computed.
* `Agree f N` says that fingerprints correspond along a bijection. `refine_agree` keeps it for one
  round, `refineTimes_agree` for all of them by induction.
* `Digraph.IsoAlong.prints_agree` is the result for the surveys of two isomorphic digraphs, and
  `prints_perm` what the search asks of them before it begins.
-/

set_option autoImplicit false

namespace DoublePushout

variable {α : Type}

namespace Fingerprint

variable {f : Nat → Nat} {N : Nat}

/-- The entries of two tables are the same at corresponding positions below a bound. -/
def Agree (f : Nat → Nat) (N : Nat) (p q : Array Nat) : Prop := ∀ n < N, p[n]? = q[f n]?

/-- The stars of two tables correspond at corresponding positions below a bound. -/
def StarsAgree (f : Nat → Nat) (N : Nat) (as bs : Array (Star α)) : Prop :=
  ∀ n < N, ∃ s t, as[n]? = some s ∧ bs[f n]? = some t ∧ s.Corresponds f N t

/-! ### One node -/

/-- Stars that correspond have the same fingerprint. -/
theorem ofStar_eq {s t : Star α} (h : s.Corresponds f N t) : ofStar s = ofStar t := by
  rw [ofStar, ofStar, h.label_eq, h.outDegree_eq, h.inDegree_eq]

/-- The order of the links does not count, and neither does a renaming that keeps fingerprints. -/
theorem ofLinks_eq (weight : α → Nat) {p q : Array Nat} (hpq : Agree f N p q)
    {links links' : List (Nat × α)} (hperm : (links.map (Prod.map f id)).Perm links')
    (hlt : ∀ l ∈ links, l.1 < N) : ofLinks weight p links = ofLinks weight q links' := by
  have hmix : links.map (fun l => mix (weight l.2) (p.getD l.1 0)) =
      (links.map (Prod.map f id)).map (fun l => mix (weight l.2) (q.getD l.1 0)) := by
    rw [List.map_map]
    refine List.map_congr_left fun l hl => ?_
    show mix (weight l.2) (p.getD l.1 0) = mix (weight l.2) (q.getD (f l.1) 0)
    rw [Array.getD_eq_getD_getElem?, Array.getD_eq_getD_getElem?, hpq l.1 (hlt l hl)]
  have hsum : ∀ ns : List Nat, ns.foldl (· + ·) 0 = ns.sum := fun ns => List.sum_eq_foldl.symm
  show (links.map (fun l => mix (weight l.2) (p.getD l.1 0))).foldl (· + ·) 0 % bound =
    (links'.map (fun l => mix (weight l.2) (q.getD l.1 0))).foldl (· + ·) 0 % bound
  rw [hmix, hsum, hsum, (hperm.map _).sum_eq]

/-! ### All rounds -/

variable {as bs : Array (Star α)} {p q : Array Nat}

/-- Fingerprints that correspond do so after one more look at the neighbours. -/
theorem refine_agree (weight : α → Nat) (hstars : StarsAgree f N as bs) (hpq : Agree f N p q) :
    Agree f N (refine weight as p) (refine weight bs q) := by
  intro n hn
  obtain ⟨s, t, hs, ht, hst⟩ := hstars n hn
  rw [refine, refine, Array.getElem?_zipWith, Array.getElem?_zipWith, hs, ht, ← hpq n hn]
  cases p[n]? with
  | none => rfl
  | some x =>
    show some (mix (mix x (ofLinks weight p s.outLinks)) (ofLinks weight p s.inLinks)) =
      some (mix (mix x (ofLinks weight q t.outLinks)) (ofLinks weight q t.inLinks))
    rw [ofLinks_eq weight hpq hst.outLinks_perm hst.outLinks_lt,
      ofLinks_eq weight hpq hst.inLinks_perm hst.inLinks_lt]

/-- Fingerprints that correspond do so after any number of looks at the neighbours. -/
theorem refineTimes_agree (weight : α → Nat) (hstars : StarsAgree f N as bs) :
    ∀ (k : Nat) (p q : Array Nat), Agree f N p q →
      Agree f N (refineTimes weight as k p) (refineTimes weight bs k q) := by
  intro k
  induction k with
  | zero => exact fun p q hpq => hpq
  | succ k ih => exact fun p q hpq => ih _ _ (refine_agree weight hstars hpq)

/-- The fingerprints made of corresponding stars correspond. -/
theorem ofStars_agree (weight : α → Nat) (hsize : as.size = bs.size)
    (hstars : StarsAgree f N as bs) : Agree f N (ofStars weight as) (ofStars weight bs) := by
  rw [ofStars, ofStars, hsize]
  refine refineTimes_agree weight hstars _ _ _ fun n hn => ?_
  obtain ⟨s, t, hs, ht, hst⟩ := hstars n hn
  rw [Array.getElem?_map, Array.getElem?_map, hs, ht, Option.map_some, Option.map_some,
    ofStar_eq hst]

/-- Looking at the neighbours leaves as many fingerprints as there were. -/
theorem size_refineTimes (weight : α → Nat) (as : Array (Star α)) :
    ∀ (k : Nat) (p : Array Nat), p.size = as.size →
      (refineTimes weight as k p).size = as.size := by
  intro k
  induction k with
  | zero => exact fun p hp => hp
  | succ k ih =>
    intro p hp
    refine ih _ ?_
    rw [refine, Array.size_zipWith, hp, Nat.min_self]

/-- There is a fingerprint for each star. -/
theorem size_ofStars (weight : α → Nat) (as : Array (Star α)) :
    (ofStars weight as).size = as.size :=
  size_refineTimes weight as _ _ Array.size_map

end Fingerprint

/-! ### Surveys -/

namespace Digraph

variable {d e : Digraph α} {f : Nat → Nat}

/-- A survey has the star of each node at its position. -/
theorem stars_survey (d : Digraph α) (weight : α → Nat) (n : Nat) :
    (d.survey weight).stars[n]? = d.nodes[n]?.map fun label => d.star label n := by
  rw [survey, List.getElem?_toArray, List.getElem?_map, List.getElem?_zipIdx, Option.map_map,
    Nat.zero_add]
  rfl

/-- A survey has as many stars as there are nodes. -/
theorem size_stars_survey (d : Digraph α) (weight : α → Nat) :
    (d.survey weight).stars.size = d.nodes.length := by
  rw [survey, List.size_toArray, List.length_map, List.length_zipIdx]

/-- A survey has as many fingerprints as there are nodes. -/
theorem size_prints_survey (d : Digraph α) (weight : α → Nat) :
    (d.survey weight).prints.size = d.nodes.length :=
  (Fingerprint.size_ofStars weight _).trans (d.size_stars_survey weight)

/-- Isomorphic digraphs have equally many nodes. -/
theorem IsoAlong.length_eq (h : d.IsoAlong e f) : d.nodes.length = e.nodes.length :=
  eq_of_bijOn h.bijOn

/-- An isomorphism of simple digraphs carries stars to stars. -/
theorem IsoAlong.stars_agree (h : d.IsoAlong e f) (hd : d.Simple) (he : e.Simple)
    (weight : α → Nat) : Fingerprint.StarsAgree f d.nodes.length (d.survey weight).stars
      (e.survey weight).stars := by
  intro n hn
  have hlabel := List.getElem?_eq_getElem hn
  refine ⟨d.star d.nodes[n] n, e.star d.nodes[n] (f n), ?_, ?_, h.star_corresponds hd he hn _⟩
  · rw [stars_survey, hlabel, Option.map_some]
  · rw [stars_survey, ← h.label_eq n hn, hlabel, Option.map_some]

/-- Isomorphic digraphs have equally many stars. -/
theorem IsoAlong.size_stars_eq (h : d.IsoAlong e f) (weight : α → Nat) :
    (d.survey weight).stars.size = (e.survey weight).stars.size := by
  rw [size_stars_survey, size_stars_survey, h.length_eq]

/-- An isomorphism keeps fingerprints. -/
theorem IsoAlong.prints_agree (h : d.IsoAlong e f) (hd : d.Simple) (he : e.Simple)
    (weight : α → Nat) : Fingerprint.Agree f d.nodes.length (d.survey weight).prints
      (e.survey weight).prints :=
  Fingerprint.ofStars_agree weight (h.size_stars_eq weight) (h.stars_agree hd he weight)

/-- Isomorphic digraphs have the same fingerprints, equally often. -/
theorem IsoAlong.prints_perm (h : d.IsoAlong e f) (hd : d.Simple) (he : e.Simple)
    (weight : α → Nat) :
    (d.survey weight).prints.toList.Perm (e.survey weight).prints.toList := by
  have hsize : ∀ c : Digraph α, (c.survey weight).prints.toList.length = c.nodes.length :=
    fun c => c.size_prints_survey weight
  refine perm_of_bijOn (f := f) (by rw [hsize, hsize]; exact h.bijOn) fun n hn => ?_
  rw [Array.getElem?_toList, Array.getElem?_toList]
  exact h.prints_agree hd he weight n (by rwa [hsize] at hn)

end Digraph

end DoublePushout
