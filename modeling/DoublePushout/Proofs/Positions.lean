import Mathlib.Data.List.Forall2
import Mathlib.Data.List.Nodup
import Mathlib.Data.List.Perm.Basic
import Mathlib.Data.Set.Function
import Mathlib.Order.Interval.Set.Defs

/-!
# `DoublePushout.Proofs.Positions`: lists read by position

A handle is a position in a list, so most arguments about graphs come down to what lists hold
where. This module has the facts about lists that say so and that the library does not have.

* `forall₂_getElem?`: paired lists hold paired elements at the same position.
* `bijOn_idxOf` and `bijOn_moveIndex`: the members of a list without repeats correspond to its
  positions, and so do the positions of two such lists with the same members.
* `map_range_perm` and `perm_of_bijOn`: a bijection of positions puts the positions, and what is
  held there, in another order.
-/

set_option autoImplicit false

namespace DoublePushout

variable {α β γ : Type}

/-! ### Paired lists -/

/-- Related lists have related elements at each position. -/
theorem forall₂_getElem? {R : α → β → Prop} {xs : List α} {ys : List β}
    (h : List.Forall₂ R xs ys) {i : Nat} {x : α} (hx : xs[i]? = some x) :
    ∃ y, ys[i]? = some y ∧ R x y := by
  induction h generalizing i with
  | nil => simp at hx
  | cons hxy _ ih =>
    cases i with
    | zero =>
      obtain rfl := Option.some.inj hx
      exact ⟨_, rfl, hxy⟩
    | succ i => exact ih hx

/-- A list of what a function gives for another one is that list under the function. -/
theorem forall₂_map_some {f : α → Option β} {xs : List α} {ys : List β}
    (h : List.Forall₂ (fun x y => f x = some y) xs ys) : ys.map some = xs.map f := by
  induction h with
  | nil => rfl
  | cons hxy _ ih => rw [List.map_cons, List.map_cons, hxy, ih]

/-- A pairing with what each element is translated to is one with the translated list. -/
theorem forall₂_filterMap_left {R : β → γ → Prop} {f : α → Option β} {xs : List α} {ys : List γ}
    (h : List.Forall₂ (fun x y => ∃ b, f x = some b ∧ R b y) xs ys) :
    List.Forall₂ R (xs.filterMap f) ys := by
  induction h with
  | nil => exact .nil
  | cons hxy _ ih =>
    obtain ⟨b, hb, hR⟩ := hxy
    rw [List.filterMap_cons, hb]
    exact .cons hR ih

/-- A list is paired with its translation when each of its elements has one. -/
theorem forall₂_filterMap_right {f : α → Option β} {xs : List α}
    (h : ∀ x ∈ xs, ∃ y, f x = some y) :
    List.Forall₂ (fun x y => f x = some y) xs (xs.filterMap f) := by
  induction xs with
  | nil => exact .nil
  | cons x xs ih =>
    obtain ⟨y, hy⟩ := h x (by simp)
    rw [List.filterMap_cons, hy]
    exact .cons hy (ih fun x hx => h x (by simp [hx]))

/-! ### Extended lists -/

/-- An element is held by a longer list where it was, or where it has been added. -/
theorem getElem?_concat_eq_some {xs : List α} {x y : α} {i : Nat} :
    (xs ++ [y])[i]? = some x ↔ (x = y ∧ i = xs.length) ∨ xs[i]? = some x := by
  rw [List.getElem?_append, List.getElem?_singleton]
  grind

/-! ### Filtered lists -/

/-- The positions of a filtered numbered list are the filtered positions. -/
theorem map_snd_filter_zipIdx (xs : List α) (p : Nat → Bool) :
    (xs.zipIdx.filter fun x => p x.2).map Prod.snd = (List.range xs.length).filter p := by
  rw [List.range_eq_range', ← List.zipIdx_map_snd 0 xs, List.filter_map]
  rfl

/-- Some positions of a list hold the elements that a test picks, if it picks what they hold. -/
theorem map_getElem?_filter_range {xs : List α} {p : Nat → Bool} {q : α → Bool}
    (h : ∀ i x, xs[i]? = some x → p i = q x) :
    ((List.range xs.length).filter p).map (xs[·]?) = (xs.filter q).map some := by
  have hheld : ∀ x ∈ xs.zipIdx, xs[x.2]? = some x.1 :=
    fun x hx => List.mem_zipIdx_iff_getElem?.1 hx
  have hfst : xs.filter q = (xs.zipIdx.filter fun x => q x.1).map Prod.fst := by
    conv => lhs; rw [← List.zipIdx_map_fst 0 xs, List.filter_map]
    rfl
  rw [← map_snd_filter_zipIdx, hfst, List.map_map, List.map_map,
    List.filter_congr fun x hx => h x.2 x.1 (hheld x hx)]
  exact List.map_congr_left fun x hx => hheld x (List.mem_filter.1 hx).1

/-- Leaving elements out while translating is leaving them out before. -/
theorem filterMap_ite_none (xs : List α) (p : α → Prop) [DecidablePred p] (f : α → β) :
    (xs.filterMap fun x => if p x then none else some (f x)) =
      (xs.filter fun x => ¬ p x).map f := by
  induction xs with
  | nil => rfl
  | cons x xs ih => by_cases hx : p x <;> simp [hx, ih]

/-- Elements filed by their numbers, up to a bound, are the elements with a number below it. None
of them is filed twice. -/
theorem flatMap_filter_range_perm (xs : List α) (number : α → Nat) (bound : Nat) :
    ((List.range bound).flatMap fun i => xs.filter fun x => number x = i).Perm
      (xs.filter fun x => number x < bound) := by
  induction bound with
  | zero => simp
  | succ bound ih =>
    -- The elements below the next bound are those below this one and those filed under it.
    have hsplit := List.filter_append_perm (fun x => number x < bound)
      (xs.filter fun x => number x < bound + 1)
    have hbelow : (xs.filter fun x => number x < bound + 1).filter (fun x => number x < bound) =
        xs.filter fun x => number x < bound := by
      rw [List.filter_filter]
      refine List.filter_congr fun x _ => ?_
      rw [← Bool.decide_and, decide_eq_decide]
      omega
    have hat : (xs.filter fun x => number x < bound + 1).filter
        (fun x => !decide (number x < bound)) = xs.filter fun x => number x = bound := by
      rw [List.filter_filter]
      refine List.filter_congr fun x _ => ?_
      rw [← decide_not, ← Bool.decide_and, decide_eq_decide]
      omega
    rw [hbelow, hat] at hsplit
    rw [List.range_succ, List.flatMap_append, List.flatMap_singleton]
    exact (ih.append_right _).trans hsplit

/-! ### Lists without repeats -/

/-- Positions of a list without repeats are told apart by what they hold. -/
theorem eq_of_getElem?_eq {xs : List α} (h : xs.Nodup) {i j : Nat} {x : α}
    (hi : xs[i]? = some x) (hj : xs[j]? = some x) : i = j :=
  (List.getElem?_inj (List.getElem?_eq_some_iff.1 hi).1 h).1 (hi.trans hj.symm)

/-- A list repeats nothing exactly when no element occurs before itself. -/
theorem nodup_iff_not_mem_take {xs : List Nat} :
    xs.Nodup ↔ ∀ i c, xs[i]? = some c → c ∉ xs.take i := by
  rw [List.nodup_iff_pairwise_ne, List.pairwise_iff_getElem]
  constructor
  · intro h i c hc hmem
    obtain ⟨hi, rfl⟩ := List.getElem?_eq_some_iff.1 hc
    obtain ⟨j, hj, heq⟩ := List.getElem_of_mem hmem
    rw [List.length_take] at hj
    rw [List.getElem_take] at heq
    exact h j i (by omega) hi (by omega) heq
  · intro h i j hi hj hlt heq
    refine h j xs[j] (List.getElem?_eq_getElem hj) ?_
    rw [← heq]
    exact List.mem_take_iff_getElem.2 ⟨i, by omega, rfl⟩

/-- Two ascending lists with the same members are the same. -/
theorem eq_of_ascending {xs ys : List Nat} (hx : xs.Pairwise (· < ·)) (hy : ys.Pairwise (· < ·))
    (h : ∀ n, n ∈ xs ↔ n ∈ ys) : xs = ys :=
  List.Perm.eq_of_pairwise (fun _ _ _ _ hxy hyx => absurd hxy (Nat.lt_asymm hyx)) hx hy
    ((List.perm_ext_iff_of_nodup (hx.imp Nat.ne_of_lt) (hy.imp Nat.ne_of_lt)).2 h)

/-- Without its duplicates a list has each element once. -/
theorem nodup_eraseDups [BEq α] [LawfulBEq α] (xs : List α) : xs.eraseDups.Nodup := by
  -- What follows the first element is shorter than the rest of the list, not a part of it.
  induction hn : xs.length using Nat.strong_induction_on generalizing xs with
  | _ n ih =>
    cases xs with
    | nil => simp
    | cons x xs =>
      subst hn
      rw [List.eraseDups_cons, List.nodup_cons]
      refine ⟨by simp [List.mem_eraseDups], ih _ ?_ _ rfl⟩
      exact Nat.lt_succ_of_le (List.length_filter_le _ _)

/-- Two lists without repeats that share nothing and together make up a numbering have its length
together. -/
theorem length_add_length_eq {xs ys : List Nat} {n : Nat} (hx : xs.Nodup) (hy : ys.Nodup)
    (hdisjoint : ∀ i ∈ xs, i ∉ ys) (hmem : ∀ i, i ∈ xs ∨ i ∈ ys ↔ i < n) :
    xs.length + ys.length = n := by
  have hnodup : (xs ++ ys).Nodup :=
    List.nodup_append.2 ⟨hx, hy, fun i hi j hj heq => hdisjoint i hi (heq ▸ hj)⟩
  have hperm : (xs ++ ys).Perm (List.range n) :=
    (List.perm_ext_iff_of_nodup hnodup List.nodup_range).2 fun i => by
      rw [List.mem_append, hmem, List.mem_range]
  rw [← List.length_append, hperm.length_eq, List.length_range]

/-! ### Positions as indices -/

section Index
variable [DecidableEq α]

/-- A member of a list stands at its index. -/
theorem getElem?_idxOf {xs : List α} {x : α} (h : x ∈ xs) : xs[xs.idxOf x]? = some x := by
  rw [List.getElem?_eq_getElem (List.idxOf_lt_length_of_mem h), List.getElem_idxOf]

/-- In a list without duplicates an element has the index at which it stands. -/
theorem idxOf_eq {xs : List α} (h : xs.Nodup) {i : Nat} {x : α} (hi : xs[i]? = some x) :
    xs.idxOf x = i :=
  eq_of_getElem?_eq h (getElem?_idxOf (List.mem_of_getElem? hi)) hi

/-- The search for a position that holds an element finds one if there is one. -/
theorem exists_find?_range {xs : List α} {n i : Nat} {x : α} (hi : xs[i]? = some x)
    (hn : xs.length ≤ n) :
    ∃ j, (List.range n).find? (xs[·]? = some x) = some j ∧ xs[j]? = some x := by
  have hlt : i < n := Nat.lt_of_lt_of_le (List.getElem?_eq_some_iff.1 hi).1 hn
  cases hfind : (List.range n).find? (xs[·]? = some x) with
  | none => exact absurd (by simpa using hi) (List.find?_eq_none.1 hfind i (List.mem_range.2 hlt))
  | some j => exact ⟨j, rfl, by simpa using List.find?_some hfind⟩

/-- What is not in a list is found at no position. -/
theorem find?_range_eq_none {xs : List α} {n : Nat} {x : α} (hx : x ∉ xs) :
    (List.range n).find? (xs[·]? = some x) = none := by
  rw [List.find?_eq_none]
  intro i _ hi
  exact hx (List.mem_of_getElem? (by simpa using hi))

/-- The members of a list without repeats and its positions correspond. -/
theorem bijOn_idxOf {xs : List α} (h : xs.Nodup) :
    Set.BijOn xs.idxOf {x | x ∈ xs} (Set.Iio xs.length) := by
  refine ⟨fun x hx => List.idxOf_lt_length_of_mem hx,
    fun x hx y _ heq => (List.idxOf_inj hx).1 heq, fun i hi => ?_⟩
  have hget := List.getElem?_eq_getElem (Set.mem_Iio.1 hi)
  exact ⟨xs[i], List.getElem_mem _, idxOf_eq h hget⟩

/-- The position in one list of what another holds at a position. -/
def moveIndex (xs ys : List α) (i : Nat) : Nat := (xs[i]?).elim 0 ys.idxOf

/-- An element that is in both lists stands in the second where its position has moved. -/
theorem getElem?_moveIndex {xs ys : List α} {i : Nat} {x : α} (hi : xs[i]? = some x)
    (hx : x ∈ ys) : ys[moveIndex xs ys i]? = some x := by
  rw [moveIndex, hi]
  exact getElem?_idxOf hx

/-- Two lists with the same members and no repeats have corresponding positions. -/
theorem bijOn_moveIndex {xs ys : List α} (hperm : xs.Perm ys) (h : xs.Nodup) :
    Set.BijOn (moveIndex xs ys) (Set.Iio xs.length) (Set.Iio ys.length) := by
  -- A position and the one it moves to hold the same element, which determines both.
  have hat : ∀ i < xs.length, ∃ x, xs[i]? = some x ∧ ys[moveIndex xs ys i]? = some x := by
    intro i hi
    have hx := List.getElem?_eq_getElem hi
    exact ⟨_, hx, getElem?_moveIndex hx (hperm.subset (List.getElem_mem hi))⟩
  refine ⟨fun i hi => ?_, fun i hi j hj heq => ?_, fun j hj => ?_⟩
  · obtain ⟨x, -, hx⟩ := hat i hi
    exact (List.getElem?_eq_some_iff.1 hx).1
  · obtain ⟨x, hx, hx'⟩ := hat i hi
    obtain ⟨y, hy, hy'⟩ := hat j hj
    rw [heq, hy'] at hx'
    cases hx'
    exact eq_of_getElem?_eq h hx hy
  · have hy := List.getElem?_eq_getElem (Set.mem_Iio.1 hj)
    obtain ⟨i, hi⟩ := List.getElem?_of_mem (hperm.mem_iff.2 (List.mem_of_getElem? hy))
    refine ⟨i, (List.getElem?_eq_some_iff.1 hi).1, ?_⟩
    exact eq_of_getElem?_eq (hperm.nodup_iff.1 h)
      (getElem?_moveIndex hi (List.mem_of_getElem? hy)) hy

end Index

/-! ### Numberings that correspond -/

section Bijection
variable {f : Nat → Nat} {n m : Nat}

/-- A bijection of positions rearranges the positions. -/
theorem map_range_perm (hf : Set.BijOn f (Set.Iio n) (Set.Iio m)) :
    ((List.range n).map f).Perm (List.range m) := by
  have hnodup : ((List.range n).map f).Nodup :=
    List.nodup_range.map_on fun i hi j hj heq =>
      hf.injOn (List.mem_range.1 hi) (List.mem_range.1 hj) heq
  refine (List.perm_ext_iff_of_nodup hnodup List.nodup_range).2 fun j => ?_
  rw [List.mem_map, List.mem_range]
  constructor
  · intro h
    obtain ⟨i, hi, rfl⟩ := h
    exact hf.mapsTo (List.mem_range.1 hi)
  · intro hj
    obtain ⟨i, hi, heq⟩ := hf.surjOn hj
    exact ⟨i, List.mem_range.2 hi, heq⟩

/-- There are equally many positions on both sides of a bijection. -/
theorem eq_of_bijOn (hf : Set.BijOn f (Set.Iio n) (Set.Iio m)) : n = m := by
  simpa using (map_range_perm hf).length_eq

/-- Renumbering and numbering back changes nothing. -/
theorem map_map_of_leftInvOn {g : Nat → Nat} {xs : List Nat}
    (h : Set.LeftInvOn g f (Set.Iio n)) (hxs : ∀ x ∈ xs, x < n) : (xs.map f).map g = xs := by
  rw [List.map_map]
  exact (List.map_congr_left fun x hx => h (hxs x hx)).trans (List.map_id xs)

/-- Lists that hold the same at corresponding positions have the same elements. -/
theorem perm_of_bijOn {xs ys : List α} (hf : Set.BijOn f (Set.Iio xs.length) (Set.Iio ys.length))
    (h : ∀ i < xs.length, xs[i]? = ys[f i]?) : xs.Perm ys := by
  have hread : ∀ zs : List α, (List.range zs.length).map (zs[·]?) = zs.map some := by
    intro zs
    refine List.ext_getElem? fun i => ?_
    by_cases hi : i < zs.length <;> simp [hi]
  refine (List.map_perm_map_iff (Option.some_injective α)).1 ?_
  rw [← hread xs, ← hread ys, List.map_congr_left fun i hi => h i (List.mem_range.1 hi)]
  have hperm := (map_range_perm hf).map (ys[·]?)
  rwa [List.map_map] at hperm

end Bijection

end DoublePushout
