import DoublePushout.Fault
import Mathlib.Data.List.Forall2
import Mathlib.Order.Bounds.Basic

/-!
# `DoublePushout.Proofs.Steps`: chains of steps that may fail

Every operation of the library is a chain of steps, each of which gives a value or ends the chain.
This module says when a chain gives a value, and when it cannot fault.

* `bind_eq_ok`, `forM_eq_ok` and `mapM_eq_ok` read a successful chain back step by step, and
  `bind_eq_error` finds the step that has ended one.
* `findSome?_zipIdx_eq_some_iff` says where a list is first found faulty, and `foldlM_zipIdx_eq`
  that a pass whose states are known stops there.
* `FaultFree` says that a computation either gives a value or refuses its input. It is kept by
  sequencing (`FaultFree.bind`) and by going through a list (`FaultFree.forM`).
-/

set_option autoImplicit false

namespace DoublePushout

variable {ε ζ α β γ : Type}

/-! ### Chains that give a value -/

/-- A chain of two steps gives a value when both do. -/
@[simp] theorem bind_eq_ok {x : Except ε α} {f : α → Except ε β} {b : β} :
    (x >>= f) = .ok b ↔ ∃ a, x = .ok a ∧ f a = .ok b := by
  cases x <;> simp [bind, Except.bind]

/-- A value is given as it is. -/
@[simp] theorem pure_eq_ok {a b : α} : (pure a : Except ε α) = .ok b ↔ a = b := by
  simp [pure, Except.pure]

/-- Rewording errors does not touch the values. -/
@[simp] theorem mapError_eq_ok {x : Except ε α} {f : ε → ζ} {a : α} :
    x.mapError f = .ok a ↔ x = .ok a := by
  cases x <;> simp [Except.mapError]

/-- Reading a table inside a larger computation gives what the table has. -/
@[simp] theorem orFault_eq_ok {x : Except Fault α} {a : α} :
    (orFault x : Except (Failure ε) α) = .ok a ↔ x = .ok a := by
  cases x <;> simp [orFault]

/-- A list is gone through to its end when no element stops the way. -/
theorem forM_eq_ok {xs : List α} {f : α → Except ε Unit} {u : Unit} :
    xs.forM f = .ok u ↔ ∀ x ∈ xs, f x = .ok () := by
  induction xs with
  | nil => simp [pure, Except.pure]
  | cons x xs ih =>
    rw [List.forall_mem_cons, ← ih]
    show (f x >>= fun _ => xs.forM f) = .ok u ↔ _
    rw [bind_eq_ok]
    exact ⟨fun ⟨_, hx, hxs⟩ => ⟨hx, hxs⟩, fun ⟨hx, hxs⟩ => ⟨_, hx, hxs⟩⟩

/-- A list is translated when each element is, in order. -/
theorem mapM_eq_ok {f : α → Except ε β} {xs : List α} {ys : List β} :
    xs.mapM f = .ok ys ↔ List.Forall₂ (fun x y => f x = .ok y) xs ys := by
  induction xs generalizing ys with
  | nil => cases ys <;> simp [pure, Except.pure]
  | cons x xs ih =>
    simp only [List.mapM_cons, bind_eq_ok, pure_eq_ok, List.forall₂_cons_left_iff]
    constructor
    · rintro ⟨y, hy, ys', hys, rfl⟩
      exact ⟨y, ys', hy, ih.1 hys, rfl⟩
    · rintro ⟨y, ys', hy, hys, rfl⟩
      exact ⟨y, hy, ys', ih.2 hys, rfl⟩

/-- A list can be translated when each of its elements can. -/
theorem exists_mapM_eq_ok {f : α → Except ε β} {xs : List α} (h : ∀ x ∈ xs, ∃ y, f x = .ok y) :
    ∃ ys, xs.mapM f = .ok ys := by
  induction xs with
  | nil => exact ⟨[], rfl⟩
  | cons x xs ih =>
    obtain ⟨y, hy⟩ := h x (by simp)
    obtain ⟨ys, hys⟩ := ih fun x hx => h x (by simp [hx])
    exact ⟨y :: ys, by rw [List.mapM_cons, hy, hys]; rfl⟩

/-- An element with something that a list is translated into comes from the list. -/
theorem mem_of_mapM_eq_ok {f : α → Except ε β} {xs : List α} {ys : List β}
    (h : xs.mapM f = .ok ys) {y : β} : y ∈ ys ↔ ∃ x ∈ xs, f x = .ok y := by
  have hall := mapM_eq_ok.1 h
  clear h
  -- On the two lists at once: each result belongs to the element at its place.
  induction hall with
  | nil => simp
  | cons hxy hall ih =>
    rename_i x y' xs ys
    simp only [List.mem_cons, ih]
    constructor
    · rintro (rfl | ⟨x', hx', h⟩)
      · exact ⟨x, .inl rfl, hxy⟩
      · exact ⟨x', .inr hx', h⟩
    · rintro ⟨x', rfl | hx', h⟩
      · rw [hxy] at h
        cases h
        exact .inl rfl
      · exact .inr ⟨x', hx', h⟩

/-- A list of translated elements is gone through as the list is, by a check that does not see the
difference. -/
theorem forM_map_eq {f : α → β} {check : β → Except ε Unit} {check' : α → Except ε Unit}
    (h : ∀ a, check (f a) = check' a) (xs : List α) : (xs.map f).forM check = xs.forM check' := by
  induction xs with
  | nil => rfl
  | cons x xs ih =>
    show (check (f x) >>= fun _ => (xs.map f).forM check) = (check' x >>= fun _ => xs.forM check')
    rw [h, ih]

/-- A list is translated element by element, and what is made of it with it. -/
theorem mapM_map_eq {f : α → Except ε β} {f' : α → Except ε γ} {g : β → γ} {xs : List α}
    (h : ∀ x ∈ xs, f' x = (f x).map g) : xs.mapM f' = (xs.mapM f).map (List.map g) := by
  induction xs with
  | nil => rfl
  | cons x xs ih =>
    rw [List.mapM_cons, List.mapM_cons, h x (by simp), ih fun y hy => h y (by simp [hy])]
    cases f x with
    | error e => rfl
    | ok y =>
      cases xs.mapM f with
      | error e => rfl
      | ok ys => rfl

/-- A step after a translated one is a step that translates first. -/
theorem map_bind_eq {x : Except ε α} {f : α → β} {g : β → Except ε γ} :
    (x.map f >>= g) = (x >>= fun a => g (f a)) := by
  cases x with
  | error e => rfl
  | ok a => rfl

/-- A chain is translated at its end. -/
theorem bind_map_eq {x : Except ε α} {f : α → Except ε β} {g : β → γ} :
    (x >>= f).map g = (x >>= fun a => (f a).map g) := by
  cases x with
  | error e => rfl
  | ok a => rfl

/-! ### Chains that end early -/

/-- A chain ends early at its first step, or after it. -/
theorem bind_eq_error {x : Except ε α} {f : α → Except ε β} {e : ε} :
    (x >>= f) = .error e ↔ x = .error e ∨ ∃ a, x = .ok a ∧ f a = .error e := by
  cases x <;> simp [bind, Except.bind]

/-- Reading a table refuses nothing. -/
theorem orFault_ne_refused {x : Except Fault α} {e : ε} :
    (orFault x : Except (Failure ε) α) ≠ .error (.refused e) := by
  cases x <;> simp [orFault]

/-! ### Numbered lists -/

/-- Going through the numbered elements of a list is going through its positions. -/
theorem forall_mem_zipIdx {xs : List α} {p : α × Nat → Prop} :
    (∀ x ∈ xs.zipIdx, p x) ↔ ∀ i a, xs[i]? = some a → p (a, i) :=
  ⟨fun h i a ha => h (a, i) (List.mem_zipIdx_iff_getElem?.2 ha),
    fun h ⟨a, i⟩ hmem => h i a (List.mem_zipIdx_iff_getElem?.1 hmem)⟩

/-- Something is found first at the least position at which something is found. -/
theorem findSome?_eq_some_iff_isLeast {xs : List α} {f : α → Option β} {b : β} :
    xs.findSome? f = some b ↔ ∃ (i : Nat) (a : α), xs[i]? = some a ∧ f a = some b ∧
      IsLeast {j : Nat | ∃ a', xs[j]? = some a' ∧ f a' ≠ none} i := by
  induction xs with
  | nil => simp
  | cons x xs ih =>
    rw [List.findSome?_cons]
    cases hx : f x with
    | some c =>
      have hleast : IsLeast {j : Nat | ∃ a', (x :: xs)[j]? = some a' ∧ f a' ≠ none} 0 :=
        ⟨⟨x, rfl, by simp [hx]⟩, fun j _ => Nat.zero_le j⟩
      constructor
      · intro h
        exact ⟨0, x, rfl, hx.trans h, hleast⟩
      · intro h
        obtain ⟨i, a, hi, ha, hmin⟩ := h
        obtain rfl : i = 0 := hmin.unique hleast
        obtain rfl := Option.some.inj hi
        exact hx.symm.trans ha
    | none =>
      -- Nothing is found at the head, so the positions of the list are those of its tail, moved
      -- on.
      have hshift : ∀ i, IsLeast {j : Nat | ∃ a', (x :: xs)[j]? = some a' ∧ f a' ≠ none} (i + 1) ↔
          IsLeast {j : Nat | ∃ a', xs[j]? = some a' ∧ f a' ≠ none} i := by
        intro i
        refine and_congr Iff.rfl ⟨fun h j hj => Nat.le_of_succ_le_succ (h (a := j + 1) hj), ?_⟩
        intro h j hj
        cases j with
        | zero =>
          obtain ⟨a', ha', hne⟩ := hj
          obtain rfl := Option.some.inj ha'
          exact absurd hx hne
        | succ j => exact Nat.succ_le_succ (h hj)
      show xs.findSome? f = some b ↔ _
      rw [ih]
      constructor
      · intro h
        obtain ⟨i, a, hi, ha, hmin⟩ := h
        exact ⟨i + 1, a, hi, ha, (hshift i).2 hmin⟩
      · intro h
        obtain ⟨i, a, hi, ha, hmin⟩ := h
        cases i with
        | zero =>
          obtain rfl := Option.some.inj hi
          rw [hx] at ha
          cases ha
        | succ i => exact ⟨i, a, hi, ha, (hshift i).1 hmin⟩

/-- Something is found first in a numbered list at the least position at which
something is found. -/
theorem findSome?_zipIdx_eq_some_iff {xs : List α} {f : α × Nat → Option β} {b : β} :
    xs.zipIdx.findSome? f = some b ↔ ∃ (i : Nat) (a : α), xs[i]? = some a ∧ f (a, i) = some b ∧
      IsLeast {j : Nat | ∃ a', xs[j]? = some a' ∧ f (a', j) ≠ none} i := by
  have hat : ∀ (i : Nat) (p : α × Nat), xs.zipIdx[i]? = some p ↔ xs[i]? = some p.1 ∧ p.2 = i := by
    intro i p
    rw [List.getElem?_zipIdx, Nat.zero_add]
    cases xs[i]? with
    | none => simp
    | some a => simp [Prod.ext_iff, eq_comm]
  have hset : {j : Nat | ∃ p, xs.zipIdx[j]? = some p ∧ f p ≠ none} =
      {j : Nat | ∃ a', xs[j]? = some a' ∧ f (a', j) ≠ none} := by
    ext j
    constructor
    · intro h
      obtain ⟨p, hp, hne⟩ := h
      obtain ⟨ha, rfl⟩ := (hat j p).1 hp
      exact ⟨p.1, ha, hne⟩
    · intro h
      obtain ⟨a, ha, hne⟩ := h
      exact ⟨(a, j), (hat j (a, j)).2 ⟨ha, rfl⟩, hne⟩
  rw [findSome?_eq_some_iff_isLeast, hset]
  constructor
  · intro h
    obtain ⟨i, p, hp, hb, hmin⟩ := h
    obtain ⟨ha, rfl⟩ := (hat i p).1 hp
    exact ⟨p.2, p.1, ha, hb, hmin⟩
  · intro h
    obtain ⟨i, a, ha, hb, hmin⟩ := h
    exact ⟨i, (a, i), (hat i (a, i)).2 ⟨ha, rfl⟩, hb, hmin⟩

/-- A pass over a numbered list whose state is known after any number of elements, and that stops
where a check finds an error, stops at the first error of the check. -/
theorem foldlM_zipIdx_eq {σ : Type} (step : σ → α × Nat → Except ε σ) (err? : α × Nat → Option ε)
    (state : Nat → σ) (xs : List α)
    (h : ∀ i a, xs[i]? = some a → step (state i) (a, i) =
      match err? (a, i) with
      | some e => .error e
      | none => .ok (state (i + 1))) :
    xs.zipIdx.foldlM step (state 0) =
      match xs.zipIdx.findSome? err? with
      | some e => .error e
      | none => .ok (state xs.length) := by
  -- What is left of the list is numbered from the next number on, so the first number is left
  -- open.
  have hfrom : ∀ (ys : List α) (k : Nat), (∀ i a, ys[i]? = some a → xs[k + i]? = some a) →
      (ys.zipIdx k).foldlM step (state k) =
        match (ys.zipIdx k).findSome? err? with
        | some e => .error e
        | none => .ok (state (k + ys.length)) := by
    intro ys
    induction ys with
    | nil =>
      intro k _
      rfl
    | cons y ys ih =>
      intro k hys
      have hrest : ∀ i a, ys[i]? = some a → xs[k + 1 + i]? = some a := by
        intro i a ha
        rw [Nat.add_assoc, Nat.add_comm 1]
        exact hys (i + 1) a ha
      rw [List.zipIdx_cons, List.findSome?_cons, List.foldlM_cons, h k y (hys 0 y rfl)]
      cases err? (y, k) with
      | some e => rfl
      | none =>
        show (ys.zipIdx (k + 1)).foldlM step (state (k + 1)) = _
        rw [ih (k + 1) hrest, List.length_cons, Nat.add_assoc, Nat.add_comm 1]
  have hall := hfrom xs 0 fun i a ha => (Nat.zero_add i).symm ▸ ha
  rwa [Nat.zero_add] at hall

/-! ### Chains that cannot fault -/

/-- The computation gives a value or refuses its input: it is not used outside its contract. -/
def FaultFree (x : Except (Failure ε) α) : Prop := ∀ fault, x ≠ .error (.fault fault)

/-- A value is no fault. -/
theorem FaultFree.ok (a : α) : FaultFree (.ok a : Except (Failure ε) α) := by
  intro fault h
  cases h

/-- A refusal is no fault. -/
theorem FaultFree.refused (e : ε) : FaultFree (.error (.refused e) : Except (Failure ε) α) := by
  intro fault h
  cases h

/-- A chain is free of faults when its first step is and every value leads to a chain that is. -/
theorem FaultFree.bind {x : Except (Failure ε) α} {f : α → Except (Failure ε) β}
    (hx : FaultFree x) (hf : ∀ a, x = .ok a → FaultFree (f a)) : FaultFree (x >>= f) := by
  cases x with
  | ok a => exact hf a rfl
  | error e =>
    intro fault h
    exact hx fault (by cases h; rfl)

/-- Going through a list is free of faults when it is so at each element. -/
theorem FaultFree.forM {xs : List α} {f : α → Except (Failure ε) Unit}
    (h : ∀ x ∈ xs, FaultFree (f x)) : FaultFree (xs.forM f) := by
  induction xs with
  | nil => exact .ok ()
  | cons x xs ih =>
    show FaultFree (f x >>= fun _ => xs.forM f)
    exact .bind (h x (by simp)) fun _ _ => ih fun x hx => h x (by simp [hx])

/-- Rewording errors makes no faults. -/
theorem FaultFree.mapError {x : Except (Failure ε) α} {f : ε → ζ} (h : FaultFree x) :
    FaultFree (x.mapError (Failure.map f)) := by
  cases x with
  | ok a => exact .ok a
  | error e =>
    cases e with
    | refused e => exact .refused (f e)
    | fault fault => exact absurd rfl (h fault)

/-- A computation that can only refuse does not fault. -/
theorem faultFree_orRefuse (x : Except ε α) : FaultFree (orRefuse x) := by
  cases x with
  | ok a => exact .ok a
  | error e => exact .refused e

/-- It refuses its input for the same reason. -/
@[simp] theorem orRefuse_eq_refused {x : Except ε α} {e : ε} :
    orRefuse x = .error (.refused e) ↔ x = .error e := by
  cases x <;> simp [orRefuse]

/-- Reading a table where it has an entry does not fault. -/
theorem FaultFree.orFault {x : Except Fault α} {a : α} (h : x = .ok a) :
    FaultFree (orFault x : Except (Failure ε) α) := by
  subst h
  exact .ok a

end DoublePushout
