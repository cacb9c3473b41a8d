/-!
# `DoublePushout.IdSet`: finite sets of handles

A subgraph names a set of nodes and a set of edges. `IdSet` keeps such a set as the ascending list
of its members, and the order is a proof field: two sets with the same members are equal, which is
what lets a set survive being written and read back.
-/

set_option autoImplicit false

namespace DoublePushout

/-- A finite set of handles, held as the ascending list of its members. -/
@[ext] structure IdSet where
  /-- The members, each once, in ascending order. -/
  toList : List Nat
  /-- Each member is below all later ones. -/
  ascending : toList.Pairwise (· < ·) := by exact List.Pairwise.nil
  deriving DecidableEq, Repr

namespace IdSet

/-- Puts a handle at its place in an ascending list, unless it is there already. -/
def place (n : Nat) : List Nat → List Nat
  | [] => [n]
  | m :: ms => if n < m then n :: m :: ms else if n = m then m :: ms else m :: place n ms

/-- Placing a number adds it and nothing else. -/
theorem mem_place {n k : Nat} {ms : List Nat} : k ∈ place n ms ↔ k = n ∨ k ∈ ms := by
  induction ms with
  | nil => simp [place]
  | cons m ms ih =>
    unfold place
    split
    · simp
    · split
      · next h => subst h; simp
      · simp only [List.mem_cons, ih]
        constructor
        · rintro (h | h | h) <;> simp [h]
        · rintro (h | h | h) <;> simp [h]

/-- Placing a number keeps a list ascending. -/
theorem pairwise_place {n : Nat} {ms : List Nat} (h : ms.Pairwise (· < ·)) :
    (place n ms).Pairwise (· < ·) := by
  induction ms with
  | nil => simp [place]
  | cons m ms ih =>
    rw [List.pairwise_cons] at h
    unfold place
    split
    · -- `n` is before `m`, and so before every handle behind `m`.
      next hn =>
      refine List.pairwise_cons.2 ⟨fun k hk => ?_, List.pairwise_cons.2 h⟩
      rcases List.mem_cons.1 hk with rfl | hk
      · exact hn
      · exact Nat.lt_trans hn (h.1 k hk)
    · split
      · exact List.pairwise_cons.2 h
      · next hlt hne =>
        refine List.pairwise_cons.2 ⟨fun k hk => ?_, ih h.2⟩
        rcases mem_place.1 hk with rfl | hk
        · omega
        · exact h.1 k hk

/-- The set without members. -/
def empty : IdSet where
  toList := []

instance : Inhabited IdSet := ⟨empty⟩

instance : EmptyCollection IdSet := ⟨empty⟩

instance : Membership Nat IdSet := ⟨fun s n => n ∈ s.toList⟩

instance (n : Nat) (s : IdSet) : Decidable (n ∈ s) :=
  inferInstanceAs (Decidable (n ∈ s.toList))

/-- The set with one member more. -/
def insert (s : IdSet) (n : Nat) : IdSet where
  toList := place n s.toList
  ascending := pairwise_place s.ascending

/-- The set of the handles in a list, in any order and with repeats. -/
def ofList (ns : List Nat) : IdSet := ns.foldl insert empty

/-- The list of a set holds its members. -/
@[simp] theorem mem_toList {s : IdSet} {n : Nat} : n ∈ s.toList ↔ n ∈ s := Iff.rfl

/-- The empty set has no member. -/
@[simp] theorem not_mem_empty {n : Nat} : ¬ n ∈ empty := by
  simp [← mem_toList, empty]

/-- Inserting a number adds it and nothing else. -/
@[simp] theorem mem_insert {s : IdSet} {n k : Nat} : k ∈ s.insert n ↔ k = n ∨ k ∈ s :=
  mem_place

/-- The set of a list has the members of the list. -/
@[simp] theorem mem_ofList {ns : List Nat} {k : Nat} : k ∈ ofList ns ↔ k ∈ ns := by
  have key : ∀ (ns : List Nat) (s : IdSet), k ∈ ns.foldl insert s ↔ k ∈ ns ∨ k ∈ s := by
    intro ns
    induction ns with
    | nil => simp
    | cons n ns ih => intro s; simp [ih, or_assoc, or_left_comm]
  simpa [ofList] using key ns empty

end IdSet

end DoublePushout
