/-!
# Sets of indices

A finite set of natural numbers, kept as the number whose binary digits tell the members. Two sets with
the same members are equal.
-/

namespace StackVM

structure IndexSet where
  bits : Nat
deriving DecidableEq, Repr, Inhabited

namespace IndexSet

def empty : IndexSet := ⟨0⟩

def contains (s : IndexSet) (i : Nat) : Bool := s.bits.testBit i

def insert (s : IndexSet) (i : Nat) : IndexSet := ⟨s.bits ||| Nat.pow 2 i⟩

def ofList (is : List Nat) : IndexSet := is.foldl insert empty

@[simp]
theorem contains_empty (i : Nat) : empty.contains i = false := by simp [empty, contains]

@[simp]
theorem contains_insert (s : IndexSet) (i j : Nat) :
    (s.insert i).contains j = (s.contains j || decide (i = j)) := by
  simp [insert, contains, Nat.testBit_or, Nat.testBit_two_pow]

theorem contains_ofList {is : List Nat} {i : Nat} : (ofList is).contains i = true ↔ i ∈ is := by
  suffices ∀ s : IndexSet, (is.foldl insert s).contains i = true ↔ s.contains i = true ∨ i ∈ is by
    simpa [ofList] using this empty
  induction is with
  | nil => simp
  | cons j is ih =>
    intro s
    rw [List.foldl_cons, ih, contains_insert, Bool.or_eq_true, decide_eq_true_eq, List.mem_cons, or_assoc,
      eq_comm (a := i)]

/-- How many sets of indices below `n` there are. -/
def count (n : Nat) : Nat := Nat.pow 2 n

/-- A set of indices below `n` stays one when an index below `n` joins it. -/
theorem insert_lt {s : IndexSet} {i n : Nat} (hs : s.bits < count n) (hi : i < n) :
    (s.insert i).bits < count n :=
  Nat.or_lt_two_pow hs (Nat.pow_lt_pow_right (by omega) hi)

theorem ofList_lt {is : List Nat} {n : Nat} (h : ∀ i ∈ is, i < n) : (ofList is).bits < count n := by
  suffices ∀ s : IndexSet, s.bits < count n → (is.foldl insert s).bits < count n from
    this empty (Nat.two_pow_pos n)
  induction is with
  | nil => exact fun s hs => hs
  | cons i is ih =>
    exact fun s hs => ih (fun j hj => h j (by simp [hj])) _ (insert_lt hs (h i (by simp)))

end IndexSet

end StackVM
