/-!
# Bisection

Searches in an array whose entries are in order: where a test stops to hold, and where a number stands.
-/

namespace StackVM.Bisection

variable {α : Type}

/-- The first place from `lo` to `hi` whose entry fails the test, or `hi`. -/
def partitionFrom (xs : Array α) (test : α → Bool) (lo hi : Nat) : Nat :=
  if lo < hi then
    let mid := lo + (hi - lo) / 2
    match xs[mid]? with
    | none => lo
    | some x =>
      if test x then partitionFrom xs test (mid + 1) hi else partitionFrom xs test lo mid
  else
    lo
termination_by hi - lo

/-- How many entries pass the test, in an array where none passes after one that fails. -/
def partitionPoint (xs : Array α) (test : α → Bool) : Nat := partitionFrom xs test 0 xs.size

/-- A place from `lo` up to `hi` where the number stands. -/
def findFrom? (xs : Array Nat) (n lo hi : Nat) : Option Nat :=
  if lo < hi then
    let mid := lo + (hi - lo) / 2
    match xs[mid]? with
    | none => none
    | some x =>
      if x = n then some mid
      else if x < n then findFrom? xs n (mid + 1) hi
      else findFrom? xs n lo mid
  else
    none
termination_by hi - lo

/-- The place of a number in an array in increasing order. -/
def find? (xs : Array Nat) (n : Nat) : Option Nat := findFrom? xs n 0 xs.size

/-- Puts a number before the first that is not smaller. -/
def insertSorted (n : Nat) : List Nat → List Nat
  | [] => [n]
  | m :: ms => if n ≤ m then n :: m :: ms else m :: insertSorted n ms

/-- The numbers in increasing order, each of them once. -/
def sortedOnce (ns : List Nat) : List Nat := (ns.foldr insertSorted []).eraseReps

end StackVM.Bisection
