import StackVM.Object

/-!
# The heap

Two tables over the same addresses: the objects, and how often each is held. Address zero stands for the
null reference and is never given out. Releasing the last reference to an object empties its slot and
releases everything the object holds, through a list of addresses still to be released rather than by
recursion. Freed slots are reused, the last freed first. Cycles are never reclaimed.
-/

namespace StackVM

structure Heap where
  /-- What each address holds. -/
  objects : Array (Option Object)
  /-- How many references there are to each address. -/
  counts : Array Nat
  /-- Addresses free for reuse, the last freed first. -/
  free : List Nat

namespace Heap

/-- Only the null slot. -/
def empty : Heap := ⟨#[none], #[0], []⟩

/-! ### Looking up -/

/-- The number of slots, that of null and the free ones included. -/
def size (h : Heap) : Nat := h.objects.size

/-- The live object at an address. -/
def get? (h : Heap) (a : Nat) : Option Object := h.objects[a]?.join

def refcount (h : Heap) (a : Nat) : Nat := h.counts[a]?.getD 0

/-- Addresses that the contents of a slot hold. -/
def held : Option Object → List Nat
  | some o => o.children
  | none => []

/-- Whether the address awaits reuse. -/
def isFree (h : Heap) (a : Nat) : Bool := h.free.contains a

/-- Number of live objects. -/
def live (h : Heap) : Nat := h.size - 1 - h.free.length

/-! ### Changing -/

/-- Stores an object with one reference, in the slot freed last or else in a new one. -/
def alloc : Heap → Object → Nat × Heap
  | ⟨objects, counts, a :: free⟩, o =>
    (a, ⟨objects.setIfInBounds a (some o), counts.setIfInBounds a 1, free⟩)
  | ⟨objects, counts, []⟩, o => (objects.size, ⟨objects.push (some o), counts.push 1, []⟩)

/-- Changes the contents of a live slot. -/
def update (h : Heap) (a : Nat) (f : Object → Object) : Heap :=
  { h with objects := h.objects.modify a (Option.map f) }

def setCount (h : Heap) (a n : Nat) : Heap := { h with counts := h.counts.setIfInBounds a n }

/-- Counts one more reference to a live object. -/
def retain (h : Heap) (a : Nat) : Heap :=
  if a = 0 then h
  else
    match h.refcount a with
    | 0 => h
    | n + 1 => h.setCount a (n + 2)

/-- Empties a slot, which then awaits reuse. -/
def clear (h : Heap) (a : Nat) : Heap :=
  ⟨h.objects.setIfInBounds a none, h.counts.setIfInBounds a 0, a :: h.free⟩

/-- The sum of all counts, which every effective release lowers by one. -/
def total (h : Heap) : Nat := h.counts.toList.foldr (· + ·) 0

private theorem sum_set {l : List Nat} {i x : Nat} (h : l[i]? = some x) (y : Nat) :
    (l.set i y).foldr (· + ·) 0 + x = l.foldr (· + ·) 0 + y := by
  induction l generalizing i with
  | nil => simp at h
  | cons a l ih =>
    cases i with
    | zero =>
      simp only [List.getElem?_cons_zero, Option.some.injEq] at h
      simp only [List.set_cons_zero, List.foldr_cons]
      omega
    | succ i =>
      simp only [List.getElem?_cons_succ] at h
      have := ih h
      simp only [List.set_cons_succ, List.foldr_cons]
      omega

theorem counts_of_refcount {h : Heap} {a n : Nat} (counted : h.refcount a = n + 1) :
    h.counts[a]? = some (n + 1) := by
  rw [refcount] at counted
  cases at_a : h.counts[a]? with
  | none => simp [at_a] at counted
  | some m => simp_all

theorem total_setCount {h : Heap} {a n : Nat} (counted : h.refcount a = n + 1) (m : Nat) :
    (h.setCount a m).total + (n + 1) = h.total + m := by
  have at_a : h.counts.toList[a]? = some (n + 1) := by simpa using counts_of_refcount counted
  simpa [total, setCount] using sum_set at_a m

/-- Releases one reference to each address of a list, and whatever that frees, the head first. An
address that names no live object is passed over. -/
def releaseAll (h : Heap) (pending : List Nat) : Heap :=
  match pending with
  | [] => h
  | a :: rest =>
    if a = 0 then h.releaseAll rest
    else
      match _counted : h.refcount a with
      | 0 => h.releaseAll rest
      | 1 =>
        let children := held (h.get? a)
        (h.clear a).releaseAll (children.reverse ++ rest)
      | n + 2 => (h.setCount a (n + 1)).releaseAll rest
termination_by (h.total, pending.length)
decreasing_by
  · exact .right _ (by simp)
  · exact .right _ (by simp)
  · refine .left _ _ ?_
    have : (h.clear a).total = (h.setCount a 0).total := rfl
    have := total_setCount _counted 0
    omega
  · refine .left _ _ ?_
    have := total_setCount _counted (n + 1)
    omega

/-- Gives up one reference to an address. -/
def release (h : Heap) (a : Nat) : Heap := h.releaseAll [a]

/-! ### References held by values -/

/-- Counts one more reference if the value is one. -/
def retainValue (h : Heap) : Value → Heap
  | .ref a => h.retain a
  | _ => h

/-- Gives up the reference that a value is, if it is one. -/
def releaseValue (h : Heap) : Value → Heap
  | .ref a => h.release a
  | _ => h

/-- Retains values one after the other. -/
def retainValues (h : Heap) (vs : List Value) : Heap := vs.foldl retainValue h

/-- Releases values one after the other. -/
def releaseValues (h : Heap) (vs : List Value) : Heap := vs.foldl releaseValue h

end Heap

end StackVM
