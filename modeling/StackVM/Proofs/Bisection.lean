import Mathlib.Data.List.Sort
import StackVM.Bisection

/-!
# Bisection finds what there is

Where the entries are in order, `partitionPoint` separates those that pass the test from those that do not
(`partitionPoint_splits`) and `find?` tells the place of a number, if it has one (`find?_eq_some_iff`).
`sortedOnce` is the increasing list of the members (`sortedOnce_eq`).
-/

namespace StackVM.Bisection

variable {α : Type} {xs : Array α} {test : α → Bool}

/-! ### Where a test stops to hold -/

/-- The entries before the place pass the test, and those from there on fail it. -/
structure Splits (xs : Array α) (test : α → Bool) (place : Nat) : Prop where
  le_size : place ≤ xs.size
  passes : ∀ (i : Nat) (x : α), xs[i]? = some x → i < place → test x = true
  fails : ∀ (i : Nat) (x : α), xs[i]? = some x → place ≤ i → test x = false

/-- No entry passes after one that fails. -/
def Ordered (xs : Array α) (test : α → Bool) : Prop :=
  ∀ (i j : Nat) (x y : α), xs[i]? = some x → xs[j]? = some y → i ≤ j → test y = true → test x = true

theorem partitionFrom_splits {lo hi : Nat} (ordered : Ordered xs test) (le : lo ≤ hi) (inside : hi ≤ xs.size)
    (passed : ∀ (i : Nat) (x : α), xs[i]? = some x → i < lo → test x = true)
    (failed : ∀ (i : Nat) (x : α), xs[i]? = some x → hi ≤ i → test x = false) :
    Splits xs test (partitionFrom xs test lo hi) := by
  fun_induction partitionFrom xs test lo hi with
  | case1 lo hi less mid missing =>
    have := Array.getElem?_eq_none_iff.1 missing
    omega
  | case2 lo hi less mid x at_mid holds ih =>
    -- what stands before a passing entry passes too
    refine ih (by omega) inside (fun i y at_i before => ?_) failed
    exact ordered i mid y x at_i at_mid (by omega) holds
  | case3 lo hi less mid x at_mid holds ih =>
    refine ih (by omega) (by omega) passed fun i y at_i after => ?_
    -- what stands behind a failing entry fails too
    by_contra passes
    exact holds (ordered mid i x y at_mid at_i after (by simpa using passes))
  | case4 lo hi less =>
    exact ⟨by omega, passed, fun i x at_i after => failed i x at_i (by omega)⟩

theorem partitionPoint_splits (ordered : Ordered xs test) : Splits xs test (partitionPoint xs test) := by
  refine partitionFrom_splits ordered (Nat.zero_le _) (Nat.le_refl _) ?_ ?_
  · intro i x _ before
    omega
  · intro i x at_i after
    rw [Array.getElem?_eq_none after] at at_i
    cases at_i

/-! ### Where a number stands -/

section Find

variable {ns : Array Nat} {n i lo hi : Nat}

theorem getElem?_of_findFrom? (found : findFrom? ns n lo hi = some i) : ns[i]? = some n := by
  fun_induction findFrom? ns n lo hi with
  | case1 => cases found
  | case2 lo hi less mid at_mid =>
    rw [← Option.some.inj found]
    exact at_mid
  | case3 lo hi less mid x at_mid other smaller ih => exact ih found
  | case4 lo hi less mid x at_mid other larger ih => exact ih found
  | case5 => cases found

variable (sorted : ns.toList.Pairwise (· < ·))
include sorted

/-- Numbers and their places are in the same order. -/
theorem place_lt {j m : Nat} (at_i : ns[i]? = some n) (at_j : ns[j]? = some m) (less : n < m) : i < j := by
  rw [← Array.getElem?_toList] at at_i at_j
  obtain ⟨here, rfl⟩ := List.getElem?_eq_some_iff.1 at_i
  obtain ⟨there, rfl⟩ := List.getElem?_eq_some_iff.1 at_j
  have order := List.pairwise_iff_getElem.1 sorted
  rcases Nat.lt_trichotomy i j with before | rfl | behind
  · exact before
  · omega
  · have := order j i there here behind
    omega

theorem findFrom?_of_getElem? (inside : hi ≤ ns.size) (at_i : ns[i]? = some n) (after : lo ≤ i)
    (before : i < hi) : findFrom? ns n lo hi = some i := by
  fun_induction findFrom? ns n lo hi with
  | case1 lo hi less mid missing =>
    have := Array.getElem?_eq_none_iff.1 missing
    omega
  | case2 lo hi less mid at_mid =>
    -- the number has no second place
    rw [← Array.getElem?_toList] at at_i at_mid
    obtain ⟨here, first⟩ := List.getElem?_eq_some_iff.1 at_i
    have distinct : ns.toList.Nodup := sorted.imp fun less => Nat.ne_of_lt less
    rw [(List.getElem?_inj here distinct).1 (at_i.trans at_mid.symm)]
  | case3 lo hi less mid x at_mid other smaller ih =>
    exact ih inside (place_lt sorted at_mid at_i smaller) before
  | case4 lo hi less mid x at_mid other larger ih =>
    have behind := place_lt sorted at_i at_mid (by omega)
    exact ih (by omega) after behind
  | case5 lo hi less => omega

theorem find?_eq_some_iff : find? ns n = some i ↔ ns[i]? = some n := by
  constructor
  · exact getElem?_of_findFrom?
  · intro at_i
    obtain ⟨inside, -⟩ := Array.getElem?_eq_some_iff.1 at_i
    exact findFrom?_of_getElem? sorted (Nat.le_refl _) at_i (Nat.zero_le i) inside

theorem isSome_find? : (find? ns n).isSome = true ↔ n ∈ ns := by
  rw [Option.isSome_iff_exists, Array.mem_iff_getElem?]
  exact exists_congr fun i => find?_eq_some_iff sorted

end Find

/-! ### Sorting -/

/-- Of numbers in order the repeated ones are passed over. -/
theorem eraseReps_loop (n : Nat) (ns done : List Nat) :
    ∃ rest, List.eraseRepsBy.loop (· == ·) n ns done = done.reverse ++ n :: rest ∧
      (∀ x, x ∈ n :: rest ↔ x ∈ n :: ns) ∧
      ((n :: ns).Pairwise (· ≤ ·) → (n :: rest).Pairwise (· < ·)) := by
  induction ns generalizing n done with
  | nil => exact ⟨[], by simp [List.eraseRepsBy.loop], fun x => Iff.rfl, fun _ => List.pairwise_singleton ..⟩
  | cons m ns ih =>
    by_cases same : n = m
    · subst same
      obtain ⟨rest, loop, members, sorted⟩ := ih n done
      refine ⟨rest, by simpa [List.eraseRepsBy.loop] using loop, fun x => ?_, fun order => ?_⟩
      · rw [members x]
        simp
      · exact sorted (List.pairwise_cons.1 order).2
    · obtain ⟨rest, loop, members, sorted⟩ := ih m (n :: done)
      refine ⟨m :: rest, ?_, fun x => ?_, fun order => ?_⟩
      · simpa [List.eraseRepsBy.loop, beq_false_of_ne same] using loop
      · rw [List.mem_cons, members x, List.mem_cons]
        simp
      · obtain ⟨least, order⟩ := List.pairwise_cons.1 order
        refine List.pairwise_cons.2 ⟨fun x mem => ?_, sorted order⟩
        -- what comes later is no less than the second number, which differs from the first
        have first := least m List.mem_cons_self
        have later : m ≤ x := by
          rcases List.mem_cons.1 ((members x).1 mem) with rfl | mem
          · exact Nat.le_refl _
          · exact (List.pairwise_cons.1 order).1 x mem
        omega

@[simp] theorem mem_insertSorted {ns : List Nat} {n x : Nat} : x ∈ insertSorted n ns ↔ x = n ∨ x ∈ ns := by
  induction ns with
  | nil => simp [insertSorted]
  | cons m ms ih =>
    rw [insertSorted]
    split
    · simp
    · simp [ih, or_left_comm]

theorem insertSorted_sorted {ns : List Nat} (sorted : ns.Pairwise (· ≤ ·)) (n : Nat) :
    (insertSorted n ns).Pairwise (· ≤ ·) := by
  induction ns with
  | nil => exact List.pairwise_singleton ..
  | cons m ms ih =>
    obtain ⟨least, later⟩ := List.pairwise_cons.1 sorted
    rw [insertSorted]
    split
    · next le =>
      refine List.pairwise_cons.2 ⟨fun x mem => ?_, sorted⟩
      rcases List.mem_cons.1 mem with rfl | mem
      · exact le
      · exact Nat.le_trans le (least x mem)
    · next more =>
      refine List.pairwise_cons.2 ⟨fun x mem => ?_, ih later⟩
      rcases mem_insertSorted.1 mem with rfl | mem
      · omega
      · exact least x mem

theorem sortedOnce_spec (ns : List Nat) :
    (∀ x, x ∈ sortedOnce ns ↔ x ∈ ns) ∧ (sortedOnce ns).Pairwise (· < ·) := by
  have inserted : (∀ x, x ∈ ns.foldr insertSorted [] ↔ x ∈ ns) ∧
      (ns.foldr insertSorted []).Pairwise (· ≤ ·) := by
    induction ns with
    | nil => exact ⟨fun x => Iff.rfl, .nil⟩
    | cons n ns ih =>
      refine ⟨fun x => ?_, insertSorted_sorted ih.2 n⟩
      rw [List.foldr_cons, mem_insertSorted, ih.1 x, List.mem_cons]
  unfold sortedOnce
  -- only repeated numbers are lost after that
  cases found : ns.foldr insertSorted [] with
  | nil =>
    rw [found] at inserted
    exact ⟨inserted.1, .nil⟩
  | cons m ms =>
    rw [found] at inserted
    obtain ⟨rest, loop, same, strictly⟩ := eraseReps_loop m ms []
    have erased : (m :: ms).eraseReps = m :: rest := loop
    rw [erased]
    exact ⟨fun x => (same x).trans (inserted.1 x), strictly inserted.2⟩

@[simp] theorem mem_sortedOnce {ns : List Nat} {x : Nat} : x ∈ sortedOnce ns ↔ x ∈ ns := (sortedOnce_spec ns).1 x

theorem sortedOnce_sorted (ns : List Nat) : (sortedOnce ns).Pairwise (· < ·) := (sortedOnce_spec ns).2

theorem sortedOnce_eq {ns sorted : List Nat} (order : sorted.Pairwise (· < ·))
    (same : ∀ x, x ∈ ns ↔ x ∈ sorted) : sortedOnce ns = sorted :=
  (sortedOnce_sorted ns).eq_of_mem_iff order fun x => mem_sortedOnce.trans (same x)

end StackVM.Bisection
