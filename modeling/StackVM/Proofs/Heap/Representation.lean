import Mathlib.Data.List.Perm.Basic
import StackVM.Proofs.Heap.Counting

/-!
# The tables of the heap under arbitrary use

Whoever holds a heap may retain and release any number, whether or not it names a live object, and may
write anything into an object, references to itself, to freed slots and to slots that never existed
included. Then counts say nothing about holders, but the tables stay consistent: they have the same
addresses, and an address is on the list of free slots exactly while nobody counts it, and exactly then its
slot is empty. Main statement: this holds after any list of requests to a new heap, the number of live objects
is the number of occupied slots, and an allocation writes one slot that was not live (`consistent_handled`).
-/

namespace StackVM

namespace Heap

variable {h : Heap} {a : Nat}

/-- Addresses whose slots hold an object. -/
def occupied (h : Heap) : List Nat := (List.range h.size).filter fun a => (h.get? a).isSome

/-- What is asked of a heap. -/
inductive Request where
  | alloc (o : Object)
  | retain (a : Nat)
  | release (a : Nat)
  /-- Replaces an object by what a function makes of it. -/
  | overwrite (a : Nat) (f : Object → Object)

/-- The heap after a request. -/
def handle (h : Heap) : Request → Heap
  | .alloc o => (h.alloc o).2
  | .retain a => h.retain a
  | .release a => h.release a
  | .overwrite a f => h.update a f

/-- A new heap after a list of requests. -/
def handled (requests : List Request) : Heap := requests.foldl handle empty

/-! ### Requests -/

/-- Nothing changes when an address is retained that nobody counts. -/
theorem retain_uncounted (uncounted : h.refcount a = 0) : h.retain a = h := by
  rw [retain, uncounted]
  exact ite_self h

namespace WellFormed

/-- Any address may be retained. -/
theorem retain_any (wf : h.WellFormed) (a : Nat) : (h.retain a).WellFormed := by
  rcases Nat.eq_zero_or_pos (h.refcount a) with uncounted | counted
  · rw [retain_uncounted uncounted]
    exact wf
  · exact wf.retain fun _ => counted

theorem handle (wf : h.WellFormed) (request : Request) : (h.handle request).WellFormed := by
  cases request with
  | alloc o => exact wf.alloc o
  | retain a => exact wf.retain_any a
  | release a => exact wf.releaseAll [a]
  | overwrite a f => exact wf.update a f

theorem foldl_handle (wf : h.WellFormed) (requests : List Request) :
    (requests.foldl Heap.handle h).WellFormed := by
  induction requests generalizing h with
  | nil => exact wf
  | cons request requests ih => exact ih (wf.handle request)

/-! ### Free slots and occupied slots -/

/-- The list of free slots leaves out exactly the slots that are counted. -/
theorem mem_free_iff (wf : h.WellFormed) (pos : 0 < a) (bound : a < h.size) :
    a ∈ h.free ↔ h.refcount a = 0 := by
  rw [wf.free a]
  simp [pos, bound]

theorem lt_size_of_mem_free (wf : h.WellFormed) (free : a ∈ h.free) : a < h.size :=
  ((wf.free a).1 free).2.1

theorem refcount_zero (wf : h.WellFormed) : h.refcount 0 = 0 := by
  have uncounted := mt (wf.live 0).2 (by simp [wf.null.2])
  omega

theorem objects_zero (wf : h.WellFormed) : h.objects[0]? = some none := by
  have empty := wf.null.2
  cases at_zero : h.objects[0]? with
  | none => exact absurd wf.null.1 (Nat.not_lt.2 (Array.getElem?_eq_none_iff.1 at_zero))
  | some x => simpa [get?, at_zero] using empty

theorem counts_zero (wf : h.WellFormed) : h.counts[0]? = some 0 := by
  have zero := wf.refcount_zero
  have bound : 0 < h.counts.size := Nat.lt_of_lt_of_eq wf.null.1 wf.lengths.symm
  cases at_zero : h.counts[0]? with
  | none => exact absurd bound (Nat.not_lt.2 (Array.getElem?_eq_none_iff.1 at_zero))
  | some n => simpa [refcount, at_zero] using zero

theorem zero_not_mem_free (wf : h.WellFormed) : 0 ∉ h.free := by
  intro free
  have := ((wf.free 0).1 free).1
  omega

/-- The slots without an object are the free ones and the one of null. -/
theorem perm_vacant (wf : h.WellFormed) :
    List.Perm (0 :: h.free) ((List.range h.size).filter fun a => !(h.get? a).isSome) := by
  have nodup : (0 :: h.free).Nodup := List.nodup_cons.2 ⟨wf.zero_not_mem_free, wf.nodup⟩
  apply (List.perm_ext_iff_of_nodup nodup (List.nodup_range.filter _)).2
  intro a
  simp only [List.mem_cons, List.mem_filter, List.mem_range, Bool.not_eq_true',
    ← Bool.not_eq_true, wf.live]
  have null := wf.null.1
  have uncounted : h.refcount 0 = 0 := wf.refcount_zero
  constructor
  · rintro (rfl | free)
    · exact ⟨null, by omega⟩
    · have pos := ((wf.free a).1 free).1
      have bound := wf.lt_size_of_mem_free free
      have := (wf.mem_free_iff pos bound).1 free
      exact ⟨bound, by omega⟩
  · rintro ⟨bound, zero⟩
    rcases Nat.eq_zero_or_pos a with eq | pos
    · exact .inl eq
    · exact .inr ((wf.mem_free_iff pos bound).2 (by omega))

theorem live_eq_length_occupied (wf : h.WellFormed) : h.live = h.occupied.length := by
  have split := List.length_eq_length_filter_add (l := List.range h.size)
    fun a => (h.get? a).isSome
  have vacant := wf.perm_vacant.length_eq
  rw [List.length_range] at split
  rw [List.length_cons] at vacant
  rw [Heap.live, occupied]
  omega

end WellFormed

/-- After any requests to a new heap the two tables have the same addresses. The slot of null is empty,
uncounted and not free; the list of free slots has no repetitions; any other slot is occupied exactly if
it is counted, and exactly if it is not free. The number of live objects is that of occupied slots.
Allocation finds an address other than null where no object was, and changes no other slot. -/
theorem consistent_handled (requests : List Request) :
    let h := handled requests
    h.objects.size = h.counts.size ∧
      (h.objects[0]? = some none ∧ h.counts[0]? = some 0 ∧ h.isFree 0 = false) ∧
      h.free.Nodup ∧
      (∀ a, 0 < a → a < h.size →
        ((h.get? a).isSome ↔ 1 ≤ h.refcount a) ∧ (1 ≤ h.refcount a ↔ h.isFree a = false)) ∧
      h.live = h.occupied.length ∧
      ∀ o : Object,
        ((h.alloc o).1 ≠ 0 ∧ h.get? (h.alloc o).1 = none) ∧
          ((h.alloc o).2.objects[(h.alloc o).1]? = some (some o) ∧
            (h.alloc o).2.counts[(h.alloc o).1]? = some 1) ∧
          ∀ a, a ≠ (h.alloc o).1 →
            (h.alloc o).2.objects[a]? = h.objects[a]? ∧ (h.alloc o).2.counts[a]? = h.counts[a]? := by
  have wf : (handled requests).WellFormed := wellFormed_empty.foldl_handle requests
  refine ⟨wf.lengths.symm, ⟨wf.objects_zero, wf.counts_zero, ?_⟩, wf.nodup, ?_, wf.live_eq_length_occupied, ?_⟩
  · simpa [isFree] using wf.zero_not_mem_free
  · intro a pos bound
    have free := wf.mem_free_iff pos bound
    refine ⟨wf.live a, ?_⟩
    rw [isFree, List.contains_eq_mem, decide_eq_false_iff_not, free]
    omega
  · intro o
    obtain ⟨pos, -, missing⟩ := wf.alloc_fresh o
    refine ⟨⟨by omega, missing⟩, ?_, ?_⟩
    · have tables := wf.tables_alloc o (h := handled requests) (handled requests |>.alloc o).1
      rwa [if_pos rfl, if_pos rfl] at tables
    · intro a ne
      have tables := wf.tables_alloc o a
      rwa [if_neg fun same => ne same.symm, if_neg fun same => ne same.symm] at tables

/-- What was freed is used again: an object that is stored after another was freed gets its address, whatever
the two are and whatever the first one held. -/
theorem handled_reused (o o' : Object) :
    handled [.alloc o, .release 1] = ⟨#[none, none], #[0, 0], [1]⟩ ∧
      handled [.alloc o, .release 1, .alloc o'] = ⟨#[none, some o'], #[0, 1], []⟩ := by
  have uncounted (a : Nat) : refcount ⟨#[none, none], #[0, 0], [1]⟩ a = 0 := by
    match a with
    | 0 | 1 | _ + 2 => rfl
  have freed : handled [.alloc o, .release 1] = ⟨#[none, none], #[0, 0], [1]⟩ := by
    change releaseAll ⟨#[none, some o], #[0, 1], []⟩ [1] = _
    rw [releaseAll_freed Nat.one_ne_zero rfl]
    -- whatever the object held is not counted
    exact releaseAll_uncounted fun a _ _ => uncounted a
  refine ⟨freed, ?_⟩
  change ((handled [.alloc o, .release 1]).alloc o').2 = _
  rw [freed]
  rfl

end Heap

end StackVM
