import StackVM.Proofs.Heap.Counting

/-!
# How long a release runs

A release works through a list of addresses, to which it adds while it runs: the last reference to an object
frees its slot, and whatever the object held is to be released next. Nothing is assumed of the heap here.
Objects may hold themselves, each other, freed slots and addresses beyond the table, and counts may say
anything. Main statement: every release comes to its end, and it frees no address twice
(`release_terminates`).

The list can grow, but what it gains is gone from the heap. A turn takes one address off the list, and the
children of an object come onto it only as the object goes, so the pending addresses and those that objects
hold are together one fewer after every turn (`Taken.load`). What was freed is not counted, and no turn
raises a count.
-/

namespace StackVM

namespace Heap

/-- A release that is going on. -/
structure Cascade where
  heap : Heap
  /-- Addresses to be released, the next one first. -/
  pending : List Nat
  /-- Addresses whose slots were freed, the last one first. -/
  freed : List Nat

/-- What is cleared holds nothing any more. -/
theorem length_inner_clear (h : Heap) (a : Nat) :
    (h.clear a).inner.length + (held (h.get? a)).length = h.inner.length := by
  have same : ((h.clear a).inner ++ held (h.get? a)).Perm h.inner := by
    refine List.perm_iff_count.2 fun b => ?_
    rw [List.count_append]
    exact count_inner_clear h a b
  rw [← List.length_append]
  exact same.length_eq

namespace Cascade

variable {h : Heap} {pending rest : List Nat} {a n : Nat} {c c' : Cascade}

/-- A release that has not begun. -/
def start (h : Heap) (pending : List Nat) : Cascade := ⟨h, pending, []⟩

/-- Takes up the next address, if there is one. -/
def step (c : Cascade) : Option Cascade :=
  match c.pending with
  | [] => none
  | a :: rest =>
    if a = 0 then some { c with pending := rest }
    else
      match c.heap.refcount a with
      | 0 => some { c with pending := rest }
      | 1 =>
        some
          { heap := c.heap.clear a
            pending := (held (c.heap.get? a)).reverse ++ rest
            freed := a :: c.freed }
      | n + 2 => some { c with heap := c.heap.setCount a (n + 1), pending := rest }

/-- A release leads in `n` turns from one state to another. -/
inductive Turns : Nat → Cascade → Cascade → Prop where
  | none (c : Cascade) : Turns 0 c c
  | next {n : Nat} {c c' c'' : Cascade} : Turns n c c' → c'.step = some c'' → Turns (n + 1) c c''

/-! ### One turn -/

/-- What comes of taking up an address. -/
inductive Taken (c : Cascade) (a : Nat) (rest : List Nat) : Cascade → Prop where
  | skipped (uncounted : a = 0 ∨ c.heap.refcount a = 0) : Taken c a rest { c with pending := rest }
  | lowered {n : Nat} (pos : a ≠ 0) (counted : c.heap.refcount a = n + 2) :
    Taken c a rest { c with heap := c.heap.setCount a (n + 1), pending := rest }
  | freed (pos : a ≠ 0) (counted : c.heap.refcount a = 1) :
    Taken c a rest
      { heap := c.heap.clear a
        pending := (held (c.heap.get? a)).reverse ++ rest
        freed := a :: c.freed }

theorem step_eq_none (ended : c.pending = []) : c.step = none := by
  rw [step, ended]

theorem step_eq_some (more : c.pending = a :: rest) : ∃ c', c.step = some c' ∧ Taken c a rest c' := by
  simp only [step, more]
  split
  · next zero => exact ⟨_, rfl, .skipped (.inl zero)⟩
  · next pos =>
    split
    · next zero => exact ⟨_, rfl, .skipped (.inr zero)⟩
    · next one => exact ⟨_, rfl, .freed pos one⟩
    · next more => exact ⟨_, rfl, .lowered pos more⟩

theorem taken_of_step (stepped : c.step = some c') : ∃ a rest, c.pending = a :: rest ∧ Taken c a rest c' := by
  cases more : c.pending with
  | nil =>
    rw [step_eq_none more] at stepped
    cases stepped
  | cons a rest =>
    obtain ⟨_, stepped', taken⟩ := step_eq_some more
    cases stepped.symm.trans stepped'
    exact ⟨a, rest, rfl, taken⟩

/-- How many turns a release can still take: one for each pending address, and one for each address that an
object of the heap holds. -/
def load (c : Cascade) : Nat := c.pending.length + c.heap.inner.length

namespace Taken

theorem load (taken : Taken c a rest c') (more : c.pending = a :: rest) : c'.load + 1 = c.load := by
  cases taken with
  | skipped uncounted =>
    simp only [Cascade.load, more, List.length_cons]
    omega
  | @lowered n pos counted =>
    -- the object stays, and with it what it holds
    have same : (c.heap.setCount a (n + 1)).inner = c.heap.inner := rfl
    simp only [Cascade.load, more, List.length_cons, same]
    omega
  | freed pos counted =>
    have inner := length_inner_clear c.heap a
    simp only [Cascade.load, more, List.length_cons, List.length_append, List.length_reverse]
    omega

theorem releaseAll (taken : Taken c a rest c') :
    c'.heap.releaseAll c'.pending = c.heap.releaseAll (a :: rest) := by
  cases taken with
  | skipped uncounted => exact (releaseAll_skipped uncounted rest).symm
  | lowered pos counted => exact (releaseAll_lowered pos counted rest).symm
  | freed pos counted => exact (releaseAll_freed pos counted rest).symm

theorem refcount_le (taken : Taken c a rest c') (b : Nat) : c'.heap.refcount b ≤ c.heap.refcount b := by
  cases taken with
  | skipped uncounted => exact Nat.le_refl _
  | lowered pos counted =>
    rw [refcount_setCount (by omega)]
    split
    · next same =>
      subst same
      omega
    · exact Nat.le_refl _
  | freed pos counted =>
    rw [refcount_clear]
    split
    · exact Nat.zero_le _
    · exact Nat.le_refl _

end Taken

/-! ### All turns -/

/-- What a release has done in its first `n` turns. -/
structure Accounted (h : Heap) (pending : List Nat) (n : Nat) (c : Cascade) : Prop where
  load : n + c.load = (start h pending).load
  releaseAll : c.heap.releaseAll c.pending = h.releaseAll pending
  free : c.heap.free = c.freed ++ h.free
  lowered : ∀ a, c.heap.refcount a ≤ h.refcount a
  counted : ∀ a ∈ c.freed, 0 < a ∧ 0 < h.refcount a
  uncounted : ∀ a ∈ c.freed, c.heap.refcount a = 0
  distinct : c.freed.Nodup

theorem accounted_start : Accounted h pending 0 (start h pending) where
  load := Nat.zero_add _
  releaseAll := rfl
  free := rfl
  lowered _ := Nat.le_refl _
  counted _ mem := absurd mem List.not_mem_nil
  uncounted _ mem := absurd mem List.not_mem_nil
  distinct := List.nodup_nil

theorem Accounted.step (accounted : Accounted h pending n c) (stepped : c.step = some c') :
    Accounted h pending (n + 1) c' := by
  obtain ⟨a, rest, more, taken⟩ := taken_of_step stepped
  have load := taken.load more
  have spent := accounted.load
  have released := taken.releaseAll
  rw [← more, accounted.releaseAll] at released
  have lowered b := Nat.le_trans (taken.refcount_le b) (accounted.lowered b)
  -- what was freed before stays without a count
  have uncounted : ∀ b ∈ c.freed, c'.heap.refcount b = 0 := by
    intro b mem
    have zero := accounted.uncounted b mem
    have le := taken.refcount_le b
    omega
  cases taken with
  | skipped _ =>
    exact ⟨by omega, released, accounted.free, lowered, accounted.counted, uncounted, accounted.distinct⟩
  | lowered pos counted =>
    exact ⟨by omega, released, accounted.free, lowered, accounted.counted, uncounted, accounted.distinct⟩
  | freed pos one =>
    have first := accounted.lowered a
    refine ⟨by omega, released, ?_, lowered, ?_, ?_, ?_⟩
    · exact congrArg (a :: ·) accounted.free
    · exact List.forall_mem_cons.2 ⟨⟨by omega, by omega⟩, accounted.counted⟩
    · refine List.forall_mem_cons.2 ⟨?_, uncounted⟩
      rw [refcount_clear, if_pos rfl]
    -- the address was counted until now
    · refine List.nodup_cons.2 ⟨fun mem => ?_, accounted.distinct⟩
      have zero := accounted.uncounted a mem
      omega

theorem Accounted.of_turns (turns : Turns n (start h pending) c) : Accounted h pending n c := by
  generalize begins : start h pending = first at turns
  induction turns with
  | none =>
    rw [← begins]
    exact accounted_start
  | next _ stepped ih => exact (ih begins).step stepped

/-- A release that has not ended goes on. -/
theorem ends_or_goes_on (first : Cascade) (k : Nat) :
    (∃ n c, Turns n first c ∧ c.pending = []) ∨ ∃ c, Turns k first c := by
  induction k with
  | zero => exact .inr ⟨first, .none first⟩
  | succ k ih =>
    rcases ih with ended | ⟨c, turns⟩
    · exact .inl ended
    · cases more : c.pending with
      | nil => exact .inl ⟨k, c, turns, more⟩
      | cons a rest =>
        obtain ⟨c', stepped, -⟩ := step_eq_some more
        exact .inr ⟨c', .next turns stepped⟩

end Cascade

/-- Every release comes to an end, whatever the heap and the address are like, and whatever was left pending
before. With each turn the pending addresses and those that objects hold become one fewer, so that their number
at the start bounds the turns; at no time was an address freed twice. After some turns nothing is pending, and
nothing more is done; then the heap is the one that `release` gives, and the slots that have joined the free
ones are those of the addresses that were freed, which were counted before and are not counted now. -/
theorem release_terminates (h : Heap) (a : Nat) (left : List Nat) :
    let start : Cascade := .start h (a :: left)
    (∀ n c, Cascade.Turns n start c →
        n + (c.pending.length + c.heap.inner.length) = 1 + left.length + h.inner.length ∧ c.freed.Nodup) ∧
      ∃ n c, Cascade.Turns n start c ∧ c.pending = [] ∧ c.step = none ∧
        c.heap = (h.release a).releaseAll left ∧ c.heap.free = c.freed ++ h.free ∧
        ∀ b ∈ c.freed, 0 < b ∧ 0 < h.refcount b ∧ c.heap.refcount b = 0 := by
  intro start
  have load : start.load = 1 + left.length + h.inner.length := by
    simp only [start, Cascade.load, Cascade.start, List.length_cons, Nat.add_comm 1]
  constructor
  · intro n c turns
    have accounted := Cascade.Accounted.of_turns turns
    exact ⟨accounted.load.trans load, accounted.distinct⟩
  · rcases Cascade.ends_or_goes_on start (start.load + 1) with ⟨n, c, turns, ended⟩ | ⟨c, turns⟩
    · have accounted := Cascade.Accounted.of_turns turns
      refine ⟨n, c, turns, ended, Cascade.step_eq_none ended, ?_, accounted.free, ?_⟩
      · have released := accounted.releaseAll
        rw [ended, releaseAll] at released
        rw [released, release, ← releaseAll_append, List.singleton_append]
      · intro b mem
        obtain ⟨pos, counted⟩ := accounted.counted b mem
        exact ⟨pos, counted, accounted.uncounted b mem⟩
    -- more turns than the load allows
    · have spent : start.load + 1 + c.load = start.load := (Cascade.Accounted.of_turns turns).load
      omega

/-- An object that holds itself twice and is counted once goes in the first turn; the other two turns pass over
what it held. -/
example :
    (((Cascade.start ⟨#[none, some (.array .ref #[.ref 1, .ref 1])], #[0, 1], []⟩ [1]).step.bind
      Cascade.step).bind Cascade.step).map (fun c => (c.pending, c.freed)) = some ([], [1]) := by
  decide

end Heap

end StackVM
