import StackVM.Heap

/-!
# Exact reference counts

The count of a slot is exact when it equals the number of places that hold its address: the places
outside the heap, given as a list of addresses, and the objects inside it. Each operation of the heap
keeps counts exact once the list outside is changed accordingly: `retain` adds a holder, `alloc` turns
the holders of the new object's children into one holder of the object, and `release` consumes the
addresses that it is asked to release together with everything that only they kept alive.
-/

namespace StackVM

namespace Heap

variable {h : Heap} {outer : List Nat} {a b n : Nat} {o : Object}

/-- Addresses that live objects hold, once for each place. -/
def inner (h : Heap) : List Nat := h.objects.toList.flatMap held

/-- The count of every address is the number of its holders, those outside the heap being `outer`. -/
def Exact (h : Heap) (outer : List Nat) : Prop :=
  ∀ a, 0 < a → h.refcount a = outer.count a + h.inner.count a

/-- What holds of the tables themselves, whatever is counted: they have the same addresses, slots are
occupied exactly while they are counted, and the free ones wait for reuse, each once. -/
structure WellFormed (h : Heap) : Prop where
  lengths : h.counts.size = h.objects.size
  null : 0 < h.size ∧ h.get? 0 = none
  live : ∀ a, (h.get? a).isSome ↔ 0 < h.refcount a
  free : ∀ a, a ∈ h.free ↔ 0 < a ∧ a < h.size ∧ h.refcount a = 0
  nodup : h.free.Nodup

/-! ### Reading a changed heap -/

theorem lt_of_refcount_pos (counted : 0 < h.refcount a) : a < h.counts.size := by
  have at_a := counts_of_refcount (show h.refcount a = h.refcount a - 1 + 1 by omega)
  exact (Array.getElem?_eq_some_iff.1 at_a).1

/-- A live object lies in its slot. -/
theorem objects_of_get? (found : h.get? a = some o) : h.objects[a]? = some (some o) := by
  rw [get?] at found
  cases at_a : h.objects[a]? with
  | none => simp [at_a] at found
  | some x => simpa [at_a] using found

theorem lt_size_of_get? (found : h.get? a = some o) : a < h.size :=
  (Array.getElem?_eq_some_iff.1 (objects_of_get? found)).1

theorem refcount_setCount (counted : 0 < h.refcount b) (n a : Nat) :
    (h.setCount b n).refcount a = if b = a then n else h.refcount a := by
  have bound := lt_of_refcount_pos counted
  simp only [refcount, setCount, Array.getElem?_setIfInBounds]
  split <;> simp_all

theorem refcount_clear (h : Heap) (b a : Nat) :
    (h.clear b).refcount a = if b = a then 0 else h.refcount a := by
  simp only [refcount, clear, Array.getElem?_setIfInBounds]
  split
  · split <;> rfl
  · rfl

theorem get?_clear (h : Heap) (b a : Nat) : (h.clear b).get? a = if b = a then none else h.get? a := by
  simp only [get?, clear, Array.getElem?_setIfInBounds]
  split
  · split <;> rfl
  · rfl

theorem get?_update (h : Heap) (a : Nat) (f : Object → Object) (b : Nat) :
    (h.update a f).get? b = if a = b then (h.get? b).map f else h.get? b := by
  simp only [get?, update, Array.getElem?_modify]
  split
  · cases h.objects[b]? with
    | none => rfl
    | some object => cases object <;> rfl
  · rfl

private theorem count_flatMap_set {objects : List (Option Object)} {i : Nat} {x : Option Object}
    (y : Option Object) (a : Nat) (at_i : objects[i]? = some x) :
    ((objects.set i y).flatMap held).count a + (held x).count a =
      (objects.flatMap held).count a + (held y).count a := by
  induction objects generalizing i with
  | nil => simp at at_i
  | cons z objects ih =>
    cases i with
    | zero =>
      obtain rfl : z = x := by simpa using at_i
      simp only [List.set_cons_zero, List.flatMap_cons, List.count_append]
      omega
    | succ i =>
      -- the slot lies further on, and the first one is the same on both sides
      have rest := ih (by simpa using at_i)
      simp only [List.set_cons_succ, List.flatMap_cons, List.count_append]
      omega

/-- Exchanging the contents of a slot exchanges what it holds. -/
theorem count_inner_set {x : Option Object} (y : Option Object) (counts : Array Nat) (free : List Nat)
    (a : Nat) (at_b : h.objects[b]? = some x) :
    (inner ⟨h.objects.setIfInBounds b y, counts, free⟩).count a + (held x).count a =
      h.inner.count a + (held y).count a := by
  have at_b' : h.objects.toList[b]? = some x := by simpa using at_b
  simpa [inner] using count_flatMap_set y a at_b'

/-- What is cleared holds nothing any more. -/
theorem count_inner_clear (h : Heap) (b a : Nat) :
    (h.clear b).inner.count a + (held (h.get? b)).count a = h.inner.count a := by
  cases at_b : h.objects[b]? with
  | none =>
    have same : h.objects.setIfInBounds b none = h.objects :=
      Array.setIfInBounds_eq_of_size_le (Array.getElem?_eq_none_iff.1 at_b)
    simp [clear, inner, get?, at_b, same, held]
  | some x =>
    have changed := count_inner_set none (h.counts.setIfInBounds b 0) (b :: h.free) a at_b
    rw [get?, at_b]
    simpa [clear, held] using changed

theorem count_inner_update (found : h.get? b = some o) (f : Object → Object) (a : Nat) :
    (h.update b f).inner.count a + o.children.count a = h.inner.count a + (f o).children.count a := by
  have at_b := objects_of_get? found
  have same : h.update b f = ⟨h.objects.setIfInBounds b (some (f o)), h.counts, h.free⟩ := by
    simp only [update, mk.injEq, and_true]
    apply Array.ext_getElem?
    intro i
    have bound : b < h.objects.size := lt_size_of_get? found
    rw [Array.getElem?_modify, Array.getElem?_setIfInBounds, if_pos bound]
    split
    · next here =>
      subst here
      rw [at_b]
      rfl
    · rfl
  rw [same]
  exact count_inner_set (some (f o)) h.counts h.free a at_b

/-! ### Live objects -/

theorem WellFormed.lt_size (wf : h.WellFormed) (counted : 0 < h.refcount a) : a < h.size :=
  Nat.lt_of_lt_of_eq (lt_of_refcount_pos counted) wf.lengths

/-- A slot that nobody counts is empty. -/
theorem WellFormed.get?_of_uncounted (wf : h.WellFormed) (zero : h.refcount a = 0) : h.get? a = none := by
  have empty := mt (wf.live a).1 (by omega)
  simpa using empty

/-- Null refers to no object. -/
theorem WellFormed.pos_of_get? (wf : h.WellFormed) (found : h.get? a = some o) : 0 < a := by
  rcases Nat.eq_zero_or_pos a with rfl | pos
  · rw [wf.null.2] at found
    cases found
  · exact pos

theorem WellFormed.pos_of_counted (wf : h.WellFormed) (counted : 0 < h.refcount a) : 0 < a := by
  obtain ⟨o, found⟩ := Option.isSome_iff_exists.1 ((wf.live a).2 counted)
  exact wf.pos_of_get? found

/-- An address with a holder is live. -/
theorem Exact.counted (exact : h.Exact outer) (pos : 0 < a) (mem : a ∈ outer ∨ a ∈ h.inner) :
    0 < h.refcount a := by
  rw [exact a pos]
  rcases mem with mem | mem
  · have := List.count_pos_iff.2 mem
    omega
  · have := List.count_pos_iff.2 mem
    omega

theorem child_mem_inner (found : h.get? a = some o) (child : b ∈ o.children) : b ∈ h.inner := by
  have mem : some o ∈ h.objects.toList :=
    Array.mem_toList_iff.2 (Array.mem_of_getElem? (objects_of_get? found))
  exact List.mem_flatMap.2 ⟨some o, mem, child⟩

/-- Only the number of holders of each address matters, not their order. -/
theorem Exact.congr {outer' : List Nat} (exact : h.Exact outer)
    (same : ∀ a, 0 < a → outer.count a = outer'.count a) : h.Exact outer' :=
  fun a pos => by rw [← same a pos, exact a pos]

/-- Only addresses below the end of the table of counts need to be looked at. -/
theorem exact_iff_below :
    h.Exact outer ↔
      (∀ a < h.counts.size, 0 < a → h.refcount a = outer.count a + h.inner.count a) ∧
        ∀ a ∈ outer ++ h.inner, a < h.counts.size ∨ a = 0 := by
  constructor
  · intro exact
    constructor
    · intro a _
      exact exact a
    · intro a mem
      rcases Nat.eq_zero_or_pos a with zero | pos
      · exact .inr zero
      · exact .inl (lt_of_refcount_pos (exact.counted pos (List.mem_append.1 mem)))
  · rintro ⟨inside, bound⟩ a pos
    by_cases below : a < h.counts.size
    · exact inside a below pos
    -- beyond the table nothing is counted or held
    · have absent : a ∉ outer ++ h.inner := by
        intro mem
        have := bound a mem
        omega
      have missing : h.counts[a]? = none := Array.getElem?_eq_none (by omega)
      rw [← List.count_append, List.count_eq_zero.2 absent]
      simp [refcount, missing]

instance (h : Heap) (outer : List Nat) : Decidable (h.Exact outer) :=
  decidable_of_iff _ exact_iff_below.symm

/-! ### Starting out -/

theorem get?_empty (a : Nat) : empty.get? a = none := by
  cases a with
  | zero => rfl
  | succ a => rfl

theorem refcount_empty (a : Nat) : empty.refcount a = 0 := by
  cases a with
  | zero => rfl
  | succ a => rfl

theorem wellFormed_empty : empty.WellFormed where
  lengths := rfl
  null := ⟨Nat.one_pos, rfl⟩
  live a := by simp [get?_empty, refcount_empty]
  free a := by
    -- there is no other address than that of null
    have size : empty.size = 1 := rfl
    constructor
    · exact fun mem => absurd mem List.not_mem_nil
    · omega
  nodup := List.nodup_nil

theorem exact_empty : empty.Exact [] := fun a _ => refcount_empty a

/-! ### Retaining -/

theorem retain_counted (pos : 0 < a) (counted : h.refcount a = n + 1) : h.retain a = h.setCount a (n + 2) := by
  rw [retain, if_neg (by omega), counted]

theorem WellFormed.setCount (wf : h.WellFormed) (counted : 0 < h.refcount a) (still : 0 < n) :
    (h.setCount a n).WellFormed where
  lengths := by simpa [Heap.setCount] using wf.lengths
  null := wf.null
  live b := by
    rw [refcount_setCount counted]
    split
    next same =>
      subst same
      have occupied := (wf.live a).2 counted
      exact ⟨fun _ => still, fun _ => occupied⟩
    next => exact wf.live b
  free b := by
    rw [refcount_setCount counted]
    split
    -- a counted slot was not free before and is not free now
    next same =>
      subst same
      have occupied := mt (wf.free a).1 (by omega)
      exact ⟨fun mem => absurd mem occupied, fun zero => by omega⟩
    next => exact wf.free b
  nodup := wf.nodup

theorem WellFormed.retain (wf : h.WellFormed) (counted : 0 < a → 0 < h.refcount a) :
    (h.retain a).WellFormed := by
  rcases Nat.eq_zero_or_pos a with rfl | pos
  · exact wf
  · obtain ⟨n, count⟩ := Nat.exists_eq_succ_of_ne_zero (Nat.ne_of_gt (counted pos))
    rw [retain_counted pos count]
    exact wf.setCount (counted pos) (Nat.succ_pos _)

/-- Retaining a live address adds a holder of it. -/
theorem Exact.retain (exact : h.Exact outer) (counted : 0 < a → 0 < h.refcount a) :
    (h.retain a).Exact (a :: outer) := by
  intro b pos
  have counts := exact b pos
  rcases Nat.eq_zero_or_pos a with rfl | live
  · rw [List.count_cons_of_ne (by omega)]
    exact counts
  · obtain ⟨n, count⟩ := Nat.exists_eq_succ_of_ne_zero (Nat.ne_of_gt (counted live))
    rw [retain_counted live count, refcount_setCount (counted live)]
    have same : (h.setCount a (n + 2)).inner = h.inner := rfl
    rw [same]
    split
    next eq =>
      subst eq
      rw [List.count_cons_self]
      omega
    next ne =>
      rw [List.count_cons_of_ne ne]
      exact counts

theorem get?_retain (h : Heap) (a b : Nat) : (h.retain a).get? b = h.get? b := by
  unfold Heap.retain
  split
  · rfl
  · split <;> rfl

theorem get?_retainValues (h : Heap) (vs : List Value) (b : Nat) :
    (h.retainValues vs).get? b = h.get? b := by
  induction vs generalizing h with
  | nil => rfl
  | cons v vs ih =>
    change ((h.retainValue v).retainValues vs).get? b = _
    rw [ih]
    cases v with
    | ref a => exact get?_retain h a b
    | _ => rfl

/-! ### Allocating -/

/-- The address that `alloc` gives is not null and was not live. -/
theorem WellFormed.alloc_fresh (wf : h.WellFormed) (o : Object) :
    0 < (h.alloc o).1 ∧ h.refcount (h.alloc o).1 = 0 ∧ h.get? (h.alloc o).1 = none := by
  obtain ⟨objects, counts, free⟩ := h
  cases free with
  | nil =>
    -- without free slots the tables grow, and they never were empty
    have lengths : counts.size = objects.size := wf.lengths
    have missing : counts[objects.size]? = none := Array.getElem?_eq_none (by omega)
    have uncounted : refcount ⟨objects, counts, []⟩ objects.size = 0 := by simp [refcount, missing]
    exact ⟨wf.null.1, uncounted, wf.get?_of_uncounted uncounted⟩
  | cons a free =>
    -- a free slot is not null and nobody counts it
    obtain ⟨pos, -, zero⟩ := (wf.free a).1 List.mem_cons_self
    exact ⟨pos, zero, wf.get?_of_uncounted zero⟩

/-- Allocation writes one slot. -/
theorem WellFormed.tables_alloc (wf : h.WellFormed) (o : Object) (a : Nat) :
    (h.alloc o).2.objects[a]? = (if (h.alloc o).1 = a then some (some o) else h.objects[a]?) ∧
      (h.alloc o).2.counts[a]? = (if (h.alloc o).1 = a then some 1 else h.counts[a]?) := by
  have lengths := wf.lengths
  obtain ⟨objects, counts, free⟩ := h
  have lengths : counts.size = objects.size := lengths
  cases free with
  | nil =>
    simp only [alloc, Array.getElem?_push, lengths, @eq_comm _ a]
    exact ⟨rfl, rfl⟩
  | cons b free =>
    obtain ⟨-, bound, -⟩ := (wf.free b).1 List.mem_cons_self
    have bound : b < objects.size := bound
    simp only [alloc, Array.getElem?_setIfInBounds, lengths, bound, if_true]
    exact ⟨rfl, rfl⟩

theorem WellFormed.get?_alloc (wf : h.WellFormed) (o : Object) (a : Nat) :
    (h.alloc o).2.get? a = if (h.alloc o).1 = a then some o else h.get? a := by
  rw [get?, (wf.tables_alloc o a).1]
  split <;> rfl

theorem WellFormed.refcount_alloc (wf : h.WellFormed) (o : Object) (a : Nat) :
    (h.alloc o).2.refcount a = if (h.alloc o).1 = a then 1 else h.refcount a := by
  rw [refcount, (wf.tables_alloc o a).2]
  split <;> rfl

/-- Allocation adds one object, wherever it finds a place. -/
theorem get?_of_alloc {o' : Object} (found : (h.alloc o).2.get? a = some o') :
    o' = o ∨ h.get? a = some o' := by
  obtain ⟨objects, counts, free⟩ := h
  cases free with
  | nil =>
    simp only [alloc, get?, Array.getElem?_push] at found
    split at found
    · exact .inl (by simpa using found.symm)
    · exact .inr found
  | cons b free =>
    simp only [alloc, get?, Array.getElem?_setIfInBounds] at found
    split at found
    · split at found
      · exact .inl (by simpa using found.symm)
      · cases found
    · exact .inr found

theorem size_alloc (h : Heap) (o : Object) :
    (h.alloc o).2.size = if h.free = [] then h.size + 1 else h.size := by
  obtain ⟨objects, counts, free⟩ := h
  cases free with
  | nil => exact Array.size_push _
  | cons a free => exact Array.size_setIfInBounds

theorem size_alloc_le (h : Heap) (o : Object) : (h.alloc o).2.size ≤ h.size + 1 := by
  rw [size_alloc]
  split
  · exact Nat.le_refl _
  · exact Nat.le_succ _

theorem WellFormed.mem_free_alloc (wf : h.WellFormed) (o : Object) (a : Nat) :
    a ∈ (h.alloc o).2.free ↔ a ∈ h.free ∧ a ≠ (h.alloc o).1 := by
  have nodup := wf.nodup
  have free := wf.free a
  obtain ⟨objects, counts, list⟩ := h
  cases list with
  | nil => simp [alloc]
  | cons b list =>
    simp only [List.nodup_cons] at nodup
    simp only [alloc, List.mem_cons]
    constructor
    · intro member
      -- the list of free slots has no repetitions, so the one that is taken is gone
      exact ⟨Or.inr member, fun same => nodup.1 (same ▸ member)⟩
    · rintro ⟨same | member, ne⟩
      · exact absurd same ne
      · exact member

theorem WellFormed.lt_size_alloc (wf : h.WellFormed) (o : Object) (a : Nat) :
    a < (h.alloc o).2.size ↔ a = (h.alloc o).1 ∨ a < h.size := by
  obtain ⟨objects, counts, free⟩ := h
  cases free with
  | nil =>
    simp only [alloc, size, Array.size_push]
    omega
  | cons b free =>
    obtain ⟨-, bound, -⟩ := (wf.free b).1 List.mem_cons_self
    have bound : b < objects.size := bound
    simp only [alloc, size, Array.size_setIfInBounds]
    omega

theorem WellFormed.alloc (wf : h.WellFormed) (o : Object) : (h.alloc o).2.WellFormed where
  lengths := by
    have lengths := wf.lengths
    obtain ⟨objects, counts, free⟩ := h
    cases free with
    | nil => simpa [Heap.alloc] using lengths
    | cons b free => simpa [Heap.alloc] using lengths
  null := by
    have fresh := (wf.alloc_fresh o).1
    rw [wf.get?_alloc, if_neg (by omega), wf.lt_size_alloc]
    exact ⟨.inr wf.null.1, wf.null.2⟩
  live a := by
    rw [wf.get?_alloc, wf.refcount_alloc]
    split
    · simp
    · exact wf.live a
  free a := by
    have fresh := wf.alloc_fresh o
    rw [wf.mem_free_alloc, wf.free a, wf.lt_size_alloc, wf.refcount_alloc]
    split
    next same =>
      subst same
      simp
    next ne =>
      have ne : a ≠ (h.alloc o).1 := fun eq => ne eq.symm
      simp [ne]
  nodup := by
    have nodup := wf.nodup
    obtain ⟨objects, counts, free⟩ := h
    cases free with
    | nil => exact List.nodup_nil
    | cons b free => exact (List.nodup_cons.1 nodup).2

theorem WellFormed.count_inner_alloc (wf : h.WellFormed) (o : Object) (a : Nat) :
    (h.alloc o).2.inner.count a = h.inner.count a + o.children.count a := by
  obtain ⟨objects, counts, free⟩ := h
  cases free with
  | nil => simp [Heap.alloc, inner, held]
  | cons b free =>
    obtain ⟨-, bound, zero⟩ := (wf.free b).1 List.mem_cons_self
    have missing := wf.get?_of_uncounted zero
    have at_b : objects[b]? = some none := by
      cases at_b : objects[b]? with
      | none => exact absurd bound (Nat.not_lt.2 (Array.getElem?_eq_none_iff.1 at_b))
      | some x => simpa [get?, at_b] using missing
    have inner := count_inner_set (h := ⟨objects, counts, b :: free⟩) (some o)
      (counts.setIfInBounds b 1) free a at_b
    simpa [Heap.alloc, held] using inner

/-- Allocation turns the holders of the children into one holder of the object. -/
theorem Exact.alloc (wf : h.WellFormed) (o : Object) (exact : h.Exact (o.children ++ outer)) :
    (h.alloc o).2.Exact ((h.alloc o).1 :: outer) := by
  intro a pos
  have counts := exact a pos
  rw [List.count_append] at counts
  rw [wf.refcount_alloc, wf.count_inner_alloc]
  split
  -- a fresh address had no holder at all
  next same =>
    have zero := (wf.alloc_fresh o).2.1
    rw [same] at zero ⊢
    rw [List.count_cons_self]
    omega
  next ne =>
    rw [List.count_cons_of_ne ne]
    omega

/-! ### Changing an object -/

theorem WellFormed.update (wf : h.WellFormed) (a : Nat) (f : Object → Object) :
    (h.update a f).WellFormed where
  lengths := by simpa [Heap.update] using wf.lengths
  null := by
    have size : (h.update a f).size = h.size := Array.size_modify
    rw [size, get?_update, wf.null.2]
    exact ⟨wf.null.1, ite_self _⟩
  live b := by
    rw [get?_update]
    split
    · rw [Option.isSome_map]
      exact wf.live b
    · exact wf.live b
  free b := by
    have size : (h.update a f).size = h.size := Array.size_modify
    rw [size]
    exact wf.free b
  nodup := wf.nodup

/-- Changing an object exchanges what it holds: the two lists outside make up for the difference. -/
theorem Exact.update {outer' : List Nat} (exact : h.Exact outer) (found : h.get? a = some o)
    (f : Object → Object)
    (same : ∀ b, 0 < b →
      outer.count b + o.children.count b = outer'.count b + (f o).children.count b) :
    (h.update a f).Exact outer' := by
  intro b pos
  have inner := count_inner_update found f b
  have counts := exact b pos
  have exchange := same b pos
  have kept : (h.update a f).refcount b = h.refcount b := rfl
  omega

/-! ### Releasing -/

theorem WellFormed.clear (wf : h.WellFormed) (counted : 0 < h.refcount a) : (h.clear a).WellFormed where
  lengths := by simpa [Heap.clear] using wf.lengths
  null := by
    have size : (h.clear a).size = h.size := Array.size_setIfInBounds
    rw [size, get?_clear, wf.null.2]
    exact ⟨wf.null.1, ite_self _⟩
  live b := by
    rw [get?_clear, refcount_clear]
    split
    · simp
    · exact wf.live b
  free b := by
    have size : (h.clear a).size = h.size := Array.size_setIfInBounds
    have member : b ∈ (h.clear a).free ↔ b = a ∨ b ∈ h.free := List.mem_cons
    rw [member, wf.free b, size, refcount_clear]
    split
    next same =>
      subst same
      simp [wf.pos_of_counted counted, wf.lt_size counted]
    next ne =>
      have ne : b ≠ a := fun eq => ne eq.symm
      simp [ne]
  nodup := by
    -- a slot that is counted was not free
    refine List.nodup_cons.2 ⟨fun free => ?_, wf.nodup⟩
    have zero := ((wf.free a).1 free).2.2
    omega

/-- What nobody counts is passed over. -/
theorem releaseAll_skipped (uncounted : a = 0 ∨ h.refcount a = 0) (rest : List Nat) :
    h.releaseAll (a :: rest) = h.releaseAll rest := by
  rw [releaseAll]
  split
  · rfl
  · next pos =>
    have zero := uncounted.resolve_left pos
    split
    · rfl
    · next one => omega
    · next more => omega

/-- Nothing happens where nothing is counted. -/
theorem releaseAll_uncounted {pending : List Nat} (uncounted : ∀ a ∈ pending, 0 < a → h.refcount a = 0) :
    h.releaseAll pending = h := by
  induction pending with
  | nil => rw [releaseAll]
  | cons a rest ih =>
    have zero : a = 0 ∨ h.refcount a = 0 := by
      rcases Nat.eq_zero_or_pos a with zero | pos
      · exact .inl zero
      · exact .inr (uncounted a List.mem_cons_self pos)
    rw [releaseAll_skipped zero]
    exact ih fun b mem => uncounted b (List.mem_cons_of_mem a mem)

/-- One of several references is given up. -/
theorem releaseAll_lowered (pos : a ≠ 0) (counted : h.refcount a = n + 2) (rest : List Nat) :
    h.releaseAll (a :: rest) = (h.setCount a (n + 1)).releaseAll rest := by
  rw [releaseAll, if_neg pos]
  split
  · next zero => omega
  · next one => omega
  · next m more =>
    obtain rfl : m = n := by omega
    rfl

/-- The last reference is given up, and what the object held is released in turn. -/
theorem releaseAll_freed (pos : a ≠ 0) (counted : h.refcount a = 1) (rest : List Nat) :
    h.releaseAll (a :: rest) = (h.clear a).releaseAll ((held (h.get? a)).reverse ++ rest) := by
  rw [releaseAll, if_neg pos]
  split
  · next zero => omega
  · rfl
  · next more => omega

theorem WellFormed.releaseAll (wf : h.WellFormed) (pending : List Nat) :
    (h.releaseAll pending).WellFormed := by
  fun_induction Heap.releaseAll h pending with
  | case1 h => exact wf
  | case2 h rest ih => exact ih wf
  | case3 h a rest _ _ ih => exact ih wf
  | case4 h a rest _ counted children ih => exact ih (wf.clear (by omega))
  -- one holder fewer, but still some
  | case5 h a rest _ n counted ih => exact ih (wf.setCount (by omega) (Nat.succ_pos n))

/-- Giving up one of several references to an object takes one holder away. -/
theorem Exact.lowered (exact : h.Exact (a :: outer)) (counted : h.refcount a = n + 2) :
    (h.setCount a (n + 1)).Exact outer := by
  intro b pos
  have counts := exact b pos
  -- the object stays, so nothing changes inside the heap
  have same : (h.setCount a (n + 1)).inner = h.inner := rfl
  rw [refcount_setCount (by omega), same]
  split
  next eq =>
    subst eq
    rw [List.count_cons_self] at counts
    omega
  next ne =>
    rw [List.count_cons_of_ne ne] at counts
    exact counts

/-- Giving up the last reference to an object turns what it held into holders outside the heap. -/
theorem Exact.freed (exact : h.Exact (a :: outer)) (counted : h.refcount a = 1) :
    (h.clear a).Exact ((held (h.get? a)).reverse ++ outer) := by
  intro b pos
  have counts := exact b pos
  have inner := count_inner_clear h a b
  rw [refcount_clear, List.count_append, List.count_reverse]
  split
  next eq =>
    subst eq
    rw [List.count_cons_self] at counts
    omega
  next ne =>
    rw [List.count_cons_of_ne ne] at counts
    omega

/-- The null reference counts for nothing. -/
theorem Exact.of_cons_zero (exact : h.Exact (0 :: outer)) : h.Exact outer := by
  apply exact.congr
  intro a pos
  rw [List.count_cons_of_ne (by omega)]

/-- An address with a holder outside the heap is counted. -/
theorem Exact.head_counted (exact : h.Exact (a :: outer)) (a_ne : ¬a = 0) : 0 < h.refcount a :=
  exact.counted (by omega) (.inl List.mem_cons_self)

/-- Releasing addresses consumes one holder for each of them. What is freed on the way gives up its
children, which become addresses to release in turn. -/
theorem Exact.releaseAll {pending : List Nat} (exact : h.Exact (pending ++ outer)) :
    (h.releaseAll pending).Exact outer := by
  fun_induction Heap.releaseAll h pending with
  | case1 h => exact exact
  | case2 h rest ih => exact ih exact.of_cons_zero
  | case3 h a rest a_ne zero ih =>
    -- the address has a holder, so it is counted
    have counted := exact.head_counted a_ne
    omega
  | case4 h a rest a_ne counted children ih =>
    apply ih
    rw [List.append_assoc]
    exact exact.freed counted
  | case5 h a rest a_ne n counted ih => exact ih (exact.lowered counted)

/-- Releasing one list after the other is releasing both at once. -/
theorem releaseAll_append (h : Heap) (first second : List Nat) :
    h.releaseAll (first ++ second) = (h.releaseAll first).releaseAll second := by
  fun_induction Heap.releaseAll h first with
  | case1 h => rfl
  | case2 h rest ih =>
    rw [List.cons_append, releaseAll_skipped (.inl rfl)]
    exact ih
  -- the count of the first address decides the same on both sides
  | case3 h a rest pos zero ih =>
    rw [List.cons_append, releaseAll_skipped (.inr zero)]
    exact ih
  | case4 h a rest pos counted children ih =>
    rw [List.append_assoc] at ih
    rw [List.cons_append, releaseAll_freed pos counted]
    exact ih
  | case5 h a rest pos n counted ih =>
    rw [List.cons_append, releaseAll_lowered pos counted]
    exact ih

/-- What survives a release is unchanged. -/
theorem get?_of_releaseAll {pending : List Nat} (survives : (h.releaseAll pending).get? a = some o) :
    h.get? a = some o := by
  fun_induction Heap.releaseAll h pending with
  | case1 h => exact survives
  | case2 h rest ih => exact ih survives
  | case3 h b rest _ _ ih => exact ih survives
  | case4 h b rest _ counted children ih =>
    have before := ih survives
    rw [get?_clear] at before
    split at before
    · cases before
    · exact before
  -- lowering a count keeps the object
  | case5 h b rest _ n counted ih => exact ih survives

/-! ### References held by values -/

theorem releaseValue_eq (h : Heap) (v : Value) : h.releaseValue v = h.releaseAll (Value.addresses [v]) := by
  cases v with
  | ref a =>
    cases a with
    | zero => simp [releaseValue, release, Value.addresses, releaseAll]
    | succ a => rfl
  | _ => simp [releaseValue, Value.addresses, releaseAll]

theorem releaseValues_eq (h : Heap) (vs : List Value) :
    h.releaseValues vs = h.releaseAll (Value.addresses vs) := by
  induction vs generalizing h with
  | nil =>
    rw [Value.addresses, List.filterMap_nil, releaseAll]
    rfl
  | cons v vs ih =>
    change (h.releaseValue v).releaseValues vs = _
    have split : Value.addresses (v :: vs) = Value.addresses [v] ++ Value.addresses vs := by
      rw [Value.addresses, Value.addresses, Value.addresses, ← List.filterMap_append]
      rfl
    rw [ih, releaseValue_eq, split, releaseAll_append]

theorem WellFormed.releaseValues {h : Heap} (wf : h.WellFormed) (vs : List Value) :
    (h.releaseValues vs).WellFormed := by
  rw [releaseValues_eq]
  exact wf.releaseAll _

theorem Exact.releaseValues {h : Heap} {outer : List Nat} {vs : List Value}
    (exact : h.Exact (Value.addresses vs ++ outer)) : (h.releaseValues vs).Exact outer := by
  rw [releaseValues_eq]
  exact Exact.releaseAll exact

theorem get?_of_releaseValues {h : Heap} {vs : List Value} {a : Nat} {o : Object}
    (survives : (h.releaseValues vs).get? a = some o) : h.get? a = some o := by
  rw [releaseValues_eq] at survives
  exact get?_of_releaseAll survives

theorem get?_of_releaseValue {h : Heap} {v : Value} {a : Nat} {o : Object}
    (survives : (h.releaseValue v).get? a = some o) : h.get? a = some o :=
  @get?_of_releaseValues h [v] a o survives

/-! ### Addresses in use -/

@[simp]
theorem size_retainValue (h : Heap) (v : Value) : (h.retainValue v).size = h.size := by
  cases v with
  | ref a =>
    change (h.retain a).size = _
    unfold retain
    split
    · rfl
    · split <;> rfl
  | _ => rfl

@[simp]
theorem size_releaseAll (h : Heap) (pending : List Nat) : (h.releaseAll pending).size = h.size := by
  fun_induction releaseAll h pending with
  | case1 h => rfl
  | case2 h rest ih => exact ih
  | case3 h a rest _ _ ih => exact ih
  | case4 h a rest _ counted children ih => exact ih.trans Array.size_setIfInBounds
  | case5 h a rest _ n counted ih => exact ih

@[simp]
theorem size_releaseValues (h : Heap) (vs : List Value) :
    (h.releaseValues vs).size = h.size := by
  rw [releaseValues_eq, size_releaseAll]

end Heap

end StackVM
