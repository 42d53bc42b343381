import StackVM.Proofs.Heap.Reachability

/-!
# Releasing more than was held

A release trusts whoever asks for it. If references are released that no holder gives up, the counts of
live objects come to less than their holders, and an object may be freed while it is still held. Main
statement: a surplus release does no harm exactly if nothing outside leads to what is released
(`releaseAll_uncounted` and `short_of_reached`).
-/

namespace StackVM

namespace Heap

variable {h : Heap} {pending outer : List Nat} {a b : Nat}

/-- Releases raise no count. -/
theorem refcount_releaseAll_le (h : Heap) (pending : List Nat) (a : Nat) :
    (h.releaseAll pending).refcount a ≤ h.refcount a := by
  fun_induction Heap.releaseAll h pending with
  | case1 h => exact Nat.le_refl _
  | case2 h rest ih => exact ih
  | case3 h b rest _ _ ih => exact ih
  | case4 h b rest _ counted children ih =>
    rw [refcount_clear] at ih
    split at ih
    · exact Nat.le_trans ih (Nat.zero_le _)
    · exact ih
  | case5 h b rest _ n counted ih =>
    rw [refcount_setCount (by omega)] at ih
    split at ih
    · next same =>
      subst same
      omega
    · exact ih

/-- What stays counted stays as it is. -/
theorem get?_releaseAll_of_counted (counted : 0 < (h.releaseAll pending).refcount a) :
    (h.releaseAll pending).get? a = h.get? a := by
  fun_induction Heap.releaseAll h pending with
  | case1 h => rfl
  | case2 h rest ih => exact ih counted
  | case3 h b rest _ _ ih => exact ih counted
  | case4 h b rest _ one children ih =>
    -- the object that is freed does not stay counted
    have before := Nat.lt_of_lt_of_le counted (refcount_releaseAll_le _ _ a)
    rw [refcount_clear] at before
    rw [ih counted, get?_clear]
    split
    · next same =>
      rw [if_pos same] at before
      cases before
    · rfl
  | case5 h b rest _ n more ih => exact ih counted

/-- If `k` more releases of an address are asked for than holders can give up, its count comes to `k` less
than its holders, be it that the object survives or that as many holders lie outside. -/
theorem short_releaseAll {k : Nat} (pos : 0 < a)
    (lasts : 0 < (h.releaseAll pending).refcount a ∨ k ≤ outer.count a)
    (asked : h.refcount a + k ≤ pending.count a + outer.count a + h.inner.count a) :
    (h.releaseAll pending).refcount a + k ≤ outer.count a + (h.releaseAll pending).inner.count a := by
  -- a release that is passed over is one of an address without a count
  have skip {h : Heap} {b : Nat} {rest : List Nat} (zero : 0 < b → h.refcount b = 0)
      (lasts : 0 < (h.releaseAll rest).refcount a ∨ k ≤ outer.count a)
      (asked : h.refcount a + k ≤ (b :: rest).count a + outer.count a + h.inner.count a) :
      h.refcount a + k ≤ rest.count a + outer.count a + h.inner.count a := by
    by_cases same : b = a
    · subst same
      have zero := zero pos
      have below := h.refcount_releaseAll_le rest b
      omega
    · rwa [List.count_cons_of_ne same] at asked
  fun_induction Heap.releaseAll h pending with
  | case1 h => simpa using asked
  | case2 h rest ih => exact ih lasts (skip (fun pos => by omega) lasts asked)
  | case3 h b rest _ zero ih => exact ih lasts (skip (fun _ => zero) lasts asked)
  | case4 h b rest _ counted children ih =>
    refine ih lasts ?_
    -- what the object held is pending now
    have inner := count_inner_clear h b a
    rw [refcount_clear, List.count_append, List.count_reverse]
    change _ ≤ (held (h.get? b)).count a + _ + _ + _
    split
    next eq =>
      subst eq
      rw [List.count_cons_self] at asked
      omega
    next ne =>
      rw [List.count_cons_of_ne ne] at asked
      omega
  | case5 h b rest _ n counted ih =>
    refine ih lasts ?_
    -- one holder fewer, but still some
    have same : (h.setCount b (n + 1)).inner = h.inner := rfl
    rw [refcount_setCount (by omega), same]
    split
    next eq =>
      subst eq
      rw [List.count_cons_self] at asked
      omega
    next ne =>
      rw [List.count_cons_of_ne ne] at asked
      exact asked

/-- A surplus release of an address that is held outside leaves its count short. -/
theorem Exact.short_of_held (exact : h.Exact outer) (pos : 0 < a) (surplus : a ∈ pending)
    (held : a ∈ outer) :
    (h.releaseAll pending).refcount a < outer.count a + (h.releaseAll pending).inner.count a := by
  have counts := exact a pos
  have asked := List.count_pos_iff.2 surplus
  exact short_releaseAll pos (.inr (List.count_pos_iff.2 held)) (by omega)

/-- What is counted keeps all that it leads to, if counts come to no less than the holders in the heap. -/
theorem counted_of_way (null : h.get? 0 = none) (way : Relation.ReflTransGen h.Refers a b)
    (enough : ∀ c, 0 < c → (h.releaseAll pending).inner.count c ≤ (h.releaseAll pending).refcount c)
    (counted : 0 < a → 0 < (h.releaseAll pending).refcount a) (pos : 0 < b) :
    0 < (h.releaseAll pending).refcount b := by
  induction way with
  | refl => exact counted pos
  | @tail c d _ refers ih =>
    obtain ⟨o, found, child⟩ := refers
    have pos' : 0 < c := by
      rcases Nat.eq_zero_or_pos c with rfl | pos'
      · rw [null] at found
        cases found
      · exact pos'
    -- the object is still there, and so it still holds the address
    rw [← get?_releaseAll_of_counted (ih pos')] at found
    have held := List.count_pos_iff.2 (child_mem_inner found child)
    have counts := enough d pos
    omega

/-- A surplus release of something that is reached from outside leaves some count short. -/
theorem Exact.short_of_reached (exact : h.Exact outer) (null : h.get? 0 = none) (pos : 0 < a)
    (surplus : a ∈ pending) (reached : h.Reached outer a) :
    ∃ b, 0 < b ∧
      (h.releaseAll pending).refcount b < outer.count b + (h.releaseAll pending).inner.count b := by
  by_contra none_short
  have enough : ∀ b, 0 < b → outer.count b + (h.releaseAll pending).inner.count b ≤
      (h.releaseAll pending).refcount b := by
    intro b pos
    by_contra short
    exact none_short ⟨b, pos, by omega⟩
  obtain ⟨root, mem, way⟩ := reached
  -- whatever is on the way from the root survives
  have survives : 0 < (h.releaseAll pending).refcount a := by
    apply counted_of_way null way
    · intro b pos
      have counts := enough b pos
      omega
    · intro pos
      have held := List.count_pos_iff.2 mem
      have counts := enough root pos
      omega
    · exact pos
  have counts := exact a pos
  have asked := List.count_pos_iff.2 surplus
  have overdue : h.refcount a + 1 ≤ pending.count a + outer.count a + h.inner.count a := by omega
  have short := short_releaseAll pos (.inl survives) overdue
  have counts := enough a pos
  omega

end Heap

end StackVM
