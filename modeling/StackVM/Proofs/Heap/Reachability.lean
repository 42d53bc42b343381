import Mathlib.Data.Fintype.EquivFin
import Mathlib.Order.WellFounded
import StackVM.Proofs.Heap.Counting

/-!
# What the holders reach

Live objects refer to one another. An object on a cycle of references can be live though nothing outside
the heap leads to it, for it keeps itself counted. Main statement: where the counts are exact, every live
object is reached from outside or from a cycle (`Exact.grounded`), so from outside if no live object leads
back to itself (`Exact.reached`).
-/

namespace StackVM

namespace Heap

/-- The live object at `a` holds the address `b`. -/
def Refers (h : Heap) (a b : Nat) : Prop := ∃ o, h.get? a = some o ∧ b ∈ o.children

/-- No live object leads back to itself. -/
def Acyclic (h : Heap) : Prop := ∀ a, ¬Relation.TransGen h.Refers a a

/-- The address is among the given ones, or objects that these lead to hold it. -/
def Reached (h : Heap) (outer : List Nat) (a : Nat) : Prop :=
  ∃ b ∈ outer, Relation.ReflTransGen h.Refers b a

/-- The address lies on a cycle of references, or the objects of a cycle lead to it. -/
def FromCycle (h : Heap) (a : Nat) : Prop :=
  ∃ c, Relation.TransGen h.Refers c c ∧ Relation.ReflTransGen h.Refers c a

variable {h h' : Heap} {outer : List Nat} {a b : Nat}

theorem Refers.live (refers : h.Refers a b) : (h.get? a).isSome := by
  obtain ⟨o, found, -⟩ := refers
  rw [found]
  rfl

theorem Refers.mem_inner (refers : h.Refers a b) : b ∈ h.inner := by
  obtain ⟨o, found, child⟩ := refers
  exact child_mem_inner found child

/-- An address that live objects hold is held by one of them. -/
theorem refers_of_mem_inner (held : b ∈ h.inner) : ∃ a, h.Refers a b := by
  obtain ⟨x, mem, child⟩ := List.mem_flatMap.1 held
  obtain ⟨a, at_a⟩ := Array.mem_iff_getElem?.1 (Array.mem_toList_iff.1 mem)
  cases x with
  | none => cases child
  | some o =>
    refine ⟨a, o, ?_, child⟩
    rw [get?, at_a]
    rfl

/-- A heap with fewer objects, all of them unchanged, has no more cycles. -/
theorem Acyclic.mono (acyclic : h.Acyclic) (fewer : ∀ a o, h'.get? a = some o → h.get? a = some o) :
    h'.Acyclic := by
  intro a cycle
  refine acyclic a (Relation.TransGen.mono (fun b c refers => ?_) _ _ cycle)
  obtain ⟨o, found, child⟩ := refers
  exact ⟨o, fewer b o found, child⟩

/-- A relation without cycles, in which finitely many numbers are related to anything, cannot be followed
back forever. -/
theorem wellFounded_of_acyclic {r : Nat → Nat → Prop} {n : Nat} (bound : ∀ a b, r a b → a < n)
    (acyclic : ∀ a, ¬Relation.TransGen r a a) : WellFounded r := by
  let before (i j : Fin n) : Prop := Relation.TransGen r i j
  have transitive : IsTrans _ before := ⟨fun i j k => Relation.TransGen.trans⟩
  have irreflexive : Std.Irrefl before := ⟨fun i => acyclic i⟩
  have finite : WellFounded before := Finite.wellFounded_of_trans_of_irrefl before
  have inside (i : Fin n) : Acc r i := by
    induction finite.apply i with
    | intro i _ ih =>
      constructor
      intro a related
      exact ih ⟨a, bound a i related⟩ (.single related)
  -- whatever is related to a number lies below the bound
  constructor
  intro b
  constructor
  intro a related
  exact inside ⟨a, bound a b related⟩

/-- Somebody counts a live object: a place outside, or another live object. -/
theorem Exact.held_of_live (exact : h.Exact outer) (wf : h.WellFormed) (live : (h.get? a).isSome) :
    a ∈ outer ∨ ∃ b, h.Refers b a := by
  obtain ⟨o, found⟩ := Option.isSome_iff_exists.1 live
  have counted := (wf.live a).1 live
  rw [exact a (wf.pos_of_get? found)] at counted
  by_cases outside : a ∈ outer
  · exact .inl outside
  · right
    apply refers_of_mem_inner
    rw [List.count_eq_zero.2 outside, Nat.zero_add] at counted
    exact List.count_pos_iff.1 counted

/-- In a heap with exact counts every live object is reached from outside or from a cycle. -/
theorem Exact.grounded (exact : h.Exact outer) (wf : h.WellFormed) (live : (h.get? a).isSome) :
    h.Reached outer a ∨ h.FromCycle a := by
  -- away from the cycles one cannot go back forever from object to holder
  let back (b c : Nat) : Prop := h.Refers b c ∧ ¬h.FromCycle c
  have finite : WellFounded back := by
    apply wellFounded_of_acyclic (n := h.size)
    · rintro b c ⟨⟨o, found, -⟩, -⟩
      exact lt_size_of_get? found
    · intro b cycle
      obtain ⟨c, -, -, outside⟩ := Relation.TransGen.tail'_iff.1 cycle
      exact outside ⟨b, Relation.TransGen.mono (fun _ _ step => step.1) _ _ cycle, .refl⟩
  induction finite.apply a with
  | intro a _ ih =>
    by_cases circling : h.FromCycle a
    · exact .inr circling
    rcases exact.held_of_live wf live with outside | ⟨b, refers⟩
    · exact .inl ⟨a, outside, .refl⟩
    rcases ih b ⟨refers, circling⟩ refers.live with ⟨root, mem, way⟩ | ⟨c, cycle, way⟩
    · exact .inl ⟨root, mem, way.tail refers⟩
    · exact absurd ⟨c, cycle, way.tail refers⟩ circling

/-- In a heap with exact counts and without cycles every live object is reached from outside. -/
theorem Exact.reached (exact : h.Exact outer) (wf : h.WellFormed) (acyclic : h.Acyclic)
    (live : (h.get? a).isSome) : h.Reached outer a := by
  rcases exact.grounded wf live with reached | ⟨c, cycle, -⟩
  · exact reached
  · exact absurd cycle (acyclic c)

/-- A childless object leads nowhere. -/
theorem eq_of_childless {o : Object} (found : h.get? a = some o) (childless : o.children = [])
    (way : Relation.ReflTransGen h.Refers a b) : b = a := by
  rcases way.cases_head with same | ⟨c, ⟨o', found', child⟩, -⟩
  · exact same.symm
  · cases found.symm.trans found'
    rw [childless] at child
    cases child

/-- Every object holds only addresses below its own. -/
def descends (h : Heap) : Bool :=
  h.objects.toList.zipIdx.all fun (x, a) => (held x).all (· < a)

/-- References that all lead downwards form no cycle. -/
theorem acyclic_of_descends (down : h.descends = true) : h.Acyclic := by
  have lower : ∀ a b, h.Refers a b → b < a := by
    rintro a b ⟨o, found, child⟩
    have mem : (some o, a) ∈ h.objects.toList.zipIdx :=
      List.mem_zipIdx_iff_getElem?.2 (by simpa using objects_of_get? found)
    have all := List.all_eq_true.1 (List.all_eq_true.1 down _ mem) b child
    simpa using all
  intro a cycle
  have falls : ∀ b, Relation.TransGen h.Refers a b → b < a := by
    intro b way
    induction way with
    | single refers => exact lower _ _ refers
    | tail _ refers ih => exact Nat.lt_trans (lower _ _ refers) ih
  exact Nat.lt_irrefl a (falls a cycle)

end Heap

end StackVM
