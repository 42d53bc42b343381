import StackVM.Proofs.Heap.Overrelease
import StackVM.Proofs.Heap.Representation

/-!
# Releasing as collecting

A release lowers one count, and frees whatever nobody counts any more. It looks neither for roots nor for
cycles. Main statement: where the counts are exact, it comes to what a collector does that keeps all that
the remaining holders reach, except that it keeps the cycles too, with all that they lead to
(`release_collects`).

What is reached keeps a holder, so it keeps a count (`counted_of_way`). An object on a cycle is held by the
one before it, so it is never the one that is freed (`cycle_of_releaseAll`). And what is live afterwards is
counted exactly, so something leads to it (`Exact.grounded`).
-/

namespace StackVM

namespace Heap

variable {h : Heap} {pending outer : List Nat} {a b c : Nat}

/-! ### References that stay -/

/-- Clearing a slot leaves the references of all other objects. -/
theorem Refers.clear (refers : h.Refers b c) (ne : a ≠ b) : (h.clear a).Refers b c := by
  obtain ⟨o, found, child⟩ := refers
  refine ⟨o, ?_, child⟩
  rw [get?_clear, if_neg ne]
  exact found

theorem refers_of_releaseAll (refers : (h.releaseAll pending).Refers a b) : h.Refers a b := by
  obtain ⟨o, found, child⟩ := refers
  exact ⟨o, get?_of_releaseAll found, child⟩

/-- An object that nobody refers to is on no cycle, so the cycles stay when it goes. -/
theorem cycle_of_clear (cycle : Relation.TransGen h.Refers b b) (unheld : ∀ c, ¬h.Refers c a) :
    Relation.TransGen (h.clear a).Refers b b := by
  have held : ∀ c d, Relation.TransGen h.Refers c d → a ≠ d := by
    rintro c d way rfl
    obtain ⟨e, -, refers⟩ := Relation.TransGen.tail'_iff.1 way
    exact unheld e refers
  have follow : ∀ c, Relation.TransGen h.Refers b c → Relation.TransGen (h.clear a).Refers b c := by
    intro c way
    induction way with
    | single refers => exact .single (refers.clear (held b b cycle))
    | tail way refers ih => exact .tail ih (refers.clear (held b _ way))
  exact follow b cycle

/-- Releases leave every cycle alone. -/
theorem cycle_of_releaseAll (exact : h.Exact (pending ++ outer)) (cycle : Relation.TransGen h.Refers b b) :
    Relation.TransGen (h.releaseAll pending).Refers b b := by
  fun_induction Heap.releaseAll h pending with
  | case1 h => exact cycle
  | case2 h rest ih => exact ih exact.of_cons_zero cycle
  | case3 h a rest a_ne zero ih =>
    have counted := exact.head_counted a_ne
    omega
  | case5 h a rest a_ne n counted ih => exact ih (exact.lowered counted) cycle
  | case4 h a rest a_ne counted children ih =>
    -- the one reference that is counted lies outside the heap
    have unheld : ∀ c, ¬h.Refers c a := by
      intro c refers
      have counts := exact a (by omega)
      have inside := List.count_pos_iff.2 refers.mem_inner
      simp only [List.cons_append, List.count_cons_self] at counts
      omega
    refine ih ?_ (cycle_of_clear cycle unheld)
    rw [List.append_assoc]
    exact exact.freed counted

/-! ### What survives -/

/-- After a release those objects are live that are reached from the remaining holders or from a cycle. -/
theorem Exact.survives_iff (exact : h.Exact (pending ++ outer)) (wf : h.WellFormed) :
    ((h.releaseAll pending).get? a).isSome ↔ 0 < a ∧ (h.Reached outer a ∨ h.FromCycle a) := by
  have counts := exact.releaseAll
  have formed := wf.releaseAll pending
  constructor
  · intro live
    obtain ⟨o, found⟩ := Option.isSome_iff_exists.1 live
    refine ⟨formed.pos_of_get? found, ?_⟩
    -- there are no more references than before
    rcases counts.grounded formed live with ⟨root, mem, way⟩ | ⟨c, cycle, way⟩
    · exact .inl ⟨root, mem, Relation.ReflTransGen.mono (fun _ _ => refers_of_releaseAll) _ _ way⟩
    · right
      refine ⟨c, ?_, ?_⟩
      · exact Relation.TransGen.mono (fun _ _ => refers_of_releaseAll) _ _ cycle
      · exact Relation.ReflTransGen.mono (fun _ _ => refers_of_releaseAll) _ _ way
  · rintro ⟨pos, kept⟩
    have enough : ∀ c, 0 < c → (h.releaseAll pending).inner.count c ≤ (h.releaseAll pending).refcount c := by
      intro c pos
      have := counts c pos
      omega
    rw [formed.live]
    rcases kept with ⟨root, mem, way⟩ | ⟨c, cycle, way⟩
    · exact counted_of_way wf.null.2 way enough (fun pos => counts.counted pos (.inl mem)) pos
    · apply counted_of_way wf.null.2 way enough _ pos
      -- the object on the cycle is held by the one before it
      intro pos
      obtain ⟨d, -, refers⟩ := Relation.TransGen.tail'_iff.1 (cycle_of_releaseAll exact cycle)
      exact counts.counted pos (.inr refers.mem_inner)

/-- Releasing one of the references that are held outside a heap, whatever requests the heap was made by.
Counts that were exact are exact for the other references, and the objects that survive are unchanged. An
object survives if it is reached from the other references or from a cycle; without cycles, exactly those
objects are live that are reached from the other references. -/
theorem release_collects (requests : List Request) {outer : List Nat} {x : Nat}
    (exact : (handled requests).Exact outer) (held : x ∈ outer) :
    let h := handled requests
    let h' := h.release x
    h'.Exact (outer.erase x) ∧
      (∀ a o, h'.get? a = some o → h.get? a = some o) ∧
      (∀ a, (h'.get? a).isSome ↔ 0 < a ∧ (h.Reached (outer.erase x) a ∨ h.FromCycle a)) ∧
      (h.Acyclic → ∀ a, (h'.get? a).isSome ↔ 0 < a ∧ h.Reached (outer.erase x) a) := by
  intro h h'
  have wf : h.WellFormed := wellFormed_empty.foldl_handle requests
  have split : h.Exact ([x] ++ outer.erase x) := by
    apply exact.congr
    intro a _
    exact (List.perm_cons_erase held).count_eq a
  have survives : ∀ a, (h'.get? a).isSome ↔ 0 < a ∧ (h.Reached (outer.erase x) a ∨ h.FromCycle a) :=
    fun a => split.survives_iff wf
  refine ⟨split.releaseAll, fun a o => get?_of_releaseAll, survives, ?_⟩
  intro acyclic a
  have straight : ¬h.FromCycle a := by
    rintro ⟨c, cycle, -⟩
    exact acyclic c cycle
  rw [survives a]
  simp [straight]

/-- A string, an array that holds it twice, and an array that holds that one. -/
def nested : List Request :=
  [.alloc (.string "s"), .retain 1, .retain 1, .alloc (.array .string #[.ref 1, .ref 1]),
    .alloc (.array (.array .string) #[.ref 2, .null])]

/-- Two arrays that hold each other. -/
def ring : List Request :=
  [.alloc (.array .ref #[.null]), .alloc (.array .ref #[.ref 4]),
    .overwrite 4 fun o => o.setElement 0 (.ref 5)]

/-- Releasing the outer array frees both arrays but not the string, which is held elsewhere. Two arrays that
hold each other survive, though nothing leads to them. -/
theorem nested_collects :
    ((handled nested).Exact [1, 3] ∧ 3 ∈ [1, 3] ∧ (handled nested).Acyclic ∧
      ∀ a, (((handled nested).release 3).get? a).isSome ↔ a = 1) ∧
    (handled (nested ++ ring)).Exact [1, 3] ∧
      (((handled (nested ++ ring)).release 3).get? 4).isSome ∧
      (((handled (nested ++ ring)).release 3).get? 5).isSome := by
  have exact : (handled nested).Exact [1, 3] := by decide +kernel
  have acyclic : (handled nested).Acyclic := acyclic_of_descends (by decide +kernel)
  have held : 3 ∈ [1, 3] := by decide
  refine ⟨⟨exact, held, acyclic, ?_⟩, ?_⟩
  · intro a
    rw [(release_collects nested exact held).2.2.2 acyclic a]
    constructor
    · rintro ⟨-, root, mem, way⟩
      obtain rfl : root = 1 := by simpa using mem
      exact eq_of_childless rfl rfl way
    · rintro rfl
      exact ⟨by decide, 1, by decide, .refl⟩
  · have exact' : (handled (nested ++ ring)).Exact [1, 3] := by decide +kernel
    have survives := (release_collects (nested ++ ring) exact' held).2.2.1
    have there : (handled (nested ++ ring)).Refers 4 5 := ⟨_, rfl, by decide +kernel⟩
    have back : (handled (nested ++ ring)).Refers 5 4 := ⟨_, rfl, by decide +kernel⟩
    have cycle : Relation.TransGen (handled (nested ++ ring)).Refers 4 4 := .tail (.single there) back
    refine ⟨exact', ?_, ?_⟩
    · exact (survives 4).2 ⟨by decide, .inr ⟨4, cycle, .refl⟩⟩
    · exact (survives 5).2 ⟨by decide, .inr ⟨4, cycle, .single there⟩⟩

end Heap

end StackVM
