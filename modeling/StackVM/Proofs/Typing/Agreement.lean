import Mathlib.Data.List.Forall2
import StackVM.Proofs.ReferenceCounts
import StackVM.Proofs.Typing.Values

/-!
# Machines that agree with a stack of types

A stack of types and a table of types of globals promise something of every value that a machine holds
in these places. The promise may be that the value has the type, or less, such as that it has the kind of
the type; here it is a relation `R`. Main statements: changes of the machine keep what was promised, as
long as promises are `Lasting`, that is, unless the heap takes a type away from a value that is alive.
-/

namespace StackVM

open Verifier

/-- Promises that are kept when objects go away or keep their types, when objects appear, when a number moves
onto the heap, and by what a word keeps of a value. -/
class Lasting (R : Heap → Value → Ty → Prop) : Prop where
  within {h h' : Heap} {v : Value} {t : Ty} : R h v t → h'.Within h → R h' v t
  alloc {h : Heap} {v : Value} {t : Ty} : R h v t → h.WellFormed →
    (∀ a, 0 < a → v = .ref a → ∃ o, h.get? a = some o) → ∀ o, R (h.alloc o).2 v t
  boxed {h h' : Heap} {a : Nat} {n : BitVec 64} {t : Ty} : R h (.i64 n) t → 0 < a →
    h'.get? a = some (.int64 n) → R h' (.ref a) t
  canonical {h : Heap} {v : Value} {t : Ty} : R h v t → R h v.canonical t

instance : Lasting Value.HasTy where
  within := Value.HasTy.within
  alloc := Value.HasTy.alloc
  boxed {_ _ _ _ t} promised pos found := by
    rw [show t = .scalar .i64 from promised]
    exact .of_object pos found
  canonical := Value.HasTy.canonical

namespace Machine

/-- The promises are kept for the values in the places outside the heap. -/
structure Agrees (R : Heap → Value → Ty → Prop) (m : Machine) (T : Table Ty) (ts : List Ty) : Prop where
  stack : List.Forall₂ (R m.heap) m.stack ts
  globals : ∀ i v, m.globals.get? i = some v → ∃ t, T.get? i = some t ∧ R m.heap v t

variable {R : Heap → Value → Ty → Prop} {m : Machine} {T : Table Ty} {ts us : List Ty} {t : Ty}
  {v : Value} {o : Object} {hand : List Value} {d i a : Nat}

theorem Agrees.peek (agrees : m.Agrees R T ts) (at_depth : ts[d]? = some t) : R m.heap (m.peek d) t := by
  have inside : d < m.stack.length := by
    rw [agrees.stack.length_eq]
    exact (List.getElem?_eq_some_iff.1 at_depth).1
  have present := getElem?_peek inside
  obtain ⟨below, here⟩ := List.getElem?_eq_some_iff.1 present
  obtain ⟨below', there⟩ := List.getElem?_eq_some_iff.1 at_depth
  have each := agrees.stack.get below below'
  rw [List.get_eq_getElem, List.get_eq_getElem, here, there] at each
  exact each

/-- The operands on top of the stack, in the order in which they were pushed. -/
theorem Agrees.operands (agrees : m.Agrees R T (us ++ ts)) :
    List.Forall₂ (R m.heap) (m.stack.take us.length).reverse us.reverse :=
  List.rel_reverse (List.forall₂_take_append _ _ _ agrees.stack)

theorem Agrees.withStack {stack : List Value} (agrees : m.Agrees R T ts)
    (promised : List.Forall₂ (R m.heap) stack us) : Agrees R { m with stack } T us :=
  { agrees with stack := promised }

theorem Agrees.setIp (agrees : m.Agrees R T ts) (ip : Nat) : (m.setIp ip).Agrees R T ts := by
  unfold Machine.setIp
  split
  · exact agrees
  · exact { agrees with }

theorem Agrees.pushed (agrees : m.Agrees R T ts) (promised : R m.heap v t) :
    (m.pushed v).Agrees R T (t :: ts) := agrees.withStack (.cons promised agrees.stack)

theorem Agrees.dropped (agrees : m.Agrees R T ts) (n : Nat) : (m.dropped n).Agrees R T (ts.drop n) :=
  agrees.withStack (List.forall₂_drop n agrees.stack)

/-- Before a run there is no operand, and no global is written yet. -/
theorem agrees_load (p : Program) (o : Options) : (load p o).Agrees R T [] := by
  refine ⟨.nil, fun i v found => ?_⟩
  change Table.empty.get? i = some v at found
  simp at found

theorem forall₂_set {α β : Type} {S : α → β → Prop} {as : List α} {bs : List β} {a : α} {b : β}
    (related : List.Forall₂ S as bs) (new : S a b) (i : Nat) :
    List.Forall₂ S (as.set i a) (bs.set i b) := by
  induction related generalizing i with
  | nil => exact .nil
  | cons first others ih =>
    cases i with
    | zero => exact .cons new others
    | succ i => exact .cons first (ih i)

section Changes

variable [Lasting R]

theorem Agrees.withHeap {h : Heap} (agrees : m.Agrees R T ts) (fewer : h.Within m.heap) :
    Agrees R { m with heap := h } T ts where
  stack := agrees.stack.imp fun _ _ promised => Lasting.within promised fewer
  globals i v found := by
    obtain ⟨t, known, promised⟩ := agrees.globals i v found
    exact ⟨t, known, Lasting.within promised fewer⟩

theorem Agrees.subset {h : Heap} (agrees : m.Agrees R T ts)
    (subset : ∀ a o, h.get? a = some o → m.heap.get? a = some o) : Agrees R { m with heap := h } T ts :=
  agrees.withHeap (Heap.within_of_subset subset)

theorem Agrees.retain (agrees : m.Agrees R T ts) (v : Value) : (m.retain v).Agrees R T ts :=
  agrees.subset fun a o found => by rwa [Heap.get?_retainValue] at found

theorem promised_retain (promised : R m.heap v t) (w : Value) : R (m.retain w).heap v t := by
  apply Lasting.within promised
  apply Heap.within_of_subset
  intro a o found
  rwa [← Heap.get?_retainValue m.heap w]

theorem Agrees.releaseAll (agrees : m.Agrees R T ts) (vs : List Value) :
    (m.releaseAll vs).Agrees R T ts :=
  agrees.subset fun _ _ => Heap.get?_of_releaseValues

theorem Agrees.release (agrees : m.Agrees R T ts) (v : Value) : (m.release v).Agrees R T ts :=
  agrees.releaseAll [v]

theorem Agrees.discarded (agrees : m.Agrees R T ts) (n : Nat) :
    (m.discarded n).Agrees R T (ts.drop n) :=
  (agrees.dropped n).releaseAll _

/-- A new object, of which the new reference keeps its promise. -/
theorem Agrees.pushedObject (agrees : m.Agrees R T ts) (balanced : m.Balanced hand)
    (fresh : R (m.heap.alloc o).2 (.ref (m.heap.alloc o).1) t) :
    (m.pushedObject o).Agrees R T (t :: ts) := by
  -- everything the machine holds is alive, so the new slot is in nobody's hands
  have keeps {v : Value} {t : Ty} (alive : m.Live v) (promised : R m.heap v t) :
      R (m.heap.alloc o).2 v t := Lasting.alloc promised balanced.heap alive o
  refine Agrees.pushed ⟨?_, fun i v found => ?_⟩ fresh
  · refine List.forall₂_iff_get.2 ⟨agrees.stack.length_eq, fun i below below' => ?_⟩
    exact keeps (balanced.live_of_stack (List.get_mem _ _)) (agrees.stack.get below below')
  · obtain ⟨t, known, promised⟩ := agrees.globals i v found
    exact ⟨t, known, keeps (balanced.live_of_global found) promised⟩

theorem Agrees.pushedRead (agrees : m.Agrees R T ts) (balanced : m.Balanced hand)
    (promised : R m.heap v t) : (m.pushedRead v).Agrees R T (t :: ts) := by
  unfold Machine.pushedRead
  split
  · next n =>
    split
    · exact agrees.pushed promised
    -- a wide integer moves onto the heap
    · apply agrees.pushedObject balanced
      apply Lasting.boxed promised (balanced.heap.alloc_fresh _).1
      rw [balanced.heap.get?_alloc, if_pos rfl]
  · exact agrees.pushed (Lasting.canonical promised)

/-- A result takes the place of `n` operands. -/
theorem Agrees.replaced (agrees : m.Agrees R T ts) (balanced : m.Balanced hand) (promised : R m.heap v t)
    (n : Nat) : (m.replaced n v).Agrees R T (t :: ts.drop n) := by
  apply (agrees.discarded n).pushedRead (balanced.discarded n)
  apply Lasting.within promised
  exact Heap.within_of_subset fun _ _ => Heap.get?_of_releaseValues

theorem Agrees.setGlobal (agrees : m.Agrees R T ts) (known : T.get? i = some t) (promised : R m.heap v t) :
    (m.setGlobal i v).Agrees R T ts := by
  have stored : Agrees R { m with globals := m.globals.put i v } T ts := by
    refine { agrees with globals := fun j w found => ?_ }
    simp only [Table.get?_put] at found
    split at found
    · next here =>
      cases found
      exact ⟨t, here ▸ known, promised⟩
    · exact agrees.globals j w found
  -- what the global held before is released
  unfold Machine.setGlobal
  cases m.globals.get? i with
  | some w => exact stored.release w
  | none => exact stored

theorem Agrees.setPlace (agrees : m.Agrees R T ts) (promised : R m.heap v t) (place : Nat) :
    (m.setPlace place v).Agrees R T (ts.set (ts.length - 1 - place) t) := by
  unfold Machine.setPlace fromTop
  rw [← agrees.stack.length_eq]
  exact (agrees.withStack (forall₂_set agrees.stack promised _)).release _

/-- An object changes its contents and keeps its type. -/
theorem Agrees.update {f : Object → Object} (agrees : m.Agrees R T ts) (found : m.heap.get? a = some o)
    (ty : (f o).ty = o.ty) : Agrees R { m with heap := m.heap.update a f } T ts :=
  agrees.withHeap (Heap.within_update found ty)

end Changes

end Machine

/-! ### Constants -/

/-- What is loaded as it is has the type of the constant. -/
theorem Constant.hasTy_of_form {k : Constant} {v : Value} {h : Heap} (form : k.form = .inl v) :
    v.HasTy h k.ty := by
  cases k with
  | number s bits =>
    -- a wide integer goes onto the heap and is no such value
    rcases Constant.form_number s bits with ⟨w, number, kind⟩ | ⟨n, wide, -⟩
    · rw [number] at form
      cases form
      exact .number kind
    · rw [wide] at form
      cases form
  | _ => cases form

/-- What is loaded onto the heap has the type of the constant too. -/
theorem Constant.ty_of_form {k : Constant} {o : Object} (form : k.form = .inr o) : o.ty = k.ty := by
  cases k with
  | number s bits =>
    rcases Constant.form_number s bits with ⟨v, number, -⟩ | ⟨n, wide, rfl⟩
    · rw [number] at form
      cases form
    · rw [wide] at form
      cases form
      rfl
  | _ =>
    cases form
    rfl

@[simp]
theorem Object.ty_blank (o : Object) : o.blank.ty = o.ty := by cases o <;> rfl

/-- A constant has the type that the program declares for it, whatever has happened since it was loaded. -/
theorem Machine.Balanced.constant_hasTy {m : Machine} {hand : List Value} {i : Nat} {v : Value}
    (balanced : m.Balanced hand) (found : m.constants[i]? = some v) :
    ∃ k, m.program.constants[i]? = some k ∧ v.HasTy m.heap k.ty := by
  obtain ⟨length, kept⟩ := List.forall₂_iff_get.1 balanced.pool.kept
  obtain ⟨inside, rfl⟩ := Array.getElem?_eq_some_iff.1 found
  have inside' : i < m.program.constants.size := by
    have size : m.program.constants.size = m.constants.size := by simpa using length
    omega
  refine ⟨m.program.constants[i], by simp [inside'], ?_⟩
  have here := kept i (by simpa using inside') (by simpa using inside)
  unfold Constant.Kept at here
  cases form : m.program.constants[i].form with
  | inl w =>
    simp only [List.get_eq_getElem, Array.getElem_toList, form] at here
    rw [here]
    exact Constant.hasTy_of_form form
  | inr o =>
    simp only [List.get_eq_getElem, Array.getElem_toList, form] at here
    obtain ⟨a, o', value, live, like⟩ := here
    have pos := balanced.heap.pos_of_get? live
    -- the object may have other elements by now, but no other type
    have ty : o'.ty = m.program.constants[i].ty := by
      rw [← Object.ty_blank, like, Object.ty_blank, Constant.ty_of_form form]
    rw [value, ← ty]
    exact .of_object pos live

end StackVM
