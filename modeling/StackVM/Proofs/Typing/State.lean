import StackVM.Proofs.Typing.Kinds

/-!
# Machines in which all types are right

A machine is well typed when every value it holds has the type that stands for it, on the stack, in a
global and in an object. This module has what the questions of a machine come to when it is, and what its
changes keep of it.
-/

namespace StackVM

open Verifier

namespace Machine

/-- The values in the places outside the heap have the given types, and all objects keep the promises of
their own types. -/
structure Typed (m : Machine) (T : Table Ty) (ts : List Ty) : Prop extends m.Agrees Value.HasTy T ts where
  heap : m.heap.Typed

variable {m m' : Machine} {T : Table Ty} {ts us : List Ty} {t : Ty} {v : Value} {o : Object}
  {hand : List Value} {d n i a : Nat}

/-! ### Questions -/

theorem Typed.kinded (typed : m.Typed T ts) : m.Kinded T ts where
  stack := typed.stack.imp fun _ _ promised => promised.hasKind
  globals i v found := by
    obtain ⟨t, known, promised⟩ := typed.globals i v found
    exact ⟨t, known, promised.hasKind⟩

theorem Typed.addressAt (typed : m.Typed T ts) (at_depth : ts[d]? = some t) (reference : t.isRef = true) :
    m.addressAt d ≠ .error .typeMismatch := by
  have promised := typed.peek at_depth
  unfold Machine.addressAt
  cases found : m.peek d with
  | ref a => simp
  | _ =>
    -- a number does not have the type of a reference
    rw [found] at promised
    rw [show t = _ from promised] at reference
    cases reference

theorem Typed.objectAt (typed : m.Typed T ts) (at_depth : ts[d]? = some t) (reference : t.isRef = true) :
    m.objectAt d ≠ .error .typeMismatch := by
  intro refused
  rcases bind_eq_error refused with refused | ⟨a, -, refused⟩
  · exact typed.addressAt at_depth reference refused
  · split at refused
    · cases refused
    · cases refused

/-- An object that was found has the type on the stack of types, so that type is known in full. -/
theorem Typed.object (typed : m.Typed T ts) (balanced : m.Balanced hand) (at_depth : ts[d]? = some t)
    (answer : m.objectAt d = .ok o) : o.ty = t ∧ Ty.ref ∉ t.parts ∧ o.Filled m.heap := by
  obtain ⟨a, top, found⟩ := objectAt_eq_ok answer
  have promised := typed.peek at_depth
  rw [top] at promised
  have same := promised.object balanced.heap found
  exact ⟨same, same ▸ typed.heap.plain a o found, typed.heap.filled a o found⟩

/-- Values can be read as what accepts their types. -/
theorem readAll_of_accepts {vs : List Value} (below : List Ty) (accepts : Scope.Accepts ts us)
    (typed : List.Forall₂ (Value.HasTy m.heap) vs (us ++ below)) (live : ∀ v ∈ vs, m.Live v) :
    ∃ ws, m.readAll ts vs = .ok ws :=
  readAll_of_kinds below accepts (typed.imp fun _ _ promised => promised.hasKind) live

/-- What values are read as has the types they are read for. -/
theorem hasTy_readAll {vs ws : List Value} (heap : m.heap.Typed) (accepts : Scope.Accepts ts us)
    (typed : List.Forall₂ (Value.HasTy m.heap) vs us) (known : ∀ t ∈ ts, t ≠ .ref)
    (read : m.readAll ts vs = .ok ws) : List.Forall₂ (Value.HasTy m.heap) ws ts := by
  induction accepts generalizing vs ws with
  | nil =>
    rw [readAll_nil read]
    exact .nil
  | cons first others ih =>
    cases typed with
    | cons promised more =>
      obtain ⟨w, rest, rfl, head, tail⟩ := readAll_cons read
      exact .cons (promised.read heap first (known _ (by simp)) head)
        (ih more (fun t mem => known t (by simp [mem])) tail)

/-- Values have the types that accept theirs. -/
theorem hasTy_of_accepts {vs : List Value} (heap : m.heap.Typed) (accepts : Scope.Accepts ts us)
    (typed : List.Forall₂ (Value.HasTy m.heap) vs us) (known : ∀ t ∈ ts, t ≠ .ref) :
    List.Forall₂ (Value.HasTy m.heap) vs ts := by
  induction accepts generalizing vs with
  | nil => exact typed
  | cons first others ih =>
    cases typed with
    | cons promised more =>
      exact .cons (promised.accepted heap first (known _ (by simp)))
        (ih more fun t mem => known t (by simp [mem]))

/-! ### Changes -/

theorem Typed.subset {h : Heap} (typed : m.Typed T ts)
    (subset : ∀ a o, h.get? a = some o → m.heap.get? a = some o) : Typed { m with heap := h } T ts :=
  ⟨typed.toAgrees.subset subset, typed.heap.subset subset⟩

theorem Typed.withStack {stack : List Value} (typed : m.Typed T ts)
    (promised : List.Forall₂ (Value.HasTy m.heap) stack us) : Typed { m with stack } T us :=
  ⟨typed.toAgrees.withStack promised, typed.heap⟩

theorem Typed.setIp (typed : m.Typed T ts) (ip : Nat) : (m.setIp ip).Typed T ts := by
  refine ⟨typed.toAgrees.setIp ip, ?_⟩
  rw [setIp_eq]
  exact typed.heap

theorem Typed.retain (typed : m.Typed T ts) (v : Value) : (m.retain v).Typed T ts :=
  typed.subset fun a o found => by rwa [Heap.get?_retainValue] at found

theorem Typed.releaseAll (typed : m.Typed T ts) (vs : List Value) : (m.releaseAll vs).Typed T ts :=
  typed.subset fun _ _ => Heap.get?_of_releaseValues

theorem Typed.release (typed : m.Typed T ts) (v : Value) : (m.release v).Typed T ts :=
  typed.releaseAll [v]

theorem Typed.pushed (typed : m.Typed T ts) (promised : v.HasTy m.heap t) :
    (m.pushed v).Typed T (t :: ts) := typed.withStack (.cons promised typed.stack)

theorem Typed.dropped (typed : m.Typed T ts) (n : Nat) : (m.dropped n).Typed T (ts.drop n) :=
  typed.withStack (List.forall₂_drop n typed.stack)

theorem Typed.discarded (typed : m.Typed T ts) (n : Nat) : (m.discarded n).Typed T (ts.drop n) :=
  (typed.dropped n).releaseAll _

/-- A new object with contents that are alive. -/
theorem Typed.pushedObject (typed : m.Typed T ts) (balanced : m.Balanced hand)
    (plain : Ty.ref ∉ o.ty.parts) (filled : o.Filled m.heap)
    (live : ∀ a, 0 < a → a ∈ o.children → m.Live (.ref a)) : (m.pushedObject o).Typed T (o.ty :: ts) := by
  have wf := balanced.heap
  have fresh : (Value.ref (m.heap.alloc o).1).HasTy (m.heap.alloc o).2 o.ty :=
    .of_object (wf.alloc_fresh o).1 (by rw [wf.get?_alloc, if_pos rfl])
  refine ⟨typed.toAgrees.pushedObject balanced fresh, ?_⟩
  -- everything the machine holds is alive, so the new slot is in nobody's hands
  refine typed.heap.alloc wf plain (fun b o' found a pos child => ?_) ?_
  · exact balanced.live_of_child found (fun c _ same => by cases same; exact child) a pos rfl
  · refine filled.imp fun v t child promised => promised.alloc wf (fun a pos same => ?_) o
    exact live a pos (child a pos same) a pos rfl

theorem Typed.pushedRead (typed : m.Typed T ts) (balanced : m.Balanced hand)
    (promised : v.HasTy m.heap t) : (m.pushedRead v).Typed T (t :: ts) := by
  unfold Machine.pushedRead
  split
  · next n =>
    split
    · exact typed.pushed promised
    -- a wide integer becomes an object that has the type of the number
    · rw [show t = .scalar .i64 from promised]
      exact typed.pushedObject (o := .int64 n) balanced (by simp [Object.ty, Ty.parts]) trivial nofun
  · exact typed.pushed promised.canonical

/-- A result takes the place of `n` operands. -/
theorem Typed.replaced (typed : m.Typed T ts) (balanced : m.Balanced hand) (promised : v.HasTy m.heap t)
    (n : Nat) : (m.replaced n v).Typed T (t :: ts.drop n) := by
  refine (typed.discarded n).pushedRead (balanced.discarded n) (promised.within ?_)
  exact Heap.within_of_subset fun _ _ => Heap.get?_of_releaseValues

theorem Typed.setGlobal (typed : m.Typed T ts) (known : T.get? i = some t) (promised : v.HasTy m.heap t) :
    (m.setGlobal i v).Typed T ts := by
  refine ⟨typed.toAgrees.setGlobal known promised, ?_⟩
  -- what the global held before is released
  unfold Machine.setGlobal
  cases m.globals.get? i with
  | some w => exact typed.heap.subset fun _ _ => @Heap.get?_of_releaseValues _ [w] _ _
  | none => exact typed.heap

theorem Typed.setPlace (typed : m.Typed T ts) (promised : v.HasTy m.heap t) (place : Nat) :
    (m.setPlace place v).Typed T (ts.set (ts.length - 1 - place) t) :=
  ⟨typed.toAgrees.setPlace promised place,
    typed.heap.subset fun _ _ => @Heap.get?_of_releaseValues _ [m.peek (m.fromTop place)] _ _⟩

/-- An object changes its contents. -/
theorem Typed.update {f : Object → Object} (typed : m.Typed T ts) (found : m.heap.get? a = some o)
    (ty : (f o).ty = o.ty) (filled : (f o).Filled m.heap) :
    Typed { m with heap := m.heap.update a f } T ts :=
  ⟨typed.toAgrees.update found ty, typed.heap.update found ty filled⟩

end Machine

end StackVM
