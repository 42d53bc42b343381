import StackVM.Proofs.Machine.Ownership
import StackVM.Proofs.Verifier.Transfer
import StackVM.Verifier.Bounds

/-!
# Values of static types

`Value.HasTy` says that a value may stand where a static type is promised, and `Heap.Typed` that all
objects keep the promises of their own types and hide none of them behind an unknown reference. A wide
integer on the heap has the type of a number. Main statements: values keep their types when objects go
away or change their contents (`HasTy.within`), and when others appear (`HasTy.alloc`, which rests on
the value being alive), and a value of a type can be read as every type that accepts it
(`Machine.read_of_hasTy`, `HasTy.read`).
-/

namespace StackVM

namespace Ty

theorem kind_of_accepts {t u : Ty} (accepted : t.accepts u = true) : u.kind = t.kind := by
  unfold accepts at accepted
  split at accepted
  · next unknown =>
    subst unknown
    exact eq_of_beq accepted
  -- the unknown reference on either side, or two equal types
  · split at accepted
    · next unknown =>
      subst unknown
      exact (eq_of_beq accepted).symm
    · rw [of_decide_eq_true accepted]

/-- A type that accepts another one and is no unknown reference is the same type, or accepts every
reference that is unknown. -/
theorem eq_or_of_accepts {t u : Ty} (accepted : t.accepts u = true) (known : t ≠ .ref) :
    t = u ∨ (u = .ref ∧ t.isRef = true) := by
  unfold accepts at accepted
  rw [if_neg known] at accepted
  split at accepted
  · next unknown => exact .inr ⟨unknown, accepted⟩
  · exact .inl (of_decide_eq_true accepted)

theorem ne_ref_of_part {t u : Ty} (plain : Ty.ref ∉ t.parts) (part : u ∈ t.parts) : u ≠ .ref := by
  rintro rfl
  exact plain part

theorem param_mem_parts {params returns : List Ty} {t : Ty} (param : t ∈ params) :
    t ∈ (Ty.function params returns).parts := by
  simp only [parts, List.mem_cons, List.mem_append, mem_partsAll]
  exact .inr (.inl ⟨t, param, self_mem_parts t⟩)

end Ty

/-! ### Values -/

/-- The value may stand where the type is promised: a number has the type of its kind, null has every
reference type, and a reference to a live object has the type of the object. -/
def Value.HasTy (h : Heap) : Value → Ty → Prop
  | .ref 0, t => t.isRef = true
  | .ref (a + 1), t => ∀ o, h.get? (a + 1) = some o → o.ty = t
  | v, t => t = .ofKind v.kind

/-- Every object of the first heap is in the second too, with the same type. -/
def Heap.Within (h' h : Heap) : Prop :=
  ∀ a o, h'.get? a = some o → ∃ o', h.get? a = some o' ∧ o'.ty = o.ty

namespace Value.HasTy

variable {h h' : Heap} {v : Value} {t u : Ty}

theorem number {s : Scalar} (kind : v.kind = .scalar s) : v.HasTy h (.scalar s) := by
  cases v with
  | ref a => cases kind
  | _ => exact (congrArg Ty.ofKind kind).symm

/-- A word keeps the type of a value. -/
theorem canonical (typed : v.HasTy h t) : v.canonical.HasTy h t := by cases v <;> exact typed

theorem null (reference : t.isRef = true) : Value.null.HasTy h t := reference

theorem zero (t : Ty) : (Value.zero t.kind).HasTy h t := by
  cases t with
  | scalar s => exact number (Value.kind_ofRaw _ _)
  | _ => exact null rfl

theorem of_object {a : Nat} {o : Object} (pos : 0 < a) (found : h.get? a = some o) :
    (Value.ref a).HasTy h o.ty := by
  cases a with
  | zero => cases pos
  | succ a =>
    intro o' found'
    rw [found] at found'
    cases found'
    rfl

/-- The live object that a reference leads to has the type of the reference. -/
theorem object {a : Nat} {o : Object} (typed : (Value.ref a).HasTy h t) (wf : h.WellFormed)
    (found : h.get? a = some o) : o.ty = t := by
  cases a with
  | zero =>
    rw [wf.null.2] at found
    cases found
  | succ a => exact typed o found

theorem within (typed : v.HasTy h t) (fewer : h'.Within h) : v.HasTy h' t := by
  cases v with
  | ref a =>
    cases a with
    | zero => exact typed
    | succ a =>
      intro o found
      obtain ⟨o', before, same⟩ := fewer _ o found
      rw [← same]
      exact typed o' before
  | _ => exact typed

/-- A new object takes a slot to which no live value refers. -/
theorem alloc (typed : v.HasTy h t) (wf : h.WellFormed)
    (live : ∀ a, 0 < a → v = .ref a → ∃ o, h.get? a = some o) (o : Object) :
    v.HasTy (h.alloc o).2 t := by
  cases v with
  | ref a =>
    cases a with
    | zero => exact typed
    | succ a =>
      intro o' found
      rw [wf.get?_alloc] at found
      split at found
      · next fresh =>
        -- a fresh address was free, and a live one is not
        obtain ⟨there, present⟩ := live _ (Nat.succ_pos a) rfl
        rw [Nat.succ_eq_add_one, ← fresh, (wf.alloc_fresh o).2.2] at present
        cases present
      · exact typed o' found
  | _ => exact typed

end Value.HasTy

/-! ### Objects -/

/-- What the object holds has the types that its own type promises. -/
def Object.Filled (h : Heap) : Object → Prop
  | .array elem elems => ∀ v ∈ elems, v.HasTy h elem
  | .struct r => ∀ (i : Nat) (t : Ty) (v : Value), r.fields[i]? = some t → r.get? i = some v → v.HasTy h t
  | _ => True

/-- All objects keep the promises of their types, and no type of an object mentions an unknown
reference. -/
structure Heap.Typed (h : Heap) : Prop where
  plain : ∀ a o, h.get? a = some o → Ty.ref ∉ o.ty.parts
  filled : ∀ a o, h.get? a = some o → o.Filled h

namespace Object

variable {h h' : Heap} {o : Object} {v : Value} {elem : Ty} {i : Nat}

/-- What is promised of the values in an object is kept by whatever keeps it of all values it holds. -/
theorem Filled.imp (filled : o.Filled h)
    (keeps : ∀ (v : Value) (t : Ty), (∀ a, 0 < a → v = .ref a → a ∈ o.children) → v.HasTy h t →
      v.HasTy h' t) :
    o.Filled h' := by
  cases o with
  | array elem elems =>
    intro v mem
    refine keeps v elem (fun a pos same => ?_) (filled v mem)
    exact Value.mem_addresses pos (by simpa [same] using mem)
  | struct r =>
    intro i t v field value
    -- what a field holds is among the children of the struct
    exact keeps v t (fun a pos same => Record.address_of_field pos (same ▸ value)) (filled i t v field value)
  | _ => trivial

@[simp]
theorem ty_setElement (o : Object) (i : Nat) (v : Value) : (o.setElement i v).ty = o.ty := by
  cases o <;> rfl

@[simp]
theorem ty_setField (o : Object) (i : Nat) (v : Value) : (o.setField i v).ty = o.ty := by
  cases o with
  | struct r =>
    change Ty.struct (r.set i v).fields = .struct r.fields
    rw [Record.fields_set]
  | _ => rfl

/-- An element has the element type of the array. -/
theorem Filled.element (filled : o.Filled h) (array : o.ty.elem? = some elem)
    (element : o.element? i = some v) : v.HasTy h elem := by
  cases o with
  | packed p =>
    cases array
    exact .number (Packed.kind_get? element)
  | array elem' elems =>
    cases array
    exact filled v (Array.mem_of_getElem? element)
  | _ => cases element

theorem Filled.setElement (filled : o.Filled h) (array : o.ty.elem? = some elem)
    (typed : v.HasTy h elem) : (o.setElement i v).Filled h := by
  cases o with
  | array elem' elems =>
    cases array
    intro w mem
    -- an element of the changed array is an old one or the new one
    rcases Array.mem_or_eq_of_mem_setIfInBounds mem with old | rfl
    · exact filled w old
    · exact typed
  | struct r => exact filled
  | _ => trivial

/-- Storing a value in a field that has its type keeps the promises of all fields. -/
theorem filled_setField {r : Record} {t : Ty} (filled : (Object.struct r).Filled h) (wf : r.WellFormed)
    (field : r.fields[i]? = some t) (kind : v.kind = t.kind) (storable : v.Storable)
    (typed : v.HasTy h t) : (Object.struct (r.set i v)).Filled h := by
  intro j u w field' value
  rw [Record.fields_set] at field'
  by_cases here : i = j
  · subst here
    rw [field] at field'
    cases field'
    rw [Record.get?_set_self wf field kind storable] at value
    cases value
    exact typed
  · rw [Record.get?_set_ne wf field kind here] at value
    exact filled j u w field' value

/-- An array of zeros keeps the promises of its type. -/
theorem filled_zeroArray {t : Ty} {length : Nat} (made : Machine.zeroArray t length = .ok o) :
    o.ty = t ∧ o.Filled h := by
  cases t with
  | packed s =>
    cases made
    exact ⟨rfl, trivial⟩
  | array elem =>
    cases made
    refine ⟨rfl, fun v mem => ?_⟩
    rw [(Array.mem_replicate.1 mem).2]
    exact .zero elem
  | _ => cases made

theorem filled_zero (fields : List Ty) : (Object.struct (.zero fields)).Filled h := by
  intro i t v field value
  rw [Record.get?_zero, show fields[i]? = some t from field] at value
  cases value
  exact .zero t

end Object

namespace Heap

variable {h h' : Heap} {a : Nat} {o : Object}

theorem get?_retainValue (h : Heap) (v : Value) (a : Nat) : (h.retainValue v).get? a = h.get? a := by
  cases v with
  | ref b => exact get?_retain h b a
  | _ => rfl

theorem within_of_subset (subset : ∀ a o, h'.get? a = some o → h.get? a = some o) : h'.Within h :=
  fun a o found => ⟨o, subset a o found, rfl⟩

/-- Objects may go away. -/
theorem Typed.subset (typed : h.Typed) (subset : ∀ a o, h'.get? a = some o → h.get? a = some o) :
    h'.Typed where
  plain a o found := typed.plain a o (subset a o found)
  filled a o found := (typed.filled a o (subset a o found)).imp fun _ _ _ promised =>
    promised.within (within_of_subset subset)

theorem within_update {f : Object → Object} (found : h.get? a = some o) (ty : (f o).ty = o.ty) :
    (h.update a f).Within h := by
  intro b o' after
  rw [get?_update] at after
  split at after
  · next here =>
    subst here
    rw [found] at after
    cases after
    exact ⟨o, found, ty.symm⟩
  · exact ⟨o', after, rfl⟩

/-- An object may change its contents. -/
theorem Typed.update {f : Object → Object} (typed : h.Typed) (found : h.get? a = some o)
    (ty : (f o).ty = o.ty) (filled : (f o).Filled h) : (h.update a f).Typed := by
  -- the changed object keeps its type, so no promise is broken elsewhere
  have keeps (o' : Object) (filled : o'.Filled h) : o'.Filled (h.update a f) :=
    filled.imp fun _ _ _ promised => promised.within (within_update found ty)
  constructor
  · intro b o' after
    obtain ⟨o'', before, same⟩ := within_update found ty b o' after
    rw [← same]
    exact typed.plain b o'' before
  · intro b o' after
    rw [get?_update] at after
    split at after
    · next here =>
      subst here
      rw [found] at after
      cases after
      exact keeps _ filled
    · exact keeps _ (typed.filled b o' after)

/-- An object may appear, if what the heap holds is alive. -/
theorem Typed.alloc (typed : h.Typed) (wf : h.WellFormed) (plain : Ty.ref ∉ o.ty.parts)
    (live : ∀ b o', h.get? b = some o' → ∀ a, 0 < a → a ∈ o'.children → ∃ o'', h.get? a = some o'')
    (filled : o.Filled (h.alloc o).2) : (h.alloc o).2.Typed := by
  constructor
  · intro b o' after
    rw [wf.get?_alloc] at after
    split at after
    · cases after
      exact plain
    · exact typed.plain b o' after
  · intro b o' after
    rw [wf.get?_alloc] at after
    split at after
    · cases after
      exact filled
    -- children of the objects that were there are alive, so none of them names the new slot
    · refine (typed.filled b o' after).imp fun v t child promised => ?_
      exact promised.alloc wf (fun a pos same => live b o' after a pos (child a pos same)) o

end Heap

/-! ### Reading -/

namespace Value.HasTy

variable {h : Heap} {m : Machine} {v w : Value} {t u : Ty}

/-- Where a type other than the unknown reference accepts, it stands for the value. -/
theorem accepted (typed : v.HasTy h u) (heap : h.Typed) (accepts : t.accepts u = true) (known : t ≠ .ref) :
    v.HasTy h t := by
  rcases Ty.eq_or_of_accepts accepts known with rfl | ⟨rfl, reference⟩
  · exact typed
  cases v with
  | ref a =>
    cases a with
    | zero => exact reference
    | succ a =>
      -- no object has the unknown type, so the reference leads nowhere
      intro o found
      have plain := heap.plain _ o found
      rw [typed o found] at plain
      exact absurd (Ty.self_mem_parts .ref) plain
  | _ => cases typed

/-- What a value is read as has the type it is read for. -/
theorem read (typed : v.HasTy m.heap u) (heap : m.heap.Typed) (accepts : t.accepts u = true)
    (known : t ≠ .ref) (read : m.read? t.kind v = some w) : w.HasTy m.heap t := by
  cases t with
  -- a wide integer is read as the number it stands for
  | scalar s => exact number (Machine.kind_of_read? read)
  | ref => exact absurd rfl known
  | _ =>
    rw [Machine.read?_ref read]
    exact typed.accepted heap accepts known

end Value.HasTy

namespace Machine

variable {m : Machine} {v : Value} {t u : Ty}

/-- A live value can be read as its own type. -/
theorem read_of_hasTy (typed : v.HasTy m.heap t) (live : m.Live v) : ∃ w, m.read? t.kind v = some w := by
  unfold read?
  cases v with
  | ref a =>
    cases a with
    | zero =>
      rw [show t.kind = .ref from eq_of_beq typed]
      exact ⟨_, rfl⟩
    | succ a =>
      -- a number behind a reference is a wide integer on the heap
      obtain ⟨o, found⟩ := live _ (Nat.succ_pos a) rfl
      rw [← typed o found]
      cases o with
      | int64 n => exact ⟨.i64 n, by simp [Object.ty, Ty.kind, int64?, found]⟩
      | _ => exact ⟨_, rfl⟩
  | i64 n =>
    rw [show t = .ofKind (.scalar .i64) from typed]
    exact ⟨.i64 n, rfl⟩
  | _ =>
    rw [show t = _ from typed]
    exact ⟨_, rfl⟩

theorem read_of_accepts (typed : v.HasTy m.heap u) (live : m.Live v) (accepts : t.accepts u = true) :
    ∃ w, m.read? t.kind v = some w := by
  rw [← Ty.kind_of_accepts accepts]
  exact read_of_hasTy typed live

end Machine

end StackVM
