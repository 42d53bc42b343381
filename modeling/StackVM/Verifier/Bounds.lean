import StackVM.Flow
import StackVM.Verifier.Rules

/-!
# The reach of the rules

Rules build no new types: what they push is a type of the program or a part of a type that they popped.
They keep the stack below its limit, and write only globals that some instruction names. So all states
of one function lie within finite `Bounds`, and the search over them ends.
-/

namespace StackVM

namespace Ty

/-! ### Parts of types -/

mutual

/-- The type and all types inside it. -/
def parts : Ty → List Ty
  | .array t => .array t :: t.parts
  | .struct fields => .struct fields :: partsAll fields
  | .function params returns => .function params returns :: (partsAll params ++ partsAll returns)
  | .packed s => [.packed s, .scalar s]
  | t => [t]

def partsAll : List Ty → List Ty
  | [] => []
  | t :: ts => t.parts ++ partsAll ts

end

theorem self_mem_parts (t : Ty) : t ∈ t.parts := by
  cases t <;> simp [parts]

theorem mem_partsAll {t : Ty} {ts : List Ty} : t ∈ partsAll ts ↔ ∃ u ∈ ts, t ∈ u.parts := by
  induction ts with
  | nil => simp [partsAll]
  | cons u us ih => simp [partsAll, ih]

mutual

theorem parts_trans {s t : Ty} : ∀ u : Ty, t ∈ u.parts → s ∈ t.parts → s ∈ u.parts
  | .scalar _, ht, hs => by simp_all [parts]
  | .ref, ht, hs => by simp_all [parts]
  | .string, ht, hs => by simp_all [parts]
  | .packed k, ht, hs => by
    rcases (by simpa [parts] using ht : t = .packed k ∨ t = .scalar k) with rfl | rfl
    · exact hs
    · simp_all [parts]
  | .array u, ht, hs => by
    rcases (by simpa [parts] using ht : t = .array u ∨ t ∈ u.parts) with rfl | ht
    · exact hs
    · simp [parts, parts_trans u ht hs]
  | .struct us, ht, hs => by
    rcases (by simpa [parts] using ht : t = .struct us ∨ t ∈ partsAll us) with rfl | ht
    · exact hs
    · simp [parts, partsAll_trans us ht hs]
  | .function ps rs, ht, hs => by
    rcases (by simpa [parts] using ht : t = .function ps rs ∨ t ∈ partsAll ps ∨ t ∈ partsAll rs) with
      rfl | ht | ht
    · exact hs
    · simp [parts, partsAll_trans ps ht hs]
    · simp [parts, partsAll_trans rs ht hs]

theorem partsAll_trans {s t : Ty} : ∀ us : List Ty, t ∈ partsAll us → s ∈ t.parts → s ∈ partsAll us
  | [], ht, _ => by simp [partsAll] at ht
  | u :: us, ht, hs => by
    rcases (by simpa [partsAll] using ht : t ∈ u.parts ∨ t ∈ partsAll us) with ht | ht
    · simp [partsAll, parts_trans u ht hs]
    · simp [partsAll, partsAll_trans us ht hs]

end

theorem elem_mem_parts {t e : Ty} (h : t.elem? = some e) : e ∈ t.parts := by
  cases t <;> simp_all [elem?, parts, self_mem_parts]

theorem field_mem_parts {t f : Ty} {fields : List Ty} (h : t.fields? = some fields)
    (hf : f ∈ fields) : f ∈ t.parts := by
  cases t <;> simp_all [fields?, parts]
  exact .inr (mem_partsAll.2 ⟨f, hf, self_mem_parts f⟩)

theorem return_mem_parts {t r : Ty} {signature : Signature} (h : t.signature? = some signature)
    (hr : r ∈ signature.returns) : r ∈ t.parts := by
  cases t <;> simp_all [signature?, parts]
  subst h
  exact .inr (.inr (mem_partsAll.2 ⟨r, hr, self_mem_parts r⟩))

end Ty

namespace Verifier

/-- What bounds the states of one function. -/
structure Bounds where
  /-- Types that can occur. -/
  types : List Ty
  /-- Greatest height of the stack. -/
  height : Nat
  /-- Every global that can be written has an index below this. -/
  indices : Nat

namespace Bounds

/-- The state lies within the bounds. -/
structure Holds (b : Bounds) (s : State) : Prop where
  stack : ∀ t ∈ s.stack, t ∈ b.types
  height : s.stack.length ≤ b.height
  recorded : ∀ i t, s.recorded.get? i = some t → t ∈ b.types
  indices : s.recorded.entries.length ≤ b.indices
  globals : ∀ i t, s.globals.get? i = some t → t ∈ b.types

/-- All that the rules push on their own account lies within the bounds, and parts of types within the
bounds do. -/
structure Covers (b : Bounds) (c : Scope) : Prop where
  kinds : ∀ k, Ty.ofKind k ∈ b.types
  string : Ty.string ∈ b.types
  types : ∀ (i : Nat) t, c.program.types[i]? = some t → t ∈ b.types
  constants : ∀ (i : Nat) k, c.program.constants[i]? = some k → k.ty ∈ b.types
  parts : ∀ t ∈ b.types, ∀ u ∈ t.parts, u ∈ b.types
  limit : c.maxStack ≤ b.height

/-- A rule stays within the bounds, and its answer has a property. -/
def Keeps {α : Type} (b : Bounds) (p : α → Prop) (r : Rule α) : Prop :=
  ∀ s a s', b.Holds s → r s = .ok (a, s') → p a ∧ b.Holds s'

variable {α β : Type} {b : Bounds} {c : Scope} {p : α → Prop} {q : β → Prop}

/-- Any answer will do. -/
abbrev Any : α → Prop := fun _ => True

theorem keeps_pure {a : α} (h : p a) : b.Keeps p (pure a) := by
  intro s a' s' hs hr
  cases (hr : Except.ok (a, s) = .ok (a', s'))
  exact ⟨h, hs⟩

theorem keeps_throw {e : Cause} : b.Keeps p (throw e : Rule α) := by
  intro s a s' _ hr
  cases (hr : Except.error e = .ok (a, s'))

theorem keeps_bind {r : Rule α} {f : α → Rule β} (hr : b.Keeps p r)
    (hf : ∀ a, p a → b.Keeps q (f a)) : b.Keeps q (r >>= f) := by
  intro s a s' hs h
  change Except.bind (r s) (fun v => f v.1 v.2) = .ok (a, s') at h
  cases hv : r s with
  | error e =>
    rw [hv] at h
    cases h
  | ok v =>
    rw [hv] at h
    obtain ⟨hp, hs'⟩ := hr s v.1 v.2 hs hv
    exact hf v.1 hp v.2 a s' hs' h

theorem keeps_get : b.Keeps b.Holds (get : Rule State) := by
  intro s a s' hs hr
  cases (hr : Except.ok (s, s) = .ok (a, s'))
  exact ⟨hs, hs⟩

theorem keeps_modify {f : State → State} (h : ∀ s, b.Holds s → b.Holds (f s)) :
    b.Keeps Any (modify f : Rule Unit) := by
  intro s a s' hs hr
  cases (hr : Except.ok ((), f s) = .ok (a, s'))
  exact ⟨trivial, h s hs⟩

theorem keeps_lift {e : Except Cause α} : b.Keeps Any (liftM e : Rule α) := by
  intro s a s' hs hr
  cases e with
  | error e => cases (hr : Except.error e = .ok (a, s'))
  | ok v =>
    cases (hr : Except.ok (v, s) = .ok (a, s'))
    exact ⟨trivial, hs⟩

theorem keeps_ite {d : Prop} [Decidable d] {r r' : Rule α} (h : d → b.Keeps p r)
    (h' : ¬d → b.Keeps p r') : b.Keeps p (if d then r else r') := by
  split
  · exact h ‹_›
  · exact h' ‹_›

/-! ### Demands and globals -/

theorem keeps_lookup {o : Option α} (h : ∀ a, o = some a → p a) : b.Keeps p (lookup o) := by
  cases o with
  | none => exact keeps_throw
  | some a => exact keeps_pure (h a rfl)

theorem keeps_part {o : Option α} (h : ∀ a, o = some a → p a) : b.Keeps p (part o) := by
  cases o with
  | none => exact keeps_throw
  | some a => exact keeps_pure (h a rfl)

theorem keeps_demand {condition : Bool} : b.Keeps Any (demand condition) :=
  keeps_ite (fun _ => keeps_pure trivial) fun _ => keeps_throw

theorem keeps_flow {t u : Ty} : b.Keeps Any (flow t u) := keeps_demand

/-- The answer is a type within the bounds. -/
abbrev Typed (b : Bounds) (t : Ty) : Prop := t ∈ b.types

theorem keeps_join (hc : b.Covers c) {t u : Ty} (ht : b.Typed t) : b.Keeps b.Typed (join t u) :=
  keeps_ite (fun _ => keeps_pure ht) fun _ =>
    keeps_ite (fun _ => keeps_pure (hc.kinds .ref)) fun _ => keeps_throw

theorem keeps_readGlobal {i : Nat} : b.Keeps b.Typed (readGlobal i) :=
  keeps_bind keeps_get fun _ hs => keeps_lookup fun t ht => hs.recorded i t ht

/-- A table with one more type within the bounds holds only such types. -/
theorem typed_put {table : Table Ty} {i : Nat} {t : Ty} (ht : b.Typed t)
    (h : ∀ j u, table.get? j = some u → u ∈ b.types) (j : Nat) (u : Ty)
    (hu : (table.put i t).get? j = some u) : u ∈ b.types := by
  rw [Table.get?_put] at hu
  split at hu
  · exact Option.some.inj hu ▸ ht
  · exact h j u hu

theorem keeps_recordGlobal {i : Nat} {t : Ty} (ht : b.Typed t) : b.Keeps b.Typed (recordGlobal i t) := by
  refine keeps_bind keeps_get fun s hs => ?_
  split
  · next known => exact keeps_bind keeps_flow fun _ _ => keeps_pure (hs.globals i _ known)
  · refine keeps_bind (keeps_modify fun s hs => ?_) fun _ _ => keeps_pure ht
    exact { hs with globals := typed_put ht hs.globals }

theorem keeps_writeGlobal {i : Nat} {t : Ty} (hi : i < b.indices) (ht : b.Typed t) :
    b.Keeps Any (writeGlobal i t) :=
  keeps_bind (keeps_recordGlobal ht) fun _ hu =>
    keeps_modify fun _ hs =>
      { hs with
        recorded := typed_put hu hs.recorded
        indices := Table.length_putList_le _ i b.indices _ hi hs.indices }

/-! ### Stack and locals -/

theorem keeps_push (hc : b.Covers c) {t : Ty} (ht : b.Typed t) : b.Keeps Any (c.push t) := by
  intro s a s' hs hr
  simp only [Scope.push] at hr
  split at hr
  · simp only [Except.ok.injEq, Prod.mk.injEq] at hr
    obtain ⟨-, rfl⟩ := hr
    refine ⟨trivial, { hs with stack := ?_, height := ?_ }⟩
    · simpa using ⟨ht, hs.stack⟩
    · have := hc.limit
      simp only [List.length_cons]
      omega
  · exact absurd hr (by simp)

theorem keeps_popAny : b.Keeps b.Typed c.popAny := by
  intro s a s' hs hr
  simp only [Scope.popAny] at hr
  split at hr
  · rename_i t rest h
    have hstack := hs.stack
    have hheight := hs.height
    rw [h] at hstack hheight
    split at hr
    · simp only [Except.ok.injEq, Prod.mk.injEq] at hr
      obtain ⟨rfl, rfl⟩ := hr
      refine ⟨hstack t (by simp), { hs with stack := ?_, height := ?_ }⟩
      · exact fun u hu => hstack u (by simp [hu])
      · simp only [List.length_cons] at hheight ⊢
        omega
    · exact absurd hr (by simp)
  · exact absurd hr (by simp)

theorem keeps_pop {t : Ty} : b.Keeps Any (c.pop t) :=
  keeps_bind keeps_popAny fun _ _ => keeps_flow

theorem keeps_popAll (ts : List Ty) : b.Keeps Any (c.popAll ts) := by
  induction ts with
  | nil => exact keeps_pure trivial
  | cons t ts ih => exact keeps_bind keeps_pop fun _ _ => ih

theorem keeps_unary (hc : b.Covers c) {t u : Ty} (hu : b.Typed u) : b.Keeps Any (c.unary t u) :=
  keeps_bind keeps_pop fun _ _ => keeps_push hc hu

theorem keeps_binary (hc : b.Covers c) {t u : Ty} (hu : b.Typed u) : b.Keeps Any (c.binary t u) :=
  keeps_bind keeps_pop fun _ _ => keeps_bind keeps_pop fun _ _ => keeps_push hc hu

theorem keeps_operate (hc : b.Covers c) (op : Operation) : b.Keeps Any (c.operate op) := by
  rw [Scope.operate_eq]
  exact keeps_bind (keeps_popAll _) fun _ _ => keeps_push hc (hc.kinds _)

theorem keeps_pushAll (hc : b.Covers c) {ts : List Ty} (h : ∀ t ∈ ts, b.Typed t) :
    b.Keeps Any (c.pushAll ts) := by
  induction ts with
  | nil => exact keeps_pure trivial
  | cons t ts ih =>
    exact keeps_bind (keeps_push hc (h t (by simp))) fun _ _ => ih fun u hu => h u (by simp [hu])

theorem keeps_checkLocal {i : Nat} : b.Keeps Any (c.checkLocal i) :=
  keeps_ite (fun _ => keeps_pure trivial) fun _ => keeps_throw

theorem keeps_readLocal {i : Nat} : b.Keeps b.Typed (Scope.readLocal i) :=
  keeps_bind keeps_get fun _ hs => keeps_lookup fun t ht => hs.stack t (List.mem_of_getElem? ht)

theorem keeps_writeLocal {i : Nat} {t : Ty} (ht : b.Typed t) :
    b.Keeps Any (Scope.writeLocal i t) :=
  keeps_modify fun s hs =>
    { hs with
      stack := fun u hu => (List.mem_or_eq_of_mem_set hu).elim (hs.stack u) (· ▸ ht)
      height := by simpa using hs.height }

theorem keeps_typeAt (hc : b.Covers c) {i : Nat} : b.Keeps b.Typed (c.typeAt i) :=
  keeps_lookup fun t ht => hc.types i t ht

theorem keeps_constantAt (hc : b.Covers c) {i : Nat} : b.Keeps b.Typed (c.constantAt i) := by
  refine keeps_lookup fun t ht => ?_
  obtain ⟨k, hk, rfl⟩ := Option.map_eq_some_iff.1 ht
  exact hc.constants i k hk

theorem keeps_elem (hc : b.Covers c) {t : Ty} (ht : b.Typed t) : b.Keeps b.Typed (part t.elem?) :=
  keeps_part fun _ he => hc.parts t ht _ (Ty.elem_mem_parts he)

/-- All members of the answer are within the bounds. -/
abbrev TypedAll (b : Bounds) (ts : List Ty) : Prop := ∀ t ∈ ts, b.Typed t

theorem keeps_fields (hc : b.Covers c) {t : Ty} (ht : b.Typed t) :
    b.Keeps b.TypedAll (part t.fields?) :=
  keeps_part fun _ hf _ hu => hc.parts t ht _ (Ty.field_mem_parts hf hu)

theorem keeps_signature (hc : b.Covers c) {t : Ty} (ht : b.Typed t) :
    b.Keeps (fun signature => b.TypedAll signature.returns) (part t.signature?) :=
  keeps_part fun _ hf _ hu => hc.parts t ht _ (Ty.return_mem_parts hf hu)

theorem keeps_field {ts : List Ty} (h : b.TypedAll ts) {i : Nat} :
    b.Keeps b.Typed (lookup ts[i]?) :=
  keeps_lookup fun t ht => h t (List.mem_of_getElem? ht)

/-! ### Instructions -/

/-- Every instruction that names an index below the bound stays within the bounds. -/
theorem keeps_apply (hc : b.Covers c) (inst : Instruction) (hi : inst.operand 0 < b.indices) :
    b.Keeps Any (c.apply inst) := by
  have i32 : b.Typed .i32 := hc.kinds (.scalar .i32)
  unfold Scope.apply
  split
  · exact keeps_pure trivial
  · exact keeps_pure trivial
  · exact keeps_pure trivial
  · exact keeps_pop
  · exact keeps_pop
  · exact keeps_bind keeps_popAny fun _ _ => keeps_pure trivial
  · exact keeps_bind keeps_popAny fun t ht => keeps_bind (keeps_push hc ht) fun _ _ => keeps_push hc ht
  · exact keeps_bind keeps_popAny fun u hu => keeps_bind keeps_popAny fun t ht =>
      keeps_bind (keeps_push hc hu) fun _ _ => keeps_push hc ht
  · exact keeps_bind keeps_pop fun _ _ => keeps_bind keeps_popAny fun u _ =>
      keeps_bind keeps_popAny fun t ht => keeps_bind (keeps_join hc ht) fun v hv => keeps_push hc hv
  · exact keeps_bind keeps_popAny fun t ht => keeps_bind (keeps_signature hc ht) fun _ hr =>
      keeps_bind (keeps_popAll _) fun _ _ => keeps_pushAll hc hr
  · exact keeps_bind keeps_get fun _ _ => keeps_lift
  · exact keeps_bind keeps_readGlobal fun t ht => keeps_push hc ht
  · exact keeps_bind keeps_popAny fun t ht => keeps_writeGlobal hi ht
  · exact keeps_bind keeps_popAny fun t ht => keeps_bind (keeps_push hc ht) fun _ _ =>
      keeps_writeGlobal hi ht
  · exact keeps_bind keeps_checkLocal fun _ _ => keeps_bind keeps_readLocal fun t ht => keeps_push hc ht
  · exact keeps_bind keeps_checkLocal fun _ _ => keeps_bind keeps_popAny fun t ht => keeps_writeLocal ht
  · exact keeps_bind keeps_checkLocal fun _ _ => keeps_bind keeps_popAny fun t ht =>
      keeps_bind (keeps_push hc ht) fun _ _ => keeps_writeLocal ht
  · exact keeps_bind (keeps_constantAt hc) fun t ht => keeps_push hc ht
  · exact keeps_push hc (hc.kinds .ref)
  · exact keeps_push hc (hc.kinds (.scalar _))
  · exact keeps_operate hc _
  · exact keeps_unary hc i32
  · exact keeps_binary hc hc.string
  · exact keeps_binary hc i32
  · exact keeps_binary hc i32
  · exact keeps_bind (keeps_typeAt hc) fun t ht => keeps_bind (keeps_elem hc ht) fun _ _ =>
      keeps_bind (keeps_popAll _) fun _ _ => keeps_push hc ht
  · exact keeps_bind (keeps_typeAt hc) fun t ht => keeps_bind (keeps_elem hc ht) fun _ _ =>
      keeps_bind keeps_pop fun _ _ => keeps_push hc ht
  · exact keeps_bind keeps_popAny fun t ht => keeps_bind keeps_demand fun _ _ => keeps_push hc i32
  · exact keeps_bind keeps_pop fun _ _ => keeps_bind keeps_popAny fun t ht =>
      keeps_bind (keeps_elem hc ht) fun u hu => keeps_push hc hu
  · exact keeps_bind keeps_popAny fun _ _ => keeps_bind keeps_pop fun _ _ =>
      keeps_bind keeps_popAny fun t ht => keeps_bind (keeps_elem hc ht) fun _ _ => keeps_flow
  · exact keeps_bind (keeps_typeAt hc) fun t ht => keeps_bind (keeps_fields hc ht) fun _ _ =>
      keeps_bind (keeps_popAll _) fun _ _ => keeps_push hc ht
  · exact keeps_bind (keeps_typeAt hc) fun t ht => keeps_bind (keeps_fields hc ht) fun _ _ =>
      keeps_push hc ht
  · exact keeps_bind keeps_popAny fun t ht => keeps_bind (keeps_fields hc ht) fun _ hf =>
      keeps_bind (keeps_field hf) fun u hu => keeps_push hc hu
  · exact keeps_bind keeps_popAny fun _ _ => keeps_bind keeps_popAny fun t ht =>
      keeps_bind (keeps_fields hc ht) fun _ hf => keeps_bind (keeps_field hf) fun _ _ => keeps_flow

end Bounds

end Verifier

end StackVM
