import StackVM.Proofs.Machine.Contents

/-!
# Objects stay well formed

Nothing is asked of the code: it may store anything anywhere, reuse slots and fail midway. Still arrays hold
what their types say, structs fill their buffers, and no object holds a dangling reference. Main statement:
`objects_wellFormed`. That what an object holds is counted, and so is live, is part of the exact reference
counts (`Balanced`); that the elements of arrays fit is part of `Fitting`.
-/

namespace StackVM

/-- Null is nobody's child. -/
theorem Object.children_pos {o : Object} {a : Nat} (child : a ∈ o.children) : 0 < a := by
  have pos {vs : List Value} (mem : a ∈ Value.addresses vs) : 0 < a := by
    obtain ⟨v, -, address⟩ := List.mem_filterMap.1 mem
    split at address
    · cases address
      exact Nat.succ_pos _
    · cases address
  cases o with
  | array elem elems => exact pos child
  | struct r => exact pos child
  | closure f captures => exact pos child
  | _ => cases child

namespace Machine

variable {p : Program} {o : Options} {m : Machine} {hand : List Value} {obj : Object} {a b : Nat}

/-- What a live object holds is live. -/
theorem Balanced.child_live (balanced : m.Balanced hand) (found : m.heap.get? a = some obj)
    (child : b ∈ obj.children) (pos : 0 < b) : ∃ o, m.heap.get? b = some o := by
  have live : m.Live (.ref b) := by
    apply balanced.live_of_child found
    rintro _ _ ⟨rfl⟩
    exact child
  exact live b pos rfl

/-- An element of a live array has the kind of the element type, or refers to a live integer. -/
theorem Fitting.element {elem : Ty} {elems : Array Value} {v : Value} (fitting : m.Fitting)
    (balanced : m.Balanced hand) (found : m.heap.get? a = some (.array elem elems)) (member : v ∈ elems) :
    v.kind = elem.kind ∨
      elem.kind = .scalar .i64 ∧ ∃ b n, v = .ref b ∧ m.heap.get? b = some (.int64 n) := by
  rcases (fitting.objects a _ found v member).2 with same | ⟨wide, b, pos, rfl, integer⟩
  · exact .inl same
  · -- the array keeps the integer alive
    have child : b ∈ (Object.array elem elems).children :=
      Value.mem_addresses pos (Array.mem_toList_iff.2 member)
    obtain ⟨obj, at_b⟩ := balanced.child_live found child pos
    obtain ⟨n, rfl⟩ := integer obj at_b
    exact .inr ⟨wide, b, n, rfl, at_b⟩

/-- A reference field of a live struct is null or names a live slot. -/
theorem Balanced.field {r : Record} {i : Nat} {t : Ty} (balanced : m.Balanced hand)
    (found : m.heap.get? a = some (.struct r)) (at_field : r.fields[i]? = some t)
    (reference : t.isRef = true) :
    ∃ b, r.get? i = some (.ref b) ∧ (b = 0 ∨ ∃ o, m.heap.get? b = some o) := by
  have inside : i < r.fields.length := (List.getElem?_eq_some_iff.1 at_field).1
  obtain ⟨v, value⟩ := Option.isSome_iff_exists.1 ((Record.get?_isSome (balanced.sound a _ found) i).2 inside)
  have kind := Record.kind_get? at_field value
  have live := balanced.live_field found value
  cases v with
  | ref b =>
    refine ⟨b, value, ?_⟩
    rcases Nat.eq_zero_or_pos b with rfl | pos
    · exact .inl rfl
    · exact .inr (live b pos rfl)
  | _ =>
    rw [Ty.isRef, ← kind] at reference
    cases reference

/-- Whatever the code of a program without host functions is, in every state every live object is well
formed. The elements of an array have the kind of its element type, or, in an array of integers, refer to
live integers; the buffer of a struct has the size of its layout, with each reference field null or naming a
live slot; and every reference that an object holds names a live slot. -/
theorem objects_wellFormed (guest : ∀ c ∈ p.constants, c.isHost = false) (reached : Reachable p o m)
    (found : m.heap.get? a = some obj) :
    (∀ elem elems v, obj = .array elem elems → v ∈ elems →
      v.kind = elem.kind ∨
        elem.kind = .scalar .i64 ∧ ∃ b n, v = .ref b ∧ m.heap.get? b = some (.int64 n)) ∧
    (∀ r, obj = .struct r →
      r.data.length = r.layout.size ∧
        ∀ i t, r.fields[i]? = some t → t.isRef = true →
          ∃ b, r.get? i = some (.ref b) ∧ (b = 0 ∨ ∃ o, m.heap.get? b = some o)) ∧
    ∀ b ∈ obj.children, 0 < b ∧ ∃ o, m.heap.get? b = some o := by
  have balanced := (steady_reachable guest reached).balanced
  have fitting := fitting_reachable guest reached
  refine ⟨?_, ?_, ?_⟩
  · rintro elem elems v rfl member
    exact fitting.element balanced found member
  · rintro r rfl
    have filled : r.WellFormed := balanced.sound a _ found
    exact ⟨filled, fun i t at_field reference => balanced.field found at_field reference⟩
  · intro b child
    have pos := Object.children_pos child
    exact ⟨pos, balanced.child_live found child pos⟩

/-- A program that puts an integer too wide for a word into an array and the array into a struct. -/
def nesting : Program :=
  { code := Instruction.assemble
      [⟨.const .i64, [2 ^ 60]⟩, ⟨.const .i64, [5]⟩, ⟨.arrayNew, [0, 2]⟩, ⟨.structNew, [1]⟩]
    constants := #[]
    types := #[.array (.scalar .i64), .struct [.array (.scalar .i64)]] }

/-- After that program the first element of the array is a live integer, and the struct holds a live
object. -/
theorem nesting_wellFormed :
    (∃ n, (leftBy (Exec.run 5 (load nesting {}))).heap.get? 1 = some (.int64 n)) ∧
      ∃ o, (leftBy (Exec.run 5 (load nesting {}))).heap.get? 2 = some o := by
  have guest : ∀ c ∈ nesting.constants, c.isHost = false := by simp [nesting]
  have reached : Reachable nesting {} (leftBy (Exec.run 5 (load nesting {}))) := .run 5 .load
  -- the array is the second object, and the struct the third
  obtain ⟨first, integers, held⟩ :
      ((leftBy (Exec.run 5 (load nesting {}))).heap.get? 2).bind (·.element? 0) = some (.ref 1) ∧
        (((leftBy (Exec.run 5 (load nesting {}))).heap.get? 2).bind (·.ty.elem?)).map Ty.kind =
          some (.scalar .i64) ∧
        ((leftBy (Exec.run 5 (load nesting {}))).heap.get? 3).map Object.children = some [2] := by
    decide +kernel
  constructor
  · obtain ⟨obj, found, element⟩ := Option.bind_eq_some_iff.1 first
    rw [found] at integers
    cases obj with
    | array elem elems =>
      have wide : elem.kind = .scalar .i64 := Option.some.inj integers
      rcases (objects_wellFormed guest reached found).1 elem elems _ rfl (Array.mem_of_getElem? element) with
        same | ⟨-, b, n, eq, integer⟩
      · cases same.trans wide
      · cases eq
        exact ⟨n, integer⟩
    | packed q => exact absurd (Packed.kind_get? element) (by simp [Value.kind])
    | _ => cases element
  · obtain ⟨obj, found, children⟩ := Option.map_eq_some_iff.1 held
    exact ((objects_wellFormed guest reached found).2.2 2 (by simp [children])).2

end Machine

end StackVM
