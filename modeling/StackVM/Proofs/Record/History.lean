import Mathlib.Data.List.Induction
import StackVM.Proofs.Record.Fields

/-!
# What a struct remembers

The layout of a struct leaves room for each field, and what happens to one field happens to no other. Main
statement: `fields_last_stored`. For every list of field types the layout is a tidy one, and after any values
were stored in a fresh struct each field holds the last one that was stored in it, or zero, and the addresses
that the struct reports are those of its reference fields that are not null, in the order of the fields.

The layout is an induction over the fields, with the end of the field before as the start of the next
(`place_aligned`); the history one over the stores, with one store as the step (`get?_set`).
-/

namespace StackVM

/-- The fields lie at multiples of their widths and one after the other, inside a buffer whose size is a
multiple of eight. -/
structure Layout.Tidy (l : Layout) (fields : List Ty) : Prop where
  length : l.offsets.length = fields.length
  aligned : ∀ (i : Nat) (t : Ty) (offset : Nat), fields[i]? = some t → l.offsets[i]? = some offset →
    t.kind.width ∣ offset
  inside : ∀ (i : Nat) (t : Ty) (offset : Nat), fields[i]? = some t → l.offsets[i]? = some offset →
    offset + t.kind.width ≤ l.size
  apart : ∀ (i j : Nat) (t : Ty) (offset offset' : Nat), i < j → fields[i]? = some t →
    l.offsets[i]? = some offset → l.offsets[j]? = some offset' → offset + t.kind.width ≤ offset'
  rounded : 8 ∣ l.size

namespace Layout

theorem dvd_alignUp (n step : Nat) : step ∣ alignUp n step := Nat.dvd_mul_left step _

theorem place_aligned {start : Nat} {ks : List Kind} {i offset : Nat} {k : Kind}
    (at_i : (place start ks).1[i]? = some offset) (kind : ks[i]? = some k) : k.width ∣ offset := by
  induction ks generalizing start i with
  | nil => simp at kind
  | cons k' ks ih =>
    cases i with
    | zero =>
      simp only [place, List.getElem?_cons_zero, Option.some.injEq] at at_i kind
      subst at_i kind
      exact dvd_alignUp start k'.width
    | succ i =>
      simp only [place, List.getElem?_cons_succ] at at_i kind
      exact ih at_i kind

theorem tidy_ofFields (fields : List Ty) : (ofFields fields).Tidy fields where
  length := length_offsets fields
  aligned i t offset field at_i := by
    have kind : (fields.map Ty.kind)[i]? = some t.kind := by simp [field]
    exact @place_aligned 0 _ _ _ _ at_i kind
  inside _ _ _ field at_i := offset_within at_i field
  apart _ _ _ _ _ before field at_i at_j := offset_disjoint at_i field at_j before
  rounded := dvd_alignUp _ 8

end Layout

namespace Record

variable {r : Record} {fields : List Ty} {i : Nat} {t : Ty} {v : Value} {stores : List (Nat × Value)}

/-- Stores values in fields, the first of the list first. -/
def setAll (r : Record) (stores : List (Nat × Value)) : Record :=
  stores.foldl (fun r (i, v) => r.set i v) r

/-- The value may be stored in field `i`: there is one, and it has the kind of the value. -/
def Admits (fields : List Ty) (i : Nat) (v : Value) : Prop :=
  ∃ t, fields[i]? = some t ∧ v.kind = t.kind ∧ v.Storable

/-! ### Stores -/

/-- One store changes what one field holds. -/
theorem get?_set (wf : r.WellFormed) (admitted : Admits r.fields i v) (j : Nat) :
    (r.set i v).get? j = if j = i then some v else r.get? j := by
  obtain ⟨t, field, kind, storable⟩ := admitted
  split
  · next same =>
    subst same
    exact get?_set_self wf field kind storable
  · next other => exact get?_set_ne wf field kind (Ne.symm other)

theorem setAll_concat (r : Record) (stores : List (Nat × Value)) (i : Nat) (v : Value) :
    r.setAll (stores ++ [(i, v)]) = (r.setAll stores).set i v := by
  simp [setAll]

/-- Stores that are admitted keep the types of the fields and fill the same buffer. -/
theorem wellFormed_setAll (admitted : ∀ i v, (i, v) ∈ stores → Admits fields i v) :
    ((zero fields).setAll stores).WellFormed ∧ ((zero fields).setAll stores).fields = fields := by
  induction stores using List.reverseRecOn with
  | nil => exact ⟨wellFormed_zero fields, rfl⟩
  | append_singleton stores last ih =>
    obtain ⟨i, v⟩ := last
    obtain ⟨wf, same⟩ := ih fun j w mem => admitted j w (List.mem_append_left _ mem)
    obtain ⟨t, field, kind, -⟩ := admitted i v (by simp)
    rw [setAll_concat]
    exact ⟨wf.set (by rwa [same]) kind, by rw [fields_set, same]⟩

/-- A field holds the last value that was stored in it, or else zero. -/
theorem get?_setAll (admitted : ∀ i v, (i, v) ∈ stores → Admits fields i v) (j : Nat) :
    ((zero fields).setAll stores).get? j =
      fields[j]?.map fun t => (stores.reverse.lookup j).getD (Value.zero t.kind) := by
  induction stores using List.reverseRecOn with
  | nil => exact get?_zero fields j
  | append_singleton stores last ih =>
    obtain ⟨i, v⟩ := last
    have earlier : ∀ i v, (i, v) ∈ stores → Admits fields i v :=
      fun j w mem => admitted j w (List.mem_append_left _ mem)
    obtain ⟨wf, same⟩ := wellFormed_setAll earlier
    have now := admitted i v (by simp)
    rw [setAll_concat, get?_set wf (by rwa [same]) j, ih earlier, List.reverse_concat, List.lookup_cons]
    -- the last store is the first that is looked up
    by_cases here : j = i
    · obtain ⟨t, field, -⟩ := now
      simp [here, field]
    · rw [if_neg here, beq_false_of_ne here]

/-! ### Addresses -/

/-- The addresses among values are those of the references that are not null. -/
theorem map_ref_addresses (vs : List Value) :
    (Value.addresses vs).map Value.ref = vs.filter fun v => v.isRef && v != .null := by
  induction vs with
  | nil => rfl
  | cons v vs ih =>
    cases v with
    | ref a =>
      cases a with
      | zero => exact ih
      | succ a => exact congrArg (Value.ref (a + 1) :: ·) ih
    | _ => exact ih

/-- The addresses of a struct are what its reference fields hold, in the order of the fields, null left
out. -/
theorem map_get?_addresses (wf : r.WellFormed) :
    r.addresses.map (fun a => some (Value.ref a)) =
      ((List.range r.fields.length).filter fun i =>
        r.fields[i]?.any Ty.isRef && r.get? i != some .null).map r.get? := by
  -- every field has a value
  have all : r.values.map some = (List.range r.fields.length).map r.get? := by
    apply List.ext_getElem?
    intro i
    rw [List.getElem?_map, getElem?_values wf, List.getElem?_map]
    by_cases inside : i < r.fields.length
    · obtain ⟨v, value⟩ := Option.isSome_iff_exists.1 ((get?_isSome wf i).2 inside)
      simp [List.getElem?_range inside, value]
    · have none : r.get? i = none := by simpa using (get?_isSome wf i).not.2 inside
      simp [none, inside]
  have picked : (r.values.filter fun v => v.isRef && v != .null).map some =
      (r.values.map some).filter fun place => place.any fun v => v.isRef && v != .null := by
    rw [List.filter_map]
    rfl
  have refs : r.addresses.map (fun a => some (Value.ref a)) =
      (r.values.filter fun v => v.isRef && v != .null).map some := by
    rw [← map_ref_addresses, List.map_map]
    rfl
  rw [refs, picked, all, List.filter_map]
  congr 1
  refine List.filter_congr fun i inside => ?_
  -- what a field holds is a reference exactly if the field is for references
  have bound := List.mem_range.1 inside
  obtain ⟨v, value⟩ := Option.isSome_iff_exists.1 ((get?_isSome wf i).2 bound)
  have field := List.getElem?_eq_getElem bound
  have kind := kind_get? field value
  simp only [Function.comp_apply, value, field, Option.any_some, Value.isRef, Ty.isRef, kind]
  rfl

/-! ### The whole history -/

/-- The layout of a struct is tidy, whatever its fields are. After any stores of values of the right kinds in a
fresh struct each field holds the value that was stored in it last, bit for bit, or zero if there was none;
another store changes that field and no other; and the addresses that the struct reports are those of its
reference fields that are not null, in the order of the fields. -/
theorem fields_last_stored (fields : List Ty) :
    (Layout.ofFields fields).Tidy fields ∧
    ∀ stores : List (Nat × Value), (∀ i v, (i, v) ∈ stores → Admits fields i v) →
      (∀ i, ((zero fields).setAll stores).get? i =
        fields[i]?.map fun t => (stores.reverse.lookup i).getD (Value.zero t.kind)) ∧
      (∀ i v, Admits fields i v → ∀ j, (((zero fields).setAll stores).set i v).get? j =
        if j = i then some v else ((zero fields).setAll stores).get? j) ∧
      ((zero fields).setAll stores).addresses.map (fun a => some (Value.ref a)) =
        ((List.range fields.length).filter fun i =>
          fields[i]?.any Ty.isRef && ((zero fields).setAll stores).get? i != some .null).map
            ((zero fields).setAll stores).get? := by
  refine ⟨Layout.tidy_ofFields fields, fun stores admitted => ?_⟩
  obtain ⟨wf, same⟩ := wellFormed_setAll admitted
  refine ⟨get?_setAll admitted, fun i v now j => get?_set wf (by rwa [same]) j, ?_⟩
  have addresses := map_get?_addresses wf
  rwa [same] at addresses

/-- Fields of all widths, with gaps between them. -/
def mixed : List Ty := [.scalar .i32, .scalar .f64, .string, .scalar .f32, .scalar .i64, .array .ref]

/-- Two values for the second field, a NaN for the fourth, and an address in the last. -/
def mixedStores : List (Nat × Value) :=
  [(1, .f64 ⟨0x4004000000000000⟩), (5, .ref 7), (3, .f32 ⟨0xFFC00001⟩), (1, .f64 ⟨0x7FF0000000000001⟩)]

theorem mixed_last_stored :
    (∀ i v, (i, v) ∈ mixedStores → Admits mixed i v) ∧ Admits mixed 2 (.ref 9) ∧
      (List.range 6).map ((zero mixed).setAll mixedStores).get? =
        [some (.i32 0), some (.f64 ⟨0x7FF0000000000001⟩), some .null, some (.f32 ⟨0xFFC00001⟩),
          some (.i64 0), some (.ref 7)] ∧
      (((zero mixed).setAll mixedStores).set 2 (.ref 9)).get? 5 = some (.ref 7) ∧
      ((zero mixed).setAll mixedStores).addresses.map (fun a => some (Value.ref a)) = [some (.ref 7)] := by
  have admitted : ∀ i v, (i, v) ∈ mixedStores → Admits mixed i v := by
    intro i v mem
    simp only [mixedStores, List.mem_cons, Prod.mk.injEq, List.not_mem_nil, or_false] at mem
    rcases mem with ⟨rfl, rfl⟩ | ⟨rfl, rfl⟩ | ⟨rfl, rfl⟩ | ⟨rfl, rfl⟩
    · exact ⟨.scalar .f64, rfl, rfl, by decide⟩
    · exact ⟨.array .ref, rfl, rfl, by decide⟩
    · exact ⟨.scalar .f32, rfl, rfl, by decide⟩
    · exact ⟨.scalar .f64, rfl, rfl, by decide⟩
  have now : Admits mixed 2 (.ref 9) := ⟨.string, rfl, rfl, by decide⟩
  obtain ⟨-, history⟩ := fields_last_stored mixed
  obtain ⟨held, changed, traced⟩ := history mixedStores admitted
  have places : (List.range 6).map ((zero mixed).setAll mixedStores).get? =
      [some (.i32 0), some (.f64 ⟨0x7FF0000000000001⟩), some .null, some (.f32 ⟨0xFFC00001⟩),
        some (.i64 0), some (.ref 7)] := by
    rw [funext held]
    decide
  refine ⟨admitted, now, places, ?_, ?_⟩
  · rw [changed 2 (.ref 9) now 5, held]
    decide
  · rw [traced, funext held]
    decide

end Record

end StackVM
