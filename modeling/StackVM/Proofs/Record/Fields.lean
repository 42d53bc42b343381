import Mathlib.Data.List.Basic
import StackVM.Bytes.Range
import StackVM.Record

/-!
# Fields of structs

The fields of a struct lie one after the other in its buffer, so storing a value in one field leaves the
others alone. Main statement: a struct whose buffer has the size of its layout is determined by the
values of its fields (`values_set`, `values_ofValues`).
-/

namespace StackVM

/-- The bits of the value fit the bytes that its kind takes in memory. Only an address can be too
large. -/
def Value.Storable (v : Value) : Prop := v.raw < 256 ^ v.kind.width

instance (v : Value) : Decidable v.Storable := Nat.decLt _ _

namespace Layout

/-! ### Places -/

theorem le_alignUp (n step : Nat) (pos : 0 < step) : n ≤ alignUp n step := by
  -- rounding up loses less than one step
  have split := Nat.div_add_mod (n + (step - 1)) step
  have small := Nat.mod_lt (n + (step - 1)) pos
  rw [Nat.mul_comm] at split
  simp only [alignUp]
  omega

theorem length_place (start : Nat) (ks : List Kind) : (place start ks).1.length = ks.length := by
  induction ks generalizing start with
  | nil => rfl
  | cons k ks ih => simp [place, ih]

theorem le_stop_place (start : Nat) (ks : List Kind) : start ≤ (place start ks).2 := by
  induction ks generalizing start with
  | nil => exact Nat.le_refl _
  | cons k ks ih =>
    have first := le_alignUp start k.width k.width_pos
    have rest := ih (alignUp start k.width + k.width)
    simp only [place]
    omega

/-- Every field lies between the start and the end of its list. -/
theorem place_within {start : Nat} {ks : List Kind} {i offset : Nat} {k : Kind}
    (at_i : (place start ks).1[i]? = some offset) (kind : ks[i]? = some k) :
    start ≤ offset ∧ offset + k.width ≤ (place start ks).2 := by
  induction ks generalizing start i with
  | nil => simp at kind
  | cons k' ks ih =>
    have first := le_alignUp start k'.width k'.width_pos
    cases i with
    | zero =>
      simp only [place, List.getElem?_cons_zero, Option.some.injEq] at at_i kind
      subst at_i kind
      have rest := le_stop_place (alignUp start k'.width + k'.width) ks
      simp only [place]
      omega
    | succ i =>
      simp only [place, List.getElem?_cons_succ] at at_i kind
      have rest := ih at_i kind
      simp only [place]
      omega

/-- A field ends before the next ones start. -/
theorem place_disjoint {start : Nat} {ks : List Kind} {i j offset offset' : Nat} {k : Kind}
    (at_i : (place start ks).1[i]? = some offset) (kind : ks[i]? = some k)
    (at_j : (place start ks).1[j]? = some offset') (before : i < j) : offset + k.width ≤ offset' := by
  induction ks generalizing start i j with
  | nil => simp at kind
  | cons k' ks ih =>
    cases j with
    | zero => omega
    | succ j =>
      simp only [place, List.getElem?_cons_succ] at at_j
      cases i with
      | zero =>
        simp only [place, List.getElem?_cons_zero, Option.some.injEq] at at_i kind
        subst at_i kind
        -- the first field ends where the rest starts
        have bound : j < ks.length := by
          have := (List.getElem?_eq_some_iff.1 at_j).1
          rwa [length_place] at this
        exact (place_within at_j (List.getElem?_eq_getElem bound)).1
      | succ i =>
        simp only [place, List.getElem?_cons_succ] at at_i kind
        exact ih at_i kind at_j (by omega)

variable {fields : List Ty} {i j offset offset' : Nat} {t : Ty}

theorem length_offsets (fields : List Ty) : (ofFields fields).offsets.length = fields.length := by
  simp [ofFields, length_place]

theorem offset_within (at_i : (ofFields fields).offsets[i]? = some offset)
    (field : fields[i]? = some t) : offset + t.kind.width ≤ (ofFields fields).size := by
  have kind : (fields.map Ty.kind)[i]? = some t.kind := by simp [field]
  have inside := (@place_within 0 _ _ _ _ at_i kind).2
  -- the size of the whole is rounded up
  exact Nat.le_trans inside (le_alignUp _ 8 (by omega))

theorem offset_disjoint (at_i : (ofFields fields).offsets[i]? = some offset)
    (field : fields[i]? = some t) (at_j : (ofFields fields).offsets[j]? = some offset')
    (before : i < j) : offset + t.kind.width ≤ offset' := by
  have kind : (fields.map Ty.kind)[i]? = some t.kind := by simp [field]
  exact @place_disjoint 0 _ _ _ _ _ _ at_i kind at_j before

end Layout

namespace Record

/-- The buffer has the size that the field types ask for. -/
def WellFormed (r : Record) : Prop := r.data.length = r.layout.size

/-! ### Writing bytes -/

theorem length_overwrite {data bytes : List UInt8} {offset : Nat}
    (inside : offset + bytes.length ≤ data.length) :
    (overwrite data offset bytes).length = data.length := by
  simp only [overwrite, List.length_append, List.length_take, List.length_drop]
  omega

theorem getElem?_overwrite {data bytes : List UInt8} {offset : Nat}
    (inside : offset + bytes.length ≤ data.length) (k : Nat) :
    (overwrite data offset bytes)[k]? =
      if offset ≤ k ∧ k < offset + bytes.length then bytes[k - offset]? else data[k]? := by
  have taken : (data.take offset).length = offset := by
    rw [List.length_take]
    omega
  simp only [overwrite, List.getElem?_append, List.length_append, taken, List.getElem?_take,
    List.getElem?_drop]
  by_cases low : k < offset
  · simp [low, show k < offset + bytes.length by omega, show ¬offset ≤ k by omega]
  · by_cases high : k < offset + bytes.length
    · simp [low, high, show offset ≤ k by omega]
    · simp only [low, high, if_false, and_false]
      congr 1
      omega

/-- Reading what was written. -/
theorem read_overwrite {data bytes : List UInt8} {offset : Nat}
    (inside : offset + bytes.length ≤ data.length) :
    ((overwrite data offset bytes).drop offset).take bytes.length = bytes := by
  apply List.ext_getElem?
  intro k
  simp only [List.getElem?_take, List.getElem?_drop, getElem?_overwrite inside]
  split
  · simp [show offset ≤ offset + k by omega, show offset + k < offset + bytes.length by omega]
  · exact (List.getElem?_eq_none (by omega)).symm

/-- Bytes that do not overlap what is written stay. -/
theorem read_overwrite_of_disjoint {data bytes : List UInt8} {offset start width : Nat}
    (inside : offset + bytes.length ≤ data.length)
    (apart : start + width ≤ offset ∨ offset + bytes.length ≤ start) :
    ((overwrite data offset bytes).drop start).take width = (data.drop start).take width := by
  apply List.ext_getElem?
  intro k
  simp only [List.getElem?_take, List.getElem?_drop, getElem?_overwrite inside]
  split
  · rw [if_neg (by omega)]
  · rfl

/-! ### One field -/

variable {r : Record} {i j : Nat} {t : Ty} {v : Value}

theorem layout_set (r : Record) (i : Nat) (v : Value) : (r.set i v).layout = r.layout := by
  unfold set
  split <;> rfl

@[simp]
theorem fields_set (r : Record) (i : Nat) (v : Value) : (r.set i v).fields = r.fields := by
  unfold set
  split <;> rfl

theorem offset_of_field (field : r.fields[i]? = some t) :
    ∃ offset, r.layout.offsets[i]? = some offset := by
  have bound := (List.getElem?_eq_some_iff.1 field).1
  rw [← Layout.length_offsets] at bound
  exact ⟨_, List.getElem?_eq_getElem bound⟩

theorem set_of_field (field : r.fields[i]? = some t) (v : Value) :
    ∃ offset, r.layout.offsets[i]? = some offset ∧
      r.set i v = { r with data := overwrite r.data offset (Bytes.ofNat v.kind.width v.raw) } := by
  obtain ⟨offset, at_i⟩ := offset_of_field field
  exact ⟨offset, at_i, by simp [set, at_i]⟩

theorem get?_eq_some (value : r.get? i = some v) :
    ∃ t offset, r.fields[i]? = some t ∧ r.layout.offsets[i]? = some offset ∧
      offset + t.kind.width ≤ r.data.length ∧
      v = .ofRaw t.kind (Bytes.toNat ((r.data.drop offset).take t.kind.width)) := by
  obtain ⟨t, field, value⟩ := Option.bind_eq_some_iff.1 value
  obtain ⟨offset, at_i, value⟩ := Option.bind_eq_some_iff.1 value
  split at value
  · next inside => exact ⟨t, offset, field, at_i, inside, (Option.some.inj value).symm⟩
  · cases value

theorem lt_of_get? (value : r.get? i = some v) : i < r.fields.length := by
  obtain ⟨t, -, field, -⟩ := get?_eq_some value
  exact (List.getElem?_eq_some_iff.1 field).1

/-- A field whose bytes are all there is read from them. -/
theorem get?_of_offset {offset : Nat} (field : r.fields[i]? = some t) (at_i : r.layout.offsets[i]? = some offset)
    (inside : offset + t.kind.width ≤ r.data.length) :
    r.get? i = some (.ofRaw t.kind (Bytes.toNat ((r.data.drop offset).take t.kind.width))) := by
  simp only [get?, field, at_i, Option.bind_eq_bind, Option.bind_some, inside, if_true]

/-- A buffer of the right size has the bytes of every field. -/
theorem WellFormed.inside {offset : Nat} (wf : r.WellFormed) (field : r.fields[i]? = some t)
    (at_i : r.layout.offsets[i]? = some offset) : offset + t.kind.width ≤ r.data.length := by
  rw [wf]
  exact Layout.offset_within at_i field

theorem get?_isSome (wf : r.WellFormed) (i : Nat) : (r.get? i).isSome ↔ i < r.fields.length := by
  constructor
  · intro held
    obtain ⟨v, value⟩ := Option.isSome_iff_exists.1 held
    exact lt_of_get? value
  · intro inside
    have field := List.getElem?_eq_getElem inside
    obtain ⟨offset, at_i⟩ := offset_of_field field
    rw [get?_of_offset field at_i (wf.inside field at_i)]
    rfl

/-- A field holds a value of its own kind. -/
theorem kind_get? (field : r.fields[i]? = some t) (value : r.get? i = some v) : v.kind = t.kind := by
  obtain ⟨t', offset, field', -, -, rfl⟩ := get?_eq_some value
  cases field.symm.trans field'
  exact Value.kind_ofRaw _ _

theorem WellFormed.set (wf : r.WellFormed) (field : r.fields[i]? = some t) (kind : v.kind = t.kind) :
    (r.set i v).WellFormed := by
  obtain ⟨offset, at_i, eq⟩ := set_of_field field v
  have inside := Layout.offset_within at_i field
  rw [WellFormed, layout_set, eq]
  have size : r.data.length = r.layout.size := wf
  rw [length_overwrite, size]
  rw [Bytes.length_ofNat, kind, size]
  exact inside

theorem get?_set_self (wf : r.WellFormed) (field : r.fields[i]? = some t) (kind : v.kind = t.kind)
    (storable : v.Storable) : (r.set i v).get? i = some v := by
  obtain ⟨offset, at_i, eq⟩ := set_of_field field v
  have inside : offset + (Bytes.ofNat v.kind.width v.raw).length ≤ r.data.length := by
    rw [Bytes.length_ofNat, kind, show r.data.length = r.layout.size from wf]
    exact Layout.offset_within at_i field
  have read := read_overwrite inside
  rw [Bytes.length_ofNat] at read
  -- the bytes of a storable value give it back
  have back : Value.ofRaw v.kind (Bytes.toNat (Bytes.ofNat v.kind.width v.raw)) = v := by
    rw [Bytes.toNat_ofNat, Nat.mod_eq_of_lt storable, Value.ofRaw_raw]
  have field' : (r.set i v).fields[i]? = some t := by rw [fields_set, field]
  have at_i' : (r.set i v).layout.offsets[i]? = some offset := by rw [layout_set, at_i]
  rw [get?_of_offset field' at_i' ((wf.set field kind).inside field' at_i'), eq, ← kind]
  simp only [read, back]

theorem get?_set_ne (wf : r.WellFormed) (field : r.fields[i]? = some t) (kind : v.kind = t.kind)
    (ne : i ≠ j) : (r.set i v).get? j = r.get? j := by
  obtain ⟨offset, at_i, eq⟩ := set_of_field field v
  cases field' : r.fields[j]? with
  | none => simp [get?, field']
  | some t' =>
    obtain ⟨offset', at_j⟩ := offset_of_field field'
    have inside : offset + (Bytes.ofNat v.kind.width v.raw).length ≤ r.data.length := by
      rw [Bytes.length_ofNat, kind, show r.data.length = r.layout.size from wf]
      exact Layout.offset_within at_i field
    -- whichever of the two fields comes first ends before the other starts
    have apart : offset' + t'.kind.width ≤ offset ∨
        offset + (Bytes.ofNat v.kind.width v.raw).length ≤ offset' := by
      rw [Bytes.length_ofNat, kind]
      rcases Nat.lt_or_gt_of_ne ne with before | after
      · exact Or.inr (Layout.offset_disjoint at_i field at_j before)
      · exact Or.inl (Layout.offset_disjoint at_j field' at_i after)
    have read := read_overwrite_of_disjoint inside apart
    have here : (r.set i v).fields[j]? = some t' := by rw [fields_set, field']
    have there : (r.set i v).layout.offsets[j]? = some offset' := by rw [layout_set, at_j]
    rw [get?_of_offset here there ((wf.set field kind).inside here there),
      get?_of_offset field' at_j (wf.inside field' at_j), eq]
    simp only [read]

/-! ### All fields -/

theorem mem_values_of_get? (value : r.get? i = some v) : v ∈ r.values :=
  List.mem_filterMap.2 ⟨i, List.mem_range.2 (lt_of_get? value), value⟩

theorem getElem?_values (wf : r.WellFormed) (i : Nat) : r.values[i]? = r.get? i := by
  -- every field below the length has a value, so none is left out
  have some_map : r.values = (List.range r.fields.length).map fun k => (r.get? k).getD default := by
    refine List.filterMap_eq_map_iff_forall_eq_some.2 fun k member => ?_
    obtain ⟨v, value⟩ := Option.isSome_iff_exists.1 ((get?_isSome wf k).2 (List.mem_range.1 member))
    simp [value]
  rw [some_map, List.getElem?_map]
  by_cases bound : i < r.fields.length
  · obtain ⟨v, value⟩ := Option.isSome_iff_exists.1 ((get?_isSome wf i).2 bound)
    simp [List.getElem?_range bound, value]
  · have missing : r.get? i = none := by
      have := (get?_isSome wf i).not.2 bound
      simpa using this
    simp [missing, bound]

theorem length_values (wf : r.WellFormed) : r.values.length = r.fields.length := by
  apply Nat.le_antisymm
  · refine Nat.le_of_not_lt fun more => ?_
    have present := List.getElem?_eq_getElem more
    rw [getElem?_values wf] at present
    have := (get?_isSome wf r.fields.length).1 (by simp [present])
    omega
  · refine Nat.le_of_not_lt fun fewer => ?_
    have absent := (List.getElem?_eq_none_iff (l := r.values)).2 (Nat.le_refl _)
    rw [getElem?_values wf] at absent
    have := (get?_isSome wf r.values.length).2 fewer
    simp [absent] at this

/-- Storing a value changes that value in the list of all fields. -/
theorem values_set (wf : r.WellFormed) (field : r.fields[i]? = some t) (kind : v.kind = t.kind)
    (storable : v.Storable) : (r.set i v).values = r.values.set i v := by
  apply List.ext_getElem?
  intro j
  rw [getElem?_values (wf.set field kind), List.getElem?_set, getElem?_values wf, length_values wf]
  -- the field itself, and every other one
  split
  next same =>
    subst same
    rw [get?_set_self wf field kind storable, if_pos (List.getElem?_eq_some_iff.1 field).1]
  next ne => exact get?_set_ne wf field kind ne

theorem wellFormed_zero (fields : List Ty) : (zero fields).WellFormed := by
  simp [WellFormed, zero, layout]

private theorem toNat_take_drop_replicate (n start width : Nat) :
    Bytes.toNat (((List.replicate n (0 : UInt8)).drop start).take width) = 0 := by
  rw [List.drop_replicate, List.take_replicate]
  induction min width (n - start) with
  | zero => rfl
  | succ n ih => simp [List.replicate_succ, Bytes.toNat, ih]

theorem get?_zero (fields : List Ty) (i : Nat) :
    (zero fields).get? i = fields[i]?.map fun t => Value.zero t.kind := by
  cases field : fields[i]? with
  | none => simp [get?, zero, field]
  | some t =>
    have here : (zero fields).fields[i]? = some t := field
    obtain ⟨offset, at_i⟩ := offset_of_field here
    rw [get?_of_offset here at_i ((wellFormed_zero fields).inside here at_i)]
    simp only [zero, toNat_take_drop_replicate]
    rfl

/-- A fresh struct holds zeros. -/
theorem values_zero (fields : List Ty) :
    (zero fields).values = fields.map fun t => Value.zero t.kind := by
  apply List.ext_getElem?
  intro i
  rw [getElem?_values (wellFormed_zero fields), get?_zero, List.getElem?_map]

private theorem foldl_set {r : Record} {vs : List Value} {k : Nat} (wf : r.WellFormed)
    (kinds : ∀ (i : Nat) (v : Value), vs[i]? = some v →
      ∃ t, r.fields[k + i]? = some t ∧ v.kind = t.kind) :
    ((vs.zipIdx k).foldl (fun r (v, i) => r.set i v) r).WellFormed ∧
    ((vs.zipIdx k).foldl (fun r (v, i) => r.set i v) r).fields = r.fields := by
  induction vs generalizing r k with
  | nil => exact ⟨wf, rfl⟩
  | cons v vs ih =>
    obtain ⟨t, field, kind⟩ := kinds 0 v rfl
    rw [Nat.add_zero] at field
    simp only [List.zipIdx_cons, List.foldl_cons]
    have next := @ih (r.set k v) (k + 1) (wf.set field kind) fun i w at_i => by
      obtain ⟨t', field', kind'⟩ := kinds (i + 1) w (by simpa using at_i)
      exact ⟨t', by rw [fields_set, ← field']; congr 1; omega, kind'⟩
    exact ⟨next.1, next.2.trans (fields_set r k v)⟩

private theorem values_foldl_set {r : Record} {vs : List Value} {k : Nat} (wf : r.WellFormed)
    (kinds : ∀ (i : Nat) (v : Value), vs[i]? = some v →
      ∃ t, r.fields[k + i]? = some t ∧ v.kind = t.kind)
    (storable : ∀ v ∈ vs, v.Storable) :
    ((vs.zipIdx k).foldl (fun r (v, i) => r.set i v) r).values =
      r.values.take k ++ vs ++ r.values.drop (k + vs.length) := by
  induction vs generalizing r k with
  | nil => simp
  | cons v vs ih =>
    obtain ⟨t, field, kind⟩ := kinds 0 v rfl
    rw [Nat.add_zero] at field
    have bound : k < r.fields.length := (List.getElem?_eq_some_iff.1 field).1
    -- the induction goes through the values, with the fields below already stored
    have next := @ih (r.set k v) (k + 1) (wf.set field kind)
      (fun i w at_i => by
        obtain ⟨t', field', kind'⟩ := kinds (i + 1) w (by simpa using at_i)
        exact ⟨t', by rw [fields_set, ← field']; congr 1; omega, kind'⟩)
      (fun w member => storable w (List.mem_cons_of_mem _ member))
    simp only [List.zipIdx_cons, List.foldl_cons, List.length_cons]
    rw [next, values_set wf field kind (storable v (by simp))]
    have here : k < r.values.length := by rwa [length_values wf]
    -- one more field is stored
    have low : (r.values.set k v).take (k + 1) = r.values.take k ++ [v] := by
      rw [List.take_add_one, List.take_set_of_le (Nat.le_refl k), List.getElem?_set_self here]
      rfl
    rw [low, List.drop_set_of_lt (by omega)]
    simp [Nat.add_assoc, Nat.add_comm 1]

/-- A struct that was made from values of the right kinds fills its buffer, whatever the values are. -/
theorem wellFormed_ofValues {fields : List Ty} {vs : List Value}
    (kinds : ∀ (i : Nat) (v : Value), vs[i]? = some v →
      ∃ t, fields[i]? = some t ∧ v.kind = t.kind) :
    (ofValues fields vs).WellFormed ∧ (ofValues fields vs).fields = fields :=
  @foldl_set (zero fields) vs 0 (wellFormed_zero fields) fun i v at_i => by
    simpa [zero] using kinds i v at_i

/-- A struct that was made from values has these values. -/
theorem values_ofValues {fields : List Ty} {vs : List Value} (length : vs.length = fields.length)
    (kinds : ∀ (i : Nat) (v : Value), vs[i]? = some v →
      ∃ t, fields[i]? = some t ∧ v.kind = t.kind)
    (storable : ∀ v ∈ vs, v.Storable) :
    (ofValues fields vs).WellFormed ∧ (ofValues fields vs).fields = fields ∧
      (ofValues fields vs).values = vs := by
  have values := @values_foldl_set (zero fields) vs 0 (wellFormed_zero fields)
    (fun i v at_i => by simpa [zero] using kinds i v at_i) storable
  obtain ⟨wf, same⟩ := wellFormed_ofValues kinds
  refine ⟨wf, same, ?_⟩
  -- no field is left to be zero
  have all : (zero fields).values.drop (0 + vs.length) = [] := by
    apply List.drop_eq_nil_of_le
    rw [length_values (wellFormed_zero fields), length]
    simp [zero]
  rw [all] at values
  simpa [ofValues] using values

end Record

end StackVM
