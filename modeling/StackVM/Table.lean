/-!
# Growing tables

A table whose entries are unset until they are written. Writing beyond the end grows the table by unset
entries. The machine keeps its globals in one, and the verifier their types.
-/

namespace StackVM

structure Table (α : Type) where
  entries : List (Option α)
  /-- The last entry is set, so tables with the same entries set are equal. -/
  trimmed : entries.getLast? ≠ some none := by simp
deriving DecidableEq, Repr

namespace Table

variable {α : Type}

def empty : Table α := { entries := [] }

/-- The entry at `i`, if it is set. -/
def get? (t : Table α) (i : Nat) : Option α := t.entries[i]?.join

/-- A list with `a` at place `i`, filled up with unset entries where it is shorter. -/
def putList (a : α) : Nat → List (Option α) → List (Option α)
  | 0, [] => [some a]
  | i + 1, [] => none :: putList a i []
  | 0, _ :: es => some a :: es
  | i + 1, e :: es => e :: putList a i es

theorem trimmed_putList {a : α} {i : Nat} {es : List (Option α)} (trimmed : es.getLast? ≠ some none) :
    (putList a i es).getLast? ≠ some none := by
  induction i generalizing es with
  | zero =>
    cases es with
    | nil => simp [putList]
    | cons e es => cases es <;> simp_all [putList]
  | succ i ih =>
    cases es with
    | nil =>
      have rest := ih trimmed
      cases i <;> simp_all [putList]
    | cons e es =>
      -- something follows the first entry
      have rest : (putList a i es).getLast? ≠ some none := ih (by cases es <;> simp_all)
      cases i <;> cases es <;> simp_all [putList]

/-- Sets the entry at `i`. -/
def put (t : Table α) (i : Nat) (a : α) : Table α where
  entries := putList a i t.entries
  trimmed := trimmed_putList t.trimmed

/-- The entries that are set, in order. -/
def values (t : Table α) : List α := t.entries.filterMap id

/-- The places of the entries that are set, in order. -/
def places (t : Table α) : List Nat := (List.range t.entries.length).filter fun i => (t.get? i).isSome

private theorem getElem?_putList (a : α) (i j : Nat) (es : List (Option α)) :
    (putList a i es)[j]?.join = if i = j then some a else es[j]?.join := by
  induction i generalizing es j with
  | zero => cases es <;> cases j <;> simp [putList]
  | succ i ih =>
    cases es with
    | nil =>
      cases j with
      | zero => simp [putList]
      | succ j => simp [putList, ih]
    | cons e es =>
      cases j with
      | zero => simp [putList]
      | succ j => simp [putList, ih]

@[simp]
theorem get?_put (t : Table α) (i j : Nat) (a : α) :
    (t.put i a).get? j = if i = j then some a else t.get? j :=
  getElem?_putList a i j t.entries

private theorem length_le_of_join {es es' : List (Option α)} (trimmed : es'.getLast? ≠ some none)
    (same : ∀ i : Nat, es[i]?.join = es'[i]?.join) : es'.length ≤ es.length := by
  rcases Nat.lt_or_ge es.length es'.length with shorter | le
  · -- the last entry of the longer list is set, and the shorter one does not reach it
    have unset := same (es'.length - 1)
    rw [List.getElem?_eq_none (by omega), ← List.getLast?_eq_getElem?] at unset
    cases last : es'.getLast? with
    | none => simp_all
    | some e => simp_all
  · exact le

/-- Tables with the same entries are equal. -/
theorem ext_get? {t t' : Table α} (same : ∀ i, t.get? i = t'.get? i) : t = t' := by
  obtain ⟨es, trimmed⟩ := t
  obtain ⟨es', trimmed'⟩ := t'
  have same : ∀ i : Nat, es[i]?.join = es'[i]?.join := same
  have length := Nat.le_antisymm (length_le_of_join trimmed fun i => (same i).symm)
    (length_le_of_join trimmed' same)
  have equal : es = es' := by
    refine List.ext_getElem length fun i inside inside' => ?_
    simpa [List.getElem?_eq_getElem inside, List.getElem?_eq_getElem inside'] using same i
  subst equal
  rfl

theorem length_putList_le (a : α) (i n : Nat) (es : List (Option α)) (index : i < n) (length : es.length ≤ n) :
    (putList a i es).length ≤ n := by
  induction i generalizing es n with
  | zero =>
    cases es with
    | nil => exact index
    | cons e es => exact length
  | succ i ih =>
    obtain ⟨n, rfl⟩ : ∃ m, n = m + 1 := ⟨n - 1, by omega⟩
    cases es with
    | nil => exact Nat.succ_le_succ (ih n [] (by omega) (Nat.zero_le n))
    | cons e es => exact Nat.succ_le_succ (ih n es (by omega) (Nat.le_of_succ_le_succ length))

theorem mem_places {t : Table α} {i : Nat} : i ∈ t.places ↔ (t.get? i).isSome = true := by
  rw [places, List.mem_filter, List.mem_range]
  constructor
  · exact fun mem => mem.2
  · intro set
    refine ⟨?_, set⟩
    rcases Nat.lt_or_ge i t.entries.length with inside | outside
    · exact inside
    · simp [get?, List.getElem?_eq_none outside] at set

theorem mem_values_of_get? {t : Table α} {i : Nat} {a : α} (h : t.get? i = some a) : a ∈ t.values := by
  obtain ⟨e, he, rfl⟩ : ∃ e, t.entries[i]? = some e ∧ e = some a := by
    simpa [get?, Option.join_eq_some_iff] using h
  exact List.mem_filterMap.2 ⟨some a, List.mem_of_getElem? he, rfl⟩

@[simp]
theorem get?_empty (i : Nat) : (empty : Table α).get? i = none := by simp [empty, get?]

end Table

end StackVM
