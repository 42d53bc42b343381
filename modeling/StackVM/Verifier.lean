import StackVM.Options
import StackVM.Verifier.Search

/-!
# The verifier

Checks functions one after the other against the same table of types of globals. A check gives the stacks
with which the function can be left, or the first error that its search meets; what was learnt about
globals before an error is kept.
-/

namespace StackVM

structure Verifier where
  program : Program
  /-- Most types on the stack, locals included. -/
  maxStack : Nat
  /-- The types of globals, fixed by the first write that was checked. -/
  globals : Table Ty

namespace Verifier

/-! ### The bounds of a search -/

private theorem le_foldr_max {ns : List Nat} {n : Nat} (h : n ∈ ns) : n ≤ ns.foldr max 0 := by
  induction ns with
  | nil => simp at h
  | cons m ns ih =>
    rcases List.mem_cons.1 h with rfl | h
    · exact Nat.le_max_left _ _
    · exact Nat.le_trans (ih h) (Nat.le_max_right _ _)

namespace Bounds

/-- Types that a search starts with or meets in the program. -/
def sources (c : Scope) (globals : Table Ty) : List Ty :=
  Kind.all.map Ty.ofKind ++ [.string] ++ c.program.types.toList ++
    c.program.constants.toList.map Constant.ty ++ c.entryStack ++ globals.values

/-- Bounds for the search through a function that starts from the given globals. -/
def around (c : Scope) (g : Graph) (globals : Table Ty) : Bounds where
  types := Ty.partsAll (sources c globals)
  height := max c.maxStack c.entryStack.length
  indices :=
    max globals.entries.length
      (((g.blocks.toList.flatMap Block.body).map fun l => l.inst.operand 0 + 1).foldr max 0)

variable {c : Scope} {g : Graph} {globals : Table Ty}

theorem source_mem {t : Ty} (h : t ∈ sources c globals) : t ∈ (around c g globals).types :=
  Ty.mem_partsAll.2 ⟨t, h, t.self_mem_parts⟩

theorem around_covers : (around c g globals).Covers c where
  kinds k := by
    refine source_mem ?_
    have : k ∈ Kind.all := by
      cases k with
      | scalar s => cases s <;> decide
      | ref => decide
    simp only [sources, List.mem_append, List.mem_map]
    exact .inl (.inl (.inl (.inl (.inl ⟨k, this, rfl⟩))))
  string := source_mem (by simp [sources])
  types i t h := source_mem (by simp [sources, Array.mem_of_getElem? h])
  constants i k h := by
    refine source_mem ?_
    have := Array.mem_of_getElem? h
    simp only [sources, List.mem_append, List.mem_map, Array.mem_toList_iff]
    exact .inl (.inl (.inr ⟨k, this, rfl⟩))
  parts t ht u hu := Ty.partsAll_trans _ ht hu
  limit := Nat.le_max_left _ _

theorem around_names : (around c g globals).Names g := by
  intro block hb l hl
  refine Nat.lt_of_lt_of_le ?_ (Nat.le_max_right _ _)
  refine le_foldr_max (List.mem_map.2 ⟨l, List.mem_flatMap.2 ⟨block, ?_, hl⟩, rfl⟩)
  exact Array.mem_toList_iff.2 hb

theorem around_contains : (around c g globals).Contains (.start c globals) := by
  intro v hv
  simp only [Search.start, List.mem_singleton] at hv
  subst hv
  -- the path begins with the types that are known
  have known : ∀ i t, globals.get? i = some t → t ∈ (around c g globals).types := by
    intro i t ht
    have : t ∈ globals.values := Table.mem_values_of_get? ht
    exact source_mem (by simp [sources, this])
  refine ⟨rfl, ⟨fun t ht => ?_, Nat.le_max_right _ _, known, Nat.le_max_left _ _, known⟩⟩
  exact source_mem (by simp [sources, show t ∈ c.entryStack from ht])

end Bounds

/-- The search through a function, carried to its end. -/
def Scope.search (c : Scope) (g : Graph) (globals : Table Ty) : Except Failure Search :=
  (Search.start c globals).run c g (.around c g globals) Bounds.around_covers Bounds.around_names
    Bounds.around_contains

/-! ### Checking -/

/-- A verifier that knows no global. -/
def new (program : Program) (options : Options) : Verifier :=
  { program, maxStack := options.stackSize, globals := .empty }

/-- A check changes the table of globals, also when it fails. -/
abbrev Check := EStateM Error Verifier

/-- Checks one function. The answer is the stacks with which it can be left, locals included, the bottom
first. -/
def check (f : Function) : Check (List (List Ty)) := do
  let v ← get
  let c : Scope := ⟨v.program, f, v.maxStack⟩
  match Graph.build f.code with
  | .error e => throw e
  | .ok g =>
    if g.blocks.isEmpty then
      match c.checkResults c.floor c.entryStack with
      | .ok () => return [c.entryStack.reverse]
      | .error cause => throw (Error.atOffset cause 0)
    else
      match c.search g v.globals with
      | .ok s =>
        set { v with globals := s.globals }
        return s.exits.map List.reverse
      | .error failure =>
        set { v with globals := failure.globals }
        throw failure.error

/-- Checks functions in order, up to the first that fails. -/
def checkAll : List Function → Check Unit
  | [] => return
  | f :: fs => do
    let _ ← check f
    checkAll fs

/-- Checks the entry code and then every function among the constants. -/
def verify : Check Unit := do checkAll (← get).program.functions

end Verifier

end StackVM
