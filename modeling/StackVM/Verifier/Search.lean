import StackVM.IndexSet
import StackVM.Verifier.Bounds

/-!
# Searching the paths of a function

A search enters each block once for every path that can reach it, where two paths are taken for the same if
they have the same stack of types and have written the same globals. Pending visits are taken in the order in
which they were found. Main statement: the search ends, because a step either drops a pending visit or
enters a block in a way it never did before, and there are finitely many such ways.
-/

namespace StackVM

namespace Verifier

/-- A block to be entered along a path. -/
structure Visit where
  block : Nat
  /-- The height of the stack, which tells most paths apart. -/
  height : Nat
  /-- The globals that have been written on the way. -/
  written : IndexSet
  path : Path
deriving DecidableEq, Repr

def Visit.of (block : Nat) (path : Path) : Visit :=
  ⟨block, path.stack.length, .ofList path.recorded.places, path⟩

/-- What of a visit decides what the block may do. Which types were recorded is left out: a global has the same
type along all paths that have written it. -/
structure Mark where
  block : Nat
  height : Nat
  written : IndexSet
  stack : List Ty
deriving DecidableEq, Repr

def Visit.mark (v : Visit) : Mark := ⟨v.block, v.height, v.written, v.path.stack⟩

structure Search where
  /-- Visits that were made, the latest first. -/
  seen : List Visit
  /-- Visits still to be made, the next first. -/
  pending : List Visit
  /-- The different stacks with which the function can be left, in the order in which they were found. -/
  exits : List (List Ty)
  /-- The types of globals that are known so far. -/
  globals : Table Ty
deriving DecidableEq, Repr

/-- An error, with the types of globals that were known before it. -/
structure Failure where
  error : Error
  globals : Table Ty
deriving DecidableEq, Repr

namespace Scope

/-! ### Blocks -/

/-- Applies the rules of the instructions of block `index` in order. -/
def through (c : Scope) (index : Nat) : List Located → State → Except Failure State
  | [], s => .ok s
  | l :: ls, s =>
    match c.apply l.inst s with
    | .ok ((), s') => c.through index ls s'
    | .error cause => .error ⟨(Error.atOffset cause l.offset).inBlock index, s.globals⟩

/-- Whether control runs off the end of the code after the block. -/
def runsOff (c : Scope) (block : Block) : Bool :=
  block.stop == c.function.code.size && block.last.fallsThrough

/-- Applies the rules of a block. Running off the end of the code is a return. -/
def visit (c : Scope) (index : Nat) (block : Block) (s : State) : Except Failure State := do
  let s ← c.through index block.body s
  if c.runsOff block then
    match c.checkResults c.floor s.stack with
    | .ok () => return s
    | .error cause => throw ⟨(Error.atOffset cause block.stop).inBlock index, s.globals⟩
  else
    return s

/-- Whether the function can be left at the end of the block. -/
def leaves (c : Scope) (block : Block) : Bool := block.last == .ret || c.runsOff block

end Scope

namespace Search

/-- A search that is about to enter the first block. Globals whose types are known count as written. -/
def start (c : Scope) (globals : Table Ty) : Search :=
  { seen := [], pending := [.of 0 ⟨c.entryStack, globals⟩], exits := [], globals }

/-- Records a visit that ended in a state: the blocks that follow become pending. -/
def record (c : Scope) (s : Search) (v : Visit) (block : Block) (after : State) : Search :=
  { seen := v :: s.seen
    pending := s.pending ++ block.succs.map fun j => .of j after.toPath
    exits :=
      if c.leaves block && !s.exits.contains after.stack then s.exits ++ [after.stack] else s.exits
    globals := after.globals }

/-- Takes the next pending visit; `none` if there is none. It is dropped if one with the same mark was made
before. -/
def step (c : Scope) (g : Graph) (s : Search) : Except Failure (Option Search) :=
  match s.pending with
  | [] => .ok none
  | v :: rest =>
    if ∃ w ∈ s.seen, w.mark = v.mark then .ok (some { s with pending := rest })
    else
      match g.blocks[v.block]? with
      | none => .ok (some { s with pending := rest })
      | some block =>
        match c.visit v.block block ⟨v.path, s.globals⟩ with
        | .error failure => .error failure
        | .ok after => .ok (some (record c { s with pending := rest } v block after))

end Search

namespace Bounds

/-! ### Searches within bounds -/

/-- Every index in the code lies within the bounds. -/
def Names (b : Bounds) (g : Graph) : Prop :=
  ∀ block ∈ g.blocks, ∀ l ∈ block.body, l.inst.operand 0 < b.indices

/-- All pending visits lie within the bounds. -/
def Contains (b : Bounds) (s : Search) : Prop :=
  ∀ v ∈ s.pending, v = .of v.block v.path ∧ b.Holds ⟨v.path, s.globals⟩

variable {b : Bounds} {c : Scope} {g : Graph}

theorem holds_through (hc : b.Covers c) {index : Nat} {ls : List Located} {s s' : State}
    (hl : ∀ l ∈ ls, l.inst.operand 0 < b.indices) (hs : b.Holds s)
    (h : c.through index ls s = .ok s') : b.Holds s' := by
  induction ls generalizing s with
  | nil => exact Except.ok.inj h ▸ hs
  | cons l ls ih =>
    simp only [Scope.through] at h
    split at h
    · rename_i s'' hr
      exact ih (fun l hl' => hl l (by simp [hl'])) (keeps_apply hc l.inst (hl l (by simp)) _ _ _ hs hr).2 h
    · exact absurd h (by simp)

/-- What a visit leaves is what its instructions leave. -/
theorem through_of_visit {index : Nat} {block : Block} {s s' : State}
    (h : c.visit index block s = .ok s') : c.through index block.body s = .ok s' := by
  simp only [Scope.visit, bind, Except.bind, pure, Except.pure, throw, throwThe,
    MonadExceptOf.throw] at h
  split at h
  · exact absurd h (by simp)
  · rename_i s'' hr
    rw [hr]
    split at h
    · split at h
      · exact h
      · exact absurd h (by simp)
    · exact h

theorem contains_step (hc : b.Covers c) (hg : b.Names g) {s s' : Search} (hs : b.Contains s)
    (h : s.step c g = .ok (some s')) : b.Contains s' := by
  unfold Search.step at h
  split at h
  · exact absurd h (by simp)
  · rename_i v rest hp
    have hrest : b.Contains { s with pending := rest } :=
      fun w hw => hs w (by rw [hp]; exact List.mem_cons_of_mem _ hw)
    split at h
    · exact Option.some.inj (Except.ok.inj h) ▸ hrest
    · split at h
      · exact Option.some.inj (Except.ok.inj h) ▸ hrest
      · rename_i block hb
        split at h
        · exact absurd h (by simp)
        · rename_i after ha
          have hv := (hs v (by rw [hp]; exact List.mem_cons_self)).2
          have hafter := holds_through hc (hg block (Array.mem_of_getElem? hb)) hv (through_of_visit ha)
          cases Option.some.inj (Except.ok.inj h)
          intro w hw
          simp only [Search.record, List.mem_append, List.mem_map] at hw ⊢
          rcases hw with hw | ⟨j, -, rfl⟩
          · obtain ⟨hof, hw⟩ := hrest w hw
            exact ⟨hof, { hw with globals := hafter.globals }⟩
          · exact ⟨rfl, { hafter with }⟩

/-! ### Finitely many visits -/

/-- All stacks of at most a given height. -/
def stacksUpTo (types : List Ty) : Nat → List (List Ty)
  | 0 => [[]]
  | n + 1 => [] :: types.flatMap fun t => (stacksUpTo types n).map (t :: ·)

theorem mem_stacks {types : List Ty} {n : Nat} {stack : List Ty} (h : ∀ t ∈ stack, t ∈ types)
    (hn : stack.length ≤ n) : stack ∈ stacksUpTo types n := by
  induction n generalizing stack with
  | zero => simp_all [stacksUpTo]
  | succ n ih =>
    cases stack with
    | nil => simp [stacksUpTo]
    | cons t stack =>
      simp only [List.length_cons, Nat.add_le_add_iff_right] at hn
      have := ih (fun u hu => h u (by simp [hu])) hn
      simp [stacksUpTo, h t (by simp), this]

/-- The marks of all visits within the bounds to one of `n` blocks. -/
def marks (b : Bounds) (n : Nat) : List Mark :=
  (List.range n).flatMap fun block =>
    (stacksUpTo b.types b.height).flatMap fun stack =>
      (List.range (IndexSet.count b.indices)).map fun bits => ⟨block, stack.length, ⟨bits⟩, stack⟩

theorem mem_marks {n : Nat} {v : Visit} {globals : Table Ty} (hv : v = .of v.block v.path)
    (hn : v.block < n) (h : b.Holds ⟨v.path, globals⟩) : v.mark ∈ b.marks n := by
  have written : (IndexSet.ofList v.path.recorded.places).bits < IndexSet.count b.indices :=
    IndexSet.ofList_lt fun i hi =>
      Nat.lt_of_lt_of_le (List.mem_range.1 (List.mem_filter.1 hi).1) h.indices
  rw [hv]
  simp only [marks, List.mem_flatMap, List.mem_map, List.mem_range]
  exact ⟨v.block, hn, v.path.stack, mem_stacks h.stack h.height, _, written, rfl⟩

/-- How many marks within the bounds no visit has had. -/
def unseen (b : Bounds) (g : Graph) (s : Search) : Nat :=
  (b.marks g.blocks.size).countP fun m => m ∉ s.seen.map Visit.mark

private theorem countP_lt {l seen : List Mark} {v : Mark} (hv : v ∈ l)
    (hs : v ∉ seen) : (l.countP fun w => w ∉ v :: seen) < l.countP fun w => w ∉ seen := by
  have mono : ∀ l : List Mark, (l.countP fun w => w ∉ v :: seen) ≤ l.countP fun w => w ∉ seen :=
    fun l => List.countP_mono_left fun w _ => by simp
  induction l with
  | nil => simp at hv
  | cons w l ih =>
    have tail := mono l
    rcases List.mem_cons.1 hv with rfl | hv
    · rw [List.countP_cons_of_neg (by simp), List.countP_cons_of_pos (by simpa using hs)]
      omega
    · have := ih hv
      by_cases hw : w ∈ seen
      · rw [List.countP_cons_of_neg (by simp [hw]), List.countP_cons_of_neg (by simp [hw])]
        omega
      · rw [List.countP_cons_of_pos (p := fun w => decide (w ∉ seen)) (by simpa using hw),
          List.countP_cons]
        split <;> omega

/-- Either there are fewer visits to make, or the same number and fewer of them pending. -/
theorem step_decreases {s s' : Search} (hs : b.Contains s) (h : s.step c g = .ok (some s')) :
    Prod.Lex (· < ·) (· < ·) (b.unseen g s', s'.pending.length) (b.unseen g s, s.pending.length) := by
  unfold Search.step at h
  split at h
  · exact absurd h (by simp)
  · rename_i v rest hp
    have drop : Prod.Lex (· < ·) (· < ·) (b.unseen g { s with pending := rest }, rest.length)
        (b.unseen g s, s.pending.length) := .right _ (by simp [hp])
    split at h
    · exact Option.some.inj (Except.ok.inj h) ▸ drop
    · rename_i hv
      split at h
      · exact Option.some.inj (Except.ok.inj h) ▸ drop
      · rename_i block hb
        split at h
        · exact absurd h (by simp)
        · cases Option.some.inj (Except.ok.inj h)
          obtain ⟨hof, hholds⟩ := hs v (by rw [hp]; exact List.mem_cons_self)
          obtain ⟨hn, -⟩ := Array.getElem?_eq_some_iff.1 hb
          have fresh : v.mark ∉ s.seen.map Visit.mark := fun mem => hv (List.mem_map.1 mem)
          exact .left _ _ (countP_lt (mem_marks hof hn hholds) fresh)

end Bounds

/-- Makes all visits. -/
def Search.run (c : Scope) (g : Graph) (b : Bounds) (hc : b.Covers c) (hg : b.Names g) (s : Search)
    (hs : b.Contains s) : Except Failure Search :=
  match h : s.step c g with
  | .error failure => .error failure
  | .ok none => .ok s
  | .ok (some s') => s'.run c g b hc hg (b.contains_step hc hg hs h)
termination_by (b.unseen g s, s.pending.length)
decreasing_by exact b.step_decreases hs h

end Verifier

end StackVM
