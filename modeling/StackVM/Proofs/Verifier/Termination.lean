import Mathlib.Algebra.BigOperators.Ring.Finset
import StackVM.Proofs.Flow.Edges
import StackVM.Proofs.Verifier.Routes

/-!
# How long a search can take

A search takes one turn for each visit that is ever pending. No two visits are made with the same mark and
all lie within the bounds of the function, so there are at most as many as there are blocks, stacks and sets
of globals. Each makes at most as many visits pending as there are blocks. Main statement: whatever the code
does to the stack, its locals and the globals, a check comes to its end after at most `Bounds.turns` turns
(`check_terminates`).
-/

namespace StackVM

namespace Verifier

/-! ### Turns of the search -/

namespace Search

/-- A search leads in `n` turns from one state to another. -/
inductive Turns (c : Scope) (g : Graph) : Nat → Search → Search → Prop where
  | none (s : Search) : Turns c g 0 s s
  | next {n : Nat} {s s' s'' : Search} : Turns c g n s s' → s'.step c g = .ok (some s'') →
      Turns c g (n + 1) s s''

end Search

/-! ### The number of visits -/

namespace Bounds

theorem length_stacksUpTo (types : List Ty) (height : Nat) :
    (stacksUpTo types height).length = ∑ k ∈ Finset.range (height + 1), types.length ^ k := by
  induction height with
  | zero => simp [stacksUpTo]
  | succ n ih =>
    rw [Finset.sum_range_succ', pow_zero, stacksUpTo, List.length_cons, Nat.add_left_inj]
    have grown : (types.flatMap fun t => (stacksUpTo types n).map (t :: ·)).length =
        types.length * (stacksUpTo types n).length := by
      simp
    rw [grown, ih, Finset.mul_sum]
    refine Finset.sum_congr rfl fun k _ => ?_
    rw [pow_succ']

/-- Each block can be entered with each stack and each set of written globals. -/
theorem length_marks (b : Bounds) (n : Nat) :
    (b.marks n).length =
      n * ((∑ k ∈ Finset.range (b.height + 1), b.types.length ^ k) * 2 ^ b.indices) := by
  simp [marks, length_stacksUpTo, IndexSet.count]

/-- The most turns of a search through `n` blocks: the first one, and `n` for every visit. -/
def turns (b : Bounds) (n : Nat) : Nat :=
  1 + n * ((∑ k ∈ Finset.range (b.height + 1), b.types.length ^ k) * 2 ^ b.indices) * n

end Bounds

/-- A block has no more successors than there are blocks. -/
theorem length_succs_le {code : Code} {g : Graph} {sites : List Site} (cut : Flow.Cut code g sites)
    {i : Nat} {block : Block} (at_i : g.blocks[i]? = some block) :
    block.succs.length ≤ g.blocks.size := by
  have distinct : block.succs.Nodup := (cut.edges_sorted at_i).1.imp Nat.ne_of_lt
  have inside : block.succs ⊆ List.range g.blocks.size := by
    intro j succ
    exact List.mem_range.2 (cut.succs_lt at_i succ)
  simpa using (List.subperm_of_subset distinct inside).length_le

namespace Search

variable {b : Bounds} {c : Scope} {g : Graph} {code : Code} {sites : List Site} {n : Nat} {s s' : Search}

/-- What a search has done after `n` turns: all visits are to blocks of the graph and within the bounds, no
two that were made have the same mark, and every pending visit stands for a turn to come. -/
structure Accounted (b : Bounds) (g : Graph) (n : Nat) (s : Search) : Prop where
  contains : b.Contains s
  known : ∀ v ∈ s.pending, v.block < g.blocks.size
  distinct : (s.seen.map Visit.mark).Nodup
  inside : s.seen.map Visit.mark ⊆ b.marks g.blocks.size
  balance : n + s.pending.length ≤ 1 + s.seen.length * g.blocks.size

theorem accounted_start {T : Table Ty} (filled : g.blocks.isEmpty = false) :
    Accounted (.around c g T) g 0 (start c T) where
  contains := Bounds.around_contains
  known := by
    have entry : 0 < g.blocks.size := by simpa [Nat.pos_iff_ne_zero] using filled
    simpa [start, Visit.of] using entry
  distinct := List.nodup_nil
  inside := List.nil_subset _
  balance := by simp [start]

/-- A turn takes up one pending visit. If it is made, at most as many take its place as there are blocks. -/
theorem Accounted.step (accounted : Accounted b g n s) (cut : Flow.Cut code g sites) (covers : b.Covers c)
    (names : b.Names g) (stepped : s.step c g = .ok (some s')) : Accounted b g (n + 1) s' := by
  have contains := b.contains_step covers names accounted.contains stepped
  have balance := accounted.balance
  obtain ⟨v, rest, pending, taken⟩ := step_eq_some stepped
  have first : v ∈ s.pending := by
    rw [pending]
    exact List.mem_cons_self
  have later : ∀ w ∈ rest, w.block < g.blocks.size := by
    intro w mem
    apply accounted.known
    rw [pending]
    exact List.mem_cons_of_mem _ mem
  rw [pending, List.length_cons] at balance
  rcases taken with ⟨rfl, -⟩ | ⟨block, after, at_block, fresh, -, rfl⟩
  · exact
      { contains
        known := later
        distinct := accounted.distinct
        inside := accounted.inside
        balance := by
          dsimp only
          omega }
  · have few := length_succs_le cut at_block
    obtain ⟨whole, holds⟩ := accounted.contains v first
    have possible := Bounds.mem_marks whole (accounted.known v first) holds
    have fresh : v.mark ∉ s.seen.map Visit.mark := fun mem => fresh (List.mem_map.1 mem)
    refine ⟨contains, ?_, List.nodup_cons.2 ⟨fresh, accounted.distinct⟩, ?_, ?_⟩
    · intro w mem
      rcases List.mem_append.1 mem with mem | mem
      · exact later w mem
      · obtain ⟨j, succ, rfl⟩ := List.mem_map.1 mem
        exact cut.succs_lt at_block succ
    · exact List.cons_subset.2 ⟨possible, accounted.inside⟩
    · simp only [record, List.length_append, List.length_map, List.length_cons, Nat.succ_mul]
      omega

theorem Accounted.of_turns {T : Table Ty} (turns : Turns c g n (start c T) s)
    (cut : Flow.Cut code g sites) (filled : g.blocks.isEmpty = false) :
    Accounted (.around c g T) g n s := by
  generalize begins : start c T = first at turns
  induction turns with
  | none =>
    rw [← begins]
    exact accounted_start filled
  | next _ stepped ih => exact (ih begins).step cut Bounds.around_covers Bounds.around_names stepped

/-- Throughout a search, what a path has recorded about a global is what the table says about it, so it makes
no difference that marks leave the recorded types out. -/
theorem Agreed.of_turns {T : Table Ty} (turns : Turns c g n (start c T) s) : s.Agreed := by
  generalize begins : start c T = first at turns
  induction turns with
  | none =>
    rw [← begins]
    exact agreed_start
  | next _ stepped ih => exact (ih begins).step stepped

/-- No search takes more turns than there can be pending visits. -/
theorem Accounted.le_turns (accounted : Accounted b g n s) : n ≤ b.turns g.blocks.size := by
  have made : s.seen.length ≤ (b.marks g.blocks.size).length := by
    simpa using (List.subperm_of_subset accounted.distinct accounted.inside).length_le
  calc n ≤ 1 + s.seen.length * g.blocks.size := by
        have := accounted.balance
        omega
    _ ≤ 1 + (b.marks g.blocks.size).length * g.blocks.size :=
        Nat.add_le_add_left (Nat.mul_le_mul_right _ made) 1
    _ = b.turns g.blocks.size := by rw [b.length_marks, Bounds.turns]

/-- A search is over after finitely many turns: it ends with nothing pending, or a turn fails. -/
theorem ends_of_searchBy {T : Table Ty} :
    (∀ s, c.searchBy .first g T = .ok s → ∃ n, Turns c g n (start c T) s ∧ s.step c g = .ok none) ∧
      ∀ failure, c.searchBy .first g T = .error failure →
        ∃ n s, Turns c g n (start c T) s ∧ s.step c g = .error failure := by
  have steps : ∀ s s', (∃ n, Turns c g n (start c T) s) → s.stepBy .first c g = .ok (some s') →
      ∃ n, Turns c g n (start c T) s' := by
    rintro s s' ⟨n, turns⟩ stepped
    exact ⟨n + 1, .next turns (stepBy_first.symm.trans stepped)⟩
  have ends : (∀ s, c.searchBy .first g T = .ok s → (∃ n, Turns c g n (start c T) s) ∧ s.pending = []) ∧
      ∀ failure, c.searchBy .first g T = .error failure →
        ∃ s, (∃ n, Turns c g n (start c T) s) ∧ s.stepBy .first c g = .error failure :=
    runBy_invariant steps ⟨0, .none _⟩
  obtain ⟨found, failed⟩ := ends
  constructor
  · intro s searched
    obtain ⟨⟨n, turns⟩, idle⟩ := found s searched
    exact ⟨n, turns, by rw [Search.step, idle]⟩
  · intro failure searched
    obtain ⟨s, ⟨n, turns⟩, broke⟩ := failed failure searched
    exact ⟨n, s, turns, stepBy_first.symm.trans broke⟩

end Search

/-! ### Checks -/

/-- A check of code without blocks makes no search. -/
theorem check_of_empty {f : Function} {g : Graph} (v : Verifier) (built : Graph.build f.code = .ok g)
    (empty : g.blocks.isEmpty = true) :
    check f v = .ok [(Scope.entryStack ⟨v.program, f, v.maxStack⟩).reverse] v ∨
      ∃ cause, check f v = .error (Error.atOffset cause 0) v := by
  unfold check
  rw [Check.get_bind]
  simp only [built, empty, if_true]
  cases Scope.checkResults ⟨v.program, f, v.maxStack⟩ (Scope.floor ⟨v.program, f, v.maxStack⟩)
      (Scope.entryStack ⟨v.program, f, v.maxStack⟩) with
  | ok u => exact .inl rfl
  | error cause => exact .inr ⟨cause, rfl⟩

/-- All verifiers give the same answer about code without blocks, and none learns from it. -/
theorem check_alike_of_empty {f : Function} {g : Graph} (v v' : Verifier)
    (built : Graph.build f.code = .ok g) (empty : g.blocks.isEmpty = true) :
    (∃ exits, check f v = .ok exits v ∧ check f v' = .ok exits v') ∨
      ∃ e, check f v = .error e v ∧ check f v' = .error e v' := by
  unfold check
  rw [Check.get_bind, Check.get_bind]
  simp only [built, empty, if_true]
  -- what lies on the stack on entry depends on the function alone
  cases results : Scope.checkResults ⟨v.program, f, v.maxStack⟩ (Scope.floor ⟨v.program, f, v.maxStack⟩)
      (Scope.entryStack ⟨v.program, f, v.maxStack⟩) with
  | ok u =>
    have results' : Scope.checkResults ⟨v'.program, f, v'.maxStack⟩
      (Scope.floor ⟨v'.program, f, v'.maxStack⟩) (Scope.entryStack ⟨v'.program, f, v'.maxStack⟩) = .ok u :=
      results
    rw [results']
    exact .inl ⟨_, rfl, rfl⟩
  | error cause =>
    have results' : Scope.checkResults ⟨v'.program, f, v'.maxStack⟩
      (Scope.floor ⟨v'.program, f, v'.maxStack⟩) (Scope.entryStack ⟨v'.program, f, v'.maxStack⟩) =
        .error cause := results
    rw [results']
    exact .inr ⟨_, rfl, rfl⟩

/-- Every check of a function comes to an end, for any program, code, limit of the stack and table of
globals. Code without a graph and code without blocks are answered without a search. Otherwise no search
from the entry takes more than a fixed number of turns, all of them at blocks of the graph and no two of
them at one block with the same stack of types and the same globals written; and after some number of
turns there is no pending visit left and the check succeeds, or the next turn fails and the check fails
with its error. -/
theorem check_terminates (f : Function) (v : Verifier) :
    let c : Scope := ⟨v.program, f, v.maxStack⟩
    let start : Search := .start c v.globals
    (∃ e, Graph.build f.code = .error e ∧ check f v = .error e v) ∨
      ∃ g, Graph.build f.code = .ok g ∧
        ((g.blocks = #[] ∧
            (check f v = .ok [c.entryStack.reverse] v ∨
              ∃ cause, check f v = .error (Error.atOffset cause 0) v)) ∨
          (∀ n s, Search.Turns c g n start s →
              n ≤ (Bounds.around c g v.globals).turns g.blocks.size ∧
                (s.seen.map Visit.mark).Nodup ∧
                ∀ w ∈ s.pending, w.block < g.blocks.size) ∧
            ∃ n s, Search.Turns c g n start s ∧
              ((s.step c g = .ok none ∧
                  check f v = .ok (s.exits.map List.reverse) { v with globals := s.globals }) ∨
                ∃ failure, s.step c g = .error failure ∧
                  check f v = .error failure.error { v with globals := failure.globals })) := by
  intro c start
  cases built : Graph.build f.code with
  | error e => exact .inl ⟨e, rfl, check_of_error v built⟩
  | ok g =>
    refine .inr ⟨g, rfl, ?_⟩
    by_cases empty : g.blocks.isEmpty = true
    · exact .inl ⟨Array.isEmpty_iff.1 empty, check_of_empty v built empty⟩
    · have filled : g.blocks.isEmpty = false := by simpa using empty
      obtain ⟨sites, cut⟩ := Flow.cut_of_build built
      refine .inr ⟨?_, ?_⟩
      · intro n s turns
        have accounted := Search.Accounted.of_turns turns cut filled
        exact ⟨accounted.le_turns, accounted.distinct, accounted.known⟩
      · have checked : check f v = v.conclude (c.searchBy .first g v.globals) := by
          rw [check_eq_checkBy, checkBy, checkWith_eq v built filled]
        obtain ⟨found, failed⟩ := Search.ends_of_searchBy (c := c) (g := g) (T := v.globals)
        cases searched : c.searchBy .first g v.globals with
        | ok s =>
          obtain ⟨n, turns, ended⟩ := found s searched
          exact ⟨n, s, turns, .inl ⟨ended, by rw [checked, searched]; rfl⟩⟩
        | error failure =>
          obtain ⟨n, s, turns, broke⟩ := failed failure searched
          exact ⟨n, s, turns, .inr ⟨failure, broke, by rw [checked, searched]; rfl⟩⟩

/-- A loop that leaves one more number on the stack in every round. -/
def climbing : Function := ⟨⟨[], []⟩, 0, Instruction.assemble [⟨.const .i32, [1]⟩, ⟨.br, [0x100000000 - 10]⟩]⟩

/-- Where three types fit the stack, the fourth turn finds no room. -/
example : answerWithin 4 climbing ⟨⟨#[], #[], #[]⟩, 3, .empty⟩ =
    some (.error ⟨⟨.stackOverflow, some 0, some 0⟩, .empty⟩) := by decide +kernel

end Verifier

end StackVM
