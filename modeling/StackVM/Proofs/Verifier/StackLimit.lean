import StackVM.Proofs.Verifier.Recipe
import StackVM.Proofs.Verifier.Termination

/-!
# The limit for simulated stacks

What the limit does to a check. Main statements: no stack that a check simulates, at any moment of any
instruction, is higher than the limit or the stack on entry (`simulated_heights`); and a check under a
higher limit ends as it does under a lower one, unless that one overflows
(`check_under_raised_limit`).

Only pushes ask for the limit, so the parameters and locals on entry are never held against it, and a
function with too many of them passes (`idle_above_limit`).
-/

namespace StackVM

namespace Verifier

namespace Scope

/-- The stacks that a search through `g` simulates when it begins with the table `T`: the one on entry, and
those that the rules of instructions pass, one after the other, in a block that the search visits. -/
inductive Simulated (c : Scope) (g : Graph) (T : Table Ty) : List Ty → Prop where
  | entry : Simulated c g T c.entryStack
  | passed {n : Nat} {s : Search} {v : Visit} {rest : List Visit} {block : Block} {ls ls' : List Located}
    {l : Located} {before : State} {stack : List Ty} (turns : Search.Turns c g n (.start c T) s)
    (pending : s.pending = v :: rest) (fresh : ¬∃ w ∈ s.seen, w.mark = v.mark)
    (at_block : g.blocks[v.block]? = some block) (body : block.body = ls ++ l :: ls')
    (reached : c.through v.block ls ⟨v.path, s.globals⟩ = .ok before)
    (passes : (c.recipe l.inst).Passes c.maxStack before stack) : Simulated c g T stack

variable {c : Scope} {g : Graph} {T : Table Ty} {index : Nat} {stack : List Ty}

theorem contains_of_turns {n : Nat} {s : Search} (turns : Search.Turns c g n (.start c T) s) :
    (Bounds.around c g T).Contains s := by
  generalize begins : Search.start c T = first at turns
  induction turns with
  | none =>
    rw [← begins]
    exact Bounds.around_contains
  | next _ stepped ih => exact Bounds.contains_step Bounds.around_covers Bounds.around_names (ih begins) stepped

/-- Simulated stacks are no higher than the limit or the stack on entry. -/
theorem Simulated.height_le (simulated : c.Simulated g T stack) :
    stack.length ≤ max c.entryStack.length c.maxStack := by
  cases simulated with
  | entry => exact Nat.le_max_left _ _
  | @passed _ s v _ block ls _ _ _ _ turns pending _ at_block body reached passes =>
    have waiting : v ∈ s.pending := by
      rw [pending]
      exact List.mem_cons_self
    have named : ∀ l ∈ ls, l.inst.operand 0 < (Bounds.around c g T).indices := by
      intro l mem
      apply Bounds.around_names block (Array.mem_of_getElem? at_block) l
      rw [body]
      exact List.mem_append_left _ mem
    -- the bounds within which the search ends are the limit and the stack on entry
    have before := (Bounds.holds_through Bounds.around_covers named
      (contains_of_turns turns v waiting).2 reached).height
    have passed := Recipe.passes_le _ passes
    simp only [Bounds.around] at before
    omega

theorem through_append {ls ls' : List Located} {s s' : State} :
    c.through index (ls ++ ls') s = .ok s' ↔
      ∃ between, c.through index ls s = .ok between ∧ c.through index ls' between = .ok s' := by
  induction ls generalizing s with
  | nil => simp [through]
  | cons l ls ih =>
    simp only [List.cons_append, through]
    cases c.apply l.inst s with
    | ok answer => exact ih
    | error cause => simp

/-- What the last instruction of a block leaves is simulated. -/
theorem Simulated.of_visit {n : Nat} {s : Search} {v : Visit} {rest : List Visit} {block : Block}
    {after : State} {last : Located} (turns : Search.Turns c g n (.start c T) s)
    (pending : s.pending = v :: rest) (fresh : ¬∃ w ∈ s.seen, w.mark = v.mark)
    (at_block : g.blocks[v.block]? = some block) (ends : block.body.getLast? = some last)
    (visited : c.visit v.block block ⟨v.path, s.globals⟩ = .ok after) :
    c.Simulated g T after.stack := by
  have through := (visit_eq_ok visited).1
  obtain ⟨ls, body⟩ := List.getLast?_eq_some_iff.1 ends
  rw [body] at through
  obtain ⟨before, reached, done⟩ := through_append.1 through
  simp only [Scope.through] at done
  split at done
  · next between applied =>
    cases done
    exact .passed turns pending fresh at_block body reached (Recipe.passes_end _ applied)
  · cases done

theorem Simulated.of_exit {sites : List Site} (cut : Flow.Cut c.function.code g sites) {n : Nat} {s : Search}
    (turns : Search.Turns c g n (.start c T) s) (exit : stack ∈ s.exits) : c.Simulated g T stack := by
  generalize begins : Search.start c T = first at turns
  induction turns with
  | none =>
    rw [← begins] at exit
    cases exit
  | @next _ _ s s' turns stepped ih =>
    obtain ⟨v, rest, pending, taken⟩ := Search.step_eq_some stepped
    rcases taken with ⟨rfl, -⟩ | ⟨block, after, at_block, fresh, visited, rfl⟩
    · exact ih exit begins
    · rcases Search.mem_exits_record.1 exit with old | ⟨-, rfl⟩
      · exact ih old begins
      · obtain ⟨last, -, -, ends, -⟩ := cut.last_site at_block
        rw [← begins] at turns
        exact .of_visit turns pending fresh at_block ends visited

end Scope

/-! ### Heights -/

theorem length_entryStack (c : Scope) :
    c.entryStack.length = c.function.signature.params.length + c.function.locals := by
  simp [Scope.entryStack, Nat.add_comm]

/-- No stack that the check of a function simulates is higher than the limit, or than its parameters and
locals are on entry. So the limit holds for all of them exactly if it holds for the parameters and locals.
If the check succeeds, its answer consists of such stacks. -/
theorem simulated_heights {f : Function} {g : Graph} (v : Verifier) (built : Graph.build f.code = .ok g) :
    let c : Scope := ⟨v.program, f, v.maxStack⟩
    let entry := f.signature.params.length + f.locals
    (∀ stack, c.Simulated g v.globals stack → stack.length ≤ max entry v.maxStack) ∧
      ((∀ stack, c.Simulated g v.globals stack → stack.length ≤ v.maxStack) ↔ entry ≤ v.maxStack) ∧
      ∀ exits v', check f v = .ok exits v' →
        ∀ stack ∈ exits, c.Simulated g v.globals stack.reverse ∧ stack.length ≤ max entry v.maxStack := by
  intro c entry
  have heights : ∀ stack, c.Simulated g v.globals stack → stack.length ≤ max entry v.maxStack := by
    intro stack simulated
    have height := simulated.height_le
    rwa [length_entryStack] at height
  refine ⟨heights, ?_, ?_⟩
  · constructor
    · intro within
      have height := within _ .entry
      rwa [length_entryStack] at height
    · intro within stack simulated
      have height := heights stack simulated
      omega
  · intro exits v' checked stack mem
    suffices simulated : c.Simulated g v.globals stack.reverse by
      have height := heights _ simulated
      exact ⟨simulated, by rwa [List.length_reverse] at height⟩
    obtain ⟨g', built', -, -, outcome⟩ := check_eq_ok checked
    cases built.symm.trans built'
    rcases outcome with ⟨-, -, -, rfl⟩ | ⟨-, s, searched, -, rfl⟩
    · cases List.mem_singleton.1 mem
      rw [List.reverse_reverse]
      exact .entry
    · obtain ⟨sites, cut⟩ := Flow.cut_of_build built
      obtain ⟨n, turns, -⟩ := Search.ends_of_searchBy.1 s (search_eq_searchBy.symm.trans searched)
      obtain ⟨exit, left, rfl⟩ := List.mem_map.1 mem
      rw [List.reverse_reverse]
      exact .of_exit cut turns left

/-- A function with a parameter and a local that copies the parameter twice and returns. -/
def burdened : Function :=
  ⟨⟨[.i32], []⟩, 1, Instruction.assemble
    [⟨.localGet, [0]⟩, ⟨.dup, []⟩, ⟨.drop, []⟩, ⟨.drop, []⟩, ⟨.ret, []⟩]⟩

/-- Its copies need room for four types, and it stays within that limit. -/
theorem burdened_heights :
    let v : Verifier := ⟨⟨#[], #[], #[]⟩, 4, .empty⟩
    check burdened v = .ok [[.i32, .ref]] v ∧
      ∃ g, Graph.build burdened.code = .ok g ∧
        ∀ stack, Scope.Simulated ⟨v.program, burdened, 4⟩ g .empty stack → stack.length ≤ 4 := by
  intro v
  obtain ⟨nonempty, answered⟩ : 0 < burdened.code.size ∧
      answerWithin 4 burdened v = some (.ok ([[.i32, .ref]], .empty)) := by decide +kernel
  have checked := check_of_answerWithin nonempty answered
  obtain ⟨g, built, -⟩ := check_eq_ok checked
  exact ⟨checked, g, built, (simulated_heights v built).2.1.2 (by decide)⟩

/-- A function with a parameter and a local that returns at once. -/
def idle : Function := ⟨⟨[.i32], []⟩, 1, Instruction.assemble [⟨.ret, []⟩]⟩

/-- Where one type has room, a function that begins and ends with two passes. -/
theorem idle_above_limit :
    let v : Verifier := ⟨⟨#[], #[], #[]⟩, 1, .empty⟩
    check idle v = .ok [[.i32, .ref]] v ∧ v.maxStack < [Ty.i32, .ref].length := by
  intro v
  obtain ⟨nonempty, answered⟩ : 0 < idle.code.size ∧
      answerWithin 4 idle v = some (.ok ([[.i32, .ref]], .empty)) := by decide +kernel
  exact ⟨check_of_answerWithin nonempty answered, by decide⟩

/-! ### Higher limits -/

/-- It failed because a push found no room. -/
def Overflows {α : Type} (outcome : Except Failure α) : Prop :=
  ∃ failure, outcome = .error failure ∧ failure.error.cause = .stackOverflow

section Raised

variable {c : Scope} {g : Graph} {T : Table Ty} {limit : Nat} (le : c.maxStack ≤ limit)
include le

theorem through_raised (index : Nat) (ls : List Located) (s : State) :
    Overflows (c.through index ls s) ∨ (c.limited limit).through index ls s = c.through index ls s := by
  induction ls generalizing s with
  | nil => exact .inr rfl
  | cons l ls ih =>
    simp only [Scope.through]
    rcases (c.recipe l.inst).raised le s with overflows | same
    · have overflows : c.apply l.inst s = .error .stackOverflow := overflows
      rw [overflows]
      exact .inl ⟨_, rfl, rfl⟩
    · have same : (c.limited limit).apply l.inst s = c.apply l.inst s := same
      rw [same]
      cases c.apply l.inst s with
      | error cause => exact .inr rfl
      | ok answer => exact ih answer.2

theorem visit_raised (index : Nat) (block : Block) (s : State) :
    Overflows (c.visit index block s) ∨ (c.limited limit).visit index block s = c.visit index block s := by
  rcases through_raised le index block.body s with ⟨failure, failed, overflow⟩ | same
  · refine .inl ⟨failure, ?_, overflow⟩
    rw [Scope.visit, failed]
    rfl
  -- looking at the results asks for no room
  · refine .inr ?_
    unfold Scope.visit
    rw [same]
    rfl

theorem step_raised (s : Search) :
    Overflows (s.step c g) ∨ s.step (c.limited limit) g = s.step c g := by
  unfold Search.step
  split
  · exact .inr rfl
  · next v rest pending =>
    split
    · exact .inr rfl
    · split
      · exact .inr rfl
      · next block at_block =>
        rcases visit_raised le v.block block ⟨v.path, s.globals⟩ with ⟨failure, failed, overflow⟩ | same
        · rw [failed]
          exact .inl ⟨failure, rfl, overflow⟩
        · rw [same]
          exact .inr rfl

/-- Two searches side by side, which differ in the limit only. -/
theorem runBy_raised {d : Discipline} {b b' : Bounds} {covers : b.Covers c} {names : b.Names g} {s : Search}
    {contains : b.Contains s} {covers' : b'.Covers (c.limited limit)} {names' : b'.Names g}
    {contains' : b'.Contains s} :
    Overflows (s.runBy d c g b covers names contains) ∨
      s.runBy d (c.limited limit) g b' covers' names' contains' =
        s.runBy d c g b covers names contains := by
  fun_induction Search.runBy d c g b covers names s contains with
  | case1 s contains failure failed =>
    rcases step_raised le (s.advanced (d s)) with ⟨failure', failed', overflow⟩ | same
    · cases failed.symm.trans failed'
      exact .inl ⟨failure, rfl, overflow⟩
    · exact .inr (Search.runBy_eq_error (same.trans failed))
  | case2 s contains ended =>
    rcases step_raised le (s.advanced (d s)) with ⟨failure, failed, -⟩ | same
    · cases ended.symm.trans failed
    · exact .inr (Search.runBy_eq_ok (same.trans ended))
  | case3 s contains next stepped ih =>
    rcases step_raised le (s.advanced (d s)) with ⟨failure, failed, -⟩ | same
    · cases stepped.symm.trans failed
    · have stepped' : s.stepBy d (c.limited limit) g = .ok (some next) := same.trans stepped
      have inside := b'.contains_step covers' names' (b'.contains_advanced contains' (d s)) stepped'
      have rest := @ih inside
      rwa [← Search.runBy_eq_next stepped'] at rest

theorem searchBy_raised {d : Discipline} :
    Overflows (c.searchBy d g T) ∨ (c.limited limit).searchBy d g T = c.searchBy d g T :=
  runBy_raised le

end Raised

/-- The outcome of a check, with another limit in the verifier that it leaves. -/
def relimited {α : Type} (limit : Nat) : EStateM.Result Error Verifier α → EStateM.Result Error Verifier α
  | .ok a v => .ok a { v with maxStack := limit }
  | .error e v => .error e { v with maxStack := limit }

theorem check_raised (f : Function) (v : Verifier) {limit : Nat} (le : v.maxStack ≤ limit) :
    (∃ e v', check f v = .error e v' ∧ e.cause = .stackOverflow) ∨
      check f { v with maxStack := limit } = relimited limit (check f v) := by
  cases built : Graph.build f.code with
  | error e =>
    rw [check_of_error v built, check_of_error _ built]
    exact .inr rfl
  | ok g =>
    by_cases empty : g.blocks.isEmpty = true
    · refine .inr ?_
      rcases check_alike_of_empty v { v with maxStack := limit } built empty with
        ⟨exits, checked, checked'⟩ | ⟨e, failed, failed'⟩
      · rw [checked, checked']
        rfl
      · rw [failed, failed']
        rfl
    · have filled : g.blocks.isEmpty = false := by simpa using empty
      have ended (v : Verifier) : check f v =
          v.conclude (Scope.searchBy .first ⟨v.program, f, v.maxStack⟩ g v.globals) := by
        rw [check_eq_checkBy, checkBy, checkWith_eq v built filled]
      have raised : Overflows (Scope.searchBy .first ⟨v.program, f, v.maxStack⟩ g v.globals) ∨
          Scope.searchBy .first ⟨v.program, f, limit⟩ g v.globals =
            Scope.searchBy .first ⟨v.program, f, v.maxStack⟩ g v.globals := searchBy_raised le
      rw [ended, ended]
      rcases raised with ⟨failure, failed, overflow⟩ | same
      · rw [failed]
        exact .inl ⟨failure.error, _, rfl, overflow⟩
      · rw [same]
        cases Scope.searchBy .first ⟨v.program, f, v.maxStack⟩ g v.globals with
        | ok s => exact .inr rfl
        | error failure => exact .inr rfl

/-- A check under a higher limit ends as it does under a lower one: with the same answer in the same order,
or with the same error, and in both cases with the same table of globals. Only a check that finds no room
may end differently. -/
theorem check_under_raised_limit (f : Function) (v : Verifier) {limit : Nat} (le : v.maxStack ≤ limit) :
    (∀ exits v', check f v = .ok exits v' →
      check f { v with maxStack := limit } = .ok exits { v' with maxStack := limit }) ∧
    ∀ e v', check f v = .error e v' → e.cause ≠ .stackOverflow →
      check f { v with maxStack := limit } = .error e { v' with maxStack := limit } := by
  rcases check_raised f v le with ⟨e, v', failed, overflow⟩ | same
  · rw [failed]
    constructor
    · intro exits v'' checked
      cases checked
    · intro e' v'' failed' other
      cases failed'
      exact absurd overflow other
  · rw [same]
    constructor
    · intro exits v' checked
      rw [checked]
      rfl
    · intro e v' failed _
      rw [failed]
      rfl

/-- A loop that leaves its function with two different stacks, and a function that is refused because of a
global. Two types have room in both, and more room changes neither the order of the stacks nor the error. -/
theorem rounds_under_raised_limit :
    let v : Verifier := ⟨⟨#[], #[], #[]⟩, 2, .empty⟩
    let T : Table Ty := { entries := [some .i32] }
    v.maxStack ≤ 1024 ∧
    check rounds v = .ok [[.i32, .i32], [.i32, .scalar .i64]] { v with globals := T } ∧
    check rounds { v with maxStack := 1024 } = .ok [[.i32, .i32], [.i32, .scalar .i64]]
      { v with globals := T, maxStack := 1024 } ∧
    check clash v = .error ⟨.typeMismatch, some 30, some 2⟩ { v with globals := T } ∧
    check clash { v with maxStack := 1024 } = .error ⟨.typeMismatch, some 30, some 2⟩
      { v with globals := T, maxStack := 1024 } := by
  intro v T
  have le : v.maxStack ≤ 1024 := by decide
  obtain ⟨nonempty, nonempty', answered, answered'⟩ :
      0 < rounds.code.size ∧ 0 < clash.code.size ∧
        answerWithin 20 rounds v = some (.ok ([[.i32, .i32], [.i32, .scalar .i64]], T)) ∧
        answerWithin 20 clash v = some (.error ⟨⟨.typeMismatch, some 30, some 2⟩, T⟩) := by
    decide +kernel
  have checked := check_of_answerWithin nonempty answered
  have failed := check_of_answerWithin nonempty' answered'
  exact ⟨le, checked, (check_under_raised_limit rounds v le).1 _ _ checked, failed,
    (check_under_raised_limit clash v le).2 _ _ failed (by decide)⟩

end Verifier

end StackVM
