import StackVM.Proofs.Code.Listing
import StackVM.Proofs.Verifier.Termination

/-!
# Where errors are

An error of the verifier tells the place that a user is shown. Main statement: `check_error_place`. The
offset of an error is that of an instruction in the block that it names, or of the end of the code, where
control runs off; an error without a block is about code that has no graph, and there is a line to show for it
exactly if it is about a jump.

An error gets its place where it arises: from the rule of an instruction (`through_error_place`), from the
look at the results after a block (`visit_error_place`), or from cutting the code into blocks
(`line?_of_build_error`). The lines that can be shown are those of the instructions that decode
(`line?_isSome_iff`), and so the search can show one for every error before the end of the code
(`place_of_visit`).
-/

namespace StackVM

namespace Code

variable {code : Code} {offset : Nat} {e : Error}

/-! ### Lines that can be shown -/

theorem line?_isSome_iff : (code.line? offset).isSome ↔ ∃ l ∈ code.scan.1, l.offset = offset := by
  rw [Option.isSome_iff_exists]
  constructor
  · rintro ⟨text, found⟩
    obtain ⟨l, known, here, -⟩ := line?_eq_some_iff.1 found
    exact ⟨l, known, here⟩
  · rintro ⟨l, known, here⟩
    exact ⟨l.inst.text, line?_eq_some_iff.2 ⟨l, known, here, rfl⟩⟩

/-- There is no line at the end of the code. -/
theorem line?_size (code : Code) : ¬ (code.line? code.size).isSome := by
  rw [line?_isSome_iff]
  rintro ⟨l, known, here⟩
  have inside := (decoded_of_scanFrom known).1
  omega

/-- There is no line where the code stops to decode. -/
theorem line?_of_undecoded (failed : code.instructions = .error e) :
    ∃ offset, e.offset = some offset ∧ ¬ (code.line? offset).isSome := by
  obtain ⟨-, -, -, stopped⟩ := scanFrom_reads code 0
  obtain ⟨n, c, ends, -, rfl⟩ := undecoded_of_error failed
  cases streamEnd_unique ends (streamEnd_scan code)
  refine ⟨_, rfl, ?_⟩
  rw [line?_isSome_iff]
  rintro ⟨l, known, here⟩
  have decoded := (decoded_of_scanFrom known).2
  rw [instructions_eq, scan] at failed
  split at failed
  · cases failed
  · next located e scanned =>
    have undecoded := (stopped e (by rw [scanned])).2
    rw [Nat.zero_add, ← here, decoded] at undecoded
    cases undecoded

/-- The error of code without a graph is at an offset, and there is a line for it exactly if a jump is to
blame. -/
theorem line?_of_build_error (failed : Graph.build code = .error e) :
    e.block = none ∧ ∃ offset, e.offset = some offset ∧
      ((code.line? offset).isSome ↔ e.cause = .invalidJump) := by
  refine ⟨Verifier.build_error_block failed, ?_⟩
  rcases Flow.build_eq_error failed with ⟨l, known, rfl, -⟩ | undecoded
  · exact ⟨l.offset, rfl, fun _ => rfl, fun _ => line?_isSome_iff.2 ⟨l, known, rfl⟩⟩
  · obtain ⟨offset, here, none⟩ := line?_of_undecoded undecoded
    exact ⟨offset, here, fun some => absurd some none,
      fun jump => absurd jump (cause_of_undecoded undecoded)⟩

end Code

namespace Verifier

namespace Scope

variable {c : Scope} {index : Nat} {block : Block} {s : State} {failure : Failure}

/-! ### Errors of a block -/

/-- A rule that fails is blamed on its instruction. -/
theorem through_error_place {ls : List Located} (failed : c.through index ls s = .error failure) :
    ∃ l ∈ ls, failure.error.offset = some l.offset := by
  induction ls generalizing s with
  | nil => cases failed
  | cons l ls ih =>
    simp only [through] at failed
    split at failed
    · obtain ⟨l', mem, here⟩ := ih failed
      exact ⟨l', List.mem_cons_of_mem l mem, here⟩
    · cases failed
      exact ⟨l, List.mem_cons_self, rfl⟩

/-- A block fails at one of its instructions, or at its end if control runs off there. -/
theorem visit_error_place (failed : c.visit index block s = .error failure) :
    (∃ l ∈ block.body, failure.error.offset = some l.offset) ∨
      failure.error.offset = some block.stop ∧ block.stop = c.function.code.size := by
  rcases visit_eq_error failed with failed | ⟨s', cause, -, runs, -, rfl⟩
  · exact .inl (through_error_place failed)
  · simp only [runsOff, Bool.and_eq_true, beq_iff_eq] at runs
    exact .inr ⟨rfl, runs.1⟩

end Scope

/-! ### Errors of a check -/

/-- In a block of the graph a line can be shown for every error but one at the end of the code. -/
theorem place_of_visit {c : Scope} {g : Graph} {sites : List Site} {b : Nat} {block : Block} {s : State}
    {failure : Failure} (cut : Flow.Cut c.function.code g sites) (mem : block ∈ g.blocks)
    (failed : c.visit b block s = .error failure) :
    ∃ offset, failure.error.offset = some offset ∧
      ((∃ l ∈ c.function.code.scan.1, l.offset = offset ∧ block.start ≤ offset ∧ offset < block.stop) ∨
        offset = block.stop ∧ offset = c.function.code.size) ∧
      ((c.function.code.line? offset).isSome ↔ offset < c.function.code.size) := by
  rcases Scope.visit_error_place failed with ⟨l, here, place⟩ | ⟨place, last⟩
  · obtain ⟨s, site, rfl, after, inside⟩ := cut.site_of_body mem here
    have known := cut.mem_scan.2 ⟨s, site, rfl⟩
    have within := (Code.decoded_of_scanFrom known).1
    exact ⟨_, place, .inl ⟨_, known, rfl, after, inside⟩, fun _ => within,
      fun _ => Code.line?_isSome_iff.2 ⟨_, known, rfl⟩⟩
  · refine ⟨_, place, .inr ⟨rfl, last⟩, fun line => ?_, fun inside => ?_⟩
    · rw [last] at line
      exact absurd line (Code.line?_size c.function.code)
    · exact absurd last (Nat.ne_of_lt inside)

/-- The results of code without blocks are missed at its start. -/
theorem error_of_empty {f : Function} {g : Graph} {v v' : Verifier} {e : Error}
    (built : Graph.build f.code = .ok g) (empty : g.blocks.isEmpty = true)
    (failed : check f v = .error e v') : e.offset = some 0 ∧ e.block = none := by
  unfold check at failed
  rw [Check.get_bind] at failed
  simp only [built, empty, if_true] at failed
  cases results : Scope.checkResults ⟨v.program, f, v.maxStack⟩ (Scope.floor ⟨v.program, f, v.maxStack⟩)
      (Scope.entryStack ⟨v.program, f, v.maxStack⟩) with
  | ok u =>
    rw [results] at failed
    cases failed
  | error cause =>
    rw [results] at failed
    cases failed
    exact ⟨rfl, rfl⟩

/-- Every error of a check is at an offset. If it names a block, the code has a graph, and the offset is where an
instruction of that block starts, or it is the end of the block and of the code, where control runs off; and
there is a line for it exactly if it lies in the code. If it names no block and the code is not empty, it is the
error of the code having no graph, and there is a line for it exactly if a jump is to blame. -/
theorem check_error_place (f : Function) (v v' : Verifier) (e : Error) (failed : check f v = .error e v') :
    ∃ offset, e.offset = some offset ∧
      (∀ b, e.block = some b → ∃ g block, Graph.build f.code = .ok g ∧ g.blocks[b]? = some block ∧
        ((∃ l ∈ f.code.scan.1, l.offset = offset ∧ block.start ≤ offset ∧ offset < block.stop) ∨
          offset = block.stop ∧ offset = f.code.size) ∧
        ((f.code.line? offset).isSome ↔ offset < f.code.size)) ∧
      (e.block = none → 0 < f.code.size →
        Graph.build f.code = .error e ∧ ((f.code.line? offset).isSome ↔ e.cause = .invalidJump)) := by
  cases built : Graph.build f.code with
  | error e' =>
    rw [check_of_error v built] at failed
    cases failed
    obtain ⟨unblamed, offset, here, line⟩ := Code.line?_of_build_error built
    refine ⟨offset, here, fun b blamed => ?_, fun _ _ => ⟨rfl, line⟩⟩
    rw [unblamed] at blamed
    cases blamed
  | ok g =>
    obtain ⟨sites, cut⟩ := Flow.cut_of_build built
    by_cases empty : g.blocks.isEmpty = true
    · obtain ⟨here, unblamed⟩ := error_of_empty built empty failed
      have size := (cut.size_of_empty empty).2
      refine ⟨0, here, fun b blamed => ?_, fun _ nonempty => ?_⟩
      · rw [unblamed] at blamed
        cases blamed
      · omega
    · have filled : g.blocks.isEmpty = false := by simpa using empty
      rw [check_eq_checkBy, checkBy, checkWith_eq v built filled] at failed
      cases searched : Scope.searchBy .first ⟨v.program, f, v.maxStack⟩ g v.globals with
      | ok s =>
        rw [searched] at failed
        cases failed
      | error failure =>
        rw [searched] at failed
        cases failed
        -- the search fails in a block, and the error names it
        obtain ⟨b, before, block, path, blamed, -, at_b, -, visited⟩ := error_of_search searched
        obtain ⟨offset, here, place⟩ := place_of_visit cut (Array.mem_of_getElem? at_b) visited
        refine ⟨offset, here, fun b' blamed' => ?_, fun unblamed => ?_⟩
        · cases blamed.symm.trans blamed'
          exact ⟨g, block, rfl, at_b, place⟩
        · rw [blamed] at unblamed
          cases unblamed

/-- Code whose end is reached without the result that its type promises. -/
def unfinished : Function := ⟨⟨[], [.i32]⟩, 0, Instruction.assemble [⟨.const .i64, [1]⟩]⟩

/-- Code with a jump past its end. -/
def astray : Function := ⟨⟨[], []⟩, 0, Instruction.assemble [⟨.nop, []⟩, ⟨.br, [1]⟩]⟩

/-- An error at an instruction, one at the end of the code, and one about a jump. -/
theorem errors_in_place :
    let v : Verifier := .new ⟨#[], #[], #[]⟩ {}
    check clash v = .error ⟨.typeMismatch, some 30, some 2⟩ { v with globals := { entries := [some .i32] } } ∧
    (clash.code.line? 30).isSome ∧
    check unfinished v = .error ⟨.typeMismatch, some 9, some 0⟩ v ∧ ¬ (unfinished.code.line? 9).isSome ∧
    check astray v = .error ⟨.invalidJump, some 1, none⟩ v ∧ 0 < astray.code.size ∧
    (astray.code.line? 1).isSome := by
  intro v
  obtain ⟨nonempty, answered, nonempty', answered', filled, built⟩ :
      0 < clash.code.size ∧
        answerWithin 20 clash v =
          some (.error ⟨⟨.typeMismatch, some 30, some 2⟩, { entries := [some .i32] }⟩) ∧
        0 < unfinished.code.size ∧
        answerWithin 20 unfinished v = some (.error ⟨⟨.typeMismatch, some 9, some 0⟩, .empty⟩) ∧
        0 < astray.code.size ∧ Graph.build astray.code = .error ⟨.invalidJump, some 1, none⟩ := by
    decide +kernel
  have checked := check_of_answerWithin nonempty answered
  have checked' := check_of_answerWithin nonempty' answered'
  have checked'' := check_of_error v built
  obtain ⟨_, here, blamed, -⟩ := check_error_place clash v _ _ checked
  cases here
  obtain ⟨_, here', blamed', -⟩ := check_error_place unfinished v _ _ checked'
  cases here'
  obtain ⟨_, here'', -, unblamed⟩ := check_error_place astray v _ _ checked''
  cases here''
  obtain ⟨-, -, -, -, -, line⟩ := blamed 2 rfl
  obtain ⟨-, -, -, -, -, line'⟩ := blamed' 0 rfl
  exact ⟨checked, line.2 (by decide), checked', fun shown => absurd (line'.1 shown) (by decide), checked'',
    filled, (unblamed rfl filled).2.2 rfl⟩

end Verifier

end StackVM
