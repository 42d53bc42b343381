import StackVM.Proofs.Machine.Shape
import StackVM.Proofs.Verifier.Transfer

/-!
# Heights of checked stacks

The rule of an instruction other than a call or a return takes and leaves as many types as the
instruction takes and leaves values, and it writes the globals that the instruction writes. Main
statement: `Transfers.shift`, the counterpart of `Machine.Moved` for stacks of types.
-/

namespace StackVM

namespace Verifier

namespace Scope

/-- The index in the instruction names something that the path has. -/
def Names (c : Scope) (p : Path) (inst : Instruction) : Prop :=
  match inst.opcode with
  | .globalGet => p.written (inst.operand 0) = true
  | .localGet | .localSet | .localTee => inst.operand 0 < c.floor
  | .constGet => (c.program.constants[inst.operand 0]?).isSome
  | .arrayNew | .structNew | .structNewDefault => (c.program.types[inst.operand 0]?).isSome
  | _ => False

/-- What a rule does to the height of a path and to the globals it has written. -/
structure Shift (c : Scope) (inst : Instruction) (p p' : Path) : Prop where
  enough : c.floor ≤ p.stack.length → c.floor + inst.takes c.program.types ≤ p.stack.length
  height : p'.stack.length + inst.takes c.program.types = p.stack.length + inst.gives
  room : inst.gives ≤ inst.takes c.program.types ∨ p'.stack.length ≤ c.maxStack
  written : ∀ i, p'.written i = (p.written i || inst.writes i)
  named : inst.opcode ∈ Opcode.indexed → c.Names p inst

variable {c : Scope} {T : Table Ty} {inst : Instruction} {p p' : Path}

/-- A rule that takes `n` types off, leaves `k` and writes no global. -/
theorem Shift.of_stack {stack stack' : List Ty} {w : Table Ty} (n k : Nat)
    (takes : inst.takes c.program.types = n) (gives : inst.gives = k)
    (silent : ∀ i, inst.writes i = false) (enough : n = 0 ∨ c.floor + n ≤ stack.length)
    (height : stack'.length + n = stack.length + k) (room : k ≤ n ∨ stack'.length ≤ c.maxStack)
    (named : inst.opcode ∈ Opcode.indexed → c.Names ⟨stack, w⟩ inst) :
    c.Shift inst ⟨stack, w⟩ ⟨stack', w⟩ where
  enough above := by
    rw [takes]
    rcases enough with none | enough
    · rwa [none]
    · exact enough
  height := by rwa [takes, gives]
  room := by rwa [takes, gives]
  written i := by simp [Path.written, silent]
  named := named

/-- A rule that takes one type off into a global and leaves `k` types. -/
theorem Shift.of_write {t fixed : Ty} {rest stack' : List Ty} {w : Table Ty} (k : Nat)
    (opcode : inst.opcode = .globalSet ∨ inst.opcode = .globalTee) (gives : inst.gives = k)
    (few : k ≤ 1) (above : c.floor ≤ rest.length) (height : stack'.length = rest.length + k) :
    c.Shift inst ⟨t :: rest, w⟩ ⟨stack', w.put (inst.operand 0) fixed⟩ := by
  have takes : inst.takes c.program.types = 1 := by
    rcases opcode with opcode | opcode <;> simp [Instruction.takes, opcode]
  have store : (inst.opcode == .globalSet || inst.opcode == .globalTee) = true := by
    rcases opcode with opcode | opcode <;> simp [opcode]
  refine ⟨fun _ => ?_, ?_, .inl ?_, fun i => ?_, fun indexed => ?_⟩
  · rw [takes, List.length_cons]
    omega
  · rw [takes, gives, List.length_cons, height]
    omega
  · omega
  -- the path records the global that the instruction writes
  · simp only [Path.written, Table.get?_put, Instruction.writes, store, Bool.true_and]
    by_cases here : inst.operand 0 = i
    · simp [here]
    · simp [here]
  · rcases opcode with opcode | opcode <;> simp [Opcode.indexed, opcode] at indexed

/-- An instruction that finds nothing by an index has nothing to name. -/
theorem names_of_free (free : Opcode.indexed.contains inst.opcode = false)
    (indexed : inst.opcode ∈ Opcode.indexed) : c.Names p inst := by
  rw [List.contains_iff_mem.2 indexed] at free
  cases free

/-- Every rule but those of calls and returns moves the height as the instruction does. -/
theorem Transfers.shift (transfer : c.Transfers T inst p p') (no_call : inst.opcode ≠ .call)
    (no_ret : inst.opcode ≠ .ret) : c.Shift inst p p' := by
  cases transfer with
  | nop => exact .of_stack 0 0 rfl rfl (fun _ => rfl) (.inl rfl) rfl (.inl (by omega)) (names_of_free rfl)
  | unreachable => exact .of_stack 0 0 rfl rfl (fun _ => rfl) (.inl rfl) rfl (.inl (by omega)) (names_of_free rfl)
  | br => exact .of_stack 0 0 rfl rfl (fun _ => rfl) (.inl rfl) rfl (.inl (by omega)) (names_of_free rfl)
  | brIf above =>
    refine .of_stack 1 0 rfl rfl (fun _ => rfl) (.inr ?_) rfl (.inl (by omega)) (names_of_free rfl)
    simpa using above
  | brTable above =>
    refine .of_stack 1 0 rfl rfl (fun _ => rfl) (.inr ?_) rfl (.inl (by omega)) (names_of_free rfl)
    simpa using above
  | drop above =>
    refine .of_stack 1 0 rfl rfl (fun _ => rfl) (.inr ?_) rfl (.inl (by omega)) (names_of_free rfl)
    simpa using above
  | dup above room =>
    refine .of_stack 1 2 rfl rfl (fun _ => rfl) (.inr ?_) rfl (.inr room) (names_of_free rfl)
    simpa using above
  | swap above room =>
    refine .of_stack 2 2 rfl rfl (fun _ => rfl) (.inr ?_) rfl (.inl (by omega)) (names_of_free rfl)
    simpa using above
  | select joined above room =>
    refine .of_stack 3 1 rfl rfl (fun _ => rfl) (.inr ?_) rfl (.inl (by omega)) (names_of_free rfl)
    simpa using above
  | call => exact absurd rfl no_call
  | ret => exact absurd rfl no_ret
  | globalGet index recorded known room =>
    subst index
    refine .of_stack 0 1 rfl rfl (fun _ => rfl) (.inl rfl) rfl (.inr room) fun _ => ?_
    exact Option.isSome_of_eq_some recorded
  | globalSet index known fits above =>
    subst index
    exact .of_write 0 (.inl rfl) rfl (by omega) above rfl
  | globalTee index known fits above room =>
    subst index
    exact .of_write 1 (.inr rfl) rfl (by omega) above rfl
  | localGet index inside found room =>
    subst index
    exact .of_stack 0 1 rfl rfl (fun _ => rfl) (.inl rfl) rfl (.inr room) fun _ => inside
  | localSet index inside above =>
    subst index
    refine .of_stack 1 0 rfl rfl (fun _ => rfl) (.inr ?_) (by simp) (.inl (by omega)) fun _ => inside
    simpa using above
  | localTee index inside above room =>
    subst index
    refine .of_stack 1 1 rfl rfl (fun _ => rfl) (.inr ?_) (by simp) (.inl (by omega)) fun _ => inside
    simpa using above
  | constGet index found room =>
    subst index
    refine .of_stack 0 1 rfl rfl (fun _ => rfl) (.inl rfl) rfl (.inr room) fun _ => ?_
    exact Option.isSome_of_eq_some found
  | refNull room => exact .of_stack 0 1 rfl rfl (fun _ => rfl) (.inl rfl) rfl (.inr room) (names_of_free rfl)
  | const room => exact .of_stack 0 1 rfl rfl (fun _ => rfl) (.inl rfl) rfl (.inr room) (names_of_free rfl)
  | @operation op _ ts rest w operands above room =>
    -- as many types as the operation has operands
    have length := operands.length_eq
    rw [List.length_replicate] at length
    refine .of_stack op.shape.arity 1 rfl rfl (fun _ => rfl) (.inr ?_) ?_ (.inr room) (names_of_free rfl)
    · rw [List.length_append]
      omega
    · rw [List.length_append, List.length_cons]
      omega
  | stringLen text above room =>
    refine .of_stack 1 1 rfl rfl (fun _ => rfl) (.inr ?_) rfl (.inl (by omega)) (names_of_free rfl)
    simpa using above
  | stringConcat first second above room =>
    refine .of_stack 2 1 rfl rfl (fun _ => rfl) (.inr ?_) rfl (.inl (by omega)) (names_of_free rfl)
    simpa using above
  | stringEq first second above room =>
    refine .of_stack 2 1 rfl rfl (fun _ => rfl) (.inr ?_) rfl (.inl (by omega)) (names_of_free rfl)
    simpa using above
  | stringNe first second above room =>
    refine .of_stack 2 1 rfl rfl (fun _ => rfl) (.inr ?_) rfl (.inl (by omega)) (names_of_free rfl)
    simpa using above
  | @arrayNew ops t elem ts rest w found array operands above room =>
    have length := operands.length_eq
    rw [List.length_replicate] at length
    refine .of_stack (Instruction.operand ⟨.arrayNew, ops⟩ 1) 1 rfl rfl (fun _ => rfl) ?_ ?_ (.inr room)
      fun _ => Option.isSome_of_eq_some found
    -- an empty array takes nothing off the stack
    · rcases above with rfl | above
      · exact .inl length.symm
      · refine .inr ?_
        rw [List.length_append]
        omega
    · rw [List.length_append, List.length_cons]
      omega
  | arrayNewDefault found array above room =>
    refine .of_stack 1 1 rfl rfl (fun _ => rfl) (.inr ?_) rfl (.inl (by omega)) (names_of_free rfl)
    simpa using above
  | arrayLen array above room =>
    refine .of_stack 1 1 rfl rfl (fun _ => rfl) (.inr ?_) rfl (.inl (by omega)) (names_of_free rfl)
    simpa using above
  | arrayGet array above room =>
    refine .of_stack 2 1 rfl rfl (fun _ => rfl) (.inr ?_) rfl (.inl (by omega)) (names_of_free rfl)
    simpa using above
  | arraySet array fits above =>
    refine .of_stack 3 0 rfl rfl (fun _ => rfl) (.inr ?_) rfl (.inl (by omega)) (names_of_free rfl)
    simpa using above
  | @structNew ops fields ts rest w found operands above room =>
    have length := operands.length_eq
    rw [List.length_reverse] at length
    have takes : Instruction.takes c.program.types ⟨.structNew, ops⟩ = fields.length := by
      simp only [Instruction.takes, found]
    refine .of_stack fields.length 1 takes rfl (fun _ => rfl) ?_ ?_ (.inr room)
      fun _ => Option.isSome_of_eq_some found
    · rcases above with rfl | above
      · exact .inl length.symm
      · refine .inr ?_
        rw [List.length_append]
        omega
    · rw [List.length_append, List.length_cons]
      omega
  | structNewDefault found room =>
    exact .of_stack 0 1 rfl rfl (fun _ => rfl) (.inl rfl) rfl (.inr room)
      fun _ => Option.isSome_of_eq_some found
  | structGet found above room =>
    refine .of_stack 1 1 rfl rfl (fun _ => rfl) (.inr ?_) rfl (.inl (by omega)) (names_of_free rfl)
    simpa using above
  | structSet found fits above =>
    refine .of_stack 2 0 rfl rfl (fun _ => rfl) (.inr ?_) rfl (.inl (by omega)) (names_of_free rfl)
    simpa using above

end Scope

end Verifier

end StackVM
