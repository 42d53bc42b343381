import StackVM.Proofs.Typing.KindEffects
import StackVM.Proofs.Verifier.Following
import StackVM.Proofs.Verifier.OneBlock

/-!
# Straight-line code on numbers

Code that only moves numbers about and computes with them, without divisions of integers, leaves nothing
for run time to decide: each instruction goes through exactly if its rule succeeds. The rule takes types
off one by one while the instruction asks for depth, room and kinds beforehand, but what they ask for is
the same, because the kinds of numbers tell their types and a machine within its limit has room for what
it has just taken off. Main statement: a program with such entry code and without constants passes the
verifier exactly if it runs to its end, and otherwise both blame the same offset (`straight_agrees`).
-/

namespace StackVM

open Verifier

/-! ### Instructions -/

/-- Operations on numbers that have a result for all operands. -/
def Operation.total : Operation → Bool
  | .refIsNull | .refEq | .refNe => false
  | .intBinary _ op => !op.divides
  | _ => true

/-- Instructions that move numbers about, or compute with them without dividing integers. -/
def Opcode.straight : Opcode → Bool
  | .nop | .drop | .dup | .swap | .select | .const _ => true
  | .operation op => op.total
  | _ => false

theorem IntBinary.eval_total {w : Nat} {op : IntBinary} {a b : BitVec w} {c : Cause}
    (total : op.divides = false) : op.eval a b ≠ .error c := by
  intro failed
  cases op with
  | divS | divU | remS | remU => cases total
  | _ => cases failed

theorem Operation.eval_total {op : Operation} {vs : List Value} {c : Cause} (total : op.total = true)
    (failed : op.eval vs = .error c) : c = .typeMismatch := by
  rcases op.cause_eval failed with mismatch | rfl
  · exact mismatch
  · unfold Operation.eval at failed
    split at failed
    case h_8 op a b =>
      have nonzero : op.divides = false := by simpa [Operation.total] using total
      exact absurd (error_of_map failed) (IntBinary.eval_total nonzero)
    case h_9 op a b =>
      have nonzero : op.divides = false := by simpa [Operation.total] using total
      exact absurd (error_of_map failed) (IntBinary.eval_total nonzero)
    case h_14 conversion v =>
      split at failed
      · cases failed
      · cases failed
    all_goals cases failed

/-- The operands of such an operation are numbers of one kind. -/
theorem Operation.operand_total {op : Operation} (total : op.total = true) :
    ∃ s, op.shape.operand = .scalar s := by
  cases op with
  | refIsNull | refEq | refNe => cases total
  | _ => exact ⟨_, rfl⟩

namespace Opcode

variable {op : Opcode}

theorem isTerminator_of_straight (straight : op.straight = true) : op.isTerminator = false := by
  cases op with
  | nop | drop | dup | swap | select | const | operation => rfl
  | _ => cases straight

theorem plain_of_straight (straight : op.straight = true) :
    (op ≠ .call ∧ op ≠ .ret) ∧ (op ≠ .arrayGet ∧ op ≠ .structGet) ∧ op ∉ inspecting := by
  cases op with
  | nop | drop | dup | swap | select | const | operation => simp [inspecting]
  | _ => cases straight

end Opcode

theorem Instruction.namesGlobal_of_straight {inst : Instruction} (straight : inst.opcode.straight = true) :
    inst.namesGlobal = false := by
  obtain ⟨opcode, operands⟩ := inst
  cases opcode with
  | globalGet | globalSet | globalTee => cases straight
  | _ => rfl

/-! ### Rules -/

/-- The types are those of numbers. -/
def Numbers (ts : List Ty) : Prop := ∀ t ∈ ts, ∃ s, t = .scalar s

theorem Operation.result_number (op : Operation) : ∃ s, Ty.ofKind op.shape.result = .scalar s := by
  cases op <;> exact ⟨_, rfl⟩

/-- The rules of these instructions lead from numbers to numbers and write nothing. -/
theorem Verifier.Scope.Transfers.numbers {c : Scope} {T : Table Ty} {inst : Instruction} {path path' : Path}
    (transfer : c.Transfers T inst path path') (straight : inst.opcode.straight = true)
    (numbers : Numbers path.stack) : Numbers path'.stack ∧ path'.recorded = path.recorded := by
  unfold Numbers at *
  cases transfer with
  | nop => exact ⟨numbers, rfl⟩
  | drop above => exact ⟨fun t mem => numbers t (by simp [mem]), rfl⟩
  | dup above room => simpa using numbers
  | swap above room =>
    refine ⟨fun t mem => numbers t ?_, rfl⟩
    simp only [List.mem_cons] at mem ⊢
    tauto
  | @select _ t u j rest _ joined above room =>
    -- numbers that a choice joins have one type
    have same : j = t := by
      rcases joined with ⟨-, same⟩ | ⟨-, references, -⟩
      · exact same
      · obtain ⟨s, rfl⟩ := numbers t (by simp)
        cases references
    refine ⟨fun v mem => numbers v ?_, rfl⟩
    rw [same] at mem
    simp only [List.mem_cons] at mem ⊢
    tauto
  | const room => simpa using numbers
  | @operation op _ ts rest _ operands above room =>
    refine ⟨?_, rfl⟩
    simp only [List.mem_cons, forall_eq_or_imp]
    exact ⟨op.result_number, fun t mem => numbers t (by simp [mem])⟩
  | _ => cases straight

namespace Machine

/-! ### Instructions at run time -/

variable {m m' : Machine} {p : Program} {o : Options} {ip size next : Nat} {ts ts' : List Ty}
  {inst : Instruction} {cause : Cause}

/-- The machine runs the entry code at an offset, and its stack holds numbers of the given types. -/
structure InStep (m : Machine) (p : Program) (o : Options) (ip : Nat) (ts : List Ty) : Prop where
  orderly : m.Orderly
  program : m.program = p
  options : m.options = o
  frames : m.frames = [{ entryFrame p 0 with ip }]
  kinded : m.Kinded .empty ts
  numbers : Numbers ts

theorem InStep.setIp (inStep : m.InStep p o ip ts) (next : Nat) : (m.setIp next).InStep p o next ts := by
  refine ⟨inStep.orderly.setIp next, ?_, ?_, ?_, inStep.kinded.setIp next, inStep.numbers⟩
  · rw [setIp_eq]
    exact inStep.program
  · rw [setIp_eq]
    exact inStep.options
  · rw [Frame.setIp_frames inStep.frames]

theorem InStep.floor (inStep : m.InStep p o ip ts) : m.floor = 0 := by
  rw [Machine.floor, inStep.frames]
  rfl

theorem InStep.height (inStep : m.InStep p o ip ts) : m.stack.length = ts.length :=
  inStep.kinded.stack.length_eq

/-- These instructions fail for want of operands or room, or for operands of the wrong kind. -/
theorem cause_of_straight (straight : inst.opcode.straight = true)
    (refused : m.effect inst size next = .error cause) :
    cause ∈ [Cause.stackUnderflow, .stackOverflow, .typeMismatch] := by
  obtain ⟨opcode, operands⟩ := inst
  cases opcode with
  | nop => cases refused
  | drop =>
    rcases bind_eq_error refused with need | ⟨_, _, refused⟩
    · simp [(need_eq_error need).1]
    · cases refused
  | dup =>
    rcases bind_eq_error refused with need | ⟨_, _, refused⟩
    · simp [(need_eq_error need).1]
    · rcases bind_eq_error refused with room | ⟨_, _, refused⟩
      · simp [(room_eq_error room).1]
      · cases refused
  | swap =>
    rcases bind_eq_error refused with need | ⟨_, _, refused⟩
    · simp [(need_eq_error need).1]
    · cases refused
  | select =>
    rcases bind_eq_error refused with need | ⟨_, _, refused⟩
    · simp [(need_eq_error need).1]
    · rcases bind_eq_error refused with condition | ⟨_, _, refused⟩
      · simp [int32At_eq_error condition]
      · rcases bind_eq_error refused with mixed | ⟨_, _, refused⟩
        · simp [(reject_eq_error mixed).1]
        · cases refused
  | const s =>
    rcases bind_eq_error refused with room | ⟨_, _, refused⟩
    · simp [(room_eq_error room).1]
    · cases refused
  | operation op =>
    rcases bind_eq_error refused with need | ⟨_, _, refused⟩
    · simp [(need_eq_error need).1]
    · rcases bind_eq_error refused with read | ⟨_, _, refused⟩
      · simp [operands_eq_error read]
      · rcases bind_eq_error refused with evaluated | ⟨_, _, refused⟩
        · simp [Operation.eval_total straight evaluated]
        · cases refused
  | _ => cases straight

/-- An instruction whose rule succeeds meets no value of the wrong type. -/
theorem InStep.sure (inStep : m.InStep p o ip ts) (straight : inst.opcode.straight = true) {path' : Path}
    (transfer : (entryScope p o).Transfers .empty inst ⟨ts, .empty⟩ path') (size next : Nat) :
    Sure (fun m' => m'.Kinded .empty path'.stack) (m.effect inst size next) := by
  obtain ⟨⟨no_call, no_ret⟩, no_read, blind⟩ := Opcode.plain_of_straight straight
  have kinded : m.Kinded .empty (Path.stack ⟨ts, .empty⟩) := inStep.kinded
  have sure := @Kinded.effect _ _ _ _ _ _ size next kinded transfer rfl no_call no_ret no_read
    inStep.program inStep.orderly.balanced
  cases result : m.effect inst size next with
  | ok m' =>
    rw [result] at sure
    exact sure
  | error cause =>
    rw [result] at sure
    intro mismatch
    exact blind (sure mismatch)

/-- An instruction whose rule succeeds goes through. -/
theorem InStep.goes (inStep : m.InStep p o ip ts) (straight : inst.opcode.straight = true) {path' : Path}
    (transfer : (entryScope p o).Transfers .empty inst ⟨ts, .empty⟩ path') (size next : Nat) :
    ∃ m', m.effect inst size next = .ok m' := by
  have plain := (Opcode.plain_of_straight straight).1
  have sure := inStep.sure straight transfer size next
  have shift := transfer.shift plain.1 plain.2
  have enough := shift.enough (Nat.zero_le _)
  have rule := shift.height
  have height := inStep.height
  have bounded := inStep.orderly.bounded
  rw [inStep.options] at bounded
  simp only at enough rule
  cases result : m.effect inst size next with
  | ok m' => exact ⟨m', rfl⟩
  | error cause =>
    exfalso
    have allowed := cause_of_straight straight result
    rw [result] at sure
    cases effect_error plain result with
    | mismatch => exact sure rfl
    | underflow few =>
      rw [inStep.floor, inStep.program] at few
      omega
    -- the limit of the rules is that of the machine
    | overflow full =>
      rw [inStep.program, inStep.options] at full
      rcases shift.room with fewer | room
      · simp only at fewer
        omega
      · simp only at room
        omega
    | _ => simp at allowed

theorem InStep.kind_at (inStep : m.InStep p o ip ts) {d : Nat} {t : Ty} (at_depth : ts[d]? = some t) :
    m.kindOf (m.peek d) = t.kind := by
  have balanced := inStep.orderly.balanced
  exact kindOf_of_hasKind (inStep.kinded.peek at_depth) balanced.heap (balanced.live_peek d)

/-- The type of a number is told by the value that stands for it. -/
theorem InStep.type_of_kind (inStep : m.InStep p o ip ts) {d : Nat} {t : Ty} {s : Scalar}
    (at_depth : ts[d]? = some t) (kind : m.kindOf (m.peek d) = .scalar s) : t = .scalar s :=
  Ty.eq_scalar_of_kind ((inStep.kind_at at_depth).symm.trans kind)

theorem InStep.enough (inStep : m.InStep p o ip ts) {n : Nat} (need : m.need n = .ok ()) :
    n ≤ ts.length := by
  have enough := need_eq_ok.1 need
  rwa [inStep.floor, Nat.zero_add, inStep.height] at enough

/-- The operands of an operation that goes through have its type. -/
theorem InStep.operands (inStep : m.InStep p o ip ts) {n : Nat} {s : Scalar} {vs : List Value}
    (enough : n ≤ ts.length) (read : m.operands n (.scalar s) = .ok vs) :
    ts.take n = List.replicate n (.scalar s) := by
  unfold Machine.operands at read
  split at read
  · next ws mapped =>
    have each := Code.map_of_mapM mapped
    rw [List.eq_replicate_iff]
    refine ⟨by simp [enough], fun t mem => ?_⟩
    obtain ⟨i, at_i⟩ := List.getElem?_of_mem mem
    rw [List.getElem?_take] at at_i
    split at at_i
    · next below =>
      have inside : i < m.stack.length := by
        rw [inStep.height]
        omega
      -- the value at the same depth was among those that were read
      have operand : m.peek i ∈ (m.stack.take n).reverse := by
        rw [List.mem_reverse]
        apply List.mem_of_getElem? (i := i)
        rw [List.getElem?_take, if_pos below, getElem?_peek inside]
      have mapped := List.mem_map_of_mem (f := m.read? (.scalar s)) operand
      rw [each] at mapped
      obtain ⟨w, -, read⟩ := List.mem_map.1 mapped
      exact inStep.type_of_kind at_i (kindOf_of_read? read.symm)
    · cases at_i
  · cases read

/-- An instruction that goes through has a rule that succeeds. -/
theorem InStep.transfers (inStep : m.InStep p o ip ts) (straight : inst.opcode.straight = true)
    (done : m.effect inst size next = .ok m') :
    ∃ path', (entryScope p o).Transfers .empty inst ⟨ts, .empty⟩ path' := by
  have bounded := inStep.orderly.bounded
  rw [inStep.options, inStep.height] at bounded
  obtain ⟨opcode, ops⟩ := inst
  cases opcode with
  | nop => exact ⟨_, .nop⟩
  | drop =>
    obtain ⟨_, need, done⟩ := bind_eq_ok done
    obtain ⟨t, rest, rfl⟩ := List.exists_cons_of_length_pos (inStep.enough need)
    exact ⟨_, .drop (Nat.zero_le _)⟩
  | dup =>
    obtain ⟨_, need, done⟩ := bind_eq_ok done
    obtain ⟨_, room, done⟩ := bind_eq_ok done
    obtain ⟨t, rest, rfl⟩ := List.exists_cons_of_length_pos (inStep.enough need)
    have room := room_eq_ok.1 room
    rw [inStep.options, inStep.height] at room
    exact ⟨_, .dup (Nat.zero_le _) room⟩
  | swap =>
    obtain ⟨_, need, done⟩ := bind_eq_ok done
    match ts, inStep.enough need with
    | u :: t :: rest, _ => exact ⟨_, .swap (Nat.zero_le _) bounded⟩
  | select =>
    obtain ⟨_, need, done⟩ := bind_eq_ok done
    obtain ⟨condition, asked, done⟩ := bind_eq_ok done
    obtain ⟨_, passed, done⟩ := bind_eq_ok done
    match ts, inStep.enough need with
    | i :: u :: t :: rest, _ =>
      have first := inStep.type_of_kind (d := 0) rfl (kindOf_of_int32At asked)
      obtain ⟨s, rfl⟩ := inStep.numbers t (by simp)
      obtain ⟨s', rfl⟩ := inStep.numbers u (by simp)
      have same : s = s' := by
        have alike : m.sameKind (m.peek 2) (m.peek 1) = true := by simpa using reject_eq_ok passed
        exact eq_of_sameKind alike (inStep.kind_at (d := 2) rfl) (inStep.kind_at (d := 1) rfl)
      subst first same
      refine ⟨_, .select (.inl ⟨rfl, rfl⟩) (Nat.zero_le _) ?_⟩
      simp only [List.length_cons] at bounded
      change rest.length < o.stackSize
      omega
  | const s =>
    obtain ⟨_, room, done⟩ := bind_eq_ok done
    have room := room_eq_ok.1 room
    rw [inStep.options, inStep.height] at room
    exact ⟨_, .const room⟩
  | operation op =>
    obtain ⟨_, need, done⟩ := bind_eq_ok done
    obtain ⟨vs, read, done⟩ := bind_eq_ok done
    obtain ⟨s, number⟩ := Operation.operand_total straight
    have enough := inStep.enough need
    rw [number] at read
    have operands := inStep.operands enough read
    have arity := op.arity_pos
    have accepts : Scope.Accepts (List.replicate op.shape.arity (.ofKind op.shape.operand))
        (ts.take op.shape.arity) := by
      rw [operands, number]
      exact List.forall₂_same.2 fun t _ => t.accepts_refl
    rw [← List.take_append_drop op.shape.arity ts]
    refine ⟨_, .operation accepts (Nat.zero_le _) ?_⟩
    change (ts.drop op.shape.arity).length < o.stackSize
    rw [List.length_drop]
    omega
  | _ => cases straight

/-! ### Room on the heap -/

theorem size_pushedRead (m : Machine) (v : Value) :
    (m.pushedRead v).heap.size ≤ m.heap.size + 1 := by
  unfold pushedRead
  split
  · split
    · exact Nat.le_succ _
    · exact m.heap.size_alloc_le _
  · exact Nat.le_succ _

/-- Each of these instructions takes at most one new address. -/
theorem size_of_straight (straight : inst.opcode.straight = true)
    (done : m.effect inst size next = .ok m') : m'.heap.size ≤ m.heap.size + 1 := by
  obtain ⟨opcode, operands⟩ := inst
  cases opcode with
  | nop =>
    cases done
    exact Nat.le_succ _
  | drop =>
    obtain ⟨_, _, done⟩ := bind_eq_ok done
    cases done
    exact Nat.le_succ_of_le (Nat.le_of_eq (Heap.size_releaseValues _ _))
  | dup =>
    obtain ⟨_, _, done⟩ := bind_eq_ok done
    obtain ⟨_, _, done⟩ := bind_eq_ok done
    cases done
    exact Nat.le_succ_of_le (Nat.le_of_eq (Heap.size_retainValue _ _))
  | swap =>
    obtain ⟨_, _, done⟩ := bind_eq_ok done
    cases done
    exact Nat.le_succ _
  | select =>
    obtain ⟨_, _, done⟩ := bind_eq_ok done
    obtain ⟨_, _, done⟩ := bind_eq_ok done
    obtain ⟨_, _, done⟩ := bind_eq_ok done
    cases done
    exact Nat.le_succ_of_le (Nat.le_of_eq (Heap.size_releaseValues _ [_]))
  | const s =>
    obtain ⟨_, _, done⟩ := bind_eq_ok done
    cases done
    exact size_pushedRead m _
  | operation op =>
    obtain ⟨_, _, done⟩ := bind_eq_ok done
    obtain ⟨_, _, done⟩ := bind_eq_ok done
    obtain ⟨v, _, done⟩ := bind_eq_ok done
    cases done
    have freed : (m.discarded op.shape.arity).heap.size = m.heap.size :=
      Heap.size_releaseValues _ _
    rw [← freed]
    exact size_pushedRead _ v
  | _ => cases straight

/-! ### Runs -/

/-- An instruction that goes through leaves the machine in step with the result of its rule. -/
theorem InStep.stepped (inStep : m.InStep p o ip ts) (straight : inst.opcode.straight = true)
    (addresses : m.heap.size ≤ Word.payloadSize) {path' : Path}
    (transfer : (entryScope p o).Transfers .empty inst ⟨ts, .empty⟩ path')
    (done : m.effect inst size ip = .ok m') : m'.InStep p o ip path'.stack := by
  have moved := effect_ok (Opcode.plain_of_straight straight).1 done
  have running : m.frames ≠ [] := by
    rw [inStep.frames]
    nofun
  have kinded := inStep.sure straight transfer size ip
  rw [done] at kinded
  refine ⟨inStep.orderly.effect running addresses done, moved.program.trans inStep.program,
    moved.options.trans inStep.options, ?_, kinded, (transfer.numbers straight inStep.numbers).1⟩
  rcases moved.frames with ⟨-, frames⟩ | ⟨target, jump, -⟩
  · exact frames.trans inStep.frames
  -- an instruction that jumps would end its block
  · have ends := Instruction.isTerminator_of_jumps jump
    rw [Opcode.isTerminator_of_straight straight] at ends
    cases ends

/-- A turn of a machine in step does what its instruction does. -/
theorem InStep.turn (inStep : m.InStep p o ip ts) (straight : inst.opcode.straight = true)
    (inside : ip < p.code.size) (decoded : Instruction.decode p.code ip = .ok inst) (nested : Exec Unit) :
    (∃ m', (m.setIp (ip + inst.width)).effect inst p.code.size (ip + inst.width) = .ok m' ∧
      Exec.turn nested m = .ok true m') ∨
    ∃ cause, (m.setIp (ip + inst.width)).effect inst p.code.size (ip + inst.width) = .error cause ∧
      Exec.turn nested m = .error (.fault (Error.atOffset cause ip)) (m.setIp (ip + inst.width)) := by
  have frames := inStep.frames
  have same {frame : Frame} {callers : List Frame} (found : m.frames = frame :: callers) :
      frame = { entryFrame p 0 with ip } ∧ callers = [] := by
    rw [frames] at found
    cases found
    exact ⟨rfl, rfl⟩
  have guest : m.Guest := by
    intro frame callers inst' found _ decoded' call
    obtain ⟨rfl, -⟩ := same found
    cases decoded.symm.trans decoded'
    rw [call] at straight
    cases straight
  have turned := Exec.turn_cases nested inStep.orderly.bounded guest
  generalize Exec.turn nested m = result at turned
  cases turned with
  | idle none =>
    rw [frames] at none
    cases none
  | undecoded found _ failed =>
    obtain ⟨rfl, -⟩ := same found
    cases decoded.symm.trans failed
  | stepped found _ decoded' done =>
    obtain ⟨rfl, -⟩ := same found
    cases decoded.symm.trans decoded'
    exact .inl ⟨_, done, rfl⟩
  | failed found _ decoded' refused =>
    obtain ⟨rfl, -⟩ := same found
    cases decoded.symm.trans decoded'
    exact .inr ⟨_, refused, rfl⟩
  | ended found past =>
    obtain ⟨rfl, -⟩ := same found
    exact absurd inside (Nat.not_lt.2 past)
  | returned found called => exact absurd (same found).2 called
  | stuck found called => exact absurd (same found).2 called

/-- Past the end of the code the run is over. -/
theorem InStep.turn_over (inStep : m.InStep p o ip ts) (past : p.code.size ≤ ip) (nested : Exec Unit) :
    Exec.turn nested m = .ok false { m with frames := [] } := by
  have outside : ¬ip < (entryFrame p 0).function.code.size := Nat.not_lt.2 past
  unfold Exec.turn
  rw [Exec.get_bind, inStep.frames]
  simp only [outside, if_false]
  rfl

/-- A rule that leads nowhere fails. -/
theorem apply_error {c : Scope} {ts : List Ty} (straight : inst.opcode.straight = true)
    (nowhere : ¬∃ path', c.Transfers .empty inst ⟨ts, .empty⟩ path') :
    ∃ cause, c.apply inst ⟨⟨ts, .empty⟩, .empty⟩ = .error cause := by
  cases applied : c.apply inst ⟨⟨ts, .empty⟩, .empty⟩ with
  | error cause => exact ⟨cause, rfl⟩
  | ok result =>
    obtain ⟨⟨⟩, s'⟩ := result
    obtain ⟨-, transfer⟩ := Scope.transfers_of_apply (.refl _) applied
    -- none of these instructions names a global, so the table does not matter
    refine absurd ⟨_, transfer.under fun named => ?_⟩ nowhere
    rw [Instruction.namesGlobal_of_straight straight] at named
    cases named

/-- One instruction: the rule and the turn succeed together and stay in step, or both fail. -/
theorem InStep.step (inStep : m.InStep p o ip ts) (straight : inst.opcode.straight = true)
    (inside : ip < p.code.size) (decoded : Instruction.decode p.code ip = .ok inst)
    (addresses : m.heap.size ≤ Word.payloadSize) (nested : Exec Unit) :
    (∃ ts' m', (entryScope p o).apply inst ⟨⟨ts, .empty⟩, .empty⟩ = .ok ((), ⟨⟨ts', .empty⟩, .empty⟩) ∧
      Exec.turn nested m = .ok true m' ∧ m'.InStep p o (ip + inst.width) ts' ∧
      m'.heap.size ≤ m.heap.size + 1) ∨
    ∃ (cause cause' : Cause) (m' : Machine),
      (entryScope p o).apply inst ⟨⟨ts, .empty⟩, .empty⟩ = .error cause ∧
      Exec.turn nested m = .error (.fault (Error.atOffset cause' ip)) m' := by
  have moved := inStep.setIp (ip + inst.width)
  have heap : (m.setIp (ip + inst.width)).heap = m.heap := by rw [setIp_eq]
  rcases inStep.turn straight inside decoded nested with ⟨m', done, turned⟩ | ⟨cause, refused, turned⟩
  · left
    obtain ⟨⟨ts', w⟩, transfer⟩ := moved.transfers straight done
    obtain ⟨-, silent⟩ := transfer.numbers straight inStep.numbers
    cases silent
    have size := size_of_straight straight done
    rw [heap] at size
    exact ⟨ts', m', transfer.apply_eq, turned, moved.stepped straight (by rwa [heap]) transfer done, size⟩
  · right
    have nowhere : ¬∃ path', (entryScope p o).Transfers .empty inst ⟨ts, .empty⟩ path' := by
      rintro ⟨path', transfer⟩
      obtain ⟨m', done⟩ := moved.goes straight transfer p.code.size (ip + inst.width)
      cases refused.symm.trans done
    obtain ⟨cause', failed⟩ := apply_error straight nowhere
    exact ⟨cause', cause, _, failed, turned⟩

/-- A walk of the rules and a run come to the same end: they get through, or they fail at one offset. -/
inductive SameEnd : Except Failure State → EStateM.Result Stop Machine Unit → Prop where
  | through {s : State} {m : Machine} : SameEnd (.ok s) (.ok () m)
  | failed {failure : Failure} {e : Error} {m : Machine} {offset : Nat}
    (blamed : failure.error.offset = some offset) (fault : e.offset = some offset) :
    SameEnd (.error failure) (.error (.fault e) m)

/-- The walk of the rules through the rest of the code and the rest of the run come to the same end,
unless addresses run out. -/
theorem InStep.sameEnd {ls : List Located} {fuel : Nat} (inStep : m.InStep p o ip ts)
    (scanned : p.code.scanFrom ip = (ls, none)) (straight : ∀ l ∈ ls, l.inst.opcode.straight = true)
    (enough : ls.length < fuel) :
    SameEnd ((entryScope p o).through 0 ls ⟨⟨ts, .empty⟩, .empty⟩) (Exec.loop fuel m) ∨
      (Word.payloadSize < m.heap.size + ls.length ∧
        ∃ m', Exec.loop fuel m = .error .exhausted m') := by
  induction ls generalizing ip m ts fuel with
  | nil =>
    obtain ⟨fuel, rfl⟩ := Nat.exists_eq_succ_of_ne_zero (Nat.ne_zero_of_lt enough)
    rw [Exec.loop_succ]
    split
    · next outgrown => exact .inr ⟨outgrown, m, rfl⟩
    · have finished := inStep.turn_over (Flow.scanFrom_nil scanned) (do Exec.start; Exec.loop fuel)
      rw [EStateM.bind, finished]
      exact .inl .through
  | cons l ls ih =>
    obtain ⟨rfl, inside, decoded, rest⟩ := Flow.scanFrom_cons scanned
    obtain ⟨fuel, rfl⟩ := Nat.exists_eq_succ_of_ne_zero (Nat.ne_zero_of_lt enough)
    rw [Exec.loop_succ]
    split
    · next outgrown => exact .inr ⟨Nat.lt_add_right _ outgrown, m, rfl⟩
    · next addresses =>
      rcases inStep.step (straight l List.mem_cons_self) inside decoded (Nat.le_of_not_lt addresses)
          (do Exec.start; Exec.loop fuel) with
        ⟨ts', m', applied, turned, inStep', size⟩ | ⟨cause, cause', m', failed, turned⟩
      -- both go on with the rest of the code
      · rw [EStateM.bind, turned, Scope.through, applied]
        rcases ih inStep' rest (fun l mem => straight l (List.mem_cons_of_mem _ mem))
            (Nat.lt_of_succ_lt_succ enough) with same | ⟨outgrown, cut⟩
        · exact .inl same
        · refine .inr ⟨?_, cut⟩
          rw [List.length_cons]
          omega
      · rw [EStateM.bind, turned, Scope.through, failed]
        exact .inl (.failed rfl rfl)

theorem inStep_started (p : Program) (o : Options) : (load p o).started.InStep p o 0 [] := by
  exact ⟨orderly_started (orderly_load p o), rfl, rfl, rfl, { agrees_load p o with }, nofun⟩

theorem flat_of_straight {code : Code} (whole : code.scan.2 = none)
    (straight : ∀ l ∈ code.scan.1, l.inst.opcode.straight = true) : code.Flat :=
  ⟨whole, fun l mem => Opcode.isTerminator_of_straight (straight l mem)⟩

/-- The verifier accepts straight-line code on numbers, in a program without constants, exactly if the
code runs to its end, and an error of the verifier is met at the same offset by the run. The only other
outcome is that a machine runs out of the addresses that words can carry, which takes code of that many
bytes. -/
theorem straight_agrees {p : Program} {o : Options} {fuel : Nat} (alone : p.constants = #[])
    (whole : p.code.scan.2 = none) (straight : ∀ l ∈ p.code.scan.1, l.inst.opcode.straight = true)
    (frames : 1 ≤ o.frameSize) (enough : p.code.size < fuel) :
    (((∃ v, verify (.new p o) = .ok () v) ↔ ∃ m, Exec.run fuel (load p o) = .ok () m) ∧
      ∀ e v, verify (.new p o) = .error e v →
        ∃ e' m, Exec.run fuel (load p o) = .error (.fault e') m ∧ e'.offset = e.offset ∧ e.offset.isSome) ∨
    (Word.payloadSize ≤ p.code.size ∧ ∃ m, Exec.run fuel (load p o) = .error .exhausted m) := by
  have verified := @verify_of_flat p o alone (flat_of_straight whole straight)
  have short : p.code.scan.1.length ≤ p.code.size := Flow.length_scanFrom p.code 0
  have opened : ¬((load p o).frames = [] ∧ (load p o).options.frameSize = 0) := by
    intro no_frame
    have none : o.frameSize = 0 := no_frame.2
    omega
  have fresh : (load p o).started.heap.size = 1 := by
    change (loadConstants .empty p.constants.toList).2.size = 1
    rw [alone]
    rfl
  have ends : SameEnd ((entryScope p o).through 0 p.code.scan.1 ⟨⟨[], .empty⟩, .empty⟩)
        (Exec.loop fuel (load p o).started) ∨
      (Word.payloadSize < (load p o).started.heap.size + p.code.scan.1.length ∧
        ∃ m, Exec.loop fuel (load p o).started = .error .exhausted m) :=
    (inStep_started p o).sameEnd (Prod.ext rfl whole) straight (by omega)
  rw [Exec.run_apply, if_neg opened]
  rcases ends with same | ⟨outgrown, cut⟩
  · left
    generalize (entryScope p o).through 0 p.code.scan.1 ⟨⟨[], .empty⟩, .empty⟩ = walked at same verified
    generalize Exec.loop fuel (load p o).started = ran at same
    cases same with
    | through =>
      refine ⟨⟨fun _ => ⟨_, rfl⟩, fun _ => ⟨_, verified⟩⟩, fun e v failed => ?_⟩
      cases verified.symm.trans failed
    | failed blamed fault =>
      refine ⟨⟨?_, ?_⟩, fun e v failed => ?_⟩
      · rintro ⟨v, done⟩
        cases verified.symm.trans done
      · rintro ⟨m, done⟩
        cases done
      · cases verified.symm.trans failed
        exact ⟨_, _, rfl, fault.trans blamed.symm, by simp [blamed]⟩
  · refine .inr ⟨?_, cut⟩
    rw [fresh] at outgrown
    omega

/-- A program that chooses between an integer on the heap and one in a word, and adds the integer to
itself. -/
def doubling : Program :=
  .ofCode (Instruction.assemble
    [⟨.const .i64, [0x1000000000000000]⟩, ⟨.const .i64, [5]⟩, ⟨.const .i32, [1]⟩, ⟨.select, []⟩,
      ⟨.dup, []⟩, ⟨.operation (.intBinary .w64 .add), []⟩])

/-- The program passes and runs to its end; with room for two values, the third one is one too many for
the verifier as for the machine. -/
theorem doubling_agrees :
    (∃ v m, Verifier.verify (.new doubling {}) = .ok () v ∧ Exec.run 30 (load doubling {}) = .ok () m) ∧
    ∃ e v e' m, Verifier.verify (.new doubling { stackSize := 2 }) = .error e v ∧
      Exec.run 30 (load doubling { stackSize := 2 }) = .error (.fault e') m ∧
      e'.cause = .stackOverflow ∧ e'.offset = some 18 ∧ e.offset = some 18 := by
  obtain ⟨whole, straight, small, enough, fault⟩ :
      doubling.code.scan.2 = none ∧ (∀ l ∈ doubling.code.scan.1, l.inst.opcode.straight = true) ∧
      doubling.code.size < Word.payloadSize ∧ doubling.code.size < 30 ∧
      Exec.faultOf (Exec.run 30 (load doubling { stackSize := 2 })) = some ⟨.stackOverflow, some 18, none⟩ := by
    decide +kernel
  constructor
  · have verified : Verifier.verify (.new doubling {}) = .ok () _ :=
      Verifier.verify_of_tableWithin (n := 10) (T := .empty) (by decide +kernel)
    have frames : 1 ≤ Options.frameSize {} := by decide
    rcases straight_agrees rfl whole straight frames enough with ⟨agree, -⟩ | ⟨large, -⟩
    · obtain ⟨m, done⟩ := agree.1 ⟨_, verified⟩
      exact ⟨_, m, verified, done⟩
    · omega
  · obtain ⟨m, failed⟩ := Exec.eq_of_faultOf fault
    have frames : 1 ≤ Options.frameSize { stackSize := 2 } := by decide
    rcases straight_agrees rfl whole straight frames enough with ⟨agree, offsets⟩ | ⟨large, -⟩
    · cases verified : Verifier.verify (.new doubling { stackSize := 2 }) with
      | ok u v =>
        obtain ⟨m', done⟩ := agree.1 ⟨v, verified⟩
        cases failed.symm.trans done
      | error e v =>
        obtain ⟨e', m', failed', same, -⟩ := offsets e v verified
        cases failed.symm.trans failed'
        exact ⟨e, v, _, m, rfl, failed, rfl, rfl, same.symm⟩
    · omega

end Machine

end StackVM
