import StackVM.Proofs.Machine.Calls
import StackVM.Proofs.Machine.Run
import StackVM.Proofs.Machine.Shape

/-!
# What a turn does to the frames

`Move` lists what a turn that goes through does to a machine without closures: the innermost frame goes
on, calls a function or returns, and no other frame is touched. Main statements: every turn that goes
through is such a move (`Turn.move`), one that fails changes the offset of the innermost frame at most
(`Turn.halted`), and a call or a return fails for few reasons (`cause_calling`, `cause_returning`).
-/

namespace StackVM

namespace Machine

variable {m m' : Machine} {frame : Frame} {callers : List Frame} {inst : Instruction} {c : Cause}

/-- Where control goes after an instruction that ends at `next`, in code of the given size. -/
def Goes (inst : Instruction) (size next ip : Nat) : Prop :=
  (inst.opcode.fallsThrough = true ∧ ip = next) ∨ (some ip ∈ inst.jumps next ∧ ip < size)

/-- What a turn that goes through does, by what the innermost frame is about to do. -/
inductive Move (m : Machine) : Machine → Prop where
  | idle (none : m.frames = []) : Move m m
  | onward {frame : Frame} {callers : List Frame} {inst : Instruction} {ip : Nat} {m' : Machine}
    (frames : m.frames = frame :: callers) (inside : frame.ip < frame.function.code.size)
    (decoded : Instruction.decode frame.function.code frame.ip = .ok inst)
    (plain : inst.opcode ≠ .call ∧ inst.opcode ≠ .ret)
    (done : (m.setIp (frame.ip + inst.width)).effect inst frame.function.code.size
      (frame.ip + inst.width) = .ok m')
    (goes : Goes inst frame.function.code.size (frame.ip + inst.width) ip)
    (program : m'.program = m.program) (after : m'.frames = { frame with ip } :: callers) : Move m m'
  | called {frame : Frame} {callers : List Frame} {inst : Instruction} {a : Nat} {f : Function}
    {rest : List Value} (frames : m.frames = frame :: callers)
    (inside : frame.ip < frame.function.code.size)
    (decoded : Instruction.decode frame.function.code frame.ip = .ok inst) (call : inst.opcode = .call)
    (top : m.stack = .ref a :: rest) (found : m.heap.get? a = some (.function f))
    (enough : frame.floor + f.signature.params.length ≤ rest.length) :
    Move m ((m.setIp (frame.ip + inst.width)).entered f [] a)
  | left {frame : Frame} {callers : List Frame} (frames : m.frames = frame :: callers)
    (enough : frame.floor + frame.function.signature.returns.length ≤ m.stack.length)
    (results : ∃ vs, m.readAll frame.function.signature.returns.reverse m.stack = .ok vs) :
    Move m (m.returned frame)
  | ended {frame : Frame} (frames : m.frames = [frame]) : Move m { m with frames := [] }

/-! ### Turns that go through -/

/-- An instruction that is no call and no return changes the offset of its frame only. -/
theorem Moved.onward {size next : Nat} (frames : m.frames = frame :: callers)
    (moved : (m.setIp next).Moved inst size next m') :
    ∃ ip, Goes inst size next ip ∧ m'.frames = { frame with ip } :: callers := by
  rcases moved.frames with ⟨falls, same⟩ | ⟨target, jump, inside, there⟩
  · rw [Frame.setIp_frames frames] at same
    exact ⟨next, .inl ⟨falls, rfl⟩, same⟩
  · rw [Frame.setIp_frames (Frame.setIp_frames frames)] at there
    exact ⟨target, .inr ⟨jump, inside⟩, there⟩

theorem setIp_floor (m : Machine) (ip : Nat) : (m.setIp ip).floor = m.floor := by
  unfold Machine.setIp
  cases frames : m.frames with
  | nil => rfl
  | cons frame callers => simp [floor, frames]

theorem floor_setIp (frames : m.frames = frame :: callers) (ip : Nat) :
    (m.setIp ip).floor = frame.floor := by
  rw [Machine.floor, Frame.setIp_frames frames]

/-- A function that is entered stands at its start, and its caller after the call. -/
theorem frames_entered {f : Function} {a : Nat} {rest : List Value} (frames : m.frames = frame :: callers)
    (top : m.stack = .ref a :: rest) (ip : Nat) :
    ((m.setIp ip).entered f [] a).frames =
      { function := f, ip := 0, base := rest.length - f.signature.params.length,
        floor := rest.length - f.signature.params.length + f.signature.params.length + f.locals,
        callee := a } :: { frame with ip } :: callers := by
  simp only [entered, Frame.setIp_frames frames, setIp_stack, top, List.drop_one, List.tail_cons]

theorem frames_returned (frames : m.frames = frame :: callers) : (m.returned frame).frames = callers := by
  simp only [returned, frames, List.tail_cons]

/-- The instruction pointer of a frame that returns is forgotten. -/
theorem returned_setIp (frames : m.frames = frame :: callers) (ip : Nat) :
    (m.setIp ip).returned { frame with ip } = m.returned frame := by
  simp only [returned, Machine.setIp, frames, List.tail_cons]

theorem readAll_setIp (m : Machine) (ip : Nat) (ts : List Ty) (vs : List Value) :
    (m.setIp ip).readAll ts vs = m.readAll ts vs := by
  rw [setIp_eq]
  rfl

/-- A call that goes through enters the function on top of the stack, whose arguments lie above the floor
of the caller. -/
theorem calling_entered {ip : Nat} (frames : m.frames = frame :: callers) (closureless : m.Closureless)
    (done : (m.setIp ip).calling = .ok m') :
    ∃ a f rest, m.stack = .ref a :: rest ∧ m.heap.get? a = some (.function f) ∧
      frame.floor + f.signature.params.length ≤ rest.length ∧ m' = (m.setIp ip).entered f [] a := by
  have closureless' : (m.setIp ip).Closureless := by
    rw [setIp_eq]
    exact closureless
  obtain ⟨a, f, rest, top, found, entering⟩ := calling_eq_ok closureless' done
  obtain ⟨enough, -, rfl⟩ := entering_eq_ok top entering
  rw [floor_setIp frames, top, List.length_cons] at enough
  rw [setIp_stack] at top
  rw [setIp_eq] at found
  exact ⟨a, f, rest, top, found, by omega, rfl⟩

theorem Move.of_returning {ip : Nat} (frames : m.frames = frame :: callers)
    (done : (m.setIp ip).returning = .ok m') : m.Move m' := by
  obtain ⟨enough, ⟨vs, read⟩, rfl⟩ := returning_eq_ok (Frame.setIp_frames frames) done
  rw [floor_setIp frames, setIp_stack] at enough
  rw [readAll_setIp, setIp_stack] at read
  rw [returned_setIp frames]
  exact .left frames enough ⟨vs, read⟩

/-- Whatever goes through is one of the moves. -/
theorem Turn.move {more : Bool} (turn : m.Turn (.ok more m')) (closureless : m.Closureless) :
    m.Move m' := by
  cases turn with
  | idle none => exact .idle none
  | @stepped frame callers inst _ frames inside decoded done =>
    by_cases call : inst.opcode = .call
    · rw [effect_of_call call] at done
      obtain ⟨a, f, rest, top, found, enough, rfl⟩ := calling_entered frames closureless done
      exact .called frames inside decoded call top found enough
    by_cases ret : inst.opcode = .ret
    · rw [effect_of_ret ret] at done
      exact .of_returning frames done
    have moved := effect_ok ⟨call, ret⟩ done
    obtain ⟨ip, goes, after⟩ := moved.onward frames
    have program : m'.program = m.program := by
      rw [moved.program, setIp_eq]
    exact .onward frames inside decoded ⟨call, ret⟩ done goes program after
  | ended frames past => exact .ended frames
  | @returned frame callers _ frames called past done =>
    -- a return at the end of the code is one without an instruction
    rw [← Frame.setIp_ip frames] at done
    exact .of_returning frames done

/-! ### Turns that fail -/

/-- A turn that fails leaves everything as it was, but for the offset of the innermost frame, which may
have moved past the instruction. -/
theorem Turn.halted {stop : Stop} (turn : m.Turn (.error stop m')) :
    ∃ frame callers ip, m.frames = frame :: callers ∧ m' = m.setIp ip ∧
      (ip = frame.ip ∨
        ∃ inst, Instruction.decode frame.function.code frame.ip = .ok inst ∧ ip = frame.ip + inst.width) := by
  cases turn with
  | undecoded frames inside decoded =>
    exact ⟨_, _, _, frames, (Frame.setIp_ip frames).symm, .inl rfl⟩
  | @failed frame callers inst c frames inside decoded refused =>
    exact ⟨frame, callers, _, frames, rfl, .inr ⟨inst, decoded, rfl⟩⟩
  | stuck frames called past refused =>
    exact ⟨_, _, _, frames, (Frame.setIp_ip frames).symm, .inl rfl⟩


/-- No turn changes the program or the constants. -/
theorem Move.loaded (move : m.Move m') : m'.program = m.program ∧ m'.constants = m.constants := by
  cases move with
  | idle none => exact ⟨rfl, rfl⟩
  | onward frames inside decoded plain done goes program after =>
    have constants := (effect_ok plain done).constants
    rw [setIp_eq] at constants
    exact ⟨program, constants⟩
  | called frames inside decoded call top found enough =>
    rw [setIp_eq]
    exact ⟨rfl, rfl⟩
  | left frames enough results => exact ⟨rfl, rfl⟩
  | ended frames => exact ⟨rfl, rfl⟩

theorem cause_calling (closureless : m.Closureless) (refused : m.calling = .error c) :
    c ∈ [Cause.stackUnderflow, .typeMismatch, .segmentationFault, .frameOverflow, .stackOverflow] := by
  rcases calling_eq_error closureless refused with ⟨rfl, -⟩ | rfl | rfl | ⟨a, f, rest, top, -, entering⟩
  · decide
  · decide
  · decide
  · rcases entering_eq_error top entering with ⟨rfl, -⟩ | ⟨rfl, -⟩ | rfl | rfl
    · decide
    · decide
    · decide
    · decide

theorem cause_returning (frames : m.frames = frame :: callers) (refused : m.returning = .error c) :
    c ∈ [Cause.stackUnderflow, .typeMismatch] := by
  rcases returning_eq_error frames refused with ⟨rfl, -⟩ | ⟨rfl, -⟩
  · decide
  · decide

end Machine

end StackVM
