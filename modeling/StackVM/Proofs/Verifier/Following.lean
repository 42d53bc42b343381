import StackVM.Proofs.Machine.Moves
import StackVM.Proofs.Verifier.Fixpoint
import StackVM.Proofs.Verifier.Heights

/-!
# Following checked code at run time

A frame follows a path when its code stands where the path was checked and the stack above its base is
as high as the stack of types. Main statements: an instruction other than a call or a return that goes
through leaves a frame that follows the path of its rule (`Follows.moved`), and one that fails does not
fail for want of operands, for a jump that leads astray, or for want of a frame (`Follows.blames`).
-/

namespace StackVM

open Verifier

/-- The part of the stack that belongs to the frame is as high as the stack of types of the path; the
whole stack has the given height. -/
structure Frame.Fits (frame : Frame) (c : Scope) (path : Path) (height : Nat) : Prop where
  function : frame.function = c.function
  floor : frame.floor = frame.base + c.floor
  height : height = frame.base + path.stack.length
  above : c.floor ≤ path.stack.length

/-- The frame goes along a path that was checked. -/
structure Frame.Follows (frame : Frame) (y : Survey) (c : Scope) (T : Table Ty) (path : Path)
    (height : Nat) : Prop extends frame.Fits c path height where
  stands : y.Stands c T frame.ip path

/-- Wherever control goes from an instruction that was checked, it stands. -/
theorem Verifier.Survey.Onward.stands {y : Survey} {c : Scope} {T : Table Ty} {path path' : Path}
    {inst : Instruction} {ip next : Nat} (onward : y.Onward c T ip path inst path')
    (goes : (inst.opcode.fallsThrough = true ∧ next = ip + inst.width) ∨
      some next ∈ inst.jumps (ip + inst.width)) : y.Stands c T next path' := by
  rcases goes with ⟨falls, rfl⟩ | jump
  · exact onward.falls falls
  · obtain ⟨target, place, -, stands⟩ := onward.jumps _ jump
    cases place
    exact stands

namespace Frame

variable {m m' : Machine} {frame : Frame} {callers : List Frame} {y : Survey} {c : Scope} {T : Table Ty}
  {path path' : Path} {inst : Instruction} {height : Nat}

/-- The instruction that the frame is at was checked. -/
theorem Follows.onward (follows : frame.Follows y c T path height) (covers : y.Covers c T)
    (inside : frame.ip < frame.function.code.size)
    (decoded : Instruction.decode frame.function.code frame.ip = .ok inst) :
    ∃ path', y.Onward c T frame.ip path inst path' := by
  rw [follows.function] at inside decoded
  obtain ⟨inst', path', onward⟩ := follows.stands.step covers inside
  -- the instruction that was checked is the one that is decoded
  have same := decoded.symm.trans onward.decoded
  cases same
  exact ⟨path', onward⟩

theorem Follows.decodes (follows : frame.Follows y c T path height) (covers : y.Covers c T)
    (inside : frame.ip < frame.function.code.size) {e : Error} :
    Instruction.decode frame.function.code frame.ip ≠ .error e := by
  rw [follows.function] at inside ⊢
  obtain ⟨inst', path', onward⟩ := follows.stands.step covers inside
  rw [onward.decoded]
  intro failed
  cases failed

/-- An instruction that went through moves the height as its rule does, and control runs on or jumps. -/
theorem Fits.moved (fits : frame.Fits c path m.stack.length) (shift : c.Shift inst path path')
    (frames : m.frames = frame :: callers) (program : m.program = c.program) {size next : Nat}
    (moved : (m.setIp next).Moved inst size next m') :
    ∃ ip, m'.frames = { frame with ip } :: callers ∧ Fits { frame with ip } c path' m'.stack.length ∧
      ((inst.opcode.fallsThrough = true ∧ ip = next) ∨ some ip ∈ inst.jumps next) := by
  have enough := shift.enough fits.above
  have rule := shift.height
  -- the rule and the instruction take and leave the same numbers
  have height : m'.stack.length = frame.base + path'.stack.length := by
    have run := moved.height
    rw [Machine.setIp_eq] at run
    simp only [program] at run
    have before := fits.height
    omega
  have fits' (ip : Nat) : Fits { frame with ip } c path' m'.stack.length :=
    ⟨fits.function, fits.floor, height, by omega⟩
  obtain ⟨ip, goes, after⟩ := moved.onward frames
  exact ⟨ip, after, fits' ip, goes.imp id And.left⟩

/-- After an instruction that went through, the frame follows the path of the rule. -/
theorem Follows.moved (follows : frame.Follows y c T path m.stack.length)
    (onward : y.Onward c T frame.ip path inst path') (frames : m.frames = frame :: callers)
    (program : m.program = c.program) (no_call : inst.opcode ≠ .call) (no_ret : inst.opcode ≠ .ret)
    {size : Nat} (moved : (m.setIp (frame.ip + inst.width)).Moved inst size (frame.ip + inst.width) m') :
    ∃ ip, m'.frames = { frame with ip } :: callers ∧
      Follows { frame with ip } y c T path' m'.stack.length := by
  have shift := onward.transfer.shift no_call no_ret
  obtain ⟨ip, frames', fits, goes⟩ := follows.toFits.moved shift frames program moved
  exact ⟨ip, frames', fits, onward.stands goes⟩

/-- Failures that checked code does not have. -/
theorem Follows.blames (follows : frame.Follows y c T path m.stack.length)
    (onward : y.Onward c T frame.ip path inst path') (frames : m.frames = frame :: callers)
    (program : m.program = c.program) (no_call : inst.opcode ≠ .call) (no_ret : inst.opcode ≠ .ret)
    {cause : Cause} (blames : (m.setIp (frame.ip + inst.width)).Blames inst frame.function.code.size
      (frame.ip + inst.width) cause) :
    cause ∉ [Cause.stackUnderflow, .unknownOpcode, .invalidJump, .frameOverflow, .frameUnderflow] := by
  have shift := onward.transfer.shift no_call no_ret
  cases blames with
  | underflow few =>
    -- the rule found its operands above the floor
    have enough := shift.enough follows.above
    have floor : (m.setIp (frame.ip + inst.width)).floor = frame.floor := by
      rw [Machine.floor, setIp_frames frames]
    rw [floor, Machine.setIp_eq] at few
    simp only [program] at few
    have base := follows.floor
    have height := follows.height
    omega
  | jump astray =>
    obtain ⟨place, jump, outside⟩ := astray
    -- every jump was checked to lead into the code
    obtain ⟨target, rfl, inside, -⟩ := onward.jumps _ jump
    have past := outside target rfl
    rw [follows.function] at past
    omega
  | frame none =>
    rw [setIp_frames frames] at none
    cases none
  | _ => decide

end Frame

end StackVM
