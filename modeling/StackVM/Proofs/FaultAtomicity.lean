import StackVM.Proofs.Machine.Moves
import StackVM.Proofs.ReferenceCounts

/-!
# Faults change nothing

An instruction looks at everything it needs before it changes anything, so a turn that fails leaves the
stack, the globals, the heap with its counts and its free slots, and the frames as they were; only the
offset of the innermost frame may have moved past the instruction. Main statement:
`fault_changes_nothing`, for single turns and for whole runs.

That an instruction which fails has changed nothing is part of what `Exec.execute_eq` says of it, under
the invariant that the stack keeps to its limit: operands that were taken off always leave room for
results. Here it is carried to every state that runs, faults and resets can lead to.
-/

namespace StackVM

namespace Machine

variable {m m' : Machine} {p : Program} {o : Options} {e : Error}

/-- Nothing changed but the offset of the innermost frame, which may have moved past the instruction. -/
def Halted (m m' : Machine) : Prop :=
  ∃ frame callers ip, m.frames = frame :: callers ∧
    m' = { m with frames := { frame with ip } :: callers } ∧
    (ip = frame.ip ∨
      ∃ inst, Instruction.decode frame.function.code frame.ip = .ok inst ∧ ip = frame.ip + inst.width)

theorem Steady.halted {stop : Stop} {nested : Exec Unit} (steady : m.Steady)
    (failed : Exec.turn nested m = .error stop m') : m.Halted m' := by
  have turn := Exec.turn_cases nested steady.bounded steady.guest
  rw [failed] at turn
  obtain ⟨frame, callers, ip, frames, rfl, moved⟩ := turn.halted
  refine ⟨frame, callers, ip, frames, ?_, moved⟩
  rw [setIp_eq, Frame.setIp_frames frames]

/-- A fault in a row of turns is the fault of one of them, before which the row could have been cut off. -/
theorem Steady.loop_fault {fuel : Nat} (steady : m.Steady)
    (failed : Exec.loop fuel m = .error (.fault e) m') :
    ∃ k before, k < fuel ∧ Exec.loop k m = .error .exhausted before ∧ before.Halted m' := by
  have alike (nested nested' : Exec Unit) (m : Machine) (steady : m.Steady) :
      Exec.turn nested m = Exec.turn nested' m :=
    Exec.turn_nested nested nested' steady.bounded steady.guest
  rcases Exec.loop_last (fun nested m => steady_turn nested) alike fuel steady with
    ⟨_, cut⟩ | ⟨k, before, less, cut, steady', last⟩
  · rw [failed] at cut
    cases cut
  · refine ⟨k, before, less, cut, ?_⟩
    rw [failed] at last
    have last := last (pure ())
    cases result : Exec.turn (pure ()) before with
    | error stop m₁ =>
      rw [result] at last
      cases last
      exact steady'.halted result
    | ok more m₁ =>
      rw [result] at last
      cases more <;> cases last

/-- Faults change nothing. In a program without host functions, whatever was run, a turn that fails
leaves the machine as it was, but for the offset of the innermost frame, which stays or moves past the
instruction. So a run that ends in a fault leaves what it would have left if it had been cut off before
the turn that failed; or else there was no room for the frame of the entry, and it did nothing. -/
theorem fault_changes_nothing (guest : ∀ c ∈ p.constants, c.isHost = false) (reached : Reachable p o m) :
    (∀ nested stop m', Exec.turn nested m = .error stop m' → m.Halted m') ∧
      ∀ fuel e m', Exec.run fuel m = .error (.fault e) m' →
        (m.frames = [] ∧ m.options.frameSize = 0 ∧ m' = m) ∨
          ∃ k before, k < fuel ∧ Exec.run k m = .error .exhausted before ∧ before.Halted m' := by
  have steady := steady_reachable guest reached
  constructor
  · intro nested stop m' failed
    exact steady.halted failed
  · intro fuel e m' failed
    rw [Exec.run_apply] at failed
    by_cases no_frame : m.frames = [] ∧ m.options.frameSize = 0
    · rw [if_pos no_frame] at failed
      cases failed
      exact .inl ⟨no_frame.1, no_frame.2, rfl⟩
    · rw [if_neg no_frame] at failed
      obtain ⟨k, before, less, cut, halted⟩ := (steady_started steady).loop_fault failed
      refine .inr ⟨k, before, less, ?_, halted⟩
      rw [Exec.run_apply, if_neg no_frame]
      exact cut

/-- A program that divides by zero with an object on the stack. -/
def dividing : Program :=
  { code := Instruction.assemble
      [⟨.constGet, [0]⟩, ⟨.const .i32, [1]⟩, ⟨.const .i32, [0]⟩, ⟨.operation (.intBinary .w32 .divS), []⟩]
    constants := #[.string "text"]
    types := #[] }

/-- The division fails, and the run leaves what it would have left without it. -/
theorem dividing_changes_nothing :
    (∃ m', Exec.turn (pure ()) (leftBy (Exec.run 3 (load dividing {}))) =
        .error (.fault (Error.atOffset Cause.divideByZero 13)) m' ∧
      (leftBy (Exec.run 3 (load dividing {}))).Halted m') ∧
    ∃ m' k before, Exec.run 9 (load dividing {}) =
        .error (.fault (Error.atOffset Cause.divideByZero 13)) m' ∧
      Exec.run k (load dividing {}) = .error .exhausted before ∧ before.Halted m' := by
  have guest : ∀ c ∈ dividing.constants, c.isHost = false := by simp [dividing, Constant.isHost]
  constructor
  · obtain ⟨m', failed⟩ : ∃ m', Exec.turn (pure ()) (leftBy (Exec.run 3 (load dividing {}))) =
        .error (.fault (Error.atOffset Cause.divideByZero 13)) m' := Exec.eq_of_faultOf (by decide +kernel)
    have reached : Reachable dividing {} (leftBy (Exec.run 3 (load dividing {}))) := .run 3 .load
    exact ⟨m', failed, (fault_changes_nothing guest reached).1 _ _ m' failed⟩
  · obtain ⟨m', failed⟩ : ∃ m', Exec.run 9 (load dividing {}) =
        .error (.fault (Error.atOffset Cause.divideByZero 13)) m' := Exec.eq_of_faultOf (by decide +kernel)
    rcases (fault_changes_nothing guest (.load (o := {}))).2 9 _ m' failed with
      ⟨-, none, -⟩ | ⟨k, before, -, cut, halted⟩
    · exact absurd none (by decide)
    · exact ⟨m', k, before, failed, cut, halted⟩

end Machine

end StackVM
