import StackVM.Proofs.Machine.Effect

/-!
# Turns and runs

`Turn` lists everything one turn of a machine can come to. A run is a row of turns, so what every turn
preserves holds of every state in which a run can stop: at the end, at a fault, or cut off after any
number of turns (`loop_invariant`, `run_invariant`).
-/

namespace StackVM

namespace Machine

/-- What one turn comes to, case by case. -/
inductive Turn (m : Machine) : EStateM.Result Stop Machine Bool → Prop where
  | idle (none : m.frames = []) : Turn m (.ok false m)
  | undecoded {frame : Frame} {callers : List Frame} {e : Error} (frames : m.frames = frame :: callers)
    (inside : frame.ip < frame.function.code.size)
    (decoded : Instruction.decode frame.function.code frame.ip = .error e) :
    Turn m (.error (.fault (e.atOffset frame.ip)) m)
  | stepped {frame : Frame} {callers : List Frame} {inst : Instruction} {m' : Machine}
    (frames : m.frames = frame :: callers) (inside : frame.ip < frame.function.code.size)
    (decoded : Instruction.decode frame.function.code frame.ip = .ok inst)
    (done : (m.setIp (frame.ip + inst.width)).effect inst frame.function.code.size
      (frame.ip + inst.width) = .ok m') : Turn m (.ok true m')
  | failed {frame : Frame} {callers : List Frame} {inst : Instruction} {c : Cause}
    (frames : m.frames = frame :: callers) (inside : frame.ip < frame.function.code.size)
    (decoded : Instruction.decode frame.function.code frame.ip = .ok inst)
    (refused : (m.setIp (frame.ip + inst.width)).effect inst frame.function.code.size
      (frame.ip + inst.width) = .error c) :
    Turn m (.error (.fault (Error.atOffset c frame.ip)) (m.setIp (frame.ip + inst.width)))
  | ended {frame : Frame} (frames : m.frames = [frame]) (past : frame.function.code.size ≤ frame.ip) :
    Turn m (.ok false { m with frames := [] })
  | returned {frame : Frame} {callers : List Frame} {m' : Machine} (frames : m.frames = frame :: callers)
    (called : callers ≠ []) (past : frame.function.code.size ≤ frame.ip)
    (done : m.returning = .ok m') : Turn m (.ok true m')
  | stuck {frame : Frame} {callers : List Frame} {c : Cause} (frames : m.frames = frame :: callers)
    (called : callers ≠ []) (past : frame.function.code.size ≤ frame.ip)
    (refused : m.returning = .error c) : Turn m (.error (.fault (Error.atOffset c frame.ip)) m)

/-- No call is due, or no host function is around to be called. -/
def Guest (m : Machine) : Prop :=
  ∀ frame callers inst, m.frames = frame :: callers → frame.ip < frame.function.code.size →
    Instruction.decode frame.function.code frame.ip = .ok inst → inst.opcode = .call →
    ∀ a signature body, m.heap.get? a ≠ some (.host signature body)

end Machine

namespace Exec

variable {m : Machine}

theorem located_ok {x : Exec Unit} {m' : Machine} (ip : Nat) (ran : x m = .ok () m') :
    (located ip x >>= fun _ => pure true) m = .ok true m' := by
  change EStateM.bind (located ip x) _ m = _
  simp only [EStateM.bind, located, ran]
  rfl

theorem located_error {x : Exec Unit} {m' : Machine} {e : Error} (ip : Nat)
    (failed : x m = .error (.fault e) m') :
    (located ip x >>= fun _ => pure true) m = .error (.fault (e.atOffset ip)) m' := by
  change EStateM.bind (located ip x) _ m = _
  simp only [EStateM.bind, located, failed]

/-- Before the end of the code a turn fails where no instruction decodes. -/
theorem turn_undecoded {nested : Exec Unit} {frame : Frame} {callers : List Frame} {e : Error}
    (frames : m.frames = frame :: callers) (inside : frame.ip < frame.function.code.size)
    (decoded : Instruction.decode frame.function.code frame.ip = .error e) :
    turn nested m = .error (.fault (e.atOffset frame.ip)) m := by
  obtain ⟨c, stepped, rfl⟩ := @step_undecoded _ nested _ _ _ frames decoded
  unfold turn
  rw [get_bind, frames]
  simp only [inside, if_true]
  exact (located_error frame.ip stepped).trans rfl

/-- Before the end of the code a turn comes to what the instruction comes to. -/
theorem turn_executed {nested : Exec Unit} {frame : Frame} {callers : List Frame} {inst : Instruction}
    {effect : Except Cause Machine} (frames : m.frames = frame :: callers)
    (inside : frame.ip < frame.function.code.size)
    (decoded : Instruction.decode frame.function.code frame.ip = .ok inst) :
    executeDecoded nested inst frame.function.code.size (frame.ip + inst.width)
        (m.setIp (frame.ip + inst.width)) = (m.setIp (frame.ip + inst.width)).outcome effect →
      turn nested m =
        match effect with
        | .ok m' => .ok true m'
        | .error c => .error (.fault (Error.atOffset c frame.ip)) (m.setIp (frame.ip + inst.width)) := by
  intro ran
  have stepped := (step_decoded frames decoded).trans ran
  unfold turn
  rw [get_bind, frames]
  simp only [inside, if_true]
  cases effect with
  | ok m' => exact located_ok frame.ip stepped
  | error c => exact located_error frame.ip stepped

/-- A turn comes to one of the listed ends. -/
theorem turn_cases (nested : Exec Unit) (bounded : m.stack.length ≤ m.options.stackSize)
    (guest : m.Guest) : m.Turn (turn nested m) := by
  cases frames : m.frames with
  | nil =>
    unfold turn
    rw [get_bind, frames]
    exact .idle frames
  | cons frame callers =>
    by_cases inside : frame.ip < frame.function.code.size
    · cases decoded : Instruction.decode frame.function.code frame.ip with
      | error e =>
        rw [turn_undecoded frames inside decoded]
        exact .undecoded frames inside decoded
      | ok inst =>
        -- only the offset differs from `m`, so the bounds carry over
        have stack : (m.setIp (frame.ip + inst.width)).stack = m.stack := by
          simp only [Machine.setIp, frames]
        have options : (m.setIp (frame.ip + inst.width)).options = m.options := by
          simp only [Machine.setIp, frames]
        have heap : (m.setIp (frame.ip + inst.width)).heap = m.heap := by
          simp only [Machine.setIp, frames]
        rw [turn_executed frames inside decoded
          (execute_eq nested inst frame.function.code.size (frame.ip + inst.width)
            (by rwa [stack, options])
            (fun call => by rw [heap]; exact guest frame callers inst frames inside decoded call))]
        cases effect : (m.setIp (frame.ip + inst.width)).effect inst frame.function.code.size
            (frame.ip + inst.width) with
        | ok m' => exact .stepped frames inside decoded effect
        | error c => exact .failed frames inside decoded effect
    -- past the end of the code a function returns, and the entry is over
    · unfold turn
      rw [get_bind, frames]
      simp only [inside, if_false]
      cases callers with
      | nil => exact .ended frames (by omega)
      | cons caller callers =>
        have called : caller :: callers ≠ [] := by simp
        cases effect : m.returning with
        | ok m' =>
          have ran : ret m = .ok () m' := by rw [ret_apply, effect]; rfl
          rw [List.isEmpty_cons, if_neg (by simp), located_ok frame.ip ran]
          exact .returned frames called (by omega) effect
        | error c =>
          have ran : ret m = .error (.fault c) m := by rw [ret_apply, effect]; rfl
          rw [List.isEmpty_cons, if_neg (by simp), located_error frame.ip ran]
          exact .stuck frames called (by omega) effect

/-- What is run on behalf of host functions does not matter where there are none. -/
theorem turn_nested (nested nested' : Exec Unit) (bounded : m.stack.length ≤ m.options.stackSize)
    (guest : m.Guest) : turn nested m = turn nested' m := by
  cases frames : m.frames with
  | nil =>
    unfold turn
    rw [get_bind, get_bind, frames]
  | cons frame callers =>
    by_cases inside : frame.ip < frame.function.code.size
    · cases decoded : Instruction.decode frame.function.code frame.ip with
      | error e => rw [turn_undecoded frames inside decoded, turn_undecoded frames inside decoded]
      | ok inst =>
        -- the offset has moved on, but nothing else has
        have limit : (m.setIp (frame.ip + inst.width)).stack.length ≤
            (m.setIp (frame.ip + inst.width)).options.stackSize := by
          simp only [Machine.setIp, frames]
          exact bounded
        have hostless : inst.opcode = .call → ∀ a signature body,
            (m.setIp (frame.ip + inst.width)).heap.get? a ≠ some (.host signature body) := by
          simp only [Machine.setIp, frames]
          exact guest frame callers inst frames inside decoded
        rw [turn_executed frames inside decoded (execute_eq nested _ _ _ limit hostless),
          turn_executed frames inside decoded (execute_eq nested' _ _ _ limit hostless)]
    · unfold turn
      rw [get_bind, get_bind, frames]
      simp only [inside, if_false]

/-! ### Runs -/

/-- Where something stopped: `P` holds unless it was a fault, and faults leave `Q`. -/
def Stops {α : Type} (P : Machine → Prop) (Q : Error → Machine → Prop) :
    EStateM.Result Stop Machine α → Prop
  | .ok _ m => P m
  | .error (.fault e) m => Q e m
  | .error .exhausted m => P m

/-- The fault that ended something, if one did. -/
def faultOf {α : Type} : EStateM.Result Stop Machine α → Option Error
  | .error (.fault e) _ => some e
  | _ => none

theorem eq_of_faultOf {α : Type} {result : EStateM.Result Stop Machine α} {e : Error}
    (fault : faultOf result = some e) : ∃ m, result = .error (.fault e) m := by
  cases result with
  | ok a m => cases fault
  | error stop m =>
    cases stop with
    | exhausted => cases fault
    | fault e =>
      cases fault
      exact ⟨m, rfl⟩

/-- The machine of something that was cut off, if it was. -/
def cutOf {α : Type} : EStateM.Result Stop Machine α → Option Machine
  | .error .exhausted m => some m
  | _ => none

theorem eq_of_cutOf {α : Type} {result : EStateM.Result Stop Machine α} (cut : cutOf result = some m) :
    result = .error .exhausted m := by
  cases result with
  | ok a m' => cases cut
  | error stop m' =>
    cases stop with
    | fault e => cases cut
    | exhausted =>
      cases cut
      rfl

/-- The machine of something that came to its end, if it did. -/
def endOf : EStateM.Result Stop Machine Unit → Option Machine
  | .ok () m => some m
  | _ => none

theorem eq_of_endOf {result : EStateM.Result Stop Machine Unit} (ended : endOf result = some m) :
    result = .ok () m := by
  cases result with
  | ok u m' =>
    cases ended
    rfl
  | error stop m' => cases ended

/-- A loop makes a turn and goes on if there is more to do; it makes none when addresses have run out. -/
theorem loop_succ (fuel : Nat) :
    loop (fuel + 1) m =
      if Word.payloadSize < m.heap.size then .error .exhausted m
      else EStateM.bind (turn (do start; loop fuel)) (fun more => if more then loop fuel else pure ()) m := by
  rw [loop, get_bind]
  by_cases outgrown : Word.payloadSize < m.heap.size
  · simp only [outgrown, if_true]
    rfl
  · simp only [outgrown, if_false]
    rfl

/-- What holds before every turn, holds wherever the turns can stop. -/
theorem loop_invariant {P : Machine → Prop} {Q : Error → Machine → Prop}
    (turns : ∀ nested m, P m → m.heap.size ≤ Word.payloadSize → Stops P Q (turn nested m))
    (fuel : Nat) (before : P m) : Stops P Q (loop fuel m) := by
  induction fuel generalizing m with
  | zero => exact before
  | succ fuel ih =>
    rw [loop_succ]
    split
    · exact before
    · next addresses =>
      have turned := turns (do start; loop fuel) m before (Nat.le_of_not_lt addresses)
      rw [EStateM.bind]
      cases result : turn (do start; loop fuel) m with
      | ok more m' =>
        rw [result] at turned
        -- the turn says whether there is another one
        cases more with
        | true => exact ih turned
        | false => exact turned
      | error stop m' =>
        rw [result] at turned
        cases stop with
        | fault e => exact turned
        | exhausted => exact turned

/-- How a row of turns ends with a turn that comes to the given result. -/
def lastOf : EStateM.Result Stop Machine Bool → Option (EStateM.Result Stop Machine Unit)
  | .ok true _ => none
  | .ok false m => some (.ok () m)
  | .error stop m => some (.error stop m)

/-- A row of turns is cut off, or some turn ends it, before which it could have been cut off. What is run
on behalf of host functions must not matter to the turns. -/
theorem loop_last {P : Machine → Prop} {Q : Error → Machine → Prop}
    (turns : ∀ nested m, P m → m.heap.size ≤ Word.payloadSize → Stops P Q (turn nested m))
    (alike : ∀ nested nested' m, P m → turn nested m = turn nested' m) (fuel : Nat) (before : P m) :
    (∃ m', loop fuel m = .error .exhausted m') ∨
      ∃ k m', k < fuel ∧ loop k m = .error .exhausted m' ∧ P m' ∧
        ∀ nested, lastOf (turn nested m') = some (loop fuel m) := by
  induction fuel generalizing m with
  | zero => exact .inl ⟨m, rfl⟩
  | succ fuel ih =>
    by_cases outgrown : Word.payloadSize < m.heap.size
    · refine .inl ⟨m, ?_⟩
      rw [loop_succ, if_pos outgrown]
    have turned := turns (do start; loop fuel) m before (Nat.le_of_not_lt outgrown)
    -- a turn that goes on leaves the rest to a shorter row
    have onward (k : Nat) : loop (k + 1) m =
        EStateM.bind (turn (do start; loop fuel)) (fun more => if more then loop k else pure ()) m := by
      rw [loop_succ, if_neg outgrown, EStateM.bind, EStateM.bind, alike _ (do start; loop fuel) m before]
    rw [onward fuel, EStateM.bind]
    cases result : turn (do start; loop fuel) m with
    | error stop m₁ =>
      refine .inr ⟨0, m, Nat.succ_pos fuel, rfl, before, fun nested => ?_⟩
      rw [alike nested _ m before, result]
      rfl
    | ok more m₁ =>
      cases more with
      | false =>
        refine .inr ⟨0, m, Nat.succ_pos fuel, rfl, before, fun nested => ?_⟩
        rw [alike nested _ m before, result]
        rfl
      | true =>
        rw [result] at turned
        rcases ih turned with cut | ⟨k, m', less, cut, kept, last⟩
        · exact .inl cut
        · refine .inr ⟨k + 1, m', Nat.succ_lt_succ less, ?_, kept, last⟩
          rw [onward k, EStateM.bind, result]
          exact cut

end Exec

namespace Machine

/-- The frame of the entry code on a stack of the given height. -/
def entryFrame (program : Program) (height : Nat) : Frame :=
  { function := program.entry, ip := 0, base := height, floor := height, callee := 0 }

/-- A machine that is about to make its first turn, unless some function was running already. -/
def started (m : Machine) : Machine :=
  match m.frames with
  | [] => { m with frames := [entryFrame m.program m.stack.length] }
  | _ :: _ => m

end Machine

namespace Exec

variable {m : Machine}

theorem start_apply :
    start m =
      if m.frames = [] ∧ m.options.frameSize = 0 then .error (.fault Cause.frameOverflow) m
      else .ok () m.started := by
  unfold start Machine.started
  rw [get_bind]
  cases frames : m.frames with
  | nil =>
    -- the entry needs a frame too
    by_cases no_frame : m.options.frameSize = 0
    · simp only [List.isEmpty_nil, no_frame, and_self, if_true]
      rfl
    · simp only [List.isEmpty_nil, no_frame, and_false, if_true, if_false]
      rfl
  | cons frame callers => simp [pure, EStateM.pure]

/-- A run is a row of turns that begins with a frame for the entry, unless there is no room for one. -/
theorem run_apply (fuel : Nat) :
    run fuel m =
      if m.frames = [] ∧ m.options.frameSize = 0 then .error (.fault Cause.frameOverflow) m
      else loop fuel m.started := by
  have opened : run fuel m = EStateM.bind start (fun _ => loop fuel) m := rfl
  rw [opened, EStateM.bind, start_apply]
  by_cases no_frame : m.frames = [] ∧ m.options.frameSize = 0
  · rw [if_pos no_frame, if_pos no_frame]
  · rw [if_neg no_frame, if_neg no_frame]

/-- What holds when a run starts and before every turn, holds wherever it can stop. -/
theorem run_invariant {P : Machine → Prop} {Q : Error → Machine → Prop}
    (turns : ∀ nested m, P m → m.heap.size ≤ Word.payloadSize → Stops P Q (turn nested m))
    (refused : m.frames = [] → m.options.frameSize = 0 → Q Cause.frameOverflow m)
    (fuel : Nat) (before : P m.started) : Stops P Q (run fuel m) := by
  rw [run_apply]
  by_cases no_frame : m.frames = [] ∧ m.options.frameSize = 0
  · rw [if_pos no_frame]
    exact refused no_frame.1 no_frame.2
  · rw [if_neg no_frame]
    exact loop_invariant turns fuel before

end Exec

end StackVM
