import StackVM.Proofs.Machine.Raising

/-!
# Raised limits

Two runs of a program side by side, one under wider limits than the other. Before every turn their machines
differ in the options only, so as long as the first does not fail the second repeats it turn by turn. Main
statement: `run_under_raised_limits`.
-/

namespace StackVM

namespace Machine

variable {m m' : Machine} {o' : Options}

/-- What the next turn comes to in a machine that calls no host function. -/
def next (m : Machine) : EStateM.Result Stop Machine Bool :=
  match m.frames with
  | [] => .ok false m
  | frame :: callers =>
    if frame.ip < frame.function.code.size then
      match Instruction.decode frame.function.code frame.ip with
      | .error e => .error (.fault (e.atOffset frame.ip)) m
      | .ok inst =>
        let moved := m.setIp (frame.ip + inst.width)
        match moved.effect inst frame.function.code.size (frame.ip + inst.width) with
        | .ok m' => .ok true m'
        | .error c => .error (.fault (Error.atOffset c frame.ip)) moved
    else if callers = [] then .ok false { m with frames := [] }
    else
      match m.returning with
      | .ok m' => .ok true m'
      | .error c => .error (.fault (Error.atOffset c frame.ip)) m

theorem Turn.eq_next {result : EStateM.Result Stop Machine Bool} (turn : m.Turn result) :
    result = m.next := by
  unfold next
  cases turn with
  | idle none => rw [none]
  | undecoded frames inside decoded => simp only [frames, inside, decoded, if_true]
  | stepped frames inside decoded done => simp only [frames, inside, decoded, done, if_true]
  | failed frames inside decoded refused => simp only [frames, inside, decoded, refused, if_true]
  | ended frames past => simp only [frames, Nat.not_lt.2 past, if_true, if_false]
  | returned frames called past done => simp only [frames, Nat.not_lt.2 past, called, done, if_false]
  | stuck frames called past refused =>
    simp only [frames, Nat.not_lt.2 past, called, refused, if_false]

theorem options_effect {inst : Instruction} {size next : Nat} (done : m.effect inst size next = .ok m') :
    m'.options = m.options := by
  by_cases call : inst.opcode = .call
  · rw [effect_of_call call] at done
    exact (calling_loaded done).2
  by_cases ret : inst.opcode = .ret
  · rw [effect_of_ret ret] at done
    exact (returning_loaded done).2
  exact (effect_ok ⟨call, ret⟩ done).options

theorem Turn.options {more : Bool} (turn : m.Turn (.ok more m')) : m'.options = m.options := by
  cases turn with
  | idle none => rfl
  | stepped frames inside decoded done =>
    rw [options_effect done, setIp_eq]
  | ended frames past => rfl
  | returned frames called past done => exact (returning_loaded done).2

/-- A machine keeps to its limits when they are raised. -/
theorem Steady.under (steady : m.Steady) (within : m.options.Within o') : (m.under o').Steady where
  balanced := steady.balanced.moved rfl rfl rfl fun _ _ => rfl
  hostless := steady.hostless
  bounded := Nat.le_trans steady.bounded within.stack
  entry := steady.entry

end Machine

namespace Exec

variable {α : Type} {m : Machine} {o o' : Options}

/-- The same outcome in a machine under other options. -/
def under (o : Options) : EStateM.Result Stop Machine α → EStateM.Result Stop Machine α
  | .ok a m => .ok a (m.under o)
  | .error stop m => .error stop (m.under o)

/-- What `x` comes to when the limits `o` are raised to `o'`: the same, unless it is a fault and some limit
was really raised. -/
def Raised (o o' : Options) (x y : EStateM.Result Stop Machine α) : Prop :=
  y = under o' x ∨ ¬o'.Within o ∧ (faultOf x).isSome

/-- Under wider limits the next turn comes to the same, unless it failed at a limit that was raised. -/
theorem raised_next (within : m.options.Within o') : Raised m.options o' m.next (m.under o').next := by
  unfold Machine.next
  simp only [Machine.under_setIp]
  change Raised _ _ _ (match m.frames with | [] => _ | frame :: callers => _)
  cases frames : m.frames with
  | nil => exact .inl rfl
  | cons frame callers =>
    by_cases inside : frame.ip < frame.function.code.size
    · simp only [inside, if_true]
      cases decoded : Instruction.decode frame.function.code frame.ip with
      | error e => exact .inl rfl
      | ok inst =>
        have options : (m.setIp (frame.ip + inst.width)).options = m.options := by
          rw [Machine.setIp_eq]
        have within' : (m.setIp (frame.ip + inst.width)).options.Within o' := options ▸ within
        have raised := Machine.raised_effect within' inst frame.function.code.size (frame.ip + inst.width)
        simp only
        rw [options] at raised
        rcases raised with same | ⟨wider, c, refused⟩
        · rw [same]
          cases (m.setIp (frame.ip + inst.width)).effect inst frame.function.code.size
            (frame.ip + inst.width) <;> exact .inl rfl
        · rw [refused]
          exact .inr ⟨wider, rfl⟩
    · simp only [inside, if_false]
      -- at the end of the code no limit is asked for
      by_cases outermost : callers = []
      · simp only [outermost, if_true]
        exact .inl rfl
      · simp only [outermost, if_false]
        rcases @Machine.raised_returning m o' with same | ⟨wider, c, refused⟩
        · rw [same]
          cases m.returning <;> exact .inl rfl
        · rw [refused]
          exact .inr ⟨wider, rfl⟩

/-- Turn by turn the machine under wider limits repeats the other one. -/
theorem raised_loop (steady : m.Steady) (within : m.options.Within o') (fuel : Nat) :
    Raised m.options o' (loop fuel m) (loop fuel (m.under o')) := by
  induction fuel generalizing m with
  | zero => exact .inl rfl
  | succ fuel ih =>
    rw [loop_succ, loop_succ]
    change Raised _ _ _ (if Word.payloadSize < m.heap.size then _ else _)
    by_cases outgrown : Word.payloadSize < m.heap.size
    · rw [if_pos outgrown, if_pos outgrown]
      exact .inl rfl
    · rw [if_neg outgrown, if_neg outgrown, EStateM.bind, EStateM.bind]
      have steady' := steady.under within
      have turn := turn_cases (do start; loop fuel) steady.bounded steady.guest
      have kept := Machine.steady_turn (do start; loop fuel) steady (Nat.le_of_not_lt outgrown)
      have first : Exec.turn (do start; loop fuel) m = m.next := turn.eq_next
      have second : Exec.turn (do start; loop fuel) (m.under o') = (m.under o').next :=
        (turn_cases (do start; loop fuel) steady'.bounded steady'.guest).eq_next
      rw [first] at turn kept
      rw [first, second]
      rcases raised_next within with same | ⟨wider, faulted⟩
      · rw [same]
        cases result : m.next with
        | error stop m' => exact .inl rfl
        | ok more m' =>
          rw [result] at turn kept
          -- only a turn that says so is followed by another one
          cases more with
          | false => exact .inl rfl
          | true =>
            have options := turn.options
            have rest := ih kept (options ▸ within)
            rw [options] at rest
            exact rest
      · obtain ⟨e, fault⟩ := Option.isSome_iff_exists.1 faulted
        obtain ⟨m', stopped⟩ := eq_of_faultOf fault
        rw [stopped]
        exact .inr ⟨wider, rfl⟩

theorem faultOf_under (o : Options) (result : EStateM.Result Stop Machine α) :
    faultOf (under o result) = faultOf result := by
  cases result with
  | ok a m => rfl
  | error stop m => cases stop <;> rfl

theorem under_started (m : Machine) (o : Options) : (m.under o).started = m.started.under o := by
  obtain ⟨program, options, stack, frames, globals, constants, heap⟩ := m
  cases frames <;> rfl

theorem options_started (m : Machine) : m.started.options = m.options := by
  unfold Machine.started
  split <;> rfl

theorem raised_run (steady : m.Steady) (within : m.options.Within o') (fuel : Nat) :
    Raised m.options o' (run fuel m) (run fuel (m.under o')) := by
  have opened (m : Machine) : run fuel m = EStateM.bind start (fun _ => loop fuel) m := rfl
  rw [opened, opened, EStateM.bind, EStateM.bind, start_apply, start_apply]
  have frame := within.frame
  by_cases refused' : (m.under o').frames = [] ∧ (m.under o').options.frameSize = 0
  · -- then there is no room for the entry under the narrower limits either
    have none : o'.frameSize = 0 := refused'.2
    have refused : m.frames = [] ∧ m.options.frameSize = 0 := ⟨refused'.1, by omega⟩
    rw [if_pos refused, if_pos refused']
    exact .inl rfl
  rw [if_neg refused']
  by_cases refused : m.frames = [] ∧ m.options.frameSize = 0
  · rw [if_pos refused]
    refine .inr ⟨fun back => refused' ⟨refused.1, ?_⟩, rfl⟩
    have frame' := back.frame
    change o'.frameSize = 0
    omega
  · rw [if_neg refused]
    simp only [under_started]
    have raised := raised_loop (Machine.steady_started steady) (options_started m ▸ within) fuel
    rwa [options_started] at raised

end Exec

namespace Machine

variable {p : Program} {o o' : Options}

/-- A run that does not fail comes to the same under wider limits: it ends, or is cut off, with the same
stack, frames, globals, constants and heap. Where no limit differs even faults are the same, so the initial
capacities never show. -/
theorem run_under_raised_limits (guest : ∀ c ∈ p.constants, c.isHost = false) (within : o.Within o')
    (n : Nat) :
    (Exec.faultOf (Exec.run n (load p o)) = none →
      Exec.faultOf (Exec.run n (load p o')) = none ∧
        Exec.run n (load p o') = Exec.under o' (Exec.run n (load p o))) ∧
    (o'.Within o → Exec.run n (load p o') = Exec.under o' (Exec.run n (load p o))) := by
  have raised : Exec.Raised o o' (Exec.run n (load p o)) (Exec.run n (load p o')) :=
    Exec.raised_run (steady_load guest o) within n
  constructor
  · intro unfailing
    rcases raised with same | ⟨-, faulted⟩
    · exact ⟨by rw [same, Exec.faultOf_under, unfailing], same⟩
    · rw [unfailing] at faulted
      cases faulted
  · intro back
    rcases raised with same | ⟨wider, -⟩
    · exact same
    · exact absurd back wider

/-- A program that passes an array to a function that measures it. -/
def measuring : Program :=
  let body : Code := Instruction.assemble [⟨.localGet, [0]⟩, ⟨.arrayLen, []⟩]
  { code := Instruction.assemble
      [⟨.const .i32, [5]⟩, ⟨.arrayNewDefault, [0]⟩, ⟨.constGet, [0]⟩, ⟨.call, []⟩]
    constants := #[.function ⟨⟨[.packed .i32], [.i32]⟩, 0, body⟩]
    types := #[.packed .i32] }

/-- The limits that the program just keeps to, and no capacity at all. -/
def narrow : Options := { stackSize := 2, frameSize := 2, globalSize := 0, heapSize := 0, arraySize := 5 }

/-- Inside the function that was called, with the length on top of the array. -/
theorem measuring_under_raised_limits :
    (leftBy (Exec.run 6 (load measuring narrow))).stack = [.i32 5, .ref 2] ∧
      Exec.run 6 (load measuring {}) = Exec.under {} (Exec.run 6 (load measuring narrow)) := by
  obtain ⟨unfailing, stack⟩ : Exec.faultOf (Exec.run 6 (load measuring narrow)) = none ∧
      (leftBy (Exec.run 6 (load measuring narrow))).stack = [.i32 5, .ref 2] := by decide +kernel
  have guest : ∀ c ∈ measuring.constants, c.isHost = false := by simp [measuring, Constant.isHost]
  have within : narrow.Within {} := ⟨by decide, by decide, by decide⟩
  have raised := run_under_raised_limits guest within 6
  exact ⟨stack, (raised.1 unfailing).2⟩

end Machine

end StackVM
