import StackVM.Proofs.Machine.Calls
import StackVM.Proofs.ReferenceCounts
import StackVM.Proofs.Verifier.Following

/-!
# The shape of the stack in verified programs

The verifier lets an unknown reference stand for a reference of any type, so a call can reach a function
other than the one its rule assumed. `Followed` follows a run with the rules of the verifier, frame by
frame, up to the first call of a function that takes or gives another number of values than the rule
assumed. Main statement: up to there the stack is as high as the rules say, and only from there on can a
verified program run out of operands (`underflow_misled`). It never runs out of frames.
-/

namespace StackVM

open Verifier

theorem Instruction.cause_decode {code : Code} {ip : Nat} {e : Error}
    (failed : Instruction.decode code ip = .error e) :
    e.cause = .segmentationFault ∨ e.cause = .unknownOpcode := by
  rcases Code.decode_eq_error failed with rfl | rfl
  · exact .inl rfl
  · exact .inr rfl

namespace Machine

/-! ### Runs beside the rules -/

/-- The innermost frame is about to execute the instruction. -/
def At (m : Machine) (frame : Frame) (inst : Instruction) : Prop :=
  m.frames.head? = some frame ∧ frame.ip < frame.function.code.size ∧
    Instruction.decode frame.function.code frame.ip = .ok inst

/-- The innermost frame is about to return, at a return or at the end of its code. -/
def Leaves (m : Machine) (frame : Frame) : Prop :=
  m.frames.head? = some frame ∧
    (frame.function.code.size ≤ frame.ip ∨ ∃ inst, m.At frame inst ∧ inst.opcode = .ret)

/-- One turn of a run, which makes none when addresses have run out. -/
def Turns (m m' : Machine) : Prop :=
  m.heap.size ≤ Word.payloadSize ∧ ∃ nested more, Exec.turn nested m = .ok more m'

/-- The function that is about to be called takes or gives another number of values than the function
type on top of the stack of types says. -/
def Misled (m : Machine) (path : Path) : Prop :=
  ∃ frame inst a f params returns below, m.At frame inst ∧ inst.opcode = .call ∧
    m.stack.head? = some (.ref a) ∧ m.heap.get? a = some (.function f) ∧
    path.stack = .function params returns :: below ∧
    (f.signature.params.length ≠ params.length ∨ f.signature.returns.length ≠ returns.length)

/-- The run of a program up to some turn, with the path that the rules give for each frame, the innermost
first. The table `T` says which types the verifier gave to globals. -/
inductive Followed (p : Program) (o : Options) (T : Table Ty) : Machine → List Path → Prop where
  | start : Followed p o T (load p o).started [⟨[], .empty⟩]
  | step {m m' : Machine} {frame : Frame} {inst : Instruction} {path path' : Path} {paths : List Path}
    (before : Followed p o T m (path :: paths)) (at_inst : m.At frame inst)
    (no_call : inst.opcode ≠ .call) (no_ret : inst.opcode ≠ .ret)
    (rule : Scope.apply ⟨p, frame.function, o.stackSize⟩ inst ⟨path, T⟩ = .ok ((), ⟨path', T⟩))
    (turns : m.Turns m') : Followed p o T m' (path' :: paths)
  | call {m m' : Machine} {frame : Frame} {inst : Instruction} {path path' : Path} {paths : List Path}
    {a : Nat} {f : Function} {w : Table Ty} (before : Followed p o T m (path :: paths)) (known : w.Le T)
    (at_inst : m.At frame inst) (call : inst.opcode = .call) (top : m.stack.head? = some (.ref a))
    (callee : m.heap.get? a = some (.function f)) (agrees : ¬m.Misled path)
    (rule : Scope.apply ⟨p, frame.function, o.stackSize⟩ inst ⟨path, T⟩ = .ok ((), ⟨path', T⟩))
    (turns : m.Turns m') :
    Followed p o T m' (⟨Scope.entryStack ⟨p, f, o.stackSize⟩, w⟩ :: path' :: paths)
  | leave {m m' : Machine} {frame : Frame} {path : Path} {paths : List Path}
    (before : Followed p o T m (path :: paths)) (leaves : m.Leaves frame) (turns : m.Turns m') :
    Followed p o T m' paths

/-! ### Heights -/

/-- Each frame fits its path: the innermost up to the given height, every other one up to where the
results of the frame above it will end. -/
inductive Heights (p : Program) (o : Options) : Nat → List Frame → List Path → Prop where
  | nil {height : Nat} : Heights p o height [] []
  | cons {height : Nat} {frame : Frame} {callers : List Frame} {path : Path} {paths : List Path}
    (fits : frame.Fits ⟨p, frame.function, o.stackSize⟩ path height)
    (outer : Heights p o (frame.base + frame.function.signature.returns.length) callers paths) :
    Heights p o height (frame :: callers) (path :: paths)

variable {m m' : Machine} {p : Program} {o : Options} {T : Table Ty} {frame : Frame}
  {callers : List Frame} {path path' : Path} {paths : List Path} {inst : Instruction} {f : Function}
  {a : Nat} {w : Table Ty}

theorem Turns.turn (turns : m.Turns m') (steady : m.Steady) : ∃ more, m.Turn (.ok more m') := by
  obtain ⟨-, nested, more, turned⟩ := turns
  have cases := Exec.turn_cases nested steady.bounded steady.guest
  rw [turned] at cases
  exact ⟨more, cases⟩

theorem Turns.steady (turns : m.Turns m') (steady : m.Steady) : m'.Steady := by
  obtain ⟨addresses, nested, more, turned⟩ := turns
  have stopped := steady_turn nested steady addresses
  rw [turned] at stopped
  exact stopped

/-- At an instruction, a turn executes it. -/
theorem At.effect (at_inst : m.At frame inst) (frames : m.frames = frame :: callers)
    (steady : m.Steady) (turns : m.Turns m') :
    (m.setIp (frame.ip + inst.width)).effect inst frame.function.code.size (frame.ip + inst.width) =
      .ok m' := by
  obtain ⟨-, inside, decoded⟩ := at_inst
  obtain ⟨more, turn⟩ := turns.turn steady
  cases turn with
  | idle none =>
    rw [frames] at none
    cases none
  | stepped frames' inside' decoded' done =>
    rw [frames] at frames'
    cases frames'
    rw [decoded] at decoded'
    cases decoded'
    exact done
  | ended frames' past =>
    rw [frames] at frames'
    cases frames'
    omega
  | returned frames' called past done =>
    rw [frames] at frames'
    cases frames'
    omega

/-- Where the innermost frame stands says which instruction it is at. -/
theorem at_of_place {code : Code} {ip : Nat}
    (place : m.frames.head?.map (fun frame => (frame.ip, frame.function.code)) = some (ip, code))
    (inside : ip < code.size) (decoded : Instruction.decode code ip = .ok inst) :
    ∃ frame, m.At frame inst ∧ frame.ip = ip := by
  obtain ⟨frame, first, here⟩ := Option.map_eq_some_iff.1 place
  cases here
  exact ⟨frame, ⟨first, inside, decoded⟩, rfl⟩

theorem At.frames (at_inst : m.At frame inst) : ∃ callers, m.frames = frame :: callers := by
  cases found : m.frames with
  | nil => simp [At, found] at at_inst
  | cons first callers =>
    have same := at_inst.1
    rw [found] at same
    cases same
    exact ⟨callers, rfl⟩

/-- A function that was entered fits its entry, and its caller the path after the call. -/
theorem heights_entered {rest : List Value} {params returns ts below : List Ty}
    (fits : frame.Fits ⟨p, frame.function, o.stackSize⟩ ⟨.function params returns :: (ts ++ below), w⟩
      m.stack.length)
    (above : Scope.floor ⟨p, frame.function, o.stackSize⟩ ≤ below.length)
    (arguments : ts.length = params.length) (frames : m.frames = frame :: callers)
    (top : m.stack = .ref a :: rest) (takes : f.signature.params.length = params.length)
    (gives : f.signature.returns.length = returns.length)
    (outer : Heights p o (frame.base + frame.function.signature.returns.length) callers paths)
    (u : Table Ty) :
    Heights p o (m.entered f [] a).stack.length (m.entered f [] a).frames
      (⟨Scope.entryStack ⟨p, f, o.stackSize⟩, u⟩ :: ⟨returns.reverse ++ below, w⟩ :: paths) := by
  have height := fits.height
  rw [top] at height
  simp only [List.length_cons, List.length_append] at height
  -- the arguments become the first locals of the callee, so its base lies below them
  have base : (m.stack.drop 1).length - f.signature.params.length = frame.base + below.length := by
    rw [top, List.drop_one, List.tail_cons]
    omega
  have entry : (Scope.entryStack ⟨p, f, o.stackSize⟩).length = f.signature.params.length + f.locals := by
    simp [Scope.entryStack, Nat.add_comm]
  have entered : (m.entered f [] a).frames =
      { function := f, ip := 0, base := frame.base + below.length,
        floor := frame.base + below.length + f.signature.params.length + f.locals, callee := a } ::
        frame :: callers := by
    simp only [Machine.entered, base, frames]
  rw [entered]
  -- the callee at its entry, and the caller as it will be after the return
  refine .cons ⟨rfl, Nat.add_assoc _ _ _, ?_, ?_⟩ (.cons ⟨rfl, fits.floor, ?_, ?_⟩ outer)
  · rw [length_entered top, entry]
    simp only
    omega
  · rw [entry]
    exact Nat.le_refl _
  · simp only [List.length_append, List.length_reverse]
    omega
  · simp only [List.length_append]
    omega

/-- A return leaves the caller its results. -/
theorem heights_returned (fits : frame.Fits ⟨p, frame.function, o.stackSize⟩ path m.stack.length)
    (enough : frame.floor + frame.function.signature.returns.length ≤ m.stack.length) :
    (m.returned frame).stack.length = frame.base + frame.function.signature.returns.length := by
  have floor := fits.floor
  exact length_returned (by omega) enough

/-- What holds of every run that was followed. -/
structure Tracked (p : Program) (o : Options) (m : Machine) (paths : List Path) : Prop where
  steady : m.Steady
  program : m.program = p
  heights : Heights p o m.stack.length m.frames paths

theorem Tracked.step (tracked : Tracked p o m (path :: paths)) (agreed : path.Known T)
    (at_inst : m.At frame inst)
    (no_call : inst.opcode ≠ .call) (no_ret : inst.opcode ≠ .ret)
    (rule : Scope.apply ⟨p, frame.function, o.stackSize⟩ inst ⟨path, T⟩ = .ok ((), ⟨path', T⟩))
    (turns : m.Turns m') : Tracked p o m' (path' :: paths) := by
  obtain ⟨callers, frames⟩ := at_inst.frames
  have heights := tracked.heights
  rw [frames] at heights
  cases heights with
  | cons fits outer =>
    -- the effect and the rule change the height by the same amount
    have moved := effect_ok ⟨no_call, no_ret⟩ (at_inst.effect frames tracked.steady turns)
    have shift := (Scope.transfers_of_apply agreed rule).2.shift no_call no_ret
    obtain ⟨ip, frames', fits', -⟩ := fits.moved shift frames tracked.program moved
    refine ⟨turns.steady tracked.steady, ?_, ?_⟩
    · rw [moved.program, setIp_eq]
      exact tracked.program
    · rw [frames']
      exact .cons fits' outer

/-- The rule of a call, taken apart. -/
theorem Scope.call_of_apply {c : Scope} (agreed : path.Known T) (call : inst.opcode = .call)
    (rule : c.apply inst ⟨path, T⟩ = .ok ((), ⟨path', T⟩)) :
    ∃ params returns ts below, path = ⟨.function params returns :: (ts ++ below), path.recorded⟩ ∧
      path' = ⟨returns.reverse ++ below, path.recorded⟩ ∧ Scope.Accepts params.reverse ts ∧
      c.floor ≤ below.length := by
  have transfer := (Scope.transfers_of_apply agreed rule).2
  cases transfer with
  | call arguments above room => exact ⟨_, _, _, _, rfl, rfl, arguments, above⟩
  | _ => cases call

theorem Tracked.call (tracked : Tracked p o m (path :: paths)) (agreed : path.Known T)
    (at_inst : m.At frame inst) (call : inst.opcode = .call) (top : m.stack.head? = some (.ref a))
    (callee : m.heap.get? a = some (.function f)) (agrees : ¬m.Misled path)
    (rule : Scope.apply ⟨p, frame.function, o.stackSize⟩ inst ⟨path, T⟩ = .ok ((), ⟨path', T⟩))
    (turns : m.Turns m') (u : Table Ty) :
    Tracked p o m' (⟨Scope.entryStack ⟨p, f, o.stackSize⟩, u⟩ :: path' :: paths) := by
  obtain ⟨callers, frames⟩ := at_inst.frames
  have heights := tracked.heights
  rw [frames] at heights
  cases heights with
  | cons fits outer =>
    -- what the rule assumed
    obtain ⟨params, returns, ts, below, before, rfl, arguments, above⟩ :=
      Scope.call_of_apply agreed call rule
    have done := at_inst.effect frames tracked.steady turns
    rw [effect_of_call call] at done
    have steady := tracked.steady.setIp (frame.ip + inst.width)
    -- what the machine did
    obtain ⟨b, g, rest, top', found, entering⟩ := calling_eq_ok steady.closureless done
    obtain ⟨-, -, rfl⟩ := entering_eq_ok top' entering
    -- the function that is entered is the one the rule was compared with
    have stack : m.stack = .ref b :: rest := by rwa [setIp_stack] at top'
    have same : b = a := by
      rw [stack] at top
      simpa using top
    subst same
    rw [heap_setIp, callee] at found
    cases found
    have lengths : f.signature.params.length = params.length ∧
        f.signature.returns.length = returns.length := by
      by_contra differ
      refine agrees ⟨frame, inst, b, f, params, returns, ts ++ below, at_inst, call, top, callee, ?_, ?_⟩
      · rw [before]
      · omega
    have length := arguments.length_eq
    rw [List.length_reverse] at length
    refine ⟨turns.steady tracked.steady, ?_, ?_⟩
    · rw [Machine.entered, setIp_eq]
      exact tracked.program
    · have caller : (m.setIp (frame.ip + inst.width)).frames =
          { frame with ip := frame.ip + inst.width } :: callers := Frame.setIp_frames frames
      rw [before] at fits
      have inner : Frame.Fits { frame with ip := frame.ip + inst.width } ⟨p, frame.function, o.stackSize⟩
          ⟨.function params returns :: (ts ++ below), path.recorded⟩
          (m.setIp (frame.ip + inst.width)).stack.length := by
        rw [setIp_stack]
        exact ⟨rfl, fits.floor, fits.height, fits.above⟩
      exact heights_entered inner above length caller top' lengths.1 lengths.2 outer u

theorem Tracked.returned (tracked : Tracked p o m (path :: paths)) (frames : m.frames = frame :: callers)
    (steady : m'.Steady) (done : m.returning = .ok m') : Tracked p o m' paths := by
  have heights := tracked.heights
  rw [frames] at heights
  cases heights with
  | cons fits outer =>
    obtain ⟨enough, -, rfl⟩ := returning_eq_ok frames done
    rw [Machine.floor, frames] at enough
    refine ⟨steady, tracked.program, ?_⟩
    rw [heights_returned fits enough]
    simp only [Machine.returned, frames, List.tail_cons]
    exact outer

theorem Tracked.setIp (tracked : Tracked p o m (path :: paths)) (frames : m.frames = frame :: callers)
    (ip : Nat) : Tracked p o (m.setIp ip) (path :: paths) := by
  have heights := tracked.heights
  rw [frames] at heights
  refine ⟨tracked.steady.setIp ip, ?_, ?_⟩
  · rw [setIp_eq]
    exact tracked.program
  · rw [Frame.setIp_frames frames, setIp_stack]
    cases heights with
    | cons fits outer => exact .cons ⟨rfl, fits.floor, fits.height, fits.above⟩ outer

theorem Tracked.leave (tracked : Tracked p o m (path :: paths)) (leaves : m.Leaves frame)
    (turns : m.Turns m') : Tracked p o m' paths := by
  have steady := turns.steady tracked.steady
  obtain ⟨more, turn⟩ := turns.turn tracked.steady
  obtain ⟨first, why⟩ := leaves
  cases turn with
  | idle none =>
    rw [none] at first
    cases first
  | @stepped frame' callers' inst' m' frames inside decoded done =>
    rw [frames] at first
    cases first
    -- inside its code a frame leaves only by a return
    rcases why with past | ⟨inst, at_inst, ret⟩
    · omega
    · have same := at_inst.2.2
      rw [decoded] at same
      cases same
      rw [effect_of_ret ret] at done
      exact (tracked.setIp frames _).returned (Frame.setIp_frames frames) steady done
  | ended frames past =>
    have heights := tracked.heights
    rw [frames] at heights
    cases heights with
    | cons fits outer =>
      -- only the entry code is left without a caller
      cases outer
      exact ⟨steady, tracked.program, .nil⟩
  | returned frames called past done => exact tracked.returned frames steady done

theorem tracked_start (guest : ∀ c ∈ p.constants, c.isHost = false) :
    Tracked p o (load p o).started [⟨[], .empty⟩] :=
  ⟨steady_started (steady_load guest o), rfl, .cons ⟨rfl, rfl, rfl, Nat.le_refl _⟩ .nil⟩

/-- Along the paths the types that are recorded are those of the table. -/
theorem Followed.known (followed : Followed p o T m paths) : ∀ path ∈ paths, path.Known T := by
  -- what a rule makes of a path, when the table stays as it is
  have onward {frame : Frame} {inst : Instruction} {path path' : Path} (agreed : path.Known T)
      (rule : Scope.apply ⟨p, frame.function, o.stackSize⟩ inst ⟨path, T⟩ = .ok ((), ⟨path', T⟩)) :
      path'.Known T :=
    (Scope.transfers_of_apply agreed rule).2.known agreed
  induction followed with
  | start =>
    intro path mem
    cases List.mem_singleton.1 mem
    intro i t recorded
    cases (Table.get?_empty i).symm.trans recorded
  | step before at_inst no_call no_ret rule turns ih =>
    obtain ⟨agreed, others⟩ := List.forall_mem_cons.1 ih
    exact List.forall_mem_cons.2 ⟨onward agreed rule, others⟩
  | call before known at_inst call top callee agrees rule turns ih =>
    obtain ⟨agreed, others⟩ := List.forall_mem_cons.1 ih
    exact List.forall_mem_cons.2 ⟨known, List.forall_mem_cons.2 ⟨onward agreed rule, others⟩⟩
  | leave before leaves turns ih => exact (List.forall_mem_cons.1 ih).2

theorem tracked_of_followed (guest : ∀ c ∈ p.constants, c.isHost = false)
    (followed : Followed p o T m paths) : Tracked p o m paths := by
  -- the invariant, turn by turn
  induction followed with
  | start => exact tracked_start guest
  | step before at_inst no_call no_ret rule turns ih =>
    exact ih.step (List.forall_mem_cons.1 before.known).1 at_inst no_call no_ret rule turns
  | call before known at_inst call top callee agrees rule turns ih =>
    exact ih.call (List.forall_mem_cons.1 before.known).1 at_inst call top callee agrees rule turns _
  | leave before leaves turns ih => exact ih.leave leaves turns

/-! ### Faults -/

/-- Some call of the run was misled. -/
def Doomed (p : Program) (o : Options) (T : Table Ty) : Prop :=
  ∃ m path paths, Followed p o T m (path :: paths) ∧ m.Misled path

/-- The frame stands where the path was checked. -/
def Standing (p : Program) (o : Options) (T : Table Ty) (frame : Frame) (path : Path) : Prop :=
  ∃ y : Survey, y.Covers ⟨p, frame.function, o.stackSize⟩ T ∧
    y.Stands ⟨p, frame.function, o.stackSize⟩ T frame.ip path

/-- The run was followed up to here, and every frame stands on its path. -/
def Cleared (p : Program) (o : Options) (T : Table Ty) (m : Machine) : Prop :=
  ∃ paths, Followed p o T m paths ∧ List.Forall₂ (Standing p o T) m.frames paths

/-- A machine that has a frame never wants for one. -/
theorem Turn.framed {e : Error} (turn : m.Turn (.error (.fault e) m')) (steady : m.Steady) :
    e.cause ≠ .frameUnderflow := by
  -- a return looks at the frame only after it was found to be there
  have no_return {m : Machine} {frame : Frame} {callers : List Frame} {cause : Cause}
      (frames : m.frames = frame :: callers) (refused : m.returning = .error cause) :
      cause ≠ .frameUnderflow := by
    rintro rfl
    exact absurd (cause_returning frames refused) (by decide)
  cases turn with
  | undecoded frames inside decoded =>
    intro cause
    rcases Instruction.cause_decode decoded with never | never
    · exact absurd (cause.symm.trans never) (by decide)
    · exact absurd (cause.symm.trans never) (by decide)
  | @failed frame callers inst cause frames inside decoded refused =>
    rintro rfl
    by_cases call : inst.opcode = .call
    · rw [effect_of_call call] at refused
      exact absurd (cause_calling (steady.setIp _).closureless refused) (by decide)
    by_cases ret : inst.opcode = .ret
    · rw [effect_of_ret ret] at refused
      exact no_return (Frame.setIp_frames frames) refused rfl
    cases effect_error ⟨call, ret⟩ refused with
    | frame none =>
      rw [Frame.setIp_frames frames] at none
      cases none
  | stuck frames called past refused => exact no_return frames refused

/-- A return from a frame whose results were checked finds them. -/
theorem returning_enough (fits : frame.Fits ⟨p, frame.function, o.stackSize⟩ path m.stack.length)
    (frames : m.frames = frame :: callers)
    (results : Scope.checkResults ⟨p, frame.function, o.stackSize⟩
      (Scope.floor ⟨p, frame.function, o.stackSize⟩) path.stack = .ok ()) :
    m.returning ≠ .error .stackUnderflow := by
  intro refused
  rcases returning_eq_error frames refused with ⟨-, few⟩ | ⟨never, -⟩
  · have enough := (Scope.checkResults_eq_ok results).1
    rw [Machine.floor, frames] at few
    have floor := fits.floor
    have height := fits.height
    simp only at few enough
    omega
  · cases never

/-- A call that is not misled finds its arguments. -/
theorem calling_enough {params returns ts below : List Ty}
    (fits : frame.Fits ⟨p, frame.function, o.stackSize⟩ ⟨.function params returns :: (ts ++ below), w⟩
      m.stack.length)
    (above : Scope.floor ⟨p, frame.function, o.stackSize⟩ ≤ below.length)
    (arguments : ts.length = params.length) (frames : m.frames = frame :: callers)
    (closureless : m.Closureless)
    (takes : ∀ a f rest, m.stack = .ref a :: rest → m.heap.get? a = some (.function f) →
      f.signature.params.length = params.length) : m.calling ≠ .error .stackUnderflow := by
  intro refused
  have floor := fits.floor
  have height := fits.height
  simp only [List.length_cons, List.length_append] at height
  have bottom : m.floor = frame.floor := by rw [Machine.floor, frames]
  rcases calling_eq_error closureless refused with
    ⟨-, few⟩ | never | never | ⟨a, f, rest, top, found, entering⟩
  · omega
  · cases never
  · cases never
  · rcases entering_eq_error top entering with ⟨-, few⟩ | ⟨never, -⟩ | never | never
    · have same := takes a f rest top found
      omega
    · cases never
    · cases never
    · cases never

/-- The innermost frame of a machine that was followed. -/
theorem Cleared.innermost (cleared : Cleared p o T m) (guest : ∀ c ∈ p.constants, c.isHost = false)
    (frames : m.frames = frame :: callers) :
    ∃ (path : Path) (paths : List Path) (y : Survey), Followed p o T m (path :: paths) ∧
      y.Covers ⟨p, frame.function, o.stackSize⟩ T ∧
      frame.Follows y ⟨p, frame.function, o.stackSize⟩ T path m.stack.length ∧
      List.Forall₂ (Standing p o T) callers paths := by
  obtain ⟨paths, followed, standing⟩ := cleared
  have heights := (tracked_of_followed guest followed).heights
  rw [frames] at heights standing
  cases standing with
  | cons stands others =>
    cases heights with
    | cons fits outer =>
      obtain ⟨y, covers, stands⟩ := stands
      exact ⟨_, _, y, followed, covers, ⟨fits, stands⟩, others⟩

/-- A machine that was followed wants for operands only when a call is misled. -/
theorem Cleared.underflow {e : Error} (cleared : Cleared p o T m)
    (guest : ∀ c ∈ p.constants, c.isHost = false) (turn : m.Turn (.error (.fault e) m')) :
    e.cause = .stackUnderflow → Doomed p o T := by
  intro underflow
  cases turn with
  | undecoded frames inside decoded =>
    rcases Instruction.cause_decode decoded with never | never
    · exact absurd (underflow.symm.trans never) (by decide)
    · exact absurd (underflow.symm.trans never) (by decide)
  | @failed frame callers inst cause frames inside decoded refused =>
    have cause : cause = .stackUnderflow := underflow
    subst cause
    obtain ⟨path, paths, y, followed, covers, follows, -⟩ := cleared.innermost guest frames
    obtain ⟨path', onward⟩ := follows.onward covers inside decoded
    have tracked := tracked_of_followed guest followed
    -- moving on in the code does not change what the frame fits
    have fits : Frame.Fits { frame with ip := frame.ip + inst.width }
        ⟨p, frame.function, o.stackSize⟩ path (m.setIp (frame.ip + inst.width)).stack.length := by
      rw [setIp_stack]
      exact ⟨rfl, follows.floor, follows.height, follows.above⟩
    by_cases call : inst.opcode = .call
    -- a call that is not misled would have found its arguments
    · by_contra fine
      have at_inst : m.At frame inst := ⟨by rw [frames]; rfl, inside, decoded⟩
      obtain ⟨params, returns, ts, below, before, -, arguments, above⟩ :=
        Scope.call_of_apply (List.forall_mem_cons.1 followed.known).1 call onward.transfer.apply_eq
      have length := arguments.length_eq
      rw [List.length_reverse] at length
      rw [before] at fits
      rw [effect_of_call call] at refused
      refine calling_enough fits above length (Frame.setIp_frames frames)
        (tracked.steady.setIp _).closureless (fun a f rest top found => ?_) refused
      rw [setIp_stack] at top
      rw [heap_setIp] at found
      by_contra differ
      exact fine ⟨m, path, paths, followed, frame, inst, a, f, params, returns, ts ++ below,
        at_inst, call, by rw [top]; rfl, found, by rw [before], .inl differ⟩
    by_cases ret : inst.opcode = .ret
    · rw [effect_of_ret ret] at refused
      have results : Scope.checkResults ⟨p, frame.function, o.stackSize⟩
          (Scope.floor ⟨p, frame.function, o.stackSize⟩) path.stack = .ok () := by
        cases onward.transfer with
        | ret results => exact results
        | _ => cases ret
      exact absurd refused (returning_enough fits (Frame.setIp_frames frames) results)
    -- no other instruction takes more than its rule did
    · have never := follows.blames onward frames tracked.program call ret
        (effect_error ⟨call, ret⟩ refused)
      simp at never
  | @stuck frame callers cause frames called past refused =>
    have cause : cause = .stackUnderflow := underflow
    subst cause
    obtain ⟨path, paths, y, followed, covers, follows, -⟩ := cleared.innermost guest frames
    have results := follows.stands.results covers past
    exact absurd refused (returning_enough follows.toFits frames results)

/-- A turn that goes on keeps every frame on its path, unless a call is misled. -/
theorem Cleared.turned (cleared : Cleared p o T m) (guest : ∀ c ∈ p.constants, c.isHost = false)
    (checked : ∀ f ∈ p.functions, Checked ⟨p, f, o.stackSize⟩ T) (steady : m.Steady)
    (turns : m.Turns m') : Doomed p o T ∨ Cleared p o T m' := by
  obtain ⟨more, turn⟩ := turns.turn steady
  cases turn with
  | idle none => exact .inr cleared
  | @stepped frame callers inst m' frames inside decoded done =>
    obtain ⟨path, paths, y, followed, covers, follows, others⟩ := cleared.innermost guest frames
    obtain ⟨path', onward⟩ := follows.onward covers inside decoded
    have tracked := tracked_of_followed guest followed
    have at_inst : m.At frame inst := ⟨by rw [frames]; rfl, inside, decoded⟩
    have rule := onward.transfer.apply_eq
    by_cases call : inst.opcode = .call
    · by_cases misled : m.Misled path
      · exact .inl ⟨m, path, paths, followed, misled⟩
      rw [effect_of_call call] at done
      have steady' := steady.setIp (frame.ip + inst.width)
      obtain ⟨a, f, rest, top, found, entering⟩ := calling_eq_ok steady'.closureless done
      obtain ⟨-, -, rfl⟩ := entering_eq_ok top entering
      -- the callee is a function of the program, so it was checked from its entry on
      have sound := steady'.balanced.sound a _ found
      rw [setIp_eq, tracked.program] at sound
      obtain ⟨z, w, covers', known, stands'⟩ := checked f sound
      rw [setIp_stack] at top
      rw [heap_setIp] at found
      refine .inr ⟨_, .call followed known at_inst call (by rw [top]; rfl) found misled rule turns, ?_⟩
      simp only [Machine.entered, Frame.setIp_frames frames]
      refine .cons ⟨z, covers', stands'⟩ (.cons ⟨y, covers, onward.falls ?_⟩ others)
      rw [call]
      rfl
    by_cases ret : inst.opcode = .ret
    · rw [effect_of_ret ret] at done
      -- the caller stands where it was left
      refine .inr ⟨paths, .leave followed ⟨at_inst.1, .inr ⟨inst, at_inst, ret⟩⟩ turns, ?_⟩
      rw [(returning_frames done).2.2, Frame.setIp_frames frames]
      exact others
    · obtain ⟨ip, frames', follows'⟩ := follows.moved onward frames tracked.program call ret
        (effect_ok ⟨call, ret⟩ done)
      refine .inr ⟨_, .step followed at_inst call ret rule turns, ?_⟩
      rw [frames']
      exact .cons ⟨y, covers, follows'.stands⟩ others
  | @ended frame frames past =>
    obtain ⟨path, paths, y, followed, covers, follows, others⟩ := cleared.innermost guest frames
    have leaves : m.Leaves frame := ⟨by rw [frames]; rfl, .inl past⟩
    exact .inr ⟨paths, .leave followed leaves turns, others⟩
  | @returned frame callers m' frames called past done =>
    obtain ⟨path, paths, y, followed, covers, follows, others⟩ := cleared.innermost guest frames
    have leaves : m.Leaves frame := ⟨by rw [frames]; rfl, .inl past⟩
    refine .inr ⟨paths, .leave followed leaves turns, ?_⟩
    rw [(returning_frames done).2.2, frames]
    exact others

/-- A verified program never wants for a frame, and it wants for operands only after a call of a function
that takes or gives another number of values than the verifier's rule for that call assumed. Up to such
a call every frame has as many values on the stack as the rules say. -/
theorem underflow_misled {v : Verifier} (guest : ∀ c ∈ p.constants, c.isHost = false)
    (verified : Verifier.verify (.new p o) = .ok () v) :
    (∀ fuel e m, Exec.run fuel (load p o) = .error (.fault e) m → e.cause ≠ .frameUnderflow ∧
      (e.cause = .stackUnderflow →
        ∃ m path paths, Followed p o v.globals m (path :: paths) ∧ m.Misled path)) ∧
    (∀ fuel m, Exec.run fuel (load p o) = .error .exhausted m →
      (∃ m path paths, Followed p o v.globals m (path :: paths) ∧ m.Misled path) ∨
        ∃ paths, Followed p o v.globals m paths) ∧
    ∀ m paths, Followed p o v.globals m paths → Heights p o m.stack.length m.frames paths := by
  have checked : ∀ f ∈ p.functions, Checked ⟨p, f, o.stackSize⟩ v.globals :=
    fun f mem => checked_of_verify verified mem
  -- either a call was misled already, or every frame is still on its path
  have stopped (fuel : Nat) : Exec.Stops
      (fun m => m.Steady ∧ (Doomed p o v.globals ∨ Cleared p o v.globals m))
      (fun e _ => e.cause ≠ .frameUnderflow ∧ (e.cause = .stackUnderflow → Doomed p o v.globals))
      (Exec.run fuel (load p o)) := by
    refine Exec.run_invariant (fun nested m before addresses => ?_) (fun _ _ => ?_) fuel ?_
    · obtain ⟨steady, state⟩ := before
      have steady' := steady_turn nested steady addresses
      have turn := Exec.turn_cases nested steady.bounded steady.guest
      cases result : Exec.turn nested m with
      | ok more m' =>
        rw [result] at steady'
        refine ⟨steady', state.elim .inl fun cleared => ?_⟩
        exact cleared.turned guest checked steady ⟨addresses, nested, more, result⟩
      | error stop m' =>
        rw [result] at steady' turn
        cases stop with
        | fault e => exact ⟨turn.framed steady, fun underflow => state.elim id fun cleared =>
            cleared.underflow guest turn underflow⟩
        | exhausted => cases turn
    · exact ⟨by decide, fun never => absurd never (by decide)⟩
    · refine ⟨steady_started (steady_load guest o), .inr ⟨_, .start, .cons ?_ .nil⟩⟩
      obtain ⟨g, sites, s, -, -, le, covers, stands⟩ := entry_of_verify verified
      exact ⟨⟨g, sites, s.seen⟩, covers.mono le, stands.mono le⟩
  refine ⟨fun fuel e m failed => ?_, fun fuel m cut => ?_, fun m paths followed => ?_⟩
  · have fault := stopped fuel
    rw [failed] at fault
    exact fault
  · have state := stopped fuel
    rw [cut] at state
    rcases state.2 with doomed | ⟨paths, followed, -⟩
    · exact .inl doomed
    · exact .inr ⟨paths, followed⟩
  · exact (tracked_of_followed guest followed).heights

/-- A program that hides a function of one parameter behind an unknown reference: it stores the function
in a global whose type says that its functions take nothing, and then calls it through the global. -/
def hidden : Program :=
  let store : Code := Instruction.assemble
    [⟨.localGet, [0]⟩, ⟨.globalSet, [0]⟩, ⟨.globalGet, [0]⟩, ⟨.call, []⟩]
  { code := Instruction.assemble
      [⟨.constGet, [1]⟩, ⟨.constGet, [2]⟩, ⟨.call, []⟩, ⟨.constGet, [0]⟩, ⟨.globalSet, [0]⟩]
    constants := #[.function ⟨⟨[], []⟩, 0, #[]⟩, .function ⟨⟨[.i32], []⟩, 0, #[]⟩,
      .function ⟨⟨[.ref], []⟩, 0, store⟩]
    types := #[] }

/-- The types of globals when `hidden` has been checked. -/
def hiddenGlobals : Table Ty := { entries := [some (.function [] [])] }

theorem hidden_underflow :
    (∀ c ∈ hidden.constants, c.isHost = false) ∧
      Verifier.verify (.new hidden {}) = .ok () ⟨hidden, 1024, hiddenGlobals⟩ ∧
      ∃ m, Exec.run 7 (load hidden {}) = .error (.fault (Error.atOffset Cause.stackUnderflow 9)) m := by
  refine ⟨by simp [hidden, Constant.isHost], ?_, ?_⟩
  · exact verify_of_tableWithin (n := 10) (by decide +kernel)
  · exact Exec.eq_of_faultOf (by decide +kernel)

/-- The call through the global is the one that is misled. -/
theorem hidden_misled :
    ∃ m path paths, Followed hidden {} hiddenGlobals m (path :: paths) ∧ m.Misled path := by
  have guest : ∀ c ∈ hidden.constants, c.isHost = false := by simp [hidden, Constant.isHost]
  have verified : Verifier.verify (.new hidden {}) = .ok () ⟨hidden, 1024, hiddenGlobals⟩ :=
    verify_of_tableWithin (n := 10) (by decide +kernel)
  obtain ⟨m, ran⟩ : ∃ m, Exec.run 7 (load hidden {}) =
      .error (.fault (Error.atOffset Cause.stackUnderflow 9)) m := Exec.eq_of_faultOf (by decide +kernel)
  exact ((underflow_misled guest verified).1 7 _ m ran).2 rfl

end Machine

end StackVM
