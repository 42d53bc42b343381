import StackVM.Proofs.Machine.Calls
import StackVM.Proofs.ReferenceCounts
import StackVM.Proofs.Typing.Effects
import StackVM.Proofs.Verifier.Following

/-!
# Types in verified programs

Where no type of a program mentions an unknown reference, nothing can hide the type of an object from the
verifier: every value has the type that the verifier computed for it, in every frame at any depth of
calls, in the globals and on the heap. Main statement: such a program, once verified, never meets a value
of the wrong type and never runs out of operands, code or frames (`verified_typeSafe`).
-/

namespace StackVM

open Verifier

/-- The frame runs a function of the program along a path that was checked. -/
structure Frame.OnPath (frame : Frame) (p : Program) (o : Options) (T : Table Ty) (path : Path) : Prop where
  function : frame.function ∈ p.functions
  standing : ∃ y : Survey, y.Covers ⟨p, frame.function, o.stackSize⟩ T ∧
    y.Stands ⟨p, frame.function, o.stackSize⟩ T frame.ip path
  floor : frame.floor = frame.base + Scope.floor ⟨p, frame.function, o.stackSize⟩
  above : Scope.floor ⟨p, frame.function, o.stackSize⟩ ≤ path.stack.length

namespace Machine

/-- Frames that wait for results of the given types, and the types of the values below those results:
each frame goes on along a checked path once the results lie on top of its own values. -/
inductive Awaiting (p : Program) (o : Options) (T : Table Ty) : List Ty → List Frame → List Ty → Prop where
  | nil {results : List Ty} : Awaiting p o T results [] []
  | cons {results rest below : List Ty} {w : Table Ty} {frame : Frame} {callers : List Frame}
    (onPath : frame.OnPath p o T ⟨results.reverse ++ rest, w⟩) (base : frame.base = below.length)
    (outer : Awaiting p o T frame.function.signature.returns callers below) :
    Awaiting p o T results (frame :: callers) (rest ++ below)

/-- The innermost frame is on a checked path, all frames below it wait for results, and the machine
agrees with the types of all of them. -/
structure Running (p : Program) (o : Options) (T : Table Ty) (m : Machine) (frame : Frame)
    (callers : List Frame) (path : Path) (below : List Ty) : Prop where
  onPath : frame.OnPath p o T path
  base : frame.base = below.length
  typed : m.Typed T (path.stack ++ below)
  awaiting : Awaiting p o T frame.function.signature.returns callers below

/-- What holds throughout a run: the counts are right, and the machine is running or has no frame
left. -/
structure Sane (p : Program) (o : Options) (T : Table Ty) (m : Machine) : Prop where
  steady : m.Steady
  program : m.program = p
  running : ∀ frame callers, m.frames = frame :: callers →
    ∃ path below, Running p o T m frame callers path below

/-- Why verified programs with plain types can fail. -/
def Excusable (cause : Cause) : Prop :=
  cause ∉ [Cause.typeMismatch, .stackUnderflow, .unknownOpcode, .invalidJump, .frameUnderflow]

instance (cause : Cause) : Decidable (Excusable cause) := inferInstanceAs (Decidable (cause ∉ _))

variable {m m' : Machine} {p : Program} {o : Options} {T : Table Ty} {frame : Frame}
  {callers : List Frame} {path path' : Path} {below : List Ty} {inst : Instruction} {cause : Cause}

theorem Running.follows (running : Running p o T m frame callers path below) :
    ∃ y : Survey, y.Covers ⟨p, frame.function, o.stackSize⟩ T ∧
      frame.Follows y ⟨p, frame.function, o.stackSize⟩ T path m.stack.length := by
  obtain ⟨y, covers, stands⟩ := running.onPath.standing
  refine ⟨y, covers, ⟨rfl, running.onPath.floor, ?_, running.onPath.above⟩, stands⟩
  rw [running.typed.stack.length_eq, List.length_append, running.base, Nat.add_comm]

/-- No function of the program takes or gives an unknown reference. -/
theorem plain_of_mem {f : Function} (plain : p.Plain) (mem : f ∈ p.functions) :
    Ty.ref ∉ f.signature.ty.parts := by
  -- the entry code has an empty signature
  rcases List.mem_cons.1 mem with rfl | mem
  · simp [Program.entry, Signature.ty, Ty.parts, Ty.partsAll]
  · obtain ⟨k, at_k, function⟩ := List.mem_filterMap.1 mem
    cases k with
    | function g =>
      cases function
      exact plain.functions _ (Array.mem_toList_iff.1 at_k)
    | _ => cases function

/-! ### Returns -/

/-- A return whose results were checked goes through and leaves them on the values of the caller. -/
theorem Typed.returning {c : Scope} (typed : m.Typed T (path.stack ++ below)) (balanced : m.Balanced [])
    (frames : m.frames = frame :: callers) (fits : frame.Fits c path m.stack.length)
    (base : frame.base = below.length) (results : c.checkResults c.floor path.stack = .ok ())
    (known : ∀ t ∈ frame.function.signature.returns, t ≠ .ref) :
    m.returning = .ok (m.returned frame) ∧
      (m.returned frame).Typed T (frame.function.signature.returns.reverse ++ below) := by
  obtain ⟨enough, ts, rest, parts, accepts⟩ := Scope.checkResults_eq_ok results
  rw [← fits.function] at enough accepts
  have length := accepts.length_eq
  rw [List.length_reverse] at length
  have stack := typed.stack
  rw [parts, List.append_assoc] at stack
  constructor
  · have need : m.need frame.function.signature.returns.length = .ok () := by
      refine need_eq_ok.2 ?_
      rw [Machine.floor, frames]
      have floor := fits.floor
      have height := fits.height
      simp only
      omega
    -- the results passed the check of their types, so they can be read
    obtain ⟨ws, read⟩ := readAll_of_accepts (rest ++ below) accepts stack
      fun v mem => balanced.live_of_stack mem
    unfold Machine.returning Machine.checkResults
    rw [frames]
    simp only [need, read]
    rfl
  · have shrunk : Typed { m with heap := (m.returned frame).heap } T (path.stack ++ below) :=
      typed.subset fun a o found => Heap.get?_of_releaseValues (Heap.get?_of_releaseAll found)
    have upper := List.forall₂_take_append _ _ _ shrunk.stack
    have lower := List.forall₂_drop_append _ _ _ shrunk.stack
    -- everything between the results and the base of the frame goes away
    have split := stack_returned (m := m) rfl (List.take_append_drop path.stack.length m.stack).symm
      (lower.length_eq.trans base.symm) (by rw [upper.length_eq]; omega)
    refine { shrunk with stack := ?_ }
    rw [split]
    -- a result has its declared type, since that type is known
    refine List.rel_append (hasTy_of_accepts shrunk.heap accepts ?_ ?_) lower
    · have top := shrunk.stack
      rw [parts, List.append_assoc] at top
      rw [← length]
      exact List.forall₂_take_append _ _ _ top
    · exact fun t mem => known t (List.mem_reverse.1 mem)

/-! ### Calls -/

/-- What lies on top where a function is expected is null or leads to a function of that signature. -/
theorem Typed.callee {params returns ts : List Ty} (typed : m.Typed T (.function params returns :: ts))
    (steady : m.Steady) (enough : m.floor + 1 ≤ m.stack.length) :
    m.calling = .error .segmentationFault ∨
      ∃ a f vs, m.stack = .ref a :: vs ∧ List.Forall₂ (Value.HasTy m.heap) vs ts ∧
        m.heap.get? a = some (.function f) ∧ f.signature = ⟨params, returns⟩ ∧ f ∈ m.program.functions := by
  have stack := typed.stack
  cases top : m.stack with
  | nil =>
    rw [top] at stack
    cases stack
  | cons v vs =>
    rw [top] at stack
    cases stack with
    | cons promised others =>
      cases v with
      | ref a =>
        cases found : m.heap.get? a with
        | none => exact .inl (calling_nothing enough top found)
        | some o =>
          have same := promised.object steady.balanced.heap found
          -- without host functions among the constants the heap has no closures either
          have sound := steady.balanced.sound a o found
          cases o with
          | function f =>
            have signature : f.signature = ⟨params, returns⟩ := by
              cases taken : f.signature
              simp only [Object.ty, Signature.ty, taken, Ty.function.injEq] at same
              rw [same.1, same.2]
            exact .inr ⟨a, f, vs, rfl, others, found, signature, sound⟩
          | closure f captures => cases sound
          | host signature body => exact absurd found (steady.no_host a signature body)
          | _ => cases same
      | _ => cases promised

theorem forall₂_replicate {α β : Type} {R : α → β → Prop} {a : α} {b : β} (related : R a b) (n : Nat) :
    List.Forall₂ R (List.replicate n a) (List.replicate n b) := by
  induction n with
  | zero => exact .nil
  | succ n ih => exact .cons related ih

/-- A function that was entered finds its arguments and locals that are null. -/
theorem Typed.entered {ts : List Ty} {f : Function} {a : Nat} {vs : List Value} (typed : m.Typed T ts)
    (top : m.stack = .ref a :: vs)
    (arguments : List.Forall₂ (Value.HasTy m.heap) vs (f.signature.params.reverse ++ below)) :
    (m.entered f [] a).Typed T (Scope.entryStack ⟨p, f, o.stackSize⟩ ++ below) := by
  refine { typed with stack := ?_ }
  have types : Scope.entryStack ⟨p, f, o.stackSize⟩ ++ below =
      List.replicate f.locals Ty.ref ++ (f.signature.params.reverse ++ below) := by
    simp [Scope.entryStack]
  have values : (m.entered f [] a).stack = List.replicate f.locals Value.null ++ vs := by
    simp [Machine.entered, top]
  rw [types, values]
  exact List.rel_append (forall₂_replicate (.null rfl) f.locals) arguments

/-- A call that was checked enters a function of the program, unless it calls null or there is no room. -/
theorem Typed.calling {params returns ts rest : List Ty} {w : Table Ty} {c : Scope}
    (typed : m.Typed T (.function params returns :: (ts ++ rest) ++ below)) (steady : m.Steady)
    (frames : m.frames = frame :: callers)
    (fits : frame.Fits c ⟨.function params returns :: (ts ++ rest), w⟩ m.stack.length)
    (arguments : Scope.Accepts params.reverse ts) (above : c.floor ≤ rest.length) :
    (∃ cause, m.calling = .error cause ∧
      cause ∈ [Cause.segmentationFault, .frameOverflow, .stackOverflow]) ∨
      ∃ a f, m.calling = .ok (m.entered f [] a) ∧ f ∈ m.program.functions ∧
        f.signature = ⟨params, returns⟩ ∧
        (m.stack.drop 1).length - f.signature.params.length = (rest ++ below).length ∧
        (m.entered f [] a).Typed T (Scope.entryStack ⟨p, f, o.stackSize⟩ ++ (rest ++ below)) := by
  have length := arguments.length_eq
  rw [List.length_reverse] at length
  have floor : m.floor = frame.floor := by rw [Machine.floor, frames]
  have bottom := fits.floor
  have height := fits.height
  simp only [List.length_cons, List.length_append] at height
  rw [List.cons_append, List.append_assoc] at typed
  rcases typed.callee steady (by omega) with nothing | ⟨a, f, vs, top, under, found, signature, mem⟩
  · exact .inl ⟨_, nothing, by simp⟩
  have entering := calling_eq (by omega) top found
  have live : ∀ v ∈ vs, m.Live v := fun v mem =>
    steady.balanced.live_of_stack (by rw [top]; simp [mem])
  -- the arguments can be read, so only want of room stops the call
  obtain ⟨ws, read⟩ := readAll_of_accepts (rest ++ below) arguments under live
  cases outcome : m.entering f [] a with
  | error cause =>
    refine .inl ⟨cause, entering.trans outcome, ?_⟩
    rcases entering_eq_error top outcome with ⟨-, few⟩ | ⟨-, unread⟩ | rfl | rfl
    · rw [signature] at few
      simp only at few
      omega
    · rw [signature] at unread
      exact absurd read (unread ws)
    · simp
    · simp
  | ok m' =>
    obtain ⟨-, -, rfl⟩ := entering_eq_ok top outcome
    refine .inr ⟨a, f, entering.trans outcome, mem, signature, ?_, typed.entered top ?_⟩
    · rw [top, signature, List.drop_one, List.tail_cons, under.length_eq, List.length_append, length]
      simp only
      omega
    -- an argument that is accepted has the type of its parameter, since that type is known
    · have plain := typed.heap.plain a _ found
      rw [show (Object.function f).ty = f.signature.ty from rfl, signature] at plain
      have known : ∀ t ∈ params.reverse, t ≠ .ref := fun t mem =>
        Ty.ne_ref_of_part plain (Ty.param_mem_parts (List.mem_reverse.1 mem))
      have taken := List.forall₂_take_append _ _ _ under
      have dropped := List.forall₂_drop_append _ _ _ under
      rw [signature, ← List.take_append_drop ts.length vs]
      exact List.rel_append (hasTy_of_accepts typed.heap arguments taken known) dropped

/-! ### Turns -/

/-- What makes up a program whose types say all there is to say: it is verified, and neither its types
nor its instructions bring an unknown reference about. -/
structure Transparent (p : Program) (o : Options) (T : Table Ty) : Prop where
  plain : p.Plain
  checked : ∀ f ∈ p.functions, Checked ⟨p, f, o.stackSize⟩ T
  globals : ∀ i, T.get? i ≠ some .ref
  no_select : ∀ f ∈ p.functions, ∀ l ∈ f.code.scan.1, l.inst.opcode ≠ .select

/-- An instruction other than a call or a return meets no value of the wrong type. -/
theorem Running.sure {y : Survey} (running : Running p o T m frame callers path below)
    (transparent : Transparent p o T) (sane : Sane p o T m) (frames : m.frames = frame :: callers)
    (addresses : m.heap.size ≤ Word.payloadSize)
    (onward : y.Onward ⟨p, frame.function, o.stackSize⟩ T frame.ip path inst path')
    (no_call : inst.opcode ≠ .call) (no_ret : inst.opcode ≠ .ret) (size next : Nat) :
    Sure (fun m' => m'.Typed T (path'.stack ++ below)) ((m.setIp next).effect inst size next) := by
  have program : (m.setIp next).program = p := by
    rw [setIp_eq]
    exact sane.program
  -- an address that fits the payload of a word fits the bytes of a field
  have addressable : (m.setIp next).Addressable := by
    rw [Addressable, heap_setIp]
    exact Nat.le_trans addresses (by decide)
  exact (running.typed.setIp next).effect onward.transfer no_call no_ret
    (transparent.no_select _ running.onPath.function _ onward.scanned) program transparent.plain
    transparent.globals (Frame.setIp_frames frames) running.base running.onPath.above
    (sane.steady.balanced.setIp next) addressable

/-- After a return the caller goes on, if there is one. -/
theorem sane_returning (transparent : Transparent p o T) (steady : m.Steady) (program : m.program = p)
    (frames : m.frames = frame :: callers) (mem : frame.function ∈ p.functions)
    (fits : frame.Fits ⟨p, frame.function, o.stackSize⟩ path m.stack.length)
    (base : frame.base = below.length) (typed : m.Typed T (path.stack ++ below))
    (awaiting : Awaiting p o T frame.function.signature.returns callers below)
    (results : Scope.checkResults ⟨p, frame.function, o.stackSize⟩
      (Scope.floor ⟨p, frame.function, o.stackSize⟩) path.stack = .ok ()) :
    ∃ m', m.returning = .ok m' ∧ Sane p o T m' := by
  have known : ∀ t ∈ frame.function.signature.returns, t ≠ .ref := fun t returned =>
    Ty.ne_ref_of_part (plain_of_mem transparent.plain mem)
      (@Ty.return_mem_parts _ t frame.function.signature rfl returned)
  obtain ⟨done, typed⟩ := typed.returning steady.balanced frames fits base results known
  refine ⟨_, done, steady.returning done, program, fun frame' callers' found => ?_⟩
  simp only [Machine.returned, frames, List.tail_cons] at found
  subst found
  cases awaiting with
  -- the results are what the caller was waiting for
  | @cons _ rest below' w _ _ onPath start outer =>
    rw [← List.append_assoc] at typed
    exact ⟨⟨_, w⟩, below', onPath, start, typed, outer⟩

/-- The innermost frame as its height fits it, wherever in its code it stands. -/
theorem Running.fits (running : Running p o T m frame callers path below) (ip : Nat) :
    Frame.Fits { frame with ip } ⟨p, frame.function, o.stackSize⟩ path (m.setIp ip).stack.length := by
  obtain ⟨y, -, follows⟩ := running.follows
  rw [setIp_stack]
  exact ⟨rfl, follows.floor, follows.height, follows.above⟩

/-- A return instruction goes through. -/
theorem Running.ret {y : Survey} (running : Running p o T m frame callers path below)
    (transparent : Transparent p o T) (sane : Sane p o T m) (frames : m.frames = frame :: callers)
    (onward : y.Onward ⟨p, frame.function, o.stackSize⟩ T frame.ip path inst path')
    (ret : inst.opcode = .ret) (size next : Nat) :
    ∃ m', (m.setIp next).effect inst size next = .ok m' ∧ Sane p o T m' := by
  have results : Scope.checkResults ⟨p, frame.function, o.stackSize⟩
      (Scope.floor ⟨p, frame.function, o.stackSize⟩) path.stack = .ok () := by
    cases onward.transfer with
    | ret results => exact results
    | _ => cases ret
  have program : (m.setIp next).program = p := by
    rw [setIp_eq]
    exact sane.program
  rw [effect_of_ret ret]
  exact sane_returning transparent (sane.steady.setIp next) program (Frame.setIp_frames frames)
    running.onPath.function (running.fits next) running.base (running.typed.setIp next) running.awaiting
    results

/-- A call enters its function along a checked path, or fails in an excusable way. -/
theorem Running.call {y : Survey} (running : Running p o T m frame callers path below)
    (transparent : Transparent p o T) (sane : Sane p o T m) (frames : m.frames = frame :: callers)
    (covers : y.Covers ⟨p, frame.function, o.stackSize⟩ T)
    (onward : y.Onward ⟨p, frame.function, o.stackSize⟩ T frame.ip path inst path')
    (call : inst.opcode = .call) (size : Nat) :
    (∃ cause, (m.setIp (frame.ip + inst.width)).effect inst size (frame.ip + inst.width) = .error cause ∧
      Excusable cause) ∨
      ∃ m', (m.setIp (frame.ip + inst.width)).effect inst size (frame.ip + inst.width) = .ok m' ∧
        (m'.Steady → Sane p o T m') := by
  have steady := sane.steady.setIp (frame.ip + inst.width)
  have typed := running.typed.setIp (frame.ip + inst.width)
  have fits := running.fits (frame.ip + inst.width)
  have program : (m.setIp (frame.ip + inst.width)).program = p := by
    rw [setIp_eq]
    exact sane.program
  have caller : (m.setIp (frame.ip + inst.width)).frames =
      { frame with ip := frame.ip + inst.width } :: callers := Frame.setIp_frames frames
  obtain ⟨stack, w⟩ := path
  rw [effect_of_call call]
  cases onward.transfer with
  | @call ops params returns ts rest w arguments above room =>
    rcases typed.calling (p := p) (o := o) steady caller fits arguments above with
      ⟨cause, failed, few⟩ | ⟨a, f, done, mem, signature, base, entered⟩
    · refine .inl ⟨cause, failed, ?_⟩
      simp only [List.mem_cons, List.not_mem_nil, or_false] at few
      rcases few with rfl | rfl | rfl
      · decide
      · decide
      · decide
    refine .inr ⟨_, done, fun steady' => ⟨steady', program, fun frame' callers' found => ?_⟩⟩
    rw [program] at mem
    simp only [Machine.entered, base, caller] at found
    cases found
    -- the callee was checked from its entry on, and the caller waits at the instruction after the call
    obtain ⟨z, u, covers', -, stands⟩ := transparent.checked f mem
    refine ⟨⟨_, u⟩, rest ++ below, ⟨mem, ⟨z, covers', stands⟩, Nat.add_assoc _ _ _, ?_⟩, rfl, entered, ?_⟩
    · simp [Scope.entryStack, Scope.floor, Nat.add_comm]
    · rw [signature]
      refine .cons ⟨running.onPath.function, ⟨y, covers, onward.falls rfl⟩, running.onPath.floor, ?_⟩
        running.base running.awaiting
      simp only [List.length_append]
      omega
  | _ => cases call

/-- An instruction that goes through keeps the machine in agreement with the types. -/
theorem Sane.stepped (sane : Sane p o T m) (transparent : Transparent p o T) (steady : m'.Steady)
    (addresses : m.heap.size ≤ Word.payloadSize) (frames : m.frames = frame :: callers)
    (inside : frame.ip < frame.function.code.size)
    (decoded : Instruction.decode frame.function.code frame.ip = .ok inst)
    (done : (m.setIp (frame.ip + inst.width)).effect inst frame.function.code.size
      (frame.ip + inst.width) = .ok m') : Sane p o T m' := by
  obtain ⟨path, below, running⟩ := sane.running _ _ frames
  obtain ⟨y, covers, follows⟩ := running.follows
  obtain ⟨path', onward⟩ := follows.onward covers inside decoded
  by_cases call : inst.opcode = .call
  · rcases running.call transparent sane frames covers onward call _ with ⟨_, failed, -⟩ | ⟨_, same, kept⟩
    · rw [failed] at done
      cases done
    · rw [same] at done
      cases done
      exact kept steady
  by_cases ret : inst.opcode = .ret
  · obtain ⟨_, same, kept⟩ := running.ret transparent sane frames onward ret _ _
    rw [same] at done
    cases done
    exact kept
  have moved := effect_ok ⟨call, ret⟩ done
  -- the frame moves along its path, and the values keep to the types of the new one
  obtain ⟨ip, frames', follows'⟩ := follows.moved onward frames sane.program call ret moved
  have typed := running.sure transparent sane frames addresses onward call ret
    frame.function.code.size (frame.ip + inst.width)
  rw [done] at typed
  refine ⟨steady, ?_, fun frame' callers' found => ?_⟩
  · rw [moved.program, setIp_eq]
    exact sane.program
  · rw [frames'] at found
    cases found
    exact ⟨path', below, ⟨running.onPath.function, ⟨y, covers, follows'.stands⟩, follows'.floor,
      follows'.above⟩, running.base, typed, running.awaiting⟩

/-- An instruction that fails does so in an excusable way. -/
theorem Sane.failed (sane : Sane p o T m) (transparent : Transparent p o T)
    (addresses : m.heap.size ≤ Word.payloadSize) (frames : m.frames = frame :: callers)
    (inside : frame.ip < frame.function.code.size)
    (decoded : Instruction.decode frame.function.code frame.ip = .ok inst)
    (refused : (m.setIp (frame.ip + inst.width)).effect inst frame.function.code.size
      (frame.ip + inst.width) = .error cause) : Excusable cause := by
  obtain ⟨path, below, running⟩ := sane.running _ _ frames
  obtain ⟨y, covers, follows⟩ := running.follows
  obtain ⟨path', onward⟩ := follows.onward covers inside decoded
  by_cases call : inst.opcode = .call
  · rcases running.call transparent sane frames covers onward call _ with ⟨_, same, few⟩ | ⟨_, done, -⟩
    · rw [same] at refused
      cases refused
      exact few
    · rw [done] at refused
      cases refused
  by_cases ret : inst.opcode = .ret
  · obtain ⟨_, done, -⟩ := running.ret transparent sane frames onward ret _ _
    rw [done] at refused
    cases refused
  have sure := running.sure transparent sane frames addresses onward call ret
    frame.function.code.size (frame.ip + inst.width)
  rw [refused] at sure
  -- the heights exclude every other cause
  have blamed := follows.blames onward frames sane.program call ret (effect_error ⟨call, ret⟩ refused)
  simp only [List.mem_cons, List.not_mem_nil, or_false, not_or] at blamed
  obtain ⟨underflow, opcode, jump, -, frame⟩ := blamed
  simp only [Excusable, List.mem_cons, List.not_mem_nil, or_false, not_or]
  exact ⟨sure, underflow, opcode, jump, frame⟩

/-- A function that runs off its end returns. -/
theorem Sane.ends (sane : Sane p o T m) (transparent : Transparent p o T)
    (frames : m.frames = frame :: callers) (past : frame.function.code.size ≤ frame.ip) :
    ∃ m', m.returning = .ok m' ∧ Sane p o T m' := by
  obtain ⟨path, below, running⟩ := sane.running _ _ frames
  obtain ⟨y, covers, follows⟩ := running.follows
  exact sane_returning transparent sane.steady sane.program frames running.onPath.function follows.toFits
    running.base running.typed running.awaiting (follows.stands.results covers past)

/-- One turn keeps the machine in agreement with the types, or ends in an excusable fault. -/
theorem sane_turn (transparent : Transparent p o T) (nested : Exec Unit) (sane : Sane p o T m)
    (addresses : m.heap.size ≤ Word.payloadSize) :
    Exec.Stops (Sane p o T) (fun e _ => Excusable e.cause) (Exec.turn nested m) := by
  have steady := steady_turn nested sane.steady addresses
  have turned := Exec.turn_cases nested sane.steady.bounded sane.steady.guest
  generalize Exec.turn nested m = result at steady turned
  cases turned with
  | idle none => exact sane
  -- what was checked can be decoded
  | undecoded frames inside decoded =>
    obtain ⟨path, below, running⟩ := sane.running _ _ frames
    obtain ⟨y, covers, follows⟩ := running.follows
    exact absurd decoded (follows.decodes covers inside)
  | stepped frames inside decoded done =>
    exact sane.stepped transparent steady addresses frames inside decoded done
  | failed frames inside decoded refused =>
    exact sane.failed transparent addresses frames inside decoded refused
  -- the entry code is over and no frame is left
  | ended frames past => exact ⟨steady, sane.program, nofun⟩
  | returned frames called past done =>
    obtain ⟨_, same, kept⟩ := sane.ends transparent frames past
    rw [same] at done
    cases done
    exact kept
  | stuck frames called past refused =>
    obtain ⟨_, done, -⟩ := sane.ends transparent frames past
    rw [done] at refused
    cases refused

/-! ### Starting out -/

/-- What is loaded onto the heap has a type that is known in full, and keeps the promises of that type. -/
theorem plain_of_form {k : Constant} {object : Object} (guest : k.isHost = false)
    (plain : ∀ f, k = .function f → Ty.ref ∉ f.signature.ty.parts) (form : k.form = .inr object) :
    Ty.ref ∉ object.ty.parts ∧ ∀ h, object.Filled h := by
  rw [Constant.ty_of_form form]
  cases k with
  | number s bits =>
    rcases Constant.form_number s bits with ⟨v, number, -⟩ | ⟨n, wide, rfl⟩
    · rw [number] at form
      cases form
    · rw [wide] at form
      cases form
      exact ⟨by simp [Constant.ty, Ty.parts], fun _ => trivial⟩
  | function f =>
    cases form
    exact ⟨plain f rfl, fun _ => trivial⟩
  | host signature body => cases guest
  | _ =>
    cases form
    exact ⟨by simp [Constant.ty, Ty.parts], fun _ => trivial⟩

/-- A fresh machine has no values to promise anything of, and all its objects were loaded. -/
theorem typed_load (guest : ∀ k ∈ p.constants, k.isHost = false) (plain : p.Plain) (o : Options) :
    (load p o).Typed T [] := by
  have each {a : Nat} {object : Object} (found : (load p o).heap.get? a = some object) :
      Ty.ref ∉ object.ty.parts ∧ ∀ h, object.Filled h := by
    rcases loadConstants_origin found with before | ⟨k, mem, form⟩
    · rw [Heap.get?_empty] at before
      cases before
    · have mem := Array.mem_toList_iff.1 mem
      exact plain_of_form (guest k mem) (fun f same => plain.functions f (same ▸ mem)) form
  exact ⟨agrees_load p o, fun a object found => (each found).1, fun a object found => (each found).2 _⟩

theorem sane_started (guest : ∀ k ∈ p.constants, k.isHost = false) (transparent : Transparent p o T)
    (standing : ∃ y : Survey, y.Covers (entryScope p o) T ∧ y.Stands (entryScope p o) T 0 ⟨[], .empty⟩) :
    Sane p o T (load p o).started := by
  refine ⟨steady_started (steady_load guest o), rfl, fun frame callers found => ?_⟩
  cases found
  have typed : (load p o).Typed T [] := typed_load guest transparent.plain o
  refine ⟨⟨[], .empty⟩, [], ⟨List.mem_cons_self, standing, rfl, Nat.le_refl _⟩, rfl, { typed with }, .nil⟩

/-- Type soundness. A verified program in which no declared type mentions an unknown reference, no
instruction chooses between two values, and no global was given the type of an unknown reference, never
meets a value of the wrong type and never runs out of operands, code or frames, through any depth of
calls. -/
theorem verified_typeSafe {p : Program} {o : Options} {v : Verifier}
    (guest : ∀ k ∈ p.constants, k.isHost = false) (types : ∀ t ∈ p.types, Ty.ref ∉ t.parts)
    (signatures : ∀ f, .function f ∈ p.constants → Ty.ref ∉ f.signature.ty.parts)
    (no_select : ∀ f ∈ p.functions, ∀ l ∈ f.code.scan.1, l.inst.opcode ≠ .select)
    (verified : Verifier.verify (.new p o) = .ok () v) (globals : ∀ i, v.globals.get? i ≠ some .ref) :
    ∀ fuel e m, Exec.run fuel (load p o) = .error (.fault e) m →
      e.cause ∉ [Cause.typeMismatch, .stackUnderflow, .unknownOpcode, .invalidJump, .frameUnderflow] := by
  have transparent : Transparent p o v.globals :=
    ⟨⟨types, signatures⟩, fun f mem => checked_of_verify verified mem, globals, no_select⟩
  obtain ⟨g, sites, s, -, -, le, covers, stands⟩ := entry_of_verify verified
  intro fuel e m failed
  have stopped : Exec.Stops (Sane p o v.globals) (fun e _ => Excusable e.cause)
      (Exec.run fuel (load p o)) := by
    -- a turn, a machine without frames, and the start
    refine Exec.run_invariant (fun nested m sane addresses => ?_) (fun _ _ => ?_) fuel ?_
    · exact sane_turn transparent nested sane addresses
    · decide
    · exact sane_started guest transparent ⟨⟨g, sites, s.seen⟩, covers.mono le, stands.mono le⟩
  rw [failed] at stopped
  exact stopped

/-- A program whose only function calls itself over and over, handing on an integer that is too wide for
a word and a struct that holds a string. -/
def descent : Program :=
  let body : Code := Instruction.assemble
    [⟨.localGet, [0]⟩, ⟨.localGet, [1]⟩, ⟨.constGet, [0]⟩, ⟨.call, []⟩]
  { code := Instruction.assemble
      [⟨.constGet, [1]⟩, ⟨.constGet, [2]⟩, ⟨.structNew, [0]⟩, ⟨.constGet, [0]⟩, ⟨.call, []⟩]
    constants := #[.function ⟨⟨[.scalar .i64, .struct [.string]], [.i32]⟩, 1, body⟩,
      .number .i64 0x1000000000000000#64, .string "deep"]
    types := #[.struct [.string]] }

/-- The descent ends for want of frames, and no run of it ends for a worse reason. -/
theorem descent_typeSafe :
    (∃ e m, Exec.run 20 (load descent { frameSize := 4 }) = .error (.fault e) m ∧
      e.cause = .frameOverflow) ∧
    ∀ fuel e m, Exec.run fuel (load descent { frameSize := 4 }) = .error (.fault e) m →
      e.cause ≠ .typeMismatch := by
  constructor
  · obtain ⟨m, ran⟩ : ∃ m, Exec.run 20 (load descent { frameSize := 4 }) =
        .error (.fault (Error.atOffset Cause.frameOverflow 9)) m :=
      Exec.eq_of_faultOf (by decide +kernel)
    exact ⟨_, m, ran, rfl⟩
  · intro fuel e m failed
    have verified : Verifier.verify (.new descent { frameSize := 4 }) = .ok () ⟨descent, 1024, .empty⟩ :=
      verify_of_tableWithin (n := 10) (by decide +kernel)
    have excused := verified_typeSafe (by simp [descent, Constant.isHost])
      (by simp [descent, Ty.parts, Ty.partsAll])
      (by simp [descent, Signature.ty, Ty.i32, Ty.parts, Ty.partsAll]) (by decide +kernel) verified
      (by simp) fuel e m failed
    simp only [List.mem_cons, not_or] at excused
    exact excused.1

end Machine

end StackVM
