import StackVM.Proofs.Machine.Confined
import StackVM.Proofs.Machine.Moves
import StackVM.Proofs.StackShape

/-!
# Frames do not disturb their callers

A call leaves the frames of its callers and the stack below its base alone until it returns, whatever the
code does and whatever it calls in turn, and then the results stand where the function and its arguments
stood. Nothing is asked of the code; faults on the way are resumed. Main statement: `call_isolated`.

Frames lie above one another on the stack (`Stacked`), so an instruction that keeps to its own frame
keeps off all callers. What a call has left behind is `Suspended` under the frame until that frame
itself returns.
-/

namespace StackVM

namespace Machine

variable {m m' : Machine} {p : Program} {o : Options} {frame : Frame} {callers outer : List Frame}
  {below : List Value} {height height' : Nat}

/-! ### Frames above one another -/

/-- The locals of each frame lie above the operands of its caller, and the innermost frame ends below the
given height. -/
def Stacked : Nat → List Frame → Prop
  | _, [] => True
  | height, frame :: callers =>
    frame.base ≤ frame.floor ∧ frame.floor ≤ height ∧ Stacked frame.base callers

theorem Stacked.mono {frames : List Frame} (stacked : Stacked height frames) (le : height ≤ height') :
    Stacked height' frames := by
  cases frames with
  | nil => trivial
  | cons frame callers =>
    obtain ⟨sunk, above, outer⟩ := stacked
    exact ⟨sunk, Nat.le_trans above le, outer⟩

/-- The stack may end anywhere above the floor of the innermost frame. -/
theorem Stacked.of_floor (stacked : Stacked height m.frames) (deep : m.floor ≤ height') :
    Stacked height' m.frames := by
  unfold floor at deep
  cases frames : m.frames with
  | nil => trivial
  | cons frame callers =>
    rw [frames] at stacked deep
    exact ⟨stacked.1, deep, stacked.2.2⟩

/-- The stack reaches up to the floor of the innermost frame at least. -/
theorem Stacked.floor_le (stacked : Stacked height m.frames) : m.floor ≤ height := by
  unfold floor
  cases frames : m.frames with
  | nil => exact Nat.zero_le _
  | cons frame callers =>
    rw [frames] at stacked
    exact stacked.2.1

/-- A frame lies above its callers. -/
theorem Stacked.base_le {inner : List Frame} {top : Frame}
    (stacked : Stacked height (top :: (inner ++ frame :: outer))) : frame.base ≤ top.base := by
  induction inner generalizing top height with
  | nil =>
    obtain ⟨-, -, sunk, above, -⟩ := stacked
    omega
  | cons next inner ih =>
    obtain ⟨-, -, outer⟩ := stacked
    have below := ih outer
    obtain ⟨sunk, above, -⟩ := outer
    omega

theorem stacked_setIp (stacked : Stacked m.stack.length m.frames) (ip : Nat) :
    Stacked (m.setIp ip).stack.length (m.setIp ip).frames := by
  rw [setIp_stack]
  cases frames : m.frames with
  | nil => simp [Machine.setIp, frames, Stacked]
  | cons frame callers =>
    rw [frames] at stacked
    rw [Frame.setIp_frames frames]
    exact stacked

/-- A return keeps what lies below its frame. -/
theorem suffix_returned (sunk : frame.base ≤ frame.floor)
    (enough : frame.floor + frame.function.signature.returns.length ≤ m.stack.length)
    (short : below.length ≤ frame.base) (lies : below <:+ m.stack) :
    below <:+ (m.returned frame).stack := by
  have upper : below <:+ m.stack.drop frame.function.signature.returns.length :=
    suffix_drop lies (by omega)
  have length : (m.stack.drop frame.function.signature.returns.length).length =
      m.stack.length - frame.function.signature.returns.length := List.length_drop
  apply List.IsSuffix.trans _ (List.suffix_append _ _)
  exact suffix_drop upper (by omega)

theorem Stacked.move (stacked : Stacked m.stack.length m.frames) (move : m.Move m') :
    Stacked m'.stack.length m'.frames := by
  cases move with
  | idle none => exact stacked
  | @onward frame callers inst ip _ frames inside decoded plain done goes program after =>
    have deep := (stacked_setIp stacked (frame.ip + inst.width)).floor_le
    rw [frames] at stacked
    obtain ⟨sunk, above, outer⟩ := stacked
    -- the instruction leaves the stack above the floor of its frame
    have floor := (effect_confined plain deep done).floor_le
    rw [floor_setIp frames] at floor
    rw [after]
    exact ⟨sunk, floor, outer⟩
  | @called frame callers inst a f rest frames inside decoded call top found enough =>
    rw [frames] at stacked
    obtain ⟨sunk, above, outer⟩ := stacked
    rw [← setIp_stack m (frame.ip + inst.width)] at top
    rw [length_entered top, frames_entered frames (by rwa [setIp_stack] at top)]
    refine ⟨?_, ?_, sunk, ?_, outer⟩
    · simp only
      omega
    · simp only
      omega
    · simp only
      omega
  | @left frame callers frames enough results =>
    rw [frames] at stacked
    obtain ⟨sunk, above, outer⟩ := stacked
    rw [frames_returned frames, length_returned sunk enough]
    exact outer.mono (Nat.le_add_right _ _)
  | ended frames => trivial

/-- What holds of a machine throughout: it is steady, and its frames lie above one another. -/
structure Tidy (m : Machine) : Prop where
  steady : m.Steady
  stacked : Stacked m.stack.length m.frames

/-- One turn of a run, whatever it comes to; there is none when addresses have run out. -/
def Turned (m m' : Machine) : Prop :=
  m.heap.size ≤ Word.payloadSize ∧ ∃ nested, leftBy (Exec.turn nested m) = m'

/-- A turn is a move, or it fails and leaves the offset of its frame changed at most. -/
theorem Turned.cases (turned : m.Turned m') (steady : m.Steady) : m.Move m' ∨ ∃ ip, m' = m.setIp ip := by
  obtain ⟨-, nested, rfl⟩ := turned
  have turn := Exec.turn_cases nested steady.bounded steady.guest
  generalize Exec.turn nested m = result at turn
  cases result with
  | ok more m' => exact .inl (turn.move steady.closureless)
  | error stop m' =>
    obtain ⟨frame, callers, ip, -, rfl, -⟩ := turn.halted
    exact .inr ⟨ip, rfl⟩

theorem Turned.steady (turned : m.Turned m') (steady : m.Steady) : m'.Steady := by
  obtain ⟨addresses, nested, rfl⟩ := turned
  exact leftBy_of_stops (steady_turn nested steady addresses) fun _ _ steady => steady

theorem Turned.tidy (turned : m.Turned m') (tidy : m.Tidy) : m'.Tidy := by
  refine ⟨turned.steady tidy.steady, ?_⟩
  rcases turned.cases tidy.steady with move | ⟨ip, rfl⟩
  · exact tidy.stacked.move move
  · exact stacked_setIp tidy.stacked ip

theorem tidy_started (tidy : m.Tidy) : m.started.Tidy := by
  refine ⟨steady_started tidy.steady, ?_⟩
  unfold started
  split
  · exact ⟨Nat.le_refl _, Nat.le_refl _, trivial⟩
  · exact tidy.stacked

theorem tidy_reachable (guest : ∀ c ∈ p.constants, c.isHost = false) (reached : Reachable p o m) :
    m.Tidy := by
  induction reached with
  | load => exact ⟨steady_load guest o, trivial⟩
  | @run m fuel before ih =>
    have stopped : Exec.Stops Tidy (fun _ => Tidy) (Exec.run fuel m) := by
      apply Exec.run_invariant
      · intro nested m tidy addresses
        exact stops_of_leftBy (Turned.tidy ⟨addresses, nested, rfl⟩ tidy)
      · intro _ _
        exact ih
      · exact tidy_started ih
    exact leftBy_of_stops stopped fun _ _ tidy => tidy
  | reset before ih => exact ⟨steady_reachable guest (.reset before), trivial⟩

/-! ### What a call leaves behind -/

/-- A frame is under way above the values and the frames that its call left behind. -/
structure Suspended (below : List Value) (frame : Frame) (outer : List Frame) (m : Machine) : Prop where
  stack : below <:+ m.stack
  frames : ∃ inner ip, m.frames = inner ++ { frame with ip } :: outer

/-- Whichever frame is innermost lies above what was left behind. -/
theorem Suspended.short {top : Frame} (suspended : Suspended below frame outer m) (tidy : m.Tidy)
    (base : below.length = frame.base) (frames : m.frames = top :: callers) : below.length ≤ top.base := by
  obtain ⟨inner, ip, same⟩ := suspended.frames
  rw [frames] at same
  have stacked := tidy.stacked
  cases inner with
  | nil =>
    cases same
    exact Nat.le_of_eq base
  | cons first inner =>
    cases same
    rw [frames] at stacked
    rw [base]
    exact stacked.base_le

/-- The innermost frame of a suspended row can change its offset. -/
theorem Suspended.frames_setIp {top : Frame} (suspended : Suspended below frame outer m)
    (frames : m.frames = top :: callers) (ip : Nat) :
    ∃ inner ip', { top with ip } :: callers = inner ++ { frame with ip := ip' } :: outer := by
  obtain ⟨inner, ip', same⟩ := suspended.frames
  rw [frames] at same
  cases inner with
  | nil =>
    cases same
    exact ⟨[], ip, rfl⟩
  | cons first inner =>
    cases same
    exact ⟨{ top with ip } :: inner, ip', rfl⟩

/-- One move keeps what was left behind, unless it is the return of the frame itself. -/
theorem Suspended.move (suspended : Suspended below frame outer m) (tidy : m.Tidy)
    (base : below.length = frame.base) (called : outer ≠ []) (move : m.Move m') :
    Suspended below frame outer m' ∨
      ∃ ip, m.frames = { frame with ip } :: outer ∧ m' = m.returned { frame with ip } ∧
        frame.floor + frame.function.signature.returns.length ≤ m.stack.length ∧
        ∃ vs, m.readAll frame.function.signature.returns.reverse m.stack = .ok vs := by
  have stacked := tidy.stacked
  cases move with
  | idle none =>
    obtain ⟨inner, ip, same⟩ := suspended.frames
    rw [none] at same
    cases inner <;> cases same
  | @onward top callers inst ip _ frames inside decoded plain done goes program after =>
    have short := suspended.short tidy base frames
    have deep := (stacked_setIp stacked (top.ip + inst.width)).floor_le
    rw [frames] at stacked
    obtain ⟨sunk, above, -⟩ := stacked
    refine .inl ⟨?_, ?_⟩
    · apply (effect_confined plain deep done).suffix (Frame.setIp_frames frames) sunk short
      rw [setIp_stack]
      exact suspended.stack
    · rw [after]
      exact suspended.frames_setIp frames _
  | @called top callers inst a f rest frames inside decoded call head found enough =>
    have short := suspended.short tidy base frames
    rw [frames] at stacked
    obtain ⟨sunk, above, -⟩ := stacked
    refine .inl ⟨?_, ?_⟩
    -- the locals of the callee come on top of what is below the function
    · have kept : below <:+ m.stack.drop 1 :=
        suffix_drop suspended.stack (by rw [head, List.length_cons]; omega)
      simp only [entered, setIp_stack]
      exact kept.trans (List.suffix_append _ _)
    · obtain ⟨inner, ip, same⟩ := suspended.frames_setIp frames (top.ip + inst.width)
      rw [frames_entered frames head, same]
      exact ⟨_ :: inner, ip, rfl⟩
  | @left top callers frames enough results =>
    obtain ⟨inner, ip, same⟩ := suspended.frames
    rw [frames] at same
    cases inner with
    -- the frame itself returns
    | nil =>
      cases same
      exact .inr ⟨ip, frames, rfl, enough, results⟩
    | cons first inner =>
      cases same
      have short := suspended.short tidy base frames
      rw [frames] at stacked
      obtain ⟨sunk, above, -⟩ := stacked
      exact .inl ⟨suffix_returned sunk enough short suspended.stack, inner, ip, frames_returned frames⟩
  | ended frames =>
    obtain ⟨inner, ip, same⟩ := suspended.frames
    rw [frames] at same
    cases inner with
    | nil =>
      cases same
      exact absurd rfl called
    | cons first inner => cases inner <;> cases same

/-- A turn that fails keeps what was left behind. -/
theorem Suspended.setIp (suspended : Suspended below frame outer m) (ip : Nat) :
    Suspended below frame outer (m.setIp ip) := by
  constructor
  · rw [setIp_stack]
    exact suspended.stack
  · cases frames : m.frames with
    | nil =>
      obtain ⟨inner, ip', same⟩ := suspended.frames
      rw [frames] at same
      cases inner <;> cases same
    | cons top callers =>
      rw [Frame.setIp_frames frames]
      exact suspended.frames_setIp frames _

theorem Suspended.turned (suspended : Suspended below frame outer m) (tidy : m.Tidy)
    (base : below.length = frame.base) (called : outer ≠ []) (turned : m.Turned m')
    (deep : outer.length < m'.frames.length) : Suspended below frame outer m' := by
  rcases turned.cases tidy.steady with move | ⟨ip, rfl⟩
  · rcases suspended.move tidy base called move with suspended | ⟨ip, frames, rfl, -⟩
    · exact suspended
    · rw [frames_returned frames] at deep
      omega
  · exact suspended.setIp ip

/-! ### Results -/

/-- An integer that is held on the heap stays there. -/
theorem int64?_of_live {v : Value} {n : BitVec 64}
    (kept : ∀ a o, m'.heap.get? a = some o → m.heap.get? a = some o) (wf : m.heap.WellFormed)
    (live : m'.Live v) (denotes : m.int64? v = some n) : m'.int64? v = some n := by
  cases v with
  | ref a =>
    simp only [int64?] at denotes ⊢
    split at denotes
    · next n' found =>
      have pos := wf.pos_of_get? found
      -- what is live afterwards is what was there before
      obtain ⟨o, found'⟩ := live a pos rfl
      cases found.symm.trans (kept a o found')
      rw [found']
      exact denotes
    · cases denotes
  | _ => exact denotes

/-- A value that is held fits after a return what it fitted before. -/
theorem fits_of_live {t : Ty} {v : Value} (kept : ∀ a o, m'.heap.get? a = some o → m.heap.get? a = some o)
    (wf : m.heap.WellFormed) (live : m'.Live v) (fitted : m.fits t v = true) : m'.fits t v = true := by
  unfold fits read? at fitted ⊢
  by_cases wide : t.kind = .scalar .i64
  · rw [if_pos wide, Option.isSome_map] at fitted ⊢
    obtain ⟨n, denotes⟩ := Option.isSome_iff_exists.1 fitted
    rw [int64?_of_live kept wf live denotes]
    rfl
  · rw [if_neg wide] at fitted ⊢
    exact fitted

theorem fitting_of_live {ts : List Ty} {vs : List Value}
    (kept : ∀ a o, m'.heap.get? a = some o → m.heap.get? a = some o) (wf : m.heap.WellFormed)
    (live : ∀ v ∈ vs, m'.Live v) (fitted : List.Forall₂ (fun t v => m.fits t v = true) ts vs) :
    List.Forall₂ (fun t v => m'.fits t v = true) ts vs := by
  induction fitted with
  | nil => exact .nil
  | cons first _ ih =>
    obtain ⟨here, rest⟩ := List.forall_mem_cons.1 live
    exact .cons (fits_of_live kept wf here first) (ih rest)

theorem fitting_of_readAll {ts : List Ty} {vs ws : List Value} (read : m.readAll ts vs = .ok ws)
    (length : ts.length ≤ vs.length) :
    List.Forall₂ (fun t v => m.fits t v = true) ts (vs.take ts.length) := by
  induction ts generalizing vs ws with
  | nil => exact .nil
  | cons t ts ih =>
    cases vs with
    | nil => simp at length
    | cons v vs =>
      obtain ⟨u, us, rfl, first, rest⟩ := readAll_cons read
      refine .cons ?_ (ih rest (by simpa using length))
      rw [fits, first]
      rfl

theorem heap_returned {a : Nat} {o : Object} (found : (m.returned frame).heap.get? a = some o) :
    m.heap.get? a = some o :=
  Heap.get?_of_releaseValues (Heap.get?_of_releaseAll found)

/-- What the return of a frame leaves: the results that its function declares, on top of what lay below
it. -/
theorem returned_results (balanced : m.Balanced []) (after : (m.returned frame).Balanced [])
    (lies : below <:+ m.stack) (base : below.length = frame.base) (sunk : frame.base ≤ frame.floor)
    (enough : frame.floor + frame.function.signature.returns.length ≤ m.stack.length)
    {vs : List Value} (read : m.readAll frame.function.signature.returns.reverse m.stack = .ok vs) :
    ∃ results, (m.returned frame).stack = results ++ below ∧
      results.length = frame.function.signature.returns.length ∧
      List.Forall₂ (fun t v => (m.returned frame).fits t v = true) frame.function.signature.returns
        results.reverse := by
  obtain ⟨upper, parts⟩ := lies
  have length : upper.length + below.length = m.stack.length := by
    rw [← parts, List.length_append]
  have stack := @stack_returned m frame upper below _ rfl parts.symm base (by omega)
  refine ⟨_, stack, ?_, ?_⟩
  · rw [List.length_take]
    omega
  have fitted := fitting_of_readAll read (by rw [List.length_reverse]; omega)
  rw [List.length_reverse] at fitted
  -- the results are on the stack, so what they refer to is still there
  have held : ∀ v ∈ m.stack.take frame.function.signature.returns.length, (m.returned frame).Live v := by
    intro v mem
    apply after.live_of_stack
    rw [stack]
    exact List.mem_append_left _ mem
  have fits := fitting_of_live (fun a o => heap_returned) balanced.heap held fitted
  rw [← List.forall₂_reverse_iff, List.reverse_reverse]
  exact fits

/-- The turn that removes the frame is its return. -/
theorem Suspended.popped (suspended : Suspended below frame outer m) (tidy : m.Tidy)
    (base : below.length = frame.base) (called : outer ≠ []) (turned : m.Turned m')
    (shallow : m'.frames.length ≤ outer.length) :
    m'.frames = outer ∧
      ∃ results, m'.stack = results ++ below ∧
        results.length = frame.function.signature.returns.length ∧
        List.Forall₂ (fun t v => m'.fits t v = true) frame.function.signature.returns results.reverse := by
  -- while the frame is there, there are more frames than it left behind
  have deep {m : Machine} (suspended : Suspended below frame outer m) : outer.length < m.frames.length := by
    obtain ⟨inner, ip, frames⟩ := suspended.frames
    rw [frames, List.length_append, List.length_cons]
    omega
  have steady := turned.steady tidy.steady
  rcases turned.cases tidy.steady with move | ⟨ip, rfl⟩
  · rcases suspended.move tidy base called move with still | ⟨ip, frames, rfl, enough, vs, read⟩
    · have := deep still
      omega
    · have stacked := tidy.stacked
      rw [frames] at stacked
      refine ⟨frames_returned frames, ?_⟩
      exact returned_results tidy.steady.balanced steady.balanced suspended.stack base stacked.1 enough read
  · have := deep (suspended.setIp ip)
    omega

/-! ### Calls -/

/-- The machines that a run goes through from `m` on while there are more than `depth` frames. -/
inductive During (depth : Nat) (m : Machine) : Machine → Prop where
  | here : During depth m m
  | turn {m' m'' : Machine} (before : During depth m m') (turned : m'.Turned m'')
    (deep : depth < m''.frames.length) : During depth m m''

theorem During.suspended {m₂ : Machine} (during : During outer.length m m₂)
    (suspended : Suspended below frame outer m) (tidy : m.Tidy) (base : below.length = frame.base)
    (called : outer ≠ []) : Suspended below frame outer m₂ ∧ m₂.Tidy := by
  induction during with
  | here => exact ⟨suspended, tidy⟩
  | turn before turned deep ih =>
    obtain ⟨suspended, tidy⟩ := ih
    exact ⟨suspended.turned tidy base called turned deep, turned.tidy tidy⟩

/-- Frames do not disturb their callers. In a program without host functions, whatever was run before, a
call takes the function and its arguments from the stack of the caller into a new frame. As long as the
frame is there, be it innermost or not and be there faults or not, what lay below the arguments stays at
the bottom of the stack, and the caller, set to go on after the call, and the frames of its own callers
stay as they are. The turn that removes the frame leaves the caller on top of its callers, and in the
place of the function and the arguments exactly the results, each of which fits the declared type. -/
theorem call_isolated {caller : Frame} {inst : Instruction} {m₁ : Machine}
    (guest : ∀ c ∈ p.constants, c.isHost = false) (reached : Reachable p o m) (at_call : m.At caller inst)
    (call : inst.opcode = .call) (turns : m.Turns m₁) :
    ∃ a f arguments below callers,
      m.heap.get? a = some (.function f) ∧ m.stack = .ref a :: (arguments ++ below) ∧
      arguments.length = f.signature.params.length ∧ m.frames = caller :: callers ∧
      let suspended := { caller with ip := caller.ip + inst.width } :: callers
      let frame : Frame :=
        { function := f, ip := 0, base := below.length,
          floor := below.length + f.signature.params.length + f.locals, callee := a }
      m₁.frames = frame :: suspended ∧
      ∀ m₂, During m.frames.length m₁ m₂ →
        (∃ above, m₂.stack = above ++ below) ∧
        (∃ inner ip, m₂.frames = inner ++ { frame with ip } :: suspended) ∧
        ∀ m₃, m₂.Turned m₃ → m₃.frames.length ≤ m.frames.length →
          m₃.frames = suspended ∧
          ∃ results, m₃.stack = results ++ below ∧ results.length = f.signature.returns.length ∧
            List.Forall₂ (fun t v => m₃.fits t v = true) f.signature.returns results.reverse := by
  have tidy := tidy_reachable guest reached
  obtain ⟨callers, frames⟩ := at_call.frames
  have done := at_call.effect frames tidy.steady turns
  rw [effect_of_call call] at done
  obtain ⟨a, f, rest, top, found, enough, rfl⟩ := calling_entered frames tidy.steady.closureless done
  have parts : rest = rest.take f.signature.params.length ++ rest.drop f.signature.params.length :=
    (List.take_append_drop _ _).symm
  refine ⟨a, f, rest.take f.signature.params.length, rest.drop f.signature.params.length, callers, found,
    ?_, ?_, frames, ?_⟩
  · rw [← parts]
    exact top
  · rw [List.length_take]
    omega
  intro suspended frame
  have entered : ((m.setIp (caller.ip + inst.width)).entered f [] a).frames = frame :: suspended := by
    rw [frames_entered frames top]
    simp only [frame, suspended, List.length_drop]
  refine ⟨entered, fun m₂ during => ?_⟩
  have depth : m.frames.length = suspended.length := by
    rw [frames]
    rfl
  rw [depth] at during ⊢
  have called : suspended ≠ [] := by simp [suspended]
  -- right after the call the frame is innermost, and its locals lie above what is left behind
  have started : Suspended (rest.drop f.signature.params.length) frame suspended
      ((m.setIp (caller.ip + inst.width)).entered f [] a) := by
    refine ⟨?_, [], 0, entered⟩
    simp only [Machine.entered, setIp_stack, top, List.drop_one, List.tail_cons]
    exact (List.drop_suffix _ _).trans (List.suffix_append _ _)
  obtain ⟨addresses, nested, more, turned⟩ := turns
  have first : m.Turned ((m.setIp (caller.ip + inst.width)).entered f [] a) :=
    ⟨addresses, nested, by rw [turned]; rfl⟩
  obtain ⟨still, tidy₂⟩ := during.suspended started (first.tidy tidy) rfl called
  refine ⟨?_, still.frames, fun m₃ turned shallow => ?_⟩
  · obtain ⟨above, parts⟩ := still.stack
    exact ⟨above, parts.symm⟩
  · exact still.popped tidy₂ rfl called turned shallow

/-- A program that keeps a number on the stack while it calls a function, which calls another one that
overwrites its argument. -/
def relay : Program :=
  let outer : Code := Instruction.assemble [⟨.localGet, [0]⟩, ⟨.constGet, [1]⟩, ⟨.call, []⟩]
  let inner : Code := Instruction.assemble [⟨.const .i32, [1]⟩, ⟨.localSet, [0]⟩, ⟨.localGet, [0]⟩]
  { code := Instruction.assemble
      [⟨.const .i32, [9]⟩, ⟨.const .i32, [5]⟩, ⟨.constGet, [0]⟩, ⟨.call, []⟩, ⟨.drop, []⟩]
    constants := #[.function ⟨⟨[.i32], [.i32]⟩, 0, outer⟩, .function ⟨⟨[.i32], [.i32]⟩, 0, inner⟩]
    types := #[] }

/-- The machine that is about to make the first call of `relay`. -/
def relaying : Machine := leftBy (Exec.run 3 (load relay {}))

/-- The number stays where it is until the call is over. -/
theorem relay_isolated :
    ∃ caller inst m₁, relaying.At caller inst ∧ inst.opcode = .call ∧ relaying.Turns m₁ ∧
      ∀ m₂, During 1 m₁ m₂ → ∃ above, m₂.stack = above ++ [.i32 9] := by
  have guest : ∀ c ∈ relay.constants, c.isHost = false := by simp [relay, Constant.isHost]
  -- what the program has come to, worked out in one go
  obtain ⟨stack, callee, place, decoded, smooth, addresses⟩ :
      relaying.stack = [.ref 1, .i32 5, .i32 9] ∧
        (relaying.heap.get? 1).map Object.ty = some (.function [.i32] [.i32]) ∧
        relaying.frames.map (fun frame => (frame.ip, frame.function.code)) = [(13, relay.code)] ∧
        Instruction.decode relay.code 13 = .ok ⟨.call, []⟩ ∧
        Exec.faultOf (Exec.turn (pure ()) relaying) = none ∧
        relaying.heap.size ≤ Word.payloadSize := by decide +kernel
  have reached : Reachable relay {} relaying := .run 3 .load
  -- the innermost frame is that of the entry, at its call
  obtain ⟨caller, callers, frames, here, outermost⟩ := List.map_eq_cons_iff.1 place
  obtain ⟨ip, code⟩ := Prod.mk.inj here
  have at_call : relaying.At caller ⟨.call, []⟩ := by
    refine ⟨by rw [frames]; rfl, ?_, ?_⟩
    · rw [ip, code]
      decide +kernel
    · rw [ip, code]
      exact decoded
  have steady := steady_reachable guest reached
  obtain ⟨more, m₁, turned⟩ : ∃ more m₁, Exec.turn (pure ()) relaying = .ok more m₁ := by
    have turn := Exec.turn_cases (pure ()) steady.bounded steady.guest
    generalize Exec.turn (pure ()) relaying = result at smooth turn
    cases result with
    | ok more m₁ => exact ⟨more, m₁, rfl⟩
    | error stop m₁ =>
      cases stop with
      | fault e => cases smooth
      | exhausted => cases turn
  have turns : relaying.Turns m₁ := ⟨addresses, pure (), more, turned⟩
  obtain ⟨a, f, arguments, below, callers', found, parts, count, frames', -, during⟩ :=
    call_isolated guest reached at_call rfl turns
  refine ⟨caller, ⟨.call, []⟩, m₁, at_call, rfl, turns, fun m₂ between => ?_⟩
  -- the function takes one argument, so the other number lies below
  rw [stack, List.cons.injEq, Value.ref.injEq] at parts
  obtain ⟨rfl, parts⟩ := parts
  rw [found] at callee
  have takes : f.signature.params = [.i32] := (Ty.function.inj (Option.some.inj callee)).1
  rw [takes] at count
  obtain ⟨v, rfl⟩ := List.length_eq_one_iff.1 count
  cases parts
  have depth : relaying.frames.length = 1 := by
    rw [← List.length_map (f := fun frame => (frame.ip, frame.function.code)), place]
    rfl
  rw [depth] at during
  exact (during m₂ between).1

end Machine

end StackVM
