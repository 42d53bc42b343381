import StackVM.Proofs.Flow.Positions
import StackVM.Proofs.Machine.Moves
import StackVM.Proofs.ReferenceCounts

/-!
# Control stays in the graph

Where the graphs of all functions can be built, control goes only where the graphs say. Main statement:
whatever such a program was run through, faults and resets included, every frame stands at the start of
an instruction or at the end of its code, no turn fails because it cannot decode or because a jump leads
astray, and a turn that goes through takes its frame along an edge of the graph or on inside its block
(`control_within_graph`).

The invariant is that every frame stands at a boundary. The instruction at a boundary is one that the
graph was made from, so where it can go was looked at when the graph was made; and an instruction that
fails leaves its frame at the boundary after it.
-/

namespace StackVM

/-- An instruction of the code starts at the offset, or the code ends there. -/
def Code.Boundary (code : Code) (ip : Nat) : Prop :=
  ip = code.size ∨ ∃ l ∈ code.scan.1, l.offset = ip

/-- Where control can go from a block, in code of the given size: to the next instruction of the block,
to the end of the code, or to the start of a successor. -/
inductive Graph.Passes (g : Graph) (size : Nat) (block : Block) : Nat → Nat → Prop where
  | next {l l' : Located} (here : l ∈ block.body) (there : l' ∈ block.body)
    (adjacent : l'.offset = l.next) : Passes g size block l.offset l'.offset
  | finish {ip : Nat} : Passes g size block ip size
  | succ {ip j : Nat} {block' : Block} (link : j ∈ block.succs) (at_j : g.blocks[j]? = some block') :
    Passes g size block ip block'.start

namespace Frame

/-- The frame can go on at offset `ip`, as the graph of its code has it. -/
def Advances (frame : Frame) (ip : Nat) : Prop :=
  ∃ g i block, Graph.build frame.function.code = .ok g ∧ g.blockAt? frame.ip = some i ∧
    g.blocks[i]? = some block ∧ g.Passes frame.function.code.size block frame.ip ip

/-- What a turn does to a row of frames, the innermost first. -/
inductive Progress : List Frame → List Frame → Prop where
  | idle : Progress [] []
  | onward {frame : Frame} {callers : List Frame} {ip : Nat} (advances : frame.Advances ip) :
    Progress (frame :: callers) ({ frame with ip } :: callers)
  | called {frame callee : Frame} {callers : List Frame} {ip : Nat} (advances : frame.Advances ip)
    (entered : callee.ip = 0) : Progress (frame :: callers) (callee :: { frame with ip } :: callers)
  | left {frame : Frame} {callers : List Frame} : Progress (frame :: callers) callers

end Frame

/-! ### Boundaries of code that was cut -/

namespace Flow.Cut

variable {code : Code} {g : Graph} {sites : List Site} {s : Site} {ip : Nat}
  (cut : Cut code g sites)
include cut

theorem boundary_of_site (mem : s ∈ sites) : code.Boundary s.offset := by
  exact .inr ⟨s.toLocated, cut.mem_scan.2 ⟨s, mem, rfl⟩, rfl⟩

theorem site_of_boundary (boundary : code.Boundary ip) (inside : ip < code.size) :
    ∃ s ∈ sites, s.offset = ip := by
  rcases boundary with rfl | ⟨l, mem, rfl⟩
  · omega
  · obtain ⟨s, found, rfl⟩ := cut.mem_scan.1 mem
    exact ⟨s, found, rfl⟩

theorem next_le (mem : s ∈ sites) : s.next ≤ code.size := by
  obtain ⟨-, decoded, -⟩ := cut.chain.decoded mem
  exact Instruction.next_le_size decoded

theorem boundary_next (mem : s ∈ sites) : code.Boundary s.next := by
  rcases cut.chain.next_site mem with past | ⟨s', mem', at_next⟩
  · left
    exact Nat.le_antisymm (cut.next_le mem) past
  · rw [← at_next]
    exact cut.boundary_of_site mem'

theorem boundary_zero : code.Boundary 0 := by
  have chain := cut.chain
  cases found : sites with
  | nil =>
    rw [found] at chain
    left
    exact (Nat.le_zero.1 chain).symm
  | cons t rest =>
    rw [found] at chain
    have zero : t.offset = 0 := chain.1
    rw [← zero]
    apply cut.boundary_of_site
    rw [found]
    exact List.mem_cons_self

theorem mem_body {i : Nat} {block : Block} (at_i : g.blocks[i]? = some block) (mem : s ∈ sites)
    (after : block.start ≤ s.offset) (before : s.offset < block.stop) : s.toLocated ∈ block.body := by
  obtain ⟨-, body, -⟩ := cut.block_eq at_i
  rw [body]
  apply List.mem_map_of_mem
  exact List.mem_filter.2 ⟨mem, by simp [after, before]⟩

/-- A jump goes to the start of an instruction. -/
theorem target_site (mem : s ∈ sites) {place : Option Nat} (jump : place ∈ s.inst.jumps s.next) :
    ∃ s' ∈ sites, place = some s'.offset ∧ s'.offset ∈ s.targets := by
  obtain ⟨-, decoded, targets⟩ := cut.chain.decoded mem
  rw [Located.next, Code.jumps_eq_targets decoded targets] at jump
  obtain ⟨target, found, rfl⟩ := List.mem_map.1 jump
  obtain ⟨s', mem', at_target⟩ := List.any_eq_true.1 (List.all_eq_true.1 (cut.lands s mem) target found)
  cases beq_iff_eq.1 at_target
  exact ⟨s', mem', rfl, found⟩

/-- Wherever control goes from an instruction, the graph has it. -/
theorem passes (mem : s ∈ sites) (goes : Machine.Goes s.inst code.size s.next ip) :
    ∃ i block, g.blockAt? s.offset = some i ∧ g.blocks[i]? = some block ∧
      g.Passes code.size block s.offset ip := by
  obtain ⟨i, block, at_i, after, before, found⟩ := cut.block_at (cut.chain.decoded mem).1
  refine ⟨i, block, found, at_i, ?_⟩
  rcases goes with ⟨falls, rfl⟩ | ⟨jump, -⟩
  · rcases cut.next_block at_i mem after before falls with
      ⟨within, s', mem', at_next⟩ | ⟨-, -, past⟩ | ⟨-, block', at_next, start, succ⟩
    · rw [← at_next]
      have pos := next_pos s
      exact .next (cut.mem_body at_i mem after before)
        (cut.mem_body at_i mem' (by omega) (by omega)) at_next
    · rw [Nat.le_antisymm (cut.next_le mem) past]
      exact .finish
    · rw [← start]
      exact .succ succ at_next
  -- a jump ends its block
  · have ends := cut.stop_le_next at_i mem after (Instruction.isTerminator_of_jumps jump)
    obtain ⟨s', -, same, found⟩ := cut.target_site mem jump
    cases same
    obtain ⟨j, block', at_j, start, succ⟩ := cut.target_block at_i mem after before ends found
    rw [← start]
    exact .succ succ at_j

theorem boundary_goes (mem : s ∈ sites) (goes : Machine.Goes s.inst code.size s.next ip) :
    code.Boundary ip := by
  rcases goes with ⟨-, rfl⟩ | ⟨jump, -⟩
  · exact cut.boundary_next mem
  · obtain ⟨s', mem', same, -⟩ := cut.target_site mem jump
    cases same
    exact cut.boundary_of_site mem'

end Flow.Cut

namespace Machine

variable {m m' : Machine} {p : Program} {o : Options} {frame : Frame} {callers : List Frame}
  {inst : Instruction}

/-- Every function of the program has a graph. -/
def Mapped (p : Program) : Prop := ∀ f ∈ p.functions, ∃ g, Graph.build f.code = .ok g

/-- The frame runs a function of the program and stands at a boundary of its code. -/
def Placed (p : Program) (frame : Frame) : Prop :=
  frame.function ∈ p.functions ∧ frame.function.code.Boundary frame.ip

/-- What holds of a machine throughout: it is steady, and all its frames are in place. -/
structure Ordered (p : Program) (m : Machine) : Prop where
  steady : m.Steady
  program : m.program = p
  placed : ∀ frame ∈ m.frames, Placed p frame

/-! ### One frame -/

/-- The instruction at which a frame stands is one of those that its graph was made from. -/
theorem Placed.site (mapped : Mapped p) (placed : Placed p frame)
    (inside : frame.ip < frame.function.code.size) :
    ∃ g sites s, Graph.build frame.function.code = .ok g ∧ Flow.Cut frame.function.code g sites ∧
      s ∈ sites ∧ s.offset = frame.ip ∧ Instruction.decode frame.function.code frame.ip = .ok s.inst := by
  obtain ⟨g, built⟩ := mapped _ placed.1
  obtain ⟨sites, cut⟩ := Flow.cut_of_build built
  obtain ⟨s, mem, at_ip⟩ := cut.site_of_boundary placed.2 inside
  refine ⟨g, sites, s, built, cut, mem, at_ip, ?_⟩
  rw [← at_ip]
  exact (cut.chain.decoded mem).2.1

theorem Placed.decodes (mapped : Mapped p) (placed : Placed p frame)
    (inside : frame.ip < frame.function.code.size) :
    ∃ inst, Instruction.decode frame.function.code frame.ip = .ok inst := by
  obtain ⟨-, -, s, -, -, -, -, decoded⟩ := placed.site mapped inside
  exact ⟨s.inst, decoded⟩

/-- Control goes from a boundary to a boundary, along the graph. -/
theorem Placed.goes (mapped : Mapped p) (placed : Placed p frame)
    (inside : frame.ip < frame.function.code.size)
    (decoded : Instruction.decode frame.function.code frame.ip = .ok inst) {ip : Nat}
    (goes : Goes inst frame.function.code.size (frame.ip + inst.width) ip) :
    frame.Advances ip ∧ Placed p { frame with ip } := by
  obtain ⟨g, sites, s, built, cut, mem, at_ip, decoded'⟩ := placed.site mapped inside
  cases decoded.symm.trans decoded'
  rw [← at_ip] at goes
  obtain ⟨i, block, found, at_i, passes⟩ := cut.passes mem goes
  rw [at_ip] at found passes
  exact ⟨⟨g, i, block, built, found, at_i, passes⟩, placed.1, cut.boundary_goes mem goes⟩

/-- An instruction that fails leaves its frame after it. -/
theorem Placed.next (mapped : Mapped p) (placed : Placed p frame)
    (inside : frame.ip < frame.function.code.size)
    (decoded : Instruction.decode frame.function.code frame.ip = .ok inst) :
    Placed p { frame with ip := frame.ip + inst.width } := by
  obtain ⟨g, sites, s, built, cut, mem, at_ip, decoded'⟩ := placed.site mapped inside
  cases decoded.symm.trans decoded'
  rw [← at_ip]
  exact ⟨placed.1, cut.boundary_next mem⟩

theorem placed_entry {f : Function} (mapped : Mapped p) (mem : f ∈ p.functions) {base floor callee : Nat} :
    Placed p ⟨f, 0, base, floor, callee⟩ := by
  obtain ⟨g, built⟩ := mapped f mem
  obtain ⟨sites, cut⟩ := Flow.cut_of_build built
  exact ⟨mem, cut.boundary_zero⟩

/-! ### One turn -/

theorem Ordered.progress (mapped : Mapped p) (ordered : Ordered p m) (move : m.Move m') :
    Frame.Progress m.frames m'.frames ∧ m'.program = p ∧ ∀ frame ∈ m'.frames, Placed p frame := by
  have program := ordered.program
  have placed := ordered.placed
  cases move with
  | idle none =>
    rw [none]
    exact ⟨.idle, program, by simp⟩
  | onward frames inside decoded plain done goes same after =>
    rw [frames] at placed ⊢
    obtain ⟨here, outer⟩ := List.forall_mem_cons.1 placed
    obtain ⟨advances, there⟩ := here.goes mapped inside decoded goes
    rw [after, same]
    exact ⟨.onward advances, program, List.forall_mem_cons.2 ⟨there, outer⟩⟩
  | @called frame callers inst a f rest frames inside decoded call top found enough =>
    rw [frames] at placed
    obtain ⟨here, outer⟩ := List.forall_mem_cons.1 placed
    have goes : Goes inst frame.function.code.size (frame.ip + inst.width) (frame.ip + inst.width) :=
      .inl ⟨by rw [call]; rfl, rfl⟩
    obtain ⟨advances, there⟩ := here.goes mapped inside decoded goes
    -- only functions of the program are ever on the heap
    have known : f ∈ p.functions := by
      rw [← program]
      exact ordered.steady.balanced.sound a _ found
    rw [frames_entered frames top, frames]
    refine ⟨.called advances rfl, ?_, ?_⟩
    · rw [setIp_eq]
      exact program
    · exact List.forall_mem_cons.2 ⟨placed_entry mapped known, List.forall_mem_cons.2 ⟨there, outer⟩⟩
  | @left frame callers frames enough results =>
    rw [frames] at placed
    rw [frames_returned frames, frames]
    exact ⟨.left, program, (List.forall_mem_cons.1 placed).2⟩
  | ended frames =>
    rw [frames]
    exact ⟨.left, program, by simp⟩

/-- Faults that the graph rules out. -/
def astray : List Cause := [.unknownOpcode, .invalidJump]

theorem Ordered.refused {c : Cause} (mapped : Mapped p) (ordered : Ordered p m)
    (frames : m.frames = frame :: callers) (inside : frame.ip < frame.function.code.size)
    (decoded : Instruction.decode frame.function.code frame.ip = .ok inst)
    (refused : (m.setIp (frame.ip + inst.width)).effect inst frame.function.code.size
      (frame.ip + inst.width) = .error c) : c ∉ astray := by
  by_cases call : inst.opcode = .call
  · rw [effect_of_call call] at refused
    have others : ∀ c ∈ [Cause.stackUnderflow, .typeMismatch, .segmentationFault, .frameOverflow,
        .stackOverflow], c ∉ astray := by decide
    exact others c (cause_calling (ordered.steady.setIp _).closureless refused)
  by_cases ret : inst.opcode = .ret
  · rw [effect_of_ret ret] at refused
    have others : ∀ c ∈ [Cause.stackUnderflow, .typeMismatch], c ∉ astray := by decide
    exact others c (cause_returning (Frame.setIp_frames frames) refused)
  cases effect_error ⟨call, ret⟩ refused with
  | jump outside =>
    obtain ⟨place, jump, outside⟩ := outside
    have placed := ordered.placed frame (by simp [frames])
    obtain ⟨g, sites, s, -, cut, mem, at_ip, decoded'⟩ := placed.site mapped inside
    cases decoded.symm.trans decoded'
    rw [← at_ip] at jump
    -- the target is an instruction of the code
    obtain ⟨s', mem', same, -⟩ := cut.target_site mem jump
    have past := outside s'.offset same
    have within := (cut.chain.decoded mem').1
    omega
  | _ => decide

/-- A turn that fails does so for another reason, and leaves its frame where it was or after the
instruction. -/
theorem Ordered.fault {e : Error} (mapped : Mapped p) (ordered : Ordered p m)
    (turn : m.Turn (.error (.fault e) m')) :
    e.cause ∉ astray ∧ m'.program = p ∧ ∀ frame ∈ m'.frames, Placed p frame := by
  have program := ordered.program
  have placed := ordered.placed
  cases turn with
  | undecoded frames inside decoded =>
    -- at a boundary there is something to decode
    rw [frames] at placed
    obtain ⟨inst, decoded'⟩ := (List.forall_mem_cons.1 placed).1.decodes mapped inside
    cases decoded.symm.trans decoded'
  | failed frames inside decoded refused =>
    refine ⟨ordered.refused mapped frames inside decoded refused, ?_, ?_⟩
    · rw [setIp_eq]
      exact program
    · rw [frames] at placed
      obtain ⟨here, outer⟩ := List.forall_mem_cons.1 placed
      rw [Frame.setIp_frames frames]
      exact List.forall_mem_cons.2 ⟨here.next mapped inside decoded, outer⟩
  | @stuck frame callers c frames called past refused =>
    have others : ∀ c ∈ [Cause.stackUnderflow, .typeMismatch], c ∉ astray := by decide
    exact ⟨others c (cause_returning frames refused), program, placed⟩

/-- One turn, whatever it comes to, leaves the frames in place. -/
theorem ordered_turn (nested : Exec Unit) (mapped : Mapped p) (ordered : Ordered p m)
    (addresses : m.heap.size ≤ Word.payloadSize) :
    Exec.Stops (Ordered p) (fun e m' => e.cause ∉ astray ∧ Ordered p m') (Exec.turn nested m) := by
  have steady := steady_turn nested ordered.steady addresses
  have turn := Exec.turn_cases nested ordered.steady.bounded ordered.steady.guest
  generalize Exec.turn nested m = result at turn steady
  cases result with
  | ok more m' =>
    obtain ⟨-, program, placed⟩ := ordered.progress mapped (turn.move ordered.steady.closureless)
    exact ⟨steady, program, placed⟩
  | error stop m' =>
    cases stop with
    | exhausted => cases turn
    | fault e =>
      obtain ⟨cause, program, placed⟩ := ordered.fault mapped turn
      exact ⟨cause, steady, program, placed⟩

/-! ### Runs -/

theorem ordered_started (mapped : Mapped p) (ordered : Ordered p m) : Ordered p m.started := by
  refine ⟨steady_started ordered.steady, ?_, ?_⟩
  · unfold started
    split
    · exact ordered.program
    · exact ordered.program
  · unfold started
    split
    · intro frame mem
      cases List.mem_singleton.1 mem
      rw [entryFrame, ordered.program]
      exact placed_entry mapped List.mem_cons_self
    · exact ordered.placed

theorem ordered_run (fuel : Nat) (mapped : Mapped p) (ordered : Ordered p m) :
    Exec.Stops (Ordered p) (fun e m' => e.cause ∉ astray ∧ Ordered p m') (Exec.run fuel m) := by
  apply Exec.run_invariant
  · intro nested m ordered addresses
    exact ordered_turn nested mapped ordered addresses
  · intro _ _
    exact ⟨by decide, ordered⟩
  · exact ordered_started mapped ordered

theorem ordered_reachable (guest : ∀ c ∈ p.constants, c.isHost = false) (mapped : Mapped p)
    (reached : Reachable p o m) : Ordered p m := by
  induction reached with
  | load => exact ⟨steady_load guest o, rfl, by simp [load]⟩
  | run fuel before ih =>
    exact leftBy_of_stops (ordered_run fuel mapped ih) fun _ _ faulted => faulted.2
  | reset before ih =>
    have steady := steady_reachable guest (.reset before)
    exact ⟨steady, ih.program, by simp [Machine.reset]⟩

/-- Control stays in the graph. In a program without host functions whose functions all have a graph,
whatever was run, every frame runs a function of the program, stands at a boundary of its code and finds
an instruction there unless it is at the end; no turn and no run fails for want of an opcode or for a jump
that leads astray; and a turn that goes through moves no frame but the innermost, which it takes to the
next instruction of its block, to the end of the code or to the start of a successor. -/
theorem control_within_graph (guest : ∀ c ∈ p.constants, c.isHost = false)
    (mapped : ∀ f ∈ p.functions, ∃ g, Graph.build f.code = .ok g) (reached : Reachable p o m) :
    (∀ frame ∈ m.frames, frame.function ∈ p.functions ∧ frame.function.code.Boundary frame.ip ∧
      (frame.ip < frame.function.code.size →
        ∃ inst, Instruction.decode frame.function.code frame.ip = .ok inst)) ∧
    (∀ nested e m', Exec.turn nested m = .error (.fault e) m' →
      e.cause ≠ .unknownOpcode ∧ e.cause ≠ .invalidJump) ∧
    (∀ fuel e m', Exec.run fuel m = .error (.fault e) m' →
      e.cause ≠ .unknownOpcode ∧ e.cause ≠ .invalidJump) ∧
    ∀ nested more m', Exec.turn nested m = .ok more m' → Frame.Progress m.frames m'.frames := by
  have ordered := ordered_reachable guest mapped reached
  refine ⟨?_, ?_, ?_, ?_⟩
  · intro frame mem
    have placed := ordered.placed frame mem
    exact ⟨placed.1, placed.2, placed.decodes mapped⟩
  · intro nested e m' failed
    have turn := Exec.turn_cases nested ordered.steady.bounded ordered.steady.guest
    rw [failed] at turn
    simpa [astray] using (ordered.fault mapped turn).1
  · intro fuel e m' failed
    have stopped := ordered_run fuel mapped ordered
    rw [failed] at stopped
    simpa [astray] using stopped.1
  · intro nested more m' turned
    have turn := Exec.turn_cases nested ordered.steady.bounded ordered.steady.guest
    rw [turned] at turn
    exact (ordered.progress mapped (turn.move ordered.steady.closureless)).1

/-- A program that calls a function with a branch table, one case of which jumps back to the return of
the other. -/
def winding : Program :=
  let body : Code := Instruction.assemble
    [⟨.localGet, [0]⟩, ⟨.brTable, [1, 0, 4]⟩, ⟨.localGet, [0]⟩, ⟨.ret, []⟩, ⟨.const .i32, [7]⟩,
      ⟨.br, [0x100000000 - 11]⟩]
  { code := Instruction.assemble [⟨.const .i32, [2]⟩, ⟨.constGet, [0]⟩, ⟨.call, []⟩, ⟨.drop, []⟩]
    constants := #[.function ⟨⟨[.i32], [.i32]⟩, 0, body⟩]
    types := #[] }

/-- Before the jump back both frames stand at boundaries, and the jump follows an edge. -/
theorem winding_within_graph :
    (∀ f ∈ winding.functions, ∃ g, Graph.build f.code = .ok g) ∧
      (leftBy (Exec.run 6 (load winding {}))).frames.map Frame.ip = [23, 9] ∧
      (∀ frame ∈ (leftBy (Exec.run 6 (load winding {}))).frames,
        frame.function.code.Boundary frame.ip) ∧
      ∀ nested more m', Exec.turn nested (leftBy (Exec.run 6 (load winding {}))) = .ok more m' →
        Frame.Progress (leftBy (Exec.run 6 (load winding {}))).frames m'.frames := by
  have guest : ∀ c ∈ winding.constants, c.isHost = false := by simp [winding, Constant.isHost]
  have mapped : ∀ f ∈ winding.functions, ∃ g, Graph.build f.code = .ok g := by
    have built : ∀ f ∈ winding.functions, (Graph.build f.code).toOption.isSome = true := by
      decide +kernel
    intro f mem
    cases found : Graph.build f.code with
    | ok g => exact ⟨g, rfl⟩
    | error e =>
      have := built f mem
      rw [found] at this
      cases this
  obtain ⟨placed, -, -, progress⟩ := control_within_graph guest mapped (.run 6 (.load (o := {})))
  refine ⟨mapped, by decide +kernel, ?_, progress⟩
  intro frame mem
  exact (placed frame mem).2.1

end Machine

end StackVM
