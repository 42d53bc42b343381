import StackVM.Proofs.Verifier.Following

/-!
# Verified code without calls

Code that passes the verifier and makes no calls stays within its stack, finds whatever it names by an
index, and enters each block as the verifier did: with a stack of the same height and the same globals
written. Nothing is asked of reference types, which may be wrong at run time. Main statement:
`callFree_safe`.
-/

namespace StackVM

open Verifier

namespace Machine

/-- The entry code goes along a path with which the machine agrees about the height of the stack and
about the globals that are written. -/
structure Keeps (m : Machine) (y : Survey) (c : Scope) (T : Table Ty) (frame : Frame) (path : Path) :
    Prop where
  base : frame.base = 0
  follows : frame.Follows y c T path m.stack.length
  written : ∀ i, path.written i = (m.globals.get? i).isSome

/-- What holds throughout a run of code without calls: the entry code has the only frame, or the run is
over. -/
structure Alone (y : Survey) (p : Program) (o : Options) (T : Table Ty) (m : Machine) : Prop where
  program : m.program = p
  options : m.options = o
  constants : m.constants.size = p.constants.size
  bounded : m.stack.length ≤ o.stackSize
  kept : ∀ frame callers, m.frames = frame :: callers →
    callers = [] ∧ ∃ path, m.Keeps y (entryScope p o) T frame path

variable {m m' : Machine} {y : Survey} {p : Program} {o : Options} {T : Table Ty} {frame : Frame}
  {callers : List Frame} {path path' : Path} {inst : Instruction} {cause : Cause}

/-- Faults that verified code without calls can have. -/
def Excused (code : Code) (e : Error) : Prop :=
  e.cause ∉ [Cause.stackUnderflow, .stackOverflow, .unknownOpcode, .invalidJump, .frameOverflow,
    .frameUnderflow] ∧
  (e.cause = .segmentationFault → ∃ offset inst, e.offset = some offset ∧
    Instruction.decode code offset = .ok inst ∧ inst.opcode ∉ Opcode.indexed)

/-- What the verifier found named is there at run time. -/
theorem Alone.names (alone : Alone y p o T m) (keeps : m.Keeps y (entryScope p o) T frame path)
    (frames : m.frames = frame :: callers) {next : Nat}
    (named : Scope.Names (entryScope p o) path inst) : (m.setIp next).Names inst := by
  -- the locals reach up to the floor, for the rule as for the frame
  have local_at {i : Nat} (inside : i < (entryScope p o).floor) :
      ∃ place, (m.setIp next).localAt i = .ok place := by
    have floor := keeps.follows.floor
    refine ⟨frame.base + i, ?_⟩
    rw [Machine.localAt, Frame.setIp_frames frames]
    exact if_pos (by change frame.base + i < frame.floor; omega)
  have type_at {i : Nat} (found : (p.types[i]?).isSome) : ((m.setIp next).program.types[i]?).isSome := by
    rwa [setIp_eq, alone.program]
  obtain ⟨opcode, ops⟩ := inst
  cases opcode with
  | globalGet =>
    change ((m.setIp next).globals.get? (Instruction.operand ⟨.globalGet, ops⟩ 0)).isSome = true
    -- the path knows which globals are written
    rw [setIp_eq, ← keeps.written]
    exact named
  | localGet => exact local_at named
  | localSet => exact local_at named
  | localTee => exact local_at named
  | constGet =>
    change ((m.setIp next).constants[Instruction.operand ⟨.constGet, ops⟩ 0]?).isSome = true
    rw [setIp_eq, isSome_getElem?]
    change _ < m.constants.size
    rw [alone.constants]
    exact (isSome_getElem? p.constants _).mp named
  | arrayNew => exact type_at named
  | structNew => exact type_at named
  | structNewDefault => exact type_at named
  | _ => exact named.elim

/-- The verifier's limit is that of the machine, so nothing overflows. -/
theorem Alone.room (alone : Alone y p o T m) (keeps : m.Keeps y (entryScope p o) T frame path)
    (shift : (entryScope p o).Shift inst path path') {next : Nat} :
    ¬(m.setIp next).options.stackSize <
      (m.setIp next).stack.length - inst.takes (m.setIp next).program.types + inst.gives := by
  intro full
  have enough := shift.enough keeps.follows.above
  have rule := shift.height
  have height := keeps.follows.height
  -- the only frame starts at the bottom, so its height is that of the whole stack
  have base := keeps.base
  have bounded := alone.bounded
  rw [setIp_eq] at full
  simp only [alone.options, alone.program] at full
  rcases shift.room with fewer | room
  · simp only at fewer enough
    omega
  · simp only at room enough rule
    omega

/-- A failure of an instruction is one that is excused. -/
theorem Alone.excused (alone : Alone y p o T m) (covers : y.Covers (entryScope p o) T)
    (keeps : m.Keeps y (entryScope p o) T frame path) (frames : m.frames = frame :: callers)
    (inside : frame.ip < frame.function.code.size)
    (decoded : Instruction.decode frame.function.code frame.ip = .ok inst)
    (no_call : inst.opcode ≠ .call) (no_ret : inst.opcode ≠ .ret)
    (refused : (m.setIp (frame.ip + inst.width)).effect inst frame.function.code.size
      (frame.ip + inst.width) = .error cause) :
    Excused p.code (Error.atOffset cause frame.ip) := by
  obtain ⟨path', onward⟩ := keeps.follows.onward covers inside decoded
  have blames := effect_error ⟨no_call, no_ret⟩ refused
  have shift := onward.transfer.shift no_call no_ret
  have sound := keeps.follows.blames onward frames alone.program no_call no_ret blames
  -- the limit of the rules is that of the machine
  have no_overflow : cause ≠ .stackOverflow := by
    rintro rfl
    cases blames with
    | overflow full => exact alone.room keeps shift full
  constructor
  · simp only [List.mem_cons, List.not_mem_nil, or_false, not_or, Error.cause_atOffset] at sound ⊢
    obtain ⟨underflow, opcode, jump, overflow, frame⟩ := sound
    exact ⟨underflow, no_overflow, opcode, jump, overflow, frame⟩
  · rintro rfl
    -- what an instruction names by an index is there, so something else is missing
    refine ⟨frame.ip, inst, rfl, onward.decoded, fun indexed => ?_⟩
    cases blames with
    | outside unnamed => exact unnamed indexed (alone.names keeps frames (shift.named indexed))

/-- An instruction that goes through moves the frame along the path that its rule gives. -/
theorem Keeps.moved (keeps : m.Keeps y (entryScope p o) T frame path)
    (onward : y.Onward (entryScope p o) T frame.ip path inst path') (frames : m.frames = frame :: callers)
    (program : m.program = p) (no_call : inst.opcode ≠ .call) (no_ret : inst.opcode ≠ .ret) {size : Nat}
    (moved : (m.setIp (frame.ip + inst.width)).Moved inst size (frame.ip + inst.width) m') :
    ∃ ip, m'.frames = { frame with ip } :: callers ∧
      m'.Keeps y (entryScope p o) T { frame with ip } path' := by
  obtain ⟨ip, frames', follows⟩ := keeps.follows.moved onward frames program no_call no_ret moved
  refine ⟨ip, frames', keeps.base, follows, fun i => ?_⟩
  rw [(onward.transfer.shift no_call no_ret).written, keeps.written, moved.globals, setIp_eq]

/-- An instruction that goes through keeps the machine on the path that its rule gives. -/
theorem Alone.stepped (alone : Alone y p o T m) (covers : y.Covers (entryScope p o) T)
    (keeps : m.Keeps y (entryScope p o) T frame path) (frames : m.frames = frame :: [])
    (inside : frame.ip < frame.function.code.size)
    (decoded : Instruction.decode frame.function.code frame.ip = .ok inst)
    (no_call : inst.opcode ≠ .call) (no_ret : inst.opcode ≠ .ret)
    (done : (m.setIp (frame.ip + inst.width)).effect inst frame.function.code.size
      (frame.ip + inst.width) = .ok m') : Alone y p o T m' := by
  obtain ⟨path', onward⟩ := keeps.follows.onward covers inside decoded
  have moved := effect_ok ⟨no_call, no_ret⟩ done
  obtain ⟨ip, frames', keeps'⟩ := keeps.moved onward frames alone.program no_call no_ret moved
  refine ⟨?_, ?_, ?_, ?_, ?_⟩
  · rw [moved.program, setIp_eq]
    exact alone.program
  · rw [moved.options, setIp_eq]
    exact alone.options
  · rw [moved.constants, setIp_eq]
    exact alone.constants
  · have bounded := moved.bounded
    rw [setIp_eq] at bounded
    simp only [alone.options] at bounded
    exact bounded alone.bounded
  · intro frame' callers' found
    rw [frames'] at found
    cases found
    exact ⟨rfl, path', keeps'⟩

/-- A return goes through: the entry code has no results. -/
theorem Keeps.returning (keeps : m.Keeps y (entryScope p o) T frame path)
    (frames : m.frames = frame :: callers) (ip : Nat) :
    frame.function.signature.returns = [] ∧
      (m.setIp ip).returning = .ok ((m.setIp ip).returned { frame with ip }) := by
  have floor : frame.floor = 0 := by
    rw [keeps.follows.floor, keeps.base]
    rfl
  have returns : frame.function.signature.returns = [] := by
    rw [keeps.follows.function]
    rfl
  -- the check of no results always passes
  have checked : (m.setIp ip).checkResults [] = .ok () := by
    unfold Machine.checkResults Machine.need Machine.floor
    rw [Frame.setIp_frames frames]
    simp only [floor, List.length_nil]
    rfl
  refine ⟨returns, ?_⟩
  unfold Machine.returning
  rw [Frame.setIp_frames frames]
  simp only [returns, checked]
  rfl

/-- A return ends the run, since nobody called the entry code. -/
theorem Alone.returned (alone : Alone y p o T m) (keeps : m.Keeps y (entryScope p o) T frame path)
    (frames : m.frames = frame :: []) (ip : Nat) :
    ∃ m', (m.setIp ip).returning = .ok m' ∧ Alone y p o T m' := by
  obtain ⟨returns, done⟩ := keeps.returning frames ip
  refine ⟨_, done, ?_⟩
  have lower : ((m.setIp ip).returned { frame with ip }).stack.length ≤ m.stack.length := by
    simp only [Machine.returned, returns, List.length_nil, List.take_zero, List.nil_append,
      List.drop_zero, List.length_drop]
    rw [setIp_eq]
    simp only
    omega
  refine ⟨?_, ?_, ?_, ?_, ?_⟩
  · rw [Machine.returned, setIp_eq]
    exact alone.program
  · rw [Machine.returned, setIp_eq]
    exact alone.options
  · rw [Machine.returned, setIp_eq]
    exact alone.constants
  · exact Nat.le_trans lower alone.bounded
  · intro frame' callers' found
    simp only [Machine.returned, Frame.setIp_frames frames] at found
    cases found

/-- One turn keeps the machine on a checked path or ends in an excused fault. -/
theorem alone_turn (callFree : ∀ l ∈ p.code.scan.1, l.inst.opcode ≠ .call)
    (covers : y.Covers (entryScope p o) T) (nested : Exec Unit) (alone : Alone y p o T m) :
    Exec.Stops (Alone y p o T) (fun e _ => Excused p.code e) (Exec.turn nested m) := by
  -- an instruction on a path is one that was scanned
  have no_call {frame : Frame} {callers : List Frame} {inst : Instruction}
      (frames : m.frames = frame :: callers) (inside : frame.ip < frame.function.code.size)
      (decoded : Instruction.decode frame.function.code frame.ip = .ok inst) :
      inst.opcode ≠ .call := by
    obtain ⟨-, path, keeps⟩ := alone.kept frame callers frames
    obtain ⟨path', onward⟩ := keeps.follows.onward covers inside decoded
    exact callFree _ onward.scanned
  have turned := Exec.turn_cases nested (alone.options ▸ alone.bounded)
    (fun frame callers inst frames inside decoded call =>
      absurd call (no_call frames inside decoded))
  generalize Exec.turn nested m = result at turned
  cases turned with
  | idle none => exact alone
  | undecoded frames inside decoded =>
    obtain ⟨-, path, keeps⟩ := alone.kept _ _ frames
    exact absurd decoded (keeps.follows.decodes covers inside)
  | @stepped frame callers inst m' frames inside decoded done =>
    obtain ⟨rfl, path, keeps⟩ := alone.kept _ _ frames
    by_cases ret : inst.opcode = .ret
    · obtain ⟨m'', returning, kept⟩ := alone.returned keeps frames (frame.ip + inst.width)
      rw [effect_of_ret ret, returning] at done
      cases done
      exact kept
    · exact alone.stepped covers keeps frames inside decoded (no_call frames inside decoded) ret done
  | @failed frame callers inst cause frames inside decoded refused =>
    obtain ⟨rfl, path, keeps⟩ := alone.kept _ _ frames
    by_cases ret : inst.opcode = .ret
    · obtain ⟨m'', returning, -⟩ := alone.returned keeps frames (frame.ip + inst.width)
      rw [effect_of_ret ret, returning] at refused
      cases refused
    · exact alone.excused covers keeps frames inside decoded (no_call frames inside decoded) ret refused
  | ended frames past =>
    exact ⟨alone.program, alone.options, alone.constants, alone.bounded, nofun⟩
  -- nobody called the entry code
  | returned frames called past done => exact absurd (alone.kept _ _ frames).1 called
  | stuck frames called past refused => exact absurd (alone.kept _ _ frames).1 called

theorem length_loadConstants (heap : Heap) (cs : List Constant) :
    (loadConstants heap cs).1.length = cs.length := by
  induction cs generalizing heap with
  | nil => rfl
  | cons c cs ih =>
    unfold loadConstants
    cases c.form with
    | inl v => simp [ih]
    | inr object => simp [ih]

/-- A fresh machine stands at the entry. -/
theorem alone_started (stands : y.Stands (entryScope p o) T 0 ⟨[], .empty⟩) :
    Alone y p o T (load p o).started := by
  refine ⟨rfl, rfl, ?_, Nat.zero_le _, ?_⟩
  · change (loadConstants .empty p.constants.toList).1.toArray.size = p.constants.size
    rw [List.size_toArray, length_loadConstants, Array.length_toList]
  · intro frame callers found
    cases found
    refine ⟨rfl, ⟨[], .empty⟩, rfl, ⟨⟨rfl, rfl, rfl, Nat.le_refl _⟩, stands⟩, fun i => ?_⟩
    change ((Table.empty : Table Ty).get? i).isSome = (Table.empty.get? i).isSome
    simp

/-- Verified code without calls never runs out of operands, room, frames or code, never fails to find
what it names by an index, and enters every block with a stack as high, and with the same globals
written, as in some visit that the verifier made to that block. -/
theorem callFree_safe {p : Program} {o : Options} {v : Verifier} (frames : 1 ≤ o.frameSize)
    (verified : Verifier.verify (.new p o) = .ok () v)
    (callFree : ∀ l ∈ p.code.scan.1, l.inst.opcode ≠ .call) :
    (∀ fuel e m, Exec.run fuel (load p o) = .error (.fault e) m →
      e.cause ∉ [Cause.stackUnderflow, .stackOverflow, .unknownOpcode, .invalidJump, .frameOverflow,
        .frameUnderflow] ∧
      (e.cause = .segmentationFault → ∃ offset inst, e.offset = some offset ∧
        Instruction.decode p.code offset = .ok inst ∧ inst.opcode ∉ Opcode.indexed)) ∧
    ∃ g s, Graph.build p.code = .ok g ∧ (entryScope p o).search g .empty = .ok s ∧
      ∀ fuel m frame callers i block, Exec.run fuel (load p o) = .error .exhausted m →
        m.frames = frame :: callers → g.blocks[i]? = some block → frame.ip = block.start →
        ∃ visit ∈ s.seen, visit.block = i ∧ visit.path.stack.length = m.stack.length ∧
          ∀ j, visit.path.written j = (m.globals.get? j).isSome := by
  obtain ⟨g, sites, s, built, searched, -, covers, stands⟩ := entry_of_verify verified
  have stopped (fuel : Nat) : Exec.Stops (Alone ⟨g, sites, s.seen⟩ p o s.globals)
      (fun e _ => Excused p.code e) (Exec.run fuel (load p o)) := by
    refine Exec.run_invariant (fun nested m alone _ => ?_) (fun _ no_frames => ?_) fuel
      (alone_started stands)
    · exact alone_turn callFree covers nested alone
    · have none : o.frameSize = 0 := no_frames
      omega
  constructor
  · intro fuel e m failed
    have excused := stopped fuel
    rw [failed] at excused
    exact excused
  · refine ⟨g, s, built, searched, fun fuel m frame callers i block cut at_frame at_block start => ?_⟩
    have alone := stopped fuel
    rw [cut] at alone
    obtain ⟨rfl, path, keeps⟩ := Alone.kept alone frame callers at_frame
    -- a machine at the start of a block stands in a visit of it
    have visited := keeps.follows.stands.visited covers at_block start.symm
    refine ⟨_, visited, rfl, ?_, keeps.written⟩
    have height := keeps.follows.height
    rw [keeps.base] at height
    exact (Nat.zero_add _).symm.trans height.symm

/-- A program that writes a global and then reads it over and over. -/
def spin : Program :=
  .ofCode (Instruction.assemble
    [⟨.const .i32, [1]⟩, ⟨.globalSet, [0]⟩, ⟨.globalGet, [0]⟩, ⟨.brIf, [0xFFFFFFF8]⟩])

theorem callFree_spin :
    (∀ fuel e m, Exec.run fuel (load spin {}) = .error (.fault e) m → e.cause ≠ .stackUnderflow) ∧
      ∃ g s, Graph.build spin.code = .ok g ∧ (entryScope spin {}).search g .empty = .ok s ∧
        ∃ visit ∈ s.seen, visit.block = 1 ∧ visit.path.stack.length = 0 ∧
          visit.path.written 0 = true := by
  have verified : Verifier.verify (.new spin {}) = .ok () _ :=
    Verifier.verify_of_tableWithin (n := 10) (T := { entries := [some .i32] }) (by decide +kernel)
  obtain ⟨faults, g, s, built, searched, entered⟩ :=
    callFree_safe (by decide) verified (by decide +kernel)
  refine ⟨fun fuel e m failed => ?_, g, s, built, searched, ?_⟩
  · have excused := (faults fuel e m failed).1
    simp only [List.mem_cons, not_or] at excused
    exact excused.1
  -- after four turns the loop starts anew
  obtain ⟨block, state⟩ :
      (Graph.build spin.code).toOption.bind (fun g => g.blocks[1]?.map Block.start) = some 8 ∧
      (Exec.cutOf (Exec.run 4 (load spin {}))).map
        (fun m => (m.frames.map Frame.ip, m.stack.length, (m.globals.get? 0).isSome)) =
        some ([8], 0, true) := by
    decide +kernel
  rw [built] at block
  obtain ⟨second, at_1, start⟩ := Option.map_eq_some_iff.1 block
  obtain ⟨m, cut, state⟩ := Option.map_eq_some_iff.1 state
  simp only [Prod.mk.injEq] at state
  obtain ⟨frames, empty, written⟩ := state
  obtain ⟨frame, callers, at_frame⟩ : ∃ frame callers, m.frames = frame :: callers := by
    cases found : m.frames with
    | nil => simp [found] at frames
    | cons frame callers => exact ⟨frame, callers, rfl⟩
  have ip : frame.ip = 8 := by
    rw [at_frame, List.map_cons, List.cons.injEq] at frames
    exact frames.1
  obtain ⟨visit, seen, at_block, height, agrees⟩ :=
    entered 4 m frame callers 1 second (Exec.eq_of_cutOf cut) at_frame at_1 (ip.trans start.symm)
  exact ⟨visit, seen, at_block, height.trans empty, (agrees 0).trans written⟩

end Machine

end StackVM
