import StackVM.Proofs.CallFree
import StackVM.Proofs.FaultAtomicity
import StackVM.Proofs.Typing.KindEffects
import StackVM.Proofs.Verifier.Routes

/-!
# Kinds in verified programs

In verified entry code that makes no calls and reads nothing from objects, every value on the stack has
the kind that the verifier computed for it, whatever references of unknown type are about: what the
verifier knows about a reference may be wrong, but not that it is one. A wide integer on the heap counts
as a number. Main statement: the kinds of the stack agree with the verifier at the start of each block
and at the end of the code, and values of the wrong type are met only by instructions that look at the
type of an object (`verified_kinds`).
-/

namespace StackVM

open Verifier

namespace Machine

/-- What holds throughout a run of such code: the counts are right, and the entry code has the only frame
and goes along a path with whose kinds the stack agrees, or the run is over. -/
structure Matched (y : Survey) (p : Program) (o : Options) (T : Table Ty) (m : Machine) : Prop where
  orderly : m.Orderly
  program : m.program = p
  kept : ∀ frame callers, m.frames = frame :: callers →
    callers = [] ∧ ∃ path, m.Keeps y (entryScope p o) T frame path ∧ m.Kinded T path.stack

/-- A value of the wrong type is met only where an instruction looks at the type of an object. -/
def Inspected (code : Code) (e : Error) : Prop :=
  e.cause = .typeMismatch → ∃ offset inst, e.offset = some offset ∧
    Instruction.decode code offset = .ok inst ∧ inst.opcode ∈ Opcode.inspecting

variable {m m' : Machine} {y : Survey} {p : Program} {o : Options} {T : Table Ty} {frame : Frame}
  {callers : List Frame} {path path' : Path} {inst : Instruction} {cause : Cause} {ts : List Ty}

theorem Kinded.map_kindOf (kinded : m.Kinded T ts) (balanced : m.Balanced []) :
    m.stack.map m.kindOf = ts.map Ty.kind := by
  apply List.ext_getElem
  · rw [List.length_map, List.length_map, kinded.stack.length_eq]
  · intro i below below'
    rw [List.getElem_map, List.getElem_map]
    rw [List.length_map] at below below'
    exact kindOf_of_hasKind (kinded.stack.get below below') balanced.heap
      (balanced.live_of_stack (List.getElem_mem below))

/-- An instruction keeps to the kinds of its rule. -/
theorem Matched.sure (matched : Matched y p o T m) (kinded : m.Kinded T path.stack)
    (onward : y.Onward (entryScope p o) T frame.ip path inst path')
    (plain : inst.opcode ∉ [Opcode.call, .arrayGet, .structGet]) (no_ret : inst.opcode ≠ .ret)
    (size next : Nat) :
    SureUnless (inst.opcode ∈ Opcode.inspecting) (fun m' => m'.Kinded T path'.stack)
      ((m.setIp next).effect inst size next) := by
  simp only [List.mem_cons, List.not_mem_nil, or_false, not_or] at plain
  have program : (m.setIp next).program = p := by
    rw [setIp_eq]
    exact matched.program
  exact Kinded.effect (kinded.setIp next) onward.transfer rfl plain.1 no_ret plain.2 program
    (matched.orderly.balanced.setIp next)

/-- An instruction that goes through keeps the machine in agreement with the kinds. -/
theorem Matched.stepped (matched : Matched y p o T m) (covers : y.Covers (entryScope p o) T)
    (plain : ∀ l ∈ p.code.scan.1, l.inst.opcode ∉ [Opcode.call, .arrayGet, .structGet])
    (addresses : m.heap.size ≤ Word.payloadSize) (frames : m.frames = frame :: callers)
    (inside : frame.ip < frame.function.code.size)
    (decoded : Instruction.decode frame.function.code frame.ip = .ok inst)
    (done : (m.setIp (frame.ip + inst.width)).effect inst frame.function.code.size
      (frame.ip + inst.width) = .ok m') : Matched y p o T m' := by
  obtain ⟨rfl, path, keeps, kinded⟩ := matched.kept _ _ frames
  obtain ⟨path', onward⟩ := keeps.follows.onward covers inside decoded
  have plain := plain _ onward.scanned
  have running : (m.setIp (frame.ip + inst.width)).frames ≠ [] := by
    rw [Frame.setIp_frames frames]
    nofun
  have orderly : m'.Orderly :=
    (matched.orderly.setIp _).effect running (by rwa [heap_setIp]) done
  have program : m'.program = p := by
    rw [effect_program done, setIp_eq]
    exact matched.program
  refine ⟨orderly, program, fun frame' callers' found => ?_⟩
  by_cases ret : inst.opcode = .ret
  -- a return leaves no frame
  · obtain ⟨-, returning⟩ := keeps.returning frames (frame.ip + inst.width)
    rw [effect_of_ret ret, returning] at done
    cases done
    simp only [Machine.returned, Frame.setIp_frames frames] at found
    cases found
  · have no_call : inst.opcode ≠ .call := fun call => plain (by simp [call])
    obtain ⟨ip, frames', keeps'⟩ := keeps.moved onward frames matched.program no_call ret
      (effect_ok ⟨no_call, ret⟩ done)
    have kinded' := matched.sure kinded onward plain ret frame.function.code.size (frame.ip + inst.width)
    rw [done] at kinded'
    rw [frames'] at found
    cases found
    exact ⟨rfl, path', keeps', kinded'⟩

/-- An instruction that fails for a value of the wrong type looked at the type of an object. -/
theorem Matched.failed (matched : Matched y p o T m) (covers : y.Covers (entryScope p o) T)
    (plain : ∀ l ∈ p.code.scan.1, l.inst.opcode ∉ [Opcode.call, .arrayGet, .structGet])
    (frames : m.frames = frame :: callers) (inside : frame.ip < frame.function.code.size)
    (decoded : Instruction.decode frame.function.code frame.ip = .ok inst)
    (refused : (m.setIp (frame.ip + inst.width)).effect inst frame.function.code.size
      (frame.ip + inst.width) = .error cause) : Inspected p.code (Error.atOffset cause frame.ip) := by
  obtain ⟨rfl, path, keeps, kinded⟩ := matched.kept _ _ frames
  obtain ⟨path', onward⟩ := keeps.follows.onward covers inside decoded
  by_cases ret : inst.opcode = .ret
  · obtain ⟨-, returning⟩ := keeps.returning frames (frame.ip + inst.width)
    rw [effect_of_ret ret, returning] at refused
    cases refused
  · have sure := matched.sure kinded onward (plain _ onward.scanned) ret frame.function.code.size
      (frame.ip + inst.width)
    rw [refused] at sure
    intro mismatch
    exact ⟨frame.ip, inst, rfl, onward.decoded, sure mismatch⟩

/-- No call is due in code without calls. -/
theorem Matched.guest (matched : Matched y p o T m) (covers : y.Covers (entryScope p o) T)
    (plain : ∀ l ∈ p.code.scan.1, l.inst.opcode ∉ [Opcode.call, .arrayGet, .structGet]) : m.Guest := by
  intro frame callers inst frames inside decoded call
  obtain ⟨-, path, keeps, -⟩ := matched.kept frame callers frames
  obtain ⟨path', onward⟩ := keeps.follows.onward covers inside decoded
  exact absurd call fun call => plain _ onward.scanned (by simp [call])

/-- One turn keeps the machine in agreement with the kinds. -/
theorem matched_turn (covers : y.Covers (entryScope p o) T)
    (plain : ∀ l ∈ p.code.scan.1, l.inst.opcode ∉ [Opcode.call, .arrayGet, .structGet])
    (nested : Exec Unit) (matched : Matched y p o T m) (addresses : m.heap.size ≤ Word.payloadSize) :
    Exec.Stops (Matched y p o T) (fun e _ => Inspected p.code e) (Exec.turn nested m) := by
  have turned := Exec.turn_cases nested matched.orderly.bounded (matched.guest covers plain)
  generalize Exec.turn nested m = result at turned
  cases turned with
  | idle none => exact matched
  | undecoded frames inside decoded =>
    obtain ⟨-, path, keeps, -⟩ := matched.kept _ _ frames
    exact absurd decoded (keeps.follows.decodes covers inside)
  | stepped frames inside decoded done =>
    exact matched.stepped covers plain addresses frames inside decoded done
  | failed frames inside decoded refused => exact matched.failed covers plain frames inside decoded refused
  | ended frames past => exact ⟨matched.orderly.ended frames, matched.program, nofun⟩
  -- nobody called the entry code
  | returned frames called past done => exact absurd (matched.kept _ _ frames).1 called
  | stuck frames called past refused => exact absurd (matched.kept _ _ frames).1 called

/-- A fresh machine stands at the entry with nothing on its stack. -/
theorem matched_started (stands : y.Stands (entryScope p o) T 0 ⟨[], .empty⟩) :
    Matched y p o T (load p o).started := by
  refine ⟨orderly_started (orderly_load p o), rfl, fun frame callers found => ?_⟩
  obtain ⟨alone, path, keeps⟩ := (alone_started stands).kept frame callers found
  refine ⟨alone, path, keeps, ?_⟩
  have empty : path.stack = [] := by
    have height := keeps.follows.height
    rw [keeps.base, Nat.zero_add] at height
    exact List.eq_nil_of_length_eq_zero height.symm
  rw [empty]
  exact { agrees_load p o with }

/-- A turn that ends a run leaves the stack as it was. -/
theorem Turn.over (turn : m.Turn (.ok false m')) :
    m' = { m with frames := [] } ∧ ∀ frame callers, m.frames = frame :: callers →
      frame.function.code.size ≤ frame.ip := by
  cases turn with
  | idle none =>
    refine ⟨?_, fun frame callers found => ?_⟩
    · rw [← none]
    · rw [none] at found
      cases found
  | ended frames past =>
    refine ⟨rfl, fun frame callers found => ?_⟩
    rw [frames] at found
    cases found
    exact past

/-- The turn that ends a run finds no frame left, or the entry code at its end. -/
theorem Matched.over {nested : Exec Unit} (matched : Matched y p o T m)
    (covers : y.Covers (entryScope p o) T)
    (plain : ∀ l ∈ p.code.scan.1, l.inst.opcode ∉ [Opcode.call, .arrayGet, .structGet])
    (last : Exec.lastOf (Exec.turn nested m) = some (.ok () m')) :
    m' = { m with frames := [] } ∧ ∀ frame callers, m.frames = frame :: callers →
      frame.function.code.size ≤ frame.ip := by
  have turned := Exec.turn_cases nested matched.orderly.bounded (matched.guest covers plain)
  generalize Exec.turn nested m = result at turned last
  cases result with
  | error stop m'' => cases last
  | ok more m'' =>
    cases more with
    | true => cases last
    | false =>
      cases last
      exact turned.over

/-- In a verified program whose entry code makes no calls and reads nothing from objects, the kinds of the
stack agree with the verifier. At the start of a block they are those of a stack with which the verifier
entered it. A run that ends at the end of the code leaves the kinds of one of the exits that the check
reports; one that ends by a return has given its frame up before. A value of the wrong type is met only by
an instruction that looks at the type of an object. -/
theorem verified_kinds {p : Program} {o : Options} {v : Verifier}
    (verified : Verifier.verify (.new p o) = .ok () v)
    (plain : ∀ l ∈ p.code.scan.1, l.inst.opcode ∉ [Opcode.call, .arrayGet, .structGet]) :
    (∃ g s, Graph.build p.code = .ok g ∧ (entryScope p o).search g .empty = .ok s ∧
      ∀ fuel m frame callers i block, Exec.run fuel (load p o) = .error .exhausted m →
        m.frames = frame :: callers → g.blocks[i]? = some block → frame.ip = block.start →
        ∃ visit ∈ s.seen, visit.block = i ∧ m.stack.map m.kindOf = visit.path.stack.map Ty.kind) ∧
    (∃ exits v', Verifier.check p.entry (.new p o) = .ok exits v' ∧
      ∀ fuel m, Exec.run fuel (load p o) = .ok () m →
        ∃ n m', n < fuel ∧ Exec.run n (load p o) = .error .exhausted m' ∧ m = { m' with frames := [] } ∧
          ∀ frame callers, m'.frames = frame :: callers → p.code.size ≤ frame.ip ∧
            ∃ exit ∈ exits, (m.stack.map m.kindOf).reverse = exit.map Ty.kind) ∧
    ∀ fuel e m, Exec.run fuel (load p o) = .error (.fault e) m → e.cause = .typeMismatch →
      ∃ offset inst, e.offset = some offset ∧ Instruction.decode p.code offset = .ok inst ∧
        inst.opcode ∈ Opcode.inspecting := by
  obtain ⟨g, sites, s, built, searched, -, covers, stands⟩ := entry_of_verify verified
  obtain ⟨exits, between, checked, -⟩ := checkAll_eq_ok_cons (v := .new p o) verified
  have turns (nested : Exec Unit) (m : Machine) (matched : Matched ⟨g, sites, s.seen⟩ p o s.globals m) :=
    matched_turn covers plain nested matched
  have started : Matched ⟨g, sites, s.seen⟩ p o s.globals (load p o).started := matched_started stands
  have stopped (fuel : Nat) : Exec.Stops (Matched ⟨g, sites, s.seen⟩ p o s.globals)
      (fun e _ => Inspected p.code e) (Exec.run fuel (load p o)) :=
    Exec.run_invariant turns (fun _ _ => nofun) fuel started
  refine ⟨⟨g, s, built, searched, ?_⟩, ⟨exits, between, checked, ?_⟩, ?_⟩
  · intro fuel m frame callers i block cut at_frame at_block start
    have matched := stopped fuel
    rw [cut] at matched
    obtain ⟨-, path, keeps, kinded⟩ := Matched.kept matched frame callers at_frame
    -- a machine at the start of a block stands in a visit of it
    have visited := keeps.follows.stands.visited covers at_block start.symm
    exact ⟨_, visited, rfl, kinded.map_kindOf (Matched.orderly matched).balanced⟩
  · intro fuel m ended
    by_cases no_frame : (load p o).frames = [] ∧ (load p o).options.frameSize = 0
    · rw [Exec.run_apply, if_pos no_frame] at ended
      cases ended
    have run (n : Nat) : Exec.run n (load p o) = Exec.loop n (load p o).started := by
      rw [Exec.run_apply, if_neg no_frame]
    rw [run] at ended
    -- the last turn, before which the machine still agreed with the kinds
    rcases Exec.loop_last turns (fun nested nested' m matched =>
        Exec.turn_nested nested nested' matched.orderly.bounded (matched.guest covers plain))
        fuel started with ⟨_, cut⟩ | ⟨n, m', less, cut, matched, last⟩
    · rw [ended] at cut
      cases cut
    rw [ended] at last
    obtain ⟨same, past⟩ := matched.over covers plain (last (pure ()))
    refine ⟨n, m', less, (run n).trans cut, same, fun frame callers at_frame => ?_⟩
    obtain ⟨-, path, keeps, kinded⟩ := matched.kept frame callers at_frame
    have past := past frame callers at_frame
    rw [keeps.follows.function] at past
    have exit := exit_of_check checked built searched (keeps.follows.stands.ends covers past)
    refine ⟨past, path.stack.reverse, exit, ?_⟩
    -- dropping the frame changes no value and no object
    have kinds : m.stack.map m.kindOf = path.stack.map Ty.kind := by
      rw [same]
      exact kinded.map_kindOf matched.orderly.balanced
    rw [kinds, List.map_reverse]
  · intro fuel e m failed
    have inspected := stopped fuel
    rw [failed] at inspected
    exact inspected

/-- A program that chooses between an integer on the heap and one in a word, in a block of its own. -/
def choosing : Program :=
  .ofCode (Instruction.assemble
    [⟨.const .i64, [0x1000000000000000]⟩, ⟨.const .i64, [5]⟩, ⟨.const .i32, [1]⟩, ⟨.br, [0]⟩, ⟨.select, []⟩])

/-- The verifier enters the second block with the kinds that the machine has there, where one of the
integers is on the heap, and reports the kinds that the machine ends with. -/
theorem choosing_kinds :
    (∃ g s, Graph.build choosing.code = .ok g ∧ (entryScope choosing {}).search g .empty = .ok s ∧
      ∃ visit ∈ s.seen, visit.block = 1 ∧
        visit.path.stack.map Ty.kind = [.scalar .i32, .scalar .i64, .scalar .i64]) ∧
    ∃ exits v' m, Verifier.check choosing.entry (.new choosing {}) = .ok exits v' ∧
      Exec.run 9 (load choosing {}) = .ok () m ∧ m.stack = [.ref 1] ∧
        ∃ exit ∈ exits, exit.map Ty.kind = [.scalar .i64] := by
  have verified : Verifier.verify (.new choosing {}) = .ok () _ :=
    Verifier.verify_of_tableWithin (n := 10) (T := .empty) (by decide +kernel)
  -- after four turns the machine stands before the choice, and it has its frame until the end
  obtain ⟨plain, block, before, after, running⟩ :
      (∀ l ∈ choosing.code.scan.1, l.inst.opcode ∉ [Opcode.call, .arrayGet, .structGet]) ∧
      (Graph.build choosing.code).toOption.bind (fun g => g.blocks[1]?.map Block.start) = some 28 ∧
      (Exec.cutOf (Exec.run 4 (load choosing {}))).map
        (fun m => (m.frames.head?.map Frame.ip, m.stack.map m.kindOf)) =
        some (some 28, [.scalar .i32, .scalar .i64, .scalar .i64]) ∧
      (Exec.endOf (Exec.run 9 (load choosing {}))).map (fun m => (m.stack, m.stack.map m.kindOf)) =
        some ([.ref 1], [.scalar .i64]) ∧
      ∀ n < 9, (Exec.cutOf (Exec.run n (load choosing {}))).map (·.frames.isEmpty) ≠ some true := by
    decide +kernel
  obtain ⟨⟨g, s, built, searched, entered⟩, ⟨exits, v', checked, ends⟩, -⟩ := verified_kinds verified plain
  refine ⟨⟨g, s, built, searched, ?_⟩, exits, v', ?_⟩
  · rw [built] at block
    obtain ⟨second, at_1, start⟩ := Option.map_eq_some_iff.1 block
    obtain ⟨m, cut, state⟩ := Option.map_eq_some_iff.1 before
    simp only [Prod.mk.injEq] at state
    obtain ⟨frame, at_frame, ip⟩ := Option.map_eq_some_iff.1 state.1
    obtain ⟨callers, at_frame⟩ := List.head?_eq_some_iff.1 at_frame
    obtain ⟨visit, seen, at_block, kinds⟩ :=
      entered 4 m frame callers 1 second (Exec.eq_of_cutOf cut) at_frame at_1 (ip.trans start.symm)
    exact ⟨visit, seen, at_block, kinds.symm.trans state.2⟩
  · obtain ⟨m, ended, state⟩ := Option.map_eq_some_iff.1 after
    simp only [Prod.mk.injEq] at state
    obtain ⟨n, m', less, cut, same, left⟩ := ends 9 m (Exec.eq_of_endOf ended)
    obtain ⟨frame, callers, at_frame⟩ : ∃ frame callers, m'.frames = frame :: callers := by
      have filled := running n less
      rw [cut] at filled
      cases frames : m'.frames with
      | nil => simp [Exec.cutOf, frames] at filled
      | cons frame callers => exact ⟨frame, callers, rfl⟩
    obtain ⟨-, exit, mem, kinds⟩ := left frame callers at_frame
    rw [state.2] at kinds
    exact ⟨m, checked, Exec.eq_of_endOf ended, state.1, exit, mem, kinds.symm⟩

end Machine

end StackVM
