import StackVM.Proofs.Code.Listing
import StackVM.Proofs.Flow.Suffix
import StackVM.Proofs.StackShape

/-!
# Branches before a run and during it

The operands of a branch are read when the targets in a code are collected, and again by the machine that
comes to it. Main statement: both find the same places (`branch_outcome`). What is collected are the places
of all displacements; a machine goes to the one that its top operand selects, and fails exactly if that place
is not in the code.
-/

namespace StackVM

namespace Instruction

variable {code : Code} {ip next i : Nat} {inst : Instruction}

/-- The operands of a branch that are displacements: all but the number of cases. -/
def displaced (inst : Instruction) : List Nat :=
  if inst.opcode = .brTable then inst.operands.tail else inst.operands

/-- Where the displacements of a branch lead, counted from its end at `next`. A place before the code is
negative. -/
def places (inst : Instruction) (next : Nat) : List Int :=
  inst.displaced.map fun n => (next : Int) + signed32 n

/-- The place that a selector stands for: that of its case, or the last one if it has no case. -/
def place? (inst : Instruction) (next : Nat) (selector : BitVec 32) : Option Int :=
  if 0 ≤ selector.toInt ∧ selector.toInt < inst.operand 0 then
    (inst.places next)[selector.toInt.toNat]?
  else
    (inst.places next).getLast?

/-! ### Displacements in the operands -/

theorem length_operands (decoded : decode code ip = .ok inst) : inst.operands.length = inst.widths.length :=
  (decode_eq_ok_iff.1 decoded).1.length_eq.symm

/-- A table has one displacement for each case and one more. -/
theorem operands_of_table (decoded : decode code ip = .ok inst) (table : inst.opcode = .brTable) :
    inst.operands = inst.operand 0 :: inst.displaced ∧ inst.displaced.length = inst.operand 0 + 1 := by
  have length := length_operands decoded
  rw [widths, table, fieldWidths, List.length_cons, List.length_replicate] at length
  cases operands : inst.operands with
  | nil =>
    rw [operands] at length
    cases length
  | cons count rest => simpa [operand, displaced, table, operands] using length

theorem displaced_of_jump (decoded : decode code ip = .ok inst)
    (jump : inst.opcode = .br ∨ inst.opcode = .brIf) : inst.displaced = [inst.operand 0] := by
  have one : inst.operands.length = 1 ∧ inst.displaced = inst.operands := by
    have length := length_operands decoded
    rcases jump with opcode | opcode
    · rw [widths, opcode] at length
      exact ⟨length, by simp [displaced, opcode]⟩
    · rw [widths, opcode] at length
      exact ⟨length, by simp [displaced, opcode]⟩
  obtain ⟨length, same⟩ := one
  obtain ⟨n, operands⟩ := List.length_eq_one_iff.1 length
  rw [same, operand, operands]
  rfl

theorem operands_of_cases {count : Nat} {rest : List Nat} (length : rest.length = count + 1) :
    ((List.range (count + 1)).map fun i => operand ⟨.brTable, count :: rest⟩ (i + 1)) =
      rest := by
  apply List.ext_getElem?
  intro i
  rw [List.getElem?_map]
  by_cases inside : i < rest.length
  · rw [List.getElem?_range (by omega), List.getElem?_eq_getElem inside]
    simp [operand, inside]
  · rw [List.getElem?_eq_none (by simp; omega), List.getElem?_eq_none (by omega)]
    rfl

theorem displacements_eq (decoded : decode code ip = .ok inst)
    (branch : inst.opcode ∈ [.br, .brIf, .brTable]) : inst.displacements = inst.displaced.map signed32 := by
  rcases List.mem_cons.1 branch with opcode | branch
  · rw [displaced_of_jump decoded (.inl opcode), displacements, opcode]
    rfl
  · rcases List.mem_cons.1 branch with opcode | branch
    · rw [displaced_of_jump decoded (.inr opcode), displacements, opcode]
      rfl
    · have table : inst.opcode = .brTable := List.mem_singleton.1 branch
      obtain ⟨operands, length⟩ := operands_of_table decoded table
      have read := operands_of_cases length
      rw [← table, ← operands] at read
      rw [displacements, table]
      conv => rhs; rw [← read, List.map_map]
      rfl

theorem places_eq (decoded : decode code ip = .ok inst) (branch : inst.opcode ∈ [.br, .brIf, .brTable])
    (next : Nat) : inst.places next = inst.displacements.map fun d => (next : Int) + d := by
  rw [displacements_eq decoded branch, List.map_map]
  rfl

/-! ### Places in a table -/

theorem places_of_table (decoded : decode code ip = .ok inst) (table : inst.opcode = .brTable) (next : Nat)
    (inside : i ≤ inst.operand 0) : (inst.places next)[i]? = some ((next : Int) + inst.signed (i + 1)) := by
  obtain ⟨operands, length⟩ := operands_of_table decoded table
  have found : inst.displaced[i]? = some (inst.operand (i + 1)) := by
    have there : inst.operands[i + 1]? = inst.displaced[i]? := by
      rw [operands, List.getElem?_cons_succ]
    rw [operand, there, List.getElem?_eq_getElem (by omega), Option.getD_some]
  rw [places, List.getElem?_map, found]
  rfl

/-- Every selector stands for a place. -/
theorem place?_of_table (decoded : decode code ip = .ok inst) (table : inst.opcode = .brTable) (next : Nat)
    (selector : BitVec 32) :
    inst.place? next selector =
      let case :=
        if 0 ≤ selector.toInt ∧ selector.toInt < inst.operand 0 then selector.toInt.toNat else inst.operand 0
      some ((next : Int) + inst.signed (case + 1)) := by
  obtain ⟨-, length⟩ := operands_of_table decoded table
  unfold place?
  split
  · next inside => exact places_of_table decoded table next (by omega)
  · have last : (inst.places next).length - 1 = inst.operand 0 := by
      rw [places, List.length_map, length, Nat.add_sub_cancel]
    rw [List.getLast?_eq_getElem?, last]
    exact places_of_table decoded table next (Nat.le_refl _)

end Instruction

/-! ### The targets that are collected -/

namespace Code

variable {code : Code} {ip next width : Nat} {opcode : Opcode} {inst : Instruction} {ds : List Int}
  {targets : List Nat}

/-- Where no displacement leads past the last offset, the targets are the places. -/
theorem targets_iff_places (near : ∀ d ∈ ds, (next : Int) + d < offsetLimit) :
    ds.map (jumpTarget? next) = targets.map some ↔
      targets.map (fun t : Nat => (t : Int)) = ds.map fun d => (next : Int) + d := by
  induction ds generalizing targets with
  | nil => cases targets <;> simp
  | cons d ds ih =>
    obtain ⟨here, near⟩ := List.forall_mem_cons.1 near
    cases targets with
    | nil => simp
    | cons t targets =>
      rw [List.map_cons, List.map_cons, List.map_cons, List.map_cons, List.cons_eq_cons, List.cons_eq_cons,
        ih near, jumpTarget?_eq_some_iff]
      refine and_congr_left fun _ => and_iff_left_of_imp fun same => ?_
      omega

theorem branchTargets_iff_places (short : code.size < 2 ^ 63) (decoded : Instruction.decode code ip = .ok inst)
    (branch : inst.opcode ∈ [.br, .brIf, .brTable]) :
    code.branchTargets ip inst.opcode inst.width = .ok targets ↔
      targets.map (fun t : Nat => (t : Int)) = inst.places (ip + inst.width) := by
  have near : ∀ d ∈ inst.displacements, ((ip + inst.width : Nat) : Int) + d < offsetLimit := by
    intro d mem
    have within := Instruction.next_le_size decoded
    have small := displacement_lt mem
    rw [offsetLimit]
    omega
  rw [branchTargets_eq_ok_iff decoded, Instruction.jumps_eq_displacements, targets_iff_places near,
    Instruction.places_eq decoded branch]

end Code

/-! ### The place that a machine goes to -/

namespace Machine

variable {m : Machine} {code : Code} {ip size next n : Nat} {inst : Instruction} {place : Option Int}

/-- The machine is about to execute a branch that ends at `next`: to which of its places it will go, if to any,
and how many operands that takes. A conditional jump must find its condition, and that is not zero; a table
must find its selector. -/
inductive Chooses (m : Machine) (inst : Instruction) (next : Nat) : Option Int → Nat → Prop where
  | br (opcode : inst.opcode = .br) : Chooses m inst next (inst.places next).head? 0
  | brIf {condition : BitVec 32} {rest : List Value} (opcode : inst.opcode = .brIf)
    (top : m.stack = .i32 condition :: rest) (enough : m.floor ≤ rest.length) (taken : condition ≠ 0) :
    Chooses m inst next (inst.places next).head? 1
  | brTable {selector : BitVec 32} {rest : List Value} (opcode : inst.opcode = .brTable)
    (top : m.stack = .i32 selector :: rest) (enough : m.floor ≤ rest.length) :
    Chooses m inst next (inst.place? next selector) 1

theorem Chooses.branch (chooses : m.Chooses inst next place n) : inst.opcode ∈ [.br, .brIf, .brTable] := by
  cases chooses with
  | br opcode => simp [opcode]
  | brIf opcode => simp [opcode]
  | brTable opcode => simp [opcode]

/-- What a jump to a place comes to, in code of the given size. -/
theorem jumped_eq (small : size ≤ Code.offsetLimit) (d : Int) :
    m.jumped size next d =
      if 0 ≤ (next : Int) + d ∧ (next : Int) + d < size then .ok (m.setIp ((next : Int) + d).toNat)
      else .error .invalidJump := by
  rw [jumped]
  split
  · next target found =>
    obtain ⟨here, -⟩ := Code.jumpTarget?_eq_some_iff.1 found
    rw [← here, Int.toNat_natCast]
    by_cases inside : target < size
    · rw [if_pos inside, if_pos (by omega)]
    · rw [if_neg inside, if_neg (by omega)]
  · next missing =>
    have outside := Code.jumpTarget?_eq_none_iff.1 missing
    rw [if_neg (by omega)]

theorem dropped_setIp (m : Machine) (n ip : Nat) : (m.setIp ip).dropped n = (m.dropped n).setIp ip := by
  cases frames : m.frames with
  | nil => simp [setIp, dropped, frames]
  | cons frame callers => simp [setIp, dropped, frames]

/-- The operand of a branch is a number and holds nothing. -/
theorem discarded_number {c : BitVec 32} {rest : List Value} (top : m.stack = .i32 c :: rest) :
    m.discarded 1 = m.dropped 1 := by
  simp [discarded, releaseAll, dropped, top, Heap.releaseValues, Heap.releaseValue]

theorem need_one {v : Value} {rest : List Value} (top : m.stack = v :: rest) (enough : m.floor ≤ rest.length) :
    m.need 1 = .ok () := by
  refine need_eq_ok.2 ?_
  rw [top, List.length_cons]
  omega

theorem int32At_top {c : BitVec 32} {rest : List Value} (top : m.stack = .i32 c :: rest) :
    m.int32At 0 = .ok c := by
  simp [int32At, peek, top]

/-- A jump after which its operand is given up. -/
theorem jumped_discarded {c : BitVec 32} {rest : List Value} (top : m.stack = .i32 c :: rest)
    (small : size ≤ Code.offsetLimit) (d : Int) :
    (m.jumped size next d >>= fun moved => .ok (moved.discarded 1)) =
      if 0 ≤ (next : Int) + d ∧ (next : Int) + d < size then .ok ((m.dropped 1).setIp ((next : Int) + d).toNat)
      else .error .invalidJump := by
  rw [jumped_eq small]
  split
  · have moved : (m.setIp ((next : Int) + d).toNat).stack = .i32 c :: rest := by rw [setIp_stack, top]
    rw [← dropped_setIp, ← discarded_number moved]
    rfl
  · rfl

/-- A branch goes to the place that was chosen. -/
theorem Chooses.effect (chooses : m.Chooses inst next place n) (decoded : Instruction.decode code ip = .ok inst)
    (small : size ≤ Code.offsetLimit) :
    ∃ target, place = some target ∧
      m.effect inst size next =
        if 0 ≤ target ∧ target < size then .ok ((m.dropped n).setIp target.toNat) else .error .invalidJump := by
  cases chooses with
  | br opcode =>
    have only := Instruction.displaced_of_jump decoded (.inl opcode)
    refine ⟨next + inst.signed 0, by rw [Instruction.places, only]; rfl, ?_⟩
    rw [Machine.effect, opcode]
    exact jumped_eq small _
  | @brIf condition rest opcode top enough taken =>
    have only := Instruction.displaced_of_jump decoded (.inr opcode)
    refine ⟨next + inst.signed 0, by rw [Instruction.places, only]; rfl, ?_⟩
    rw [Machine.effect, opcode, ← jumped_discarded top small]
    have nonzero : (condition != 0) = true := by simpa using taken
    simp only [need_one top enough, int32At_top top]
    exact if_pos nonzero
  | @brTable selector rest opcode top enough =>
    refine ⟨_, Instruction.place?_of_table decoded opcode next selector, ?_⟩
    rw [Machine.effect, opcode, ← jumped_discarded top small]
    simp only [need_one top enough, int32At_top top]
    rfl

theorem Chooses.setIp (chooses : m.Chooses inst next place n) (ip : Nat) :
    (m.setIp ip).Chooses inst next place n := by
  cases chooses with
  | br opcode => exact .br opcode
  | brIf opcode top enough taken =>
    exact .brIf opcode (by rw [setIp_stack, top]) (by rwa [setIp_floor]) taken
  | brTable opcode top enough => exact .brTable opcode (by rw [setIp_stack, top]) (by rwa [setIp_floor])

theorem setIp_setIp (m : Machine) (ip ip' : Nat) : (m.setIp ip).setIp ip' = m.setIp ip' := by
  cases frames : m.frames with
  | nil => simp [Machine.setIp, frames]
  | cons frame callers => simp [Machine.setIp, frames]

/-- What a machine at a branch comes to. -/
theorem Chooses.turn_eq {frame : Frame} (chooses : m.Chooses inst (ip + inst.width) place n)
    (first : m.frames.head? = some frame) (runs : frame.function.code = code) (at_ip : frame.ip = ip)
    (decoded : Instruction.decode code ip = .ok inst) (small : code.size ≤ Code.offsetLimit)
    (nested : Exec Unit) :
    ∃ target, place = some target ∧
      (0 ≤ target ∧ target < code.size → Exec.turn nested m = .ok true ((m.dropped n).setIp target.toNat)) ∧
      (target < 0 ∨ (code.size : Int) ≤ target →
        Exec.turn nested m = .error (.fault ⟨.invalidJump, some ip, none⟩) (m.setIp (ip + inst.width))) := by
  subst runs at_ip
  obtain ⟨callers, frames⟩ := List.head?_eq_some_iff.1 first
  have within := Instruction.next_le_size decoded
  have pos := inst.width_pos
  obtain ⟨target, found, effect⟩ := (chooses.setIp (frame.ip + inst.width)).effect decoded small
  have turn := Exec.turn_executed frames (by omega) decoded
    (Exec.execute_branch nested _ _ chooses.branch)
  refine ⟨target, found, fun inside => ?_, fun outside => ?_⟩
  · rw [turn, effect, if_pos inside, dropped_setIp, setIp_setIp]
  · rw [turn, effect, if_neg (by omega)]
    rfl

/-- A branch that the code has room for decodes, and it has one displacement, or if it is a table one for each
case and then one more. The targets that are collected for it are the places to which all these lead, if none
of them lies before the code. A machine that comes to the branch and finds the operand it needs goes to the
place which that operand stands for, if the place lies in the code; if not, it fails because of the jump, and
only its offset has moved on. -/
theorem branch_outcome {code : Code} {ip width : Nat} {opcode : Opcode} (short : code.size < 2 ^ 63)
    (here : code[ip]? = some opcode.byte) (branch : opcode ∈ [.br, .brIf, .brTable])
    (wide : code.widthAt? ip = some width) :
    ∃ inst, Instruction.decode code ip = .ok inst ∧ inst.opcode = opcode ∧
      inst.displaced.length = (if opcode = .brTable then inst.operand 0 + 1 else 1) ∧
      (∀ targets, code.branchTargets ip opcode width = .ok targets ↔
        targets.map (fun t : Nat => (t : Int)) = inst.places (ip + width)) ∧
      ∀ (m : Machine) (frame : Frame) (nested : Exec Unit) (place : Option Int) (n : Nat),
        m.frames.head? = some frame → frame.function.code = code → frame.ip = ip →
        m.Chooses inst (ip + width) place n →
        ∃ target, place = some target ∧
          (0 ≤ target ∧ target < code.size →
            Exec.turn nested m = .ok true ((m.dropped n).setIp target.toNat)) ∧
          (target < 0 ∨ (code.size : Int) ≤ target →
            Exec.turn nested m = .error (.fault ⟨.invalidJump, some ip, none⟩) (m.setIp (ip + width))) := by
  obtain ⟨inst, decoded, same, rfl⟩ := Code.decode_of_widthAt? here wide
  subst same
  have small : code.size ≤ Code.offsetLimit := by
    rw [Code.offsetLimit]
    omega
  refine ⟨inst, decoded, rfl, ?_, fun targets => Code.branchTargets_iff_places short decoded branch, ?_⟩
  · split
    · next table => exact (Instruction.operands_of_table decoded table).2
    · next single =>
      have jump : inst.opcode = .br ∨ inst.opcode = .brIf := by simpa [single] using branch
      rw [Instruction.displaced_of_jump decoded jump]
      rfl
  · intro m frame nested place n first runs at_ip chooses
    exact chooses.turn_eq first runs at_ip decoded small nested

/-- A table of one case, which leads back to the start; the default leads past the end. -/
def fork : Code := Instruction.assemble [⟨.brTable, [1, 0x100000000 - 11, 1]⟩]

/-- A machine that has come to the table with a selector. -/
def forking (selector : BitVec 32) : Machine :=
  let program : Program := ⟨fork, #[], #[]⟩
  { load program {} with stack := [.i32 selector], frames := [entryFrame program 0] }

/-- Zero selects the case. A negative selector has none, and the default lies outside the code. -/
theorem fork_outcome :
    (fork.size < 2 ^ 63 ∧ fork[0]? = some Opcode.brTable.byte ∧ fork.widthAt? 0 = some 11) ∧
      Exec.turn (pure ()) (forking 0) = .ok true (((forking 0).dropped 1).setIp 0) ∧
      Exec.turn (pure ()) (forking (-1)) =
        .error (.fault ⟨.invalidJump, some 0, none⟩) ((forking (-1)).setIp 11) := by
  obtain ⟨short, here, wide, table⟩ :
      fork.size < 2 ^ 63 ∧ fork[0]? = some Opcode.brTable.byte ∧ fork.widthAt? 0 = some 11 ∧
        Instruction.decode fork 0 = .ok ⟨.brTable, [1, 0x100000000 - 11, 1]⟩ := by
    decide +kernel
  obtain ⟨inst, decoded, -, -, -, outcome⟩ := branch_outcome short here (by decide) wide
  cases Except.ok.inj (decoded.symm.trans table)
  have chooses (selector : BitVec 32) :
      (forking selector).Chooses ⟨.brTable, [1, 0x100000000 - 11, 1]⟩ (0 + 11)
        (Instruction.place? ⟨.brTable, [1, 0x100000000 - 11, 1]⟩ (0 + 11) selector) 1 :=
    .brTable rfl rfl (Nat.le_refl 0)
  refine ⟨⟨short, here, wide⟩, ?_, ?_⟩
  · obtain ⟨target, found, goes, -⟩ := outcome (forking 0) _ (pure ()) _ _ rfl rfl rfl (chooses 0)
    have start : target = 0 := Option.some.inj (found.symm.trans (by decide))
    subst start
    exact goes (by decide +kernel)
  · obtain ⟨target, found, -, fails⟩ := outcome (forking (-1)) _ (pure ()) _ _ rfl rfl rfl (chooses (-1))
    have past : target = 12 := Option.some.inj (found.symm.trans (by decide))
    subst past
    exact fails (.inr (by decide +kernel))

end Machine

end StackVM
