import Mathlib.Algebra.BigOperators.Group.List.Basic
import Mathlib.Order.Bounds.Basic
import StackVM.Proofs.Code.Encoding
import StackVM.Proofs.Code.Scan

/-!
# Instruction streams

What code reads as. Main statements: the instructions of code are the normal ones that encode to it, and
where there are none the error says where the longest prefix of whole instructions ends and why
(`instructions_outcome`); instructions that were written are read back in normal form
(`instructions_assemble`).

Both rest on two facts about the scan. It reads normal instructions that stand one after the other, up
to the end or to an offset where none stands (`scanFrom_reads`); and whatever normal instructions stand
at its start, it reads those first (`scanFrom_append`), so that no other way to cut the code exists.
-/

namespace StackVM

/-- The bytes are the encodings of normal instructions, one after the other. -/
def Instruction.Stream (bs : List UInt8) : Prop :=
  ∃ insts : List Instruction, (∀ inst ∈ insts, inst.Normal) ∧ insts.flatMap Instruction.encode = bs

namespace Code

variable {code : Code} {ip : Nat} {inst : Instruction} {insts : List Instruction}

/-! ### The scan -/

theorem scanFrom_ok (inside : ip < code.size) (decoded : Instruction.decode code ip = .ok inst) :
    code.scanFrom ip =
      (⟨ip, inst⟩ :: (code.scanFrom (ip + inst.width)).1, (code.scanFrom (ip + inst.width)).2) := by
  rw [scanFrom, if_pos inside, decoded]

theorem scanFrom_past (outside : code.size ≤ ip) : code.scanFrom ip = ([], none) := by
  rw [scanFrom, if_neg (Nat.not_lt.2 outside)]

/-- The instructions from an offset on. -/
def instsFrom (code : Code) (ip : Nat) : List Instruction := (code.scanFrom ip).1.map Located.inst

/-- A scan reads normal instructions that stand there, one after the other, up to the end of the code
or to an offset where it finds none. -/
theorem scanFrom_reads (code : Code) (ip : Nat) :
    (∀ inst ∈ code.instsFrom ip, inst.Normal) ∧
      (code.instsFrom ip).flatMap Instruction.encode <+: code.toList.drop ip ∧
      ((code.scanFrom ip).2 = none →
        code.size ≤ ip + ((code.instsFrom ip).flatMap Instruction.encode).length) ∧
      ∀ e, (code.scanFrom ip).2 = some e →
        ip + ((code.instsFrom ip).flatMap Instruction.encode).length < code.size ∧
        Instruction.decode code (ip + ((code.instsFrom ip).flatMap Instruction.encode).length) =
          .error e := by
  unfold instsFrom
  fun_induction scanFrom code ip with
  | case1 ip inside e failed => simp [inside, failed]
  | case2 ip inside inst decoded rest failure scanned ih =>
    rw [scanned] at ih
    obtain ⟨normal, starts, finished, stopped⟩ := ih
    obtain ⟨here, first⟩ := Instruction.decode_eq_ok_iff.1 decoded
    simp only [List.map_cons, List.flatMap_cons, List.length_append, Instruction.length_encode,
      ← Nat.add_assoc]
    refine ⟨List.forall_mem_cons.2 ⟨here, normal⟩, ?_, finished, stopped⟩
    rw [append_prefix_iff, Instruction.length_encode, List.drop_drop]
    exact ⟨first, starts⟩
  | case3 ip outside => simpa using outside

/-- Normal instructions that stand at an offset are the first that a scan reads from there. -/
theorem scanFrom_append (normal : ∀ inst ∈ insts, inst.Normal)
    (starts : insts.flatMap Instruction.encode <+: code.toList.drop ip) :
    code.instsFrom ip =
        insts ++ code.instsFrom (ip + (insts.flatMap Instruction.encode).length) ∧
      (code.scanFrom ip).2 = (code.scanFrom (ip + (insts.flatMap Instruction.encode).length)).2 := by
  induction insts generalizing ip with
  | nil => exact ⟨rfl, rfl⟩
  | cons inst insts ih =>
    obtain ⟨here, normal⟩ := List.forall_mem_cons.1 normal
    rw [List.flatMap_cons, append_prefix_iff, Instruction.length_encode, List.drop_drop] at starts
    obtain ⟨first, starts⟩ := starts
    have decoded := Instruction.decode_eq_ok_iff.2 ⟨here, first⟩
    have inside : ip < code.size := by
      have within := Instruction.next_le_size decoded
      have pos := inst.width_pos
      omega
    obtain ⟨others, ends⟩ := ih normal starts
    rw [List.flatMap_cons, List.length_append, Instruction.length_encode, ← Nat.add_assoc]
    rw [instsFrom, scanFrom_ok inside decoded]
    exact ⟨congrArg (inst :: ·) others, ends⟩

/-! ### Streams -/

/-- Code consists of these instructions exactly if they are normal and encode to it. -/
theorem instructions_eq_ok_iff :
    code.instructions = .ok insts ↔
      Instruction.assemble insts = code ∧ ∀ inst ∈ insts, inst.Normal := by
  constructor
  · intro read
    obtain ⟨normal, starts, finished, -⟩ := scanFrom_reads code 0
    unfold instsFrom at normal starts finished
    rw [instructions_eq] at read
    split at read
    · next located scanned =>
      cases read
      rw [scan] at scanned
      rw [scanned, List.drop_zero] at starts
      rw [scanned] at normal finished
      have whole := starts.eq_of_length_le (by simpa using finished rfl)
      exact ⟨by rw [Instruction.assemble, whole], normal⟩
    · cases read
  · rintro ⟨rfl, normal⟩
    have starts : insts.flatMap Instruction.encode <+: (Instruction.assemble insts).toList.drop 0 := by
      simp [Instruction.assemble]
    obtain ⟨all, ends⟩ := scanFrom_append normal starts
    have past : (Instruction.assemble insts).size ≤
        0 + (insts.flatMap Instruction.encode).length := by
      simp [Instruction.assemble]
    rw [scanFrom_past past] at ends
    rw [instsFrom, instsFrom, scanFrom_past past, List.map_nil, List.append_nil] at all
    rw [instructions_eq, scan]
    cases scanned : (Instruction.assemble insts).scanFrom 0 with
    | mk located failure =>
      rw [scanned] at all ends
      cases ends
      exact congrArg Except.ok all

/-- The end of the longest prefix of the code that consists of whole instructions. -/
def StreamEnd (code : Code) (n : Nat) : Prop :=
  IsGreatest {n | n ≤ code.size ∧ Instruction.Stream (code.toList.take n)} n

/-- A scan stops at the end of the longest prefix. -/
theorem streamEnd_scan (code : Code) :
    code.StreamEnd ((code.instsFrom 0).flatMap Instruction.encode).length := by
  obtain ⟨normal, starts, -, -⟩ := scanFrom_reads code 0
  rw [List.drop_zero] at starts
  refine ⟨⟨by simpa using starts.length_le, code.instsFrom 0, normal, List.prefix_iff_eq_take.1 starts⟩, ?_⟩
  rintro m ⟨inside, insts, fit, same⟩
  -- what makes up another prefix is read first
  have others : insts.flatMap Instruction.encode <+: code.toList.drop 0 := by
    rw [same]
    exact List.take_prefix m code.toList
  have read := (scanFrom_append fit others).1
  rw [read, List.flatMap_append, List.length_append, same, List.length_take, Array.length_toList]
  omega

theorem streamEnd_unique {m n : Nat} (here : code.StreamEnd m) (there : code.StreamEnd n) : m = n :=
  IsGreatest.unique here there

/-- Why no whole instruction starts at an offset: its byte is unassigned, or the code stops too early. -/
inductive Undecoded (code : Code) (n : Nat) : Cause → Prop where
  | unassigned {byte : UInt8} (here : code[n]? = some byte) (unknown : Opcode.ofByte? byte = none) :
    Undecoded code n .unknownOpcode
  | cutShort (inside : n < code.size) (short : Instruction.CutShort (code.toList.drop n)) :
    Undecoded code n .segmentationFault

/-- The two reasons exclude each other. -/
theorem Undecoded.unique {n : Nat} {c c' : Cause} (one : code.Undecoded n c) (two : code.Undecoded n c') :
    c = c' := by
  have apart {byte : UInt8} (here : code[n]? = some byte) (unknown : Opcode.ofByte? byte = none) :
      ¬ Instruction.CutShort (code.toList.drop n) := by
    rintro ⟨inst, -, starts, -⟩
    rw [drop_eq_cons here, Instruction.encode, List.cons_prefix_cons] at starts
    rw [starts.1, Opcode.ofByte?_eq_some_iff.2 rfl] at unknown
    cases unknown
  cases one with
  | unassigned here unknown =>
    cases two with
    | unassigned => rfl
    | cutShort _ short => exact absurd short (apart here unknown)
  | cutShort _ short =>
    cases two with
    | unassigned here unknown => exact absurd short (apart here unknown)
    | cutShort => rfl

theorem Undecoded.lt_size {n : Nat} {c : Cause} (undecoded : code.Undecoded n c) : n < code.size := by
  cases undecoded with
  | unassigned here unknown => exact (Array.getElem?_eq_some_iff.1 here).1
  | cutShort inside short => exact inside

theorem undecoded_of_error {e : Error} (failed : code.instructions = .error e) :
    ∃ n c, code.StreamEnd n ∧ code.Undecoded n c ∧ e = ⟨c, some n, none⟩ := by
  obtain ⟨-, -, -, stopped⟩ := scanFrom_reads code 0
  rw [instructions_eq, scan] at failed
  split at failed
  · cases failed
  · next located _ scanned =>
    cases failed
    obtain ⟨inside, failed⟩ := stopped e (by rw [scanned])
    rw [Nat.zero_add] at inside failed
    obtain ⟨byte, here, ⟨unknown, rfl⟩ | ⟨short, rfl⟩⟩ := Instruction.decode_eq_error inside failed
    · exact ⟨_, _, streamEnd_scan code, .unassigned here unknown, rfl⟩
    · exact ⟨_, _, streamEnd_scan code, .cutShort inside short, rfl⟩

theorem stream_iff : (∃ insts, code.instructions = .ok insts) ↔ Instruction.Stream code.toList := by
  constructor
  · rintro ⟨insts, read⟩
    obtain ⟨same, normal⟩ := instructions_eq_ok_iff.1 read
    exact ⟨insts, normal, by rw [← same, Instruction.assemble]⟩
  · rintro ⟨insts, normal, same⟩
    exact ⟨insts, instructions_eq_ok_iff.2 ⟨by rw [Instruction.assemble, same], normal⟩⟩

/-- Where the code stops being a stream, reading it fails, for the reason that is found there. -/
theorem instructions_eq_error_iff {e : Error} :
    code.instructions = .error e ↔
      ∃ n c, code.StreamEnd n ∧ code.Undecoded n c ∧ e = ⟨c, some n, none⟩ := by
  constructor
  · exact undecoded_of_error
  · rintro ⟨n, c, ends, undecoded, rfl⟩
    cases read : code.instructions with
    | ok insts =>
      -- a stream ends with the code, where there is nothing left to decode
      have all : code.toList.take code.size = code.toList := List.take_length
      have stream := stream_iff.1 ⟨insts, read⟩
      rw [← all] at stream
      exact absurd undecoded.lt_size (Nat.not_lt.2 (ends.2 ⟨Nat.le_refl _, stream⟩))
    | error e =>
      obtain ⟨n', c', ends', undecoded', rfl⟩ := undecoded_of_error read
      cases streamEnd_unique ends ends'
      cases undecoded.unique undecoded'
      rfl

/-- Reading code undoes writing it and writes back what it reads. The instructions of code are the
normal ones that encode to it; there are such exactly if it is a stream; otherwise the error names the
end of the longest prefix of whole instructions, and whether the byte there is unassigned or the
instruction there is cut short. -/
theorem instructions_outcome (code : Code) :
    (∀ insts, code.instructions = .ok insts ↔
      Instruction.assemble insts = code ∧ ∀ inst ∈ insts, inst.Normal) ∧
    ((∃ insts, code.instructions = .ok insts) ↔ Instruction.Stream code.toList) ∧
    ∀ e, code.instructions = .error e ↔
      ∃ n c, code.StreamEnd n ∧ code.Undecoded n c ∧ e = ⟨c, some n, none⟩ :=
  ⟨fun _ => instructions_eq_ok_iff, stream_iff, fun _ => instructions_eq_error_iff⟩

/-! ### Writing and reading -/

theorem assemble_normalize (counted : ∀ inst ∈ insts, inst.Counted) :
    Instruction.assemble (insts.map Instruction.normalize) = Instruction.assemble insts := by
  unfold Instruction.assemble
  rw [List.flatMap_map]
  have same : ∀ inst ∈ insts, inst.normalize.encode = inst.encode :=
    fun inst mem => Instruction.encode_normalize (counted inst mem)
  rw [List.flatMap_congr same]

theorem size_assemble (insts : List Instruction) :
    (Instruction.assemble insts).size = (insts.map Instruction.width).sum := by
  have widths : insts.map (fun inst => inst.encode.length) = insts.map Instruction.width :=
    List.map_congr_left fun inst _ => inst.length_encode
  rw [Instruction.assemble, List.size_toArray, List.length_flatMap, widths]

/-- Reading back what was written gives the instructions in normal form, and writes as many bytes as
they are wide. A branch table gets an operand for its count, for each case and for all other selectors.
The normal instructions are those that keep their operands. -/
theorem instructions_assemble
    (counted : ∀ inst ∈ insts, inst.opcode = .brTable → inst.operand 0 < 65536) :
    (Instruction.assemble insts).instructions = .ok (insts.map Instruction.normalize) ∧
      (Instruction.assemble insts).size = (insts.map Instruction.width).sum ∧
      (∀ inst ∈ insts, inst.opcode = .brTable →
        inst.normalize.operands.length = inst.operand 0 + 2) ∧
      ∀ inst : Instruction, inst.normalize = inst ↔ inst.Normal := by
  refine ⟨instructions_eq_ok_iff.2 ⟨assemble_normalize counted, ?_⟩, size_assemble insts, ?_,
    fun _ => Instruction.normalize_eq_iff⟩
  · intro inst mem
    obtain ⟨written, known, rfl⟩ := List.mem_map.1 mem
    exact Instruction.normal_normalize (counted written known)
  · intro inst _ table
    simp [Instruction.normalize, Instruction.widths, Instruction.fieldWidths, table]

/-- Operands that are missing, too many or too wide. -/
def unruly : List Instruction :=
  [⟨.const .i32, []⟩, ⟨.brTable, [1, 0x100000005, 7, 9]⟩, ⟨.nop, [3]⟩, ⟨.localGet, [0x10002]⟩]

theorem unruly_instructions :
    (∀ inst ∈ unruly, inst.opcode = .brTable → inst.operand 0 < 65536) ∧
      (Instruction.assemble unruly).instructions =
        .ok [⟨.const .i32, [0]⟩, ⟨.brTable, [1, 5, 7]⟩, ⟨.nop, []⟩, ⟨.localGet, [2]⟩] ∧
      (Instruction.assemble unruly).size = 20 := by
  have counted : ∀ inst ∈ unruly, inst.opcode = .brTable → inst.operand 0 < 65536 := by decide
  obtain ⟨read, size, -, -⟩ := instructions_assemble counted
  have normal : unruly.map Instruction.normalize =
      [⟨.const .i32, [0]⟩, ⟨.brTable, [1, 5, 7]⟩, ⟨.nop, []⟩, ⟨.localGet, [2]⟩] := by decide
  have widths : (unruly.map Instruction.width).sum = 20 := by decide
  exact ⟨counted, normal ▸ read, size.trans widths⟩

end Code

end StackVM
