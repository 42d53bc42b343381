import Mathlib.Data.List.Forall2
import Mathlib.Data.List.Nodup
import StackVM.Bytes.Range
import StackVM.Code

/-!
# The encoding of an instruction

An instruction is read exactly where its bytes stand. Main statements: every opcode has one byte and
every assigned byte one opcode (`ofByte?_eq_some_iff`), decoding finds exactly the normal instruction
whose encoding stands at the offset (`decode_eq_ok_iff`), encoding keeps of an instruction its normal
form (`encode_normalize`), and where no instruction is found the byte is unassigned or the code stops
before the instruction does (`decode_eq_error`).
-/

namespace StackVM

/-! ### Opcode bytes -/

@[simp]
theorem IntTest.mem_all (t : IntTest) : t ∈ IntTest.all := by cases t <;> decide

@[simp]
theorem IntBinary.mem_all (op : IntBinary) : op ∈ IntBinary.all := by cases op <;> decide

@[simp]
theorem FloatTest.mem_all (t : FloatTest) : t ∈ FloatTest.all := by cases t <;> decide

@[simp]
theorem FloatBinary.mem_all (op : FloatBinary) : op ∈ FloatBinary.all := by cases op <;> decide

namespace Opcode

variable {op : Opcode} {b : UInt8}

/-- The bytes of the table grow, so that none is assigned twice. -/
theorem sorted_bytes : (assigned.map Prod.fst).IsChain (· < ·) := by decide +kernel

/-- No opcode has two bytes. -/
theorem distinct_opcodes : (assigned.map Prod.snd).Nodup := by decide +kernel

theorem assigned_lt : ∀ entry ∈ assigned, entry.1 < 256 := by decide +kernel

theorem mem_all_of_group {i : Nat} (inside : i < groups.length) (mem : op ∈ groups[i].2) : op ∈ all := by
  obtain ⟨j, place, rfl⟩ := List.getElem_of_mem mem
  refine List.mem_map.2 ⟨(groups[i].1 + j, groups[i].2[j]), ?_, rfl⟩
  refine List.mem_flatMap.2 ⟨groups[i], List.getElem_mem inside, ?_⟩
  refine List.mem_map.2 ⟨(groups[i].2[j], groups[i].1 + j), ?_, rfl⟩
  rw [List.mk_mem_zipIdx_iff_le_and_getElem?_sub]
  simp

/-- Every opcode has a byte. -/
theorem mem_all (op : Opcode) : op ∈ all := by
  have control : ∀ op ∈ control, op ∈ all := fun _ mem => mem_all_of_group (i := 0) (by decide) mem
  have int32 : ∀ op ∈ intGroup .w32 i32Conversions, op ∈ all :=
    fun _ mem => mem_all_of_group (i := 1) (by decide) mem
  have int64 : ∀ op ∈ intGroup .w64 i64Conversions, op ∈ all :=
    fun _ mem => mem_all_of_group (i := 2) (by decide) mem
  have float32 : ∀ op ∈ floatGroup .w32 (floatToInts .w32 ++ [.promote]), op ∈ all :=
    fun _ mem => mem_all_of_group (i := 3) (by decide) mem
  have float64 : ∀ op ∈ floatGroup .w64 (floatToInts .w64 ++ [.demote]), op ∈ all :=
    fun _ mem => mem_all_of_group (i := 4) (by decide) mem
  cases op with
  | const s =>
    cases s with
    | i32 => exact int32 _ List.mem_cons_self
    | i64 => exact int64 _ List.mem_cons_self
    | f32 => exact float32 _ List.mem_cons_self
    | f64 => exact float64 _ List.mem_cons_self
  | operation op =>
    cases op with
    | refIsNull | refEq | refNe => exact control _ (by decide)
    | intEqz w | intTest w _ | intBinary w _ =>
      cases w with
      | w32 => exact int32 _ (by simp [intGroup])
      | w64 => exact int64 _ (by simp [intGroup])
    | floatTest w _ | floatBinary w _ =>
      cases w with
      | w32 => exact float32 _ (by simp [floatGroup])
      | w64 => exact float64 _ (by simp [floatGroup])
    | convert c =>
      cases c with
      | extend sign => exact int32 _ (by cases sign <;> decide)
      | wrap => exact int64 _ (by decide)
      | promote => exact float32 _ (by decide)
      | demote => exact float64 _ (by decide)
      | intToFloat source target sign =>
        cases source with
        | w32 => exact int32 _ (by cases target <;> cases sign <;> simp [intGroup, i32Conversions])
        | w64 => exact int64 _ (by cases target <;> cases sign <;> simp [intGroup, i64Conversions])
      | floatToInt source target sign =>
        cases source with
        | w32 => exact float32 _ (by cases target <;> cases sign <;> simp [floatGroup, floatToInts])
        | w64 => exact float64 _ (by cases target <;> cases sign <;> simp [floatGroup, floatToInts])
  | stringLen | stringConcat | stringEq | stringNe => exact mem_all_of_group (i := 5) (by decide) (by decide)
  | arrayNew | arrayNewDefault | arrayLen | arrayGet | arraySet =>
    exact mem_all_of_group (i := 6) (by decide) (by decide)
  | structNew | structNewDefault | structGet | structSet =>
    exact mem_all_of_group (i := 7) (by decide) (by decide)
  | _ => exact control _ (by decide)

/-- The table assigns the byte of an opcode to it. -/
theorem mem_assigned (op : Opcode) : (op.byteNat, op) ∈ assigned := by
  obtain ⟨entry, mem, rfl⟩ := List.mem_map.1 (mem_all op)
  cases found : assigned.find? fun e => e.2 == entry.2 with
  | none =>
    have missing := List.find?_eq_none.1 found entry mem
    simp at missing
  | some first =>
    have same : first.2 = entry.2 := by simpa using List.find?_some found
    have byte : byteNat entry.2 = first.1 := by rw [byteNat, found]; rfl
    rw [byte, ← same]
    exact List.mem_of_find?_eq_some found

theorem byteNat_of_mem {n : Nat} (mem : (n, op) ∈ assigned) : op.byteNat = n := by
  have same := List.inj_on_of_nodup_map distinct_opcodes (mem_assigned op) mem rfl
  exact congrArg Prod.fst same

theorem find?_assigned {n : Nat} :
    (assigned.find? fun entry => entry.1 == n).map Prod.snd = some op ↔ (n, op) ∈ assigned := by
  constructor
  · intro known
    obtain ⟨entry, found, rfl⟩ := Option.map_eq_some_iff.1 known
    have same : entry.1 = n := by simpa using List.find?_some found
    rw [← same]
    exact List.mem_of_find?_eq_some found
  · intro mem
    cases found : assigned.find? fun entry => entry.1 == n with
    | none =>
      have missing := List.find?_eq_none.1 found _ mem
      simp at missing
    | some first =>
      have same : first.1 = n := by simpa using List.find?_some found
      have distinct : (assigned.map Prod.fst).Nodup :=
        (List.isChain_iff_pairwise.1 sorted_bytes).imp Nat.ne_of_lt
      have first_eq := List.inj_on_of_nodup_map distinct (List.mem_of_find?_eq_some found) mem same
      rw [first_eq]
      rfl

theorem toNat_byte (op : Opcode) : op.byte.toNat = op.byteNat := by
  have small := assigned_lt _ (mem_assigned op)
  simp [byte, Nat.mod_eq_of_lt small]

/-- A byte is read as the opcode that is written with it. -/
theorem ofByte?_eq_some_iff : ofByte? b = some op ↔ op.byte = b := by
  have read : ofByte? b = (assigned.find? fun entry => entry.1 == b.toNat).map Prod.snd := by
    have inside : b.toNat < byByte.size := by simpa [byByte] using b.toNat_lt
    rw [ofByte?, Array.getElem?_eq_getElem inside]
    simp [byByte]
  rw [read, find?_assigned]
  constructor
  · intro mem
    apply UInt8.toNat.inj
    rw [toNat_byte, byteNat_of_mem mem]
  · rintro rfl
    rw [toNat_byte]
    exact mem_assigned op

end Opcode

/-! ### Fields -/

namespace Bytes

/-- Of a number only what fits into the bytes is written. -/
theorem ofNat_mod (width n : Nat) : ofNat width (n % 256 ^ width) = ofNat width n := by
  have back := ofNat_toNat (ofNat width n)
  rwa [length_ofNat, toNat_ofNat] at back

end Bytes

theorem append_prefix_iff {α : Type} {as bs cs : List α} :
    as ++ bs <+: cs ↔ as <+: cs ∧ bs <+: cs.drop as.length := by
  constructor
  · rintro ⟨rest, rfl⟩
    simp
  · rintro ⟨⟨rest, rfl⟩, more⟩
    rw [List.drop_left] at more
    exact (List.prefix_append_right_inj as).2 more

namespace Code

variable {code : Code} {ip start width n : Nat} {b : UInt8} {widths operands : List Nat}

theorem drop_eq_cons (here : code[ip]? = some b) :
    code.toList.drop ip = b :: code.toList.drop (ip + 1) := by
  obtain ⟨inside, rfl⟩ := Array.getElem?_eq_some_iff.1 here
  exact List.drop_eq_getElem_cons inside

theorem getElem?_of_prefix {bs : List UInt8} (starts : b :: bs <+: code.toList.drop ip) :
    code[ip]? = some b ∧ bs <+: code.toList.drop (ip + 1) := by
  obtain ⟨rest, eq⟩ := starts
  have here : code[ip]? = some b := by
    have first : (code.toList.drop ip)[0]? = some b := by rw [← eq]; rfl
    simpa using first
  rw [drop_eq_cons here, List.cons_append, List.cons.injEq] at eq
  exact ⟨here, rest, eq.2⟩

/-- A number is read where its bytes stand. -/
theorem read?_eq_some_iff :
    code.read? start width = some n ↔
      n < 256 ^ width ∧ Bytes.ofNat width n <+: code.toList.drop start := by
  induction width generalizing start n with
  | zero =>
    simp only [read?, Option.some.injEq, Nat.pow_zero, Nat.lt_one_iff, Bytes.ofNat, List.nil_prefix,
      and_true]
    exact eq_comm
  | succ width ih =>
    unfold read?
    rw [Bytes.ofNat, Nat.pow_succ]
    constructor
    · intro read
      split at read
      · next low high first rest =>
        cases read
        obtain ⟨small, starts⟩ := ih.1 rest
        have byte := low.toNat_lt
        have back : UInt8.ofNat (low.toNat + 256 * high) = low := by
          apply UInt8.toNat.inj
          simp only [UInt8.toNat_ofNat']
          omega
        have others : (low.toNat + 256 * high) / 256 = high := by omega
        rw [drop_eq_cons first, back, others]
        exact ⟨by omega, List.cons_prefix_cons.2 ⟨rfl, starts⟩⟩
      · cases read
    · rintro ⟨small, starts⟩
      obtain ⟨first, starts⟩ := getElem?_of_prefix starts
      rw [first, ih.2 ⟨by omega, starts⟩]
      simp only [UInt8.toNat_ofNat', Option.some.injEq]
      omega

/-- Fields are read where they stand. -/
theorem fields?_eq_some_iff :
    code.fields? start widths = some operands ↔
      List.Forall₂ (fun width operand => operand < 256 ^ width) widths operands ∧
        Instruction.encodeFields widths operands <+: code.toList.drop start := by
  induction widths generalizing start operands with
  | nil =>
    simp only [fields?, Option.some.injEq, List.forall₂_nil_left_iff, Instruction.encodeFields,
      List.nil_prefix, and_true]
    exact eq_comm
  | cons width widths ih =>
    constructor
    · intro read
      obtain ⟨first, one, read⟩ := Option.bind_eq_some_iff.1 read
      obtain ⟨others, rest, read⟩ := Option.bind_eq_some_iff.1 read
      cases read
      obtain ⟨small, starts⟩ := read?_eq_some_iff.1 one
      obtain ⟨fit, more⟩ := ih.1 rest
      refine ⟨.cons small fit, append_prefix_iff.2 ⟨starts, ?_⟩⟩
      rwa [Bytes.length_ofNat, List.drop_drop]
    · rintro ⟨fit, starts⟩
      cases fit with
      | cons small fit =>
        obtain ⟨one, rest⟩ := append_prefix_iff.1 starts
        rw [Bytes.length_ofNat, List.drop_drop] at rest
        unfold fields?
        rw [read?_eq_some_iff.2 ⟨small, one⟩, Option.bind_eq_bind, Option.bind_some, ih.2 ⟨fit, rest⟩]
        rfl

/-- The first of the fields is the number that stands there. -/
theorem read?_of_fields? (read : code.fields? start (width :: widths) = some operands) :
    code.read? start width = some (operands[0]?.getD 0) := by
  obtain ⟨first, one, read⟩ := Option.bind_eq_some_iff.1 read
  obtain ⟨others, -, read⟩ := Option.bind_eq_some_iff.1 read
  cases read
  exact one

theorem read?_of_enough (code : Code) (start width : Nat) (enough : start + width ≤ code.size) :
    ∃ n, code.read? start width = some n := by
  induction width generalizing start with
  | zero => exact ⟨0, rfl⟩
  | succ width ih =>
    obtain ⟨high, rest⟩ := ih (start + 1) (by omega)
    unfold read?
    rw [Array.getElem?_eq_getElem (by omega), rest]
    exact ⟨_, rfl⟩

/-- Fields can be read if the code is long enough for them. -/
theorem fields?_of_enough (code : Code) (start : Nat) (widths : List Nat)
    (enough : start + widths.foldr (· + ·) 0 ≤ code.size) :
    ∃ operands, code.fields? start widths = some operands := by
  induction widths generalizing start with
  | nil => exact ⟨[], rfl⟩
  | cons width widths ih =>
    rw [List.foldr_cons] at enough
    obtain ⟨first, one⟩ := read?_of_enough code start width (by omega)
    obtain ⟨others, rest⟩ := ih (start + width) (by omega)
    refine ⟨first :: others, ?_⟩
    unfold fields?
    rw [one, Option.bind_eq_bind, Option.bind_some, rest]
    rfl

end Code

/-! ### Instructions -/

namespace Instruction

variable {code : Code} {ip : Nat} {inst : Instruction}

/-- The instruction has as many operands as its opcode asks for, and each of them fits its field. -/
def Normal (inst : Instruction) : Prop :=
  List.Forall₂ (fun width operand => operand < 256 ^ width) inst.widths inst.operands

/-- The instruction as its encoding keeps it: a missing operand is zero, a surplus one is left out, and
of each operand only what fits its field is left. -/
def normalize (inst : Instruction) : Instruction :=
  { inst with operands := inst.widths.mapIdx fun i width => inst.operand i % 256 ^ width }

theorem length_encodeFields (widths operands : List Nat) :
    (encodeFields widths operands).length = widths.foldr (· + ·) 0 := by
  induction widths generalizing operands with
  | nil => rfl
  | cons width widths ih => simp [encodeFields, ih]

@[simp]
theorem length_encode (inst : Instruction) : inst.encode.length = inst.width := by
  rw [encode, List.length_cons, length_encodeFields, width, Nat.add_comm]

/-- The number of cases of the branch table at an offset; for other opcodes zero. -/
def casesAt (code : Code) (ip : Nat) (opcode : Opcode) : Nat :=
  if opcode = .brTable then (code.read? (ip + 1) 2).getD 0 else 0

/-- At an offset within the code, decoding asks for the opcode and then for its fields. -/
theorem decode_byte {byte : UInt8} (here : code[ip]? = some byte) :
    decode code ip =
      (Opcode.ofByte? byte).elim (.error ⟨.unknownOpcode, some ip, none⟩) fun opcode =>
        (code.fields? (ip + 1) (fieldWidths opcode (casesAt code ip opcode))).elim
          (.error ⟨.segmentationFault, some ip, none⟩) fun operands => .ok ⟨opcode, operands⟩ := by
  unfold decode
  rw [here]
  cases known : Opcode.ofByte? byte with
  | none => simp only [known]; rfl
  | some opcode =>
    simp only [known, Option.elim_some, casesAt]
    split
    · next missing => rw [missing]; rfl
    · next operands read => rw [read]; rfl

theorem decode_unknown {byte : UInt8} (here : code[ip]? = some byte)
    (unknown : Opcode.ofByte? byte = none) :
    decode code ip = .error ⟨.unknownOpcode, some ip, none⟩ := by
  rw [decode_byte here, unknown, Option.elim_none]

theorem decode_known {opcode : Opcode} (here : code[ip]? = some opcode.byte) :
    decode code ip =
      ((code.fields? (ip + 1) (fieldWidths opcode (casesAt code ip opcode))).elim
        (.error ⟨.segmentationFault, some ip, none⟩) fun operands => .ok ⟨opcode, operands⟩) := by
  rw [decode_byte here, Opcode.ofByte?_eq_some_iff.2 rfl, Option.elim_some]

/-- Decoding takes the widths of the fields from the first two bytes after the opcode. -/
theorem widths_of_fields (inst : Instruction) {first : Nat}
    (read : code.fields? (ip + 1) (fieldWidths inst.opcode first) = some inst.operands) :
    fieldWidths inst.opcode (casesAt code ip inst.opcode) = inst.widths := by
  obtain ⟨opcode, operands⟩ := inst
  cases opcode with
  | brTable =>
    rw [casesAt, if_pos rfl, Code.read?_of_fields? read]
    rfl
  | _ => rfl

/-- Decoding finds exactly the normal instruction whose encoding stands at the offset. -/
theorem decode_eq_ok_iff :
    decode code ip = .ok inst ↔ inst.Normal ∧ inst.encode <+: code.toList.drop ip := by
  constructor
  · intro decoded
    cases here : code[ip]? with
    | none => simp [decode, here] at decoded
    | some byte =>
      cases known : Opcode.ofByte? byte with
      | none =>
        rw [decode_unknown here known] at decoded
        cases decoded
      | some opcode =>
        rw [← Opcode.ofByte?_eq_some_iff.1 known] at here
        rw [decode_known here] at decoded
        cases read : code.fields? (ip + 1) (fieldWidths opcode (casesAt code ip opcode)) with
        | none =>
          rw [read] at decoded
          cases decoded
        | some operands =>
          rw [read] at decoded
          cases decoded
          rw [widths_of_fields ⟨opcode, operands⟩ read] at read
          obtain ⟨normal, starts⟩ := Code.fields?_eq_some_iff.1 read
          rw [encode, Code.drop_eq_cons here]
          exact ⟨normal, List.cons_prefix_cons.2 ⟨rfl, starts⟩⟩
  · rintro ⟨normal, starts⟩
    obtain ⟨here, starts⟩ := Code.getElem?_of_prefix starts
    have read := Code.fields?_eq_some_iff.2 ⟨normal, starts⟩
    rw [decode_known here, widths_of_fields inst read, read]
    rfl

/-- An instruction that decodes lies in the code as a whole. -/
theorem next_le_size (decoded : decode code ip = .ok inst) : ip + inst.width ≤ code.size := by
  have long := (decode_eq_ok_iff.1 decoded).2.length_le
  have pos := inst.width_pos
  rw [length_encode, List.length_drop, Array.length_toList] at long
  omega

/-- The operands of an instruction that decodes are the fields after its opcode. -/
theorem fields_of_decode (decoded : decode code ip = .ok inst) :
    code.fields? (ip + 1) inst.widths = some inst.operands := by
  obtain ⟨normal, starts⟩ := decode_eq_ok_iff.1 decoded
  exact Code.fields?_eq_some_iff.2 ⟨normal, (Code.getElem?_of_prefix starts).2⟩

/-! ### Normal instructions -/

section Fitted

variable (widths operands : List Nat)

theorem fitted_cons (width : Nat) :
    ((width :: widths).mapIdx fun i width => operands[i]?.getD 0 % 256 ^ width) =
      operands.headD 0 % 256 ^ width ::
        widths.mapIdx fun i width => operands.tail[i]?.getD 0 % 256 ^ width := by
  simp [List.mapIdx_cons, List.headD_eq_head?_getD, List.head?_eq_getElem?]

theorem forall₂_fitted :
    List.Forall₂ (fun width operand => operand < 256 ^ width) widths
      (widths.mapIdx fun i width => operands[i]?.getD 0 % 256 ^ width) := by
  induction widths generalizing operands with
  | nil => exact .nil
  | cons width widths ih =>
    rw [fitted_cons]
    exact .cons (Nat.mod_lt _ (Nat.pow_pos (by decide))) (ih operands.tail)

theorem encodeFields_fitted :
    encodeFields widths (widths.mapIdx fun i width => operands[i]?.getD 0 % 256 ^ width) =
      encodeFields widths operands := by
  induction widths generalizing operands with
  | nil => rfl
  | cons width widths ih =>
    rw [fitted_cons, encodeFields, encodeFields, List.tail_cons, List.headD_cons, Bytes.ofNat_mod,
      ih operands.tail]

theorem fitted_eq (fit : List.Forall₂ (fun width operand => operand < 256 ^ width) widths operands) :
    (widths.mapIdx fun i width => operands[i]?.getD 0 % 256 ^ width) = operands := by
  induction fit with
  | nil => rfl
  | cons small fit ih => rw [fitted_cons, List.headD_cons, List.tail_cons, ih, Nat.mod_eq_of_lt small]

end Fitted

/-- The normal instructions are those that encoding keeps as they are. -/
theorem normalize_eq_iff : inst.normalize = inst ↔ inst.Normal := by
  constructor
  · intro same
    have fit := forall₂_fitted inst.widths inst.operands
    rwa [show (inst.widths.mapIdx fun i width => inst.operands[i]?.getD 0 % 256 ^ width) = inst.operands
      from congrArg operands same] at fit
  · intro normal
    exact congrArg (Instruction.mk inst.opcode) (fitted_eq inst.widths inst.operands normal)

/-- The number of cases fits its field, if the instruction is a branch table. -/
def Counted (inst : Instruction) : Prop := inst.opcode = .brTable → inst.operand 0 < 65536

theorem widths_normalize (counted : inst.Counted) : inst.normalize.widths = inst.widths := by
  obtain ⟨opcode, operands⟩ := inst
  cases opcode with
  | brTable =>
    -- the number of cases is the first operand, and stays what it is
    have first : (normalize ⟨.brTable, operands⟩).operand 0 = operands[0]?.getD 0 % 256 ^ 2 := by
      rw [operand, normalize, widths, fieldWidths, List.getElem?_mapIdx]
      rfl
    have small : operands[0]?.getD 0 < 256 ^ 2 := counted rfl
    rw [Nat.mod_eq_of_lt small] at first
    rw [widths, widths, first]
    rfl
  | _ => rfl

theorem normal_normalize (counted : inst.Counted) : inst.normalize.Normal := by
  rw [Normal, widths_normalize counted]
  exact forall₂_fitted inst.widths inst.operands

theorem encode_normalize (counted : inst.Counted) : inst.normalize.encode = inst.encode := by
  rw [encode, encode, widths_normalize counted]
  exact congrArg _ (encodeFields_fitted inst.widths inst.operands)

/-! ### Instructions that do not decode -/

theorem total_fieldWidths_le (opcode : Opcode) (first : Nat) :
    (fieldWidths opcode first).foldr (· + ·) 0 ≤ 8 + 4 * first := by
  have table (n : Nat) : (List.replicate n 4).foldr (· + ·) 0 = 4 * n := by
    induction n with
    | zero => rfl
    | succ n ih => rw [List.replicate_succ, List.foldr_cons, ih]; omega
  have fixed : opcode.widths.foldr (· + ·) 0 ≤ 8 := by
    cases opcode with
    | const s => cases s <;> decide
    | operation op => exact Nat.zero_le _
    | _ => decide
  cases opcode with
  | brTable =>
    rw [fieldWidths, List.foldr_cons, table]
    omega
  | _ => exact Nat.le_add_right_of_le fixed

/-- With an opcode first and enough bytes after it there is an instruction. -/
theorem decode_of_enough {opcode : Opcode} (here : code[ip]? = some opcode.byte)
    (enough : ip + 9 + 4 * 256 ^ 2 ≤ code.size) : ∃ inst, decode code ip = .ok inst := by
  have count : casesAt code ip opcode < 256 ^ 2 := by
    unfold casesAt
    split
    · obtain ⟨n, read⟩ := Code.read?_of_enough code (ip + 1) 2 (by omega)
      rw [read]
      exact (Code.read?_eq_some_iff.1 read).1
    · decide
  have total := total_fieldWidths_le opcode (casesAt code ip opcode)
  obtain ⟨operands, read⟩ := Code.fields?_of_enough code (ip + 1)
    (fieldWidths opcode (casesAt code ip opcode)) (by omega)
  rw [decode_known here, read]
  exact ⟨_, rfl⟩

/-- The bytes are the beginning of an instruction, but not the whole of it. -/
def CutShort (bs : List UInt8) : Prop :=
  ∃ inst : Instruction, inst.Normal ∧ bs <+: inst.encode ∧ bs ≠ inst.encode

theorem cutShort_of_undecoded {opcode : Opcode} (here : code[ip]? = some opcode.byte)
    (undecoded : ∀ inst, decode code ip ≠ .ok inst) : CutShort (code.toList.drop ip) := by
  -- followed by enough zeros, the bytes begin with an instruction
  let bytes := code.toList.drop ip
  obtain ⟨zeros, many⟩ : ∃ zeros, 9 + 4 * 256 ^ 2 ≤ zeros := ⟨_, Nat.le_refl _⟩
  let padded : Code := (bytes ++ List.replicate zeros 0).toArray
  have first : padded[0]? = some opcode.byte := by
    simp [padded, bytes, Code.drop_eq_cons here]
  have enough : 0 + 9 + 4 * 256 ^ 2 ≤ padded.size := by
    rw [List.size_toArray, List.length_append, List.length_replicate]
    omega
  obtain ⟨inst, decoded⟩ := decode_of_enough first enough
  obtain ⟨normal, starts⟩ := decode_eq_ok_iff.1 decoded
  have longer : ¬ inst.encode <+: bytes := fun within => undecoded inst (decode_eq_ok_iff.2 ⟨normal, within⟩)
  refine ⟨inst, normal, ?_, ?_⟩
  · have both : bytes <+: padded.toList := List.prefix_append _ _
    exact (List.prefix_or_prefix_of_prefix both starts).resolve_right longer
  · intro same
    exact longer (same ▸ List.prefix_rfl)

/-- What stands at an offset where no instruction is found, and how that is reported. -/
theorem decode_eq_error {e : Error} (inside : ip < code.size) (failed : decode code ip = .error e) :
    ∃ byte, code[ip]? = some byte ∧
      ((Opcode.ofByte? byte = none ∧ e = ⟨.unknownOpcode, some ip, none⟩) ∨
        (CutShort (code.toList.drop ip) ∧ e = ⟨.segmentationFault, some ip, none⟩)) := by
  have undecoded : ∀ inst, decode code ip ≠ .ok inst := by simp [failed]
  have here : code[ip]? = some code[ip] := Array.getElem?_eq_getElem inside
  refine ⟨code[ip], here, ?_⟩
  cases known : Opcode.ofByte? code[ip] with
  | none =>
    rw [decode_unknown here known] at failed
    cases failed
    exact .inl ⟨rfl, rfl⟩
  | some opcode =>
    rw [← Opcode.ofByte?_eq_some_iff.1 known] at here
    refine .inr ⟨cutShort_of_undecoded here undecoded, ?_⟩
    rw [decode_known here] at failed
    cases read : code.fields? (ip + 1) (fieldWidths opcode (casesAt code ip opcode)) with
    | none =>
      rw [read] at failed
      cases failed
      rfl
    | some operands =>
      rw [read] at failed
      cases failed

end Instruction

end StackVM
