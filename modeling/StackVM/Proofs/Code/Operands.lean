import StackVM.Proofs.Code.Encoding

/-!
# Where operands stand

The width of an instruction can be read off the code before its fields are (`widthAt?_eq`), and each field
for itself at its own offset: it is the operand that decoding finds (`read?_operand`).
-/

namespace StackVM

namespace Code

variable {code : Code} {ip start width : Nat} {opcode : Opcode} {inst : Instruction} {widths operands : List Nat}

/-! ### Widths -/

theorem total_replicate (width n : Nat) : (List.replicate n width).foldr (· + ·) 0 = width * n := by
  induction n with
  | zero => rfl
  | succ n ih => rw [List.replicate_succ, List.foldr_cons, ih, Nat.mul_succ, Nat.add_comm]

/-- The width at an offset is that of the opcode with its fields, if the code is long enough for them. -/
theorem widthAt?_known {opcode : Opcode} (here : code[ip]? = some opcode.byte) :
    code.widthAt? ip =
      let width :=
        1 + (Instruction.fieldWidths opcode (Instruction.casesAt code ip opcode)).foldr (· + ·) 0
      if ip + width ≤ code.size then some width else none := by
  unfold widthAt?
  rw [here, Option.bind_eq_bind, Option.bind_some, Opcode.ofByte?_eq_some_iff.2 rfl]
  cases opcode with
  | brTable =>
    cases count : code.read? (ip + 1) 2 with
    -- without a count there is no room for the displacements either
    | none =>
      have short : ¬ ip + 7 ≤ code.size := by
        intro enough
        obtain ⟨n, read⟩ := read?_of_enough code (ip + 1) 2 (by omega)
        rw [count] at read
        cases read
      simp only [Instruction.casesAt, count]
      exact (if_neg short).symm
    | some n =>
      have width : 1 + (Instruction.fieldWidths .brTable n).foldr (· + ·) 0 = 1 + 2 + 4 * n + 4 := by
        rw [Instruction.fieldWidths, List.foldr_cons, total_replicate]
        omega
      simp only [Instruction.casesAt, count, if_true, Option.getD_some, width]
      rfl
  | _ => rfl

/-- Where an instruction decodes, its width is found, and nowhere else. -/
theorem widthAt?_eq (code : Code) (ip : Nat) :
    code.widthAt? ip = (Instruction.decode code ip).toOption.map Instruction.width := by
  cases here : code[ip]? with
  | none =>
    simp [widthAt?, Instruction.decode, here, Except.toOption]
  | some byte =>
    cases known : Opcode.ofByte? byte with
    | none =>
      rw [Instruction.decode_unknown here known]
      simp [widthAt?, here, known, Except.toOption]
    | some opcode =>
      rw [← Opcode.ofByte?_eq_some_iff.1 known] at here
      rw [widthAt?_known here]
      cases read : code.fields? (ip + 1)
          (Instruction.fieldWidths opcode (Instruction.casesAt code ip opcode)) with
      | none =>
        rw [Instruction.decode_known here, read]
        refine if_neg fun enough => ?_
        obtain ⟨operands, found⟩ := fields?_of_enough code (ip + 1) _ (by rwa [Nat.add_assoc])
        rw [read] at found
        cases found
      | some operands =>
        have decoded : Instruction.decode code ip = .ok ⟨opcode, operands⟩ := by
          rw [Instruction.decode_known here, read]
          rfl
        have widths := Instruction.widths_of_fields ⟨opcode, operands⟩ read
        have inside := Instruction.next_le_size decoded
        rw [Instruction.width, ← widths] at inside
        rw [decoded, widths]
        rw [widths] at inside
        exact if_pos inside

/-- An instruction decodes where its width fits into the code. -/
theorem decode_of_widthAt? (here : code[ip]? = some opcode.byte) (wide : code.widthAt? ip = some width) :
    ∃ inst, Instruction.decode code ip = .ok inst ∧ inst.opcode = opcode ∧ inst.width = width := by
  rw [widthAt?_eq, Instruction.decode_known here] at wide
  rw [Instruction.decode_known here]
  cases read : code.fields? (ip + 1)
      (Instruction.fieldWidths opcode (Instruction.casesAt code ip opcode)) with
  | none =>
    rw [read] at wide
    cases wide
  | some operands =>
    rw [read] at wide
    exact ⟨⟨opcode, operands⟩, rfl, rfl, Option.some.inj wide⟩

theorem byteAt_of_decode (decoded : Instruction.decode code ip = .ok inst) :
    code[ip]? = some inst.opcode.byte := by
  obtain ⟨-, starts⟩ := Instruction.decode_eq_ok_iff.1 decoded
  obtain ⟨here, -⟩ := getElem?_of_prefix starts
  exact here

/-! ### Single fields -/

/-- A field is found behind all fields before it. -/
theorem read?_field (read : code.fields? start widths = some operands) {i : Nat}
    (at_i : widths[i]? = some width) :
    code.read? (start + (widths.take i).sum) width = some (operands[i]?.getD 0) := by
  induction widths generalizing start operands i with
  | nil => cases at_i
  | cons first widths ih =>
    obtain ⟨n, one, read⟩ := Option.bind_eq_some_iff.1 read
    obtain ⟨others, rest, read⟩ := Option.bind_eq_some_iff.1 read
    cases read
    cases i with
    | zero =>
      cases at_i
      exact one
    | succ i =>
      rw [List.take_succ_cons, List.sum_cons, ← Nat.add_assoc]
      exact ih rest at_i

/-- The operands of an instruction that decodes stand behind its opcode. -/
theorem read?_operand (decoded : Instruction.decode code ip = .ok inst) {i : Nat}
    (at_i : inst.widths[i]? = some width) :
    code.read? (ip + 1 + (inst.widths.take i).sum) width = some (inst.operand i) :=
  read?_field (Instruction.fields_of_decode decoded) at_i

/-- The displacements of a table stand behind the number of its cases. -/
theorem read?_case (decoded : Instruction.decode code ip = .ok inst) (table : inst.opcode = .brTable) {i : Nat}
    (inside : i ≤ inst.operand 0) : code.read? (ip + 3 + 4 * i) 4 = some (inst.operand (i + 1)) := by
  have widths : inst.widths = 2 :: List.replicate (inst.operand 0 + 1) 4 := by
    rw [Instruction.widths, table, Instruction.fieldWidths]
  have at_i : inst.widths[i + 1]? = some 4 := by
    rw [widths, List.getElem?_cons_succ, List.getElem?_replicate, if_pos (by omega)]
  have read := read?_operand decoded at_i
  have before : (inst.widths.take (i + 1)).sum = 2 + 4 * i := by
    rw [widths, List.take_succ_cons, List.sum_cons, List.take_replicate, Nat.min_eq_left (by omega)]
    exact congrArg (2 + ·) (total_replicate 4 i)
  rwa [before, show ip + 1 + (2 + 4 * i) = ip + 3 + 4 * i by omega] at read

end Code

end StackVM
