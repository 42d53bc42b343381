import StackVM.Proofs.Flow.Landing
import StackVM.Proofs.Flow.Partition
import StackVM.Proofs.Text.Lines

/-!
# Listings

Three readers go through code: the listing, the look-up of a single line, and the list of all instructions.
Main statement: they meet the same instructions at the same offsets (`listing_outcome`). The listing is one
line for each instruction of the longest prefix that decodes, and one more where the rest does not; a look-up
finds exactly the lines of instructions.

The look-up walks by widths alone, which are those of the instructions that decode (`widthAt?_eq`), and so it
comes by the offsets of the scan and no others (`reaches_and_decodes_iff`). No instruction takes more than one
line, and a line tells its offset and its text (`entry_inj`).
-/

namespace StackVM

/-! ### The text of an instruction -/

theorem Opcode.words_mnemonic (op : Opcode) : Text.Words op.mnemonic := by
  have each : ∀ op ∈ Opcode.all, Text.Words op.mnemonic := by decide +kernel
  exact each op op.mem_all

namespace Instruction

/-- Instructions are written with their mnemonics and with numbers. -/
theorem words_text (inst : Instruction) : Text.Words inst.text := by
  have number (n : Int) : Text.Words (" " ++ toString n) := Text.Words.append (by decide) (Text.words_int n)
  have numbers (ns : List Nat) : Text.Words (String.join (ns.map fun n => " " ++ toString n)) := by
    refine Text.Words.join (List.forall_mem_map.2 fun n _ => ?_)
    exact Text.Words.append (by decide) (Text.words_nat n)
  have float (x : FloatClass) : Text.Words (" " ++ FloatStyle.listing.write x) :=
    Text.Words.append (by decide) (Text.words_write _ x)
  refine inst.opcode.words_mnemonic.append ?_
  split
  · exact number _
  · exact number _
  · exact number _
  · exact number _
  · exact float _
  · exact float _
  -- a branch table has a count and signed displacements
  · refine (Text.Words.append (by decide) (Text.words_nat _)).append (Text.Words.join ?_)
    exact List.forall_mem_map.2 fun n _ => number _
  · exact numbers _

/-- The mark of what is no instruction has brackets. -/
theorem text_ne_invalid (inst : Instruction) : inst.text ≠ "<invalid>" := by
  intro same
  have words := inst.words_text
  rw [same] at words
  exact absurd words (by decide)

end Instruction

namespace Code

variable {code : Code} {ip offset offset' n : Nat} {text text' : String} {inst : Instruction}

/-! ### Lines -/

theorem toList_entry (offset : Nat) (text : String) :
    (entry offset text).toList = Nat.toDigits 10 offset ++ ':' :: '\t' :: text.toList := by
  rw [entry, String.toList_append, String.toList_append, Nat.toString_eq_repr, Nat.toList_repr,
    List.append_assoc]
  rfl

/-- A line tells its offset and its text: the offset ends at the first colon. -/
theorem entry_inj (same : entry offset text = entry offset' text') : offset = offset' ∧ text = text' := by
  have chars := congrArg String.toList same
  have digits (n : Nat) (rest : List Char) :
      (Nat.toDigits 10 n ++ ':' :: rest).takeWhile Char.isDigit = Nat.toDigits 10 n := by
    rw [List.takeWhile_append_of_pos fun c mem => Text.isDigit_of_mem_toDigits mem,
      List.takeWhile_cons_of_neg (by decide), List.append_nil]
  rw [toList_entry, toList_entry] at chars
  have offsets := congrArg (List.takeWhile Char.isDigit) chars
  rw [digits, digits] at offsets
  rw [offsets] at chars
  have texts := (List.cons.inj (List.cons.inj (List.append_cancel_left chars)).2).2
  exact ⟨Text.toDigits_injective offsets, String.toList_inj.1 texts⟩

/-! ### Looking up a line -/

theorem reaches_of_lt (before : ip < offset) :
    code.reaches ip offset =
      match Instruction.decode code ip with
      | .ok inst => code.reaches (ip + inst.width) offset
      | .error _ => false := by
  rw [reaches, if_pos before, widthAt?_eq]
  cases Instruction.decode code ip with
  | error e => rfl
  | ok inst =>
    obtain ⟨w, width⟩ := Nat.exists_eq_succ_of_ne_zero (Nat.ne_of_gt inst.width_pos)
    simp [Except.toOption, width]

theorem reaches_of_le (past : offset ≤ ip) : code.reaches ip offset = true ↔ ip = offset := by
  rw [reaches, if_neg (by omega)]
  exact beq_iff_eq

/-- The walk comes by the instructions of the scan and no others. -/
theorem reaches_and_decodes_iff :
    code.reaches ip offset = true ∧ Instruction.decode code offset = .ok inst ↔
      ⟨offset, inst⟩ ∈ (code.scanFrom ip).1 := by
  fun_induction scanFrom code ip with
  | case1 ip inside e failed =>
    simp only [List.not_mem_nil, iff_false, not_and]
    intro reached decoded
    by_cases before : ip < offset
    · rw [reaches_of_lt before, failed] at reached
      cases reached
    · cases (reaches_of_le (by omega)).1 reached
      rw [failed] at decoded
      cases decoded
  | case2 ip inside first decoded rest failure scanned ih =>
    rw [scanned] at ih
    rw [List.mem_cons, Located.mk.injEq, ← ih]
    by_cases before : ip < offset
    · rw [reaches_of_lt before, decoded]
      simp [Nat.ne_of_gt before]
    -- at the offset itself, and so not behind it
    · have behind : code.reaches (ip + first.width) offset ≠ true := by
        have pos := first.width_pos
        rw [ne_eq, reaches_of_le (by omega)]
        omega
      rw [reaches_of_le (by omega)]
      constructor
      · rintro ⟨rfl, decoded'⟩
        rw [decoded] at decoded'
        cases decoded'
        exact .inl ⟨rfl, rfl⟩
      · rintro (⟨rfl, rfl⟩ | ⟨reached, -⟩)
        · exact ⟨rfl, decoded⟩
        · exact absurd reached behind
  | case3 ip outside =>
    simp only [List.not_mem_nil, iff_false, not_and]
    intro reached decoded
    have within := Instruction.next_le_size decoded
    have pos := inst.width_pos
    rw [reaches_of_le (by omega)] at reached
    omega

/-- A line is found for the instructions of the scan. -/
theorem line?_eq_some_iff :
    code.line? offset = some text ↔ ∃ l ∈ code.scan.1, l.offset = offset ∧ l.inst.text = text := by
  unfold line?
  constructor
  · intro found
    split at found
    · next reached =>
      cases decoded : Instruction.decode code offset with
      | error e =>
        rw [decoded] at found
        cases found
      | ok inst =>
        rw [decoded] at found
        cases found
        exact ⟨⟨offset, inst⟩, reaches_and_decodes_iff.1 ⟨reached, decoded⟩, rfl, rfl⟩
    · cases found
  · rintro ⟨⟨_, inst⟩, mem, rfl, rfl⟩
    obtain ⟨reached, decoded⟩ := reaches_and_decodes_iff.2 mem
    rw [if_pos reached, decoded]
    rfl

/-! ### The listing -/

/-- The lines of a listing: one for each instruction of the scan, and one for what ends it. -/
def entries (code : Code) : List String :=
  (code.scan.1.map fun l => entry l.offset l.inst.text) ++
    code.scan.2.toList.map fun e => entry (e.offset.getD 0) invalid

theorem listing_eq (code : Code) : code.listing = String.join (code.entries.map (· ++ "\n")) := by
  rw [listing, linesFrom_eq, entries, List.map_append, List.map_map, List.map_map]
  rfl

theorem oneLine_entry (offset : Nat) (single : Text.OneLine text) : Text.OneLine (entry offset text) :=
  ((Text.words_nat offset).oneLine.append (by decide)).append single

theorem lines_listing (code : Code) : Text.lines code.listing = code.entries := by
  rw [listing_eq, Text.lines_join]
  intro line mem
  rcases List.mem_append.1 mem with mem | mem
  · obtain ⟨l, -, rfl⟩ := List.mem_map.1 mem
    exact oneLine_entry _ l.inst.words_text.oneLine
  · obtain ⟨e, -, rfl⟩ := List.mem_map.1 mem
    exact oneLine_entry _ (by decide)

/-- The lines that do not mark the end of what decodes are those of the instructions. -/
theorem entry_mem_entries_iff (valid : text ≠ invalid) :
    entry offset text ∈ code.entries ↔ ∃ l ∈ code.scan.1, l.offset = offset ∧ l.inst.text = text := by
  constructor
  · intro mem
    rcases List.mem_append.1 mem with mem | mem
    · obtain ⟨l, known, same⟩ := List.mem_map.1 mem
      exact ⟨l, known, entry_inj same⟩
    · obtain ⟨e, -, same⟩ := List.mem_map.1 mem
      exact absurd (entry_inj same).2.symm valid
  · rintro ⟨l, known, rfl, rfl⟩
    exact List.mem_append_left _ (List.mem_map_of_mem known)

theorem row_scanFrom (code : Code) (ip : Nat) :
    Flow.Row ip (code.scanFrom ip).1 (ip + ((code.instsFrom ip).flatMap Instruction.encode).length) := by
  unfold instsFrom
  fun_induction scanFrom code ip with
  | case1 ip inside e failed => rfl
  | case2 ip inside inst decoded rest failure scanned ih =>
    rw [scanned] at ih
    rw [List.map_cons, List.flatMap_cons, List.length_append, Instruction.length_encode, ← Nat.add_assoc]
    exact ⟨rfl, ih⟩
  | case3 ip outside => rfl

/-- A listing has one line for each instruction of the longest prefix of the code that decodes, in order, with
the offset and the text of the instruction; and one more line, for the end of that prefix, exactly if the code
is not read as a whole, where the error has that offset. A single line is found for an offset exactly if the
listing has a line for it that does not mark the end, and it is the text of that line. -/
theorem listing_outcome (code : Code) :
    ∃ located n, code.StreamEnd n ∧ Flow.Row 0 located n ∧
      (∀ l ∈ located, Instruction.decode code l.offset = .ok l.inst) ∧
      (∀ insts, code.instructions = .ok insts →
        insts = located.map Located.inst ∧
        Text.lines code.listing = located.map fun l => entry l.offset l.inst.text) ∧
      (∀ e, code.instructions = .error e →
        e.offset = some n ∧
        Text.lines code.listing =
          (located.map fun l => entry l.offset l.inst.text) ++ [entry n invalid]) ∧
      ∀ offset text, code.line? offset = some text ↔
        entry offset text ∈ Text.lines code.listing ∧ text ≠ invalid := by
  have row := row_scanFrom code 0
  rw [Nat.zero_add] at row
  refine ⟨code.scan.1, _, streamEnd_scan code, row, fun l mem => (decoded_of_scanFrom mem).2, ?_, ?_, ?_⟩
  · intro insts read
    rw [lines_listing, entries]
    rw [instructions_eq] at read
    split at read
    · next located scanned =>
      cases read
      simp [scanned]
    · cases read
  · intro e failed
    obtain ⟨n, c, ends, -, rfl⟩ := undecoded_of_error failed
    have here := streamEnd_unique ends (streamEnd_scan code)
    rw [lines_listing, entries]
    rw [instructions_eq] at failed
    split at failed
    · cases failed
    · next located _ scanned =>
      cases failed
      simp [scanned, here]
  · intro offset text
    rw [lines_listing, line?_eq_some_iff]
    constructor
    · rintro ⟨l, known, rfl, rfl⟩
      have valid := Instruction.text_ne_invalid l.inst
      exact ⟨(entry_mem_entries_iff valid).2 ⟨l, known, rfl, rfl⟩, valid⟩
    · rintro ⟨mem, valid⟩
      exact (entry_mem_entries_iff valid).1 mem

/-- One whole instruction, the branch table after it, and the same cut short inside the last displacement. -/
def whole : Code := Instruction.assemble [⟨.drop, []⟩, ⟨.brTable, [0, 0x100000000 - 8]⟩]

@[inherit_doc whole]
def curtailed : Code := whole.pop

theorem curtailed_listing :
    whole.instructions = .ok [⟨.drop, []⟩, ⟨.brTable, [0, 0x100000000 - 8]⟩] ∧
      (Text.lines whole.listing).length = 2 ∧
      curtailed.instructions = .error ⟨.segmentationFault, some 1, none⟩ ∧
      entry 1 invalid ∈ Text.lines curtailed.listing ∧ (curtailed.line? 1).isNone ∧
      curtailed.line? 0 = some "drop" ∧ entry 0 "drop" ∈ Text.lines curtailed.listing := by
  obtain ⟨scanned, stopped, unknown, first⟩ :
      whole.scan = ([⟨0, ⟨.drop, []⟩⟩, ⟨1, ⟨.brTable, [0, 0x100000000 - 8]⟩⟩], none) ∧
        curtailed.scan = ([⟨0, ⟨.drop, []⟩⟩], some ⟨.segmentationFault, some 1, none⟩) ∧
        (curtailed.line? 1).isNone ∧ curtailed.line? 0 = some "drop" := by
    decide +kernel
  have read := instructions_of_scan scanned
  have failed : curtailed.instructions = .error ⟨.segmentationFault, some 1, none⟩ := by
    rw [instructions_eq, stopped]
  obtain ⟨located, n, -, -, -, full, -, -⟩ := listing_outcome whole
  obtain ⟨same, lines⟩ := full _ read
  obtain ⟨_, m, -, -, -, -, cut, looked⟩ := listing_outcome curtailed
  obtain ⟨here, marked⟩ := cut _ failed
  cases here
  refine ⟨read, ?_, failed, ?_, unknown, first, ((looked 0 "drop").1 first).1⟩
  · rw [lines, List.length_map, ← List.length_map Located.inst, ← same]
    rfl
  · rw [marked]
    exact List.mem_append_right _ List.mem_cons_self

end Code

end StackVM
