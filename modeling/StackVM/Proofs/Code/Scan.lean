import StackVM.Code

/-!
# What code reads as

`scan` gives the instructions of the longest prefix that decodes, with their offsets, and the error that ends
it, if any. The list of all instructions and the listing are read off in walks of their own; both come by
the instructions of the scan (`instructions_eq`, `linesFrom_eq`).
-/

namespace StackVM

namespace Code

/-- The instructions from `ip` on, up to the first that does not decode. -/
def scanFrom (code : Code) (ip : Nat) : List Located × Option Error :=
  if ip < code.size then
    match Instruction.decode code ip with
    | .error e => ([], some e)
    | .ok inst =>
      let (rest, failure) := code.scanFrom (ip + inst.width)
      (⟨ip, inst⟩ :: rest, failure)
  else
    ([], none)
termination_by code.size - ip
decreasing_by
  have := inst.width_pos
  omega

/-- The longest prefix of whole instructions, and the error after it. -/
def scan (code : Code) : List Located × Option Error := code.scanFrom 0

/-- What was scanned, unless an error ended it. -/
def wholeOf : List Located × Option Error → Except Error (List Instruction)
  | (located, none) => .ok (located.map Located.inst)
  | (_, some e) => .error e

theorem instructionsFrom_eq (code : Code) (ip : Nat) : code.instructionsFrom ip = wholeOf (code.scanFrom ip) := by
  fun_induction scanFrom code ip with
  | case1 ip inside e failed =>
    rw [instructionsFrom, if_pos inside, failed]
    rfl
  | case2 ip inside inst decoded rest failure scanned ih =>
    rw [scanned] at ih
    rw [instructionsFrom, if_pos inside, decoded]
    change (code.instructionsFrom (ip + inst.width)).bind _ = _
    rw [ih]
    cases failure <;> rfl
  | case3 ip outside =>
    rw [instructionsFrom, if_neg outside]
    rfl

/-- The instructions are those of the scan, if it comes to the end. -/
theorem instructions_eq (code : Code) :
    code.instructions =
      match code.scan with
      | (located, none) => .ok (located.map Located.inst)
      | (_, some e) => .error e := instructionsFrom_eq code 0

/-- An error of decoding names the offset. -/
theorem offset_of_undecoded {code : Code} {ip : Nat} {e : Error} (failed : Instruction.decode code ip = .error e) :
    e.offset = some ip := by
  unfold Instruction.decode at failed
  split at failed
  · cases failed
    rfl
  · split at failed
    · cases failed
      rfl
    · dsimp only at failed
      split at failed
      · cases failed
        rfl
      · cases failed

/-- A line of a listing, with what is said about an offset. -/
def entry (offset : Nat) (text : String) : String := toString offset ++ ":\t" ++ text

/-- What a listing says where no instruction is found. -/
def invalid : String := "<invalid>"

/-- The lines are those of the scan, and one for what ends it. -/
theorem linesFrom_eq (code : Code) (ip : Nat) :
    code.linesFrom ip =
      ((code.scanFrom ip).1.map fun l => entry l.offset l.inst.text ++ "\n") ++
        (code.scanFrom ip).2.toList.map fun e => entry (e.offset.getD 0) invalid ++ "\n" := by
  fun_induction scanFrom code ip with
  | case1 ip inside e failed =>
    rw [linesFrom, if_pos inside, failed]
    simp [offset_of_undecoded failed, entry, invalid, String.append_assoc]
  | case2 ip inside inst decoded rest failure scanned ih =>
    rw [scanned] at ih
    rw [linesFrom, if_pos inside, decoded]
    simp only [ih]
    rfl
  | case3 ip outside =>
    rw [linesFrom, if_neg outside]
    rfl

end Code

end StackVM
