import StackVM.Proofs.Machine.Decoded
import StackVM.Proofs.Operation.Shapes
import StackVM.Proofs.Outcome

/-!
# Instructions as questions and changes

Every instruction asks all its questions before it changes anything. `Machine.effect` writes that down:
the questions are answered in `Except Cause`, and only the last line builds the changed machine. Main
statement: as long as the stack keeps to its limit and no host function is called, `execute` does what
`effect` says, and an instruction that fails leaves the machine as it was (`execute_eq`). What an
instruction that goes through has passed, and what it leaves, is said once, by the cases of `Succeeds`
(`succeeds_of_effect`); whatever instructions preserve is shown case by case from there.
-/

namespace StackVM

namespace Machine

/-- Refuses to go on when something is bad. -/
def reject (bad : Prop) [Decidable bad] (c : Cause) : Except Cause Unit :=
  if bad then .error c else .ok ()

/-- Room for a result that takes the place of `count` operands. -/
def roomAfter (m : Machine) (count : Nat) : Except Cause Unit :=
  if count = 0 then m.room 1 else .ok ()

/-- Pushes a value that was read or computed; an integer that does not fit a word becomes an object. -/
def pushedRead (m : Machine) : Value → Machine
  | .i64 n => if Value.fitsPayload n then m.pushed (.i64 n) else m.pushedObject (.int64 n)
  | v => m.pushed v.canonical

/-- Replaces the top `n` operands by a result. -/
def replaced (m : Machine) (n : Nat) (result : Value) : Machine := (m.discarded n).pushedRead result

/-- Pushes a further reference to a value that is held elsewhere. -/
def copied (m : Machine) (v : Value) : Except Cause Machine := do
  m.room 1
  return (m.retain v).pushed v

/-- Goes on `displacement` bytes after `next` in code of the given size. -/
def jumped (m : Machine) (size next : Nat) (displacement : Int) : Except Cause Machine :=
  match Code.jumpTarget? next displacement with
  | some target => if target < size then .ok (m.setIp target) else .error .invalidJump
  | none => .error .invalidJump

/-! ### Calls -/

def entering (m : Machine) (f : Function) (captures : List Value) (callee : Nat) :
    Except Cause Machine := do
  reject (f.locals < captures.length) .typeMismatch
  -- arguments are checked before room is looked for
  m.checkArguments f.signature.params
  reject (m.options.frameSize ≤ m.frames.length) .frameOverflow
  reject (m.options.stackSize < m.stack.length - 1 + f.locals) .stackOverflow
  return m.entered f captures callee

/-- A call of a function in code. A host function is no matter of one instruction. -/
def calling (m : Machine) : Except Cause Machine := do
  m.need 1
  let callee ← m.addressAt 0
  match m.heap.get? callee with
  | some (.function f) => m.entering f [] callee
  | some (.closure f captures) => m.entering f captures callee
  | some _ => throw .typeMismatch
  | none => throw .segmentationFault

def returning (m : Machine) : Except Cause Machine :=
  match m.frames with
  | [] => .error .frameUnderflow
  | frame :: _ => do
    m.checkResults frame.function.signature.returns
    return m.returned frame

/-! ### Strings, arrays and structs -/

def measuringString (m : Machine) : Except Cause Machine := do
  m.need 1
  match ← m.objectAt 0 with
  | .string s => return m.replaced 1 (.i32 (.ofNat 32 s.utf8ByteSize))
  | _ => throw .typeMismatch

def joiningStrings (m : Machine) : Except Cause Machine := do
  m.need 2
  let (s, t) ← m.stringsAt
  return (m.discarded 2).pushedObject (.string (s ++ t))

def comparingStrings (m : Machine) (equal : Bool) : Except Cause Machine := do
  m.need 2
  let (s, t) ← m.stringsAt
  return m.replaced 2 (.ofBool ((s == t) == equal))

def makingArray (m : Machine) (index count : Nat) : Except Cause Machine := do
  let t ← m.typeAt index
  match t.elem? with
  | none => throw .typeMismatch
  | some elem =>
    m.need count
    let elems := (m.stack.take count).reverse
    let numbers ← m.readAll (List.replicate count elem) elems
    m.roomAfter count
    -- numbers are copied out of their operands, other elements move
    match t with
    | .packed s => return (m.discarded count).pushedObject (.packed (.ofValues s numbers))
    | _ => return (m.dropped count).pushedObject (.array elem elems.toArray)

/-- An array of zeros of type `t`. -/
def zeroArray (t : Ty) (length : Nat) : Except Cause Object :=
  match t with
  | .packed s => .ok (.packed (.zeros s length))
  | .array elem => .ok (.array elem (Array.replicate length (.zero elem.kind)))
  | _ => .error .typeMismatch

def makingZeroArray (m : Machine) (index : Nat) : Except Cause Machine := do
  let t ← m.typeAt index
  m.need 1
  let length ← m.indexAt 0
  reject (m.options.arraySize < length) .segmentationFault
  let o ← zeroArray t length
  return (m.discarded 1).pushedObject o

def measuringArray (m : Machine) : Except Cause Machine := do
  m.need 1
  let o ← m.objectAt 0
  match o.length? with
  | some n => return m.replaced 1 (.i32 (.ofNat 32 n))
  | none => throw .typeMismatch

def readingElement (m : Machine) : Except Cause Machine := do
  m.need 2
  let i ← m.indexAt 0
  let o ← m.objectAt 1
  reject o.length?.isNone .typeMismatch
  let v ← lookup (o.element? i)
  return (m.retain v).replaced 2 v

def storingElement (m : Machine) : Except Cause Machine := do
  m.need 3
  let i ← m.indexAt 1
  let a ← m.addressAt 2
  let o ← m.objectAt 2
  match o.ty.elem? with
  | none => throw .typeMismatch
  | some elem =>
    match m.read? elem.kind (m.peek 0) with
    | none => throw .typeMismatch
    | some number =>
      let old ← lookup (o.element? i)
      -- a packed array keeps the number and gives the operand back
      let (stored, given) := Exec.exchange o (m.peek 0) number old
      let changed := { m.dropped 1 with heap := m.heap.update a (·.setElement i stored) }
      return (changed.release given).discarded 2

/-- The fields of the struct type `types[index]`. -/
def structFields (m : Machine) (index : Nat) : Except Cause (List Ty) := do
  match ← m.typeAt index with
  | .struct fields => return fields
  | _ => throw .typeMismatch

def makingStruct (m : Machine) (index : Nat) : Except Cause Machine := do
  let fields ← m.structFields index
  m.need fields.length
  let operands := (m.stack.take fields.length).reverse
  let values ← m.readAll fields operands
  m.roomAfter fields.length
  -- fields of numbers keep a copy, so their operands are given back
  let numbers := (fields.zip operands).filter (fun (t, _) => !t.isRef) |>.map Prod.snd
  return ((m.dropped fields.length).releaseAll numbers).pushedObject
    (.struct (.ofValues fields values))

def makingZeroStruct (m : Machine) (index : Nat) : Except Cause Machine := do
  let fields ← m.structFields index
  m.room 1
  return m.pushedObject (.struct (.zero fields))

def readingField (m : Machine) (field : Nat) : Except Cause Machine := do
  m.need 1
  match ← m.objectAt 0 with
  | .struct r =>
    let v ← lookup (r.get? field)
    return (m.retain v).replaced 1 v
  | _ => throw .typeMismatch

def storingField (m : Machine) (field : Nat) : Except Cause Machine := do
  m.need 2
  let a ← m.addressAt 1
  match ← m.objectAt 1 with
  | .struct r =>
    let t ← lookup r.fields[field]?
    let old ← lookup (r.get? field)
    match m.read? t.kind (m.peek 0) with
    | none => throw .typeMismatch
    | some stored =>
      -- the operand is off the stack before anything is released
      let changed := { m.dropped 1 with heap := m.heap.update a (·.setField field stored) }
      return (changed.release (if t.isRef then old else m.peek 0)).discarded 1
  | _ => throw .typeMismatch

/-! ### All instructions -/

/-- What an instruction of code of the given size does; `next` is the offset after it. -/
def effect (m : Machine) (inst : Instruction) (size next : Nat) : Except Cause Machine :=
  match inst.opcode with
  | .nop => return m
  | .unreachable => throw .unreachableExecuted
  | .drop => do
    m.need 1
    return m.discarded 1
  | .dup => do
    m.need 1
    m.copied (m.peek 0)
  | .swap => do
    m.need 2
    return { m with stack := m.peek 1 :: m.peek 0 :: m.stack.drop 2 }
  | .select => do
    m.need 3
    let condition ← m.int32At 0
    reject (!m.sameKind (m.peek 2) (m.peek 1)) .typeMismatch
    let (kept, other) := if condition != 0 then (m.peek 2, m.peek 1) else (m.peek 1, m.peek 2)
    return ((m.dropped 3).release other).pushed kept
  | .br => m.jumped size next (inst.signed 0)
  | .brIf => do
    m.need 1
    if (← m.int32At 0) != 0 then return (← m.jumped size next (inst.signed 0)).discarded 1
    else return m.discarded 1
  | .brTable => do
    m.need 1
    let selector := (← m.int32At 0).toInt
    let count := inst.operand 0
    -- a selector out of range takes the last case
    let case := if 0 ≤ selector ∧ selector < count then selector.toNat else count
    return (← m.jumped size next (inst.signed (case + 1))).discarded 1
  | .call => m.calling
  | .ret => m.returning
  | .globalGet => do m.copied (← lookup (m.globals.get? (inst.operand 0)))
  | .globalSet => do
    m.need 1
    return (m.dropped 1).setGlobal (inst.operand 0) (m.peek 0)
  | .globalTee => do
    m.need 1
    return (m.retain (m.peek 0)).setGlobal (inst.operand 0) (m.peek 0)
  | .localGet => do
    let place ← m.localAt (inst.operand 0)
    m.copied (m.peek (m.fromTop place))
  | .localSet => do
    let place ← m.localAt (inst.operand 0)
    m.need 1
    return (m.dropped 1).setPlace place (m.peek 0)
  | .localTee => do
    let place ← m.localAt (inst.operand 0)
    m.need 1
    return (m.retain (m.peek 0)).setPlace place (m.peek 0)
  | .constGet => do m.copied (← lookup m.constants[inst.operand 0]?)
  | .refNull => do
    m.room 1
    return m.pushed .null
  | .const s => do
    m.room 1
    return m.pushedRead (.ofRaw (.scalar s) (inst.operand 0))
  | .operation op => do
    m.need op.shape.arity
    let operands ← m.operands op.shape.arity op.shape.operand
    let result ← op.eval operands
    return m.replaced op.shape.arity result
  | .stringLen => m.measuringString
  | .stringConcat => m.joiningStrings
  | .stringEq => m.comparingStrings true
  | .stringNe => m.comparingStrings false
  | .arrayNew => m.makingArray (inst.operand 0) (inst.operand 1)
  | .arrayNewDefault => m.makingZeroArray (inst.operand 0)
  | .arrayLen => m.measuringArray
  | .arrayGet => m.readingElement
  | .arraySet => m.storingElement
  | .structNew => m.makingStruct (inst.operand 0)
  | .structNewDefault => m.makingZeroStruct (inst.operand 0)
  | .structGet => m.readingField (inst.operand 0)
  | .structSet => m.storingField (inst.operand 0)

theorem effect_of_call {m : Machine} {inst : Instruction} {size next : Nat} (call : inst.opcode = .call) :
    m.effect inst size next = m.calling := by
  simp only [effect, call]

theorem effect_of_ret {m : Machine} {inst : Instruction} {size next : Nat} (ret : inst.opcode = .ret) :
    m.effect inst size next = m.returning := by
  simp only [effect, ret]

/-- The outcome of an effect on a machine: a failure changes nothing. -/
def outcome (m : Machine) : Except Cause Machine → EStateM.Result Stop Machine Unit
  | .ok m' => .ok () m'
  | .error c => .error (.fault c) m

/-! ### Answered questions -/

theorem need_eq_ok {m : Machine} {n : Nat} : m.need n = .ok () ↔ m.floor + n ≤ m.stack.length := by
  unfold need
  split <;> simp <;> omega

theorem room_eq_ok {m : Machine} {n : Nat} :
    m.room n = .ok () ↔ m.stack.length + n ≤ m.options.stackSize := by
  unfold room
  split <;> simp <;> omega

theorem reject_eq_ok {bad : Prop} [Decidable bad] {c : Cause} {u : Unit}
    (passed : reject bad c = .ok u) : ¬bad := by
  unfold reject at passed
  split at passed
  · cases passed
  · assumption

theorem getElem?_peek {m : Machine} {depth : Nat} (inside : depth < m.stack.length) :
    m.stack[depth]? = some (m.peek depth) := by
  simp [peek, List.getElem?_eq_getElem inside]

theorem take_one {m : Machine} (inside : 0 < m.stack.length) : m.stack.take 1 = [m.peek 0] := by
  cases found : m.stack with
  | nil => simp [found] at inside
  | cons v rest => simp [peek, found]

theorem int32At_eq_ok {m : Machine} {depth : Nat} {n : BitVec 32} (number : m.int32At depth = .ok n) :
    m.peek depth = .i32 n := by
  unfold int32At at number
  split at number
  · next found =>
    cases number
    exact found
  · cases number

theorem lt_floor_of_localAt {m : Machine} {i place : Nat} (found : m.localAt i = .ok place) :
    place < m.floor := by
  unfold localAt at found
  unfold floor
  split at found
  · cases found
  · split at found
    · cases found
      assumption
    · cases found

theorem localAt_eq_ok {m : Machine} {frame : Frame} {callers : List Frame} {i place : Nat}
    (frames : m.frames = frame :: callers) (found : m.localAt i = .ok place) : place = frame.base + i := by
  unfold localAt at found
  rw [frames] at found
  simp only at found
  split at found
  · cases found
    rfl
  · cases found

theorem addressAt_eq_ok {m : Machine} {depth a : Nat} (address : m.addressAt depth = .ok a) :
    m.peek depth = .ref a := by
  unfold addressAt at address
  split at address
  · next found =>
    cases address
    exact found
  · cases address

theorem objectAt_eq_ok {m : Machine} {depth : Nat} {o : Object} (object : m.objectAt depth = .ok o) :
    ∃ a, m.peek depth = .ref a ∧ m.heap.get? a = some o := by
  obtain ⟨a, address, object⟩ := bind_eq_ok object
  refine ⟨a, addressAt_eq_ok address, ?_⟩
  split at object
  · next found =>
    cases object
    exact found
  · cases object

theorem get?_of_objectAt {m : Machine} {depth a : Nat} {o : Object} (address : m.addressAt depth = .ok a)
    (object : m.objectAt depth = .ok o) : m.heap.get? a = some o := by
  obtain ⟨b, top, found⟩ := objectAt_eq_ok object
  rw [addressAt_eq_ok address] at top
  cases top
  exact found

theorem lookup_eq_ok {α : Type} {entry : Option α} {a : α} (found : lookup entry = .ok a) :
    entry = some a := by
  unfold lookup at found
  split at found
  · cases found
    rfl
  · cases found

theorem top_of_addressAt {m : Machine} {a : Nat} {u : Unit} (need : m.need 1 = .ok u)
    (address : m.addressAt 0 = .ok a) : ∃ rest, m.stack = .ref a :: rest := by
  have enough := need_eq_ok.1 need
  have top := addressAt_eq_ok address
  cases found : m.stack with
  | nil => simp [found] at enough
  | cons v rest =>
    simp only [peek, found, List.getElem?_cons_zero, Option.getD_some] at top
    exact ⟨rest, by rw [top]⟩

/-! ### Questions without an answer -/

section Refused

variable {m : Machine} {n depth i : Nat} {c : Cause}

theorem need_eq_error (refused : m.need n = .error c) :
    c = .stackUnderflow ∧ m.stack.length < m.floor + n := by
  unfold need at refused
  split at refused
  · cases refused
    exact ⟨rfl, by assumption⟩
  · cases refused

theorem room_eq_error (refused : m.room n = .error c) :
    c = .stackOverflow ∧ m.options.stackSize < m.stack.length + n := by
  unfold room at refused
  split at refused
  · cases refused
    exact ⟨rfl, by assumption⟩
  · cases refused

theorem reject_eq_error {bad : Prop} [Decidable bad] {c' : Cause} (refused : reject bad c' = .error c) :
    c = c' ∧ bad := by
  unfold reject at refused
  split at refused
  · cases refused
    exact ⟨rfl, by assumption⟩
  · cases refused

theorem lookup_eq_error {α : Type} {entry : Option α} (refused : lookup entry = .error c) :
    c = .segmentationFault ∧ entry = none := by
  unfold lookup at refused
  split at refused
  · cases refused
  · cases refused
    exact ⟨rfl, rfl⟩

theorem readAll_eq_error {ts : List Ty} {vs : List Value} (refused : m.readAll ts vs = .error c) :
    c = .typeMismatch := by
  unfold readAll at refused
  split at refused
  · cases refused
  · cases refused
    rfl

theorem operands_eq_error {k : Kind} (refused : m.operands n k = .error c) : c = .typeMismatch := by
  unfold operands at refused
  split at refused
  · cases refused
  · cases refused
    rfl

theorem int32At_eq_error (refused : m.int32At depth = .error c) : c = .typeMismatch := by
  unfold int32At at refused
  split at refused
  · cases refused
  · cases refused
    rfl

theorem addressAt_eq_error (refused : m.addressAt depth = .error c) : c = .typeMismatch := by
  unfold addressAt at refused
  split at refused
  · cases refused
  · cases refused
    rfl

theorem indexAt_eq_error (refused : m.indexAt depth = .error c) :
    c = .typeMismatch ∨ c = .segmentationFault := by
  rcases bind_eq_error refused with refused | ⟨number, _, refused⟩
  · exact .inl (int32At_eq_error refused)
  · split at refused
    · cases refused
      exact .inr rfl
    · cases refused

theorem objectAt_eq_error (refused : m.objectAt depth = .error c) :
    c = .typeMismatch ∨ c = .segmentationFault := by
  rcases bind_eq_error refused with refused | ⟨a, _, refused⟩
  · exact .inl (addressAt_eq_error refused)
  · split at refused
    · cases refused
    · cases refused
      exact .inr rfl

theorem stringsAt_eq_error (refused : m.stringsAt = .error c) :
    c = .typeMismatch ∨ c = .segmentationFault := by
  rcases bind_eq_error refused with refused | ⟨first, _, refused⟩
  · exact objectAt_eq_error refused
  rcases bind_eq_error refused with refused | ⟨second, _, refused⟩
  · exact objectAt_eq_error refused
  split at refused
  · cases refused
  · cases refused
    exact .inl rfl

theorem localAt_eq_error (refused : m.localAt i = .error c) :
    (c = .frameUnderflow ∧ m.frames = []) ∨ c = .segmentationFault := by
  unfold localAt at refused
  split at refused
  · next none =>
    cases refused
    exact .inl ⟨rfl, none⟩
  · split at refused
    · cases refused
    · cases refused
      exact .inr rfl

theorem structFields_eq_error (refused : m.structFields i = .error c) :
    c = .typeMismatch ∨ (c = .segmentationFault ∧ m.program.types[i]? = none) := by
  rcases bind_eq_error refused with refused | ⟨t, _, refused⟩
  · exact .inr (lookup_eq_error refused)
  · split at refused
    · cases refused
    · cases refused
      exact .inl rfl

end Refused

theorem structFields_eq_ok {m : Machine} {i : Nat} {fields : List Ty}
    (found : m.structFields i = .ok fields) : m.program.types[i]? = some (.struct fields) := by
  obtain ⟨t, at_i, found⟩ := bind_eq_ok found
  have at_i := lookup_eq_ok at_i
  split at found
  · cases found
    exact at_i
  · cases found

/-! ### Instructions that go through -/

/-- An instruction with the opcode goes through on the machine. Each case names the questions that were
answered and the machine that the instruction leaves; what `effect` leaves to an operation of its own stays
with the equation for this operation. -/
inductive Succeeds (m : Machine) (inst : Instruction) (size next : Nat) : Opcode → Machine → Prop where
  | nop : Succeeds m inst size next .nop m
  | drop (enough : m.floor + 1 ≤ m.stack.length) : Succeeds m inst size next .drop (m.discarded 1)
  | dup {m' : Machine} (enough : m.floor + 1 ≤ m.stack.length) (done : m.copied (m.peek 0) = .ok m') :
    Succeeds m inst size next .dup m'
  | swap (enough : m.floor + 2 ≤ m.stack.length) :
    Succeeds m inst size next .swap { m with stack := m.peek 1 :: m.peek 0 :: m.stack.drop 2 }
  | select {condition : BitVec 32} {kept other : Value} (enough : m.floor + 3 ≤ m.stack.length)
    (number : m.int32At 0 = .ok condition)
    (choice : kept = m.peek 2 ∧ other = m.peek 1 ∨ kept = m.peek 1 ∧ other = m.peek 2) :
    Succeeds m inst size next .select (((m.dropped 3).release other).pushed kept)
  | br {m' : Machine} (jump : m.jumped size next (inst.signed 0) = .ok m') : Succeeds m inst size next .br m'
  | brIf {moved : Machine} (enough : m.floor + 1 ≤ m.stack.length)
    (jump : m.jumped size next (inst.signed 0) = .ok moved) :
    Succeeds m inst size next .brIf (moved.discarded 1)
  | brIfNot (enough : m.floor + 1 ≤ m.stack.length) : Succeeds m inst size next .brIf (m.discarded 1)
  | brTable {case : Nat} {moved : Machine} (enough : m.floor + 1 ≤ m.stack.length)
    (listed : case ≤ inst.operand 0) (jump : m.jumped size next (inst.signed (case + 1)) = .ok moved) :
    Succeeds m inst size next .brTable (moved.discarded 1)
  | call {m' : Machine} (done : m.calling = .ok m') : Succeeds m inst size next .call m'
  | ret {m' : Machine} (done : m.returning = .ok m') : Succeeds m inst size next .ret m'
  | globalGet {m' : Machine} {v : Value} (found : m.globals.get? (inst.operand 0) = some v)
    (done : m.copied v = .ok m') : Succeeds m inst size next .globalGet m'
  | globalSet (enough : m.floor + 1 ≤ m.stack.length) :
    Succeeds m inst size next .globalSet ((m.dropped 1).setGlobal (inst.operand 0) (m.peek 0))
  | globalTee (enough : m.floor + 1 ≤ m.stack.length) :
    Succeeds m inst size next .globalTee ((m.retain (m.peek 0)).setGlobal (inst.operand 0) (m.peek 0))
  | localGet {m' : Machine} {place : Nat} (found : m.localAt (inst.operand 0) = .ok place)
    (done : m.copied (m.peek (m.fromTop place)) = .ok m') : Succeeds m inst size next .localGet m'
  | localSet {place : Nat} (found : m.localAt (inst.operand 0) = .ok place)
    (enough : m.floor + 1 ≤ m.stack.length) :
    Succeeds m inst size next .localSet ((m.dropped 1).setPlace place (m.peek 0))
  | localTee {place : Nat} (found : m.localAt (inst.operand 0) = .ok place)
    (enough : m.floor + 1 ≤ m.stack.length) :
    Succeeds m inst size next .localTee ((m.retain (m.peek 0)).setPlace place (m.peek 0))
  | constGet {m' : Machine} {v : Value} (found : m.constants[inst.operand 0]? = some v)
    (done : m.copied v = .ok m') : Succeeds m inst size next .constGet m'
  | refNull (room : m.stack.length + 1 ≤ m.options.stackSize) :
    Succeeds m inst size next .refNull (m.pushed .null)
  | const {s : Scalar} (room : m.stack.length + 1 ≤ m.options.stackSize) :
    Succeeds m inst size next (.const s) (m.pushedRead (.ofRaw (.scalar s) (inst.operand 0)))
  | operation {op : Operation} {operands : List Value} {result : Value}
    (enough : m.floor + op.shape.arity ≤ m.stack.length) (evaluated : op.eval operands = .ok result) :
    Succeeds m inst size next (.operation op) (m.replaced op.shape.arity result)
  | stringLen {m' : Machine} (done : m.measuringString = .ok m') : Succeeds m inst size next .stringLen m'
  | stringConcat {m' : Machine} (done : m.joiningStrings = .ok m') : Succeeds m inst size next .stringConcat m'
  | stringEq {m' : Machine} (done : m.comparingStrings true = .ok m') : Succeeds m inst size next .stringEq m'
  | stringNe {m' : Machine} (done : m.comparingStrings false = .ok m') : Succeeds m inst size next .stringNe m'
  | arrayNew {m' : Machine} (done : m.makingArray (inst.operand 0) (inst.operand 1) = .ok m') :
    Succeeds m inst size next .arrayNew m'
  | arrayNewDefault {m' : Machine} (done : m.makingZeroArray (inst.operand 0) = .ok m') :
    Succeeds m inst size next .arrayNewDefault m'
  | arrayLen {m' : Machine} (done : m.measuringArray = .ok m') : Succeeds m inst size next .arrayLen m'
  | arrayGet {m' : Machine} (done : m.readingElement = .ok m') : Succeeds m inst size next .arrayGet m'
  | arraySet {m' : Machine} (done : m.storingElement = .ok m') : Succeeds m inst size next .arraySet m'
  | structNew {m' : Machine} (done : m.makingStruct (inst.operand 0) = .ok m') :
    Succeeds m inst size next .structNew m'
  | structNewDefault {m' : Machine} (done : m.makingZeroStruct (inst.operand 0) = .ok m') :
    Succeeds m inst size next .structNewDefault m'
  | structGet {m' : Machine} (done : m.readingField (inst.operand 0) = .ok m') :
    Succeeds m inst size next .structGet m'
  | structSet {m' : Machine} (done : m.storingField (inst.operand 0) = .ok m') :
    Succeeds m inst size next .structSet m'

theorem succeeds_of_effect {m m' : Machine} {inst : Instruction} {size next : Nat}
    (done : m.effect inst size next = .ok m') : m.Succeeds inst size next inst.opcode m' := by
  unfold effect at done
  generalize inst.opcode = opcode at done
  cases opcode with
  | nop =>
    cases done
    exact .nop
  | unreachable => cases done
  | drop =>
    obtain ⟨_, need, done⟩ := bind_eq_ok done
    cases done
    exact .drop (need_eq_ok.1 need)
  | dup =>
    obtain ⟨_, need, done⟩ := bind_eq_ok done
    exact .dup (need_eq_ok.1 need) done
  | swap =>
    obtain ⟨_, need, done⟩ := bind_eq_ok done
    cases done
    exact .swap (need_eq_ok.1 need)
  | select =>
    obtain ⟨_, need, done⟩ := bind_eq_ok done
    obtain ⟨condition, number, done⟩ := bind_eq_ok done
    obtain ⟨_, _, done⟩ := bind_eq_ok done
    cases done
    refine .select (need_eq_ok.1 need) number ?_
    cases condition != 0 with
    | true => exact .inl ⟨rfl, rfl⟩
    | false => exact .inr ⟨rfl, rfl⟩
  | br => exact .br done
  | brIf =>
    obtain ⟨_, need, done⟩ := bind_eq_ok done
    obtain ⟨condition, _, done⟩ := bind_eq_ok done
    split at done
    · obtain ⟨moved, jump, done⟩ := bind_eq_ok done
      cases done
      exact .brIf (need_eq_ok.1 need) jump
    · cases done
      exact .brIfNot (need_eq_ok.1 need)
  | brTable =>
    obtain ⟨_, need, done⟩ := bind_eq_ok done
    obtain ⟨selector, _, done⟩ := bind_eq_ok done
    obtain ⟨moved, jump, done⟩ := bind_eq_ok done
    cases done
    refine .brTable (need_eq_ok.1 need) ?_ jump
    -- a selector in range picks its own case, any other the last one
    split
    · omega
    · omega
  | call => exact .call done
  | ret => exact .ret done
  | globalGet =>
    obtain ⟨v, found, done⟩ := bind_eq_ok done
    exact .globalGet (lookup_eq_ok found) done
  | globalSet =>
    obtain ⟨_, need, done⟩ := bind_eq_ok done
    cases done
    exact .globalSet (need_eq_ok.1 need)
  | globalTee =>
    obtain ⟨_, need, done⟩ := bind_eq_ok done
    cases done
    exact .globalTee (need_eq_ok.1 need)
  | localGet =>
    obtain ⟨place, found, done⟩ := bind_eq_ok done
    exact .localGet found done
  | localSet =>
    obtain ⟨place, found, done⟩ := bind_eq_ok done
    obtain ⟨_, need, done⟩ := bind_eq_ok done
    cases done
    exact .localSet found (need_eq_ok.1 need)
  | localTee =>
    obtain ⟨place, found, done⟩ := bind_eq_ok done
    obtain ⟨_, need, done⟩ := bind_eq_ok done
    cases done
    exact .localTee found (need_eq_ok.1 need)
  | constGet =>
    obtain ⟨v, found, done⟩ := bind_eq_ok done
    exact .constGet (lookup_eq_ok found) done
  | refNull =>
    obtain ⟨_, room, done⟩ := bind_eq_ok done
    cases done
    exact .refNull (room_eq_ok.1 room)
  | const s =>
    obtain ⟨_, room, done⟩ := bind_eq_ok done
    cases done
    exact .const (room_eq_ok.1 room)
  | operation op =>
    obtain ⟨_, need, done⟩ := bind_eq_ok done
    obtain ⟨operands, _, done⟩ := bind_eq_ok done
    obtain ⟨result, evaluated, done⟩ := bind_eq_ok done
    cases done
    exact .operation (need_eq_ok.1 need) evaluated
  | stringLen => exact .stringLen done
  | stringConcat => exact .stringConcat done
  | stringEq => exact .stringEq done
  | stringNe => exact .stringNe done
  | arrayNew => exact .arrayNew done
  | arrayNewDefault => exact .arrayNewDefault done
  | arrayLen => exact .arrayLen done
  | arrayGet => exact .arrayGet done
  | arraySet => exact .arraySet done
  | structNew => exact .structNew done
  | structNewDefault => exact .structNewDefault done
  | structGet => exact .structGet done
  | structSet => exact .structSet done

end Machine

namespace Exec

variable {α : Type} {m : Machine}

/-! ### Effects one after the other -/

theorem ask_apply (question : Machine → Except Cause α) :
    ask question m =
      match question m with
      | .ok a => .ok a m
      | .error c => .error (.fault c) m := by
  change (match question m with | .ok a => pure a | .error c => fault c : Exec α) m = _
  cases question m <;> rfl

/-- A question is answered before what follows it, and a failing one ends the instruction. -/
theorem ask_bind (question : Machine → Except Cause α) (f : α → Exec Unit)
    (g : α → Except Cause Machine)
    (rest : ∀ a, question m = .ok a → f a m = m.outcome (g a)) :
    (ask question >>= f) m = m.outcome (question m >>= g) := by
  change EStateM.bind (ask question) f m = _
  rw [EStateM.bind, ask_apply]
  -- a question does not change the machine
  cases answer : question m with
  | error c => rfl
  | ok a => exact rest a answer

theorem pushCopy_apply (v : Value) : pushCopy v m = m.outcome (m.copied v) := by
  refine ask_bind _ _ _ fun _ _ => ?_
  rfl

theorem jump_apply (size next : Nat) (displacement : Int) :
    jump size next displacement m = m.outcome (m.jumped size next displacement) := by
  unfold jump Machine.jumped
  cases Code.jumpTarget? next displacement with
  | none => rfl
  | some target =>
    by_cases inside : target < size
    · simp only [inside, if_true]
      rfl
    · simp only [inside, if_false]
      rfl

theorem pushRead_apply (v : Value) :
    pushRead v m = m.outcome (m.room 1 >>= fun _ => .ok (m.pushedRead v)) := by
  cases v with
  | i64 n =>
    refine ask_bind _ _ _ fun _ _ => ?_
    simp only [Machine.pushedRead]
    split <;> rfl
  | _ => exact ask_bind _ _ _ fun _ _ => rfl

/-- There is room for a result once its operands are gone. -/
theorem replaceTop_apply {n : Nat} (v : Value) (some_operand : 0 < n)
    (bounded : m.stack.length ≤ m.options.stackSize) (enough : n ≤ m.stack.length) :
    replaceTop n v m = .ok () (m.replaced n v) := by
  -- the bound on the stack is what makes the question superfluous
  have room : (m.discarded n).room 1 = .ok () := by
    refine Machine.room_eq_ok.2 ?_
    simp only [Machine.discarded, Machine.dropped, Machine.releaseAll, List.length_drop]
    omega
  change pushRead v (m.discarded n) = _
  rw [pushRead_apply, room]
  rfl

/-! ### Instructions on the heap -/

theorem enter_apply (f : Function) (captures : List Value) (callee : Nat) :
    enter f captures callee m = m.outcome (m.entering f captures callee) := by
  unfold enter Machine.entering
  -- the questions in the order in which they are asked
  by_cases captured : f.locals < captures.length
  · simp only [Machine.reject, captured, if_true]
    rfl
  · simp only [Machine.reject, captured, if_false]
    refine ask_bind _ _ _ fun _ _ => ?_
    rw [get_bind]
    by_cases frames : m.options.frameSize ≤ m.frames.length
    · simp only [frames, if_true]
      rfl
    · by_cases locals : m.options.stackSize < m.stack.length - 1 + f.locals
      · simp only [frames, locals, if_true, if_false]
        rfl
      · simp only [frames, locals, if_false]
        rfl

/-- A host function is the only thing whose call runs the machine again. -/
theorem call_apply (nested : Exec Unit)
    (guest : ∀ a signature body, m.heap.get? a ≠ some (.host signature body)) :
    call nested m = m.outcome m.calling := by
  refine ask_bind _ _ _ fun _ _ => ?_
  refine ask_bind _ _ _ fun callee _ => ?_
  rw [get_bind]
  cases found : m.heap.get? callee with
  | none => rfl
  | some o =>
    -- only functions and closures are entered
    cases o with
    | function f => exact enter_apply f [] callee
    | closure f captures => exact enter_apply f captures callee
    | host signature body => exact absurd found (guest callee signature body)
    | _ => rfl

theorem ret_apply : ret m = m.outcome m.returning := by
  unfold Machine.returning
  unfold ret
  rw [get_bind]
  cases m.frames with
  | nil => rfl
  | cons frame callers => exact ask_bind _ _ _ fun _ _ => rfl

theorem stringLen_apply (bounded : m.stack.length ≤ m.options.stackSize) :
    stringLen m = m.outcome m.measuringString := by
  refine ask_bind _ _ _ fun _ need => ?_
  have enough := Machine.need_eq_ok.1 need
  refine ask_bind _ _ _ fun o _ => ?_
  cases o with
  | string s => exact replaceTop_apply _ (by omega) bounded (by omega)
  | _ => rfl

theorem stringConcat_apply : stringConcat m = m.outcome m.joiningStrings := by
  refine ask_bind _ _ _ fun _ _ => ?_
  exact ask_bind _ _ _ fun _ _ => rfl

theorem stringTest_apply (equal : Bool) (bounded : m.stack.length ≤ m.options.stackSize) :
    stringTest equal m = m.outcome (m.comparingStrings equal) := by
  refine ask_bind _ _ _ fun _ need => ?_
  have enough := Machine.need_eq_ok.1 need
  exact ask_bind _ _ _ fun _ _ => replaceTop_apply _ (by omega) bounded (by omega)

theorem arrayNew_apply (index count : Nat) :
    arrayNew index count m = m.outcome (m.makingArray index count) := by
  refine ask_bind _ _ _ fun t _ => ?_
  cases t.elem? with
  | none => rfl
  | some elem =>
    refine ask_bind _ _ _ fun _ _ => ?_
    refine ask_bind (·.readAll _ _) _ _ fun numbers _ => ?_
    unfold Machine.roomAfter
    -- an empty array is the one case that asks for room
    by_cases empty : count = 0
    · simp only [empty, if_true]
      refine ask_bind _ _ _ fun _ _ => ?_
      cases t <;> rfl
    · simp only [empty, if_false]
      cases t <;> rfl

theorem arrayNewDefault_apply (index : Nat) :
    arrayNewDefault index m = m.outcome (m.makingZeroArray index) := by
  refine ask_bind _ _ _ fun t _ => ?_
  refine ask_bind _ _ _ fun _ _ => ?_
  refine ask_bind _ _ _ fun length _ => ?_
  rw [get_bind]
  by_cases long : m.options.arraySize < length
  · simp only [Machine.reject, long, if_true]
    rfl
  · simp only [Machine.reject, long, if_false]
    cases t <;> rfl

theorem arrayLen_apply (bounded : m.stack.length ≤ m.options.stackSize) :
    arrayLen m = m.outcome m.measuringArray := by
  refine ask_bind _ _ _ fun _ need => ?_
  have enough := Machine.need_eq_ok.1 need
  refine ask_bind _ _ _ fun o _ => ?_
  cases o.length? with
  | none => rfl
  | some n => exact replaceTop_apply _ (by omega) bounded (by omega)

theorem arrayGet_apply (bounded : m.stack.length ≤ m.options.stackSize) :
    arrayGet m = m.outcome m.readingElement := by
  refine ask_bind _ _ _ fun _ need => ?_
  have enough := Machine.need_eq_ok.1 need
  refine ask_bind _ _ _ fun i _ => ?_
  refine ask_bind _ _ _ fun o _ => ?_
  cases o.length? with
  | none => rfl
  | some n =>
    refine ask_bind (fun _ => Machine.lookup (o.element? i)) _ _ fun v _ => ?_
    -- the element is retained before its array is given up
    exact replaceTop_apply (m := m.retain v) v (by omega) bounded (by simp [Machine.retain]; omega)

theorem arraySet_apply : arraySet m = m.outcome m.storingElement := by
  refine ask_bind _ _ _ fun _ _ => ?_
  refine ask_bind _ _ _ fun i _ => ?_
  refine ask_bind _ _ _ fun a _ => ?_
  refine ask_bind _ _ _ fun o _ => ?_
  cases o.ty.elem? with
  | none => rfl
  | some elem =>
    dsimp only
    rw [get_bind]
    cases m.read? elem.kind (m.peek 0) with
    | none => rfl
    | some number => exact ask_bind (fun _ => Machine.lookup (o.element? i)) _ _ fun old _ => rfl

theorem structFields_apply (index : Nat) :
    structFields index m =
      match m.structFields index with
      | .ok fields => .ok fields m
      | .error c => .error (.fault c) m := by
  unfold structFields Machine.structFields
  change EStateM.bind (ask (·.typeAt index)) _ m = _
  rw [EStateM.bind, ask_apply]
  cases m.typeAt index with
  | error c => rfl
  | ok t => cases t <;> rfl

theorem structFields_bind (index : Nat) (f : List Ty → Exec Unit)
    (g : List Ty → Except Cause Machine)
    (rest : ∀ fields, f fields m = m.outcome (g fields)) :
    (structFields index >>= f) m = m.outcome (m.structFields index >>= g) := by
  change EStateM.bind (structFields index) f m = _
  rw [EStateM.bind, structFields_apply]
  cases m.structFields index with
  | error c => rfl
  | ok fields => exact rest fields

theorem structNew_apply (index : Nat) :
    structNew index m = m.outcome (m.makingStruct index) := by
  refine structFields_bind index _ _ fun fields => ?_
  refine ask_bind _ _ _ fun _ _ => ?_
  refine ask_bind (·.readAll _ _) _ _ fun values _ => ?_
  unfold Machine.roomAfter
  -- a struct without fields is the one case that asks for room
  by_cases empty : fields.length = 0
  · simp only [empty, if_true]
    exact ask_bind _ _ _ fun _ _ => rfl
  · simp only [empty, if_false]
    rfl

theorem structNewDefault_apply (index : Nat) :
    structNewDefault index m = m.outcome (m.makingZeroStruct index) := by
  refine structFields_bind index _ _ fun fields => ?_
  exact ask_bind _ _ _ fun _ _ => rfl

theorem structGet_apply (field : Nat) (bounded : m.stack.length ≤ m.options.stackSize) :
    structGet field m = m.outcome (m.readingField field) := by
  refine ask_bind _ _ _ fun _ need => ?_
  have enough := Machine.need_eq_ok.1 need
  refine ask_bind _ _ _ fun o _ => ?_
  cases o with
  | struct r =>
    refine ask_bind (fun _ => Machine.lookup (r.get? field)) _ _ fun v _ => ?_
    exact replaceTop_apply (m := m.retain v) v (by omega) bounded (by simp [Machine.retain]; omega)
  | _ => rfl

theorem structSet_apply (field : Nat) : structSet field m = m.outcome (m.storingField field) := by
  refine ask_bind _ _ _ fun _ _ => ?_
  refine ask_bind _ _ _ fun a _ => ?_
  refine ask_bind _ _ _ fun o _ => ?_
  cases o with
  | struct r =>
    refine ask_bind (fun _ => Machine.lookup r.fields[field]?) _ _ fun t _ => ?_
    refine ask_bind (fun _ => Machine.lookup (r.get? field)) _ _ fun old _ => ?_
    rw [get_bind]
    cases m.read? t.kind (m.peek 0) <;> rfl
  | _ => rfl

/-! ### All instructions -/

theorem branch_apply (size next : Nat) (displacement : Int) :
    (jump size next displacement >>= fun _ => modify (·.discarded 1)) m =
      m.outcome (m.jumped size next displacement >>= fun moved => .ok (moved.discarded 1)) := by
  change EStateM.bind _ _ m = _
  rw [EStateM.bind, jump_apply]
  cases m.jumped size next displacement <;> rfl

/-- A branch does what `effect` says, however high the stack is. -/
theorem execute_branch (nested : Exec Unit) (size next : Nat) {inst : Instruction}
    (branch : inst.opcode ∈ [.br, .brIf, .brTable]) :
    executeDecoded nested inst size next m = m.outcome (m.effect inst size next) := by
  unfold executeDecoded Machine.effect
  cases opcode : inst.opcode with
  | br => exact jump_apply size next _
  | brIf =>
    refine ask_bind _ _ _ fun _ _ => ?_
    refine ask_bind _ _ _ fun condition _ => ?_
    cases condition != 0 with
    | true => exact branch_apply size next _
    | false => rfl
  | brTable =>
    refine ask_bind _ _ _ fun _ _ => ?_
    refine ask_bind _ _ _ fun selector _ => ?_
    exact branch_apply size next _
  | _ => simp [opcode] at branch

/-- An instruction does what `effect` says; in particular one that fails leaves the machine as it was. -/
theorem execute_eq (nested : Exec Unit) (inst : Instruction) (size next : Nat)
    (bounded : m.stack.length ≤ m.options.stackSize)
    (guest : inst.opcode = .call → ∀ a signature body, m.heap.get? a ≠ some (.host signature body)) :
    executeDecoded nested inst size next m = m.outcome (m.effect inst size next) := by
  by_cases branch : inst.opcode ∈ [.br, .brIf, .brTable]
  · exact execute_branch nested size next branch
  unfold executeDecoded Machine.effect
  cases opcode : inst.opcode with
  | br => simp [opcode] at branch
  | brIf => simp [opcode] at branch
  | brTable => simp [opcode] at branch
  | nop => rfl
  | unreachable => rfl
  | drop => exact ask_bind _ _ _ fun _ _ => rfl
  | dup => exact ask_bind _ _ _ fun _ _ => pushCopy_apply _
  | swap => exact ask_bind _ _ _ fun _ _ => rfl
  | select =>
    refine ask_bind _ _ _ fun _ _ => ?_
    refine ask_bind _ _ _ fun condition _ => ?_
    rw [get_bind]
    cases m.sameKind (m.peek 2) (m.peek 1) <;> rfl
  | call => exact call_apply nested (guest opcode)
  | ret => exact ret_apply
  | globalGet => exact ask_bind _ _ _ fun _ _ => pushCopy_apply _
  | globalSet => exact ask_bind _ _ _ fun _ _ => rfl
  | globalTee => exact ask_bind _ _ _ fun _ _ => rfl
  | localGet => exact ask_bind _ _ _ fun _ _ => pushCopy_apply _
  | localSet =>
    refine ask_bind _ _ _ fun _ _ => ?_
    exact ask_bind _ _ _ fun _ _ => rfl
  | localTee =>
    refine ask_bind _ _ _ fun _ _ => ?_
    exact ask_bind _ _ _ fun _ _ => rfl
  | constGet => exact ask_bind _ _ _ fun _ _ => pushCopy_apply _
  | refNull => exact ask_bind _ _ _ fun _ _ => rfl
  | const s => exact pushRead_apply _
  | operation op =>
    refine ask_bind _ _ _ fun _ need => ?_
    have enough := Machine.need_eq_ok.1 need
    refine ask_bind _ _ _ fun operands _ => ?_
    refine ask_bind (fun _ => op.eval operands) _ _ fun result _ => ?_
    exact replaceTop_apply _ op.arity_pos bounded (by omega)
  | stringLen => exact stringLen_apply bounded
  | stringConcat => exact stringConcat_apply
  | stringEq => exact stringTest_apply true bounded
  | stringNe => exact stringTest_apply false bounded
  | arrayNew => exact arrayNew_apply _ _
  | arrayNewDefault => exact arrayNewDefault_apply _
  | arrayLen => exact arrayLen_apply bounded
  | arrayGet => exact arrayGet_apply bounded
  | arraySet => exact arraySet_apply
  | structNew => exact structNew_apply _
  | structNewDefault => exact structNewDefault_apply _
  | structGet => exact structGet_apply _ bounded
  | structSet => exact structSet_apply _

end Exec

end StackVM
