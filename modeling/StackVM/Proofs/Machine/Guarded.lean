import StackVM.Machine.Step

/-!
# A machine that checks its accesses

Instructions read places of the stack, cut it off at heights and subtract from heights without looking
whether there is anything: they rely on what they asked for before. The guarded machine looks every time, at
the places, bytes and slots that are about to be used and at every difference of heights, and stops as out of
range where one is not there. When an object is freed it is traced, and to trace a struct is to read all its
fields, so whatever gives up references is checked as well (`freeing`). But for these checks the guarded
machine does what the machine does (`lift`).

What only pushes and pops has nothing to check: popping an empty stack gives null.
-/

namespace StackVM

/-- Why a guarded machine stops. -/
inductive Halt where
  | stop (s : Stop)
  /-- Something that is used is not there. -/
  | outOfRange
deriving DecidableEq, Repr

abbrev Guarded := EStateM Halt Machine

/-- Field `i` has an offset, and all its bytes are there. -/
def Record.covers (r : Record) (i : Nat) : Bool :=
  match r.fields[i]?, r.layout.offsets[i]? with
  | some t, some offset => offset + t.kind.width ≤ r.data.length
  | _, _ => false

/-- A struct is traced field by field. -/
def Record.traceable (r : Record) : Bool := (List.range r.fields.length).all r.covers

/-- Every struct that is gone afterwards could be traced. -/
def Heap.traced (before after : Heap) : Bool :=
  (List.range before.size).all fun a =>
    match before.get? a with
    | some (.struct r) => (after.get? a).isSome || r.traceable
    | _ => true

namespace Guarded

variable {α : Type}

/-- Does what the machine does, which uses nothing that could be out of range. -/
def lift (x : Exec α) : Guarded α := fun m =>
  match x m with
  | .ok a m' => .ok a m'
  | .error s m' => .error (.stop s) m'

def ask (question : Machine → Except Cause α) : Guarded α := lift (Exec.ask question)

def fault (c : Cause) : Guarded α := lift (Exec.fault c)

/-- Answers with the error where there is one. That something is out of range is none. -/
def attempt (c : Guarded α) : Guarded (Except Error α) := fun m =>
  match c m with
  | .ok a m => .ok (.ok a) m
  | .error (.stop (.fault e)) m => .ok (.error e) m
  | .error halt m => .error halt m

/-! ### Checks -/

/-- Goes on only if what comes next is in range. -/
def within (inRange : Prop) [Decidable inRange] : Guarded Unit :=
  if inRange then return else throw .outOfRange

/-- The difference of two heights. -/
def sub (n k : Nat) : Guarded Nat := do
  within (k ≤ n)
  return n - k

def height : Guarded Nat := return (← get).stack.length

/-- The value at a place of the stack, counted from the bottom. -/
def slot (place : Nat) : Guarded Value := do
  let m ← get
  within (place < m.stack.length)
  return m.peek (m.fromTop place)

/-- The value `depth` places below the top. -/
def peek (depth : Nat) : Guarded Value := do
  let top ← sub (← height) 1
  slot (← sub top depth)

/-- Asks about the value at a depth. -/
def askAt (depth : Nat) (question : Machine → Except Cause α) : Guarded α := do
  let _ ← peek depth
  ask question

/-- Looks at each of the top `n` values. -/
def peekAll : Nat → Guarded Unit
  | 0 => return
  | n + 1 => do
    peekAll n
    let _ ← peek n

/-- Asks about the top `n` values. -/
def askTop (n : Nat) (question : Machine → Except Cause α) : Guarded α := do
  peekAll n
  ask question

/-- Asks about the top `n` values once it is known that they are there. -/
def askNeeded (n : Nat) (question : Machine → Except Cause α) : Guarded α := do
  ask (·.need n)
  askTop n question

/-! ### Objects -/

/-- The heap reuses the slot that was freed last. -/
def freeSlot : Guarded Unit := do
  let m ← get
  within (∀ a ∈ m.heap.free.head?, a < m.heap.size)

/-- A change that gives up references, and with the last one to an object the object. -/
def freeing (change : Machine → Machine) : Guarded Unit := do
  let m ← get
  within (m.heap.traced (change m).heap)
  modify change

def pushObject (o : Object) : Guarded Unit := do
  freeSlot
  modify (·.pushedObject o)

def pushInt (n : BitVec 64) : Guarded Unit := do
  ask (·.room 1)
  if Value.fitsPayload n then modify (·.pushed (.i64 n)) else pushObject (.int64 n)

def pushRead : Value → Guarded Unit
  | .i64 n => pushInt n
  | v => lift (Exec.push v.canonical)

def replaceTop (n : Nat) (result : Value) : Guarded Unit := do
  freeing (·.discarded n)
  pushRead result

/-! ### Strings, arrays and structs -/

def stringLen : Guarded Unit := do
  ask (·.need 1)
  match ← askAt 0 (·.objectAt 0) with
  | .string s => replaceTop 1 (.i32 (.ofNat 32 s.utf8ByteSize))
  | _ => fault .typeMismatch

def stringConcat : Guarded Unit := do
  ask (·.need 2)
  let (s, t) ← askTop 2 Machine.stringsAt
  freeing (·.discarded 2)
  pushObject (.string (s ++ t))

def stringTest (equal : Bool) : Guarded Unit := do
  ask (·.need 2)
  let (s, t) ← askTop 2 Machine.stringsAt
  replaceTop 2 (.ofBool ((s == t) == equal))

/-- The elements lie above the height to which the stack is cut off. -/
def arrayNew (index count : Nat) : Guarded Unit := do
  let t ← ask (·.typeAt index)
  match t.elem? with
  | none => fault .typeMismatch
  | some elem =>
    ask (·.need count)
    let m ← get
    let elems := (m.stack.take count).reverse
    let numbers ← askTop count (·.readAll (List.replicate count elem) elems)
    if count = 0 then ask (·.room 1)
    let _ ← sub (← height) count
    match t with
    | .packed s =>
      freeing (·.discarded count)
      pushObject (.packed (.ofValues s numbers))
    | _ =>
      modify (·.dropped count)
      pushObject (.array elem elems.toArray)

def arrayNewDefault (index : Nat) : Guarded Unit := do
  let t ← ask (·.typeAt index)
  ask (·.need 1)
  let length ← askAt 0 (·.indexAt 0)
  if (← get).options.arraySize < length then fault .segmentationFault
  let o : Object ← match t with
    | .packed s => pure (.packed (.zeros s length))
    | .array elem => pure (.array elem (Array.replicate length (.zero elem.kind)))
    | _ => fault .typeMismatch
  freeing (·.discarded 1)
  pushObject o

def arrayLen : Guarded Unit := do
  ask (·.need 1)
  match (← askAt 0 (·.objectAt 0)).length? with
  | some n => replaceTop 1 (.i32 (.ofNat 32 n))
  | none => fault .typeMismatch

def arrayGet : Guarded Unit := do
  ask (·.need 2)
  let i ← askAt 0 (·.indexAt 0)
  let o ← askAt 1 (·.objectAt 1)
  if o.length?.isNone then fault .typeMismatch
  let v ← ask fun _ => Machine.lookup (o.element? i)
  modify (·.retain v)
  replaceTop 2 v

/-- The element must be there when it is written. -/
def arraySet : Guarded Unit := do
  ask (·.need 3)
  let v ← peek 0
  let i ← askAt 1 (·.indexAt 1)
  let a ← askAt 2 (·.addressAt 2)
  let o ← askAt 2 (·.objectAt 2)
  match o.ty.elem? with
  | none => fault .typeMismatch
  | some elem =>
    match (← get).read? elem.kind v with
    | none => fault .typeMismatch
    | some number =>
      let old ← ask fun _ => Machine.lookup (o.element? i)
      within (o.length?.any (i < ·))
      let (stored, replaced) := Exec.exchange o v number old
      modify fun m => { m.dropped 1 with heap := m.heap.update a (·.setElement i stored) }
      freeing (·.release replaced)
      freeing (·.discarded 2)

/-- Each operand is read from its place above the base and written to its field. -/
def structNew (index : Nat) : Guarded Unit := do
  let fields ← lift (Exec.structFields index)
  let n := fields.length
  ask (·.need n)
  let operands := ((← get).stack.take n).reverse
  let values ← askTop n (·.readAll fields operands)
  if n = 0 then ask (·.room 1)
  let top ← height
  let base ← sub top n
  within (∀ i < n, base + i < top ∧ (Record.zero fields).covers i)
  let numbers := (fields.zip operands).filter (fun (t, _) => !t.isRef) |>.map Prod.snd
  modify (·.dropped n)
  freeing (·.releaseAll numbers)
  pushObject (.struct (.ofValues fields values))

def structNewDefault (index : Nat) : Guarded Unit := do
  let fields ← lift (Exec.structFields index)
  ask (·.room 1)
  pushObject (.struct (.zero fields))

def structGet (field : Nat) : Guarded Unit := do
  ask (·.need 1)
  match ← askAt 0 (·.objectAt 0) with
  | .struct r =>
    let _ ← ask fun _ => Machine.lookup r.fields[field]?
    within (r.covers field)
    let v ← ask fun _ => Machine.lookup (r.get? field)
    modify (·.retain v)
    replaceTop 1 v
  | _ => fault .typeMismatch

def structSet (field : Nat) : Guarded Unit := do
  ask (·.need 2)
  let v ← peek 0
  let a ← askAt 1 (·.addressAt 1)
  match ← askAt 1 (·.objectAt 1) with
  | .struct r =>
    let t ← ask fun _ => Machine.lookup r.fields[field]?
    match (← get).read? t.kind v with
    | none => fault .typeMismatch
    | some stored =>
      within (r.covers field)
      let old ← ask fun _ => Machine.lookup (r.get? field)
      modify fun m => { m.dropped 1 with heap := m.heap.update a (·.setField field stored) }
      freeing (·.release (if t.isRef then old else v))
      freeing (·.discarded 1)
  | _ => fault .typeMismatch

/-! ### Calls and returns -/

def enter (f : Function) (captures : List Value) (callee : Nat) : Guarded Unit := do
  if f.locals < captures.length then fault .typeMismatch
  askNeeded (f.signature.params.length + 1) (·.checkArguments f.signature.params)
  let m ← get
  if m.options.frameSize ≤ m.frames.length then fault .frameOverflow
  let below ← sub m.stack.length 1
  if m.options.stackSize < below + f.locals then fault .stackOverflow
  let _ ← sub below f.signature.params.length
  modify (·.entered f captures callee)

def perform (nested : Guarded Unit) : Script → Guarded (List Value)
  | .finish results => return results
  | .fail e => throw (.stop (.fault e))
  | .tryPush v next => do perform nested (next (← attempt (lift (Exec.push v))))
  | .tryPushInt n next => do perform nested (next (← attempt (pushInt n)))
  | .tryPop next => do perform nested (next (← attempt (lift Exec.pop)))
  | .alloc o next => do freeSlot; perform nested (next (← modifyGet (·.alloc o)))
  | .retain v next => do modify (·.retain v); perform nested next
  | .release v next => do freeing (·.release v); perform nested next
  | .getGlobal i next => do perform nested (next ((← get).globals.get? i))
  | .setGlobal i v next => do freeing (·.setGlobal i v); perform nested next
  | .readInt v next => do perform nested (next ((← get).int64? v))
  | .readString v next => do perform nested (next ((← get).string? v))
  | .reset next => do freeing Machine.reset; perform nested next
  | .tryRun next => do perform nested (next (← attempt nested))

/-- An argument that is not marked yet and equals the result. -/
def echoes (result : Value) (entry : Value × Bool) : Bool := !entry.2 && entry.1 == result

/-- Marks the first argument that the result echoes. -/
def echo (arguments : List Value) (echoed : List Bool) (result : Value) : Guarded (List Bool) :=
  match (arguments.zip echoed).findIdx? (echoes result) with
  | some i => do
    within (i < echoed.length)
    return echoed.set i true
  | none => return echoed

/-- Arguments that are not marked. -/
def unmarked (arguments : List Value) (echoed : List Bool) : List Value :=
  ((arguments.zip echoed).filter fun entry => !entry.2).map Prod.fst

def settle (returns : Nat) (arguments results : List Value) : Guarded Unit := do
  if results.length = returns then
    let echoed ← (results.filter Value.isRef).foldlM (echo arguments)
      (List.replicate arguments.length false)
    freeing (·.releaseAll (unmarked arguments echoed))
    modify fun m => { m with stack := results.reverse ++ m.stack }
  else
    freeing (·.releaseAll (arguments ++ results))
    fault .typeMismatch

/-- The stack is cut off below the arguments once the reference to the function is taken. -/
def callHost (nested : Guarded Unit) (signature : Signature) (body : List Value → Script)
    (callee : Nat) : Guarded Unit := do
  let n := signature.params.length
  let returns := signature.returns.length
  askNeeded (n + 1) (·.checkArguments signature.params)
  let m ← get
  let below ← sub m.stack.length 1
  let rest ← sub below n
  if m.options.stackSize < rest + returns then fault .stackOverflow
  let arguments ← modifyGet fun m => (((m.stack.drop 1).take n).reverse, m.dropped (n + 1))
  fun m =>
    match perform nested (body arguments) m with
    | .ok results m => (do freeing (·.release (.ref callee)); settle returns arguments results) m
    | .error halt m =>
      if halt = .outOfRange then .error halt m
      else (do freeing (·.release (.ref callee)); freeing (·.releaseAll arguments); throw halt) m

def call (nested : Guarded Unit) : Guarded Unit := do
  ask (·.need 1)
  let callee ← askAt 0 (·.addressAt 0)
  match (← get).heap.get? callee with
  | some (.function f) => enter f [] callee
  | some (.closure f captures) => enter f captures callee
  | some (.host signature body) => callHost nested signature body callee
  | some _ => fault .typeMismatch
  | none => fault .segmentationFault

/-- The stack is cut off below the results and then at the base of the frame. -/
def ret : Guarded Unit := do
  match (← get).frames with
  | [] => fault .frameUnderflow
  | frame :: _ =>
    let returns := frame.function.signature.returns
    askNeeded returns.length (·.checkResults returns)
    let below ← sub (← height) returns.length
    within (frame.base ≤ below)
    freeing (·.returned frame)

/-! ### Steps and runs -/

/-- The index in the two bytes at an offset of the code. Reading past the end is a fault. -/
def index (code : Code) (offset : Nat) : Guarded Nat := ask fun _ => Machine.lookup (code.read? offset 2)

def execute (nested : Guarded Unit) (code : Code) (ip : Nat) (opcode : Opcode) (next : Nat) : Guarded Unit :=
  match opcode with
  -- these only push, pop and jump
  | .nop | .unreachable | .br | .globalGet | .constGet | .refNull =>
    lift (Exec.execute (pure ()) code ip opcode next)
  | .drop => do
    ask (·.need 1)
    freeing (·.discarded 1)
  | .dup => do
    ask (·.need 1)
    lift (Exec.pushCopy (← peek 0))
  | .swap => do
    ask (·.need 2)
    let first ← slot (← sub (← height) 1)
    let second ← slot (← sub (← height) 2)
    modify fun m => { m with stack := second :: first :: m.stack.drop 2 }
  | .select => do
    ask (·.need 3)
    let condition ← askAt 0 (·.int32At 0)
    let first ← peek 2
    let second ← peek 1
    if !(← get).sameKind first second then fault .typeMismatch
    let _ ← sub (← height) 3
    let (kept, other) := if condition != 0 then (first, second) else (second, first)
    freeing fun m => ((m.dropped 3).release other).pushed kept
  | .brIf => do
    ask (·.need 1)
    if (← askAt 0 (·.int32At 0)) != 0 then lift (Exec.branch code (ip + 1) next)
    freeing (·.discarded 1)
  | .brTable => do
    ask (·.need 1)
    let selector := (← askAt 0 (·.int32At 0)).toInt
    let count ← index code (ip + 1)
    let case := if 0 ≤ selector ∧ selector < count then selector.toNat else count
    lift (Exec.branch code (ip + 3 + 4 * case) next)
    freeing (·.discarded 1)
  | .call => call nested
  | .ret => ret
  | .globalSet => do
    let i ← index code (ip + 1)
    ask (·.need 1)
    let v ← lift Exec.take
    freeing (·.setGlobal i v)
  | .globalTee => do
    let i ← index code (ip + 1)
    ask (·.need 1)
    let v ← peek 0
    freeing fun m => (m.retain v).setGlobal i v
  | .localGet => do
    let i ← index code (ip + 1)
    let place ← ask (·.localAt i)
    lift (Exec.pushCopy (← slot place))
  | .localSet => do
    let i ← index code (ip + 1)
    let place ← ask (·.localAt i)
    ask (·.need 1)
    let v ← lift Exec.take
    let _ ← slot place
    freeing (·.setPlace place v)
  | .localTee => do
    let i ← index code (ip + 1)
    let place ← ask (·.localAt i)
    ask (·.need 1)
    let v ← peek 0
    let _ ← slot place
    freeing fun m => (m.retain v).setPlace place v
  | .const s => do
    let n ← ask fun _ => Machine.lookup (code.read? (ip + 1) s.width)
    pushRead (.ofRaw (.scalar s) n)
  | .operation op => do
    let n := op.shape.arity
    ask (·.need n)
    let operands ← askTop n (·.operands n op.shape.operand)
    let result ← ask fun _ => op.eval operands
    replaceTop n result
  | .stringLen => stringLen
  | .stringConcat => stringConcat
  | .stringEq => stringTest true
  | .stringNe => stringTest false
  | .arrayNew => do arrayNew (← index code (ip + 1)) (← index code (ip + 3))
  | .arrayNewDefault => do arrayNewDefault (← index code (ip + 1))
  | .arrayLen => arrayLen
  | .arrayGet => arrayGet
  | .arraySet => arraySet
  | .structNew => do structNew (← index code (ip + 1))
  | .structNewDefault => do structNewDefault (← index code (ip + 1))
  | .structGet => do structGet (← index code (ip + 1))
  | .structSet => do structSet (← index code (ip + 1))

/-- The offset must be inside the code. -/
def step (nested : Guarded Unit) : Guarded Unit := do
  match (← get).frames with
  | [] => fault .frameUnderflow
  | frame :: _ =>
    let code := frame.function.code
    within (frame.ip < code.size)
    let byte ← ask fun _ => Machine.lookup code[frame.ip]?
    match Opcode.ofByte? byte, code.widthAt? frame.ip with
    | none, _ => fault .unknownOpcode
    | some _, none => fault .segmentationFault
    | some opcode, some width =>
      let next := frame.ip + width
      modify (·.setIp next)
      execute nested code frame.ip opcode next

def located (ip : Nat) (x : Guarded Unit) : Guarded Unit := fun m =>
  match x m with
  | .error (.stop (.fault e)) m => .error (.stop (.fault (e.atOffset ip))) m
  | result => result

def turn (nested : Guarded Unit) : Guarded Bool := do
  match (← get).frames with
  | [] => return false
  | frame :: callers =>
    if frame.ip < frame.function.code.size then
      located frame.ip (step nested)
      return true
    else if callers.isEmpty then
      modify fun m => { m with frames := [] }
      return false
    else
      located frame.ip ret
      return true

def loop : Nat → Guarded Unit
  | 0 => throw (.stop .exhausted)
  | fuel + 1 => do
    if Word.payloadSize < (← get).heap.size then throw (.stop .exhausted)
    if ← turn (do lift Exec.start; loop fuel) then loop fuel

def run (fuel : Nat) : Guarded Unit := do
  lift Exec.start
  loop fuel

end Guarded

end StackVM
