import StackVM.Machine.Exec

/-!
# Strings, arrays and structs

Instructions that make, read and change heap objects. An object that takes over operands takes over
their references; a packed array and a scalar field take only the number, so an integer that came from
the heap is released.
-/

namespace StackVM

namespace Exec

/-! ### Strings -/

def stringLen : Exec Unit := do
  ask (·.need 1)
  match ← ask (·.objectAt 0) with
  | .string s => replaceTop 1 (.i32 (.ofNat 32 s.utf8ByteSize))
  | _ => fault .typeMismatch

def stringConcat : Exec Unit := do
  ask (·.need 2)
  let (s, t) ← ask Machine.stringsAt
  modify (·.discarded 2)
  modify (·.pushedObject (.string (s ++ t)))

/-- Leaves whether two strings are equal, or whether they differ. -/
def stringTest (equal : Bool) : Exec Unit := do
  ask (·.need 2)
  let (s, t) ← ask Machine.stringsAt
  replaceTop 2 (.ofBool ((s == t) == equal))

/-! ### Arrays -/

/-- Takes `count` elements off the stack into a new array of type `types[index]`. -/
def arrayNew (index count : Nat) : Exec Unit := do
  let t ← ask (·.typeAt index)
  match t.elem? with
  | none => fault .typeMismatch
  | some elem =>
    ask (·.need count)
    let m ← get
    let elems := (m.stack.take count).reverse
    let numbers ← ask (·.readAll (List.replicate count elem) elems)
    if count = 0 then ask (·.room 1)
    match t with
    | .packed s =>
      modify (·.discarded count)
      modify (·.pushedObject (.packed (.ofValues s numbers)))
    | _ =>
      modify (·.dropped count)
      modify (·.pushedObject (.array elem elems.toArray))

/-- Replaces a length by a new array of zeros of type `types[index]`. -/
def arrayNewDefault (index : Nat) : Exec Unit := do
  let t ← ask (·.typeAt index)
  ask (·.need 1)
  let length ← ask (·.indexAt 0)
  if (← get).options.arraySize < length then fault .segmentationFault
  let o : Object ← match t with
    | .packed s => pure (.packed (.zeros s length))
    | .array elem => pure (.array elem (Array.replicate length (.zero elem.kind)))
    | _ => fault .typeMismatch
  modify (·.discarded 1)
  modify (·.pushedObject o)

def arrayLen : Exec Unit := do
  ask (·.need 1)
  match (← ask (·.objectAt 0)).length? with
  | some n => replaceTop 1 (.i32 (.ofNat 32 n))
  | none => fault .typeMismatch

def arrayGet : Exec Unit := do
  ask (·.need 2)
  let i ← ask (·.indexAt 0)
  let o ← ask (·.objectAt 1)
  if o.length?.isNone then fault .typeMismatch
  let v ← ask fun _ => Machine.lookup (o.element? i)
  modify (·.retain v)
  replaceTop 2 v

/-- What `array.set` stores in an array of the given element type, and what it releases in exchange: a
packed array keeps the number and gives back the operand, any other array keeps the operand and gives
back the old element. -/
def exchange (o : Object) (v number old : Value) : Value × Value :=
  match o with
  | .packed _ => (number, v)
  | _ => (v, old)

def arraySet : Exec Unit := do
  ask (·.need 3)
  let i ← ask (·.indexAt 1)
  let a ← ask (·.addressAt 2)
  let o ← ask (·.objectAt 2)
  match o.ty.elem? with
  | none => fault .typeMismatch
  | some elem =>
    let m ← get
    let v := m.peek 0
    match m.read? elem.kind v with
    | none => fault .typeMismatch
    | some number =>
      let old ← ask fun _ => Machine.lookup (o.element? i)
      let (stored, replaced) := exchange o v number old
      modify fun m => { m.dropped 1 with heap := m.heap.update a (·.setElement i stored) }
      modify (·.release replaced)
      modify (·.discarded 2)

/-! ### Structs -/

/-- The fields of the struct type `types[index]`. -/
def structFields (index : Nat) : Exec (List Ty) := do
  match ← ask (·.typeAt index) with
  | .struct fields => return fields
  | _ => fault .typeMismatch

/-- Takes one operand for each field off the stack into a new struct. -/
def structNew (index : Nat) : Exec Unit := do
  let fields ← structFields index
  let n := fields.length
  ask (·.need n)
  let operands := ((← get).stack.take n).reverse
  let values ← ask (·.readAll fields operands)
  if n = 0 then ask (·.room 1)
  let numbers := (fields.zip operands).filter (fun (t, _) => !t.isRef) |>.map Prod.snd
  modify (·.dropped n)
  modify (·.releaseAll numbers)
  modify (·.pushedObject (.struct (.ofValues fields values)))

def structNewDefault (index : Nat) : Exec Unit := do
  let fields ← structFields index
  ask (·.room 1)
  modify (·.pushedObject (.struct (.zero fields)))

def structGet (field : Nat) : Exec Unit := do
  ask (·.need 1)
  match ← ask (·.objectAt 0) with
  | .struct r =>
    let v ← ask fun _ => Machine.lookup (r.get? field)
    modify (·.retain v)
    replaceTop 1 v
  | _ => fault .typeMismatch

def structSet (field : Nat) : Exec Unit := do
  ask (·.need 2)
  let a ← ask (·.addressAt 1)
  match ← ask (·.objectAt 1) with
  | .struct r =>
    let t ← ask fun _ => Machine.lookup r.fields[field]?
    let old ← ask fun _ => Machine.lookup (r.get? field)
    let m ← get
    let v := m.peek 0
    match m.read? t.kind v with
    | none => fault .typeMismatch
    | some stored =>
      modify fun m => { m.dropped 1 with heap := m.heap.update a (·.setField field stored) }
      -- A reference field takes over the operand; any other field takes only the number.
      modify (·.release (if t.isRef then old else v))
      modify (·.discarded 1)
  | _ => fault .typeMismatch

end Exec

end StackVM
