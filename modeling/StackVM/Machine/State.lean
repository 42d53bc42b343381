import StackVM.Heap
import StackVM.Options
import StackVM.Program
import StackVM.Table

/-!
# The state of a machine

One operand stack is shared by all frames: the locals of a frame lie below its operands, and an
instruction never reaches below the `floor` of the frame it runs in. This module has the state, the
questions that instructions ask of it before they change anything, and the changes themselves.
-/

namespace StackVM

/-- A running function. -/
structure Frame where
  function : Function
  /-- Offset of the next instruction. -/
  ip : Nat
  /-- Height of the stack below the first local. -/
  base : Nat
  /-- Height of the stack below the first operand. -/
  floor : Nat
  /-- The reference to the function, given up on return; zero for the entry. -/
  callee : Nat

structure Machine where
  program : Program
  options : Options
  /-- The operand stack, the top first. -/
  stack : List Value
  /-- The running functions, the innermost first. -/
  frames : List Frame
  globals : Table Value
  /-- The loaded constants. -/
  constants : Array Value
  heap : Heap

namespace Machine

/-- Loads constants, those that are objects onto the heap. -/
def loadConstants (heap : Heap) : List Constant → List Value × Heap
  | [] => ([], heap)
  | c :: cs =>
    match c.form with
    | .inl v =>
      let (vs, heap) := loadConstants heap cs
      (v :: vs, heap)
    | .inr o =>
      let (a, heap) := heap.alloc o
      let (vs, heap) := loadConstants heap cs
      (.ref a :: vs, heap)

/-- A machine that has loaded a program and not yet run. -/
def load (program : Program) (options : Options) : Machine :=
  let (constants, heap) := loadConstants .empty program.constants.toList
  { program, options, stack := [], frames := [], globals := .empty,
    constants := constants.toArray, heap }

/-! ### Questions -/

/-- Height of the stack below the operands of the innermost frame. -/
def floor (m : Machine) : Nat :=
  match m.frames with
  | [] => 0
  | frame :: _ => frame.floor

/-- There are `n` operands. -/
def need (m : Machine) (n : Nat) : Except Cause Unit :=
  if m.stack.length < m.floor + n then .error .stackUnderflow else .ok ()

/-- There is room for `n` more values. -/
def room (m : Machine) (n : Nat) : Except Cause Unit :=
  if m.options.stackSize < m.stack.length + n then .error .stackOverflow else .ok ()

/-- The value `depth` places below the top; asked only after `need`. -/
def peek (m : Machine) (depth : Nat) : Value := m.stack[depth]?.getD .null

/-- The integer that a value denotes, in a word or on the heap. -/
def int64? (m : Machine) : Value → Option (BitVec 64)
  | .i64 n => some n
  | .ref a =>
    match m.heap.get? a with
    | some (.int64 n) => some n
    | _ => none
  | _ => none

/-- The string that a value refers to. -/
def string? (m : Machine) : Value → Option String
  | .ref a =>
    match m.heap.get? a with
    | some (.string s) => some s
    | _ => none
  | _ => none

/-- A value as one of the given kind. Only integers have two forms; any other value must have the kind
itself. -/
def read? (m : Machine) (k : Kind) (v : Value) : Option Value :=
  if k = .scalar .i64 then (m.int64? v).map .i64
  else if v.kind = k then some v
  else none

/-- Whether a value can be stored where the type is asked for. -/
def fits (m : Machine) (t : Ty) (v : Value) : Bool := (m.read? t.kind v).isSome

/-- Values as ones of the given types. -/
def readAll (m : Machine) (ts : List Ty) (vs : List Value) : Except Cause (List Value) :=
  match (ts.zip vs).mapM fun (t, v) => m.read? t.kind v with
  | some vs => .ok vs
  | none => .error .typeMismatch

/-- Whether two values are of one kind, where all integers count as one. -/
def sameKind (m : Machine) (v w : Value) : Bool :=
  v.kind = w.kind || ((m.int64? v).isSome && (m.int64? w).isSome)

/-- The top `n` operands as values of one kind, in the order in which they were pushed. -/
def operands (m : Machine) (n : Nat) (k : Kind) : Except Cause (List Value) :=
  match (m.stack.take n).reverse.mapM (m.read? k) with
  | some vs => .ok vs
  | none => .error .typeMismatch

def int32At (m : Machine) (depth : Nat) : Except Cause (BitVec 32) :=
  match m.peek depth with
  | .i32 n => .ok n
  | _ => .error .typeMismatch

/-- An `i32` that is not negative, as an index or a length. -/
def indexAt (m : Machine) (depth : Nat) : Except Cause Nat := do
  let n ← m.int32At depth
  if n.toInt < 0 then .error .segmentationFault else .ok n.toNat

def addressAt (m : Machine) (depth : Nat) : Except Cause Nat :=
  match m.peek depth with
  | .ref a => .ok a
  | _ => .error .typeMismatch

/-- The live object that the value at a depth refers to. -/
def objectAt (m : Machine) (depth : Nat) : Except Cause Object := do
  let a ← m.addressAt depth
  match m.heap.get? a with
  | some o => .ok o
  | none => .error .segmentationFault

/-- The strings that two values refer to. Both must be live before either is looked at. -/
def stringsAt (m : Machine) : Except Cause (String × String) := do
  let first ← m.objectAt 1
  let second ← m.objectAt 0
  match first, second with
  | .string s, .string t => .ok (s, t)
  | _, _ => .error .typeMismatch

/-- An entry that an index names. -/
def lookup {α : Type} (entry : Option α) : Except Cause α :=
  match entry with
  | some a => .ok a
  | none => .error .segmentationFault

def typeAt (m : Machine) (i : Nat) : Except Cause Ty := lookup m.program.types[i]?

/-- The place of local `i` on the stack, counted from the bottom. -/
def localAt (m : Machine) (i : Nat) : Except Cause Nat :=
  match m.frames with
  | [] => .error .frameUnderflow
  | frame :: _ =>
    if frame.base + i < frame.floor then .ok (frame.base + i) else .error .segmentationFault

/-- The place from the top of a place counted from the bottom. -/
def fromTop (m : Machine) (place : Nat) : Nat := m.stack.length - 1 - place

/-! ### Changes -/

def setIp (m : Machine) (ip : Nat) : Machine :=
  match m.frames with
  | [] => m
  | frame :: rest => { m with frames := { frame with ip } :: rest }

def pushed (m : Machine) (v : Value) : Machine := { m with stack := v :: m.stack }

/-- Takes `n` values off the stack; their references go to the caller. -/
def dropped (m : Machine) (n : Nat) : Machine := { m with stack := m.stack.drop n }

def retain (m : Machine) (v : Value) : Machine := { m with heap := m.heap.retainValue v }

def release (m : Machine) (v : Value) : Machine := { m with heap := m.heap.releaseValue v }

def releaseAll (m : Machine) (vs : List Value) : Machine :=
  { m with heap := m.heap.releaseValues vs }

/-- Takes `n` values off the stack and releases them, the top first. -/
def discarded (m : Machine) (n : Nat) : Machine :=
  let vs := m.stack.take n
  (m.dropped n).releaseAll vs

/-- Puts an object on the heap; the reference goes to the caller. -/
def alloc (m : Machine) (o : Object) : Value × Machine :=
  let (a, heap) := m.heap.alloc o
  (.ref a, { m with heap })

/-- Puts an object on the heap and its reference on the stack. -/
def pushedObject (m : Machine) (o : Object) : Machine :=
  let (v, m) := m.alloc o
  m.pushed v

/-- Stores a value in a global and releases the one that was there. -/
def setGlobal (m : Machine) (i : Nat) (v : Value) : Machine :=
  let old := m.globals.get? i
  let m := { m with globals := m.globals.put i v }
  match old with
  | some w => m.release w
  | none => m

/-- Stores a value in a place counted from the bottom and releases the one that was there. -/
def setPlace (m : Machine) (place : Nat) (v : Value) : Machine :=
  let depth := m.fromTop place
  let old := m.peek depth
  { m with stack := m.stack.set depth v }.release old

/-- Drops every frame, operand and global, each from the oldest on. The constants stay. -/
def reset (m : Machine) : Machine :=
  let heap := m.frames.reverse.foldl (fun h frame => h.release frame.callee) m.heap
  let heap := heap.releaseValues m.stack.reverse
  let heap := heap.releaseValues m.globals.values
  { m with stack := [], frames := [], globals := .empty, heap }

end Machine

end StackVM
