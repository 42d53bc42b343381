import StackVM.Machine.Exec

/-!
# Calls and returns

A caller pushes the arguments and then a reference to the function. Calling a function in code moves
that reference into a new frame, whose locals follow the arguments on the stack. Calling a host function
hands it the arguments: those that come back among the results keep their reference, all others are
released.
-/

namespace StackVM

namespace Machine

/-- Arguments that fit the parameters lie below the reference to the function. -/
def checkArguments (m : Machine) (params : List Ty) : Except Cause Unit := do
  m.need (params.length + 1)
  let _ ← m.readAll params.reverse (m.stack.drop 1)

/-- The machine inside a function that was called with the given captures. -/
def entered (m : Machine) (f : Function) (captures : List Value) (callee : Nat) : Machine :=
  let below := m.stack.drop 1
  let base := below.length - f.signature.params.length
  let locals := captures ++ List.replicate (f.locals - captures.length) Value.null
  let frame : Frame :=
    { function := f, ip := 0, base, floor := base + f.signature.params.length + f.locals, callee }
  { m with
    stack := locals.reverse ++ below
    frames := frame :: m.frames
    heap := m.heap.retainValues captures }

/-- The results of the innermost frame lie on top of the stack and fit its signature. -/
def checkResults (m : Machine) (returns : List Ty) : Except Cause Unit := do
  m.need returns.length
  let _ ← m.readAll returns.reverse m.stack

/-- The machine after `frame`, the innermost, has returned: its results replace everything from its base
on. -/
def returned (m : Machine) (frame : Frame) : Machine :=
  let n := frame.function.signature.returns.length
  let results := m.stack.take n
  let below := m.stack.drop n
  let surplus := below.length - frame.base
  let heap := m.heap.releaseValues (below.take surplus).reverse
  { m with
    stack := results ++ below.drop surplus
    frames := m.frames.tail
    heap := heap.release frame.callee }

/-- Arguments that are not among the results, each result standing for one argument at most. -/
def notReturned (arguments results : List Value) : List Value :=
  (results.filter Value.isRef).foldl List.erase arguments

end Machine

namespace Exec

/-- Calls a function in code. -/
def enter (f : Function) (captures : List Value) (callee : Nat) : Exec Unit := do
  if f.locals < captures.length then fault .typeMismatch
  ask (·.checkArguments f.signature.params)
  let m ← get
  if m.options.frameSize ≤ m.frames.length then fault .frameOverflow
  if m.options.stackSize < m.stack.length - 1 + f.locals then fault .stackOverflow
  modify (·.entered f captures callee)

/-- Answers the requests of a host function; `nested` runs the machine on its behalf. -/
def perform (nested : Exec Unit) : Script → Exec (List Value)
  | .finish results => return results
  | .fail e => throw (.fault e)
  | .tryPush v next => do perform nested (next (← attempt (push v)))
  | .tryPushInt n next => do perform nested (next (← attempt (pushInt n)))
  | .tryPop next => do perform nested (next (← attempt pop))
  | .alloc o next => do perform nested (next (← modifyGet (·.alloc o)))
  | .retain v next => do modify (·.retain v); perform nested next
  | .release v next => do modify (·.release v); perform nested next
  | .getGlobal i next => do perform nested (next ((← get).globals.get? i))
  | .setGlobal i v next => do modify (·.setGlobal i v); perform nested next
  | .readInt v next => do perform nested (next ((← get).int64? v))
  | .readString v next => do perform nested (next ((← get).string? v))
  | .reset next => do modify Machine.reset; perform nested next
  | .tryRun next => do perform nested (next (← attempt nested))

/-- Takes over the results of a host function that was called with the arguments. -/
def settle (returns : Nat) (arguments results : List Value) : Exec Unit := do
  if results.length = returns then
    modify (·.releaseAll (Machine.notReturned arguments results))
    modify fun m => { m with stack := results.reverse ++ m.stack }
  else
    modify (·.releaseAll (arguments ++ results))
    fault .typeMismatch

/-- Calls a host function. The reference to it is given up when it is done, and the arguments are
released if it fails. -/
def callHost (nested : Exec Unit) (signature : Signature) (body : List Value → Script)
    (callee : Nat) : Exec Unit := do
  let n := signature.params.length
  let returns := signature.returns.length
  ask (·.checkArguments signature.params)
  let m ← get
  if m.options.stackSize < m.stack.length - 1 - n + returns then fault .stackOverflow
  let arguments ← modifyGet fun m => (((m.stack.drop 1).take n).reverse, m.dropped (n + 1))
  fun m =>
    match perform nested (body arguments) m with
    | .ok results m => settle returns arguments results (m.release (.ref callee))
    | .error stop m => .error stop ((m.release (.ref callee)).releaseAll arguments)

/-- Calls what the top operand refers to. -/
def call (nested : Exec Unit) : Exec Unit := do
  ask (·.need 1)
  let callee ← ask (·.addressAt 0)
  match (← get).heap.get? callee with
  | some (.function f) => enter f [] callee
  | some (.closure f captures) => enter f captures callee
  | some (.host signature body) => callHost nested signature body callee
  | some _ => fault .typeMismatch
  | none => fault .segmentationFault

/-- Returns from the innermost frame. -/
def ret : Exec Unit := do
  match (← get).frames with
  | [] => fault .frameUnderflow
  | frame :: _ =>
    ask (·.checkResults frame.function.signature.returns)
    modify (·.returned frame)

end Exec

end StackVM
