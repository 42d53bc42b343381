import StackVM.Machine.State

/-!
# Effects on a machine

An `Exec` changes a machine and may stop with an error; the changes made before an error stay. Each
instruction first asks what it needs to know and only then changes the machine.
-/

namespace StackVM

/-- Why a machine stopped before its frames were used up. -/
inductive Stop where
  | fault (e : Error)
  /-- Fuel or addresses ran out. -/
  | exhausted
deriving DecidableEq, Repr, Inhabited

abbrev Exec := EStateM Stop Machine

namespace Exec

variable {α : Type}

def fault (c : Cause) : Exec α := throw (.fault c)

/-- Asks the machine a question; the answer may be an error. -/
def ask (question : Machine → Except Cause α) : Exec α := do
  match question (← get) with
  | .ok a => return a
  | .error c => fault c

/-- Says where an error arose, unless it is known already. -/
def located (ip : Nat) (x : Exec α) : Exec α := fun m =>
  match x m with
  | .error (.fault e) m => .error (.fault (e.atOffset ip)) m
  | result => result

/-- Answers with the error where there is one. Running out of fuel or addresses is none. -/
def attempt (x : Exec α) : Exec (Except Error α) := fun m =>
  match x m with
  | .ok a m => .ok (.ok a) m
  | .error (.fault e) m => .ok (.error e) m
  | .error .exhausted m => .error .exhausted m

/-! ### Stack -/

/-- Pushes a value; the stack takes over its reference. -/
def push (v : Value) : Exec Unit := do
  ask (·.room 1)
  modify (·.pushed v)

/-- Pushes an integer, as an object on the heap if it does not fit a word. -/
def pushInt (n : BitVec 64) : Exec Unit := do
  ask (·.room 1)
  if Value.fitsPayload n then modify (·.pushed (.i64 n)) else modify (·.pushedObject (.int64 n))

/-- Pushes a value that was read from memory or computed, as a word keeps it. -/
def pushRead : Value → Exec Unit
  | .i64 n => pushInt n
  | v => push v.canonical

/-- Pushes a further reference to a value that is held elsewhere. -/
def pushCopy (v : Value) : Exec Unit := do
  ask (·.room 1)
  modify fun m => (m.retain v).pushed v

/-- Takes the top value off; asked only after `need`. -/
def take : Exec Value := modifyGet fun m => (m.peek 0, m.dropped 1)

/-- Takes the top operand off; its reference goes to the caller. -/
def pop : Exec Value := do
  ask (·.need 1)
  take

/-- Replaces the top `n` operands by a result. -/
def replaceTop (n : Nat) (result : Value) : Exec Unit := do
  modify (·.discarded n)
  pushRead result

/-! ### Jumps -/

/-- Goes on `displacement` bytes after `next` in code of the given size. -/
def jump (size next : Nat) (displacement : Int) : Exec Unit :=
  match Code.jumpTarget? next displacement with
  | some target => if target < size then modify (·.setIp target) else fault .invalidJump
  | none => fault .invalidJump

end Exec

end StackVM
