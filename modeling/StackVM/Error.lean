/-!
# Errors

An error is a cause and, once known, the place: the offset of an instruction and, from the verifier,
the basic block. A place that is already set is kept, so the innermost frame decides.
-/

namespace StackVM

/-- What went wrong, independent of where. -/
inductive Cause where
  | unknownOpcode
  | unreachableExecuted
  | segmentationFault
  | stackOverflow
  | stackUnderflow
  | frameOverflow
  | frameUnderflow
  | typeMismatch
  | divideByZero
  | invalidJump
  /-- A host function reported an error of its own. -/
  | host (message : String)
deriving DecidableEq, Repr, Inhabited

namespace Cause

def message : Cause → String
  | .unknownOpcode => "unknown opcode"
  | .unreachableExecuted => "unreachable executed"
  | .segmentationFault => "segmentation fault"
  | .stackOverflow => "stack overflow"
  | .stackUnderflow => "stack underflow"
  | .frameOverflow => "frame overflow"
  | .frameUnderflow => "frame underflow"
  | .typeMismatch => "type mismatch"
  | .divideByZero => "divide by zero"
  | .invalidJump => "invalid jump"
  | .host message => "native function failed: " ++ message

/-- The stable code under which the cause is explained. -/
def code : Cause → String
  | .unknownOpcode => "VM0001"
  | .unreachableExecuted => "VM0002"
  | .segmentationFault => "VM0003"
  | .stackOverflow => "VM0004"
  | .stackUnderflow => "VM0005"
  | .frameOverflow => "VM0006"
  | .frameUnderflow => "VM0007"
  | .typeMismatch => "VM0008"
  | .divideByZero => "VM0009"
  | .invalidJump => "VM0010"
  | .host _ => "VM0011"

end Cause

structure Error where
  cause : Cause
  offset : Option Nat := none
  block : Option Nat := none
deriving DecidableEq, Repr, Inhabited

namespace Error

instance : Coe Cause Error := ⟨fun cause => { cause }⟩

/-- Records the offset unless one is known already. -/
def atOffset (e : Error) (offset : Nat) : Error := { e with offset := e.offset.or (some offset) }

/-- Records the block unless one is known already. -/
def inBlock (e : Error) (block : Nat) : Error := { e with block := e.block.or (some block) }

def message (e : Error) : String :=
  e.cause.message ++
    (match e.offset with
      | some offset => " at offset " ++ toString offset
      | none => "") ++
    (match e.block with
      | some block => " (block " ++ toString block ++ ")"
      | none => "")

@[simp]
theorem cause_atOffset (e : Error) (offset : Nat) : (e.atOffset offset).cause = e.cause := rfl

@[simp]
theorem cause_inBlock (e : Error) (block : Nat) : (e.inBlock block).cause = e.cause := rfl

@[simp]
theorem offset_inBlock (e : Error) (block : Nat) : (e.inBlock block).offset = e.offset := rfl

end Error

end StackVM
