/-!
# Explanations of error codes

Every cause of an error has a stable code, a summary and an explanation.
-/

namespace StackVM

structure Explanation where
  code : String
  /-- One line for listings. -/
  summary : String
  lines : List String
deriving DecidableEq, Repr

namespace Explanation

/-- The whole text, each line ended. -/
def text (e : Explanation) : String := String.join (e.lines.map (· ++ "\n"))

def all : List Explanation :=
  [⟨"VM0001", "unknown opcode",
      ["## VM0001: unknown opcode",
        "",
        "The byte at the reported offset is not an assigned opcode. Opcodes live in",
        "sparse groups (control 0x00-0x15, i32 0x20-0x3E, i64 0x40-0x5D, f32",
        "0x60-0x6F, f64 0x70-0x7F, strings 0x80-0x83, arrays 0x90-0x94, structs",
        "0xA0-0xA3); anything between the groups is unassigned.",
        "",
        "This usually means the bytecode was truncated or a branch landed in the",
        "middle of an operand."]⟩,
    ⟨"VM0002", "unreachable executed",
      ["## VM0002: unreachable executed",
        "",
        "An `unreachable` instruction ran. Code generators emit it after calls that",
        "never return and in switch arms that cannot be taken; reaching it means that",
        "assumption was wrong."]⟩,
    ⟨"VM0003", "segmentation fault",
      ["## VM0003: segmentation fault",
        "",
        "An index or reference pointed outside what it indexes:",
        "",
        "- `local.*` beyond the function's parameters and locals",
        "- `global.get` of a global no path has written yet",
        "- `const.get`, a type index or a struct field index out of range",
        "- an array index outside `[0, len)`, or a negative default length",
        "- a null or freed reference dereferenced by `call`, `string.*`, `array.*`",
        "  or `struct.*`"]⟩,
    ⟨"VM0004", "stack overflow",
      ["## VM0004: stack overflow",
        "",
        "A push would exceed the operand stack size (1024 slots by default, locals",
        "included). The verifier reports this statically when a loop grows the stack",
        "on every iteration.",
        "",
        "**Example:**",
        "",
        "    0: i32.const 1",
        "    5: br -10"]⟩,
    ⟨"VM0005", "stack underflow",
      ["## VM0005: stack underflow",
        "",
        "An instruction popped more operands than the current frame has above its",
        "locals. A frame can never pop into its own locals or its caller's values.",
        "",
        "**Example:**",
        "",
        "    0: i32.const 1",
        "    5: i32.add"]⟩,
    ⟨"VM0006", "frame overflow",
      ["## VM0006: frame overflow",
        "",
        "A call would exceed the maximum call depth (128 frames by default). This is",
        "almost always unbounded recursion."]⟩,
    ⟨"VM0007", "frame underflow",
      ["## VM0007: frame underflow",
        "",
        "The interpreter tried to return with no active frame. This indicates a bug",
        "in a host embedding, not in the bytecode."]⟩,
    ⟨"VM0008", "type mismatch",
      ["## VM0008: type mismatch",
        "",
        "An operand had the wrong kind or type for the instruction consuming it: an",
        "`f32` fed to `i32.add`, a string passed where a function signature expects",
        "an `i32`, a value of the wrong type stored into an array or struct field,",
        "or a native function returning the wrong number of values.",
        "",
        "**Example:**",
        "",
        "    0: f32.const 1.5",
        "    5: i32.const 1",
        "    10: i32.add"]⟩,
    ⟨"VM0009", "divide by zero",
      ["## VM0009: divide by zero",
        "",
        "An integer `div_s`, `div_u`, `rem_s` or `rem_u` had a zero divisor. Float",
        "division by zero is not an error; it yields an infinity or NaN."]⟩,
    ⟨"VM0010", "invalid jump",
      ["## VM0010: invalid jump",
        "",
        "A branch target lies outside the code or in the middle of an instruction.",
        "Displacements are relative to the offset of the instruction following the",
        "branch, so `br 0` continues with the next instruction."]⟩,
    ⟨"VM0011", "native function failed",
      ["## VM0011: native function failed",
        "",
        "A host function called from bytecode reported an error. The message comes",
        "from the host; the offset is that of the `call` instruction."]⟩]

/-- The explanation of a code, in which the case of letters does not matter. -/
def find? (code : String) : Option Explanation :=
  all.find? fun e => e.code.toList.map Char.toLower == code.toList.map Char.toLower

end Explanation

end StackVM
