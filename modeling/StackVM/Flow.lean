import StackVM.Bisection
import StackVM.Code

/-!
# Control flow

Code splits into basic blocks. A block starts at offset zero, at every branch target and after every
terminator; it ends where the next one starts. Its successors are the blocks at the targets of its last
instruction, and the next block if control goes on after that instruction.
-/

namespace StackVM

/-- An instruction with the offsets that it can jump to. -/
structure Site extends Located where
  targets : List Nat
deriving DecidableEq, Repr

/-- The instructions in `[start, stop)` and the indices of neighbouring blocks, in increasing order. -/
structure Block where
  start : Nat
  stop : Nat
  body : List Located
  succs : List Nat
  preds : List Nat
deriving DecidableEq, Repr

/-- The opcode that ends the block. -/
def Block.last (b : Block) : Opcode := (b.body.getLast?.map fun l => l.inst.opcode).getD .nop

structure Graph where
  blocks : Array Block
deriving DecidableEq, Repr

namespace Flow

/-- The instructions from `ip` on with their targets. The first instruction that does not decode or
jumps below zero is an error. -/
def sitesFrom (code : Code) (ip : Nat) : Except Error (List Site) :=
  if ip < code.size then do
    let inst ← Instruction.decode code ip
    let targets ← code.branchTargets ip inst.opcode inst.width
    let rest ← sitesFrom code (ip + inst.width)
    return { offset := ip, inst, targets } :: rest
  else
    return []
termination_by code.size - ip
decreasing_by
  have := inst.width_pos
  omega

/-- The instructions whose offsets lie in the range. -/
def within (sites : List Site) (range : Nat × Nat) : List Site :=
  sites.filter fun s => range.1 ≤ s.offset && s.offset < range.2

/-- The starts of blocks that an instruction brings about: its targets, and the offset after it if it ends
a block and code follows. A target that is no boundary between instructions is an error. -/
def startsOf (boundaries : Array Nat) (size : Nat) (s : Site) : Except Error (List Nat) :=
  if s.targets.all fun target => (Bisection.find? boundaries target).isSome then
    .ok (s.targets ++ if s.inst.opcode.isTerminator && s.next < size then [s.next] else [])
  else
    .error (Error.atOffset Cause.invalidJump s.offset)

/-- The starts of all blocks, in increasing order. -/
def starts (boundaries : Array Nat) (size : Nat) (sites : List Site) : Except Error (Array Nat) := do
  let found ← sites.mapM (startsOf boundaries size)
  return (Bisection.sortedOnce (0 :: found.flatten)).toArray

/-- Where block `i` stops: where the next one starts, or at the end of the code. -/
def stopOf (starts : Array Nat) (size i : Nat) : Nat := starts[i + 1]?.getD size

/-- The successors of block `i`, which stops at `stop`. Its last instruction is the one with the greatest
offset below that; a target at which no block starts is passed over. -/
def succsOf (boundaries starts : Array Nat) (sites : Array Site) (i stop : Nat) : List Nat :=
  match sites[Bisection.partitionPoint boundaries (· < stop) - 1]? with
  | none => []
  | some last =>
    let jumps := last.targets.filterMap (Bisection.find? starts)
    let onward := if last.inst.opcode.fallsThrough && i + 1 < starts.size then [i + 1] else []
    Bisection.sortedOnce (jumps ++ onward)

/-- Enters block `i` among the predecessors of each of its successors. -/
def enter (preds : Array (List Nat)) (succs : List Nat) (i : Nat) : Array (List Nat) :=
  succs.foldl (fun preds s => preds.modify s (· ++ [i])) preds

/-- The predecessors of all blocks, collected in a second pass over the edges. -/
def predsOf (succs : List (List Nat)) : Array (List Nat) :=
  let entered := succs.zipIdx.foldl (fun preds (ss, i) => enter preds ss i)
    (Array.replicate succs.length [])
  entered.map Bisection.sortedOnce

end Flow

namespace Graph

open StackVM.Flow

/-- The graph of code that starts blocks at the given offsets. -/
def ofStarts (boundaries starts : Array Nat) (sites : List Site) (size : Nat) : Graph :=
  let ranges := starts.toList.zipIdx.map fun (start, i) => (start, stopOf starts size i)
  let succs := ranges.zipIdx.map fun (range, i) =>
    succsOf boundaries starts sites.toArray i range.2
  let blocks := ((ranges.zip succs).zip (predsOf succs).toList).map fun ((range, succs), preds) =>
    { start := range.1, stop := range.2, body := (within sites range).map Site.toLocated, succs, preds : Block }
  ⟨blocks.toArray⟩

/-- The graph of the code. A jump to an offset where no instruction starts is an error. -/
def build (code : Code) : Except Error Graph := do
  let sites ← sitesFrom code 0
  if sites.isEmpty then return ⟨#[]⟩
  let boundaries := (sites.map fun s => s.offset).toArray
  let starts ← starts boundaries code.size sites
  return ofStarts boundaries starts sites code.size

/-- The index of the block that contains an offset. The last block that does not start behind the offset
is the only one that can. -/
def blockAt? (g : Graph) (offset : Nat) : Option Nat :=
  match Bisection.partitionPoint g.blocks fun b => b.start ≤ offset with
  | 0 => none
  | i + 1 => if g.blocks[i]?.any fun b => offset < b.stop then some i else none

/-- Numbers in brackets. -/
def indices (ns : List Nat) : String := "[" ++ ", ".intercalate (ns.map toString) ++ "]"

/-- One line for each block. -/
def text (g : Graph) : String :=
  String.join <| g.blocks.toList.zipIdx.map fun (b, i) =>
    "block " ++ toString i ++ " [" ++ toString b.start ++ ", " ++ toString b.stop ++ ") succs=" ++
      indices b.succs ++ " preds=" ++ indices b.preds ++ "\n"

end Graph

end StackVM
