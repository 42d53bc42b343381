import StackVM.Json.Text

/-!
# Options

Limits and initial capacities of a machine. The capacities of globals and heap are hints: both grow on
demand, so they never show in a run.
-/

namespace StackVM

structure Options where
  /-- Most values on the operand stack, locals included. -/
  stackSize : Nat := 1024
  /-- Deepest nesting of calls. -/
  frameSize : Nat := 128
  /-- Initial capacity for globals. -/
  globalSize : Nat := 16
  /-- Initial capacity for heap slots. -/
  heapSize : Nat := 64
  /-- Longest array that `array.new_default` makes. -/
  arraySize : Nat := 16777216
deriving DecidableEq, Repr, Inhabited

namespace Options

/-- Names of the options, in the order in which they are written. -/
def names : List String := ["stack_size", "frame_size", "global_size", "heap_size", "array_size"]

def values (o : Options) : List Nat :=
  [o.stackSize, o.frameSize, o.globalSize, o.heapSize, o.arraySize]

/-- Sets the option at a place in `names`. -/
def set (o : Options) : (place value : Nat) → Options
  | 0, n => { o with stackSize := n }
  | 1, n => { o with frameSize := n }
  | 2, n => { o with globalSize := n }
  | 3, n => { o with heapSize := n }
  | 4, n => { o with arraySize := n }
  | _, _ => o

/-- The options as a JSON object. -/
def text (o : Options) : String := Json.object (names.zip (o.values.map toString))

end Options

end StackVM
