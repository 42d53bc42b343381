import StackVM.Bytes
import StackVM.Bytes.Range
import StackVM.Kind
import StackVM.Float.Bits
import StackVM.Float.Arithmetic
import StackVM.Decimal.Shortest
import StackVM.Float.Text
import StackVM.Operation
import StackVM.Opcode
import StackVM.Error
import StackVM.Instruction
import StackVM.Code
import StackVM.Bisection
import StackVM.Flow
import StackVM.Value
import StackVM.Word
import StackVM.Ty
import StackVM.Text.Glyph
import StackVM.Text.Quoted
import StackVM.Record
import StackVM.Packed
import StackVM.Object
import StackVM.Heap
import StackVM.Operation.Eval
import StackVM.Table
import StackVM.Program
import StackVM.Json.Text
import StackVM.Json.Token
import StackVM.Options
import StackVM.Options.Reader
import StackVM.Machine.State
import StackVM.Machine.Exec
import StackVM.Machine.Call
import StackVM.Machine.Memory
import StackVM.Machine.Step
import StackVM.IndexSet
import StackVM.Verifier.Rules
import StackVM.Verifier.Bounds
import StackVM.Verifier.Search
import StackVM.Verifier
import StackVM.Diagnostic
import StackVM.Diagnostic.Terminal
import StackVM.Diagnostic.Json
import StackVM.Diagnostic.Explanation
import StackVM.CommandLine.Arguments
import StackVM.CommandLine.Files
import StackVM.CommandLine
import StackVM.Main
import StackVM.Proofs.Outcome
import StackVM.Proofs.Heap.Counting
import StackVM.Proofs.Record.Fields
import StackVM.Proofs.Operation.Shapes
import StackVM.Proofs.Machine.Effect
import StackVM.Proofs.Machine.Ownership
import StackVM.Proofs.Machine.Shape
import StackVM.Proofs.Machine.Run
import StackVM.Proofs.ReferenceCounts
import StackVM.Proofs.Code.Scan
import StackVM.Proofs.Code.Operands
import StackVM.Proofs.Machine.Decoded
import StackVM.Proofs.Bisection
import StackVM.Proofs.Float.Nearest
import StackVM.Proofs.Flow.Chain
import StackVM.Proofs.Flow.Outline
import StackVM.Proofs.Flow.Positions
import StackVM.Proofs.Verifier.Transfer
import StackVM.Proofs.Verifier.Fixpoint
import StackVM.Proofs.Verifier.Heights
import StackVM.Proofs.Verifier.Following
import StackVM.Proofs.CallFree
import StackVM.Proofs.Machine.Calls
import StackVM.Proofs.StackShape
import StackVM.Proofs.Typing.Agreement
import StackVM.Proofs.Typing.Kinds
import StackVM.Proofs.Typing.State
import StackVM.Proofs.Typing.Effects
import StackVM.Proofs.TypeSoundness
import StackVM.Proofs.Typing.KindEffects
import StackVM.Proofs.Verifier.Routes
import StackVM.Proofs.Machine.Moves
import StackVM.Proofs.ControlFlow
import StackVM.Proofs.Machine.Confined
import StackVM.Proofs.FrameIsolation
import StackVM.Proofs.FaultAtomicity
import StackVM.Proofs.StaticKinds
import StackVM.Proofs.Heap.Reachability
import StackVM.Proofs.Reclamation
import StackVM.Proofs.Verifier.ExplorationOrder
import StackVM.Proofs.Heap.Overrelease
import StackVM.Proofs.HostFailure
import StackVM.Proofs.Machine.Limits
import StackVM.Proofs.HostLimits
import StackVM.Proofs.ConstantPool
import StackVM.Proofs.Machine.Raising
import StackVM.Proofs.RaisedLimits
import StackVM.Proofs.Verifier.OneBlock
import StackVM.Proofs.StraightLine
import StackVM.Proofs.Code.Encoding
import StackVM.Proofs.Code.Streams
import StackVM.Proofs.Flow.Partition
import StackVM.Proofs.Flow.Edges
import StackVM.Proofs.Heap.Representation
import StackVM.Proofs.Machine.Contents
import StackVM.Proofs.HeapContents
import StackVM.Proofs.Operation.Reference
import StackVM.Proofs.Machine.Renewal
import StackVM.Proofs.Machine.Integers
import StackVM.Proofs.Machine.Places
import StackVM.Proofs.IntegerWidth
import StackVM.Proofs.Machine.Guarded
import StackVM.Proofs.Machine.Layers
import StackVM.Proofs.Machine.Accesses
import StackVM.Proofs.AccessSafety
import StackVM.Proofs.Heap.Collection
import StackVM.Proofs.HostResults
import StackVM.Proofs.Verifier.Termination
import StackVM.Proofs.Flow.Landing
import StackVM.Proofs.Flow.Suffix
import StackVM.Proofs.Verifier.Recipe
import StackVM.Proofs.Verifier.StackLimit
import StackVM.Proofs.Verifier.Repetition
import StackVM.Proofs.Word.Packing
import StackVM.Proofs.Record.History
import StackVM.Proofs.Text.Words
import StackVM.Proofs.Text.Lines
import StackVM.Proofs.Code.Listing
import StackVM.Proofs.Verifier.ErrorPlaces
import StackVM.Proofs.Branches
import StackVM.Proofs.Heap.Cascade
import StackVM.Proofs.Text.Escapes
import StackVM.Proofs.Diagnostic.Colour
