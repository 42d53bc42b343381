import StackVM.Proofs.Machine.Contents
import StackVM.Proofs.Machine.Places

/-!
# The width of integers does not show

A word has no room for every 64-bit integer, so an integer that does not fit is an object on the heap. No
program can tell: instructions compute on the integers that their operands denote, and every place gives
back the integer that was stored in it. Main statement: `integers_transparent`.

What an instruction does is proved in `Machine.Integers`, stores and loads in `Machine.Places`; that small
integers are never objects is part of `Fitting`. Here these are carried from instructions to turns.
-/

namespace StackVM

namespace Machine

variable {p : Program} {o : Options} {m m' : Machine} {frame : Frame} {inst : Instruction} {place : Place}
  {v : Value} {k : BitVec 64}

/-- The value represents a result, as an object exactly if the result is an integer too wide for a word. -/
def Represents (m : Machine) (r result : Value) : Prop :=
  m.read? result.kind r = some result ∧ (r.kind = .ref ↔ ∃ n, result = .i64 n ∧ Value.fitsPayload n = false)

/-- On operands that denote integers, in words or on the heap, the instruction fails if it divides by zero,
and nothing but the offset has moved. Otherwise its reference result takes the place of the operands: their
references are given up and that of the result is added. -/
def Computes (m : Machine) (frame : Frame) (inst : Instruction) : Prop :=
  ∀ nested op operands rest ns, inst.opcode = .operation op → op.shape.operand = .scalar .i64 →
    m.stack = operands.reverse ++ rest → m.floor ≤ rest.length → operands.length = op.shape.arity →
    List.Forall₂ (fun v n => m.int64? v = some n) operands ns →
      (op.ZeroDivisor ns → Exec.turn nested m =
        .error (.fault (Error.atOffset Cause.divideByZero frame.ip)) (m.setIp (frame.ip + inst.width))) ∧
      (¬op.ZeroDivisor ns → ∃ result m' r, op.Reference ns result ∧
        Exec.turn nested m = .ok true m' ∧ m'.stack = r :: rest ∧ m'.Represents r result ∧
        ∀ x, 0 < x → m'.heap.refcount x + operands.count (.ref x) = m.heap.refcount x + [r].count (.ref x))

/-- With room on the stack, the instruction pushes the integer in its operand. -/
def PushesInteger (m : Machine) (inst : Instruction) : Prop :=
  ∀ nested, inst.opcode = .const .i64 → m.stack.length < m.options.stackSize →
    ∃ m' r, Exec.turn nested m = .ok true m' ∧ m'.stack = r :: m.stack ∧
      m'.Represents r (.i64 (.ofNat 64 (inst.operand 0)))

/-- With its operands and room for the result, a load from the place goes through and pushes a value that
denotes the integer. -/
def Yields (m : Machine) (place : Place) (k : BitVec 64) : Prop :=
  ∀ nested frame inst, m.heap.size ≤ Word.payloadSize → m.At frame inst → inst.opcode.Loads place →
    m.Designates inst 0 place → m.floor + place.operands ≤ m.stack.length →
    m.stack.length < m.options.stackSize + place.operands →
      ∃ m' r, Exec.turn nested m = .ok true m' ∧ m'.stack = r :: m.stack.drop place.operands ∧
        m'.int64? r = some k

/-- If the instruction stores an integer, it goes through where the place takes integers; and when it has
gone through, the place keeps this integer, unless its array or struct has been given up, and yields it for as
long as it keeps its value. -/
def Restores (m : Machine) (inst : Instruction) : Prop :=
  ∀ place k, inst.opcode.Stores place → m.Designates inst 1 place → m.int64? (m.peek 0) = some k →
    m.floor + (place.operands + 1) ≤ m.stack.length →
      (m.Takes place → ∀ nested, ∃ m', Exec.turn nested m = .ok true m') ∧
      ∀ m₁, m.Turns m₁ → m₁.Has place →
        m₁.integerAt place = some k ∧ ∀ m₂, m₁.Preserves place m₂ → m₂.Yields place k

/-- If the instruction makes an array or a struct of its operands, every place in it yields the integer that
its operand denotes, for as long as the place keeps its value. -/
def Fills (m : Machine) (inst : Instruction) : Prop :=
  ∀ place a i v k m₁, inst.opcode.Makes a i place →
    (m.stack.take (inst.takes m.program.types)).reverse[i]? = some v → m.int64? v = some k → m.Turns m₁ →
      m₁.stack.head? = some (.ref a) → ∀ m₂, m₁.Preserves place m₂ → m₂.Yields place k

/-! ### Machines before and after the offset moves on -/

theorem setIp_options (m : Machine) (ip : Nat) : (m.setIp ip).options = m.options := by rw [setIp_eq]

theorem setIp_program (m : Machine) (ip : Nat) : (m.setIp ip).program = m.program := by rw [setIp_eq]

theorem setIp_localAt (m : Machine) (ip i : Nat) : (m.setIp ip).localAt i = m.localAt i := by
  unfold Machine.setIp
  cases frames : m.frames with
  | nil => rfl
  | cons frame callers => simp [localAt, frames]

theorem designates_setIp (m : Machine) (ip : Nat) (inst : Instruction) (depth : Nat) (place : Place) :
    (m.setIp ip).Designates inst depth place ↔ m.Designates inst depth place := by
  cases place with
  | slot s => simp only [Designates, setIp_localAt]
  | global i => rfl
  | element a i => simp only [Designates, indexAt, int32At, addressAt, peek, setIp_stack]
  | field a i => simp only [Designates, addressAt, peek, setIp_stack]

theorem content_setIp (m : Machine) (ip : Nat) (place : Place) :
    (m.setIp ip).content place = m.content place := by
  have globals : (m.setIp ip).globals = m.globals := by rw [setIp_eq]
  cases place <;> simp only [content, setIp_floor, setIp_stack, heap_setIp, globals]

theorem integerAt_setIp (m : Machine) (ip : Nat) (place : Place) :
    (m.setIp ip).integerAt place = m.integerAt place := by
  rw [integerAt, content_setIp, int64?_setIp, integerAt]

theorem takes_setIp (m : Machine) (ip : Nat) (place : Place) :
    (m.setIp ip).Takes place ↔ m.Takes place := by
  cases place <;> simp only [Takes, heap_setIp]

theorem peek_setIp (m : Machine) (ip depth : Nat) : (m.setIp ip).peek depth = m.peek depth := by
  rw [peek, setIp_stack, peek]

/-! ### Turns -/

theorem Turns.turned (turns : m.Turns m') : m.Turned m' := by
  obtain ⟨addresses, nested, more, done⟩ := turns
  exact ⟨addresses, nested, by rw [done]; rfl⟩

theorem computes (tidy : m.Tidy) (at_inst : m.At frame inst) : m.Computes frame inst := by
  intro nested op operands rest ns opcode operand stack above arity denote
  let moved := m.setIp (frame.ip + inst.width)
  have stack' : moved.stack = operands.reverse ++ rest := by rw [setIp_stack, stack]
  have denote' : List.Forall₂ (fun v n => moved.int64? v = some n) operands ns := by
    rwa [int64?_setIp]
  have effect {size next : Nat} :
      moved.effect inst size next = (op.eval (ns.map .i64)).map (moved.replaced op.shape.arity) := by
    apply effect_operation opcode operand stack' _ arity denote'
    rwa [setIp_floor]
  have count : ns.length = op.shape.arity := denote.length_eq.symm.trans arity
  have turn := at_inst.turn_eq tidy.steady nested effect
  rcases Operation.eval_integers operand count with ⟨zero, failed⟩ | ⟨nonzero, result, reference, done⟩
  · rw [failed] at turn
    exact ⟨fun _ => turn, fun nonzero => absurd zero nonzero⟩
  · rw [done] at turn
    refine ⟨fun zero => absurd zero nonzero, fun _ => ?_⟩
    have balanced := (tidy.setIp (frame.ip + inst.width)).steady.balanced
    have number := Operation.number_eval done
    obtain ⟨r, top, read, wide⟩ := replaced_result balanced.heap number op.shape.arity
    have below : moved.stack.drop op.shape.arity = rest := by
      rw [stack', ← arity, ← List.length_reverse, List.drop_left]
    rw [below] at top
    rw [reference.canonical] at read
    refine ⟨result, _, r, reference, turn, top, ⟨read, wide⟩, fun x pos => ?_⟩
    have counts := refcount_replaced balanced number stack' arity denote' top pos
    rwa [heap_setIp] at counts

theorem pushesInteger (tidy : m.Tidy) (at_inst : m.At frame inst) : m.PushesInteger inst := by
  intro nested opcode free
  let moved := m.setIp (frame.ip + inst.width)
  have room : moved.room 1 = .ok () := by
    rw [room_eq_ok, setIp_stack, setIp_options]
    exact free
  have effect {size next : Nat} :
      moved.effect inst size next = .ok (moved.pushedRead (.i64 (.ofNat 64 (inst.operand 0)))) := by
    unfold effect
    simp only [opcode, room, bind, Except.bind]
    rfl
  have turn := at_inst.turn_eq tidy.steady nested effect
  have wf := (tidy.setIp (frame.ip + inst.width)).steady.balanced.heap
  have number : (Value.i64 (.ofNat 64 (inst.operand 0))).kind ≠ .ref := by simp [Value.kind]
  obtain ⟨r, top, read, wide⟩ := pushedRead_result wf number
  rw [setIp_stack] at top
  exact ⟨_, r, turn, top, read, wide⟩

/-- A place that keeps an integer yields it. -/
theorem yields (tidy : m.Tidy) (kept : m.integerAt place = some k) : m.Yields place k := by
  intro nested frame inst addresses at_load loads names enough room
  let moved := m.setIp (frame.ip + inst.width)
  have tidy' : moved.Tidy := tidy.setIp (frame.ip + inst.width)
  have names' : moved.Designates inst 0 place := (designates_setIp m _ inst 0 place).2 names
  have kept' : moved.integerAt place = some k := by rwa [integerAt_setIp]
  obtain ⟨v, found, -⟩ := Option.bind_eq_some_iff.1 kept'
  obtain ⟨m', done⟩ : ∃ m', moved.effect inst frame.function.code.size (frame.ip + inst.width) = .ok m' := by
    apply load_goes loads names' found
    · rwa [setIp_floor, setIp_stack]
    · rwa [setIp_stack, setIp_options]
  have turn := at_load.turn_eq tidy.steady nested done
  have after : m'.Balanced [] := (Turns.steady ⟨addresses, nested, _, turn⟩ tidy.steady).balanced
  obtain ⟨r, top, denotes⟩ := loaded tidy'.steady.balanced after tidy'.stacked.floor_le loads names' kept' done
  rw [setIp_stack] at top
  exact ⟨m', r, turn, top, denotes⟩

/-- When an instruction has left an operand in a place, or the integer that it denotes, the place keeps this
integer. -/
theorem integerAt_of_content {m₁ : Machine} (tidy : m.Tidy) (at_inst : m.At frame inst) (turns : m.Turns m₁)
    (denotes : m.int64? v = some k)
    (left : m₁.content place = some v ∨ m₁.content place = some (.i64 k)) : m₁.integerAt place = some k := by
  let moved := m.setIp (frame.ip + inst.width)
  have tidy' : moved.Tidy := tidy.setIp (frame.ip + inst.width)
  have tidy₁ : m₁.Tidy := turns.turned.tidy tidy
  obtain ⟨callers, frames⟩ := at_inst.frames
  have done := at_inst.effect frames tidy.steady turns
  rcases left with same | inline
  · have renews := renews_effect tidy'.steady.balanced tidy'.stacked.floor_le done
    rw [integerAt, same]
    apply int64?_of_content renews tidy'.steady.balanced.heap tidy₁.steady.balanced same
    rwa [int64?_setIp]
  · rw [integerAt, inline]
    rfl

/-- A place that keeps an integer after a turn yields it for as long as it keeps its value. -/
theorem yields_of_preserves {m₁ m₂ : Machine} (tidy : m.Tidy) (turns : m.Turns m₁)
    (kept : m₁.integerAt place = some k) (preserves : m₁.Preserves place m₂) : m₂.Yields place k := by
  have tidy₁ : m₁.Tidy := turns.turned.tidy tidy
  exact yields (preserves.tidy tidy₁) (preserves.integerAt tidy₁ kept)

/-- When a turn is made, addresses fit the fields of structs. -/
theorem Turns.addressable (turns : m.Turns m') (ip : Nat) : (m.setIp ip).Addressable := by
  unfold Addressable
  rw [heap_setIp]
  exact Nat.le_trans turns.1 (by decide)

theorem restores (tidy : m.Tidy) (at_inst : m.At frame inst) : m.Restores inst := by
  intro place k stores names denotes enough
  let moved := m.setIp (frame.ip + inst.width)
  have tidy' : moved.Tidy := tidy.setIp (frame.ip + inst.width)
  have names' : moved.Designates inst 1 place := (designates_setIp m _ inst 1 place).2 names
  have denotes' : moved.int64? (moved.peek 0) = some k := by rwa [int64?_setIp, peek_setIp]
  constructor
  · intro takes nested
    obtain ⟨m', done⟩ : ∃ m', moved.effect inst frame.function.code.size (frame.ip + inst.width) = .ok m' := by
      apply store_goes tidy'.steady.balanced stores names' denotes' ((takes_setIp m _ place).2 takes)
      rwa [setIp_floor, setIp_stack]
    exact ⟨m', at_inst.turn_eq tidy.steady nested done⟩
  · intro m₁ turns remains
    obtain ⟨callers, frames⟩ := at_inst.frames
    have done := at_inst.effect frames tidy.steady turns
    have stored := content_stored tidy'.steady.balanced (turns.addressable _) tidy'.stacked.floor_le stores names'
      denotes' done remains
    rw [peek_setIp] at stored
    have kept := integerAt_of_content tidy at_inst turns denotes stored
    exact ⟨kept, fun m₂ preserves => yields_of_preserves tidy turns kept preserves⟩

theorem fills (tidy : m.Tidy) (at_inst : m.At frame inst) : m.Fills inst := by
  intro place a i v k m₁ makes operand denotes turns top m₂ preserves
  let moved := m.setIp (frame.ip + inst.width)
  have balanced : moved.Balanced [] := (tidy.setIp (frame.ip + inst.width)).steady.balanced
  obtain ⟨callers, frames⟩ := at_inst.frames
  have done := at_inst.effect frames tidy.steady turns
  have operand' : (moved.stack.take (inst.takes moved.program.types)).reverse[i]? = some v := by
    rwa [setIp_stack, setIp_program]
  have made := content_made balanced (turns.addressable _) makes operand' (by rwa [int64?_setIp]) done top
  exact yields_of_preserves tidy turns (integerAt_of_content tidy at_inst turns denotes made) preserves

/-- It does not show which integers are objects. In a program without host functions, whatever was run,
every integer on the heap is too wide for a word. Instructions on 64-bit integers fail exactly if they
divide by zero; otherwise the result is the reference result on the integers that the operands denote, as an
object exactly if it is too wide, and the references among the operands are given up. An integer that is
stored in a local, a global, an element or a field, be it by making the array or the struct, is the one that
is loaded from there. -/
theorem integers_transparent (guest : ∀ c ∈ p.constants, c.isHost = false) (reached : Reachable p o m) :
    (∀ a n, m.heap.get? a = some (.int64 n) → Value.fitsPayload n = false) ∧
      ∀ frame inst, m.At frame inst →
        m.Computes frame inst ∧ m.PushesInteger inst ∧ m.Restores inst ∧ m.Fills inst := by
  have tidy := tidy_reachable guest reached
  constructor
  · intro a n found
    exact (fitting_reachable guest reached).objects a _ found
  · intro frame inst at_inst
    exact ⟨computes tidy at_inst, pushesInteger tidy at_inst, restores tidy at_inst, fills tidy at_inst⟩

/-- A program that adds 2⁴⁷ to itself, which fits a word, and keeps the sum, which does not, in a global. -/
def widening : Program :=
  { code := Instruction.assemble
      [⟨.const .i64, [0x800000000000]⟩, ⟨.const .i64, [0x800000000000]⟩,
        ⟨.operation (.intBinary .w64 .add), []⟩, ⟨.globalSet, [0]⟩, ⟨.globalGet, [0]⟩]
    constants := #[]
    types := #[] }

/-- What is left of that program after so many turns. -/
def widened (fuel : Nat) : Machine := leftBy (Exec.run fuel (load widening {}))

/-- The sum is an object on the heap, and the global yields it. -/
theorem widening_transparent :
    (∃ m' a, Exec.turn (pure ()) (widened 2) = .ok true m' ∧ m'.stack = [.ref a] ∧
      m'.int64? (.ref a) = some 0x1000000000000) ∧
    ∃ m', (widened 3).Turns m' ∧ m'.Yields (.global 0) 0x1000000000000 := by
  have guest : ∀ c ∈ widening.constants, c.isHost = false := by simp [widening]
  have reached (fuel : Nat) : Reachable widening {} (widened fuel) := .run fuel .load
  constructor
  · obtain ⟨stack, floor, place, decoded⟩ :
        (widened 2).stack = [.i64 0x800000000000, .i64 0x800000000000] ∧ (widened 2).floor = 0 ∧
          (widened 2).frames.head?.map (fun frame => (frame.ip, frame.function.code)) =
            some (18, widening.code) ∧
          Instruction.decode widening.code 18 = .ok ⟨.operation (.intBinary .w64 .add), []⟩ := by
      decide +kernel
    obtain ⟨frame, at_add, -⟩ := at_of_place place (by decide +kernel) decoded
    obtain ⟨computes, -⟩ := (integers_transparent guest (reached 2)).2 frame _ at_add
    obtain ⟨result, m', r, reference, turn, top, ⟨read, wide⟩, -⟩ :=
      (computes (pure ()) _ [.i64 0x800000000000, .i64 0x800000000000] []
        [0x800000000000, 0x800000000000] rfl rfl stack (Nat.le_of_eq floor) rfl
        (.cons rfl (.cons rfl .nil))).2 (fun zero => nomatch zero.1)
    have sum : result = .i64 0x1000000000000 := by
      exact (show result = _ from reference).trans (congrArg Value.i64 (by decide))
    subst sum
    -- the sum is too wide, so it is an object
    have object : r.kind = .ref := wide.2 ⟨0x1000000000000, rfl, by decide⟩
    cases r with
    | ref a =>
      refine ⟨m', a, turn, top, ?_⟩
      simpa [read?, Value.kind] using read
    | _ => cases object
  · obtain ⟨denotes, enough, place, addresses, decoded⟩ :
        (widened 3).int64? ((widened 3).peek 0) = some 0x1000000000000 ∧
          (widened 3).floor + ((Place.global 0).operands + 1) ≤ (widened 3).stack.length ∧
          (widened 3).frames.head?.map (fun frame => (frame.ip, frame.function.code)) =
            some (19, widening.code) ∧
          (widened 3).heap.size ≤ Word.payloadSize ∧
          Instruction.decode widening.code 19 = .ok ⟨.globalSet, [0]⟩ := by
      decide +kernel
    obtain ⟨frame, at_store, -⟩ := at_of_place place (by decide +kernel) decoded
    obtain ⟨-, -, restores, -⟩ := (integers_transparent guest (reached 3)).2 frame _ at_store
    obtain ⟨goes, restored⟩ := restores (.global 0) 0x1000000000000 (.inl rfl) rfl denotes enough
    obtain ⟨m', done⟩ := goes trivial (pure ())
    have turns : (widened 3).Turns m' := ⟨addresses, pure (), true, done⟩
    exact ⟨m', turns, (restored m' turns trivial).2 m' .refl⟩

end Machine

end StackVM
