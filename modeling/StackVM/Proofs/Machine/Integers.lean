import StackVM.Proofs.FrameIsolation
import StackVM.Proofs.Operation.Reference

/-!
# Integers in two forms

An integer that fits a word is kept in one, any other is an object on the heap, and instructions read
both forms alike. Main statements: an instruction on integers does what the operation does on the integers
that its operands denote (`effect_operation`), its result is an object exactly if it does not fit
(`replaced_result`), and the references among its operands are given up (`refcount_replaced`).
-/

namespace StackVM

namespace Heap

variable {h : Heap} {pending : List Nat}

/-- What holds nothing takes nothing with it. -/
theorem count_inner_releaseAll
    (childless : ∀ a ∈ pending, ∀ o, h.get? a = some o → o.children = []) (x : Nat) :
    (h.releaseAll pending).inner.count x = h.inner.count x := by
  fun_induction Heap.releaseAll h pending with
  | case1 h => rfl
  | case2 h rest ih => exact ih fun a mem => childless a (List.mem_cons_of_mem _ mem)
  | case3 h a rest _ _ ih => exact ih fun b mem => childless b (List.mem_cons_of_mem _ mem)
  | case4 h a rest _ _ children ih =>
    -- the object that goes holds nothing
    have none_held : children = [] := by
      change held (h.get? a) = []
      cases found : h.get? a with
      | none => rfl
      | some o => exact childless a List.mem_cons_self o found
    have inner := count_inner_clear h a x
    rw [show held (h.get? a) = [] from none_held] at inner
    rw [ih]
    · exact inner
    · rw [none_held]
      intro b mem o found
      rw [get?_clear] at found
      split at found
      · cases found
      · exact childless b (List.mem_cons_of_mem _ mem) o found
  | case5 h a rest _ n _ ih => exact ih fun b mem => childless b (List.mem_cons_of_mem _ mem)

end Heap

namespace Machine

variable {m m' : Machine} {frame : Frame} {inst : Instruction} {op : Operation} {size next n : Nat}
  {operands rest : List Value} {ns : List (BitVec 64)} {v result : Value}

/-! ### Turns at an instruction -/

/-- At an instruction, a turn comes to what the instruction comes to. -/
theorem At.turn_eq {outcome : Except Cause Machine} (at_inst : m.At frame inst) (steady : m.Steady)
    (nested : Exec Unit) :
    (m.setIp (frame.ip + inst.width)).effect inst frame.function.code.size (frame.ip + inst.width) =
        outcome →
      Exec.turn nested m =
        match outcome with
        | .ok m' => .ok true m'
        | .error c => .error (.fault (Error.atOffset c frame.ip)) (m.setIp (frame.ip + inst.width)) := by
  rintro rfl
  obtain ⟨callers, frames⟩ := at_inst.frames
  obtain ⟨-, inside, decoded⟩ := at_inst
  -- the next instruction is executed by the machine whose offset has moved on
  have next := steady.setIp (frame.ip + inst.width)
  refine Exec.turn_executed frames inside decoded (Exec.execute_eq nested inst _ _ next.bounded fun call => ?_)
  rw [setIp_eq]
  exact steady.guest frame callers inst frames inside decoded call

/-! ### Operands -/

/-- Only values and live objects say what an integer is. -/
theorem int64?_setIp (m : Machine) (ip : Nat) : (m.setIp ip).int64? = m.int64? := by
  funext v
  cases v <;> simp [int64?, heap_setIp]

theorem read?_integer {k : BitVec 64} (denotes : m.int64? v = some k) : m.read? (.scalar .i64) v = some (.i64 k) := by
  rw [read?, if_pos rfl, denotes]
  rfl

/-- Operands that denote integers are read as these integers. -/
theorem mapM_read?_integers (denote : List.Forall₂ (fun v n => m.int64? v = some n) operands ns) :
    operands.mapM (m.read? (.scalar .i64)) = some (ns.map .i64) := by
  induction denote with
  | nil => rfl
  | cons first _ ih =>
    rw [List.mapM_cons, read?_integer first, ih]
    rfl

theorem denotes_of_mem (denote : List.Forall₂ (fun v n => m.int64? v = some n) operands ns)
    (mem : v ∈ operands) : ∃ n, m.int64? v = some n := by
  induction denote with
  | nil => cases mem
  | cons first _ ih =>
    rcases List.mem_cons.1 mem with rfl | mem
    · exact ⟨_, first⟩
    · exact ih mem

/-- A reference that denotes an integer names an object that holds nothing. -/
theorem childless_of_integer {a : Nat} {o : Object} {k : BitVec 64} (denotes : m.int64? (.ref a) = some k)
    (found : m.heap.get? a = some o) : o.children = [] := by
  simp only [int64?, found] at denotes
  cases o with
  | int64 n => rfl
  | _ => cases denotes

/-- Where all operands denote integers, the instruction computes on these integers. -/
theorem effect_operation (opcode : inst.opcode = .operation op) (operand : op.shape.operand = .scalar .i64)
    (stack : m.stack = operands.reverse ++ rest) (above : m.floor ≤ rest.length)
    (arity : operands.length = op.shape.arity)
    (denote : List.Forall₂ (fun v n => m.int64? v = some n) operands ns) :
    m.effect inst size next = (op.eval (ns.map .i64)).map (m.replaced op.shape.arity) := by
  have need : m.need op.shape.arity = .ok () := by
    rw [need_eq_ok, stack, List.length_append, List.length_reverse, arity]
    omega
  have taken : m.operands op.shape.arity op.shape.operand = .ok (ns.map .i64) := by
    rw [Machine.operands, stack, ← arity, ← List.length_reverse, List.take_left, List.reverse_reverse,
      operand, mapM_read?_integers denote]
  unfold effect
  simp only [opcode, need, taken, bind, Except.bind]
  cases op.eval (ns.map .i64) <;> rfl

/-! ### Results -/

/-- A number that is pushed is read back as a word keeps it, and it is pushed as an object exactly if it is an
integer too wide for a word. -/
theorem pushedRead_result (wf : m.heap.WellFormed) (number : result.kind ≠ .ref) :
    ∃ r, (m.pushedRead result).stack = r :: m.stack ∧
      (m.pushedRead result).read? result.kind r = some result.canonical ∧
      (r.kind = .ref ↔ ∃ n, result = .i64 n ∧ Value.fitsPayload n = false) := by
  cases result with
  | i64 n =>
    by_cases room : Value.fitsPayload n = true
    · refine ⟨.i64 n, ?_, ?_, ?_⟩
      · simp only [pushedRead, room, if_true]
        rfl
      · exact read?_integer rfl
      · simp [Value.kind, room]
    · refine ⟨.ref (m.heap.alloc (.int64 n)).1, ?_, ?_, ?_⟩
      · simp only [pushedRead, room]
        rfl
      · apply read?_integer
        have found : (m.heap.alloc (.int64 n)).2.get? (m.heap.alloc (.int64 n)).1 = some (.int64 n) := by
          rw [wf.get?_alloc, if_pos rfl]
        have pushed : (m.pushedRead (.i64 n)).heap = (m.heap.alloc (.int64 n)).2 := by
          simp only [pushedRead, room]
          rfl
        simp only [int64?, pushed, found]
      · simp [Value.kind, room]
  | ref a => exact absurd rfl number
  | _ =>
    refine ⟨_, rfl, ?_, ?_⟩
    · rw [read?, if_neg (by simp [Value.kind]), if_pos (Value.kind_canonical _)]
    · rw [Value.kind_canonical]
      simp [Value.kind]

theorem replaced_result (wf : m.heap.WellFormed) (number : result.kind ≠ .ref) (n : Nat) :
    ∃ r, (m.replaced n result).stack = r :: m.stack.drop n ∧
      (m.replaced n result).read? result.kind r = some result.canonical ∧
      (r.kind = .ref ↔ ∃ n, result = .i64 n ∧ Value.fitsPayload n = false) :=
  pushedRead_result (m := m.discarded n) (wf.releaseValues _) number

theorem count_inner_pushedRead (wf : m.heap.WellFormed) (v : Value) (x : Nat) :
    (m.pushedRead v).heap.inner.count x = m.heap.inner.count x := by
  unfold pushedRead
  split
  · next n =>
    split
    · rfl
    · exact wf.count_inner_alloc (.int64 n) x
  · rfl

/-- The operands are given up and the result is held once: so much do the counts change. -/
theorem refcount_replaced {r : Value} (balanced : m.Balanced []) (number : result.kind ≠ .ref)
    (stack : m.stack = operands.reverse ++ rest) (arity : operands.length = n)
    (denote : List.Forall₂ (fun v n => m.int64? v = some n) operands ns)
    (top : (m.replaced n result).stack = r :: rest) {x : Nat} (pos : 0 < x) :
    (m.replaced n result).heap.refcount x + operands.count (.ref x) =
      m.heap.refcount x + [r].count (.ref x) := by
  have before := balanced.exact x pos
  have after := ((balanced.number number).replaced n).exact x pos
  have taken : m.stack.take n = operands.reverse := by
    rw [stack, ← arity, ← List.length_reverse, List.take_left]
  -- neither the operands nor the result hold anything
  have inner : (m.replaced n result).heap.inner.count x = m.heap.inner.count x := by
    rw [replaced, count_inner_pushedRead (balanced.heap.releaseValues _)]
    change (m.heap.releaseValues (m.stack.take n)).inner.count x = _
    rw [Heap.releaseValues_eq]
    apply Heap.count_inner_releaseAll
    intro a mem o found
    rw [taken] at mem
    have operand := List.mem_reverse.1 (Value.ref_of_mem_addresses mem)
    obtain ⟨k, denotes⟩ := denotes_of_mem denote operand
    exact childless_of_integer denotes found
  obtain ⟨w, h, pushed⟩ := pushedRead_eq (m.discarded n) result
  have others : (m.replaced n result).globals = m.globals ∧
      (m.replaced n result).constants = m.constants ∧ (m.replaced n result).frames = m.frames := by
    rw [replaced, pushed]
    exact ⟨rfl, rfl, rfl⟩
  obtain ⟨globals, constants, frames⟩ := others
  simp only [holders, held, inner, globals, constants, frames, top, List.count_nil] at after
  simp only [holders, held, stack, List.count_append, List.count_reverse, List.count_nil] at before
  simp only [List.count_cons, List.count_nil] at after ⊢
  omega

end Machine

end StackVM
