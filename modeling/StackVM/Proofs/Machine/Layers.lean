import StackVM.Proofs.FrameIsolation
import StackVM.Proofs.Heap.Representation

/-!
# Frames in layers

However the code and the host use a machine, its frames lie above one another on the stack, the slots of its
heap are what they should be, and structs fill their buffers. Main statement: every change keeps this, as
long as the stack is not cut off below the floor of the innermost frame (`Layered`).

Unlike the counts of references this does not depend on the host: it may release what it does not hold, push
dangling references, and reset or run the machine while a function of its own is being called.
-/

namespace StackVM

mutual

/-- A struct fills its buffer, and a function of the host puts only such objects on the heap. -/
def Object.Tame : Object → Prop
  | .struct r => r.WellFormed
  | .host _ body => ∀ arguments, (body arguments).Tame
  | _ => True

/-- Every object that the script puts on the heap is tame. -/
def Script.Tame : Script → Prop
  | .finish _ => True
  | .fail _ => True
  | .tryPush _ next => ∀ answer, (next answer).Tame
  | .tryPushInt _ next => ∀ answer, (next answer).Tame
  | .tryPop next => ∀ answer, (next answer).Tame
  | .alloc o next => o.Tame ∧ ∀ v, (next v).Tame
  | .retain _ next => next.Tame
  | .release _ next => next.Tame
  | .getGlobal _ next => ∀ v, (next v).Tame
  | .setGlobal _ _ next => next.Tame
  | .readInt _ next => ∀ i, (next i).Tame
  | .readString _ next => ∀ s, (next s).Tame
  | .reset next => next.Tame
  | .tryRun next => ∀ answer, (next answer).Tame

end

theorem Script.tame_orFail {α : Type} {next : α → Script} (tame : ∀ a, (next a).Tame) :
    ∀ answer, (Script.orFail next answer).Tame
  | .ok a => tame a
  | .error _ => trivial

theorem Heap.WellFormed.retainValues {h : Heap} (wf : h.WellFormed) (vs : List Value) :
    (h.retainValues vs).WellFormed := by
  unfold Heap.retainValues
  induction vs generalizing h with
  | nil => exact wf
  | cons v vs ih =>
    apply ih
    cases v with
    | ref a => exact wf.retain_any a
    | _ => exact wf

namespace Machine

variable {m m' : Machine} {frame : Frame} {callers : List Frame} {v : Value} {n : Nat}

structure Layered (m : Machine) : Prop where
  stacked : Stacked m.stack.length m.frames
  heap : m.heap.WellFormed
  tame : ∀ a o, m.heap.get? a = some o → o.Tame

namespace Layered

/-- The stack may change above the floor. -/
theorem withStack {stack : List Value} (layered : m.Layered) (deep : m.floor ≤ stack.length) :
    Layered { m with stack } :=
  { layered with stacked := layered.stacked.of_floor deep }

theorem withHeap {heap : Heap} (layered : m.Layered) (wf : heap.WellFormed)
    (tame : ∀ a o, heap.get? a = some o → o.Tame) : Layered { m with heap } :=
  ⟨layered.stacked, wf, tame⟩

theorem releaseAll (layered : m.Layered) (vs : List Value) : (m.releaseAll vs).Layered :=
  layered.withHeap (layered.heap.releaseValues vs) fun a o found =>
    layered.tame a o (Heap.get?_of_releaseValues found)

theorem release (layered : m.Layered) (v : Value) : (m.release v).Layered := layered.releaseAll [v]

theorem retain (layered : m.Layered) (v : Value) : (m.retain v).Layered :=
  layered.withHeap (layered.heap.retainValues [v]) fun a o found =>
    layered.tame a o ((Heap.get?_retainValues m.heap [v] a).symm.trans found)

theorem dropped (layered : m.Layered) (enough : m.floor + n ≤ m.stack.length) : (m.dropped n).Layered := by
  apply layered.withStack
  rw [List.length_drop]
  omega

theorem discarded (layered : m.Layered) (enough : m.floor + n ≤ m.stack.length) : (m.discarded n).Layered :=
  (layered.dropped enough).releaseAll _

theorem pushed (layered : m.Layered) (v : Value) : (m.pushed v).Layered :=
  layered.withStack (Nat.le_succ_of_le layered.stacked.floor_le)

theorem alloc (layered : m.Layered) {o : Object} (tame : o.Tame) : (m.alloc o).2.Layered := by
  apply layered.withHeap (layered.heap.alloc o)
  intro a o' found
  rcases Heap.get?_of_alloc found with rfl | before
  · exact tame
  · exact layered.tame a o' before

theorem pushedObject (layered : m.Layered) {o : Object} (tame : o.Tame) : (m.pushedObject o).Layered :=
  (layered.alloc tame).pushed _

theorem update (layered : m.Layered) {f : Object → Object} {a : Nat} {o : Object}
    (found : m.heap.get? a = some o) (tame : (f o).Tame) :
    Layered { m with heap := m.heap.update a f } := by
  apply layered.withHeap (layered.heap.update a f)
  intro b o' found'
  rw [Heap.get?_update] at found'
  split at found'
  · next here =>
    subst here
    rw [found] at found'
    cases found'
    exact tame
  · exact layered.tame b o' found'

theorem setGlobal (layered : m.Layered) (i : Nat) (v : Value) : (m.setGlobal i v).Layered := by
  have put : Layered { m with globals := m.globals.put i v } :=
    ⟨layered.stacked, layered.heap, layered.tame⟩
  unfold Machine.setGlobal
  cases m.globals.get? i with
  | none => exact put
  | some w => exact put.release w

theorem setPlace (layered : m.Layered) (place : Nat) (v : Value) : (m.setPlace place v).Layered := by
  have set : Layered { m with stack := m.stack.set (m.fromTop place) v } := by
    apply layered.withStack
    rw [List.length_set]
    exact layered.stacked.floor_le
  exact set.release _

theorem setIp (layered : m.Layered) (ip : Nat) : (m.setIp ip).Layered := by
  refine ⟨stacked_setIp layered.stacked ip, ?_, ?_⟩
  · rw [heap_setIp]
    exact layered.heap
  · rw [heap_setIp]
    exact layered.tame

/-- Nothing is left of the stack and the frames. -/
theorem reset (layered : m.Layered) : m.reset.Layered := by
  refine ⟨trivial, ?_, fun a o found => layered.tame a o (Balanced.get?_of_reset found)⟩
  rw [Balanced.reset_eq]
  exact ((layered.heap.releaseValues _).releaseValues _).releaseValues _

/-- A function is entered above the operands of its caller. -/
theorem entered (layered : m.Layered) {f : Function} {captures : List Value} {callee : Nat}
    (enough : m.floor + (f.signature.params.length + 1) ≤ m.stack.length)
    (captured : captures.length ≤ f.locals) : (m.entered f captures callee).Layered := by
  have below : (m.stack.drop 1).length = m.stack.length - 1 := List.length_drop
  have length : (m.entered f captures callee).stack.length = (m.stack.drop 1).length + f.locals := by
    simp only [Machine.entered, List.length_append, List.length_reverse, List.length_replicate]
    omega
  refine ⟨⟨?_, ?_, layered.stacked.of_floor ?_⟩, layered.heap.retainValues captures, fun a o found => ?_⟩
  · simp only
    omega
  · rw [length]
    simp only
    omega
  · simp only
    omega
  · exact layered.tame a o ((Heap.get?_retainValues m.heap captures a).symm.trans found)

/-- A frame leaves its callers as they are, and its results on top of what they had. -/
theorem returned (layered : m.Layered) (frames : m.frames = frame :: callers)
    (enough : m.floor + frame.function.signature.returns.length ≤ m.stack.length) :
    (m.returned frame).Layered := by
  obtain ⟨stacked, wf, tame⟩ := layered
  have floor : m.floor = frame.floor := by rw [Machine.floor, frames]
  rw [floor] at enough
  rw [frames] at stacked
  obtain ⟨sunk, -, outer⟩ := stacked
  refine ⟨?_, (wf.releaseValues _).releaseAll _, fun a o found => tame a o (heap_returned found)⟩
  rw [frames_returned frames, length_returned sunk enough]
  exact outer.mono (Nat.le_add_right _ _)

end Layered

end Machine

end StackVM
