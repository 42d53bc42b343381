import Mathlib.Data.List.Forall2
import StackVM.Proofs.Heap.Counting
import StackVM.Proofs.Machine.Effect
import StackVM.Proofs.Operation.Shapes
import StackVM.Proofs.Record.Fields

/-!
# Who holds a reference

Every reference has one holder: a place on the stack, a global, a constant, a frame, or a place inside a
live object. While an instruction is under way some references are in nobody's place; they are in its
hand. `Balanced` says that every count is the number of holders, and each change of the machine moves
references between the places and the hand. Constants are held for good, so their slots keep what was
loaded into them. Main statement: an instruction that starts with an empty hand ends with one
(`Balanced.effect`).
-/

namespace StackVM

theorem Value.count_addresses {a : Nat} (pos : 0 < a) (vs : List Value) :
    (Value.addresses vs).count a = vs.count (.ref a) := by
  induction vs with
  | nil => rfl
  | cons v vs ih =>
    unfold Value.addresses at ih ⊢
    rw [List.filterMap_cons, List.count_cons, ← ih]
    cases v with
    | ref b =>
      -- address zero is null and is nobody's address
      cases b with
      | zero => simp; omega
      | succ b => simp [List.count_cons]
    | _ => simp

theorem Value.mem_addresses {a : Nat} (pos : 0 < a) {vs : List Value} (mem : .ref a ∈ vs) :
    a ∈ Value.addresses vs := by
  rw [← List.count_pos_iff, Value.count_addresses pos, List.count_pos_iff]
  exact mem

theorem Value.ref_of_mem_addresses {a : Nat} {vs : List Value} (mem : a ∈ Value.addresses vs) :
    .ref a ∈ vs := by
  obtain ⟨v, held, address⟩ := List.mem_filterMap.1 mem
  split at address
  · cases address
    exact held
  · cases address

theorem Value.zero_ne_ref {a : Nat} (pos : 0 < a) (k : Kind) : Value.zero k ≠ .ref a := by
  intro eq
  have raw := congrArg Value.raw eq
  cases k with
  | scalar s => cases s <;> simp [Value.zero, Value.ofRaw] at eq
  -- the zero of references is null
  | ref =>
    simp only [Value.zero, Value.ofRaw, Value.raw] at raw
    omega

theorem Value.count_of_not_ref {a : Nat} {vs : List Value} (numbers : ∀ v ∈ vs, v.kind ≠ .ref) :
    vs.count (.ref a) = 0 := by
  rw [List.count_eq_zero]
  intro held
  exact numbers _ held rfl

theorem Packed.kind_get? {p : Packed} {i : Nat} {v : Value} (element : p.get? i = some v) :
    v.kind = .scalar p.scalar := by
  obtain ⟨bits, -, rfl⟩ := Option.map_eq_some_iff.1 element
  exact Value.kind_ofRaw _ _

/-- A reference that an array has for an element is among its children. -/
theorem Object.child_of_element {o : Object} {i a : Nat} (pos : 0 < a)
    (element : o.element? i = some (.ref a)) : a ∈ o.children := by
  cases o with
  | packed p => exact absurd (Packed.kind_get? element) (by simp [Value.kind])
  | array elem elems => exact Value.mem_addresses pos (by simpa using Array.mem_of_getElem? element)
  | _ => cases element

theorem Record.address_of_field {r : Record} {i a : Nat} (pos : 0 < a) (value : r.get? i = some (.ref a)) :
    a ∈ r.addresses :=
  Value.mem_addresses pos (Record.mem_values_of_get? value)

/-- Storing one value in place of another exchanges the two. -/
theorem Value.count_set {vs : List Value} {i : Nat} {old : Value} (at_i : vs[i]? = some old)
    (new w : Value) : (vs.set i new).count w + [old].count w = vs.count w + [new].count w := by
  induction vs generalizing i with
  | nil => simp at at_i
  | cons v vs ih =>
    cases i with
    | zero =>
      simp only [List.getElem?_cons_zero, Option.some.injEq] at at_i
      subst at_i
      simp only [List.set_cons_zero, List.count_cons, List.count_nil]
      omega
    | succ i =>
      have exchanged := ih at_i
      simp only [List.set_cons_succ, List.count_cons, List.count_nil] at exchanged ⊢
      omega

theorem Table.count_values_put (t : Table Value) (i : Nat) (new w : Value) :
    (t.put i new).values.count w + (t.get? i).toList.count w = t.values.count w + [new].count w := by
  obtain ⟨entries, trimmed⟩ := t
  simp only [Table.put, Table.values, Table.get?]
  clear trimmed
  induction entries generalizing i with
  -- past the end of the table nothing is replaced
  | nil =>
    induction i with
    | zero => simp [Table.putList]
    | succ i ih => simpa [Table.putList] using ih
  | cons e es ih =>
    cases i with
    | zero =>
      cases e with
      | none => simp [Table.putList, List.count_cons]
      | some old =>
        simp only [Table.putList, List.filterMap_cons, id, List.count_cons, List.count_nil,
          List.getElem?_cons_zero, Option.join_some, Option.toList_some]
        omega
    | succ i =>
      have exchanged := ih i
      cases e with
      | none => simpa [Table.putList] using exchanged
      | some old =>
        simp only [Table.putList, List.filterMap_cons, id, List.count_cons,
          List.getElem?_cons_succ] at exchanged ⊢
        omega

/-- Objects that a program can meet as long as no host function runs: structs fill their layout, and the
only functions are those of the program. -/
def Object.Sound (p : Program) : Object → Prop
  | .struct r => r.WellFormed
  | .function f => f ∈ p.functions
  | .closure _ _ => False
  | .host signature body => .host signature body ∈ p.constants
  | _ => True

/-- The object with all elements and fields as in a fresh one. Instructions change nothing else of an
object while it lives. -/
def Object.blank : Object → Object
  | .packed p => .packed (.zeros p.scalar p.size)
  | .array elem elems => .array elem (Array.replicate elems.size .null)
  | .struct r => .struct (.zero r.fields)
  | o => o

theorem Object.blank_setElement (o : Object) (i : Nat) (v : Value) : (o.setElement i v).blank = o.blank := by
  cases o with
  | packed p => simp [setElement, blank, Packed.set, Packed.size]
  | array elem elems => simp [setElement, blank]
  | _ => rfl

theorem Object.blank_setField (o : Object) (i : Nat) (v : Value) : (o.setField i v).blank = o.blank := by
  cases o with
  | struct r => simp [setField, blank]
  | _ => rfl

/-- How a constant is kept: a number as it is, anything else as a reference to a live object that differs
from the loaded one in elements at most. -/
def Constant.Kept (heap : Heap) (c : Constant) (v : Value) : Prop :=
  match c.form with
  | .inl w => v = w
  | .inr o => ∃ a o', v = .ref a ∧ heap.get? a = some o' ∧ o'.blank = o.blank

namespace Machine

/-- Every constant is kept, each object among them in a slot of its own. -/
structure Pool (program : Program) (constants : Array Value) (heap : Heap) : Prop where
  kept : List.Forall₂ (Constant.Kept heap) program.constants.toList constants.toList
  distinct : (Value.addresses constants.toList).Nodup

/-- Objects that constants refer to stay, unless they change in their elements. -/
theorem Pool.change {program : Program} {constants : Array Value} {heap heap' : Heap}
    (pool : Pool program constants heap)
    (lives : ∀ a, .ref a ∈ constants → (heap.get? a).isSome → (heap'.get? a).isSome)
    (same : ∀ a o o', heap.get? a = some o → heap'.get? a = some o' → o'.blank = o.blank) :
    Pool program constants heap' where
  distinct := pool.distinct
  kept := by
    obtain ⟨length, kept⟩ := List.forall₂_iff_zip.1 pool.kept
    refine List.forall₂_iff_zip.2 ⟨length, fun {c v} pair => ?_⟩
    have before := kept pair
    unfold Constant.Kept at before ⊢
    cases form : c.form with
    | inl w => simpa only [form] using before
    | inr o =>
      simp only [form] at before ⊢
      obtain ⟨a, found, rfl, at_a, like⟩ := before
      have member : .ref a ∈ constants := Array.mem_toList_iff.1 (List.of_mem_zip pair).2
      obtain ⟨o', at_a'⟩ := Option.isSome_iff_exists.1 (lives a member (by rw [at_a]; rfl))
      exact ⟨a, o', rfl, at_a', (same a found o' at_a at_a').trans like⟩

/-- Places outside the heap that hold the address. -/
def held (m : Machine) (a : Nat) : Nat :=
  m.stack.count (.ref a) + m.globals.values.count (.ref a) + m.constants.toList.count (.ref a) +
    (m.frames.map Frame.callee).count a

/-- Holders of the address: the places outside the heap, and the places in live objects. -/
def holders (m : Machine) (a : Nat) : Nat := m.held a + m.heap.inner.count a

/-- The addresses that the places outside the heap hold. -/
def references (m : Machine) : List Nat :=
  Value.addresses m.stack ++ Value.addresses m.globals.values ++
    Value.addresses m.constants.toList ++ m.frames.map Frame.callee

theorem count_references (m : Machine) {a : Nat} (pos : 0 < a) : m.references.count a = m.held a := by
  simp only [references, held, List.count_append, Value.count_addresses pos]

/-- The value is no dangling reference. -/
def Live (m : Machine) (v : Value) : Prop := ∀ a, 0 < a → v = .ref a → ∃ o, m.heap.get? a = some o

/-- Every address fits the eight bytes that a struct field has for it. -/
def Addressable (m : Machine) : Prop := m.heap.size ≤ 256 ^ 8

/-- All counts are right when the values in the hand count as holders too. -/
structure Balanced (m : Machine) (hand : List Value) : Prop where
  heap : m.heap.WellFormed
  exact : ∀ a, 0 < a → m.heap.refcount a = m.holders a + hand.count (.ref a)
  sound : ∀ a o, m.heap.get? a = some o → o.Sound m.program
  pool : Pool m.program m.constants m.heap

namespace Balanced

variable {m m' : Machine} {hand hand' vs : List Value} {v : Value} {n : Nat}

theorem exactly (balanced : m.Balanced hand) :
    m.heap.Exact (Value.addresses hand ++ m.references) := by
  intro a pos
  rw [balanced.exact a pos, List.count_append, count_references m pos, Value.count_addresses pos,
    holders]
  omega

/-- References that move between places and the hand change no count. -/
theorem moved (balanced : m.Balanced hand) (heap : m'.heap = m.heap) (program : m'.program = m.program)
    (constants : m'.constants = m.constants)
    (same : ∀ a, 0 < a → m'.held a + hand'.count (.ref a) = m.held a + hand.count (.ref a)) :
    m'.Balanced hand' where
  heap := heap ▸ balanced.heap
  sound := by
    rw [heap, program]
    exact balanced.sound
  pool := by
    rw [heap, program, constants]
    exact balanced.pool
  exact a pos := by
    have counted := balanced.exact a pos
    have moved := same a pos
    rw [heap, counted, holders, holders, heap]
    omega

/-- A changed heap that is exact for the same places, and another hand. -/
theorem withHeap (balanced : m.Balanced hand) (h : Heap) (wf : h.WellFormed)
    (exact : h.Exact (Value.addresses hand' ++ m.references))
    (sound : ∀ a o, h.get? a = some o → o.Sound m.program)
    (same : ∀ a o o', m.heap.get? a = some o → h.get? a = some o' → o'.blank = o.blank) :
    Balanced { m with heap := h } hand' where
  heap := wf
  sound := sound
  pool := by
    refine balanced.pool.change (fun a member live => ?_) same
    -- the constant itself keeps its object counted
    obtain ⟨o, found⟩ := Option.isSome_iff_exists.1 live
    have pos := balanced.heap.pos_of_get? found
    have held : a ∈ m.references := by
      simp only [references, List.mem_append]
      exact .inl (.inr (Value.mem_addresses pos (Array.mem_toList_iff.2 member)))
    exact (wf.live a).2 (exact.counted pos (.inl (List.mem_append_right _ held)))
  exact a pos := by
    rw [exact a pos, List.count_append, count_references m pos, Value.count_addresses pos, holders]
    simp only [held]
    omega

/-- What has a holder is live. -/
theorem live (balanced : m.Balanced hand)
    (place : ∀ a, 0 < a → v = .ref a → 0 < m.holders a + hand.count (.ref a)) : m.Live v := by
  intro a pos eq
  have counted := balanced.exact a pos
  have held := place a pos eq
  exact Option.isSome_iff_exists.1 ((balanced.heap.live a).2 (by omega))

theorem live_of_stack (balanced : m.Balanced hand) (mem : v ∈ m.stack) : m.Live v := by
  refine balanced.live fun a _ eq => ?_
  have counted := List.count_pos_iff.2 (eq ▸ mem)
  simp only [holders, held]
  omega

theorem live_of_hand (balanced : m.Balanced hand) (mem : v ∈ hand) : m.Live v := by
  refine balanced.live fun a _ eq => ?_
  have counted := List.count_pos_iff.2 (eq ▸ mem)
  omega

theorem live_of_global (balanced : m.Balanced hand) {i : Nat} (found : m.globals.get? i = some v) :
    m.Live v := by
  refine balanced.live fun a _ eq => ?_
  have counted := List.count_pos_iff.2 (eq ▸ Table.mem_values_of_get? found)
  simp only [holders, held]
  omega

theorem live_of_constant (balanced : m.Balanced hand) {i : Nat} (found : m.constants[i]? = some v) :
    m.Live v := by
  refine balanced.live fun a _ eq => ?_
  have mem : .ref a ∈ m.constants.toList := by
    rw [Array.mem_toList_iff, ← eq]
    exact Array.mem_of_getElem? found
  have counted := List.count_pos_iff.2 mem
  simp only [holders, held]
  omega

theorem live_of_child (balanced : m.Balanced hand) {b : Nat} {o : Object}
    (found : m.heap.get? b = some o) (child : ∀ a, 0 < a → v = .ref a → a ∈ o.children) :
    m.Live v := by
  refine balanced.live fun a pos eq => ?_
  have counted := List.count_pos_iff.2 (Heap.child_mem_inner found (child a pos eq))
  simp only [holders]
  omega

/-! ### One change at a time -/

theorem pushed (balanced : m.Balanced (v :: hand)) : (m.pushed v).Balanced hand := by
  refine balanced.moved rfl rfl rfl fun a _ => ?_
  simp only [Machine.pushed, held, List.count_cons]
  omega

theorem dropped (balanced : m.Balanced hand) (n : Nat) :
    (m.dropped n).Balanced (m.stack.take n ++ hand) := by
  refine balanced.moved rfl rfl rfl fun a _ => ?_
  have parts : m.stack.count (.ref a) =
      (m.stack.take n).count (.ref a) + (m.stack.drop n).count (.ref a) := by
    rw [← List.count_append, List.take_append_drop]
  simp only [Machine.dropped, held, List.count_append]
  omega

theorem reordered (balanced : m.Balanced hand)
    (same : ∀ a, 0 < a → hand.count (.ref a) = hand'.count (.ref a)) : m.Balanced hand' :=
  balanced.moved rfl rfl rfl fun a pos => by rw [same a pos]

theorem callees_setIp (m : Machine) (ip : Nat) :
    (m.setIp ip).frames.map Frame.callee = m.frames.map Frame.callee := by
  unfold Machine.setIp
  split
  · rfl
  · next frame rest found => simp [found]

theorem setIp (balanced : m.Balanced hand) (ip : Nat) : (m.setIp ip).Balanced hand := by
  have others : (m.setIp ip).heap = m.heap ∧ (m.setIp ip).stack = m.stack ∧
      (m.setIp ip).globals = m.globals ∧ (m.setIp ip).constants = m.constants ∧
      (m.setIp ip).program = m.program := by
    unfold Machine.setIp
    split <;> simp
  obtain ⟨heap, stack, globals, constants, program⟩ := others
  refine balanced.moved heap program constants fun a _ => ?_
  rw [held, held, callees_setIp, stack, globals, constants]

theorem releaseAll (balanced : m.Balanced (vs ++ hand)) : (m.releaseAll vs).Balanced hand := by
  refine balanced.withHeap _ (balanced.heap.releaseValues vs) ?_ ?_ ?_
  · refine Heap.Exact.releaseValues ?_
    -- what is released leaves the hand
    refine balanced.exactly.congr fun a pos => ?_
    simp only [List.count_append, Value.count_addresses pos]
    omega
  · intro a o found
    exact balanced.sound a o (Heap.get?_of_releaseValues found)
  · intro a o o' found survives
    cases found.symm.trans (Heap.get?_of_releaseValues survives)
    rfl

theorem release (balanced : m.Balanced (v :: hand)) : (m.release v).Balanced hand :=
  @releaseAll m hand [v] balanced

theorem discarded (balanced : m.Balanced hand) (n : Nat) : (m.discarded n).Balanced hand :=
  (balanced.dropped n).releaseAll

/-- A live value may be held once more. -/
theorem retain (balanced : m.Balanced hand) (live : m.Live v) :
    (m.retain v).Balanced (v :: hand) := by
  cases v with
  | ref a =>
    -- what is live has a count, which may be raised
    have counted : 0 < a → 0 < m.heap.refcount a := by
      intro pos
      obtain ⟨o, found⟩ := live a pos rfl
      exact (balanced.heap.live a).1 (by rw [found]; rfl)
    refine balanced.withHeap _ (balanced.heap.retain counted) ?_ ?_ ?_
    · refine (balanced.exactly.retain counted).congr fun b pos => ?_
      simp only [List.count_cons, List.count_append, Value.count_addresses pos, beq_iff_eq,
        Value.ref.injEq]
      omega
    · intro b o found
      refine balanced.sound b o ?_
      rwa [← Heap.get?_retain m.heap a]
    · intro b o o' found found'
      cases found.symm.trans ((Heap.get?_retain m.heap a b).symm.trans found')
      rfl
  | _ =>
    refine balanced.reordered fun a _ => ?_
    rw [List.count_cons_of_ne]
    simp

/-- A new object takes over what it holds from the hand. -/
theorem pushedObject {o : Object} (balanced : m.Balanced (vs ++ hand))
    (sound : o.Sound m.program)
    (children : ∀ a, 0 < a → o.children.count a = vs.count (.ref a)) :
    (m.pushedObject o).Balanced hand := by
  -- the values in the hand become the children of the object
  have taken : m.heap.Exact (o.children ++ (Value.addresses hand ++ m.references)) := by
    refine balanced.exactly.congr fun a pos => ?_
    simp only [List.count_append, Value.count_addresses pos, children a pos]
    omega
  -- the new reference is in the hand before it is pushed
  have allocated : Balanced { m with heap := (m.heap.alloc o).2 } (.ref (m.heap.alloc o).1 :: hand) := by
    refine balanced.withHeap _ (balanced.heap.alloc o) ?_ ?_ ?_
    · refine (Heap.Exact.alloc balanced.heap o taken).congr fun a pos => ?_
      simp only [List.count_cons, List.count_append, Value.count_addresses pos, beq_iff_eq,
        Value.ref.injEq]
      omega
    · intro a o' found
      rw [balanced.heap.get?_alloc] at found
      split at found
      · cases found
        exact sound
      · exact balanced.sound a o' found
    · intro a o₁ o₂ found found'
      rw [balanced.heap.get?_alloc] at found'
      split at found'
      -- the new slot held nothing before
      · next fresh =>
        rw [← fresh, (balanced.heap.alloc_fresh o).2.2] at found
        cases found
      · cases found.symm.trans found'
        rfl
  exact allocated.pushed

theorem setGlobal (balanced : m.Balanced (v :: hand)) (i : Nat) : (m.setGlobal i v).Balanced hand := by
  -- the old value comes into the hand when the new one is stored
  have stored : Balanced { m with globals := m.globals.put i v } ((m.globals.get? i).toList ++ hand) := by
    refine balanced.moved rfl rfl rfl fun a _ => ?_
    have exchanged := Table.count_values_put m.globals i v (.ref a)
    simp only [held, List.count_append, List.count_cons, List.count_nil] at exchanged ⊢
    omega
  unfold Machine.setGlobal
  cases old : m.globals.get? i with
  | none =>
    rw [old] at stored
    exact stored
  | some w =>
    rw [old] at stored
    exact stored.release

theorem setPlace (balanced : m.Balanced (v :: hand)) {place : Nat} (inside : place < m.stack.length) :
    (m.setPlace place v).Balanced hand := by
  have depth : m.fromTop place < m.stack.length := by
    unfold fromTop
    omega
  have found : m.stack[m.fromTop place]? = some (m.peek (m.fromTop place)) := by
    simp [peek, List.getElem?_eq_getElem depth]
  -- the old value comes into the hand when the new one is stored
  have stored : Balanced { m with stack := m.stack.set (m.fromTop place) v }
      (m.peek (m.fromTop place) :: hand) := by
    refine balanced.moved rfl rfl rfl fun a _ => ?_
    have exchanged := Value.count_set found v (.ref a)
    simp only [held, List.count_cons, List.count_nil] at exchanged ⊢
    omega
  exact stored.release

/-- Changing a live object exchanges what it holds with what is in the hand. -/
theorem update {a : Nat} {o : Object} {f : Object → Object} (balanced : m.Balanced hand)
    (found : m.heap.get? a = some o) (sound : (f o).Sound m.program)
    (blank : (f o).blank = o.blank)
    (same : ∀ b, 0 < b → hand.count (.ref b) + o.children.count b =
      hand'.count (.ref b) + (f o).children.count b) :
    Balanced { m with heap := m.heap.update a f } hand' := by
  refine balanced.withHeap _ (balanced.heap.update a f) ?_ ?_ ?_
  · refine balanced.exactly.update found f fun b pos => ?_
    have exchanged := same b pos
    simp only [List.count_append, Value.count_addresses pos]
    omega
  · intro b o' found'
    rw [Heap.get?_update] at found'
    split at found'
    · next here =>
      subst here
      rw [found, Option.map_some, Option.some.injEq] at found'
      exact found' ▸ sound
    · exact balanced.sound b o' found'
  · intro b o₁ o₂ before after
    rw [Heap.get?_update] at after
    split at after
    · next here =>
      subst here
      cases found.symm.trans before
      rw [found, Option.map_some, Option.some.injEq] at after
      exact after ▸ blank
    · cases before.symm.trans after
      rfl

/-! ### Frames -/

theorem retainValues (balanced : m.Balanced hand) (live : ∀ v ∈ vs, m.Live v) :
    Balanced { m with heap := m.heap.retainValues vs } (vs ++ hand) := by
  induction vs generalizing m hand with
  | nil => exact balanced
  | cons v vs ih =>
    have once := balanced.retain (live v (by simp))
    have rest := ih once fun w mem a pos eq => by
      obtain ⟨o, found⟩ := live w (List.mem_cons_of_mem _ mem) a pos eq
      refine ⟨o, ?_⟩
      cases v with
      | ref b => exact (Heap.get?_retain m.heap b a).trans found
      | _ => exact found
    refine rest.reordered fun a _ => ?_
    simp only [List.count_append, List.count_cons]
    omega

/-- A call moves the reference to the function from the stack into the frame. -/
theorem entered {f : Function} {captures : List Value} {callee : Nat} {rest : List Value}
    (balanced : m.Balanced []) (top : m.stack = .ref callee :: rest)
    (live : ∀ v ∈ captures, m.Live v) : (m.entered f captures callee).Balanced [] := by
  have retained := balanced.retainValues live
  refine retained.moved rfl rfl rfl fun a pos => ?_
  -- fresh locals are null and hold nothing
  have null : (List.replicate (f.locals - captures.length) Value.null).count (.ref a) = 0 := by
    rw [List.count_replicate, if_neg]
    simp [Value.null]
    omega
  simp only [Machine.entered, held, top, List.drop_one, List.tail_cons, List.map_cons,
    List.count_append, List.count_cons, List.count_reverse, null, List.count_nil, beq_iff_eq,
    Value.ref.injEq]
  omega

/-- A return gives up the locals, the surplus operands and the reference to the function. -/
theorem returned {frame : Frame} {callers : List Frame} (balanced : m.Balanced [])
    (frames : m.frames = frame :: callers) : (m.returned frame).Balanced [] := by
  let n := frame.function.signature.returns.length
  let below := m.stack.drop n
  let surplus := below.length - frame.base
  -- the frame and everything above its base are taken off first
  have taken : Balanced { m with stack := m.stack.take n ++ below.drop surplus, frames := callers }
      ((below.take surplus).reverse ++ [.ref frame.callee]) := by
    refine balanced.moved rfl rfl rfl fun a _ => ?_
    have stack : m.stack.count (.ref a) = (m.stack.take n).count (.ref a) +
        ((below.take surplus).count (.ref a) + (below.drop surplus).count (.ref a)) := by
      rw [← List.count_append, List.take_append_drop, ← List.count_append, List.take_append_drop]
    simp only [held, frames, List.map_cons, List.count_append, List.count_cons, List.count_reverse,
      List.count_nil, beq_iff_eq, Value.ref.injEq]
    omega
  have released := taken.releaseAll.release
  unfold Machine.returned
  rw [frames]
  exact released

/-- A reset releases the functions of the frames, the operands and the globals. -/
theorem reset_eq (m : Machine) :
    m.reset =
      ((Machine.releaseAll { m with stack := [], frames := [], globals := .empty }
        (m.frames.reverse.map fun frame => Value.ref frame.callee)).releaseAll
          m.stack.reverse).releaseAll m.globals.values := by
  have fold : m.heap.releaseValues (m.frames.reverse.map fun frame => Value.ref frame.callee) =
      m.frames.reverse.foldl (fun h frame => h.release frame.callee) m.heap := List.foldl_map
  unfold Machine.reset
  rw [← fold]
  rfl

/-- What survives a reset is unchanged. -/
theorem get?_of_reset {a : Nat} {o : Object} (survives : m.reset.heap.get? a = some o) :
    m.heap.get? a = some o := by
  rw [reset_eq] at survives
  exact Heap.get?_of_releaseValues (Heap.get?_of_releaseValues (Heap.get?_of_releaseValues survives))

theorem reset (balanced : m.Balanced []) : m.reset.Balanced [] := by
  let callees := m.frames.reverse.map fun frame => Value.ref frame.callee
  -- everything outside the heap but the constants is taken into the hand
  have taken : Balanced { m with stack := [], frames := [], globals := .empty }
      (callees ++ (m.stack.reverse ++ (m.globals.values ++ []))) := by
    refine balanced.moved rfl rfl rfl fun a _ => ?_
    have frames : callees.count (.ref a) = (m.frames.map Frame.callee).count a := by
      simp only [callees, List.count, List.countP_map, List.countP_reverse]
      refine List.countP_congr fun frame _ => ?_
      simp
    simp only [held, Table.empty, Table.values, frames, List.count_append, List.count_reverse,
      List.map_nil, List.filterMap_nil, List.count_nil]
    omega
  have released := taken.releaseAll.releaseAll.releaseAll
  rw [reset_eq]
  exact released

end Balanced

/-! ### Operands that were read -/

section Reading

variable {m : Machine} {k : Kind} {v w : Value} {t : Ty} {ts : List Ty} {vs ws : List Value}

theorem kind_of_read? (read : m.read? k v = some w) : w.kind = k := by
  unfold read? at read
  split at read
  · next wide =>
    obtain ⟨n, -, rfl⟩ := Option.map_eq_some_iff.1 read
    exact wide.symm
  · split at read
    · next same =>
      cases read
      exact same
    · cases read

/-- A reference is read as it is. -/
theorem read?_ref (read : m.read? .ref v = some w) : w = v := by
  unfold read? at read
  rw [if_neg (by decide)] at read
  split at read
  · exact (Option.some.inj read).symm
  · cases read

theorem readAll_cons (read : m.readAll (t :: ts) (v :: vs) = .ok ws) :
    ∃ u us, ws = u :: us ∧ m.read? t.kind v = some u ∧ m.readAll ts vs = .ok us := by
  unfold readAll at read ⊢
  rw [List.zip_cons_cons, List.mapM_cons] at read
  cases first : m.read? t.kind v with
  | none => simp [first] at read
  | some u =>
    cases rest : (ts.zip vs).mapM fun x => m.read? x.1.kind x.2 with
    | none => simp [first, rest] at read
    | some us =>
      simp only [first, rest, Option.bind_eq_bind, Option.bind_some] at read
      cases read
      exact ⟨u, us, rfl, rfl, rfl⟩

theorem readAll_nil (read : m.readAll [] vs = .ok ws) : ws = [] := by
  simp only [readAll, List.zip_nil_left, List.mapM_nil] at read
  cases read
  rfl

theorem getElem?_readAll (read : m.readAll ts vs = .ok ws) (length : ts.length ≤ vs.length) :
    ws.length = ts.length ∧ ∀ (i : Nat) (w : Value), ws[i]? = some w →
      ∃ t v, ts[i]? = some t ∧ vs[i]? = some v ∧ m.read? t.kind v = some w := by
  induction ts generalizing vs ws with
  | nil => simp [readAll_nil read]
  | cons t ts ih =>
    cases vs with
    | nil => simp at length
    | cons v vs =>
      obtain ⟨u, us, rfl, first, rest⟩ := readAll_cons read
      obtain ⟨same, each⟩ := ih rest (by simpa using length)
      refine ⟨by simp [same], fun i w at_i => ?_⟩
      cases i with
      | zero => exact ⟨t, v, rfl, rfl, by simpa [← at_i] using first⟩
      | succ i => exact each i w at_i

/-- Reading keeps the references where the type is one; elsewhere it leaves only a number, and the
operand is given back. -/
theorem count_readAll (read : m.readAll ts vs = .ok ws) (length : ts.length = vs.length) (a : Nat) :
    ws.count (.ref a) +
      (((ts.zip vs).filter fun (t, _) => !t.isRef).map Prod.snd).count (.ref a) =
      vs.count (.ref a) := by
  induction ts generalizing vs ws with
  | nil =>
    cases vs with
    | nil => simp [readAll_nil read]
    | cons v vs => simp at length
  | cons t ts ih =>
    cases vs with
    | nil => simp at length
    | cons v vs =>
      obtain ⟨u, us, rfl, first, rest⟩ := readAll_cons read
      have tail := ih rest (by simpa using length)
      rw [List.zip_cons_cons, List.filter_cons]
      cases isRef : t.isRef with
      | true =>
        have kind : t.kind = .ref := by simpa [Ty.isRef] using isRef
        rw [kind] at first
        -- a reference that was read is the operand itself
        have same := read?_ref first
        subst same
        simp only [isRef, Bool.not_true, Bool.false_eq_true, if_false, List.count_cons] at tail ⊢
        omega
      | false =>
        -- a number that was read is no reference, whatever the operand was
        have number : u ≠ .ref a := by
          rintro rfl
          simp [Ty.isRef, ← kind_of_read? first, Value.kind] at isRef
        simp only [isRef, Bool.not_false, if_true, List.map_cons, List.count_cons,
          beq_eq_false_iff_ne.2 number, Bool.false_eq_true, if_false] at tail ⊢
        omega

end Reading

/-! ### Instructions -/

theorem live_null (m : Machine) : m.Live .null := by
  intro a pos eq
  cases eq
  omega

/-- What was read from a live operand fits the bytes of its kind. -/
theorem Addressable.storable {m : Machine} {k : Kind} {v w : Value} (addresses : m.Addressable)
    (live : m.Live v) (read : m.read? k v = some w) : w.Storable := by
  cases w with
  | i32 n => exact n.isLt
  | i64 n => exact n.isLt
  | f32 x => exact x.bits.isLt
  | f64 x => exact x.bits.isLt
  | ref a =>
    have kind := kind_of_read? read
    change Kind.ref = k at kind
    subst kind
    cases read?_ref read
    change a < 256 ^ 8
    cases a with
    | zero => decide
    | succ a =>
      -- a live address lies inside the heap
      obtain ⟨o, found⟩ := live (a + 1) (by omega) rfl
      exact Nat.lt_of_lt_of_le (Heap.lt_size_of_get? found) addresses

namespace Balanced

variable {m m' : Machine} {hand : List Value} {v : Value} {n : Nat}

theorem live_peek (balanced : m.Balanced hand) (depth : Nat) : m.Live (m.peek depth) := by
  unfold peek
  cases found : m.stack[depth]? with
  | none => exact live_null m
  | some v => exact balanced.live_of_stack (List.mem_of_getElem? found)

theorem dropped_one (balanced : m.Balanced []) (some_operand : 0 < m.stack.length) :
    (m.dropped 1).Balanced [m.peek 0] := by
  have taken := balanced.dropped 1
  rwa [take_one some_operand, List.append_nil] at taken

theorem pushedRead (balanced : m.Balanced (v :: hand)) : (m.pushedRead v).Balanced hand := by
  unfold Machine.pushedRead
  split
  · next n =>
    split
    · exact balanced.pushed
    -- an integer too wide for a word goes onto the heap
    · refine @pushedObject m hand [] (.int64 n) ?_ trivial ?_
      · refine balanced.reordered fun a _ => ?_
        simp
      · intro a _
        rfl
  -- a word keeps a reference as it is
  · refine (balanced.reordered fun a _ => ?_).pushed
    simp [List.count_cons]

theorem replaced (balanced : m.Balanced (v :: hand)) (n : Nat) : (m.replaced n v).Balanced hand :=
  (balanced.discarded n).pushedRead

theorem copied (balanced : m.Balanced []) (live : m.Live v) (done : m.copied v = .ok m') :
    m'.Balanced [] := by
  obtain ⟨_, _, done⟩ := bind_eq_ok done
  cases done
  exact (balanced.retain live).pushed

theorem jumped {size next : Nat} {displacement : Int} (balanced : m.Balanced [])
    (done : m.jumped size next displacement = .ok m') : m'.Balanced [] := by
  unfold Machine.jumped at done
  split at done
  · split at done
    · cases done
      exact balanced.setIp _
    · cases done
  · cases done

theorem number (balanced : m.Balanced hand) (number : v.kind ≠ .ref) : m.Balanced (v :: hand) := by
  refine balanced.reordered fun a _ => ?_
  rw [List.count_cons_of_ne]
  rintro rfl
  exact number rfl

/-! ### Calls -/

theorem entering {f : Function} {captures rest : List Value} {callee : Nat}
    (balanced : m.Balanced []) (top : m.stack = .ref callee :: rest)
    (live : ∀ v ∈ captures, m.Live v) (done : m.entering f captures callee = .ok m') :
    m'.Balanced [] := by
  obtain ⟨_, _, done⟩ := bind_eq_ok done
  obtain ⟨_, _, done⟩ := bind_eq_ok done
  obtain ⟨_, _, done⟩ := bind_eq_ok done
  obtain ⟨_, _, done⟩ := bind_eq_ok done
  cases done
  exact balanced.entered top live

theorem calling (balanced : m.Balanced []) (done : m.calling = .ok m') : m'.Balanced [] := by
  obtain ⟨_, need, done⟩ := bind_eq_ok done
  obtain ⟨callee, address, done⟩ := bind_eq_ok done
  obtain ⟨rest, top⟩ := top_of_addressAt need address
  split at done
  · exact balanced.entering top (by simp) done
  -- there are no closures until a host function makes one
  · next f captures found => exact (balanced.sound callee _ found).elim
  · cases done
  · cases done

theorem returning (balanced : m.Balanced []) (done : m.returning = .ok m') : m'.Balanced [] := by
  unfold Machine.returning at done
  split at done
  · cases done
  · next frame callers frames =>
    obtain ⟨_, _, done⟩ := bind_eq_ok done
    cases done
    exact balanced.returned frames

/-! ### Strings -/

theorem measuringString (balanced : m.Balanced []) (done : m.measuringString = .ok m') :
    m'.Balanced [] := by
  obtain ⟨_, _, done⟩ := bind_eq_ok done
  obtain ⟨o, _, done⟩ := bind_eq_ok done
  split at done
  · cases done
    exact (balanced.number (by simp [Value.kind])).replaced 1
  · cases done

theorem joiningStrings (balanced : m.Balanced []) (done : m.joiningStrings = .ok m') :
    m'.Balanced [] := by
  obtain ⟨_, _, done⟩ := bind_eq_ok done
  obtain ⟨⟨first, second⟩, _, done⟩ := bind_eq_ok done
  cases done
  exact @pushedObject _ [] [] (.string (first ++ second)) (balanced.discarded 2) trivial
    fun _ _ => rfl

theorem comparingStrings {equal : Bool} (balanced : m.Balanced [])
    (done : m.comparingStrings equal = .ok m') : m'.Balanced [] := by
  obtain ⟨_, _, done⟩ := bind_eq_ok done
  obtain ⟨⟨first, second⟩, _, done⟩ := bind_eq_ok done
  cases done
  exact (balanced.number (by simp [Value.ofBool, Value.kind])).replaced 2

/-! ### Arrays -/

theorem makingArray {index count : Nat} (balanced : m.Balanced [])
    (done : m.makingArray index count = .ok m') : m'.Balanced [] := by
  obtain ⟨t, _, done⟩ := bind_eq_ok done
  split at done
  · cases done
  · next elem _ =>
    obtain ⟨_, _, done⟩ := bind_eq_ok done
    obtain ⟨numbers, _, done⟩ := bind_eq_ok done
    obtain ⟨_, _, done⟩ := bind_eq_ok done
    split at done
    · cases done
      exact @pushedObject _ [] [] _ (balanced.discarded count) trivial fun _ _ => rfl
    · cases done
      -- the elements move from the stack into the array
      refine @pushedObject _ [] (m.stack.take count) _ (balanced.dropped count) trivial ?_
      intro a pos
      rw [Object.children, Value.count_addresses pos, List.count_reverse]

theorem zeroArray_childless {p : Program} {t : Ty} {length : Nat} {o : Object}
    (made : zeroArray t length = .ok o) :
    o.Sound p ∧ ∀ a, 0 < a → o.children.count a = ([] : List Value).count (.ref a) := by
  cases t with
  | packed s =>
    cases made
    exact ⟨trivial, fun _ _ => rfl⟩
  | array elem =>
    cases made
    refine ⟨trivial, fun a pos => ?_⟩
    rw [Object.children, Value.count_addresses pos, Array.toList_replicate, List.count_replicate, if_neg]
    · rfl
    · simpa using Value.zero_ne_ref pos elem.kind
  | _ => cases made

theorem makingZeroArray {index : Nat} (balanced : m.Balanced [])
    (done : m.makingZeroArray index = .ok m') : m'.Balanced [] := by
  obtain ⟨t, _, done⟩ := bind_eq_ok done
  obtain ⟨_, _, done⟩ := bind_eq_ok done
  obtain ⟨length, _, done⟩ := bind_eq_ok done
  obtain ⟨_, _, done⟩ := bind_eq_ok done
  obtain ⟨o, made, done⟩ := bind_eq_ok done
  cases done
  have childless := @zeroArray_childless m.program _ _ _ made
  exact @pushedObject _ [] [] o (balanced.discarded 1) childless.1 childless.2

theorem measuringArray (balanced : m.Balanced []) (done : m.measuringArray = .ok m') :
    m'.Balanced [] := by
  obtain ⟨_, _, done⟩ := bind_eq_ok done
  obtain ⟨o, _, done⟩ := bind_eq_ok done
  split at done
  · cases done
    exact (balanced.number (by simp [Value.kind])).replaced 1
  · cases done

/-- An element of an array that is there is alive. -/
theorem live_element {b i : Nat} {o : Object} (balanced : m.Balanced hand)
    (found : m.heap.get? b = some o) (element : o.element? i = some v) : m.Live v := by
  refine balanced.live_of_child found fun a pos eq => ?_
  subst eq
  exact Object.child_of_element pos element

theorem readingElement (balanced : m.Balanced []) (done : m.readingElement = .ok m') :
    m'.Balanced [] := by
  obtain ⟨_, _, done⟩ := bind_eq_ok done
  obtain ⟨i, _, done⟩ := bind_eq_ok done
  obtain ⟨o, object, done⟩ := bind_eq_ok done
  obtain ⟨_, _, done⟩ := bind_eq_ok done
  obtain ⟨v, element, done⟩ := bind_eq_ok done
  cases done
  obtain ⟨b, _, found⟩ := objectAt_eq_ok object
  -- the element is held by the array and, from now on, by the stack as well
  exact (balanced.retain (balanced.live_element found (lookup_eq_ok element))).replaced 2

/-- What an array keeps and what it gives back make up for each other. -/
theorem exchange_same {o : Object} {elem : Ty} {i : Nat} {v number old : Value}
    (array : o.ty.elem? = some elem) (element : o.element? i = some old) (a : Nat) (pos : 0 < a) :
    [v].count (.ref a) + o.children.count a =
      [(Exec.exchange o v number old).2].count (.ref a) +
        (o.setElement i (Exec.exchange o v number old).1).children.count a := by
  cases o with
  | packed p => rfl
  | array elem elems =>
    have at_i : elems.toList[i]? = some old := by simpa [Object.element?] using element
    have exchanged := Value.count_set at_i v (.ref a)
    simp only [Object.setElement, Object.children, Exec.exchange, Value.count_addresses pos,
      Array.toList_setIfInBounds]
    omega
  | _ => cases array

theorem storingElement (balanced : m.Balanced []) (done : m.storingElement = .ok m') :
    m'.Balanced [] := by
  obtain ⟨_, need, done⟩ := bind_eq_ok done
  obtain ⟨i, _, done⟩ := bind_eq_ok done
  obtain ⟨a, address, done⟩ := bind_eq_ok done
  obtain ⟨o, object, done⟩ := bind_eq_ok done
  have found := get?_of_objectAt address object
  have enough := need_eq_ok.1 need
  split at done
  · cases done
  · next elem array =>
    split at done
    · cases done
    · next number _ =>
      obtain ⟨old, element, done⟩ := bind_eq_ok done
      cases done
      have taken := balanced.dropped_one (by omega)
      have sound : (o.setElement i (Exec.exchange o (m.peek 0) number old).1).Sound m.program := by
        cases o with
        | packed p => trivial
        | array elem elems => trivial
        | _ => cases array
      -- the array gives back the old element, or the operand of which it took only the number
      have stored := taken.update (f := (·.setElement i _)) found sound (o.blank_setElement i _)
        (exchange_same array (lookup_eq_ok element))
      exact stored.release.discarded 2

/-! ### Structs -/

/-- The operands of a new struct, read field by field, are what the struct holds. -/
theorem record_of_readAll {fields : List Ty} {values : List Value} (balanced : m.Balanced [])
    (addresses : m.Addressable) (enough : fields.length ≤ m.stack.length)
    (read : m.readAll fields (m.stack.take fields.length).reverse = .ok values) :
    (Record.ofValues fields values).WellFormed ∧ (Record.ofValues fields values).fields = fields ∧
      (Record.ofValues fields values).values = values := by
  obtain ⟨same, each⟩ := getElem?_readAll read (by simp; omega)
  refine Record.values_ofValues same ?_ ?_
  · intro i w at_i
    obtain ⟨t, v, field, _, read⟩ := each i w at_i
    exact ⟨t, field, kind_of_read? read⟩
  · intro w mem
    obtain ⟨i, at_i⟩ := List.getElem?_of_mem mem
    obtain ⟨t, v, _, operand, read⟩ := each i w at_i
    refine addresses.storable (balanced.live_of_stack ?_) read
    exact List.mem_of_mem_take (List.mem_reverse.1 (List.mem_of_getElem? operand))

/-- Of the operands of a new struct, the references stay in the hand and the numbers are given up. -/
theorem fields_taken {fields : List Ty} {values : List Value} (balanced : m.Balanced [])
    (enough : fields.length ≤ m.stack.length)
    (read : m.readAll fields (m.stack.take fields.length).reverse = .ok values) :
    ((m.dropped fields.length).releaseAll (((fields.zip (m.stack.take fields.length).reverse).filter
      fun (t, _) => !t.isRef).map Prod.snd)).Balanced (values ++ []) := by
  have length : fields.length = (m.stack.take fields.length).reverse.length := by
    simp
    omega
  refine releaseAll ((balanced.dropped fields.length).reordered fun a _ => ?_)
  have parts := count_readAll read length a
  rw [List.count_reverse] at parts
  rw [List.append_nil, List.append_nil, List.count_append, Nat.add_comm]
  exact parts.symm

theorem makingStruct {index : Nat} (balanced : m.Balanced []) (addresses : m.Addressable)
    (done : m.makingStruct index = .ok m') : m'.Balanced [] := by
  obtain ⟨fields, _, done⟩ := bind_eq_ok done
  obtain ⟨_, need, done⟩ := bind_eq_ok done
  obtain ⟨values, read, done⟩ := bind_eq_ok done
  obtain ⟨_, _, done⟩ := bind_eq_ok done
  cases done
  have enough := need_eq_ok.1 need
  obtain ⟨wf, -, stored⟩ := balanced.record_of_readAll addresses (by omega) read
  refine @pushedObject _ [] values _ (balanced.fields_taken (by omega) read) wf fun a pos => ?_
  rw [Object.children, Record.addresses, stored, Value.count_addresses pos]

theorem makingZeroStruct {index : Nat} (balanced : m.Balanced [])
    (done : m.makingZeroStruct index = .ok m') : m'.Balanced [] := by
  obtain ⟨fields, _, done⟩ := bind_eq_ok done
  obtain ⟨_, _, done⟩ := bind_eq_ok done
  cases done
  refine @pushedObject _ [] [] _ balanced (Record.wellFormed_zero fields) fun a pos => ?_
  rw [Object.children, Record.addresses, Value.count_addresses pos, Record.values_zero]
  refine List.count_eq_zero.2 fun mem => ?_
  obtain ⟨t, -, eq⟩ := List.mem_map.1 mem
  exact Value.zero_ne_ref pos t.kind eq

/-- The value of a field of a struct that is there is alive. -/
theorem live_field {b i : Nat} {r : Record} (balanced : m.Balanced hand)
    (found : m.heap.get? b = some (.struct r)) (value : r.get? i = some v) : m.Live v := by
  refine balanced.live_of_child found fun a pos eq => ?_
  subst eq
  exact Record.address_of_field pos value

theorem readingField {field : Nat} (balanced : m.Balanced [])
    (done : m.readingField field = .ok m') : m'.Balanced [] := by
  obtain ⟨_, _, done⟩ := bind_eq_ok done
  obtain ⟨o, object, done⟩ := bind_eq_ok done
  obtain ⟨b, _, found⟩ := objectAt_eq_ok object
  split at done
  · next r =>
    obtain ⟨v, value, done⟩ := bind_eq_ok done
    cases done
    exact (balanced.retain (balanced.live_field found (lookup_eq_ok value))).replaced 1
  · cases done

/-- What a field keeps and what it gives back make up for each other: a reference field gives back the
old reference, any other field the operand. -/
theorem field_same {r : Record} {field : Nat} {t : Ty} {old stored : Value} (wf : r.WellFormed)
    (at_field : r.fields[field]? = some t) (value : r.get? field = some old)
    (read : m.read? t.kind v = some stored) (fits : stored.Storable) (a : Nat) (pos : 0 < a) :
    [v].count (.ref a) + (Object.struct r).children.count a =
      [if t.isRef then old else v].count (.ref a) +
        ((Object.struct r).setField field stored).children.count a := by
  have kind := kind_of_read? read
  have old_kind := Record.kind_get? at_field value
  rw [← Record.getElem?_values wf] at value
  have set := Value.count_set value stored (.ref a)
  simp only [Object.setField, Object.children, Record.addresses, Value.count_addresses pos,
    Record.values_set wf at_field kind fits]
  cases isRef : t.isRef with
  | true =>
    -- the field keeps the operand and gives back the old reference
    have reference : t.kind = .ref := by simpa [Ty.isRef] using isRef
    rw [reference] at read
    cases read?_ref read
    rw [if_pos rfl]
    omega
  | false =>
    -- neither the old number nor the new one is a reference
    have number : t.kind ≠ .ref := by simpa [Ty.isRef] using isRef
    have no_old : [old].count (.ref a) = 0 := Value.count_of_not_ref (by simpa [old_kind] using number)
    have no_new : [stored].count (.ref a) = 0 := Value.count_of_not_ref (by simpa [kind] using number)
    rw [if_neg (by simp)]
    omega

theorem storingField {field : Nat} (balanced : m.Balanced []) (addresses : m.Addressable)
    (done : m.storingField field = .ok m') : m'.Balanced [] := by
  obtain ⟨_, need, done⟩ := bind_eq_ok done
  obtain ⟨a, address, done⟩ := bind_eq_ok done
  obtain ⟨o, object, done⟩ := bind_eq_ok done
  have found := get?_of_objectAt address object
  have enough := need_eq_ok.1 need
  split at done
  · next r =>
    obtain ⟨t, at_field, done⟩ := bind_eq_ok done
    obtain ⟨old, value, done⟩ := bind_eq_ok done
    split at done
    · cases done
    · next stored read =>
      cases done
      have at_field := lookup_eq_ok at_field
      have value := lookup_eq_ok value
      have wf : r.WellFormed := balanced.sound a _ found
      have kind := kind_of_read? read
      have fits := addresses.storable (balanced.live_peek 0) read
      -- the operand is in the hand while the struct is changed
      have taken := balanced.dropped_one (by omega)
      have exchanged := taken.update (f := (·.setField field stored)) found (wf.set at_field kind)
        (Object.blank_setField _ field stored)
        (field_same wf at_field value read fits)
      exact exchanged.release.discarded 1
  · cases done

/-! ### All instructions -/

theorem swapped (balanced : m.Balanced []) (two : 2 ≤ m.stack.length) :
    Balanced { m with stack := m.peek 1 :: m.peek 0 :: m.stack.drop 2 } [] := by
  refine balanced.moved rfl rfl rfl fun a _ => ?_
  -- with the two operands named, both sides count the same values
  obtain ⟨v, w, rest, top⟩ : ∃ v w rest, m.stack = v :: w :: rest := by
    match found : m.stack with
    | [] | [_] => simp [found] at two
    | v :: w :: rest => exact ⟨v, w, rest, rfl⟩
  simp only [held, peek, top, List.getElem?_cons_zero, List.getElem?_cons_succ, Option.getD_some,
    List.drop_succ_cons, List.drop_zero, List.count_cons]
  omega

theorem selected {condition : BitVec 32} {kept other : Value} (balanced : m.Balanced [])
    (three : 3 ≤ m.stack.length) (number : m.peek 0 = .i32 condition)
    (choice : (kept = m.peek 2 ∧ other = m.peek 1) ∨ (kept = m.peek 1 ∧ other = m.peek 2)) :
    (((m.dropped 3).release other).pushed kept).Balanced [] := by
  refine pushed (release ((balanced.dropped 3).reordered fun a _ => ?_))
  obtain ⟨u, v, w, rest, top⟩ : ∃ u v w rest, m.stack = u :: v :: w :: rest := by
    match found : m.stack with
    | [] | [_] | [_, _] => simp [found] at three
    | u :: v :: w :: rest => exact ⟨u, v, w, rest, rfl⟩
  simp only [peek, top, List.getElem?_cons_zero, List.getElem?_cons_succ, Option.getD_some]
    at number choice
  subst number
  -- the condition is a number, so only the two values count
  have no_number : (Value.i32 condition == Value.ref a) = false := by simp
  simp only [top, List.take_succ_cons, List.take_zero, List.cons_append, List.nil_append,
    List.count_cons, List.count_nil, no_number]
  rcases choice with ⟨rfl, rfl⟩ | ⟨rfl, rfl⟩
  · simp only [Bool.false_eq_true, if_false]
    omega
  · simp only [Bool.false_eq_true, if_false]
    omega

/-- An instruction that goes through leaves the counts right. -/
theorem effect {inst : Instruction} {size next : Nat} (balanced : m.Balanced [])
    (addresses : m.Addressable) (done : m.effect inst size next = .ok m') : m'.Balanced [] := by
  have succeeds := succeeds_of_effect done
  generalize inst.opcode = opcode at succeeds
  cases succeeds with
  | nop => exact balanced
  | drop enough => exact balanced.discarded 1
  | dup enough done => exact balanced.copied (balanced.live_peek 0) done
  | swap enough => exact balanced.swapped (by omega)
  | select enough number choice => exact balanced.selected (by omega) (int32At_eq_ok number) choice
  | br jump => exact balanced.jumped jump
  | brIf enough jump => exact (balanced.jumped jump).discarded 1
  | brIfNot enough => exact balanced.discarded 1
  | brTable enough listed jump => exact (balanced.jumped jump).discarded 1
  | call done => exact balanced.calling done
  | ret done => exact balanced.returning done
  | globalGet found done => exact balanced.copied (balanced.live_of_global found) done
  | globalSet enough => exact (balanced.dropped_one (by omega)).setGlobal _
  | globalTee enough => exact (balanced.retain (balanced.live_peek 0)).setGlobal _
  | localGet found done => exact balanced.copied (balanced.live_peek _) done
  | localSet found enough =>
    have inside := lt_floor_of_localAt found
    refine (balanced.dropped_one (by omega)).setPlace ?_
    simp only [Machine.dropped, List.length_drop]
    omega
  | localTee found enough =>
    have inside := lt_floor_of_localAt found
    refine (balanced.retain (balanced.live_peek 0)).setPlace ?_
    simp only [Machine.retain]
    omega
  | constGet found done => exact balanced.copied (balanced.live_of_constant found) done
  | refNull room =>
    refine pushed (balanced.reordered fun a pos => ?_)
    rw [List.count_cons_of_ne]
    simp [Value.null]
    omega
  | const room => exact (balanced.number (by simp)).pushedRead
  | operation enough evaluated => exact (balanced.number (Operation.number_eval evaluated)).replaced _
  | stringLen done => exact balanced.measuringString done
  | stringConcat done => exact balanced.joiningStrings done
  | stringEq done => exact balanced.comparingStrings done
  | stringNe done => exact balanced.comparingStrings done
  | arrayNew done => exact balanced.makingArray done
  | arrayNewDefault done => exact balanced.makingZeroArray done
  | arrayLen done => exact balanced.measuringArray done
  | arrayGet done => exact balanced.readingElement done
  | arraySet done => exact balanced.storingElement done
  | structNew done => exact balanced.makingStruct addresses done
  | structNewDefault done => exact balanced.makingZeroStruct done
  | structGet done => exact balanced.readingField done
  | structSet done => exact balanced.storingField addresses done

end Balanced

end Machine

end StackVM
