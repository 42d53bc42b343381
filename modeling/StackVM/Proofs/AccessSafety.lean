import StackVM.Proofs.Machine.Accesses
import StackVM.Proofs.Machine.HostCalls

/-!
# Nothing is out of range

Whatever the code is, and whatever the host asks for, the frames of a machine lie above one another on the
stack, so no instruction, call or return uses a place that is not there. Main statement: as long as the host
puts only structs on the heap that fill their buffers, the guarded machine does what the machine does, and
never finds anything out of range (`access_inRange`). A struct without a buffer shows that the host must
(`misfit_outOfRange`).

Instructions are dealt with in `Machine.Accesses`. Here come the host, whose callbacks may leave anything
behind them, and runs.
-/

namespace StackVM

/-- The entry code is started above what the host has pushed. -/
theorem Machine.Layered.started {m : Machine} (layered : m.Layered) : m.started.Layered := by
  unfold Machine.started
  split
  · exact ⟨⟨Nat.le_refl _, Nat.le_refl _, trivial⟩, layered.heap, layered.tame⟩
  · exact layered

namespace Guarded

variable {α β : Type} {m : Machine}

/-! ### Results of the host -/

theorem unmarked_cons (v : Value) (arguments : List Value) (marked : Bool) (echoed : List Bool) :
    unmarked (v :: arguments) (marked :: echoed) =
      if marked then unmarked arguments echoed else v :: unmarked arguments echoed := by
  cases marked <;> rfl

/-- Marking an argument is as good as erasing it. -/
theorem unmarked_set {result : Value} {arguments : List Value} {echoed : List Bool} {i : Nat}
    (found : (arguments.zip echoed).findIdx? (echoes result) = some i) :
    i < echoed.length ∧ unmarked arguments (echoed.set i true) = (unmarked arguments echoed).erase result := by
  induction arguments generalizing echoed i with
  | nil => cases found
  | cons v arguments ih =>
    cases echoed with
    | nil => cases found
    | cons marked echoed =>
      rw [List.zip_cons_cons, List.findIdx?_cons] at found
      by_cases same : echoes result (v, marked) = true
      · simp only [same, if_true, Option.some.injEq] at found
        subst found
        obtain ⟨unmarked, equal⟩ : marked = false ∧ v = result := by simpa [echoes] using same
        subst unmarked equal
        refine ⟨Nat.succ_pos _, ?_⟩
        rw [List.set_cons_zero, unmarked_cons, unmarked_cons, if_pos rfl, if_neg Bool.false_ne_true,
          List.erase_cons_head]
      · simp only [same, Bool.false_eq_true, if_false, Option.map_eq_some_iff] at found
        obtain ⟨j, found, rfl⟩ := found
        obtain ⟨inside, erased⟩ := ih found
        refine ⟨Nat.succ_lt_succ inside, ?_⟩
        rw [List.set_cons_succ, unmarked_cons, unmarked_cons, erased]
        cases marked with
        | true => rfl
        | false =>
          have differ : v ≠ result := by simpa [echoes] using same
          simp [differ]

/-- When no argument is left that the result echoes, there is nothing to erase. -/
theorem unmarked_erase {result : Value} {arguments : List Value} {echoed : List Bool}
    (missing : (arguments.zip echoed).findIdx? (echoes result) = none) :
    (unmarked arguments echoed).erase result = unmarked arguments echoed := by
  apply List.erase_of_not_mem
  intro mem
  obtain ⟨⟨v, marked⟩, entry, rfl⟩ := List.mem_map.1 mem
  obtain ⟨zipped, unmarked⟩ := List.mem_filter.1 entry
  have echo : echoes v (v, marked) = true := by simpa [echoes] using unmarked
  rw [List.findIdx?_eq_none_iff.1 missing _ zipped] at echo
  cases echo

/-- Every result marks one argument at most. -/
theorem echo_apply (m : Machine) (arguments : List Value) (echoed : List Bool) (result : Value) :
    ∃ echoed', echo arguments echoed result m = .ok echoed' m ∧
      unmarked arguments echoed' = (unmarked arguments echoed).erase result := by
  unfold echo
  cases found : (arguments.zip echoed).findIdx? (echoes result) with
  | some i =>
    obtain ⟨inside, erased⟩ := unmarked_set found
    refine ⟨echoed.set i true, ?_, erased⟩
    simp only [within_of inside]
    rfl
  | none => exact ⟨echoed, rfl, (unmarked_erase found).symm⟩

/-- All results together leave unmarked what the host does not hand back. -/
theorem echoes_apply (m : Machine) (arguments : List Value) (echoed : List Bool) (results : List Value) :
    ∃ echoed', results.foldlM (echo arguments) echoed m = .ok echoed' m ∧
      unmarked arguments echoed' = results.foldl List.erase (unmarked arguments echoed) := by
  induction results generalizing echoed with
  | nil => exact ⟨echoed, rfl, rfl⟩
  | cons result results ih =>
    obtain ⟨echoed₁, first, erased⟩ := echo_apply m arguments echoed result
    obtain ⟨echoed₂, rest, left⟩ := ih echoed₁
    refine ⟨echoed₂, ?_, ?_⟩
    · rw [List.foldlM_cons]
      change EStateM.bind (echo arguments echoed result) _ m = _
      rw [EStateM.bind, first]
      exact rest
    · rw [left, erased, List.foldl_cons]

theorem unmarked_none (arguments : List Value) :
    unmarked arguments (List.replicate arguments.length false) = arguments := by
  induction arguments with
  | nil => rfl
  | cons v arguments ih =>
    rw [List.length_cons, List.replicate_succ, unmarked_cons, if_neg Bool.false_ne_true, ih]

theorem inRange_settle (layered : m.Layered) (returns : Nat) (arguments results : List Value) :
    InRange (settle returns arguments results) (Exec.settle returns arguments results) m := by
  unfold settle Exec.settle
  by_cases arity : results.length = returns
  · simp only [arity, if_true]
    obtain ⟨echoed, marked, left⟩ := echoes_apply m arguments
      (List.replicate arguments.length false) (results.filter Value.isRef)
    refine .found marked ?_
    rw [left, unmarked_none]
    refine inRange_freeing layered (.changed ((layered.releaseAll _).withStack ?_))
    have deep := layered.stacked.floor_le
    change m.floor ≤ (results.reverse ++ m.stack).length
    rw [List.length_append]
    omega
  · simp only [arity, if_false]
    exact inRange_freeing layered (.fault (layered.releaseAll _))

/-! ### Calls of the host -/

/-- An attempt goes on after an error, and the frames are still in layers then. -/
theorem InRange.attempt {c : Guarded α} {x : Exec α} (inRange : InRange c x m) :
    InRange (attempt c) (Exec.attempt x) m := by
  simp only [InRange, Guarded.attempt, Exec.attempt, Guarded.lift, Exec.Ends]
  rcases inRange.result with ⟨a, m', guarded, done, layered⟩ | ⟨stop, m', guarded, failed, layered⟩
  · simp only [guarded, done]
    exact ⟨trivial, layered⟩
  · simp only [guarded, failed]
    cases stop with
    | fault e => exact ⟨rfl, layered⟩
    | exhausted => exact ⟨rfl, layered⟩

variable {nested : Guarded Unit} {nested' : Exec Unit}

/-- A script uses what is there, if running the machine does. The induction is on the script; in between
anything may be on the stack, and a reset leaves nothing. -/
theorem inRange_perform (again : ∀ m, m.Layered → InRange nested nested' m) :
    ∀ (s : Script) {m : Machine}, s.Tame → m.Layered →
      InRange (perform nested s) (Exec.perform nested' s) m
  | .finish _, _, _, layered => ⟨rfl, layered⟩
  | .fail _, _, _, layered => ⟨rfl, layered⟩
  | .tryPush v next, _, tame, layered =>
    .bind (inRange_push layered v).attempt fun answer _ layered =>
      inRange_perform again (next answer) (tame answer) layered
  | .tryPushInt n next, _, tame, layered =>
    .bind (inRange_pushInt layered n).attempt fun answer _ layered =>
      inRange_perform again (next answer) (tame answer) layered
  | .tryPop next, _, tame, layered => by
    have popped : Exec.Ends (fun _ => Machine.Layered) Machine.Layered Exec.pop _ :=
      .ask layered fun _ need => layered.dropped (Machine.need_eq_ok.1 need)
    exact .bind (InRange.lift popped).attempt fun answer _ layered =>
      inRange_perform again (next answer) (tame answer) layered
  | .alloc o next, m, ⟨object, tame⟩, layered =>
    .found (freeSlot_apply layered)
      (.modifyGet (inRange_perform again (next (m.alloc o).1) (tame _) (layered.alloc object)))
  | .retain v next, _, tame, layered =>
    .modify (inRange_perform again next tame (layered.retain v))
  | .release v next, _, tame, layered =>
    inRange_freeing layered (inRange_perform again next tame (layered.release v))
  | .getGlobal i next, m, tame, layered =>
    .get (inRange_perform again (next (m.globals.get? i)) (tame _) layered)
  | .setGlobal i v next, _, tame, layered =>
    inRange_freeing layered (inRange_perform again next tame (layered.setGlobal i v))
  | .readInt v next, m, tame, layered =>
    .get (inRange_perform again (next (m.int64? v)) (tame _) layered)
  | .readString v next, m, tame, layered =>
    .get (inRange_perform again (next (m.string? v)) (tame _) layered)
  | .reset next, _, tame, layered => inRange_freeing layered (inRange_perform again next tame layered.reset)
  | .tryRun next, m, tame, layered =>
    .bind (again m layered).attempt fun answer _ layered =>
      inRange_perform again (next answer) (tame answer) layered

theorem inRange_callHost (again : ∀ m, m.Layered → InRange nested nested' m) {signature : Signature}
    {body : List Value → Script} (callee : Nat) (layered : m.Layered)
    (tame : (Object.host signature body).Tame) :
    InRange (callHost nested signature body callee) (Exec.callHost nested' signature body callee) m := by
  unfold callHost Exec.callHost
  refine .askNeeded layered (fun _ => checkArguments_refused) fun _ enough => ?_
  refine .get (.sub (by omega) (.sub (by omega) (.unless layered fun _ => .modifyGet ?_)))
  -- whatever the callback leaves behind, it is in layers
  have performed := inRange_perform again (body (m.arguments signature)) (tame _)
    (layered.dropped enough)
  simp only [InRange, lift, Exec.Ends]
  rcases performed.result with ⟨results, m', guarded, done, layered⟩ | ⟨stop, m', guarded, failed, layered⟩
  · simp only [Machine.arguments] at guarded done
    simp only [guarded, done]
    change InRange (freeing (·.release (.ref callee)) >>= fun _ => settle _ _ _)
      (modify (·.release (.ref callee)) >>= fun _ => Exec.settle _ _ _) m'
    exact inRange_freeing layered (inRange_settle (layered.release _) _ _ _)
  · simp only [Machine.arguments] at guarded failed
    simp only [guarded, failed, if_neg (Halt.noConfusion : Halt.stop stop ≠ .outOfRange)]
    have released := layered.release (.ref callee)
    change InRange (freeing (·.release (.ref callee)) >>= fun _ =>
        freeing (·.releaseAll ((m.stack.drop 1).take signature.params.length).reverse) >>= fun _ =>
          throw (.stop stop))
      (modify (·.release (.ref callee)) >>= fun _ =>
        modify (·.releaseAll ((m.stack.drop 1).take signature.params.length).reverse) >>= fun _ => throw stop) m'
    exact inRange_freeing layered (inRange_freeing released ⟨rfl, released.releaseAll _⟩)

theorem inRange_call (again : ∀ m, m.Layered → InRange nested nested' m) (layered : m.Layered) :
    InRange (call nested) (Exec.call nested') m := by
  refine .ask layered fun _ need => ?_
  have enough := Machine.need_eq_ok.1 need
  refine .askAt layered (by omega) fun callee _ => .get ?_
  cases found : m.heap.get? callee with
  | none => exact .fault layered
  | some o =>
    have tame := layered.tame callee o found
    cases o with
    | function f => exact inRange_enter layered f [] callee
    | closure f captures => exact inRange_enter layered f captures callee
    | host signature body => exact inRange_callHost again callee layered tame
    | _ => exact .fault layered

/-! ### Runs -/

theorem InRange.located {c : Guarded Unit} {x : Exec Unit} (inRange : InRange c x m) (ip : Nat) :
    InRange (located ip c) (Exec.located ip x) m := by
  simp only [InRange, Guarded.located, Exec.located, Guarded.lift, Exec.Ends]
  rcases inRange.result with ⟨_, m', guarded, done, layered⟩ | ⟨stop, m', guarded, failed, layered⟩
  · simp only [guarded, done]
    exact ⟨trivial, layered⟩
  · simp only [guarded, failed]
    cases stop with
    | fault e => exact ⟨rfl, layered⟩
    | exhausted => exact ⟨rfl, layered⟩

theorem inRange_step (again : ∀ m, m.Layered → InRange nested nested' m) (layered : m.Layered)
    (inside : ∀ frame ∈ m.frames.head?, frame.ip < frame.function.code.size) :
    InRange (step nested) (Exec.step nested') m := by
  refine .get ?_
  cases frames : m.frames with
  | nil => exact .fault layered
  | cons frame callers =>
    refine .within (inside frame (by rw [frames]; rfl)) ?_
    refine .ask layered fun byte _ => ?_
    cases Opcode.ofByte? byte with
    | none => exact .fault layered
    | some opcode =>
      cases frame.function.code.widthAt? frame.ip with
      | none => exact .fault layered
      | some width =>
        have moved := layered.setIp (frame.ip + width)
        exact .modify (inRange_execute moved nested nested' (inRange_call again moved) _ _ opcode _)

theorem inRange_turn (again : ∀ m, m.Layered → InRange nested nested' m) (layered : m.Layered) :
    InRange (turn nested) (Exec.turn nested') m := by
  refine .get ?_
  cases frames : m.frames with
  | nil => exact ⟨rfl, layered⟩
  | cons frame callers =>
    dsimp only
    by_cases inside : frame.ip < frame.function.code.size
    · simp only [inside, if_true]
      refine .bind (.located (inRange_step again layered ?_) _) fun _ _ layered => ⟨rfl, layered⟩
      rw [frames]
      rintro _ ⟨rfl⟩
      exact inside
    simp only [inside, if_false]
    by_cases outermost : callers.isEmpty = true
    · simp only [outermost, if_true]
      exact .modify ⟨rfl, trivial, layered.heap, layered.tame⟩
    · simp only [outermost]
      exact .bind (.located (inRange_ret layered) _) fun _ _ layered => ⟨rfl, layered⟩

theorem ends_start (layered : m.Layered) :
    Exec.Ends (fun _ => Machine.Layered) Machine.Layered Exec.start m := by
  unfold Exec.Ends
  rw [Exec.start_apply]
  by_cases refused : m.frames = [] ∧ m.options.frameSize = 0
  · rw [if_pos refused]
    exact layered
  · rw [if_neg refused]
    exact layered.started

/-- A run that a callback asks for is given less fuel, so the induction on the fuel covers it. -/
theorem inRange_loop (fuel : Nat) (layered : m.Layered) : InRange (loop fuel) (Exec.loop fuel) m := by
  induction fuel generalizing m with
  | zero => exact ⟨rfl, layered⟩
  | succ fuel ih =>
    have again (m : Machine) (layered : m.Layered) : InRange (do lift Exec.start; loop fuel)
        (do Exec.start; Exec.loop fuel) m := .bind (.lift (ends_start layered)) fun _ _ layered => ih layered
    refine .get ?_
    split
    · exact ⟨rfl, layered⟩
    · refine .bind (inRange_turn again layered) fun more m' layered => ?_
      cases more with
      | true => exact ih layered
      | false => exact ⟨rfl, layered⟩

theorem inRange_run (fuel : Nat) (layered : m.Layered) : InRange (run fuel) (Exec.run fuel) m :=
  .bind (.lift (ends_start layered)) fun _ _ layered => inRange_loop fuel layered

/-! ### Everything the host can come to -/

/-- The guarded machine does what the machine does, and finds nothing out of range. -/
structure Safe (c : Guarded α) (x : Exec α) (m : Machine) : Prop where
  same : c m = lift x m
  inRange : ∀ m', c m ≠ .error .outOfRange m'

theorem InRange.safe {c : Guarded α} {x : Exec α} (inRange : InRange c x m) : Safe c x m := by
  refine ⟨inRange.1, fun m' out => ?_⟩
  rcases inRange.result with ⟨_, _, guarded, -⟩ | ⟨_, _, guarded, -⟩
  · cases guarded.symm.trans out
  · cases guarded.symm.trans out

theorem InRange.leaves {c : Guarded α} {x : Exec α} (inRange : InRange c x m) :
    (Machine.leftBy (x m)).Layered := by
  rcases inRange.result with ⟨_, _, -, done, layered⟩ | ⟨_, _, -, failed, layered⟩
  · rwa [done]
  · rwa [failed]

end Guarded

namespace Machine

variable {m : Machine} {p : Program} {o : Options}

/-- What a machine can come to that is run and used by the host at will. The host makes requests between runs
and, in a callback, within them; a run may be cut off after any number of turns, and a machine that stopped at
a fault is resumed by the next run. -/
inductive Driven (p : Program) (o : Options) : Machine → Prop where
  | load : Driven p o (.load p o)
  | run {m : Machine} (fuel : Nat) (before : Driven p o m) : Driven p o (leftBy (Exec.run fuel m))
  | ask {m : Machine} {s : Script} (fuel : Nat) (tame : s.Tame) (before : Driven p o m) :
    Driven p o (leftBy (Exec.perform (Exec.run fuel) s m))
  /-- The call that the innermost frame has come to hands the machine to a callback. -/
  | callback {m : Machine} {signature : Signature} {body : List Value → Script} {callee : Nat} (ip : Nat)
    (calls : (m.setIp ip).HostCall signature body callee) (before : Driven p o m) :
    Driven p o ((m.setIp ip).handed signature)

theorem layered_load
    (host : ∀ signature body, .host signature body ∈ p.constants → (Object.host signature body).Tame) :
    (load p o).Layered := by
  have balanced := balanced_load p o
  refine ⟨trivial, balanced.heap, fun a loaded found => ?_⟩
  have sound := balanced.sound a loaded found
  cases loaded with
  | struct r => exact sound
  | host signature body => exact host signature body sound
  | _ => trivial

theorem layered_driven
    (host : ∀ signature body, .host signature body ∈ p.constants → (Object.host signature body).Tame)
    (driven : Driven p o m) : m.Layered := by
  induction driven with
  | load => exact layered_load host
  | run fuel before ih => exact (Guarded.inRange_run fuel ih).leaves
  | ask fuel tame before ih =>
    exact (Guarded.inRange_perform (fun _ => Guarded.inRange_run fuel) _ tame ih).leaves
  | callback ip calls before ih => exact (ih.setIp ip).dropped calls.enough

/-- A program that calls a function of the host, which resets the machine in the middle of the call. -/
def careless : Program where
  code := Instruction.assemble [⟨.constGet, [0]⟩, ⟨.call, []⟩, ⟨.drop, []⟩]
  constants := #[.host ⟨[], [.scalar .i32]⟩ fun _ => .reset (.push (.i32 1) (.finish [.i32 2]))]
  types := #[]

theorem tame_careless (signature : Signature) (body : List Value → Script)
    (mem : .host signature body ∈ careless.constants) : (Object.host signature body).Tame := by
  cases Array.mem_singleton.1 mem
  exact fun _ => Script.tame_orFail fun _ => trivial

/-- A program that calls a function of the host for a struct and reads a field of it. The struct has no
buffer. -/
def misfit : Program where
  code := Instruction.assemble [⟨.constGet, [0]⟩, ⟨.call, []⟩, ⟨.structGet, [0]⟩]
  constants := #[.host ⟨[], [.ref]⟩ fun _ => .alloc (.struct ⟨[.scalar .i32], []⟩) fun v => .finish [v]]
  types := #[]

/-- The machine that has called the function, with the struct on top. -/
def misfitted : Machine where
  program := misfit
  options := {}
  stack := [.ref 2]
  frames := [⟨misfit.entry, 4, 0, 0, 0⟩]
  globals := .empty
  constants := #[.ref 1]
  heap := ⟨#[none, some (.host ⟨[], [.ref]⟩ fun _ =>
    .alloc (.struct ⟨[.scalar .i32], []⟩) fun v => .finish [v]), some (.struct ⟨[.scalar .i32], []⟩)], #[0, 1, 1], []⟩

set_option maxRecDepth 3000 in
theorem driven_misfitted : Driven misfit {} misfitted := by
  -- the call gives up the reference to the function that it took from the stack
  let loaded := misfitted.heap.retain 1
  have released : loaded.release 1 = misfitted.heap := by
    rw [Heap.release, Heap.releaseAll_lowered (by decide) rfl, Heap.releaseAll]
    rfl
  have called : leftBy (Exec.run 2 (load misfit {})) = { misfitted with heap := loaded.release 1 } := rfl
  rw [released] at called
  have reached : leftBy (Exec.run 2 (load misfit {})) = misfitted := called
  exact reached ▸ .run 2 .load

end Machine

end StackVM
