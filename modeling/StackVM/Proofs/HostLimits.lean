import StackVM.Proofs.Machine.HostCalls
import StackVM.Proofs.Machine.Limits

/-!
# Limits with a host

A push asks for room, and so does a call: a function in code for its frame and its locals, a function of the
host for its results. The host is asked before its callback runs, and a callback may push. So the frames keep
to their limit, and the stack goes past its own by no more than a callback pushes, and by no more than it has
results. Main statement: `within_limits`. A callback that pushes one value and returns another goes past a
limit of one (`above_limit`).
-/

namespace StackVM

namespace Exec

variable {m : Machine} {opts : Options} {k extra top : Nat}

/-! ### Callbacks -/

theorem limits_pop (limited : m.Limited opts k extra) : Limits opts k extra pop m :=
  .ask limited fun _ _ => limited.dropped 1

/-- A modest script keeps to the limits. -/
theorem limits_perform (nested : Exec Unit) : ∀ (s : Script) {m : Machine},
    s.Modest k → m.Limited opts k extra → Limits opts k extra (perform nested s) m
  | .finish _, _, _, limited => limited
  | .fail _, _, _, limited => limited
  | .tryPush v next, _, modest, limited =>
    .attempt (limits_push limited v) (fun _ limited => limited)
      (fun _ _ limited => limits_perform nested (next _) (modest _) limited)
      fun _ _ limited => limits_perform nested (next _) (modest _) limited
  | .tryPushInt i next, _, modest, limited =>
    .attempt (limits_pushInt limited i) (fun _ limited => limited)
      (fun _ _ limited => limits_perform nested (next _) (modest _) limited)
      fun _ _ limited => limits_perform nested (next _) (modest _) limited
  | .tryPop next, _, modest, limited =>
    .attempt (limits_pop limited) (fun _ limited => limited)
      (fun _ _ limited => limits_perform nested (next _) (modest _) limited)
      fun _ _ limited => limits_perform nested (next _) (modest _) limited
  | .alloc o next, m, ⟨object, modest⟩, limited =>
    .modifyGet (limits_perform nested (next (m.alloc o).1) (modest _) (limited.alloc object))
  | .retain v next, _, modest, limited => .modify (limits_perform nested next modest (limited.retain v))
  | .release v next, _, modest, limited => .modify (limits_perform nested next modest (limited.release v))
  | .getGlobal i next, m, modest, limited =>
    .get (limits_perform nested (next (m.globals.get? i)) (modest _) limited)
  | .setGlobal i v next, _, modest, limited =>
    .modify (limits_perform nested next modest (limited.setGlobal i v))
  | .readInt v next, m, modest, limited =>
    .get (limits_perform nested (next (m.int64? v)) (modest _) limited)
  | .readString v next, m, modest, limited =>
    .get (limits_perform nested (next (m.string? v)) (modest _) limited)
  | .reset next, _, modest, limited => .modify (limits_perform nested next modest limited.reset)

theorem push_height (v : Value) :
    Ends (fun _ m' => m'.stack.length = m.stack.length + 1) (fun m' => m' = m) (push v) m :=
  .ask rfl fun _ _ => rfl

theorem pushInt_height (i : BitVec 64) :
    Ends (fun _ m' => m'.stack.length = m.stack.length + 1) (fun m' => m' = m) (pushInt i) m := by
  refine .ask rfl fun _ _ => ?_
  split
  · exact rfl
  · exact rfl

theorem pop_height :
    Ends (fun _ m' => m'.stack.length + 1 = m.stack.length) (fun m' => m' = m) pop m := by
  refine .ask rfl fun _ need => ?_
  have enough := Machine.need_eq_ok.1 need
  change (m.stack.drop 1).length + 1 = m.stack.length
  rw [List.length_drop]
  omega

/-- A script leaves the stack no higher than it says. The induction is on the script; what it may still add
changes with each push and each pop, and the height that it ends below stays. -/
theorem perform_height (nested : Exec Unit) : ∀ (s : Script) {n : Int} {m : Machine},
    s.Grows n → m.stack.length + n ≤ top →
      Ends (fun _ m' => m'.stack.length ≤ top) (fun _ => True) (perform nested s) m
  | .finish _, n, m, grown, fits => by
    change 0 ≤ n at grown
    change m.stack.length ≤ top
    omega
  | .fail _, _, _, _, _ => trivial
  | .tryPush v next, _, _, ⟨done, failed⟩, fits =>
    .attempt (push_height v) (fun _ _ => trivial)
      (fun _ _ higher => perform_height nested (next _) done (by omega))
      fun e _ same => perform_height nested (next _) (failed e) (same ▸ fits)
  | .tryPushInt i next, _, _, ⟨done, failed⟩, fits =>
    .attempt (pushInt_height i) (fun _ _ => trivial)
      (fun _ _ higher => perform_height nested (next _) done (by omega))
      fun e _ same => perform_height nested (next _) (failed e) (same ▸ fits)
  | .tryPop next, _, _, ⟨done, failed⟩, fits =>
    .attempt pop_height (fun _ _ => trivial)
      (fun v _ lower => perform_height nested (next _) (done v) (by omega))
      fun e _ same => perform_height nested (next _) (failed e) (same ▸ fits)
  | .alloc o next, _, m, grows, fits =>
    .modifyGet (perform_height nested (next (m.alloc o).1) (grows _) fits)
  | .retain v next, _, _, grows, fits => .modify (perform_height nested next grows fits)
  | .release v next, _, _, grows, fits => .modify (perform_height nested next grows fits)
  | .getGlobal i next, _, m, grows, fits =>
    .get (perform_height nested (next (m.globals.get? i)) (grows _) fits)
  | .setGlobal i v next, _, m, grows, fits => by
    refine .modify (perform_height nested next grows ?_)
    obtain ⟨h, stored⟩ := Machine.setGlobal_eq m i v
    rw [stored]
    exact fits
  | .readInt v next, _, m, grows, fits =>
    .get (perform_height nested (next (m.int64? v)) (grows _) fits)
  | .readString v next, _, m, grows, fits =>
    .get (perform_height nested (next (m.string? v)) (grows _) fits)
  | .reset next, n, m, grows, fits => by
    refine .modify (perform_height nested next grows ?_)
    change (0 : Int) + n ≤ top
    omega

/-! ### Calls -/

theorem limits_settle {returns : Nat} {arguments results : List Value} (limited : m.Limited opts k 0)
    (room : m.stack.length + returns ≤ opts.stackSize + k) :
    Limits opts k k (settle returns arguments results) m := by
  unfold settle
  by_cases arity : results.length = returns
  · simp only [arity, if_true]
    refine .modify ?_
    have released := (limited.releaseAll (Machine.notReturned arguments results)).mono (Nat.zero_le k)
    refine ⟨released.options, ?_, released.frames, released.modest⟩
    change (results.reverse ++ m.stack).length ≤ opts.stackSize + k
    rw [List.length_append, List.length_reverse]
    omega
  · simp only [arity, if_false]
    exact .modify ((limited.releaseAll _).mono (Nat.zero_le k))

/-- The room for the results is asked for before the callback runs. Either the callback takes up at most `k` of
it, or it keeps to the limit and at most `k` results go past that. -/
theorem limits_callback (nested : Exec Unit) {s : Script} {returns : Nat} (limited : m.Limited opts k 0)
    (room : m.stack.length + returns ≤ opts.stackSize) (modest : s.Modest k)
    (kept : returns ≤ k ∨ s.Grows k) :
    Ends (fun _ m' => m'.Limited opts k 0 ∧ m'.stack.length + returns ≤ opts.stackSize + k)
      (Machine.Limited opts k 0) (perform nested s) m := by
  have performed := limits_perform nested s modest limited
  rcases kept with few | grows
  · refine performed.imp fun _ m' limited => ⟨limited, ?_⟩
    have within := limited.stack
    omega
  · have grown : Ends (fun _ m' => m'.stack.length ≤ m.stack.length + k) (fun _ => True)
        (perform nested s) m := perform_height nested s grows (by omega)
    refine (performed.and grown).imp fun _ m' ⟨limited, height⟩ => ⟨limited, ?_⟩
    omega

theorem limits_callHost (nested : Exec Unit) {signature : Signature} {body : List Value → Script}
    {callee : Nat} (limited : m.Limited opts k k) (modest : (Object.host signature body).Modest k) :
    Limits opts k k (callHost nested signature body callee) m := by
  refine .ask limited fun _ fit => .get ?_
  by_cases room : m.options.stackSize <
      m.stack.length - 1 - signature.params.length + signature.returns.length
  · simp only [room, if_true]
    exact limited
  simp only [room, if_false]
  rw [limited.options] at room
  obtain ⟨_, need, -⟩ := bind_eq_ok fit
  have enough := Machine.need_eq_ok.1 need
  have height : (m.handed signature).stack.length + (signature.params.length + 1) = m.stack.length := by
    change (m.stack.drop (signature.params.length + 1)).length + _ = _
    rw [List.length_drop]
    omega
  have handed : (m.handed signature).Limited opts k 0 :=
    ⟨limited.options, by omega, limited.frames, limited.modest⟩
  obtain ⟨script, kept⟩ := modest (m.arguments signature)
  have called := limits_callback nested handed (by omega) script kept
  refine .modifyGet ?_
  unfold Ends at called ⊢
  generalize answer : perform nested (body (m.arguments signature)) (m.handed signature) = result at called
  simp only [Machine.arguments, Machine.handed] at answer
  simp only [answer]
  cases result with
  | ok results m' => exact limits_settle (called.1.release _) called.2
  | error stop m' => exact ((called.release _).releaseAll _).mono (Nat.zero_le _)

theorem limits_call (nested : Exec Unit) (limited : m.Limited opts k k) :
    Limits opts k k (call nested) m := by
  refine .ask limited fun _ need => .ask limited fun callee address => .get ?_
  cases found : m.heap.get? callee with
  | none => exact limited
  | some o =>
    have modest := limited.modest callee o found
    cases o with
    | function f => exact limits_enter limited f [] callee
    | closure f captures => exact limits_enter limited f captures callee
    | host signature body => exact limits_callHost nested limited modest
    | _ => exact limited

/-! ### Runs -/

theorem limits_located {x : Exec Unit} (ip : Nat) (limits : Limits opts k extra x m) :
    Limits opts k extra (located ip x) m := by
  unfold Limits Ends located at *
  generalize x m = result at limits
  cases result with
  | ok a m' => exact limits
  | error stop m' => cases stop <;> exact limits

theorem limits_step (nested : Exec Unit) (limited : m.Limited opts k k) : Limits opts k k (step nested) m := by
  cases frames : m.frames with
  | nil =>
    refine .get ?_
    rw [frames]
    exact limited
  | cons frame callers =>
    unfold Limits Ends
    cases decoded : Instruction.decode frame.function.code frame.ip with
    | error e =>
      obtain ⟨c, failed, -⟩ := @step_undecoded _ nested _ _ _ frames decoded
      rw [failed]
      exact limited
    | ok inst =>
      have advanced := limited.setIp (frame.ip + inst.width)
      rw [step_decoded frames decoded]
      exact limits_execute advanced nested (limits_call nested advanced) inst _ _

theorem limits_turn (nested : Exec Unit) (limited : m.Limited opts k k) : Limits opts k k (turn nested) m := by
  refine .get ?_
  cases m.frames with
  | nil => exact limited
  | cons frame callers =>
    dsimp only
    by_cases inside : frame.ip < frame.function.code.size
    · simp only [inside, if_true]
      exact Ends.bind (limits_located _ (limits_step nested limited)) fun _ _ limited => limited
    simp only [inside, if_false]
    by_cases outermost : callers.isEmpty = true
    · simp only [outermost, if_true]
      exact limited.lower rfl (Nat.le_refl _) (Nat.zero_le _) fun _ _ found => found
    · simp only [outermost]
      exact Ends.bind (limits_located _ (limits_ret limited)) fun _ _ limited => limited

theorem Limits.stops {α : Type} {x : Exec α} (limits : Limits opts k extra x m) :
    Stops (Machine.Limited opts k extra) (fun _ => Machine.Limited opts k extra) (x m) := by
  unfold Limits Ends at limits
  generalize x m = result at *
  cases result with
  | ok a m' => exact limits
  | error stop m' => cases stop <;> exact limits

end Exec

namespace Machine

variable {m : Machine} {opts : Options} {k : Nat}

theorem Limited.started (limited : m.Limited opts k k) (frame : m.frames = [] → m.options.frameSize ≠ 0) :
    m.started.Limited opts k k := by
  unfold Machine.started
  split
  · next none =>
    refine ⟨limited.options, limited.stack, ?_, limited.modest⟩
    have some_frame := frame none
    rw [limited.options] at some_frame
    exact Nat.one_le_iff_ne_zero.2 some_frame
  · exact limited

theorem Limited.run (limited : m.Limited opts k k) (fuel : Nat) :
    (leftBy (Exec.run fuel m)).Limited opts k k := by
  by_cases refused : m.frames = [] ∧ m.options.frameSize = 0
  -- without room for the frame of the entry nothing is run
  · have stopped : Exec.run fuel m = .error (.fault Cause.frameOverflow) m := by
      change EStateM.bind Exec.start (fun _ => Exec.loop fuel) m = _
      rw [EStateM.bind, Exec.start_apply, if_pos refused]
    rw [stopped]
    exact limited
  · have started := limited.started fun none no_frame => refused ⟨none, no_frame⟩
    have stopped := Exec.run_invariant (fun nested m limited _ => (Exec.limits_turn nested limited).stops)
      (fun _ _ => limited) fuel started
    exact leftBy_of_stops stopped fun _ _ limited => limited

theorem modest_form {c : Constant} {o : Object}
    (host : ∀ signature body, c = .host signature body → (Object.host signature body).Modest k)
    (form : c.form = .inr o) : o.Modest k := by
  cases c with
  | number s bits =>
    rcases Constant.form_number s bits with ⟨v, number, -⟩ | ⟨n, wide, -⟩
    · cases number.symm.trans form
    · cases wide.symm.trans form
      trivial
  | host signature body =>
    cases form
    exact host signature body rfl
  | _ =>
    cases form
    trivial

/-- What a machine can come to that is run and used by the host at will. The host makes requests between runs
and, in a callback, within them; a run may be cut off after any number of turns, and a machine that stopped at
a fault is resumed by the next run. -/
inductive Hosted (p : Program) (o : Options) (k : Nat) : Machine → Prop where
  | load : Hosted p o k (.load p o)
  | run {m : Machine} (fuel : Nat) (before : Hosted p o k m) : Hosted p o k (leftBy (Exec.run fuel m))
  | ask {m : Machine} {s : Script} (modest : s.Modest k) (nested : Exec Unit) (before : Hosted p o k m) :
    Hosted p o k (leftBy (Exec.perform nested s m))
  /-- The call that the innermost frame has come to hands the machine to a callback. -/
  | callback {m : Machine} {signature : Signature} {body : List Value → Script} {callee : Nat} (ip : Nat)
    (calls : (m.setIp ip).HostCall signature body callee) (before : Hosted p o k m) :
    Hosted p o k ((m.setIp ip).handed signature)

theorem limited_hosted {p : Program} {o : Options}
    (host : ∀ signature body, .host signature body ∈ p.constants → (Object.host signature body).Modest k)
    (reached : Hosted p o k m) : m.Limited o k k := by
  induction reached with
  | load =>
    refine ⟨rfl, Nat.zero_le _, Nat.zero_le _, fun a obj found => ?_⟩
    rcases loadConstants_origin found with before | ⟨c, mem, form⟩
    · rw [Heap.get?_empty] at before
      cases before
    · have mem := Array.mem_toList_iff.1 mem
      exact modest_form (fun signature body same => host signature body (same ▸ mem)) form
  | run fuel before ih => exact ih.run fuel
  | ask modest nested before ih =>
    exact leftBy_of_stops (Exec.limits_perform nested _ modest ih).stops fun _ _ limited => limited
  | callback ip calls before ih => exact (ih.setIp ip).dropped _

/-- Whatever is run and whatever the host does, there are never more frames than the options allow, and the
stack goes past its limit by no more than the functions of the host do: not at all if each of them has no
result or has a callback that leaves no more on the stack than it found. -/
theorem within_limits {p : Program} {o : Options}
    (host : ∀ signature body, .host signature body ∈ p.constants → (Object.host signature body).Modest k)
    (reached : Hosted p o k m) : m.stack.length ≤ o.stackSize + k ∧ m.frames.length ≤ o.frameSize := by
  have limited := limited_hosted host reached
  exact ⟨limited.stack, limited.frames⟩

/-- A program that calls a function of the host, which pushes a number and returns another. -/
def generous : Program where
  code := Instruction.assemble [⟨.constGet, [0]⟩, ⟨.call, []⟩]
  constants := #[.host ⟨[], [.scalar .i32]⟩ fun _ => .push (.i32 1) (.finish [.i32 7])]
  types := #[]

theorem modest_generous (signature : Signature) (body : List Value → Script)
    (mem : .host signature body ∈ generous.constants) : (Object.host signature body).Modest 1 := by
  cases Array.mem_singleton.1 mem
  exact fun _ => ⟨Script.modest_orFail fun _ => trivial, .inl (Nat.le_refl 1)⟩

theorem generous_within :
    (leftBy (Exec.run 2 (load generous { stackSize := 1 }))).stack.length ≤ 2 ∧
      (leftBy (Exec.run 2 (load generous { stackSize := 1 }))).frames.length ≤ 128 :=
  within_limits modest_generous (.run 2 (.load (o := { stackSize := 1 })))

/-- There is room for one value, and the call leaves two. -/
theorem above_limit :
    Hosted generous { stackSize := 1 } 1 (leftBy (Exec.run 2 (load generous { stackSize := 1 }))) ∧
      (leftBy (Exec.run 2 (load generous { stackSize := 1 }))).stack.length = 2 := by
  refine ⟨.run 2 .load, ?_⟩
  decide +kernel

end Machine

end StackVM
