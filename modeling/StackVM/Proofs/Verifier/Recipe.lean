import StackVM.Proofs.Verifier.Transfer

/-!
# What rules are made of

A rule is a row of pushes, pops and parts that keep the height of the stack, and only its pushes ask for
the limit. A `Recipe` says how a rule is put together in this way, and `Scope.recipe` gives one for every
instruction. What holds of pushes, of pops and of such rows then holds of all rules. Main statements: no
stack on the way through a rule is higher than the limit or the stack at its start
(`Recipe.passes_le`), and under a higher limit a rule does what it does under a lower one, unless that
one overflows (`Recipe.raised`).
-/

namespace StackVM

namespace Verifier

/-- The same function, with room for `limit` types on its stack. -/
def Scope.limited (c : Scope) (limit : Nat) : Scope := { c with maxStack := limit }

/-- The rule keeps the height of the stack. -/
def Rule.Level {α : Type} (r : Rule α) : Prop :=
  ∀ s a s', r s = .ok (a, s') → s'.stack.length = s.stack.length

/-- How a rule, given for each limit of the stack, is put together. -/
inductive Recipe (c : Scope) : {α : Type} → (Nat → Rule α) → Type 1 where
  | push (t : Ty) : Recipe c fun limit => (c.limited limit).push t
  | popAny : Recipe c fun limit => (c.limited limit).popAny
  | level {α : Type} {r : Rule α} (level : r.Level) : Recipe c fun _ => r
  | bind {α β : Type} {r : Nat → Rule α} {k : α → Nat → Rule β} (first : Recipe c r)
    (rest : ∀ a, Recipe c (k a)) : Recipe c fun limit => r limit >>= fun a => k a limit

namespace Rule

variable {α : Type} {i : Nat} {t u : Ty}

/-! ### Parts that keep the height -/

theorem level_of_same {r : Rule α} (same : ∀ s a s', r s = .ok (a, s') → s = s') : r.Level := by
  intro s a s' done
  rw [same s a s' done]

theorem level_pure {a : α} : Level (pure a) := level_of_same fun _ _ _ done => (pure_iff.1 done).2

theorem level_lookup {entry : Option α} : Level (lookup entry) :=
  level_of_same fun _ _ _ done => (lookup_iff.1 done).2

theorem level_part {entry : Option α} : Level (part entry) :=
  level_of_same fun _ _ _ done => (part_iff.1 done).2

theorem level_demand {condition : Bool} : Level (demand condition) :=
  level_of_same fun _ _ _ done => (demand_iff.1 done).2

theorem level_flow : Level (flow t u) := level_demand

theorem level_join : Level (join t u) := level_of_same fun _ _ _ done => (join_iff.1 done).2

theorem level_get : Level get := by
  intro s a s' done
  cases (done : Except.ok (s, s) = .ok (a, s'))
  rfl

theorem level_lift {e : Except Cause α} : Level (liftM e) := by
  intro s a s' done
  cases e with
  | error cause => cases done
  | ok b =>
    cases (done : Except.ok (b, s) = .ok (a, s'))
    rfl

theorem level_readGlobal : Level (readGlobal i) := by
  intro s a s' done
  obtain ⟨-, -, rfl⟩ := Scope.readGlobal_iff.1 (show readGlobal i ⟨s.toPath, s.globals⟩ = _ from done)
  rfl

theorem level_writeGlobal : Level (writeGlobal i t) := by
  intro s a s' done
  obtain ⟨-, _, -, -, path⟩ :=
    Scope.writeGlobal_eq_ok (show writeGlobal i t ⟨s.toPath, s.globals⟩ = _ from done)
  rw [path]

variable {c : Scope}

theorem level_checkLocal : Level (c.checkLocal i) :=
  level_of_same fun _ _ _ done => (Scope.checkLocal_iff.1 done).2

theorem level_readLocal : Level (Scope.readLocal i) :=
  level_of_same fun _ _ _ done => (Scope.readLocal_iff.1 done).2

theorem level_writeLocal : Level (Scope.writeLocal i t) := by
  intro s a s' done
  cases (done : Except.ok ((), { s with stack := s.stack.set (s.stack.length - 1 - i) t }) = .ok (a, s'))
  exact List.length_set

theorem level_typeAt : Level (c.typeAt i) := level_lookup

theorem level_constantAt : Level (c.constantAt i) := level_lookup

end Rule

/-! ### Recipes of rules -/

namespace Recipe

open Rule

variable {c : Scope}

def pop (t : Ty) : Recipe c fun limit => (c.limited limit).pop t :=
  .bind .popAny fun _ => .level level_flow

def popAll : (ts : List Ty) → Recipe c fun limit => (c.limited limit).popAll ts
  | [] => .level level_pure
  | t :: ts => .bind (pop t) fun _ => popAll ts

def unary (input output : Ty) : Recipe c fun limit => (c.limited limit).unary input output :=
  .bind (pop input) fun _ => .push output

def binary (input output : Ty) : Recipe c fun limit => (c.limited limit).binary input output :=
  .bind (pop input) fun _ => .bind (pop input) fun _ => .push output

def operate (op : Operation) : Recipe c fun limit => (c.limited limit).operate op :=
  (funext fun limit => (c.limited limit).operate_eq op) ▸
    .bind (popAll _) fun _ => .push (.ofKind op.shape.result)

def pushAll : (ts : List Ty) → Recipe c fun limit => (c.limited limit).pushAll ts
  | [] => .level level_pure
  | t :: ts => .bind (.push t) fun _ => pushAll ts

end Recipe

open Rule in
/-- What the rule of an instruction is made of. -/
def Scope.recipe (c : Scope) : (inst : Instruction) → Recipe c fun limit => (c.limited limit).apply inst
  | ⟨.nop, _⟩ | ⟨.unreachable, _⟩ | ⟨.br, _⟩ => .level level_pure
  | ⟨.brIf, _⟩ | ⟨.brTable, _⟩ => .pop .i32
  | ⟨.drop, _⟩ => .bind .popAny fun _ => .level level_pure
  | ⟨.dup, _⟩ => .bind .popAny fun t => .bind (.push t) fun _ => .push t
  | ⟨.swap, _⟩ => .bind .popAny fun u => .bind .popAny fun t => .bind (.push u) fun _ => .push t
  | ⟨.select, _⟩ =>
    .bind (.pop .i32) fun _ => .bind .popAny fun _ => .bind .popAny fun _ =>
      .bind (.level level_join) fun t => .push t
  | ⟨.call, _⟩ =>
    .bind .popAny fun _ => .bind (.level level_part) fun signature =>
      .bind (.popAll _) fun _ => .pushAll signature.returns
  | ⟨.ret, _⟩ =>
    .bind (.level level_get) fun s => .level (r := c.checkResults c.floor s.stack) level_lift
  | ⟨.globalGet, _⟩ => .bind (.level level_readGlobal) fun t => .push t
  | ⟨.globalSet, _⟩ => .bind .popAny fun _ => .level level_writeGlobal
  | ⟨.globalTee, _⟩ => .bind .popAny fun t => .bind (.push t) fun _ => .level level_writeGlobal
  | ⟨.localGet, _⟩ =>
    .bind (.level level_checkLocal) fun _ => .bind (.level level_readLocal) fun t => .push t
  | ⟨.localSet, _⟩ =>
    .bind (.level level_checkLocal) fun _ => .bind .popAny fun _ => .level level_writeLocal
  | ⟨.localTee, _⟩ =>
    .bind (.level level_checkLocal) fun _ => .bind .popAny fun t => .bind (.push t) fun _ =>
      .level level_writeLocal
  | ⟨.constGet, _⟩ => .bind (.level level_constantAt) fun t => .push t
  | ⟨.refNull, _⟩ => .push .ref
  | ⟨.const s, _⟩ => .push (.scalar s)
  | ⟨.operation op, _⟩ => .operate op
  | ⟨.stringLen, _⟩ => .unary .string .i32
  | ⟨.stringConcat, _⟩ => .binary .string .string
  | ⟨.stringEq, _⟩ | ⟨.stringNe, _⟩ => .binary .string .i32
  | ⟨.arrayNew, _⟩ =>
    .bind (.level level_typeAt) fun t => .bind (.level level_part) fun _ =>
      .bind (.popAll _) fun _ => .push t
  | ⟨.arrayNewDefault, _⟩ =>
    .bind (.level level_typeAt) fun t => .bind (.level level_part) fun _ =>
      .bind (.pop .i32) fun _ => .push t
  | ⟨.arrayLen, _⟩ => .bind .popAny fun _ => .bind (.level level_demand) fun _ => .push .i32
  | ⟨.arrayGet, _⟩ =>
    .bind (.pop .i32) fun _ => .bind .popAny fun _ => .bind (.level level_part) fun elem => .push elem
  | ⟨.arraySet, _⟩ =>
    .bind .popAny fun _ => .bind (.pop .i32) fun _ => .bind .popAny fun _ =>
      .bind (.level level_part) fun _ => .level level_flow
  | ⟨.structNew, _⟩ =>
    .bind (.level level_typeAt) fun t => .bind (.level level_part) fun _ =>
      .bind (.popAll _) fun _ => .push t
  | ⟨.structNewDefault, _⟩ =>
    .bind (.level level_typeAt) fun t => .bind (.level level_part) fun _ => .push t
  | ⟨.structGet, _⟩ =>
    .bind .popAny fun _ => .bind (.level level_part) fun _ => .bind (.level level_lookup) fun field =>
      .push field
  | ⟨.structSet, _⟩ =>
    .bind .popAny fun _ => .bind .popAny fun _ => .bind (.level level_part) fun _ =>
      .bind (.level level_lookup) fun _ => .level level_flow

namespace Recipe

variable {c : Scope} {α : Type} {r : Nat → Rule α} {limit limit' : Nat} {s s' : State} {a : α}
  {stack : List Ty}

/-! ### Stacks on the way -/

/-- From a state on, one of the parts of the rule leaves the stack. -/
def Passes (limit : Nat) : {α : Type} → {r : Nat → Rule α} → Recipe c r → State → List Ty → Prop
  | _, _, @bind _ _ _ r _ first rest, s, stack =>
    first.Passes limit s stack ∨ ∃ a s', r limit s = .ok (a, s') ∧ (rest a).Passes limit s' stack
  | _, r, _, s, stack => ∃ a s', r limit s = .ok (a, s') ∧ s'.stack = stack

/-- A rule leaves the stack no higher than the limit or than it found it. -/
theorem height_le (recipe : Recipe c r) (done : r limit s = .ok (a, s')) :
    s'.stack.length ≤ max s.stack.length limit := by
  induction recipe generalizing s s' with
  | push t =>
    obtain ⟨room, rfl⟩ := Scope.push_iff.1 (show Scope.push _ t ⟨⟨s.stack, s.recorded⟩, s.globals⟩ = _ from done)
    exact Nat.le_trans room (Nat.le_max_right _ _)
  | popAny =>
    obtain ⟨rest, popped, -, rfl⟩ :=
      Scope.popAny_iff.1 (show Scope.popAny _ ⟨⟨s.stack, s.recorded⟩, s.globals⟩ = _ from done)
    rw [popped, List.length_cons]
    exact Nat.le_trans (Nat.le_succ _) (Nat.le_max_left _ _)
  | level level =>
    rw [level _ _ _ done]
    exact Nat.le_max_left _ _
  | bind first rest ih ih' =>
    obtain ⟨b, between, began, done⟩ := bind_iff.1 done
    have before := ih began
    have after := ih' b done
    omega

/-- So does each of its parts. -/
theorem passes_le (recipe : Recipe c r) (passes : recipe.Passes limit s stack) :
    stack.length ≤ max s.stack.length limit := by
  induction recipe generalizing s with
  | bind first rest ih ih' =>
    rcases passes with passes | ⟨b, between, began, passes⟩
    · exact ih passes
    · have before := first.height_le began
      have after := ih' b passes
      omega
  | push t =>
    obtain ⟨b, after, done, rfl⟩ := passes
    exact height_le (.push t) done
  | popAny =>
    obtain ⟨b, after, done, rfl⟩ := passes
    exact height_le .popAny done
  | level level =>
    obtain ⟨b, after, done, rfl⟩ := passes
    exact height_le (c := c) (.level level) done

/-- The last part leaves what the rule leaves. -/
theorem passes_end (recipe : Recipe c r) (done : r limit s = .ok (a, s')) :
    recipe.Passes limit s s'.stack := by
  induction recipe generalizing s with
  | bind first rest ih ih' =>
    obtain ⟨b, between, began, done⟩ := bind_iff.1 done
    exact .inr ⟨b, between, began, ih' b done⟩
  | _ => exact ⟨a, s', done, rfl⟩

/-! ### Higher limits -/

/-- Under a higher limit a rule does what it does under a lower one, unless that one overflows. -/
theorem raised (recipe : Recipe c r) (le : limit ≤ limit') (s : State) :
    r limit s = .error .stackOverflow ∨ r limit' s = r limit s := by
  induction recipe generalizing s with
  | push t =>
    by_cases room : s.stack.length < limit
    · have room' : s.stack.length < limit' := Nat.lt_of_lt_of_le room le
      exact .inr (by simp [Scope.push, Scope.limited, room, room'])
    · exact .inl (by simp [Scope.push, Scope.limited, room])
  | popAny => exact .inr rfl
  | level level => exact .inr rfl
  | @bind _ _ r k first rest ih ih' =>
    change (r limit s >>= fun answer => k answer.1 limit answer.2) = .error .stackOverflow ∨
      (r limit' s >>= fun answer => k answer.1 limit' answer.2) =
        (r limit s >>= fun answer => k answer.1 limit answer.2)
    rcases ih s with overflows | same
    · rw [overflows]
      exact .inl rfl
    · rw [same]
      cases r limit s with
      | error cause => exact .inr rfl
      | ok answer => exact ih' answer.1 answer.2

end Recipe

end Verifier

end StackVM
