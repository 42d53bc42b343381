import Mathlib.Data.List.Forall2
import StackVM.Proofs.Outcome
import StackVM.Verifier.Rules

/-!
# What the rules allow

`Transfers` writes out, instruction by instruction, from which stack of types to which one a rule leads.
Main statements: a rule that succeeds is such a transfer for the table of globals that it leaves
(`transfers_of_apply`), a transfer stays one when more globals become known (`Transfers.mono`), and a
transfer is a success of the rule (`Transfers.apply_eq`). So a rule that once succeeded goes on to
succeed, with the same result, however many globals are recorded later.
-/

namespace StackVM

namespace Table

variable {α : Type}

/-- Everything that `t` knows, `t'` knows too. -/
def Le (t t' : Table α) : Prop := ∀ i a, t.get? i = some a → t'.get? i = some a

theorem Le.refl (t : Table α) : t.Le t := fun _ _ known => known

theorem Le.trans {t t' t'' : Table α} (first : t.Le t') (second : t'.Le t'') : t.Le t'' :=
  fun i a known => second i a (first i a known)

theorem le_put {t : Table α} {i : Nat} {a : α} (unknown : t.get? i = none) : t.Le (t.put i a) := by
  intro j b known
  rw [get?_put]
  split
  -- the global was unknown, so nothing known is lost
  · next same =>
    subst same
    rw [unknown] at known
    cases known
  · exact known

theorem put_le {t t' : Table α} {i : Nat} {a : α} (le : t.Le t') (known : t'.get? i = some a) :
    (t.put i a).Le t' := by
  intro j b entry
  rw [get?_put] at entry
  split at entry
  · next same => rwa [← same, ← entry]
  · exact le j b entry

end Table

namespace Ty

theorem accepts_refl (t : Ty) : t.accepts t = true := by
  unfold accepts
  split
  · next same =>
    subst same
    rfl
  · simp

theorem accepts_scalar {s : Scalar} {t : Ty} (accepted : (Ty.scalar s).accepts t = true) :
    t = .scalar s := by
  unfold accepts at accepted
  rw [if_neg (by simp)] at accepted
  split at accepted
  · cases accepted
  · simpa using (of_decide_eq_true accepted).symm

end Ty

/-- Whether the instruction reads or writes the global that its operand names. -/
def Instruction.namesGlobal (inst : Instruction) : Bool :=
  match inst.opcode with
  | .globalGet | .globalSet | .globalTee => true
  | _ => false

namespace Verifier

/-! ### Rules one after the other -/

section Rules

variable {α β : Type} {s s' s'' : State} {a : α}

theorem bind_iff {r : Rule α} {f : α → Rule β} {b : β} :
    (r >>= f) s = .ok (b, s'') ↔ ∃ a s', r s = .ok (a, s') ∧ f a s' = .ok (b, s'') := by
  change Except.bind (r s) (fun v => f v.1 v.2) = .ok (b, s'') ↔ _
  constructor
  · intro done
    obtain ⟨⟨a, s'⟩, first, rest⟩ := StackVM.bind_eq_ok done
    exact ⟨a, s', first, rest⟩
  · rintro ⟨a, s', first, rest⟩
    rw [first]
    exact rest

/-- A rule that leaves the state alone only hands on what it found. -/
theorem bind_iff_of_keeps {r : Rule α} {f : α → Rule β} {b : β} {Found : α → Prop}
    (keeps : ∀ {a s'}, r s = .ok (a, s') ↔ Found a ∧ s = s') :
    (r >>= f) s = .ok (b, s'') ↔ ∃ a, Found a ∧ f a s = .ok (b, s'') := by
  rw [bind_iff]
  constructor
  · rintro ⟨a, s', done, rest⟩
    obtain ⟨found, rfl⟩ := keeps.1 done
    exact ⟨a, found, rest⟩
  · rintro ⟨a, found, rest⟩
    exact ⟨a, s, keeps.2 ⟨found, rfl⟩, rest⟩

theorem Rule.get_bind (f : State → Rule α) : (get >>= f) s = f s s := rfl

theorem pure_iff {b : α} : (pure b : Rule α) s = .ok (a, s') ↔ b = a ∧ s = s' := by
  change Except.ok (b, s) = .ok (a, s') ↔ _
  simp

theorem lookup_iff {entry : Option α} : lookup entry s = .ok (a, s') ↔ entry = some a ∧ s = s' := by
  cases entry with
  | none =>
    change Except.error _ = .ok (a, s') ↔ _
    simp
  | some b => simp [lookup, pure_iff]

theorem part_iff {entry : Option α} : part entry s = .ok (a, s') ↔ entry = some a ∧ s = s' := by
  cases entry with
  | none =>
    change Except.error _ = .ok (a, s') ↔ _
    simp
  | some b => simp [part, pure_iff]

theorem lookup_bind_iff {entry : Option α} {f : α → Rule β} {b : β} :
    (lookup entry >>= f) s = .ok (b, s'') ↔ ∃ a, entry = some a ∧ f a s = .ok (b, s'') :=
  bind_iff_of_keeps lookup_iff

theorem part_bind_iff {entry : Option α} {f : α → Rule β} {b : β} :
    (part entry >>= f) s = .ok (b, s'') ↔ ∃ a, entry = some a ∧ f a s = .ok (b, s'') :=
  bind_iff_of_keeps part_iff

theorem demand_iff {condition : Bool} {u : Unit} :
    demand condition s = .ok (u, s') ↔ condition = true ∧ s = s' := by
  cases condition with
  | false =>
    change Except.error _ = .ok (u, s') ↔ _
    simp
  | true => simp [demand, pure_iff]

theorem flow_iff {expected actual : Ty} {u : Unit} :
    flow expected actual s = .ok (u, s') ↔ expected.accepts actual = true ∧ s = s' := demand_iff

theorem join_iff {t u j : Ty} :
    join t u s = .ok (j, s') ↔
      ((t = u ∧ j = t) ∨ (t ≠ u ∧ (t.isRef && u.isRef) = true ∧ j = .ref)) ∧ s = s' := by
  unfold join
  by_cases same : t = u
  · rw [if_pos same, pure_iff]
    constructor
    · rintro ⟨rfl, rfl⟩
      exact ⟨.inl ⟨same, rfl⟩, rfl⟩
    · rintro ⟨⟨-, rfl⟩ | ⟨different, -⟩, rfl⟩
      · exact ⟨rfl, rfl⟩
      · exact absurd same different
  · rw [if_neg same]
    by_cases refs : (t.isRef && u.isRef) = true
    · rw [if_pos refs, pure_iff]
      constructor
      · rintro ⟨rfl, rfl⟩
        exact ⟨.inr ⟨same, refs, rfl⟩, rfl⟩
      · rintro ⟨⟨equal, -⟩ | ⟨-, -, rfl⟩, rfl⟩
        · exact absurd equal same
        · exact ⟨rfl, rfl⟩
    · rw [if_neg refs]
      change Except.error _ = .ok (j, s') ↔ _
      simp [same, refs]

end Rules

namespace Scope

section Primitives

variable {α : Type} {c : Scope} {stack : List Ty} {w : Table Ty} {T : Table Ty} {s' : State} {t : Ty} {u : Unit}

theorem push_iff :
    c.push t ⟨⟨stack, w⟩, T⟩ = .ok (u, s') ↔
      stack.length < c.maxStack ∧ s' = ⟨⟨t :: stack, w⟩, T⟩ := by
  unfold push
  by_cases room : stack.length < c.maxStack
  · simp only [room, if_true, true_and, Except.ok.injEq, Prod.mk.injEq]
    exact eq_comm
  · simp [room]

theorem push_bind_iff {f : Unit → Rule α} {b : α} :
    (c.push t >>= f) ⟨⟨stack, w⟩, T⟩ = .ok (b, s') ↔
      stack.length < c.maxStack ∧ f () ⟨⟨t :: stack, w⟩, T⟩ = .ok (b, s') := by
  rw [bind_iff]
  constructor
  · rintro ⟨_, s, pushed, rest⟩
    obtain ⟨room, rfl⟩ := push_iff.1 pushed
    exact ⟨room, rest⟩
  · rintro ⟨room, rest⟩
    exact ⟨(), _, push_iff.2 ⟨room, rfl⟩, rest⟩

theorem popAny_iff :
    c.popAny ⟨⟨stack, w⟩, T⟩ = .ok (t, s') ↔
      ∃ rest, stack = t :: rest ∧ c.floor ≤ rest.length ∧ s' = ⟨⟨rest, w⟩, T⟩ := by
  unfold popAny
  cases stack with
  | nil => simp
  | cons v rest =>
    by_cases above : c.floor < rest.length + 1
    · simp only [above, if_true, Except.ok.injEq, Prod.mk.injEq]
      constructor
      · rintro ⟨rfl, rfl⟩
        exact ⟨rest, rfl, by omega, rfl⟩
      · rintro ⟨rest', same, -, rfl⟩
        cases same
        exact ⟨rfl, rfl⟩
    · simp only [above, if_false, reduceCtorEq, false_iff]
      rintro ⟨rest', same, above', -⟩
      cases same
      omega

theorem popAny_bind_iff {f : Ty → Rule α} {b : α} :
    (c.popAny >>= f) ⟨⟨stack, w⟩, T⟩ = .ok (b, s') ↔
      ∃ t rest, stack = t :: rest ∧ c.floor ≤ rest.length ∧ f t ⟨⟨rest, w⟩, T⟩ = .ok (b, s') := by
  rw [bind_iff]
  constructor
  · rintro ⟨t, s, popped, others⟩
    obtain ⟨rest, rfl, above, rfl⟩ := popAny_iff.1 popped
    exact ⟨t, rest, rfl, above, others⟩
  · rintro ⟨t, rest, rfl, above, others⟩
    exact ⟨t, _, popAny_iff.2 ⟨rest, rfl, above, rfl⟩, others⟩

theorem pop_iff {expected : Ty} :
    c.pop expected ⟨⟨stack, w⟩, T⟩ = .ok (u, s') ↔
      ∃ t rest, stack = t :: rest ∧ expected.accepts t = true ∧ c.floor ≤ rest.length ∧
        s' = ⟨⟨rest, w⟩, T⟩ := by
  unfold pop
  rw [popAny_bind_iff]
  constructor
  · rintro ⟨t, rest, rfl, above, flowed⟩
    obtain ⟨accepted, rfl⟩ := flow_iff.1 flowed
    exact ⟨t, rest, rfl, accepted, above, rfl⟩
  · rintro ⟨t, rest, rfl, accepted, above, rfl⟩
    exact ⟨t, rest, rfl, above, flow_iff.2 ⟨accepted, rfl⟩⟩

theorem pop_scalar_iff {kind : Scalar} :
    c.pop (.scalar kind) ⟨⟨stack, w⟩, T⟩ = .ok (u, s') ↔
      ∃ rest, stack = .scalar kind :: rest ∧ c.floor ≤ rest.length ∧ s' = ⟨⟨rest, w⟩, T⟩ := by
  rw [pop_iff]
  constructor
  · rintro ⟨t, rest, rfl, accepted, above, rfl⟩
    cases Ty.accepts_scalar accepted
    exact ⟨rest, rfl, above, rfl⟩
  · rintro ⟨rest, rfl, above, rfl⟩
    exact ⟨_, rest, rfl, Ty.accepts_refl _, above, rfl⟩

theorem pop_scalar_bind_iff {kind : Scalar} {f : Unit → Rule α} {b : α} :
    (c.pop (.scalar kind) >>= f) ⟨⟨stack, w⟩, T⟩ = .ok (b, s') ↔
      ∃ rest, stack = .scalar kind :: rest ∧ c.floor ≤ rest.length ∧
        f () ⟨⟨rest, w⟩, T⟩ = .ok (b, s') := by
  rw [bind_iff]
  constructor
  · rintro ⟨_, s, popped, others⟩
    obtain ⟨rest, rfl, above, rfl⟩ := pop_scalar_iff.1 popped
    exact ⟨rest, rfl, above, others⟩
  · rintro ⟨rest, rfl, above, others⟩
    exact ⟨(), _, pop_scalar_iff.2 ⟨rest, rfl, above, rfl⟩, others⟩

end Primitives

/-- Operands of the types `ts`, the top first, may stand where `expected` is asked for. -/
abbrev Accepts (expected ts : List Ty) : Prop :=
  List.Forall₂ (fun expected actual => Ty.accepts expected actual = true) expected ts

section Rows

variable {c : Scope} {stack : List Ty} {w : Table Ty} {T : Table Ty} {s' : State} {u : Unit}

theorem popAll_iff {expected : List Ty} :
    c.popAll expected ⟨⟨stack, w⟩, T⟩ = .ok (u, s') ↔
      ∃ ts rest, stack = ts ++ rest ∧ Accepts expected ts ∧ (ts = [] ∨ c.floor ≤ rest.length) ∧
        s' = ⟨⟨rest, w⟩, T⟩ := by
  induction expected generalizing stack with
  -- nothing is popped, so nothing is said about the floor
  | nil =>
    change (pure () : Rule Unit) _ = _ ↔ _
    rw [pure_iff]
    constructor
    · rintro ⟨-, rfl⟩
      exact ⟨[], stack, rfl, .nil, .inl rfl, rfl⟩
    · rintro ⟨ts, rest, rfl, accepted, -, rfl⟩
      cases accepted
      exact ⟨rfl, rfl⟩
  | cons first expected ih =>
    change (c.pop first >>= fun _ => c.popAll expected) _ = _ ↔ _
    rw [bind_iff]
    constructor
    · rintro ⟨_, s, popped, others⟩
      obtain ⟨t, rest, rfl, accepted, above, rfl⟩ := pop_iff.1 popped
      obtain ⟨ts, rest', rfl, accepts, above', rfl⟩ := ih.1 others
      -- the last type that was popped lies on top of the rest, which is above the floor
      refine ⟨t :: ts, rest', rfl, .cons accepted accepts, .inr ?_, rfl⟩
      rcases above' with rfl | above'
      · exact above
      · exact above'
    · rintro ⟨ts, rest, rfl, accepts, above, rfl⟩
      cases accepts with
      | @cons _ t _ ts accepted accepts =>
        have above : c.floor ≤ rest.length := by simpa using above
        refine ⟨(), ⟨⟨ts ++ rest, w⟩, T⟩, pop_iff.2 ⟨t, ts ++ rest, rfl, accepted, ?_, rfl⟩, ?_⟩
        · rw [List.length_append]
          omega
        · exact ih.2 ⟨ts, rest, rfl, accepts, .inr above, rfl⟩

theorem pushAll_iff {ts : List Ty} :
    c.pushAll ts ⟨⟨stack, w⟩, T⟩ = .ok (u, s') ↔
      (ts = [] ∨ stack.length + ts.length ≤ c.maxStack) ∧ s' = ⟨⟨ts.reverse ++ stack, w⟩, T⟩ := by
  induction ts generalizing stack with
  | nil =>
    change (pure () : Rule Unit) _ = _ ↔ _
    rw [pure_iff]
    simp [eq_comm]
  | cons t ts ih =>
    change (c.push t >>= fun _ => c.pushAll ts) _ = _ ↔ _
    rw [bind_iff]
    constructor
    · rintro ⟨_, s, pushed, others⟩
      obtain ⟨room, rfl⟩ := push_iff.1 pushed
      obtain ⟨room', rfl⟩ := ih.1 others
      refine ⟨.inr ?_, by simp⟩
      rcases room' with rfl | room'
      · exact room
      · simp only [List.length_cons] at room' ⊢
        omega
    -- room for all of them is room for the first one
    · rintro ⟨room, rfl⟩
      have room : stack.length + (ts.length + 1) ≤ c.maxStack := by simpa using room
      refine ⟨(), ⟨⟨t :: stack, w⟩, T⟩, push_iff.2 ⟨by omega, rfl⟩, ih.2 ⟨.inr ?_, by simp⟩⟩
      simp only [List.length_cons]
      omega

theorem Accepts.length_eq {expected ts : List Ty} (accepts : Accepts expected ts) :
    ts.length = expected.length := (List.Forall₂.length_eq accepts).symm

theorem accepts_of_zip {expected ts : List Ty} (length : expected.length ≤ ts.length)
    (all : ((expected.zip ts).all fun (expected, actual) => expected.accepts actual) = true) :
    Accepts expected (ts.take expected.length) := by
  induction expected generalizing ts with
  | nil => exact .nil
  | cons first expected ih =>
    cases ts with
    | nil => simp at length
    | cons t ts =>
      rw [List.zip_cons_cons, List.all_cons, Bool.and_eq_true] at all
      exact .cons all.1 (ih (by simpa using length) all.2)

theorem popAll_bind_iff {α : Type} {expected : List Ty} {f : Unit → Rule α} {b : α} :
    (c.popAll expected >>= f) ⟨⟨stack, w⟩, T⟩ = .ok (b, s') ↔
      ∃ ts rest, stack = ts ++ rest ∧ Accepts expected ts ∧ (ts = [] ∨ c.floor ≤ rest.length) ∧
        f () ⟨⟨rest, w⟩, T⟩ = .ok (b, s') := by
  rw [bind_iff]
  constructor
  · rintro ⟨_, s, popped, others⟩
    obtain ⟨ts, rest, rfl, accepted, above, rfl⟩ := popAll_iff.1 popped
    exact ⟨ts, rest, rfl, accepted, above, others⟩
  · rintro ⟨ts, rest, rfl, accepted, above, others⟩
    exact ⟨(), _, popAll_iff.2 ⟨ts, rest, rfl, accepted, above, rfl⟩, others⟩

/-- Results that were checked lie on top of the stack. -/
theorem checkResults_eq_ok {floor : Nat} {u : Unit} (checked : c.checkResults floor stack = .ok u) :
    floor + c.function.signature.returns.length ≤ stack.length ∧
      ∃ ts rest, stack = ts ++ rest ∧ Accepts c.function.signature.returns.reverse ts := by
  unfold checkResults at checked
  simp only at checked
  -- the number of results first and then their types
  split at checked
  · cases checked
  · next enough =>
    split at checked
    · next all =>
      refine ⟨by omega, _, _, (List.take_append_drop _ stack).symm, accepts_of_zip ?_ all⟩
      rw [List.length_reverse]
      omega
    · cases checked

end Rows

end Scope

/-- What the path has recorded of globals is what the table says of them. -/
def Path.Known (p : Path) (T : Table Ty) : Prop := p.recorded.Le T

theorem Path.Known.mono {p : Path} {T T' : Table Ty} (agreed : p.Known T) (le : T.Le T') : p.Known T' :=
  Table.Le.trans agreed le

/-- Two paths that have written the same globals have recorded the same types. -/
theorem Path.Known.eq_of_written {p q : Path} {T : Table Ty} (agreed : p.Known T) (agreed' : q.Known T)
    (stack : p.stack = q.stack) (written : ∀ i, p.written i = q.written i) : p = q := by
  obtain ⟨stack, recorded⟩ := p
  obtain ⟨stack', recorded'⟩ := q
  have same : recorded = recorded' := by
    refine Table.ext_get? fun i => ?_
    have both : (recorded.get? i).isSome = (recorded'.get? i).isSome := written i
    cases entry : recorded.get? i with
    | none =>
      rw [entry] at both
      exact (Option.isNone_iff_eq_none.1 (by simpa using both)).symm
    | some t =>
      rw [entry] at both
      obtain ⟨u, entry'⟩ := Option.isSome_iff_exists.1 both.symm
      rw [entry', ← agreed i t entry, ← agreed' i u entry']
  subst stack same
  rfl

namespace Scope

/-! ### The rules written out -/

/-- What the rule of an instruction does to a path when the types of the globals are `T`. -/
inductive Transfers (c : Scope) (T : Table Ty) : Instruction → Path → Path → Prop where
  | nop {ops : List Nat} {p : Path} : Transfers c T ⟨.nop, ops⟩ p p
  | unreachable {ops : List Nat} {p : Path} : Transfers c T ⟨.unreachable, ops⟩ p p
  | br {ops : List Nat} {p : Path} : Transfers c T ⟨.br, ops⟩ p p
  | brIf {ops : List Nat} {rest : List Ty} {w : Table Ty} (above : c.floor ≤ rest.length) :
    Transfers c T ⟨.brIf, ops⟩ ⟨.i32 :: rest, w⟩ ⟨rest, w⟩
  | brTable {ops : List Nat} {rest : List Ty} {w : Table Ty} (above : c.floor ≤ rest.length) :
    Transfers c T ⟨.brTable, ops⟩ ⟨.i32 :: rest, w⟩ ⟨rest, w⟩
  | drop {ops : List Nat} {t : Ty} {rest : List Ty} {w : Table Ty} (above : c.floor ≤ rest.length) :
    Transfers c T ⟨.drop, ops⟩ ⟨t :: rest, w⟩ ⟨rest, w⟩
  | dup {ops : List Nat} {t : Ty} {rest : List Ty} {w : Table Ty} (above : c.floor ≤ rest.length)
    (room : rest.length + 1 < c.maxStack) :
    Transfers c T ⟨.dup, ops⟩ ⟨t :: rest, w⟩ ⟨t :: t :: rest, w⟩
  | swap {ops : List Nat} {t u : Ty} {rest : List Ty} {w : Table Ty} (above : c.floor ≤ rest.length)
    (room : rest.length + 1 < c.maxStack) :
    Transfers c T ⟨.swap, ops⟩ ⟨u :: t :: rest, w⟩ ⟨t :: u :: rest, w⟩
  | select {ops : List Nat} {t u j : Ty} {rest : List Ty} {w : Table Ty}
    (joined : (t = u ∧ j = t) ∨ (t ≠ u ∧ (t.isRef && u.isRef) = true ∧ j = .ref))
    (above : c.floor ≤ rest.length) (room : rest.length < c.maxStack) :
    Transfers c T ⟨.select, ops⟩ ⟨.i32 :: u :: t :: rest, w⟩ ⟨j :: rest, w⟩
  | call {ops : List Nat} {params returns ts rest : List Ty} {w : Table Ty}
    (arguments : Accepts params.reverse ts) (above : c.floor ≤ rest.length)
    (room : returns = [] ∨ rest.length + returns.length ≤ c.maxStack) :
    Transfers c T ⟨.call, ops⟩ ⟨.function params returns :: (ts ++ rest), w⟩ ⟨returns.reverse ++ rest, w⟩
  | ret {ops : List Nat} {p : Path} (results : c.checkResults c.floor p.stack = .ok ()) :
    Transfers c T ⟨.ret, ops⟩ p p
  | globalGet {ops : List Nat} {t : Ty} {stack : List Ty} {w : Table Ty} {i : Nat}
    (index : Instruction.operand ⟨.globalGet, ops⟩ 0 = i) (recorded : w.get? i = some t)
    (known : T.get? i = some t) (room : stack.length < c.maxStack) :
    Transfers c T ⟨.globalGet, ops⟩ ⟨stack, w⟩ ⟨t :: stack, w⟩
  | globalSet {ops : List Nat} {t expected : Ty} {rest : List Ty} {w : Table Ty} {i : Nat}
    (index : Instruction.operand ⟨.globalSet, ops⟩ 0 = i) (known : T.get? i = some expected)
    (fits : expected.accepts t = true) (above : c.floor ≤ rest.length) :
    Transfers c T ⟨.globalSet, ops⟩ ⟨t :: rest, w⟩ ⟨rest, w.put i expected⟩
  | globalTee {ops : List Nat} {t expected : Ty} {rest : List Ty} {w : Table Ty} {i : Nat}
    (index : Instruction.operand ⟨.globalTee, ops⟩ 0 = i) (known : T.get? i = some expected)
    (fits : expected.accepts t = true) (above : c.floor ≤ rest.length) (room : rest.length < c.maxStack) :
    Transfers c T ⟨.globalTee, ops⟩ ⟨t :: rest, w⟩ ⟨t :: rest, w.put i expected⟩
  | localGet {ops : List Nat} {t : Ty} {stack : List Ty} {w : Table Ty} {i : Nat}
    (index : Instruction.operand ⟨.localGet, ops⟩ 0 = i) (inside : i < c.floor)
    (found : stack[stack.length - 1 - i]? = some t) (room : stack.length < c.maxStack) :
    Transfers c T ⟨.localGet, ops⟩ ⟨stack, w⟩ ⟨t :: stack, w⟩
  | localSet {ops : List Nat} {t : Ty} {rest : List Ty} {w : Table Ty} {i : Nat}
    (index : Instruction.operand ⟨.localSet, ops⟩ 0 = i) (inside : i < c.floor)
    (above : c.floor ≤ rest.length) :
    Transfers c T ⟨.localSet, ops⟩ ⟨t :: rest, w⟩ ⟨rest.set (rest.length - 1 - i) t, w⟩
  | localTee {ops : List Nat} {t : Ty} {rest : List Ty} {w : Table Ty} {i : Nat}
    (index : Instruction.operand ⟨.localTee, ops⟩ 0 = i) (inside : i < c.floor)
    (above : c.floor ≤ rest.length) (room : rest.length < c.maxStack) :
    Transfers c T ⟨.localTee, ops⟩ ⟨t :: rest, w⟩ ⟨(t :: rest).set ((t :: rest).length - 1 - i) t, w⟩
  | constGet {ops : List Nat} {k : Constant} {stack : List Ty} {w : Table Ty} {i : Nat}
    (index : Instruction.operand ⟨.constGet, ops⟩ 0 = i) (found : c.program.constants[i]? = some k)
    (room : stack.length < c.maxStack) : Transfers c T ⟨.constGet, ops⟩ ⟨stack, w⟩ ⟨k.ty :: stack, w⟩
  | refNull {ops : List Nat} {stack : List Ty} {w : Table Ty} (room : stack.length < c.maxStack) :
    Transfers c T ⟨.refNull, ops⟩ ⟨stack, w⟩ ⟨.ref :: stack, w⟩
  | const {s : Scalar} {ops : List Nat} {stack : List Ty} {w : Table Ty} (room : stack.length < c.maxStack) :
    Transfers c T ⟨.const s, ops⟩ ⟨stack, w⟩ ⟨.scalar s :: stack, w⟩
  | operation {op : Operation} {ops : List Nat} {ts rest : List Ty} {w : Table Ty}
    (operands : Accepts (List.replicate op.shape.arity (.ofKind op.shape.operand)) ts)
    (above : c.floor ≤ rest.length) (room : rest.length < c.maxStack) :
    Transfers c T ⟨.operation op, ops⟩ ⟨ts ++ rest, w⟩ ⟨.ofKind op.shape.result :: rest, w⟩
  | stringLen {ops : List Nat} {t : Ty} {rest : List Ty} {w : Table Ty}
    (text : Ty.string.accepts t = true) (above : c.floor ≤ rest.length) (room : rest.length < c.maxStack) :
    Transfers c T ⟨.stringLen, ops⟩ ⟨t :: rest, w⟩ ⟨.i32 :: rest, w⟩
  | stringConcat {ops : List Nat} {t u : Ty} {rest : List Ty} {w : Table Ty}
    (first : Ty.string.accepts t = true) (second : Ty.string.accepts u = true)
    (above : c.floor ≤ rest.length) (room : rest.length < c.maxStack) :
    Transfers c T ⟨.stringConcat, ops⟩ ⟨u :: t :: rest, w⟩ ⟨.string :: rest, w⟩
  | stringEq {ops : List Nat} {t u : Ty} {rest : List Ty} {w : Table Ty}
    (first : Ty.string.accepts t = true) (second : Ty.string.accepts u = true)
    (above : c.floor ≤ rest.length) (room : rest.length < c.maxStack) :
    Transfers c T ⟨.stringEq, ops⟩ ⟨u :: t :: rest, w⟩ ⟨.i32 :: rest, w⟩
  | stringNe {ops : List Nat} {t u : Ty} {rest : List Ty} {w : Table Ty}
    (first : Ty.string.accepts t = true) (second : Ty.string.accepts u = true)
    (above : c.floor ≤ rest.length) (room : rest.length < c.maxStack) :
    Transfers c T ⟨.stringNe, ops⟩ ⟨u :: t :: rest, w⟩ ⟨.i32 :: rest, w⟩
  | arrayNew {ops : List Nat} {t elem : Ty} {ts rest : List Ty} {w : Table Ty}
    (found : c.program.types[Instruction.operand ⟨.arrayNew, ops⟩ 0]? = some t)
    (array : t.elem? = some elem)
    (operands : Accepts (List.replicate (Instruction.operand ⟨.arrayNew, ops⟩ 1) elem) ts)
    (above : ts = [] ∨ c.floor ≤ rest.length) (room : rest.length < c.maxStack) :
    Transfers c T ⟨.arrayNew, ops⟩ ⟨ts ++ rest, w⟩ ⟨t :: rest, w⟩
  | arrayNewDefault {ops : List Nat} {t elem : Ty} {rest : List Ty} {w : Table Ty}
    (found : c.program.types[Instruction.operand ⟨.arrayNewDefault, ops⟩ 0]? = some t)
    (array : t.elem? = some elem) (above : c.floor ≤ rest.length) (room : rest.length < c.maxStack) :
    Transfers c T ⟨.arrayNewDefault, ops⟩ ⟨.i32 :: rest, w⟩ ⟨t :: rest, w⟩
  | arrayLen {ops : List Nat} {t : Ty} {rest : List Ty} {w : Table Ty}
    (array : (t = .ref || t.elem?.isSome) = true) (above : c.floor ≤ rest.length)
    (room : rest.length < c.maxStack) :
    Transfers c T ⟨.arrayLen, ops⟩ ⟨t :: rest, w⟩ ⟨.i32 :: rest, w⟩
  | arrayGet {ops : List Nat} {t elem : Ty} {rest : List Ty} {w : Table Ty} (array : t.elem? = some elem)
    (above : c.floor ≤ rest.length) (room : rest.length < c.maxStack) :
    Transfers c T ⟨.arrayGet, ops⟩ ⟨.i32 :: t :: rest, w⟩ ⟨elem :: rest, w⟩
  | arraySet {ops : List Nat} {t u elem : Ty} {rest : List Ty} {w : Table Ty} (array : t.elem? = some elem)
    (fits : elem.accepts u = true) (above : c.floor ≤ rest.length) :
    Transfers c T ⟨.arraySet, ops⟩ ⟨u :: .i32 :: t :: rest, w⟩ ⟨rest, w⟩
  | structNew {ops : List Nat} {fields ts rest : List Ty} {w : Table Ty}
    (found : c.program.types[Instruction.operand ⟨.structNew, ops⟩ 0]? = some (.struct fields))
    (operands : Accepts fields.reverse ts) (above : ts = [] ∨ c.floor ≤ rest.length)
    (room : rest.length < c.maxStack) :
    Transfers c T ⟨.structNew, ops⟩ ⟨ts ++ rest, w⟩ ⟨.struct fields :: rest, w⟩
  | structNewDefault {ops : List Nat} {fields stack : List Ty} {w : Table Ty}
    (found : c.program.types[Instruction.operand ⟨.structNewDefault, ops⟩ 0]? = some (.struct fields))
    (room : stack.length < c.maxStack) :
    Transfers c T ⟨.structNewDefault, ops⟩ ⟨stack, w⟩ ⟨.struct fields :: stack, w⟩
  | structGet {ops : List Nat} {t : Ty} {fields rest : List Ty} {w : Table Ty}
    (found : fields[Instruction.operand ⟨.structGet, ops⟩ 0]? = some t) (above : c.floor ≤ rest.length)
    (room : rest.length < c.maxStack) :
    Transfers c T ⟨.structGet, ops⟩ ⟨.struct fields :: rest, w⟩ ⟨t :: rest, w⟩
  | structSet {ops : List Nat} {t u : Ty} {fields rest : List Ty} {w : Table Ty}
    (found : fields[Instruction.operand ⟨.structSet, ops⟩ 0]? = some t) (fits : t.accepts u = true)
    (above : c.floor ≤ rest.length) :
    Transfers c T ⟨.structSet, ops⟩ ⟨u :: .struct fields :: rest, w⟩ ⟨rest, w⟩

variable {c : Scope} {t t' T : Table Ty} {inst : Instruction} {p p' : Path}

theorem Transfers.known (transfer : c.Transfers T inst p p') (agreed : p.Known T) : p'.Known T := by
  cases transfer with
  | globalSet index known fits above => exact Table.put_le agreed known
  | globalTee index known fits above room => exact Table.put_le agreed known
  | _ => exact agreed

/-- A transfer asks the table for nothing but the type of the global that the instruction names. -/
theorem Transfers.under (transfer : c.Transfers t inst p p')
    (named : inst.namesGlobal = true →
      ∀ u, t.get? (inst.operand 0) = some u → T.get? (inst.operand 0) = some u) :
    c.Transfers T inst p p' := by
  cases transfer with
  | globalGet index recorded known room =>
    subst index
    exact .globalGet rfl recorded (named rfl _ known) room
  | globalSet index known fits above =>
    subst index
    exact .globalSet rfl (named rfl _ known) fits above
  | globalTee index known fits above room =>
    subst index
    exact .globalTee rfl (named rfl _ known) fits above room
  | nop => exact .nop
  | unreachable => exact .unreachable
  | br => exact .br
  | brIf above => exact .brIf above
  | brTable above => exact .brTable above
  | drop above => exact .drop above
  | dup above room => exact .dup above room
  | swap above room => exact .swap above room
  | select joined above room => exact .select joined above room
  | call arguments above room => exact .call arguments above room
  | ret results => exact .ret results
  | localGet index inside found room => exact .localGet index inside found room
  | localSet index inside above => exact .localSet index inside above
  | localTee index inside above room => exact .localTee index inside above room
  | constGet index found room => exact .constGet index found room
  | refNull room => exact .refNull room
  | const room => exact .const room
  | operation operands above room => exact .operation operands above room
  | stringLen text above room => exact .stringLen text above room
  | stringConcat first second above room => exact .stringConcat first second above room
  | stringEq first second above room => exact .stringEq first second above room
  | stringNe first second above room => exact .stringNe first second above room
  | arrayNew found array operands above room => exact .arrayNew found array operands above room
  | arrayNewDefault found array above room => exact .arrayNewDefault found array above room
  | arrayLen array above room => exact .arrayLen array above room
  | arrayGet array above room => exact .arrayGet array above room
  | arraySet array fits above => exact .arraySet array fits above
  | structNew found operands above room => exact .structNew found operands above room
  | structNewDefault found room => exact .structNewDefault found room
  | structGet found above room => exact .structGet found above room
  | structSet found fits above => exact .structSet found fits above

/-- More known globals take no transfer away. -/
theorem Transfers.mono (transfer : c.Transfers t inst p p') (le : t.Le T) : c.Transfers T inst p p' :=
  transfer.under fun _ _ known => le _ _ known

theorem fields?_iff {t : Ty} {fields : List Ty} : t.fields? = some fields ↔ t = .struct fields := by
  cases t <;> simp [Ty.fields?]

theorem signature?_iff {t : Ty} {signature : Signature} :
    t.signature? = some signature ↔ t = .function signature.params signature.returns := by
  cases t with
  | function params returns =>
    cases signature
    simp [Ty.signature?]
  | _ => simp [Ty.signature?]

theorem readGlobal_iff {i : Nat} {u : Ty} {s' : State} :
    readGlobal i ⟨p, t⟩ = .ok (u, s') ↔ p.recorded.get? i = some u ∧ ⟨p, t⟩ = s' := lookup_iff

theorem checkLocal_iff {i : Nat} {u : Unit} {s s' : State} :
    c.checkLocal i s = .ok (u, s') ↔ i < c.floor ∧ s = s' := by
  unfold checkLocal
  by_cases inside : i < c.floor
  · rw [if_pos inside, pure_iff]
    simp [inside]
  · rw [if_neg inside]
    change Except.error _ = .ok (u, s') ↔ _
    simp [inside]

theorem checkLocal_bind_iff {α : Type} {i : Nat} {f : Unit → Rule α} {b : α} {s s' : State} :
    (c.checkLocal i >>= f) s = .ok (b, s') ↔ i < c.floor ∧ f () s = .ok (b, s') := by
  rw [bind_iff_of_keeps checkLocal_iff]
  exact ⟨fun ⟨_, both⟩ => both, fun both => ⟨(), both⟩⟩

theorem readLocal_iff {i : Nat} {u : Ty} {s s' : State} :
    readLocal i s = .ok (u, s') ↔ s.stack[s.stack.length - 1 - i]? = some u ∧ s = s' := lookup_iff

theorem recordGlobal_known {i : Nat} {u expected : Ty} (known : t.get? i = some expected) :
    recordGlobal i u ⟨p, t⟩ = (flow expected u >>= fun _ => pure expected) ⟨p, t⟩ := by
  unfold recordGlobal
  rw [Rule.get_bind]
  simp only [known]

theorem recordGlobal_unknown {i : Nat} {u : Ty} (unknown : t.get? i = none) :
    recordGlobal i u ⟨p, t⟩ = .ok (u, ⟨p, t.put i u⟩) := by
  unfold recordGlobal
  rw [Rule.get_bind]
  simp only [unknown]
  rfl

/-- A write agrees with what the table says afterwards, and the table only grows. -/
theorem writeGlobal_eq_ok {i : Nat} {u : Ty} {v : Unit} {s' : State}
    (done : writeGlobal i u ⟨p, t⟩ = .ok (v, s')) :
    t.Le s'.globals ∧ ∃ expected, s'.globals.get? i = some expected ∧ expected.accepts u = true ∧
      s'.toPath = ⟨p.stack, p.recorded.put i expected⟩ := by
  obtain ⟨fixed, s, recorded, done⟩ := bind_iff.1 done
  cases (done : Except.ok ((), { s with recorded := s.recorded.put i fixed }) = .ok (v, s'))
  -- the first write records the type, later ones have to fit it
  cases known : t.get? i with
  | some expected =>
    rw [recordGlobal_known known] at recorded
    obtain ⟨_, _, flowed, answer⟩ := bind_iff.1 recorded
    obtain ⟨accepted, rfl⟩ := flow_iff.1 flowed
    obtain ⟨rfl, rfl⟩ := pure_iff.1 answer
    exact ⟨.refl t, expected, known, accepted, rfl⟩
  | none =>
    rw [recordGlobal_unknown known] at recorded
    cases recorded
    exact ⟨Table.le_put known, u, by simp, Ty.accepts_refl u, rfl⟩

/-- The first write of a global records the type that is written. -/
theorem writeGlobal_unknown {i : Nat} {u : Ty} (unknown : t.get? i = none) :
    writeGlobal i u ⟨p, t⟩ = .ok ((), ⟨⟨p.stack, p.recorded.put i u⟩, t.put i u⟩) :=
  bind_iff.2 ⟨u, ⟨p, t.put i u⟩, recordGlobal_unknown unknown, rfl⟩

theorem writeGlobal_known {i : Nat} {u expected : Ty} (known : T.get? i = some expected)
    (accepted : expected.accepts u = true) :
    writeGlobal i u ⟨p, T⟩ = .ok ((), ⟨⟨p.stack, p.recorded.put i expected⟩, T⟩) := by
  refine bind_iff.2 ⟨expected, ⟨p, T⟩, ?_, rfl⟩
  rw [recordGlobal_known known]
  exact bind_iff.2 ⟨(), ⟨p, T⟩, flow_iff.2 ⟨accepted, rfl⟩, rfl⟩

theorem two_operands {input output : Ty} {stack : List Ty} {w : Table Ty} {s' : State}
    (done : c.binary input output ⟨⟨stack, w⟩, t⟩ = .ok ((), s')) :
    ∃ u v rest, stack = u :: v :: rest ∧ input.accepts v = true ∧ input.accepts u = true ∧
      c.floor ≤ rest.length ∧ c.push output ⟨⟨rest, w⟩, t⟩ = .ok ((), s') := by
  rw [binary_eq] at done
  obtain ⟨ts, rest, rfl, operands, above, more⟩ := popAll_bind_iff.1 done
  -- exactly two types were popped
  cases operands with
  | cons second operands =>
    cases operands with
    | cons first operands =>
      cases operands
      exact ⟨_, _, rest, rfl, first, second, by simpa using above, more⟩

/-- A rule that succeeds is a transfer, and the table of globals only grows. -/
theorem transfers_of_apply {s' : State} (agreed : p.Known t) (done : c.apply inst ⟨p, t⟩ = .ok ((), s')) :
    t.Le s'.globals ∧ c.Transfers s'.globals inst p s'.toPath := by
  obtain ⟨opcode, ops⟩ := inst
  obtain ⟨stack, w⟩ := p
  cases opcode with
  | nop =>
    obtain ⟨-, rfl⟩ := pure_iff.1 done
    exact ⟨.refl t, .nop⟩
  | unreachable =>
    obtain ⟨-, rfl⟩ := pure_iff.1 done
    exact ⟨.refl t, .unreachable⟩
  | br =>
    obtain ⟨-, rfl⟩ := pure_iff.1 done
    exact ⟨.refl t, .br⟩
  | brIf =>
    obtain ⟨rest, rfl, above, rfl⟩ := pop_scalar_iff.1 done
    exact ⟨.refl t, .brIf above⟩
  | brTable =>
    obtain ⟨rest, rfl, above, rfl⟩ := pop_scalar_iff.1 done
    exact ⟨.refl t, .brTable above⟩
  | drop =>
    obtain ⟨u, rest, rfl, above, done⟩ := popAny_bind_iff.1 done
    obtain ⟨-, rfl⟩ := pure_iff.1 done
    exact ⟨.refl t, .drop above⟩
  | dup =>
    obtain ⟨u, rest, rfl, above, done⟩ := popAny_bind_iff.1 done
    obtain ⟨_, done⟩ := push_bind_iff.1 done
    obtain ⟨room, rfl⟩ := push_iff.1 done
    exact ⟨.refl t, .dup above room⟩
  | swap =>
    obtain ⟨u, rest, rfl, _, done⟩ := popAny_bind_iff.1 done
    obtain ⟨v, rest, rfl, above, done⟩ := popAny_bind_iff.1 done
    obtain ⟨_, done⟩ := push_bind_iff.1 done
    obtain ⟨room, rfl⟩ := push_iff.1 done
    exact ⟨.refl t, .swap above room⟩
  | select =>
    obtain ⟨rest, rfl, _, done⟩ := pop_scalar_bind_iff.1 done
    obtain ⟨u, rest, rfl, _, done⟩ := popAny_bind_iff.1 done
    obtain ⟨v, rest, rfl, above, done⟩ := popAny_bind_iff.1 done
    obtain ⟨j, joined, done⟩ := (bind_iff_of_keeps join_iff).1 done
    obtain ⟨room, rfl⟩ := push_iff.1 done
    exact ⟨.refl t, .select joined above room⟩
  | call =>
    obtain ⟨f, rest, rfl, above, done⟩ := popAny_bind_iff.1 done
    obtain ⟨signature, function, arguments⟩ := part_bind_iff.1 done
    cases signature?_iff.1 function
    obtain ⟨ts, rest', rfl, accepted, above', results⟩ := popAll_bind_iff.1 arguments
    obtain ⟨room, rfl⟩ := pushAll_iff.1 results
    -- without parameters the function itself was the last type popped
    refine ⟨.refl t, .call accepted ?_ room⟩
    rcases above' with rfl | above'
    · exact above
    · exact above'
  | ret =>
    obtain ⟨s, _, got, done⟩ := bind_iff.1 done
    cases (got : Except.ok ((⟨⟨stack, w⟩, t⟩ : State), (⟨⟨stack, w⟩, t⟩ : State)) = .ok _)
    -- the check of the results is no step of the rule and has to be lifted
    cases checked : c.checkResults c.floor stack with
    | error e =>
      have done : (liftM (c.checkResults c.floor stack) : Rule Unit) ⟨⟨stack, w⟩, t⟩ = .ok ((), s') := done
      rw [checked] at done
      cases done
    | ok u =>
      have done : (liftM (c.checkResults c.floor stack) : Rule Unit) ⟨⟨stack, w⟩, t⟩ = .ok ((), s') := done
      rw [checked] at done
      cases done
      exact ⟨.refl t, .ret checked⟩
  | globalGet =>
    obtain ⟨u, recorded, done⟩ := (bind_iff_of_keeps readGlobal_iff).1 done
    obtain ⟨room, rfl⟩ := push_iff.1 done
    exact ⟨.refl t, .globalGet rfl recorded (agreed _ u recorded) room⟩
  | globalSet =>
    obtain ⟨u, rest, rfl, above, done⟩ := popAny_bind_iff.1 done
    obtain ⟨le, expected, known, fits, path⟩ := writeGlobal_eq_ok done
    rw [path]
    exact ⟨le, .globalSet rfl known fits above⟩
  | globalTee =>
    obtain ⟨u, rest, rfl, above, done⟩ := popAny_bind_iff.1 done
    obtain ⟨room, done⟩ := push_bind_iff.1 done
    obtain ⟨le, expected, known, fits, path⟩ := writeGlobal_eq_ok done
    rw [path]
    exact ⟨le, .globalTee rfl known fits above room⟩
  | localGet =>
    obtain ⟨inside, done⟩ := checkLocal_bind_iff.1 done
    obtain ⟨u, found, done⟩ := (bind_iff_of_keeps readLocal_iff).1 done
    obtain ⟨room, rfl⟩ := push_iff.1 done
    exact ⟨.refl t, .localGet rfl inside found room⟩
  | localSet =>
    obtain ⟨inside, done⟩ := checkLocal_bind_iff.1 done
    obtain ⟨u, rest, rfl, above, done⟩ := popAny_bind_iff.1 done
    cases done
    exact ⟨.refl t, .localSet rfl inside above⟩
  | localTee =>
    obtain ⟨inside, done⟩ := checkLocal_bind_iff.1 done
    obtain ⟨u, rest, rfl, above, done⟩ := popAny_bind_iff.1 done
    obtain ⟨room, done⟩ := push_bind_iff.1 done
    cases done
    exact ⟨.refl t, .localTee rfl inside above room⟩
  | constGet =>
    obtain ⟨u, entry, done⟩ := lookup_bind_iff.1 done
    obtain ⟨k, found, rfl⟩ := Option.map_eq_some_iff.1 entry
    obtain ⟨room, rfl⟩ := push_iff.1 done
    exact ⟨.refl t, .constGet rfl found room⟩
  | refNull =>
    obtain ⟨room, rfl⟩ := push_iff.1 done
    exact ⟨.refl t, .refNull room⟩
  | const s =>
    obtain ⟨room, rfl⟩ := push_iff.1 done
    exact ⟨.refl t, .const room⟩
  | operation op =>
    change c.operate op _ = _ at done
    rw [operate_eq] at done
    obtain ⟨ts, rest, rfl, operands, above, done⟩ := popAll_bind_iff.1 done
    obtain ⟨room, rfl⟩ := push_iff.1 done
    have above : c.floor ≤ rest.length := by
      -- no operation is without operands
      rcases above with rfl | above
      · cases op <;> cases operands
      · exact above
    exact ⟨.refl t, .operation operands above room⟩
  | stringLen =>
    obtain ⟨_, _, popped, done⟩ := bind_iff.1 done
    obtain ⟨u, rest, rfl, text, above, rfl⟩ := pop_iff.1 popped
    obtain ⟨room, rfl⟩ := push_iff.1 done
    exact ⟨.refl t, .stringLen text above room⟩
  | stringConcat =>
    obtain ⟨u, v, rest, rfl, first, second, above, done⟩ := two_operands done
    obtain ⟨room, rfl⟩ := push_iff.1 done
    exact ⟨.refl t, .stringConcat first second above room⟩
  | stringEq =>
    obtain ⟨u, v, rest, rfl, first, second, above, done⟩ := two_operands done
    obtain ⟨room, rfl⟩ := push_iff.1 done
    exact ⟨.refl t, .stringEq first second above room⟩
  | stringNe =>
    obtain ⟨u, v, rest, rfl, first, second, above, done⟩ := two_operands done
    obtain ⟨room, rfl⟩ := push_iff.1 done
    exact ⟨.refl t, .stringNe first second above room⟩
  | arrayNew =>
    obtain ⟨u, found, done⟩ := lookup_bind_iff.1 done
    obtain ⟨elem, array, done⟩ := part_bind_iff.1 done
    obtain ⟨ts, rest, rfl, operands, above, done⟩ := popAll_bind_iff.1 done
    obtain ⟨room, rfl⟩ := push_iff.1 done
    exact ⟨.refl t, .arrayNew found array operands above room⟩
  | arrayNewDefault =>
    obtain ⟨u, found, done⟩ := lookup_bind_iff.1 done
    obtain ⟨elem, array, done⟩ := part_bind_iff.1 done
    obtain ⟨rest, rfl, above, done⟩ := pop_scalar_bind_iff.1 done
    obtain ⟨room, rfl⟩ := push_iff.1 done
    exact ⟨.refl t, .arrayNewDefault found array above room⟩
  | arrayLen =>
    obtain ⟨u, rest, rfl, above, done⟩ := popAny_bind_iff.1 done
    obtain ⟨_, array, done⟩ := (bind_iff_of_keeps demand_iff).1 done
    obtain ⟨room, rfl⟩ := push_iff.1 done
    exact ⟨.refl t, .arrayLen array above room⟩
  | arrayGet =>
    obtain ⟨rest, rfl, _, done⟩ := pop_scalar_bind_iff.1 done
    obtain ⟨u, rest, rfl, above, done⟩ := popAny_bind_iff.1 done
    obtain ⟨elem, array, done⟩ := part_bind_iff.1 done
    obtain ⟨room, rfl⟩ := push_iff.1 done
    exact ⟨.refl t, .arrayGet array above room⟩
  | arraySet =>
    obtain ⟨v, rest, rfl, _, done⟩ := popAny_bind_iff.1 done
    obtain ⟨rest, rfl, _, done⟩ := pop_scalar_bind_iff.1 done
    obtain ⟨u, rest, rfl, above, done⟩ := popAny_bind_iff.1 done
    obtain ⟨elem, array, done⟩ := part_bind_iff.1 done
    obtain ⟨fits, rfl⟩ := flow_iff.1 done
    exact ⟨.refl t, .arraySet array fits above⟩
  | structNew =>
    obtain ⟨u, found, done⟩ := lookup_bind_iff.1 done
    obtain ⟨fields, struct, made⟩ := part_bind_iff.1 done
    cases fields?_iff.1 struct
    obtain ⟨ts, rest, rfl, operands, above, pushed⟩ := popAll_bind_iff.1 made
    obtain ⟨room, rfl⟩ := push_iff.1 pushed
    exact ⟨.refl t, .structNew found operands above room⟩
  | structNewDefault =>
    obtain ⟨u, found, done⟩ := lookup_bind_iff.1 done
    obtain ⟨fields, struct, pushed⟩ := part_bind_iff.1 done
    cases fields?_iff.1 struct
    obtain ⟨room, rfl⟩ := push_iff.1 pushed
    exact ⟨.refl t, .structNewDefault found room⟩
  | structGet =>
    obtain ⟨u, rest, rfl, above, done⟩ := popAny_bind_iff.1 done
    obtain ⟨fields, struct, reading⟩ := part_bind_iff.1 done
    cases fields?_iff.1 struct
    obtain ⟨field, found, pushed⟩ := lookup_bind_iff.1 reading
    obtain ⟨room, rfl⟩ := push_iff.1 pushed
    exact ⟨.refl t, .structGet found above room⟩
  | structSet =>
    obtain ⟨v, rest, rfl, _, done⟩ := popAny_bind_iff.1 done
    obtain ⟨u, rest, rfl, above, done⟩ := popAny_bind_iff.1 done
    obtain ⟨fields, struct, storing⟩ := part_bind_iff.1 done
    cases fields?_iff.1 struct
    obtain ⟨field, found, stored⟩ := lookup_bind_iff.1 storing
    obtain ⟨fits, rfl⟩ := flow_iff.1 stored
    exact ⟨.refl t, .structSet found fits above⟩

theorem binary_ok {input output u v : Ty} {rest : List Ty} {w : Table Ty} (first : input.accepts u = true)
    (second : input.accepts v = true) (above : c.floor ≤ rest.length) (room : rest.length < c.maxStack) :
    c.binary input output ⟨⟨v :: u :: rest, w⟩, T⟩ = .ok ((), ⟨⟨output :: rest, w⟩, T⟩) := by
  rw [binary_eq]
  refine bind_iff.2 ⟨(), ⟨⟨rest, w⟩, T⟩, ?_, push_iff.2 ⟨room, rfl⟩⟩
  exact popAll_iff.2 ⟨[v, u], rest, rfl, .cons second (.cons first .nil), .inr above, rfl⟩

/-- A transfer is what the rule does, and it leaves the table as it was. -/
theorem Transfers.apply_eq (transfer : c.Transfers T inst p p') :
    c.apply inst ⟨p, T⟩ = .ok ((), ⟨p', T⟩) := by
  cases transfer with
  | nop => rfl
  | unreachable => rfl
  | br => rfl
  | brIf above => exact pop_scalar_iff.2 ⟨_, rfl, above, rfl⟩
  | brTable above => exact pop_scalar_iff.2 ⟨_, rfl, above, rfl⟩
  | drop above => exact popAny_bind_iff.2 ⟨_, _, rfl, above, rfl⟩
  | @dup _ t rest w above room =>
    refine popAny_bind_iff.2 ⟨_, _, rfl, above, ?_⟩
    refine push_bind_iff.2 ⟨by omega, ?_⟩
    exact push_iff.2 ⟨room, rfl⟩
  | @swap _ t u rest w above room =>
    -- what lies under the last type popped is above the floor, and so is whatever was popped before
    have below : c.floor ≤ (t :: rest).length := Nat.le_succ_of_le above
    refine popAny_bind_iff.2 ⟨_, _, rfl, below, ?_⟩
    refine popAny_bind_iff.2 ⟨_, _, rfl, above, ?_⟩
    refine push_bind_iff.2 ⟨by omega, ?_⟩
    exact push_iff.2 ⟨room, rfl⟩
  | @select _ t u j rest w joined above room =>
    have below : c.floor ≤ (t :: rest).length := Nat.le_succ_of_le above
    have below' : c.floor ≤ (u :: t :: rest).length := Nat.le_succ_of_le below
    refine pop_scalar_bind_iff.2 ⟨_, rfl, below', ?_⟩
    refine popAny_bind_iff.2 ⟨_, _, rfl, below, ?_⟩
    refine popAny_bind_iff.2 ⟨_, _, rfl, above, ?_⟩
    exact (bind_iff_of_keeps join_iff).2 ⟨j, joined, push_iff.2 ⟨room, rfl⟩⟩
  | @call _ params returns ts rest w arguments above room =>
    have below : c.floor ≤ (ts ++ rest).length := by
      rw [List.length_append]
      omega
    refine popAny_bind_iff.2 ⟨_, _, rfl, below, ?_⟩
    refine part_bind_iff.2 ⟨⟨params, returns⟩, rfl, ?_⟩
    refine popAll_bind_iff.2 ⟨ts, rest, rfl, arguments, .inr above, ?_⟩
    exact pushAll_iff.2 ⟨room, rfl⟩
  | ret results =>
    refine bind_iff.2 ⟨⟨p, T⟩, ⟨p, T⟩, rfl, ?_⟩
    change (liftM (c.checkResults c.floor p.stack) : Rule Unit) ⟨p, T⟩ = _
    rw [results]
    rfl
  | globalGet index recorded known room =>
    subst index
    exact (bind_iff_of_keeps readGlobal_iff).2 ⟨_, recorded, push_iff.2 ⟨room, rfl⟩⟩
  | globalSet index known fits above =>
    subst index
    exact popAny_bind_iff.2 ⟨_, _, rfl, above, writeGlobal_known known fits⟩
  | globalTee index known fits above room =>
    subst index
    refine popAny_bind_iff.2 ⟨_, _, rfl, above, ?_⟩
    exact push_bind_iff.2 ⟨room, writeGlobal_known known fits⟩
  | localGet index inside found room =>
    subst index
    refine checkLocal_bind_iff.2 ⟨inside, ?_⟩
    exact (bind_iff_of_keeps readLocal_iff).2 ⟨_, found, push_iff.2 ⟨room, rfl⟩⟩
  | localSet index inside above =>
    subst index
    refine checkLocal_bind_iff.2 ⟨inside, ?_⟩
    exact popAny_bind_iff.2 ⟨_, _, rfl, above, rfl⟩
  | localTee index inside above room =>
    subst index
    refine checkLocal_bind_iff.2 ⟨inside, ?_⟩
    refine popAny_bind_iff.2 ⟨_, _, rfl, above, ?_⟩
    exact push_bind_iff.2 ⟨room, rfl⟩
  | constGet index found room =>
    subst index
    refine lookup_bind_iff.2 ⟨_, ?_, push_iff.2 ⟨room, rfl⟩⟩
    rw [found]
    rfl
  | refNull room => exact push_iff.2 ⟨room, rfl⟩
  | const room => exact push_iff.2 ⟨room, rfl⟩
  | @operation op _ _ _ _ operands above room =>
    change c.operate op _ = _
    rw [operate_eq]
    refine popAll_bind_iff.2 ⟨_, _, rfl, operands, .inr above, ?_⟩
    exact push_iff.2 ⟨room, rfl⟩
  | stringLen text above room =>
    exact bind_iff.2 ⟨(), _, pop_iff.2 ⟨_, _, rfl, text, above, rfl⟩, push_iff.2 ⟨room, rfl⟩⟩
  | stringConcat first second above room => exact binary_ok first second above room
  | stringEq first second above room => exact binary_ok first second above room
  | stringNe first second above room => exact binary_ok first second above room
  | arrayNew found array operands above room =>
    refine lookup_bind_iff.2 ⟨_, found, ?_⟩
    refine part_bind_iff.2 ⟨_, array, ?_⟩
    refine popAll_bind_iff.2 ⟨_, _, rfl, operands, above, ?_⟩
    exact push_iff.2 ⟨room, rfl⟩
  | arrayNewDefault found array above room =>
    refine lookup_bind_iff.2 ⟨_, found, ?_⟩
    refine part_bind_iff.2 ⟨_, array, ?_⟩
    exact pop_scalar_bind_iff.2 ⟨_, rfl, above, push_iff.2 ⟨room, rfl⟩⟩
  | arrayLen array above room =>
    refine popAny_bind_iff.2 ⟨_, _, rfl, above, ?_⟩
    exact (bind_iff_of_keeps demand_iff).2 ⟨(), array, push_iff.2 ⟨room, rfl⟩⟩
  | @arrayGet _ t elem rest w array above room =>
    have below : c.floor ≤ (t :: rest).length := Nat.le_succ_of_le above
    refine pop_scalar_bind_iff.2 ⟨_, rfl, below, ?_⟩
    refine popAny_bind_iff.2 ⟨_, _, rfl, above, ?_⟩
    exact part_bind_iff.2 ⟨_, array, push_iff.2 ⟨room, rfl⟩⟩
  | @arraySet _ t u elem rest w array fits above =>
    have below : c.floor ≤ (t :: rest).length := Nat.le_succ_of_le above
    have below' : c.floor ≤ (.i32 :: t :: rest : List Ty).length := Nat.le_succ_of_le below
    refine popAny_bind_iff.2 ⟨_, _, rfl, below', ?_⟩
    refine pop_scalar_bind_iff.2 ⟨_, rfl, below, ?_⟩
    refine popAny_bind_iff.2 ⟨_, _, rfl, above, ?_⟩
    exact part_bind_iff.2 ⟨_, array, flow_iff.2 ⟨fits, rfl⟩⟩
  | structNew found operands above room =>
    refine lookup_bind_iff.2 ⟨_, found, ?_⟩
    refine part_bind_iff.2 ⟨_, rfl, ?_⟩
    refine popAll_bind_iff.2 ⟨_, _, rfl, operands, above, ?_⟩
    exact push_iff.2 ⟨room, rfl⟩
  | structNewDefault found room =>
    refine lookup_bind_iff.2 ⟨_, found, ?_⟩
    exact part_bind_iff.2 ⟨_, rfl, push_iff.2 ⟨room, rfl⟩⟩
  | structGet found above room =>
    refine popAny_bind_iff.2 ⟨_, _, rfl, above, ?_⟩
    refine part_bind_iff.2 ⟨_, rfl, ?_⟩
    exact lookup_bind_iff.2 ⟨_, found, push_iff.2 ⟨room, rfl⟩⟩
  | @structSet _ t u fields rest w found fits above =>
    have below : c.floor ≤ (.struct fields :: rest : List Ty).length := Nat.le_succ_of_le above
    refine popAny_bind_iff.2 ⟨_, _, rfl, below, ?_⟩
    refine popAny_bind_iff.2 ⟨_, _, rfl, above, ?_⟩
    refine part_bind_iff.2 ⟨_, rfl, ?_⟩
    exact lookup_bind_iff.2 ⟨_, found, flow_iff.2 ⟨fits, rfl⟩⟩

end Scope

end Verifier

end StackVM
