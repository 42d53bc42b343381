import StackVM.Proofs.Verifier.ExplorationOrder
import StackVM.Proofs.Verifier.Termination

/-!
# Verifying again

A verifier keeps what it has learnt about globals. Main statements: no request to a verifier, met or not,
changes a type that is known (`learns_requests`), and a program that passes once passes again, whatever is
asked in between; then nothing is learnt, and every function is left with the same stacks as before
(`verification_repeats`).

The second time all globals count as written from the start, so the paths of the two checks differ. Each
path of the first becomes one of the second when everything is counted as written (`Path.settled`), and
no other routes exist (`check_again`).
-/

namespace StackVM

namespace Verifier

/-! ### Everything counts as written -/

/-- The path, with all globals that the table knows counted as written. -/
def Path.settled (p : Path) (U : Table Ty) : Path := ⟨p.stack, U⟩

namespace Scope

variable {c : Scope} {g : Graph} {U : Table Ty} {p p' start : Path} {inst : Instruction} {index : Nat}
  {block : Block}

/-- A global that is known counts as written already. -/
theorem put_settled {i : Nat} {t : Ty} (known : U.get? i = some t) : U.put i t = U := by
  refine Table.ext_get? fun j => ?_
  rw [Table.get?_put]
  split
  · next here => rw [← here, known]
  · rfl

theorem Transfers.settled (transfer : c.Transfers U inst p p') :
    c.Transfers U inst (p.settled U) (p'.settled U) := by
  cases transfer with
  | globalGet index recorded known room => exact .globalGet index known known room
  | @globalSet _ t _ rest w i index known fits above =>
    have here : c.Transfers U _ ⟨t :: rest, U⟩ ⟨rest, U.put i _⟩ := .globalSet index known fits above
    rwa [put_settled known] at here
  | @globalTee _ t _ rest w i index known fits above room =>
    have here : c.Transfers U _ ⟨t :: rest, U⟩ ⟨t :: rest, U.put i _⟩ :=
      .globalTee index known fits above room
    rwa [put_settled known] at here
  -- any other rule does not look at what was written
  | _ => constructor <;> assumption

theorem Along.settled {ls : List Located} (along : c.Along U ls p p') :
    c.Along U ls (p.settled U) (p'.settled U) := by
  induction ls generalizing p with
  | nil =>
    cases along
    rfl
  | cons l ls ih =>
    obtain ⟨q, transfer, rest⟩ := along
    exact ⟨q.settled U, transfer.settled, ih rest⟩

theorem Follows.settled {route : List Nat} (follows : c.Follows g U start route p)
    (agreed : start.Known U) : c.Follows g U (start.settled U) route (p.settled U) := by
  induction follows with
  | start => exact .start
  | block upTo at_i visited ih =>
    obtain ⟨through, off⟩ := visit_eq_ok visited
    exact .block ih at_i (visit_of_along (along_of_through (upTo.known agreed) through).2.settled off)

end Scope

/-! ### Searches that learn nothing -/

namespace Search

variable {c : Scope} {g : Graph} {U : Table Ty} {start : Path} {s s' : Search} {d : Discipline}

/-- What holds throughout a search that begins with all types it meets. -/
def Steady (c : Scope) (g : Graph) (U : Table Ty) (start : Path) (s : Search) : Prop :=
  Traced c g start s ∧ s.globals = U

/-- Where all routes can be followed, a pending visit goes through and leaves the table as it is. -/
theorem Steady.visit {v : Visit} {rest : List Visit} {block : Block} (steady : Steady c g U start s)
    (walks : Walks c g U start) (pending : s.pending = v :: rest)
    (at_block : g.blocks[v.block]? = some block) :
    ∃ p', c.visit v.block block ⟨v.path, s.globals⟩ = .ok ⟨p', U⟩ := by
  obtain ⟨traced, same⟩ := steady
  have waiting : v ∈ s.pending := by
    rw [pending]
    exact List.mem_cons_self
  obtain ⟨before, route, follows⟩ := traced.waiting v waiting
  obtain ⟨path, walked⟩ := walks _ route
  rw [same] at follows ⊢
  cases walked with
  | block upTo at_i visited =>
    cases at_i.symm.trans at_block
    cases upTo.unique follows
    exact ⟨path, visited⟩

theorem Steady.advanced (steady : Steady c g U start s) (i : Nat) : Steady c g U start (s.advanced i) := by
  obtain ⟨traced, same⟩ := steady
  refine ⟨traced.advanced i, ?_⟩
  rw [s.advanced_eq i]
  exact same

theorem Steady.stepBy (steady : Steady c g U start s) (walks : Walks c g U start)
    (stepped : s.stepBy d c g = .ok (some s')) : Steady c g U start s' := by
  have advanced := steady.advanced (d s)
  refine ⟨advanced.1.step stepped, ?_⟩
  obtain ⟨v, rest, pending, taken⟩ := step_eq_some stepped
  rcases taken with ⟨rfl, -⟩ | ⟨block, after, at_block, -, visited, rfl⟩
  · exact advanced.2
  · obtain ⟨p', done⟩ := advanced.visit walks pending at_block
    cases visited.symm.trans done
    rfl

end Search

/-- Where all routes can be followed, a search that begins with all types it meets ends with the same table. -/
theorem searchBy_of_walks {d : Discipline} {c : Scope} {g : Graph} {U : Table Ty}
    (walks : Search.Walks c g U ⟨c.entryStack, U⟩) :
    ∃ s, c.searchBy d g U = .ok s ∧ s.globals = U := by
  have begins : Search.Steady c g U ⟨c.entryStack, U⟩ (.start c U) := ⟨Search.traced_start, rfl⟩
  have ends : (∀ s, c.searchBy d g U = .ok s → _) ∧ ∀ failure, c.searchBy d g U = .error failure → _ :=
    Search.runBy_invariant (fun _ _ steady stepped => steady.stepBy walks stepped) begins
  cases searched : c.searchBy d g U with
  | ok s => exact ⟨s, rfl, (ends.1 s searched).1.2⟩
  | error failure =>
    -- the visit that failed goes through
    obtain ⟨s, steady, failed⟩ := ends.2 failure searched
    obtain ⟨v, rest, block, pending, at_block, visited⟩ := Search.step_eq_error failed
    obtain ⟨p', done⟩ := (steady.advanced (d s)).visit walks pending at_block
    cases visited.symm.trans done

theorem Search.Walks.settled {c : Scope} {g : Graph} {T U : Table Ty} {start : Path}
    (walks : Search.Walks c g T start) (agreed : start.Known T) (le : T.Le U) :
    Search.Walks c g U (start.settled U) := by
  intro route walked
  obtain ⟨path, follows⟩ := walks route walked
  exact ⟨path.settled U, (follows.mono agreed le).settled (agreed.mono le)⟩

/-- Counting everything as written changes no stack with which a route leaves the function. -/
theorem Scope.leaving_settled_iff {c : Scope} {g : Graph} {T U : Table Ty} {start : Path} {stack : List Ty}
    (walks : Search.Walks c g T start) (agreed : start.Known T) (le : T.Le U) :
    c.Leaving g U (start.settled U) stack ↔ c.Leaving g T start stack := by
  have settled {route : List Nat} {path : Path} (follows : c.Follows g T start route path) :
      c.Follows g U (start.settled U) route (path.settled U) :=
    (follows.mono agreed le).settled (agreed.mono le)
  constructor
  · rintro ⟨i, before, block, path, route, at_i, leaves, follows, rfl⟩
    obtain ⟨path', follows'⟩ := walks _ route
    cases follows.unique (settled follows')
    exact ⟨i, before, block, path', route, at_i, leaves, follows', rfl⟩
  · rintro ⟨i, before, block, path, route, at_i, leaves, follows, rfl⟩
    exact ⟨i, before, block, path.settled U, route, at_i, leaves, settled follows, rfl⟩

/-! ### Checks -/

/-- A function that passed passes again when more globals are known, and is left with the same stacks. -/
theorem check_again {f : Function} {v v' : Verifier} {exits : List (List Ty)} {U : Table Ty}
    (checked : check f v = .ok exits v') (le : v'.globals.Le U) :
    ∃ exits', check f { v with globals := U } = .ok exits' { v with globals := U } ∧
      ∀ stack, stack ∈ exits' ↔ stack ∈ exits := by
  obtain ⟨g, built, -, -, outcome⟩ := check_eq_ok checked
  rcases outcome with ⟨empty, -, -, -⟩ | ⟨filled, s, searched, table, rfl⟩
  · rcases check_alike_of_empty v { v with globals := U } built empty with
      ⟨exits', first, second⟩ | ⟨e, failed, -⟩
    · cases checked.symm.trans first
      exact ⟨exits, second, fun _ => .rfl⟩
    · cases checked.symm.trans failed
  · obtain ⟨sites, cut⟩ := Flow.cut_of_build built
    have searched := search_eq_searchBy.symm.trans searched
    rw [table] at le
    have walks : Search.Walks ⟨v.program, f, v.maxStack⟩ g s.globals _ :=
      fun route walked => follows_of_search cut filled searched walked
    have agreed := (traced_of_search searched).begun
    obtain ⟨s', searched', same⟩ := searchBy_of_walks (d := .first) (walks.settled agreed le)
    refine ⟨s'.exits.map List.reverse, ?_, fun stack => ?_⟩
    · rw [check_eq_checkBy, checkBy, checkWith_eq _ built filled, searched', conclude, same]
    -- a stack leaves the one search exactly if it leaves the other
    · have exits (left : List Ty) : left ∈ s'.exits ↔ left ∈ s.exits := by
        rw [mem_exits_of_search cut filled searched', mem_exits_of_search cut filled searched, same]
        exact Scope.leaving_settled_iff walks agreed le
      simp only [List.mem_map, exits]

theorem checkAll_append {before others : List Function} {v v' : Verifier}
    (done : checkAll (before ++ others) v = .ok () v') :
    ∃ between, checkAll before v = .ok () between ∧ checkAll others between = .ok () v' := by
  induction before generalizing v with
  | nil => exact ⟨v, rfl, done⟩
  | cons f before ih =>
    obtain ⟨exits, next, first, done⟩ := checkAll_eq_ok_cons done
    obtain ⟨between, rest, done⟩ := ih done
    refine ⟨between, ?_, done⟩
    change EStateM.bind (check f) (fun _ => checkAll before) v = _
    unfold EStateM.bind
    rw [first]
    exact rest

theorem checkAll_again {fs : List Function} {v v' : Verifier} {U : Table Ty}
    (done : checkAll fs v = .ok () v') (le : v'.globals.Le U) :
    checkAll fs { v with globals := U } = .ok () { v with globals := U } := by
  induction fs generalizing v with
  | nil => rfl
  | cons f fs ih =>
    obtain ⟨exits, between, first, others⟩ := checkAll_eq_ok_cons done
    obtain ⟨g, -, program, limit, -⟩ := check_eq_ok first
    have later := (checked_of_checkAll others).1
    obtain ⟨exits', again, -⟩ := check_again first (later.trans le)
    have rest := ih others
    change EStateM.bind (check f) (fun _ => checkAll fs) _ = _
    unfold EStateM.bind
    rw [again]
    rwa [program, limit] at rest

/-! ### Requests -/

/-- What a verifier can be asked for. -/
inductive Request where
  | verify
  | check (f : Function)

/-- The verifier that an answer leaves, also when it is an error. -/
def left {α : Type} : EStateM.Result Error Verifier α → Verifier
  | .ok _ v => v
  | .error _ v => v

/-- The verifier after a request, be it met or not. -/
def after (v : Verifier) : Request → Verifier
  | .verify => left (verify v)
  | .check f => left (check f v)

/-- The other verifier is the same but for what it has learnt in addition. -/
structure Learns (v v' : Verifier) : Prop where
  globals : v.globals.Le v'.globals
  program : v'.program = v.program
  limit : v'.maxStack = v.maxStack

theorem Learns.refl (v : Verifier) : v.Learns v := ⟨.refl _, rfl, rfl⟩

theorem Learns.trans {v v' v'' : Verifier} (first : v.Learns v') (second : v'.Learns v'') : v.Learns v'' :=
  ⟨first.globals.trans second.globals, second.program.trans first.program, second.limit.trans first.limit⟩

/-- With all that the other one knows it is the other one. -/
theorem Learns.eq {v v' : Verifier} (learns : v.Learns v') : { v with globals := v'.globals } = v' := by
  obtain ⟨-, program, limit⟩ := learns
  rw [← program, ← limit]

/-- A search that fails keeps what it knew at the start. -/
theorem le_of_searchBy_error {d : Discipline} {c : Scope} {g : Graph} {T : Table Ty} {failure : Failure}
    (failed : c.searchBy d g T = .error failure) : T.Le failure.globals := by
  obtain ⟨s, sound, stuck⟩ :=
    (Search.runBy_invariant (fun _ _ sound => sound.stepBy) Search.sound_start).2 failure failed
  obtain ⟨v, rest, block, pending, -, visited⟩ := Search.step_eq_error stuck
  have sound := sound.advanced (d s)
  have first : v ∈ (s.advanced (d s)).pending := by
    rw [pending]
    exact List.mem_cons_self
  exact sound.grown.trans (Scope.visit_error (sound.agreed v (.inl first)).2 visited).2.1

theorem learns_check (f : Function) (v : Verifier) : v.Learns (left (check f v)) := by
  cases built : Graph.build f.code with
  | error e =>
    rw [check_of_error v built]
    exact .refl v
  | ok g =>
    by_cases empty : g.blocks.isEmpty = true
    · rcases check_of_empty v built empty with checked | ⟨cause, failed⟩
      · rw [checked]
        exact .refl v
      · rw [failed]
        exact .refl v
    · have filled : g.blocks.isEmpty = false := by simpa using empty
      rw [check_eq_checkBy, checkBy, checkWith_eq v built filled]
      cases searched : Scope.searchBy .first ⟨v.program, f, v.maxStack⟩ g v.globals with
      | ok s => exact ⟨(closed_of_searchBy searched).1, rfl, rfl⟩
      | error failure => exact ⟨le_of_searchBy_error searched, rfl, rfl⟩

theorem learns_checkAll (fs : List Function) (v : Verifier) : v.Learns (left (checkAll fs v)) := by
  induction fs generalizing v with
  | nil => exact .refl v
  | cons f fs ih =>
    have first := learns_check f v
    change v.Learns (left (EStateM.bind (check f) (fun _ => checkAll fs) v))
    unfold EStateM.bind
    cases checked : check f v with
    | ok exits between =>
      rw [checked] at first
      exact first.trans (ih between)
    | error e v' =>
      rw [checked] at first
      exact first

theorem learns_after (v : Verifier) (request : Request) : v.Learns (v.after request) := by
  cases request with
  | verify => exact learns_checkAll v.program.functions v
  | check f => exact learns_check f v

theorem learns_requests (requests : List Request) (v : Verifier) :
    v.Learns (requests.foldl after v) := by
  induction requests generalizing v with
  | nil => exact .refl v
  | cons request requests ih => exact (v.learns_after request).trans (ih _)

/-- A program that was verified is verified again by a verifier that knows more. -/
theorem verify_again {v v' w : Verifier} (verified : verify v = .ok () v') (learns : v'.Learns w) :
    verify w = .ok () w := by
  have done : checkAll v.program.functions v = .ok () v' := verified
  have learnt : v.Learns v' := by
    have learns := learns_checkAll v.program.functions v
    rwa [done] at learns
  have again := checkAll_again done learns.globals
  rw [(learnt.trans learns).eq, ← (learnt.trans learns).program] at again
  exact again

/-- Its functions are left with the same stacks. -/
theorem exits_again {v v' w : Verifier} {f : Function} {before others : List Function}
    (done : checkAll (before ++ f :: others) v = .ok () v') (learns : v'.Learns w) :
    ∃ between exits next exits', checkAll before v = .ok () between ∧ check f between = .ok exits next ∧
      checkAll before w = .ok () w ∧ check f w = .ok exits' w ∧ ∀ stack, stack ∈ exits' ↔ stack ∈ exits := by
  obtain ⟨between, earlier, done⟩ := checkAll_append done
  obtain ⟨exits, next, checked, later⟩ := checkAll_eq_ok_cons done
  -- what the verifier knew at each of these moments
  have first := learns_checkAll before v
  have second := learns_check f between
  have third := learns_checkAll others next
  rw [earlier] at first
  rw [checked] at second
  rw [later] at third
  have known : next.Learns w := third.trans learns
  have known' : between.Learns w := second.trans known
  have again := checkAll_again earlier known'.globals
  obtain ⟨exits', checked', same⟩ := check_again checked known.globals
  rw [(first.trans known').eq] at again
  rw [known'.eq] at checked'
  exact ⟨between, exits, next, exits', earlier, checked, again, checked', same⟩

/-- Whatever is asked of a verifier, it keeps the types of globals that it knows. A program that it verified
is verified again later on, which teaches it nothing; and each function, checked in its turn, is left with
the same stacks as the first time. -/
theorem verification_repeats (v : Verifier) :
    (∀ (requests : List Request) (i : Nat) (t : Ty), v.globals.get? i = some t →
      (requests.foldl after v).globals.get? i = some t) ∧
    ∀ v', verify v = .ok () v' → ∀ requests : List Request,
      let w := requests.foldl after v'
      verify w = .ok () w ∧
        ∀ before f others, v.program.functions = before ++ f :: others →
          ∃ between exits next exits', checkAll before v = .ok () between ∧
            check f between = .ok exits next ∧ checkAll before w = .ok () w ∧
            check f w = .ok exits' w ∧ ∀ stack, stack ∈ exits' ↔ stack ∈ exits := by
  constructor
  · intro requests i t known
    exact (learns_requests requests v).globals i t known
  · intro v' verified requests w
    have learns : v'.Learns w := learns_requests requests v'
    refine ⟨verify_again verified learns, fun before f others functions => ?_⟩
    have done : checkAll v.program.functions v = .ok () v' := verified
    rw [functions] at done
    exact exits_again done learns

/-- Entry code that writes a global, and a function that goes round a loop and writes another one. -/
def touring : Program where
  code := Instruction.assemble [⟨.const .f64, [1]⟩, ⟨.globalSet, [1]⟩]
  constants := #[.function rounds]
  types := #[]

/-- It is verified again after a request that failed, with both globals known from the start. -/
theorem touring_repeats :
    let v : Verifier := .new touring {}
    let v' : Verifier := { v with globals := { entries := [some .i32, some (.scalar .f64)] } }
    let w : Verifier := [Request.check clash].foldl after v'
    verify v = .ok () v' ∧ v'.globals.get? 0 = some .i32 ∧ w.globals.get? 0 = some .i32 ∧
      verify w = .ok () w ∧ touring.functions = [touring.entry] ++ rounds :: [] ∧
      ∃ between exits next exits', checkAll [touring.entry] v = .ok () between ∧
        check rounds between = .ok exits next ∧ checkAll [touring.entry] w = .ok () w ∧
        check rounds w = .ok exits' w ∧ ∀ stack, stack ∈ exits' ↔ stack ∈ exits := by
  intro v v' w
  have verified : verify v = .ok () v' :=
    verify_of_tableWithin (n := 20) (by decide +kernel)
  have known : v'.globals.get? 0 = some .i32 := rfl
  obtain ⟨again, exits⟩ := (verification_repeats v).2 v' verified [.check clash]
  exact ⟨verified, known, (verification_repeats v').1 [.check clash] 0 .i32 known, again, rfl,
    exits [touring.entry] rounds [] rfl⟩

end Verifier

end StackVM
