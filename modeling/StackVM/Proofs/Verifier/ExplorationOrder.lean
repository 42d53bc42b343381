import StackVM.Proofs.Verifier.Routes

/-!
# The order in which paths are explored

Main statement: whatever discipline picks the next pending visit, a check ends with the same verdict, and
lists the same stacks, unless the two checks have recorded different types for some global
(`check_any_order`). Those are then types of references, and one of them is `ref`: the first write that is
explored fixes the type, and `ref` goes with every other type of references, so each order may accept the
writes that the other one met and yet read another type afterwards. Such a function exists
(`order_decides`).

The proof sets a search in any order against one that succeeded. As long as the search has recorded
nothing that the other table does not say, every visit lies on a route that can be followed under that
table, and goes the same way. When it records something else, it has done so for good.
-/

namespace StackVM

namespace Ty

/-- Types that go together without being equal are `ref` and another type of references. -/
theorem accepts_of_ne {t u : Ty} (accepted : t.accepts u = true) (differ : u ≠ t) :
    (t = .ref ∧ u.isRef = true) ∨ (u = .ref ∧ t.isRef = true) := by
  unfold accepts at accepted
  split at accepted
  · next general => exact .inl ⟨general, accepted⟩
  · split at accepted
    · next general => exact .inr ⟨general, accepted⟩
    · exact absurd (of_decide_eq_true accepted).symm differ

end Ty

/-- One of the tables gives a global the type `ref`, where the other one gives it a type of references
that tells more. -/
def Table.Disagree (T U : Table Ty) : Prop :=
  ∃ i t, t ≠ .ref ∧ t.isRef = true ∧
    ((T.get? i = some .ref ∧ U.get? i = some t) ∨ (T.get? i = some t ∧ U.get? i = some .ref))

namespace Table

variable {T T' U : Table Ty}

theorem Disagree.symm (disagree : T.Disagree U) : U.Disagree T := by
  obtain ⟨i, t, telling, isRef, ⟨first, second⟩ | ⟨first, second⟩⟩ := disagree
  · exact ⟨i, t, telling, isRef, .inr ⟨second, first⟩⟩
  · exact ⟨i, t, telling, isRef, .inl ⟨second, first⟩⟩

theorem Disagree.mono (disagree : T.Disagree U) (le : T.Le T') : T'.Disagree U := by
  obtain ⟨i, t, telling, isRef, recorded⟩ := disagree
  refine ⟨i, t, telling, isRef, recorded.imp ?_ ?_⟩
  · exact And.imp_left (le i _)
  · exact And.imp_left (le i _)

/-- A type that fits what `U` says about a global is the one that `U` gives, or disagrees with it. -/
theorem put_below {i : Nat} {t u : Ty} (le : T.Le U) (known : U.get? i = some u)
    (fits : u.accepts t = true) : (t = u ∧ (T.put i t).Le U) ∨ (T.put i t).Disagree U := by
  by_cases same : t = u
  · subst same
    exact .inl ⟨rfl, put_le le known⟩
  · right
    have here : (T.put i t).get? i = some t := by simp
    rcases Ty.accepts_of_ne fits same with ⟨rfl, isRef⟩ | ⟨rfl, isRef⟩
    · exact ⟨i, t, same, isRef, .inr ⟨here, known⟩⟩
    · exact ⟨i, u, Ne.symm same, isRef, .inl ⟨here, known⟩⟩

end Table

namespace Verifier

namespace Scope

variable {c : Scope} {g : Graph} {T U : Table Ty} {p p' start : Path} {inst : Instruction} {index : Nat}
  {block : Block} {ls : List Located}

/-! ### Rules under a smaller table -/

/-- What a rule or a row of rules leaves, where it leads to the path `p'` under the table `U`: that path and
nothing that `U` does not say, or a table that disagrees with it. -/
def Within (U : Table Ty) (p' : Path) (s' : State) : Prop :=
  (s'.toPath = p' ∧ s'.globals.Le U) ∨ s'.globals.Disagree U

theorem writeGlobal_below {i : Nat} {t u : Ty} (le : T.Le U) (known : U.get? i = some u)
    (fits : u.accepts t = true) :
    ∃ s', writeGlobal i t ⟨p, T⟩ = .ok ((), s') ∧ Within U ⟨p.stack, p.recorded.put i u⟩ s' := by
  cases recorded : T.get? i with
  | some v =>
    cases (le i v recorded).symm.trans known
    exact ⟨_, writeGlobal_known recorded fits, .inl ⟨rfl, le⟩⟩
  | none =>
    refine ⟨_, writeGlobal_unknown recorded, ?_⟩
    rcases Table.put_below le known fits with ⟨rfl, le'⟩ | disagree
    · exact .inl ⟨rfl, le'⟩
    · exact .inr disagree

/-- A rule that leads on under a table does the same under a smaller one that knows what the path has
written, except that it may record another type. -/
theorem Transfers.apply_below (transfer : c.Transfers U inst p p') (le : T.Le U) (agreed : p.Known T) :
    ∃ s', c.apply inst ⟨p, T⟩ = .ok ((), s') ∧ Within U p' s' := by
  by_cases names : inst.namesGlobal = true
  · cases transfer with
    | globalGet index recorded known room =>
      -- the path has written the global, so the smaller table knows its type too
      have here : c.Transfers T _ _ _ := .globalGet index recorded (agreed _ _ recorded) room
      exact ⟨_, here.apply_eq, .inl ⟨rfl, le⟩⟩
    | globalSet index known fits above =>
      subst index
      obtain ⟨s', wrote, outcome⟩ := writeGlobal_below le known fits
      exact ⟨s', popAny_bind_iff.2 ⟨_, _, rfl, above, wrote⟩, outcome⟩
    | @globalTee _ t _ rest w _ index known fits above room =>
      subst index
      obtain ⟨s', wrote, outcome⟩ := writeGlobal_below (p := ⟨t :: rest, w⟩) le known fits
      refine ⟨s', popAny_bind_iff.2 ⟨_, _, rfl, above, ?_⟩, outcome⟩
      exact push_bind_iff.2 ⟨room, wrote⟩
    | _ => cases names
  -- any other rule does not ask the table
  · have here : c.Transfers T inst p p' := transfer.under fun yes => absurd yes names
    exact ⟨_, here.apply_eq, .inl ⟨rfl, le⟩⟩

/-! ### Visits under a smaller table -/

/-- The table that rules leave, also when they fail. -/
def tableLeft : Except Failure State → Table Ty
  | .ok s => s.globals
  | .error failure => failure.globals

theorem le_tableLeft_through (agreed : p.Known T) : T.Le (tableLeft (c.through index ls ⟨p, T⟩)) := by
  cases done : c.through index ls ⟨p, T⟩ with
  | ok s => exact (along_of_through agreed done).1
  | error failure => exact (through_error agreed done).2.1

/-- Looking at the results changes no table. -/
theorem tableLeft_visit {s : State} :
    tableLeft (c.visit index block s) = tableLeft (c.through index block.body s) := by
  cases done : c.visit index block s with
  | ok s' => rw [(visit_eq_ok done).1]
  | error failure =>
    rcases visit_eq_error done with failed | ⟨s', cause, through, -, -, rfl⟩
    · rw [failed]
    · rw [through]
      rfl

theorem through_below (along : c.Along U ls p p') (le : T.Le U) (agreed : p.Known T) :
    (∃ T', c.through index ls ⟨p, T⟩ = .ok ⟨p', T'⟩ ∧ T'.Le U) ∨
      (tableLeft (c.through index ls ⟨p, T⟩)).Disagree U := by
  induction ls generalizing p T with
  | nil =>
    cases along
    exact .inl ⟨T, rfl, le⟩
  | cons l ls ih =>
    obtain ⟨q, transfer, rest⟩ := along
    obtain ⟨s', applied, outcome⟩ := transfer.apply_below le agreed
    have unfolded : c.through index (l :: ls) ⟨p, T⟩ = c.through index ls s' := by
      simp only [through, applied]
    rw [unfolded]
    obtain ⟨grown, here⟩ := transfers_of_apply agreed applied
    have agreed' : s'.toPath.Known s'.globals := here.known (agreed.mono grown)
    rcases outcome with ⟨rfl, le'⟩ | disagree
    · exact ih rest le' agreed'
    · exact .inr (disagree.mono (le_tableLeft_through agreed'))

theorem visit_below (visited : c.visit index block ⟨p, U⟩ = .ok ⟨p', U⟩) (le : T.Le U)
    (agreed : p.Known T) :
    (∃ T', c.visit index block ⟨p, T⟩ = .ok ⟨p', T'⟩ ∧ T'.Le U) ∨
      (tableLeft (c.visit index block ⟨p, T⟩)).Disagree U := by
  obtain ⟨through, off⟩ := visit_eq_ok visited
  rw [tableLeft_visit]
  rcases through_below (along_of_through (agreed.mono le) through).2 le agreed with ⟨T', done, le'⟩ | disagree
  · exact .inl ⟨T', visit_of_through done off, le'⟩
  · exact .inr disagree

end Scope

/-! ### Searches against a finished one -/

namespace Search

variable {c : Scope} {g : Graph} {U : Table Ty} {start : Path} {s s' : Search} {d : Discipline}

/-- All routes can be followed when `U` gives the types of the globals. -/
def Walks (c : Scope) (g : Graph) (U : Table Ty) (start : Path) : Prop :=
  ∀ route, g.Route route → ∃ path, c.Follows g U start route path

/-- What holds throughout a search, if all routes can be followed under `U`: it has recorded nothing else
than `U`, or it disagrees with it. -/
def Below (c : Scope) (g : Graph) (U : Table Ty) (start : Path) (s : Search) : Prop :=
  Traced c g start s ∧ (s.globals.Le U ∨ s.globals.Disagree U)

theorem Below.advanced (below : Below c g U start s) (i : Nat) : Below c g U start (s.advanced i) := by
  have globals : (s.advanced i).globals = s.globals := by rw [s.advanced_eq i]
  unfold Below
  rw [globals]
  exact ⟨below.1.advanced i, below.2⟩

theorem Traced.visit_below {v : Visit} {block : Block} (traced : Traced c g start s)
    (le : s.globals.Le U) (walks : Walks c g U start) (waiting : v ∈ s.pending)
    (at_block : g.blocks[v.block]? = some block) :
    (∃ p' T', c.visit v.block block ⟨v.path, s.globals⟩ = .ok ⟨p', T'⟩ ∧ T'.Le U) ∨
      (Scope.tableLeft (c.visit v.block block ⟨v.path, s.globals⟩)).Disagree U := by
  obtain ⟨before, route, follows⟩ := traced.waiting v waiting
  obtain ⟨path, walked⟩ := walks _ route
  cases walked with
  | block upTo at_i visited =>
    -- the route leads to the same path under both tables
    cases at_i.symm.trans at_block
    cases upTo.unique (follows.mono traced.begun le)
    have agreed := follows.known traced.begun
    rcases Scope.visit_below visited le agreed with ⟨T', done, le'⟩ | disagree
    · exact .inl ⟨_, T', done, le'⟩
    · exact .inr disagree

theorem Below.step (below : Below c g U start s) (walks : Walks c g U start)
    (stepped : s.step c g = .ok (some s')) : Below c g U start s' := by
  obtain ⟨traced, table⟩ := below
  refine ⟨traced.step stepped, ?_⟩
  obtain ⟨v, rest, pending, taken⟩ := step_eq_some stepped
  rcases taken with ⟨rfl, -⟩ | ⟨block, after, at_block, -, visited, rfl⟩
  -- a visit that brings nothing new leaves the table alone
  · exact table
  · have first : v ∈ s.pending := by
      rw [pending]
      exact List.mem_cons_self
    have grown := (Scope.visit_mono (traced.agreed v (.inl first)).2 visited).1
    rcases table with le | disagree
    · rcases traced.visit_below le walks first at_block with ⟨p', T', done, le'⟩ | disagree
      · cases visited.symm.trans done
        exact .inl le'
      · rw [visited] at disagree
        exact .inr disagree
    · exact .inr (disagree.mono grown)

theorem Below.stepBy (below : Below c g U start s) (walks : Walks c g U start)
    (stepped : s.stepBy d c g = .ok (some s')) : Below c g U start s' :=
  (below.advanced (d s)).step walks stepped

/-- Only after it has recorded something else can a search fail where all routes can be followed. -/
theorem Below.error {failure : Failure} (below : Below c g U start s) (walks : Walks c g U start)
    (failed : s.step c g = .error failure) : failure.globals.Disagree U := by
  obtain ⟨traced, table⟩ := below
  obtain ⟨v, rest, block, pending, at_block, visited⟩ := step_eq_error failed
  have first : v ∈ s.pending := by
    rw [pending]
    exact List.mem_cons_self
  rcases table with le | disagree
  · rcases traced.visit_below le walks first at_block with ⟨p', T', done, -⟩ | disagree
    · rw [visited] at done
      cases done
    · rwa [visited] at disagree
  · exact disagree.mono (Scope.visit_error (traced.agreed v (.inl first)).2 visited).2.1

end Search

section Searches

variable {d d' : Discipline} {c : Scope} {g : Graph} {sites : List Site} {T : Table Ty} {s s' : Search}

theorem below_start (searched : c.searchBy d g T = .ok s) :
    Search.Below c g s.globals ⟨c.entryStack, T⟩ (.start c T) :=
  ⟨Search.traced_start, .inl (closed_of_searchBy searched).1⟩

/-- Against a search that succeeded, one that succeeds in another order has recorded nothing else, or its
table disagrees. -/
theorem le_or_disagree (cut : Flow.Cut c.function.code g sites) (filled : g.blocks.isEmpty = false)
    (searched : c.searchBy d g T = .ok s) (other : c.searchBy d' g T = .ok s') :
    s'.globals.Le s.globals ∨ s'.globals.Disagree s.globals := by
  have walks : Search.Walks c g s.globals ⟨c.entryStack, T⟩ :=
    fun route walked => follows_of_search cut filled searched walked
  exact ((Search.runBy_invariant (fun s s' below stepped => below.stepBy walks stepped)
    (below_start searched)).1 s' other).1.2

/-- Against a search that succeeded, one that fails in another order leaves a table that disagrees. -/
theorem disagree_of_error {failure : Failure} (cut : Flow.Cut c.function.code g sites)
    (filled : g.blocks.isEmpty = false) (searched : c.searchBy d g T = .ok s)
    (other : c.searchBy d' g T = .error failure) : failure.globals.Disagree s.globals := by
  have walks : Search.Walks c g s.globals ⟨c.entryStack, T⟩ :=
    fun route walked => follows_of_search cut filled searched walked
  obtain ⟨s', below, failed⟩ := (Search.runBy_invariant
    (fun s s' below stepped => below.stepBy walks stepped) (below_start searched)).2 failure other
  exact (below.advanced (d' s')).error walks failed

/-- Searches that succeed and leave tables with the same types have the same exits. -/
theorem mem_exits_le (cut : Flow.Cut c.function.code g sites) (filled : g.blocks.isEmpty = false)
    (searched : c.searchBy d g T = .ok s) (other : c.searchBy d' g T = .ok s')
    (le : s.globals.Le s'.globals) {stack : List Ty} (exit : stack ∈ s.exits) : stack ∈ s'.exits := by
  obtain ⟨i, before, block, path, route, at_i, leaves, follows, same⟩ :=
    (mem_exits_of_search cut filled searched).1 exit
  apply (mem_exits_of_search cut filled other).2
  exact ⟨i, before, block, path, route, at_i, leaves, follows.mono (closed_of_searchBy searched).1 le, same⟩

end Searches

/-! ### Verdicts -/

/-- Both checks fail, or both succeed and list the same stacks. -/
def SameVerdict : EStateM.Result Error Verifier (List (List Ty)) →
    EStateM.Result Error Verifier (List (List Ty)) → Prop
  | .ok exits _, .ok exits' _ => ∀ stack, stack ∈ exits ↔ stack ∈ exits'
  | .error _ _, .error _ _ => True
  | _, _ => False

/-- The types of globals that are known after a check, also when it fails. -/
def globalsLeft {α : Type} : EStateM.Result Error Verifier α → Table Ty
  | .ok _ v => v.globals
  | .error _ v => v.globals

theorem SameVerdict.refl (answer : EStateM.Result Error Verifier (List (List Ty))) :
    SameVerdict answer answer := by
  cases answer with
  | ok exits v => exact fun stack => .rfl
  | error e v => trivial

/-- Two searches through the same code, in whatever orders, lead to the same verdict or leave tables that
disagree. -/
theorem searches_agree {d d' : Discipline} {c : Scope} {g : Graph} {sites : List Site} {T : Table Ty}
    (cut : Flow.Cut c.function.code g sites) (filled : g.blocks.isEmpty = false) (v : Verifier) :
    SameVerdict (v.conclude (c.searchBy d g T)) (v.conclude (c.searchBy d' g T)) ∨
      (globalsLeft (v.conclude (c.searchBy d g T))).Disagree
        (globalsLeft (v.conclude (c.searchBy d' g T))) := by
  cases searched : c.searchBy d g T with
  | ok s =>
    cases other : c.searchBy d' g T with
    | ok s' =>
      -- neither table says more than the other, or they disagree
      rcases le_or_disagree cut filled searched other with le | disagree
      · rcases le_or_disagree cut filled other searched with le' | disagree
        · left
          intro stack
          constructor
          · intro mem
            obtain ⟨left, exit, rfl⟩ := List.mem_map.1 mem
            exact List.mem_map_of_mem (mem_exits_le cut filled searched other le' exit)
          · intro mem
            obtain ⟨left, exit, rfl⟩ := List.mem_map.1 mem
            exact List.mem_map_of_mem (mem_exits_le cut filled other searched le exit)
        · exact .inr disagree
      · exact .inr disagree.symm
    | error failure => exact .inr (disagree_of_error cut filled searched other).symm
  | error failure =>
    cases other : c.searchBy d' g T with
    | ok s' => exact .inr (disagree_of_error cut filled other searched)
    | error failure' => exact .inl trivial

/-- A check tells the same in every order, but for the choice between `ref` and other types of references
that the first write of a global makes. Whatever discipline picks the next pending visit, the verdict and,
on success, the set of stacks with which the function can be left are those of the verifier, or for some
global one check has recorded `ref` and the other one a type of references that tells more. -/
theorem check_any_order (d : Discipline) (f : Function) (v : Verifier) :
    SameVerdict (check f v) (checkBy d f v) ∨
      (globalsLeft (check f v)).Disagree (globalsLeft (checkBy d f v)) := by
  rw [check_eq_checkBy]
  cases built : Graph.build f.code with
  -- without a graph or without blocks there is nothing to search
  | error e =>
    have same : checkBy d f v = checkBy .first f v := by
      unfold checkBy checkWith
      simp only [Check.get_bind, built]
    rw [same]
    exact .inl (.refl _)
  | ok g =>
    by_cases empty : g.blocks.isEmpty = true
    · have same : checkBy d f v = checkBy .first f v := by
        unfold checkBy checkWith
        simp only [Check.get_bind, built, empty, if_true]
      rw [same]
      exact .inl (.refl _)
    · have filled : g.blocks.isEmpty = false := by simpa using empty
      obtain ⟨sites, cut⟩ := Flow.cut_of_build built
      simp only [checkBy, checkWith_eq v built filled]
      exact searches_agree cut filled v

/-- One of two branches stores null into a global, the other one a string, and after them the global is
taken for an array. -/
def nullOrString : Program where
  code := Instruction.assemble
    [⟨.const .i32, [1]⟩, ⟨.brIf, [9]⟩, ⟨.refNull, []⟩, ⟨.globalSet, [0]⟩, ⟨.br, [6]⟩, ⟨.constGet, [0]⟩,
      ⟨.globalSet, [0]⟩, ⟨.globalGet, [0]⟩, ⟨.arrayLen, []⟩]
  constants := #[.string "s"]
  types := #[]

/-- The branch that stores null is found first, and the global may then hold any reference. If the other
branch is explored first, the global holds strings, and the code is refused. -/
theorem order_decides :
    let v : Verifier := .new nullOrString {}
    check nullOrString.entry v = .ok [[.i32]] { v with globals := { entries := [some .ref] } } ∧
      checkBy .last nullOrString.entry v =
        .error ⟨.typeMismatch, some 28, some 3⟩ { v with globals := { entries := [some .string] } } ∧
      ¬ SameVerdict (check nullOrString.entry v) (checkBy .last nullOrString.entry v) := by
  intro v
  obtain ⟨nonempty, answered, searched⟩ :
      0 < nullOrString.entry.code.size ∧
        answerWithin 20 nullOrString.entry v = some (.ok ([[.i32]], { entries := [some .ref] })) ∧
        (Graph.build nullOrString.entry.code).toOption.map (fun g =>
          (g.blocks.isEmpty, (Search.start ⟨v.program, nullOrString.entry, v.maxStack⟩ v.globals).endBy .last
            ⟨v.program, nullOrString.entry, v.maxStack⟩ g 20)) =
          some (false, some (.error ⟨⟨.typeMismatch, some 28, some 3⟩, { entries := [some .string] }⟩)) := by
    decide +kernel
  have checked := check_of_answerWithin nonempty answered
  have refused : checkBy .last nullOrString.entry v =
      .error ⟨.typeMismatch, some 28, some 3⟩ { v with globals := { entries := [some .string] } } := by
    cases built : Graph.build nullOrString.entry.code with
    | error e =>
      rw [built] at searched
      cases searched
    | ok g =>
      rw [built] at searched
      obtain ⟨filled, ended⟩ := Prod.mk.inj (Option.some.inj searched)
      exact checkBy_of_endBy v built filled ended
  refine ⟨checked, refused, ?_⟩
  rw [checked, refused]
  exact id

end Verifier

end StackVM
