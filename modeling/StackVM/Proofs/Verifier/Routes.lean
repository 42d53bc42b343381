import Mathlib.Data.List.Nodup
import StackVM.Proofs.Flow.Landing
import StackVM.Proofs.Verifier.Fixpoint

/-!
# All paths through a function

A route is a row of blocks, each a successor of the one before, that begins with the first block. It is
followed by applying the rules of its blocks one after the other while the table of globals stays as it
is. Main statement: a check of a function tells exactly what following every route would
(`check_routes`). If the check succeeds, all routes can be followed under the table that it leaves, and
its answer lists the stacks with which they leave the function; if it fails in a block, some route fails
there in the same way.

The search keeps one visit for all routes that reach a block with the same stack and the same globals
written, whose types are those of the table, and it makes the visit under the table of that moment. Nothing is lost by that: the table only
grows, and a rule that was applied under a table does the same under every larger one.
-/

namespace StackVM

/-- The blocks that control can pass one after the other from the start of the code, the latest first. -/
inductive Graph.Route (g : Graph) : List Nat → Prop where
  | entry : Route g [0]
  | edge {i j : Nat} {before : List Nat} {block : Block} (route : Route g (i :: before))
    (at_i : g.blocks[i]? = some block) (succ : j ∈ block.succs) : Route g (j :: i :: before)

namespace Verifier

namespace Scope

/-- Following the blocks, the latest first, from the path `start` leads to another path, when `T` gives the
types of all globals. -/
inductive Follows (c : Scope) (g : Graph) (T : Table Ty) (start : Path) : List Nat → Path → Prop where
  | start : Follows c g T start [] start
  | block {i : Nat} {before : List Nat} {block : Block} {p p' : Path} (upTo : Follows c g T start before p)
    (at_i : g.blocks[i]? = some block) (visited : c.visit i block ⟨p, T⟩ = .ok ⟨p', T⟩) :
    Follows c g T start (i :: before) p'

variable {c : Scope} {g : Graph} {T T' : Table Ty} {start p p' : Path} {s' : State} {index : Nat}
  {block : Block} {failure : Failure}

/-! ### Rules under a larger table -/

theorem through_of_along {ls : List Located} (along : c.Along T ls p p') :
    c.through index ls ⟨p, T⟩ = .ok ⟨p', T⟩ := by
  induction ls generalizing p with
  | nil =>
    cases along
    rfl
  | cons l ls ih =>
    obtain ⟨q, transfer, rest⟩ := along
    simp only [through, transfer.apply_eq]
    exact ih rest

/-- Applying the rules of a block is applying those of its instructions and, where control runs off the
end, looking at the results. -/
theorem visit_of_through {s : State} (through : c.through index block.body s = .ok s')
    (off : c.runsOff block = true → c.checkResults c.floor s'.stack = .ok ()) :
    c.visit index block s = .ok s' := by
  unfold visit
  rw [through]
  by_cases runs : c.runsOff block = true
  · simp only [bind, Except.bind, runs, if_true, off runs]
    rfl
  · simp only [bind, Except.bind, runs]
    rfl

theorem visit_of_along (along : c.Along T block.body p p')
    (off : c.runsOff block = true → c.checkResults c.floor p'.stack = .ok ()) :
    c.visit index block ⟨p, T⟩ = .ok ⟨p', T⟩ :=
  visit_of_through (through_of_along along) off

/-- A visit only adds to the table, and would have gone the same way under the larger one. -/
theorem visit_mono (agreed : p.Known T) (visited : c.visit index block ⟨p, T⟩ = .ok s') :
    T.Le s'.globals ∧ s'.toPath.Known s'.globals ∧
      ∀ T', s'.globals.Le T' → c.visit index block ⟨p, T'⟩ = .ok ⟨s'.toPath, T'⟩ := by
  obtain ⟨through, off⟩ := visit_eq_ok visited
  obtain ⟨le, along⟩ := along_of_through agreed through
  refine ⟨le, along.known (agreed.mono le), fun T' le' => ?_⟩
  exact visit_of_along (along.mono le') off

/-- Along a route that begins with types of the table, those of the table are recorded. -/
theorem Follows.known {route : List Nat} (follows : c.Follows g T start route p) (agreed : start.Known T) :
    p.Known T := by
  induction follows with
  | start => exact agreed
  | block _ at_i visited ih => exact (visit_mono ih visited).2.1

theorem Follows.mono {route : List Nat} (follows : c.Follows g T start route p) (agreed : start.Known T)
    (le : T.Le T') : c.Follows g T' start route p := by
  induction follows with
  | start => exact .start
  | block upTo at_i visited ih =>
    exact .block ih at_i ((visit_mono (upTo.known agreed) visited).2.2 T' le)

/-- A route leads to one path at most. -/
theorem Follows.unique {route : List Nat} (follows : c.Follows g T start route p)
    (follows' : c.Follows g T start route p') : p = p' := by
  induction follows generalizing p' with
  | start =>
    cases follows'
    rfl
  | block _ at_i visited ih =>
    cases follows' with
    | block upTo at_i' visited' =>
      cases at_i.symm.trans at_i'
      cases ih upTo
      cases visited.symm.trans visited'
      rfl

/-! ### Visits that fail -/

theorem through_error {ls : List Located} (agreed : p.Known T)
    (failed : c.through index ls ⟨p, T⟩ = .error failure) :
    failure.error.block = some index ∧ T.Le failure.globals ∧
      c.through index ls ⟨p, failure.globals⟩ = .error failure := by
  induction ls generalizing p T with
  | nil => cases failed
  | cons l ls ih =>
    have unfolded := failed
    simp only [through] at failed
    split at failed
    -- the failure comes later, under a table that may have grown
    · next s applied =>
      obtain ⟨le, transfer⟩ := transfers_of_apply agreed applied
      obtain ⟨at_index, le', later⟩ := ih (transfer.known (agreed.mono le)) failed
      refine ⟨at_index, le.trans le', ?_⟩
      simp only [through, (transfer.mono le').apply_eq]
      exact later
    · cases failed
      exact ⟨rfl, .refl T, unfolded⟩

theorem visit_eq_error {s : State} (failed : c.visit index block s = .error failure) :
    c.through index block.body s = .error failure ∨
      ∃ s' cause, c.through index block.body s = .ok s' ∧ c.runsOff block = true ∧
        c.checkResults c.floor s'.stack = .error cause ∧
        failure = ⟨(Error.atOffset cause block.stop).inBlock index, s'.globals⟩ := by
  rcases bind_eq_error failed with failed | ⟨s', through, failed⟩
  · exact .inl failed
  · split at failed
    · next runs =>
      split at failed
      · cases failed
      · next cause checked =>
        cases failed
        exact .inr ⟨s', cause, through, runs, checked, rfl⟩
    · cases failed

/-- A visit that fails would have failed in the same way under the table that it leaves. -/
theorem visit_error (agreed : p.Known T) (failed : c.visit index block ⟨p, T⟩ = .error failure) :
    failure.error.block = some index ∧ T.Le failure.globals ∧
      c.visit index block ⟨p, failure.globals⟩ = .error failure := by
  rcases visit_eq_error failed with failed | ⟨s', cause, through, runs, checked, rfl⟩
  · obtain ⟨at_index, le, again⟩ := through_error agreed failed
    refine ⟨at_index, le, ?_⟩
    unfold visit
    rw [again]
    rfl
  -- the instructions went through, and the results did not fit
  · obtain ⟨le, along⟩ := along_of_through agreed through
    refine ⟨rfl, le, ?_⟩
    unfold visit
    rw [through_of_along along]
    simp only [bind, Except.bind, runs, if_true, checked]
    rfl

/-- The function is left by a return and at the end of its code, unless control goes elsewhere or
nowhere from there. -/
theorem leaves_iff : c.leaves block = true ↔
    block.last = .ret ∨
      block.stop = c.function.code.size ∧ block.last ∉ [.br, .brTable, .unreachable] := by
  simp only [leaves, runsOff, Bool.or_eq_true, Bool.and_eq_true, beq_iff_eq]
  cases block.last <;> simp [Opcode.fallsThrough]

end Scope

/-! ### The search along routes -/

/-- Some route leads into block `i` along the path. -/
def Scope.Arrives (c : Scope) (g : Graph) (T : Table Ty) (start : Path) (i : Nat) (path : Path) : Prop :=
  ∃ before, g.Route (i :: before) ∧ c.Follows g T start before path

theorem Scope.Arrives.mono {c : Scope} {g : Graph} {T T' : Table Ty} {start path : Path} {i : Nat}
    (arrives : c.Arrives g T start i path) (agreed : start.Known T) (le : T.Le T') :
    c.Arrives g T' start i path := by
  obtain ⟨before, route, follows⟩ := arrives
  exact ⟨before, route, follows.mono agreed le⟩

/-- Some route leaves the function with the stack. -/
def Scope.Leaving (c : Scope) (g : Graph) (T : Table Ty) (start : Path) (stack : List Ty) : Prop :=
  ∃ i before block path, g.Route (i :: before) ∧ g.blocks[i]? = some block ∧ c.leaves block = true ∧
    c.Follows g T start (i :: before) path ∧ path.stack = stack

namespace Search

variable {c : Scope} {g : Graph} {start : Path} {s s' : Search}

/-- A visit that was made, after which the stack is among the exits if the function can be left there. -/
def Made (c : Scope) (g : Graph) (T : Table Ty) (exits : List (List Ty)) (v : Visit) : Prop :=
  ∃ block after, g.blocks[v.block]? = some block ∧ c.visit v.block block ⟨v.path, T⟩ = .ok ⟨after, T⟩ ∧
    (c.leaves block = true → after.stack ∈ exits)

/-- What holds throughout a search from the path `start`: it looks only at what lies on a route, and its
exits are those of the visits that were made. -/
structure Traced (c : Scope) (g : Graph) (start : Path) (s : Search) : Prop where
  begun : start.Known s.globals
  agreed : s.Agreed
  waiting : ∀ v ∈ s.pending, c.Arrives g s.globals start v.block v.path
  made : ∀ v ∈ s.seen, Made c g s.globals s.exits v
  distinct : s.exits.Nodup
  left : ∀ stack ∈ s.exits, c.Leaving g s.globals start stack

theorem traced_start {T : Table Ty} :
    Traced c g ⟨c.entryStack, T⟩ (Search.start c T) where
  begun := .refl T
  agreed := agreed_start
  waiting v mem := by
    cases List.mem_singleton.1 mem
    exact ⟨[], .entry, .start⟩
  made v mem := nomatch mem
  distinct := List.nodup_nil
  left stack mem := nomatch mem

theorem Made.mono {T T' : Table Ty} {exits exits' : List (List Ty)} {v : Visit}
    (made : Made c g T exits v) (agreed : v.path.Known T) (le : T.Le T')
    (more : ∀ stack ∈ exits, stack ∈ exits') : Made c g T' exits' v := by
  obtain ⟨block, after, at_block, visited, exit⟩ := made
  refine ⟨block, after, at_block, (Scope.visit_mono agreed visited).2.2 T' le, fun leaves => ?_⟩
  exact more _ (exit leaves)

theorem mem_exits_record {v : Visit} {block : Block} {after : State} {stack : List Ty} :
    stack ∈ (record c s v block after).exits ↔
      stack ∈ s.exits ∨ c.leaves block = true ∧ stack = after.stack := by
  by_cases leaves : c.leaves block = true
  · by_cases known : after.stack ∈ s.exits
    -- the stack was an exit before
    · have same : (record c s v block after).exits = s.exits := by simp [record, known]
      rw [same]
      constructor
      · exact .inl
      · rintro (old | ⟨-, rfl⟩)
        · exact old
        · exact known
    · simp [record, leaves, known]
  · simp [record, leaves]

theorem nodup_record {v : Visit} {block : Block} {after : State} (distinct : s.exits.Nodup) :
    (record c s v block after).exits.Nodup := by
  simp only [record]
  split
  · next fresh =>
    have absent : after.stack ∉ s.exits := by
      intro mem
      simp [mem] at fresh
    rw [List.nodup_append]
    refine ⟨distinct, by simp, fun stack mem last at_end => ?_⟩
    cases List.mem_singleton.1 at_end
    intro same
    exact absent (same ▸ mem)
  · exact distinct

/-- A visit that is made now: what was found under the smaller table stays found, the successors of the
block are reached by routes one block longer, and the stack joins the exits. -/
theorem Traced.record {v : Visit} {rest : List Visit} {block : Block} {after : State}
    (traced : Traced c g start s) (pending : s.pending = v :: rest)
    (agreed : (record c { s with pending := rest } v block after).Agreed)
    (at_block : g.blocks[v.block]? = some block)
    (visited : c.visit v.block block ⟨v.path, s.globals⟩ = .ok after) :
    Traced c g start (record c { s with pending := rest } v block after) := by
  have first : v ∈ s.pending := by
    rw [pending]
    exact List.mem_cons_self
  obtain ⟨le, -, again⟩ := Scope.visit_mono (traced.agreed v (.inl first)).2 visited
  have again := again after.globals (.refl _)
  obtain ⟨before, route, follows⟩ := (traced.waiting v first).mono traced.begun le
  have reached : c.Follows g after.globals start (v.block :: before) after.toPath :=
    .block follows at_block again
  refine ⟨traced.begun.mono le, agreed, ?_, ?_, nodup_record traced.distinct, ?_⟩
  · intro w mem
    rcases List.mem_append.1 mem with mem | mem
    · have later : w ∈ s.pending := by
        rw [pending]
        exact List.mem_cons_of_mem _ mem
      exact (traced.waiting w later).mono traced.begun le
    · obtain ⟨j, succ, rfl⟩ := List.mem_map.1 mem
      exact ⟨v.block :: before, .edge route at_block succ, reached⟩
  · intro w mem
    rcases List.mem_cons.1 mem with rfl | mem
    · refine ⟨block, after.toPath, at_block, again, fun leaves => ?_⟩
      exact mem_exits_record.2 (.inr ⟨leaves, rfl⟩)
    · apply (traced.made w mem).mono (traced.agreed w (.inr mem)).2 le
      intro stack old
      exact mem_exits_record.2 (.inl old)
  · intro stack mem
    rcases mem_exits_record.1 mem with old | ⟨leaves, rfl⟩
    · obtain ⟨i, before', block', path, route', at_i, leaves, follows', same⟩ := traced.left stack old
      exact ⟨i, before', block', path, route', at_i, leaves, follows'.mono traced.begun le, same⟩
    · exact ⟨v.block, before, block, after.toPath, route, at_block, leaves, reached, rfl⟩

theorem Traced.step (traced : Traced c g start s) (stepped : s.step c g = .ok (some s')) :
    Traced c g start s' := by
  obtain ⟨v, rest, pending, taken⟩ := step_eq_some stepped
  rcases taken with ⟨rfl, -⟩ | ⟨block, after, at_block, -, visited, rfl⟩
  · refine { traced with agreed := traced.agreed.step stepped, waiting := fun w mem => traced.waiting w ?_ }
    rw [pending]
    exact List.mem_cons_of_mem _ mem
  · exact traced.record pending (traced.agreed.step stepped) at_block visited

/-- It makes no difference in which order visits are pending. -/
theorem Traced.advanced (traced : Traced c g start s) (i : Nat) : Traced c g start (s.advanced i) := by
  obtain ⟨begun, agreed, waiting, made, distinct, left⟩ := traced
  have agreed := agreed.advanced i
  rw [s.advanced_eq i] at agreed ⊢
  exact ⟨begun, agreed, fun v mem => waiting v ((s.pending_advanced i).mem_iff.1 mem), made, distinct, left⟩

theorem Traced.stepBy {d : Discipline} (traced : Traced c g start s)
    (stepped : s.stepBy d c g = .ok (some s')) : Traced c g start s' :=
  (traced.advanced (d s)).step stepped

/-- A search that fails does so at a visit that lies on a route. -/
theorem Traced.error {failure : Failure} (traced : Traced c g start s)
    (failed : s.step c g = .error failure) :
    ∃ i before block path, failure.error.block = some i ∧ g.Route (i :: before) ∧
      g.blocks[i]? = some block ∧ c.Follows g failure.globals start before path ∧
      c.visit i block ⟨path, failure.globals⟩ = .error failure := by
  obtain ⟨v, rest, block, pending, at_block, visited⟩ := step_eq_error failed
  have first : v ∈ s.pending := by
    rw [pending]
    exact List.mem_cons_self
  obtain ⟨at_index, le, again⟩ := Scope.visit_error (traced.agreed v (.inl first)).2 visited
  obtain ⟨before, route, follows⟩ := (traced.waiting v first).mono traced.begun le
  exact ⟨v.block, before, block, v.path, at_index, route, at_block, follows, again⟩

end Search

/-! ### Every route is visited -/

section Searches

variable {d : Discipline} {c : Scope} {g : Graph} {T : Table Ty} {s : Search}

theorem traced_of_search (searched : c.searchBy d g T = .ok s) :
    Search.Traced c g ⟨c.entryStack, T⟩ s :=
  ((Search.runBy_invariant (fun _ _ traced => traced.stepBy) Search.traced_start).1 s searched).1

/-- Blocks of code lead to blocks. -/
theorem block_of_succ {code : Code} {g : Graph} {sites : List Site} (cut : Flow.Cut code g sites)
    {i j : Nat} {block : Block} (at_i : g.blocks[i]? = some block) (succ : j ∈ block.succs) :
    ∃ block', g.blocks[j]? = some block' := by
  obtain ⟨-, -, succs⟩ := cut.block_eq at_i
  cases ends : (Flow.within sites (block.start, block.stop)).getLast? with
  -- a block starts with an instruction, so it has a last one
  | none =>
    obtain ⟨⟨s, mem, start⟩, nonempty⟩ := cut.start_site at_i
    rw [List.getLast?_eq_none_iff, Flow.within, List.filter_eq_nil_iff] at ends
    have outside := ends s mem
    simp [start, nonempty] at outside
  | some last =>
    rw [succs last ends] at succ
    obtain ⟨⟨range, k⟩, mem, rfl⟩ := List.mem_map.1 succ
    have found := List.mem_zipIdx_iff_getElem?.1 (List.mem_filter.1 mem).1
    obtain ⟨block', at_j, -⟩ := cut.block_of_range found
    exact ⟨block', at_j⟩

/-- A search that ends has visited each route: it was followed, and the block that comes next was entered
along the path to which it leads. -/
theorem visited_of_route {c : Scope} {g : Graph} {sites : List Site} {start : Path} {s : Search}
    (cut : Flow.Cut c.function.code g sites) (closed : Closed c g s.globals s.seen)
    (begun : Visit.of 0 start ∈ s.seen) {i : Nat} {before : List Nat} (route : g.Route (i :: before)) :
    ∃ path, c.Follows g s.globals start before path ∧ Visit.of i path ∈ s.seen := by
  generalize latest : i :: before = way at route
  induction route generalizing i before with
  | entry =>
    cases latest
    exact ⟨start, .start, begun⟩
  | @edge i' j before' block' route at_i succ ih =>
    cases latest
    obtain ⟨path, follows, visited⟩ := ih rfl
    obtain ⟨block, after, at_block, along, off, succs⟩ := (closed _ visited).visit
    have same : some block = some block' := at_block.symm.trans at_i
    cases same
    refine ⟨after, .block follows at_i (Scope.visit_of_along along off), ?_⟩
    rcases succs _ succ with made | nowhere
    · exact made
    · obtain ⟨block'', at_j⟩ := block_of_succ cut at_i succ
      exact absurd (nowhere.symm.trans at_j) (by simp)

/-- A search that succeeds gives all stacks with which routes leave the function, each once. -/
theorem mem_exits_of_search {sites : List Site} (cut : Flow.Cut c.function.code g sites)
    (nonempty : g.blocks.isEmpty = false) (searched : c.searchBy d g T = .ok s) {stack : List Ty} :
    stack ∈ s.exits ↔ c.Leaving g s.globals ⟨c.entryStack, T⟩ stack := by
  have traced := traced_of_search searched
  obtain ⟨-, closed, begun⟩ := closed_of_searchBy searched
  constructor
  · exact traced.left stack
  · rintro ⟨i, before, block, path, route, at_i, leaves, follows, rfl⟩
    obtain ⟨entered, upTo, seen⟩ := visited_of_route cut closed (begun nonempty) route
    obtain ⟨block', after, at_block, visited, exit⟩ := traced.made _ seen
    -- the visit was made to the same block, and it ends where the route does
    cases at_i.symm.trans at_block
    cases follows.unique (.block upTo at_i visited)
    exact exit leaves

/-- Control that comes to the end of the code does so with a stack that the search reports. -/
theorem exit_of_ends {sites : List Site} {path : Path} (nonempty : g.blocks.isEmpty = false)
    (searched : c.searchBy d g T = .ok s) (ends : Survey.Ends ⟨g, sites, s.seen⟩ c s.globals path) :
    path.stack ∈ s.exits := by
  rcases ends with ⟨empty, -⟩ | ⟨v, seen, block, at_v, runs, along⟩
  · rw [nonempty] at empty
    cases empty
  · obtain ⟨block', after, at_block, visited, exit⟩ := (traced_of_search searched).made v seen
    cases at_v.symm.trans at_block
    -- the visit goes through the block as the survey does
    have through := (Scope.visit_eq_ok visited).1
    rw [Scope.through_of_along along] at through
    cases through
    exact exit (by simp [Scope.leaves, runs])

/-- A search that succeeds has followed every route. -/
theorem follows_of_search {sites : List Site} (cut : Flow.Cut c.function.code g sites)
    (nonempty : g.blocks.isEmpty = false) (searched : c.searchBy d g T = .ok s) {route : List Nat}
    (walked : g.Route route) :
    ∃ path, c.Follows g s.globals ⟨c.entryStack, T⟩ route path := by
  have traced := traced_of_search searched
  obtain ⟨-, closed, begun⟩ := closed_of_searchBy searched
  cases route with
  | nil => cases walked
  | cons i before =>
    obtain ⟨entered, upTo, seen⟩ := visited_of_route cut closed (begun nonempty) walked
    obtain ⟨block, after, at_block, visited, -⟩ := traced.made _ seen
    exact ⟨after, .block upTo at_block visited⟩

/-- A search that fails has met a route that fails in the same way. -/
theorem error_of_search {failure : Failure} (searched : c.searchBy d g T = .error failure) :
    ∃ i before block path, failure.error.block = some i ∧ g.Route (i :: before) ∧
      g.blocks[i]? = some block ∧
      c.Follows g failure.globals ⟨c.entryStack, T⟩ before path ∧
      c.visit i block ⟨path, failure.globals⟩ = .error failure := by
  obtain ⟨s, traced, failed⟩ :=
    (Search.runBy_invariant (fun _ _ traced => traced.stepBy) Search.traced_start).2 failure searched
  exact (traced.advanced (d s)).error failed

end Searches

/-! ### What a check tells -/

/-- Code that cannot be cut into blocks is not blamed on a block. -/
theorem build_error_block {code : Code} {e : Error} (failed : Graph.build code = .error e) :
    e.block = none := by
  rcases Flow.build_eq_error failed with ⟨l, -, rfl, -⟩ | undecoded
  · rfl
  · obtain ⟨n, c, -, -, rfl⟩ := Code.undecoded_of_error undecoded
    rfl

/-- How a check of code that is not empty ends: without a graph, or as its search does. -/
theorem check_cases {f : Function} (v : Verifier) (nonempty : 0 < f.code.size) :
    (∃ e, Graph.build f.code = .error e ∧ check f v = .error e v) ∨
      ∃ g, Graph.build f.code = .ok g ∧ g.blocks.isEmpty = false ∧
        ((∃ s, Scope.searchBy .first ⟨v.program, f, v.maxStack⟩ g v.globals = .ok s ∧
            check f v = .ok (s.exits.map List.reverse) { v with globals := s.globals }) ∨
          ∃ failure, Scope.searchBy .first ⟨v.program, f, v.maxStack⟩ g v.globals = .error failure ∧
            check f v = .error failure.error { v with globals := failure.globals }) := by
  cases built : Graph.build f.code with
  | error e => exact .inl ⟨e, rfl, check_of_error v built⟩
  | ok g =>
    obtain ⟨sites, cut⟩ := Flow.cut_of_build built
    have filled : g.blocks.isEmpty = false := by
      rw [Bool.eq_false_iff]
      intro empty
      have := (cut.size_of_empty empty).2
      omega
    refine .inr ⟨g, rfl, filled, ?_⟩
    rw [check_eq_checkBy, checkBy, checkWith_eq v built filled]
    cases searched : Scope.searchBy .first ⟨v.program, f, v.maxStack⟩ g v.globals with
    | ok s => exact .inl ⟨s, rfl, rfl⟩
    | error failure => exact .inr ⟨failure, rfl, rfl⟩

/-- Control that comes to the end of checked code does so with a stack that the check reports. -/
theorem exit_of_check {f : Function} {v v' : Verifier} {exits : List (List Ty)} {g : Graph}
    {sites : List Site} {s : Search} {path : Path} (checked : check f v = .ok exits v')
    (built : Graph.build f.code = .ok g)
    (searched : Scope.search ⟨v.program, f, v.maxStack⟩ g v.globals = .ok s)
    (ends : Survey.Ends ⟨g, sites, s.seen⟩ ⟨v.program, f, v.maxStack⟩ s.globals path) :
    path.stack.reverse ∈ exits := by
  obtain ⟨g', built', -, -, outcome⟩ := check_eq_ok checked
  cases built.symm.trans built'
  rcases outcome with ⟨empty, -, -, rfl⟩ | ⟨nonempty, s', searched', -, rfl⟩
  -- without blocks the entry is the end
  · rcases ends with ⟨-, entry⟩ | ⟨w, -, block, at_w, -⟩
    · rw [entry]
      exact List.mem_singleton_self _
    · simp [Array.isEmpty_iff.1 empty] at at_w
  · cases searched.symm.trans searched'
    exact List.mem_map_of_mem (exit_of_ends nonempty (search_eq_searchBy.symm.trans searched) ends)

/-- How a check ends whose search takes fewer than `n` steps: with exits and a table, or with a failure. -/
def answerWithin (n : Nat) (f : Function) (v : Verifier) :
    Option (Except Failure (List (List Ty) × Table Ty)) :=
  let c : Scope := ⟨v.program, f, v.maxStack⟩
  match Graph.build f.code with
  | .error _ => none
  | .ok g =>
    ((Search.start c v.globals).endWithin c g n).map fun ended =>
      ended.map fun s => (s.exits.map List.reverse, s.globals)

theorem check_of_answerWithin {n : Nat} {f : Function} {v : Verifier}
    {answer : Except Failure (List (List Ty) × Table Ty)} (nonempty : 0 < f.code.size)
    (answered : answerWithin n f v = some answer) :
    check f v =
      match answer with
      | .ok (exits, T) => .ok exits { v with globals := T }
      | .error failure => .error failure.error { v with globals := failure.globals } := by
  unfold answerWithin at answered
  rcases check_cases v nonempty with ⟨e, built, -⟩ | ⟨g, built, -, outcome⟩
  · simp [built] at answered
  · simp only [built] at answered
    obtain ⟨ended, counted, rfl⟩ := Option.map_eq_some_iff.1 answered
    -- the counted search is the one that the check makes
    have searched : Scope.searchBy .first ⟨v.program, f, v.maxStack⟩ g v.globals = ended :=
      search_eq_searchBy.symm.trans (Search.run_of_endWithin counted)
    rcases outcome with ⟨s, found, checked⟩ | ⟨failure, found, checked⟩
    · cases searched.symm.trans found
      exact checked
    · cases searched.symm.trans found
      exact checked

/-- A check of code that is not empty tells what following all routes would. If it succeeds, every route
can be followed under the table that is known afterwards, and the answer lists without repetition the
stacks at the ends of those that leave the function, by a return or at the end of the code. If it fails in
a block, some route into the block can be followed, and the block fails after it with that error, under
the table that is known then. -/
theorem check_routes (f : Function) (v v' : Verifier) (nonempty : 0 < f.code.size) :
    let c : Scope := ⟨v.program, f, v.maxStack⟩
    let start : Path := ⟨c.entryStack, v.globals⟩
    (∀ exits, check f v = .ok exits v' →
      ∃ g, Graph.build f.code = .ok g ∧
        (∀ route, g.Route route → ∃ path, c.Follows g v'.globals start route path) ∧
        exits.Nodup ∧
        ∀ stack, stack ∈ exits ↔
          ∃ i before block path, g.Route (i :: before) ∧ g.blocks[i]? = some block ∧
            (block.last = .ret ∨
              block.stop = f.code.size ∧ block.last ∉ [.br, .brTable, .unreachable]) ∧
            c.Follows g v'.globals start (i :: before) path ∧ stack = path.stack.reverse) ∧
    (∀ e b, check f v = .error e v' → e.block = some b →
      ∃ g before block path, Graph.build f.code = .ok g ∧ g.Route (b :: before) ∧
        g.blocks[b]? = some block ∧ c.Follows g v'.globals start before path ∧
        c.visit b block ⟨path, v'.globals⟩ = .error ⟨e, v'.globals⟩) := by
  intro c start
  rcases check_cases v nonempty with
    ⟨e, built, checked⟩ | ⟨g, built, filled, ⟨s, searched, checked⟩ | ⟨failure, searched, checked⟩⟩
  -- no graph: the error names no block
  · rw [checked]
    constructor
    · intro exits done
      cases done
    · intro e' b failed blamed
      cases failed
      rw [build_error_block built] at blamed
      cases blamed
  · obtain ⟨sites, cut⟩ := Flow.cut_of_build built
    rw [checked]
    constructor
    · intro exits done
      cases done
      refine ⟨g, built, fun route walked => follows_of_search cut filled searched walked, ?_, fun stack => ?_⟩
      · exact List.Nodup.map List.reverse_injective (traced_of_search searched).distinct
      constructor
      · intro mem
        obtain ⟨left, exit, rfl⟩ := List.mem_map.1 mem
        obtain ⟨i, before, block, path, route, at_i, leaves, follows, rfl⟩ :=
          (mem_exits_of_search cut filled searched).1 exit
        exact ⟨i, before, block, path, route, at_i, Scope.leaves_iff.1 leaves, follows, rfl⟩
      · rintro ⟨i, before, block, path, route, at_i, leaves, follows, rfl⟩
        apply List.mem_map_of_mem
        apply (mem_exits_of_search cut filled searched).2
        exact ⟨i, before, block, path, route, at_i, Scope.leaves_iff.2 leaves, follows, rfl⟩
    · intro e b failed
      cases failed
  · rw [checked]
    constructor
    · intro exits done
      cases done
    · intro e b failed blamed
      cases failed
      obtain ⟨i, before, block, path, at_i, route, at_block, follows, fails⟩ := error_of_search searched
      cases at_i.symm.trans blamed
      exact ⟨g, before, block, path, built, route, at_block, follows, fails⟩

/-- A loop that writes a global on its way, can be left by a return, and runs off its end with another
stack. -/
def rounds : Function :=
  ⟨⟨[.i32], []⟩, 0, Instruction.assemble
    [⟨.localGet, [0]⟩, ⟨.brIf, [6]⟩, ⟨.const .i32, [1]⟩, ⟨.ret, []⟩,
      ⟨.localGet, [0]⟩, ⟨.globalTee, [0]⟩, ⟨.brIf, [0x100000000 - 25]⟩, ⟨.const .i64, [2]⟩]⟩

/-- Two branches that write numbers of different kinds to one global. -/
def clash : Function :=
  ⟨⟨[.i32], []⟩, 0, Instruction.assemble
    [⟨.localGet, [0]⟩, ⟨.brIf, [13]⟩, ⟨.const .i32, [1]⟩, ⟨.globalSet, [0]⟩, ⟨.br, [12]⟩,
      ⟨.const .f64, [1]⟩, ⟨.globalSet, [0]⟩, ⟨.nop, []⟩]⟩

/-- Every number of rounds can be followed, and one of the branches fails because the other was searched
before it. -/
theorem rounds_and_clash :
    let v : Verifier := .new ⟨#[], #[], #[]⟩ {}
    let T : Table Ty := { entries := [some .i32] }
    let start : Path := ⟨[.i32], .empty⟩
    0 < rounds.code.size ∧ check rounds v = .ok [[.i32, .i32], [.i32, .scalar .i64]] { v with globals := T } ∧
    (∃ g, Graph.build rounds.code = .ok g ∧
      ∀ route, g.Route route → ∃ path, Scope.Follows ⟨v.program, rounds, 1024⟩ g T start route path) ∧
    0 < clash.code.size ∧ check clash v = .error ⟨.typeMismatch, some 30, some 2⟩ { v with globals := T } ∧
    ∃ g before block path, Graph.build clash.code = .ok g ∧ g.Route (2 :: before) ∧
      g.blocks[2]? = some block ∧ Scope.Follows ⟨v.program, clash, 1024⟩ g T start before path ∧
      Scope.visit ⟨v.program, clash, 1024⟩ 2 block ⟨path, T⟩ =
        .error ⟨⟨.typeMismatch, some 30, some 2⟩, T⟩ := by
  intro v T start
  obtain ⟨nonempty, nonempty', answered, answered'⟩ :
      0 < rounds.code.size ∧ 0 < clash.code.size ∧
        answerWithin 20 rounds v = some (.ok ([[.i32, .i32], [.i32, .scalar .i64]], T)) ∧
        answerWithin 20 clash v = some (.error ⟨⟨.typeMismatch, some 30, some 2⟩, T⟩) := by
    decide +kernel
  have checked := check_of_answerWithin nonempty answered
  have failed := check_of_answerWithin nonempty' answered'
  obtain ⟨g, built, followed, -⟩ := (check_routes rounds v _ nonempty).1 _ checked
  exact ⟨nonempty, checked, ⟨g, built, followed⟩, nonempty', failed,
    (check_routes clash v _ nonempty').2 _ 2 failed rfl⟩

end Verifier

end StackVM
