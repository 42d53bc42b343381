import StackVM.Proofs.Flow.Positions
import StackVM.Proofs.Verifier.Routes

/-!
# Code of one block

Code in which no instruction ends a block is a single block that nothing follows. Main statements: the
graph of such code (`build_of_flat`), and a program with such entry code and without constants is verified
by going through its instructions once (`verify_of_flat`).
-/

namespace StackVM

/-- The code decodes as a whole, and control leaves each instruction for the next one. -/
structure Code.Flat (code : Code) : Prop where
  whole : code.scan.2 = none
  plain : ∀ l ∈ code.scan.1, l.inst.opcode.isTerminator = false

namespace Flow

variable {code : Code} {located : List Located}

theorem siteOf_plain {l : Located} (plain : l.inst.opcode.isTerminator = false) :
    siteOf code l = .ok ⟨l, []⟩ := by
  have displacements : code.displacements? l.offset l.inst.opcode = some [] := by
    cases opcode : l.inst.opcode with
    | br | brIf | brTable =>
      rw [opcode] at plain
      cases plain
    | _ => rfl
  simp [siteOf, Code.branchTargets, displacements, bind, Except.bind, pure, Except.pure]

theorem mapM_siteOf_plain (plain : ∀ l ∈ located, l.inst.opcode.isTerminator = false) :
    located.mapM (siteOf code) = .ok (located.map fun l => ⟨l, []⟩) := by
  induction located with
  | nil => rfl
  | cons l located ih =>
    rw [List.mapM_cons, siteOf_plain (plain l List.mem_cons_self),
      ih fun l mem => plain l (List.mem_cons_of_mem _ mem)]
    rfl

theorem sites_of_flat (flat : code.Flat) : Flow.sites code = .ok (code.scan.1.map fun l => ⟨l, []⟩) := by
  unfold Flow.sites withTargets
  rw [show code.scan = (code.scan.1, none) from Prod.ext rfl flat.whole]
  simp only [mapM_siteOf_plain flat.plain]
  rfl

/-- Control arrives nowhere but at the start. -/
theorem arrivals_of_plain (plain : ∀ l ∈ located, l.inst.opcode.isTerminator = false) :
    arrivals (located.map fun l => ⟨l, []⟩) = [0] := by
  simp only [arrivals, List.cons.injEq, true_and, List.flatMap_eq_nil_iff, List.mem_map]
  rintro s ⟨l, mem, rfl⟩
  simp [plain l mem]

/-- Only the first instruction starts a block. -/
theorem leaders_of_plain {sites : List Site} (chain : Chain code 0 sites) (nonempty : 0 < code.size)
    (once : arrivals sites = [0]) : leaders sites = [0] := by
  cases sites with
  | nil =>
    have past : code.size ≤ 0 := chain
    omega
  | cons s rest =>
    obtain ⟨first, -, -, -, tail⟩ := chain
    have others : ((rest.map fun s => s.offset).filter fun offset => [0].contains offset) = [] := by
      rw [List.filter_eq_nil_iff]
      intro x mem
      obtain ⟨s', among, rfl⟩ := List.mem_map.1 mem
      -- every other instruction lies behind the first one
      have later := Chain.le_offset tail among
      have pos := next_pos s
      simp
      omega
    unfold leaders
    rw [once, List.map_cons, List.filter_cons, others, first]
    rfl

theorem within_whole {sites : List Site} (chain : Chain code 0 sites) :
    within sites (0, code.size) = sites := by
  refine List.filter_eq_self.2 fun s mem => ?_
  simp [(chain.decoded mem).1]

/-- A range on its own has no successors, if nothing jumps. -/
theorem successors_alone {sites : List Site} {range : Nat × Nat} (still : ∀ s ∈ sites, s.targets = []) :
    successors sites [range] = [[]] := by
  have none {s : Site} (mem : s ∈ within sites range) : linked 0 s 0 range.1 = false := by
    simp [linked, still s (List.mem_of_mem_filter mem)]
  unfold successors
  simp only [List.zipIdx_cons, List.zipIdx_nil, List.map_cons, List.map_nil]
  split
  · rfl
  · next last found => simp [none (List.mem_of_getLast? found)]

end Flow

open StackVM.Flow in
/-- Code in which nothing ends a block is one block, unless it is empty. -/
theorem Graph.build_of_flat {code : Code} (flat : code.Flat) (nonempty : 0 < code.size) :
    Graph.build code = .ok ⟨#[⟨0, code.size, code.scan.1, [], []⟩]⟩ := by
  have sites := sites_of_flat flat
  obtain ⟨chain, located⟩ := chain_of_sites sites
  have leaders := leaders_of_plain chain nonempty (arrivals_of_plain flat.plain)
  have whole := within_whole chain
  have still : ∀ s ∈ code.scan.1.map fun l => (⟨l, []⟩ : Site), s.targets = [] := by simp
  generalize (code.scan.1.map fun l => (⟨l, []⟩ : Site)) = ss at sites located leaders whole still
  have landed : (ss.find? fun s => !lands ss s) = none := by
    simp only [List.find?_eq_none, lands]
    intro s mem
    simp [still s mem]
  have graph : Graph.ofSites ss code.size = ⟨#[⟨0, code.size, code.scan.1, [], []⟩]⟩ := by
    have alone : Flow.ranges [0] code.size = [(0, code.size)] := rfl
    simp only [Graph.ofSites, leaders, alone, successors_alone still, ← located]
    simp [whole, predecessors]
  rw [Graph.build_eq_outline, Graph.outline, sites, ← graph]
  simp only [bind, Except.bind, landed]
  rfl

namespace Verifier

/-- A search through a block that nothing follows makes one visit. -/
theorem search_of_alone {c : Scope} {block : Block} {T : Table Ty} (alone : block.succs = []) :
    c.search ⟨#[block]⟩ T =
      (c.visit 0 block ⟨⟨c.entryStack, T⟩, T⟩).map
        (Search.record c { Search.start c T with pending := [] }
          (.of 0 ⟨c.entryStack, T⟩) block) := by
  apply Search.run_of_endWithin (n := 2)
  cases visited : c.visit 0 block ⟨⟨c.entryStack, T⟩, T⟩ with
  | error failure => simp [Search.endWithin, Search.step, Search.start, Visit.of, visited, Except.map]
  | ok after =>
    simp [Search.endWithin, Search.step, Search.start, Visit.of, visited, Except.map, Search.record, alone]

/-- The end of the entry code asks for no results. -/
theorem visit_entry {p : Program} {o : Options} {index : Nat} {block : Block} {s : State} :
    (entryScope p o).visit index block s = (entryScope p o).through index block.body s := by
  have results (stack : List Ty) :
      (entryScope p o).checkResults (entryScope p o).floor stack = .ok () := by
    simp [Scope.checkResults, Scope.floor, Program.entry]
  unfold Scope.visit
  cases (entryScope p o).through index block.body s with
  | error failure => rfl
  | ok after =>
    simp only [bind, Except.bind, results]
    split <;> rfl

/-- The check of entry code of one block goes through it once. -/
theorem check_of_flat {p : Program} {o : Options} (flat : p.code.Flat) :
    match (entryScope p o).through 0 p.code.scan.1 ⟨⟨[], .empty⟩, .empty⟩ with
    | .ok s => ∃ exits, check p.entry (.new p o) = .ok exits ⟨p, o.stackSize, s.globals⟩
    | .error failure => check p.entry (.new p o) = .error failure.error ⟨p, o.stackSize, failure.globals⟩ := by
  by_cases nonempty : 0 < p.code.size
  · have built : Graph.build p.entry.code = .ok _ := Graph.build_of_flat flat nonempty
    have searched := @search_of_alone (entryScope p o) ⟨0, p.code.size, p.code.scan.1, [], []⟩ .empty rfl
    -- no local and no parameter: the path begins with nothing
    have begins : (⟨⟨(entryScope p o).entryStack, .empty⟩, .empty⟩ : State) = ⟨⟨[], .empty⟩, .empty⟩ := rfl
    rw [search_eq_searchBy, visit_entry, begins] at searched
    rcases check_cases (.new p o) (show 0 < p.entry.code.size from nonempty) with
      ⟨e, failed, -⟩ | ⟨g, built', -, outcome⟩
    · cases built.symm.trans failed
    cases built.symm.trans built'
    -- the search that the check makes is the walk
    cases through : (entryScope p o).through 0 p.code.scan.1 ⟨⟨[], .empty⟩, .empty⟩ with
    | ok after =>
      rw [through] at searched
      rcases outcome with ⟨s, found, checked⟩ | ⟨failure, found, -⟩
      · cases searched.symm.trans found
        exact ⟨_, checked⟩
      · cases searched.symm.trans found
    | error failure =>
      rw [through] at searched
      rcases outcome with ⟨s, found, -⟩ | ⟨failure', found, checked⟩
      · cases searched.symm.trans found
      · cases searched.symm.trans found
        exact checked
  -- without instructions there is nothing to go through
  · have empty : p.entry.code = #[] := Array.eq_empty_of_size_eq_zero (Nat.eq_zero_of_not_pos nonempty)
    have scanned : Code.scan #[] = ([], none) := by
      unfold Code.scan Code.scanFrom
      rfl
    have built : Graph.build #[] = .ok ⟨#[]⟩ := by
      rw [Graph.build_eq_outline, Graph.outline, Flow.sites, scanned]
      rfl
    unfold check
    rw [Check.get_bind, empty, built, show p.code = #[] from empty, scanned]
    exact ⟨_, rfl⟩

/-- Entry code of one block, in a program without constants, is verified by going through it once. -/
theorem verify_of_flat {p : Program} {o : Options} (alone : p.constants = #[]) (flat : p.code.Flat) :
    match (entryScope p o).through 0 p.code.scan.1 ⟨⟨[], .empty⟩, .empty⟩ with
    | .ok s => verify (.new p o) = .ok () ⟨p, o.stackSize, s.globals⟩
    | .error failure => verify (.new p o) = .error failure.error ⟨p, o.stackSize, failure.globals⟩ := by
  have only : p.functions = [p.entry] := by simp [Program.functions, alone]
  have opened : verify (.new p o) = checkAll p.functions (.new p o) := rfl
  have checked : checkAll [p.entry] (.new p o) =
      EStateM.bind (check p.entry) (fun _ => checkAll []) (.new p o) := rfl
  have outcome := @check_of_flat p o flat
  rw [opened, only, checked]
  unfold EStateM.bind
  split at outcome
  · obtain ⟨exits, done⟩ := outcome
    rw [done]
    rfl
  · rw [outcome]

end Verifier

end StackVM
