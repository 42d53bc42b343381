import StackVM.Proofs.Flow.Positions
import StackVM.Proofs.Verifier.Discipline
import StackVM.Proofs.Verifier.Transfer

/-!
# What a finished search knows

A search that ends has made every visit it found. Main statements: its visits are closed under the
transfers of whole blocks (`closed_of_searchBy`), so code that was checked can be followed instruction by
instruction without leaving the paths that were checked (`Stands.step`), and a program that passes the
verifier has such visits for each of its functions (`checked_of_verify`).
-/

namespace StackVM

namespace Verifier

namespace Scope

variable {c : Scope} {T T' : Table Ty} {p p' q : Path}

/-! ### Rows of transfers -/

/-- The instructions lead from one path to the other. -/
def Along (c : Scope) (T : Table Ty) : List Located → Path → Path → Prop
  | [], p, p' => p = p'
  | l :: ls, p, p' => ∃ q, c.Transfers T l.inst p q ∧ c.Along T ls q p'

theorem Along.mono {ls : List Located} (along : c.Along T ls p p') (le : T.Le T') :
    c.Along T' ls p p' := by
  induction ls generalizing p with
  | nil => exact along
  | cons l ls ih =>
    obtain ⟨q, transfer, rest⟩ := along
    exact ⟨q, transfer.mono le, ih rest⟩

theorem Along.known {ls : List Located} (along : c.Along T ls p p') (agreed : p.Known T) : p'.Known T := by
  induction ls generalizing p with
  | nil =>
    cases along
    exact agreed
  | cons l ls ih =>
    obtain ⟨q, transfer, rest⟩ := along
    exact ih rest (transfer.known agreed)

theorem along_of_through {index : Nat} {ls : List Located} {s' : State} (agreed : p.Known T)
    (done : c.through index ls ⟨p, T⟩ = .ok s') :
    T.Le s'.globals ∧ c.Along s'.globals ls p s'.toPath := by
  induction ls generalizing p T with
  | nil =>
    cases done
    exact ⟨.refl T, rfl⟩
  | cons l ls ih =>
    simp only [through] at done
    split at done
    · next s applied =>
      obtain ⟨le, transfer⟩ := transfers_of_apply agreed applied
      obtain ⟨le', rest⟩ := ih (transfer.known (agreed.mono le)) done
      -- later instructions may record more globals, which takes no transfer away
      exact ⟨le.trans le', s.toPath, transfer.mono le', rest⟩
    · cases done

theorem visit_eq_ok {index : Nat} {block : Block} {s s' : State}
    (done : c.visit index block s = .ok s') :
    c.through index block.body s = .ok s' ∧
      (c.runsOff block = true → c.checkResults c.floor s'.stack = .ok ()) := by
  have through := Bounds.through_of_visit done
  refine ⟨through, fun off => ?_⟩
  unfold visit at done
  rw [through] at done
  -- the results were checked because the block runs off the end
  simp only [bind, Except.bind, off, if_true] at done
  split at done
  · next checked => exact checked
  · cases done

end Scope

/-! ### Closed sets of visits -/

/-- Whatever a block among the visits leads to is among `found`. -/
structure Explored (c : Scope) (g : Graph) (T : Table Ty) (found : Visit → Prop) (v : Visit) : Prop where
  visit : ∃ block after, g.blocks[v.block]? = some block ∧ c.Along T block.body v.path after ∧
    (c.runsOff block = true → c.checkResults c.floor after.stack = .ok ()) ∧
    ∀ j ∈ block.succs, found (.of j after)

/-- Nothing that was visited leads anywhere else. -/
def Closed (c : Scope) (g : Graph) (T : Table Ty) (seen : List Visit) : Prop :=
  ∀ v ∈ seen, Explored c g T (fun w => w ∈ seen ∨ g.blocks[w.block]? = none) v

theorem Explored.mono {c : Scope} {g : Graph} {T T' : Table Ty} {found found' : Visit → Prop} {v : Visit}
    (explored : Explored c g T found v) (le : T.Le T') (more : ∀ w, found w → found' w) :
    Explored c g T' found' v := by
  obtain ⟨block, after, at_block, along, off, succs⟩ := explored.visit
  exact ⟨block, after, at_block, along.mono le, off, fun j mem => more _ (succs j mem)⟩

theorem Closed.mono {c : Scope} {g : Graph} {T T' : Table Ty} {seen : List Visit}
    (closed : Closed c g T seen) (le : T.Le T') : Closed c g T' seen :=
  fun v mem => (closed v mem).mono le fun _ known => known

namespace Search

variable {c : Scope} {g : Graph} {first : Visit} {T : Table Ty} {s s' : Search}

/-- Along every visit the types that are recorded are those of the table. -/
def Agreed (s : Search) : Prop :=
  ∀ v, v ∈ s.pending ∨ v ∈ s.seen → v = .of v.block v.path ∧ v.path.Known s.globals

/-- Visits that begin with the table begin with its types. -/
theorem agreed_start : (start c T).Agreed := by
  rintro v (waiting | made)
  · cases List.mem_singleton.1 waiting
    exact ⟨rfl, .refl T⟩
  · cases made

/-- A pending visit with the mark of one that was made is that visit. -/
theorem Agreed.mem_seen {v : Visit} (agreed : s.Agreed) (waiting : v ∈ s.pending)
    (marked : ∃ w ∈ s.seen, w.mark = v.mark) : v ∈ s.seen := by
  obtain ⟨w, made, same⟩ := marked
  obtain ⟨whole, known⟩ := agreed v (.inl waiting)
  obtain ⟨whole', known'⟩ := agreed w (.inr made)
  have parts := Mark.mk.inj same
  have written : ∀ i, w.path.written i = v.path.written i := by
    -- the marks tell which globals were written
    intro i
    have sets : IndexSet.ofList w.path.recorded.places = .ofList v.path.recorded.places := by
      rw [whole, whole'] at parts
      exact parts.2.2.1
    have both : (IndexSet.ofList w.path.recorded.places).contains i = true ↔ v.path.written i = true := by
      rw [sets, IndexSet.contains_ofList, Table.mem_places]
      rfl
    rw [IndexSet.contains_ofList, Table.mem_places] at both
    exact Bool.eq_iff_iff.2 both
  have path : w.path = v.path := known'.eq_of_written known parts.2.2.2 written
  rw [whole, ← parts.1, ← path, ← whole']
  exact made

/-- A visit that was made, is still to be made, or leads nowhere. -/
def Knows (g : Graph) (s : Search) (v : Visit) : Prop :=
  v ∈ s.seen ∨ v ∈ s.pending ∨ g.blocks[v.block]? = none

/-- What holds throughout a search that began with the visit `first` and the table `T`. -/
structure Sound (c : Scope) (g : Graph) (first : Visit) (T : Table Ty) (s : Search) : Prop where
  begun : s.Knows g first
  grown : T.Le s.globals
  agreed : s.Agreed
  explored : ∀ v ∈ s.seen, Explored c g s.globals (s.Knows g) v

theorem sound_start : Sound c g (.of 0 ⟨c.entryStack, T⟩) T (start c T) where
  begun := .inr (.inl (by simp [start]))
  grown := .refl T
  agreed := agreed_start
  explored v mem := by simp [start] at mem

/-- A step takes up the first pending visit. It drops one that has the mark of a visit made before or leads
nowhere, and makes any other. -/
theorem step_eq_some (stepped : s.step c g = .ok (some s')) :
    ∃ v rest, s.pending = v :: rest ∧
      ((s' = { s with pending := rest } ∧ ((∃ w ∈ s.seen, w.mark = v.mark) ∨ g.blocks[v.block]? = none)) ∨
        ∃ block after, g.blocks[v.block]? = some block ∧ (¬∃ w ∈ s.seen, w.mark = v.mark) ∧
          c.visit v.block block ⟨v.path, s.globals⟩ = .ok after ∧
          s' = record c { s with pending := rest } v block after) := by
  unfold Search.step at stepped
  split at stepped
  · cases stepped
  · next v rest pending =>
    refine ⟨v, rest, pending, ?_⟩
    split at stepped
    · next made =>
      cases stepped
      exact .inl ⟨rfl, .inl made⟩
    · next fresh =>
      split at stepped
      · next nowhere =>
        cases stepped
        exact .inl ⟨rfl, .inr nowhere⟩
      · next block at_block =>
        split at stepped
        · cases stepped
        · next after visited =>
          cases stepped
          exact .inr ⟨block, after, at_block, fresh, visited, rfl⟩

/-- A step fails only as the visit does that it makes. -/
theorem step_eq_error {failure : Failure} (failed : s.step c g = .error failure) :
    ∃ v rest block, s.pending = v :: rest ∧ g.blocks[v.block]? = some block ∧
      c.visit v.block block ⟨v.path, s.globals⟩ = .error failure := by
  unfold Search.step at failed
  split at failed
  · cases failed
  · next v rest pending =>
    split at failed
    · cases failed
    · split at failed
      · cases failed
      · next block at_block =>
        split at failed
        · next failure' visited =>
          cases failed
          exact ⟨v, rest, block, pending, at_block, visited⟩
        · cases failed

/-- A visit that is made under a table leaves one that says more, and whatever was recorded under the one is
recorded under the other. -/
theorem Agreed.step (agreed : s.Agreed) (stepped : s.step c g = .ok (some s')) : s'.Agreed := by
  obtain ⟨v, rest, pending, taken⟩ := step_eq_some stepped
  have later : ∀ w, w ∈ rest → w ∈ s.pending := by
    intro w mem
    rw [pending]
    exact List.mem_cons_of_mem _ mem
  have first : v ∈ s.pending := by
    rw [pending]
    exact List.mem_cons_self
  rcases taken with ⟨rfl, -⟩ | ⟨block, after, -, -, visited, rfl⟩
  · exact fun w mem => agreed w (mem.imp_left (later w))
  · obtain ⟨le, along⟩ := Scope.along_of_through (agreed v (.inl first)).2 (Scope.visit_eq_ok visited).1
    have known : after.toPath.Known after.globals := along.known ((agreed v (.inl first)).2.mono le)
    have before : ∀ w, w ∈ s.pending ∨ w ∈ s.seen → w = .of w.block w.path ∧ w.path.Known after.globals :=
      fun w mem => (agreed w mem).imp_right fun known => known.mono le
    rintro w (waiting | made)
    · rcases List.mem_append.1 waiting with old | new
      · exact before w (.inl (later w old))
      · obtain ⟨j, -, rfl⟩ := List.mem_map.1 new
        exact ⟨rfl, known⟩
    · rcases List.mem_cons.1 made with rfl | old
      · exact before _ (.inl first)
      · exact before w (.inr old)

/-- It makes no difference in which order visits are pending. -/
theorem Agreed.advanced (agreed : s.Agreed) (i : Nat) : (s.advanced i).Agreed := by
  intro v mem
  rw [(s.pending_advanced i).mem_iff, s.advanced_eq i] at mem
  rw [s.advanced_eq i]
  exact agreed v mem

theorem Sound.step (sound : Sound c g first T s) (stepped : s.step c g = .ok (some s')) :
    Sound c g first T s' := by
  have agreed := sound.agreed.step stepped
  obtain ⟨v, rest, pending, taken⟩ := step_eq_some stepped
  have first : v ∈ s.pending := by
    rw [pending]
    exact List.mem_cons_self
  rcases taken with ⟨rfl, reason⟩ | ⟨block, after, at_block, -, visited, rfl⟩
  -- a visit that is taken off is known for another reason afterwards
  · have keeps : ∀ w, s.Knows g w → Knows g { s with pending := rest } w := by
      rintro w (made | waiting | nowhere)
      · exact .inl made
      · rw [pending] at waiting
        rcases List.mem_cons.1 waiting with rfl | waiting
        · exact reason.imp (sound.agreed.mem_seen first) .inr
        · exact .inr (.inl waiting)
      · exact .inr (.inr nowhere)
    exact
      { begun := keeps _ sound.begun
        grown := sound.grown
        agreed
        explored := fun w mem => (sound.explored w mem).mono (.refl _) keeps }
  -- a new visit: its successors are pending from now on
  · obtain ⟨through, off⟩ := Scope.visit_eq_ok visited
    obtain ⟨le, along⟩ := Scope.along_of_through (sound.agreed v (.inl first)).2 through
    have keeps : ∀ w, s.Knows g w → (record c { s with pending := rest } v block after).Knows g w := by
      rintro w (made | waiting | nowhere)
      · exact .inl (List.mem_cons_of_mem _ made)
      · rw [pending] at waiting
        rcases List.mem_cons.1 waiting with rfl | waiting
        · exact .inl List.mem_cons_self
        · exact .inr (.inl (List.mem_append_left _ waiting))
      · exact .inr (.inr nowhere)
    refine { begun := keeps _ sound.begun, grown := sound.grown.trans le, agreed, explored := ?_ }
    intro w mem
    rcases List.mem_cons.1 mem with rfl | mem
    · refine ⟨block, after.toPath, at_block, along, off, fun j succ => .inr (.inl ?_)⟩
      exact List.mem_append_right _ (List.mem_map.2 ⟨j, succ, rfl⟩)
    · exact (sound.explored w mem).mono le keeps

/-- It makes no difference in which order visits are pending. -/
theorem Sound.advanced (sound : Sound c g first T s) (i : Nat) : Sound c g first T (s.advanced i) := by
  have same : ∀ v, (s.advanced i).Knows g v ↔ s.Knows g v := by
    intro v
    unfold Knows
    rw [(s.pending_advanced i).mem_iff, s.advanced_eq i]
  have seen : (s.advanced i).seen = s.seen := by rw [s.advanced_eq i]
  have globals : (s.advanced i).globals = s.globals := by rw [s.advanced_eq i]
  constructor
  · exact (same first).2 sound.begun
  · rw [globals]
    exact sound.grown
  · exact sound.agreed.advanced i
  · intro v mem
    rw [seen] at mem
    rw [globals]
    exact (sound.explored v mem).mono (.refl _) fun w => (same w).2

theorem Sound.stepBy {d : Discipline} (sound : Sound c g first T s)
    (stepped : s.stepBy d c g = .ok (some s')) : Sound c g first T s' :=
  (sound.advanced (d s)).step stepped

end Search

/-- A search that ends has closed its visits. The first one is among them if there is a block at all. -/
theorem closed_of_searchBy {d : Discipline} {c : Scope} {g : Graph} {T : Table Ty} {s : Search}
    (searched : c.searchBy d g T = .ok s) :
    T.Le s.globals ∧ Closed c g s.globals s.seen ∧
      (g.blocks.isEmpty = false → Visit.of 0 ⟨c.entryStack, T⟩ ∈ s.seen) := by
  obtain ⟨sound, idle⟩ :=
    (Search.runBy_invariant (fun _ _ sound => sound.stepBy) Search.sound_start).1 s searched
  -- with nothing pending, whatever is known was visited or leads nowhere
  have known : ∀ w, s.Knows g w → w ∈ s.seen ∨ g.blocks[w.block]? = none := by
    rintro w (made | waiting | nowhere)
    · exact .inl made
    · rw [idle] at waiting
      cases waiting
    · exact .inr nowhere
  refine ⟨sound.grown, fun v mem => (sound.explored v mem).mono (.refl _) known, fun nonempty => ?_⟩
  rcases known _ sound.begun with made | nowhere
  · exact made
  · have size : g.blocks.size = 0 := by simpa [Visit.of] using nowhere
    simp [Array.isEmpty, size] at nonempty

theorem closed_of_search {c : Scope} {g : Graph} {T : Table Ty} {s : Search}
    (searched : c.search g T = .ok s) :
    T.Le s.globals ∧ Closed c g s.globals s.seen ∧
      (g.blocks.isEmpty = false → Visit.of 0 ⟨c.entryStack, T⟩ ∈ s.seen) :=
  closed_of_searchBy (search_eq_searchBy.symm.trans searched)

/-! ### Following checked code -/

/-- The blocks of some code and the visits that a search made to them. -/
structure Survey where
  graph : Graph
  sites : List Site
  seen : List Visit

namespace Survey

open StackVM.Flow

/-- The survey is one of the function, and nothing leads out of it. -/
structure Covers (y : Survey) (c : Scope) (T : Table Ty) : Prop where
  cut : Cut c.function.code y.graph y.sites
  closed : Closed c y.graph T y.seen

/-- The path leads to the end of the code: through a block that was visited and from which control runs
off, or from the entry where there is no block. -/
def Ends (y : Survey) (c : Scope) (T : Table Ty) (path : Path) : Prop :=
  (y.graph.blocks.isEmpty = true ∧ path.stack = c.entryStack) ∨
    ∃ v ∈ y.seen, ∃ block, y.graph.blocks[v.block]? = some block ∧ c.runsOff block = true ∧
      c.Along T block.body v.path path

/-- Where control can be along a path that was checked: in a block, the rest of which was checked too,
or at the end of the code with all results in place. -/
inductive Stands (y : Survey) (c : Scope) (T : Table Ty) : Nat → Path → Prop where
  | inside {ip i : Nat} {path after : Path} {block : Block} (at_i : y.graph.blocks[i]? = some block)
    (started : block.start ≤ ip) (inside : ip < block.stop) (site : ∃ s ∈ y.sites, s.offset = ip)
    (rest : c.Along T ((within y.sites (ip, block.stop)).map Site.toLocated) path after)
    (whole : ∃ v ∈ y.seen, v.block = i ∧ c.Along T block.body v.path after)
    (off : c.runsOff block = true → c.checkResults c.floor after.stack = .ok ())
    (succs : ∀ j ∈ block.succs, Visit.of j after ∈ y.seen ∨ y.graph.blocks[j]? = none)
    (entered : block.start = ip → Visit.of i path ∈ y.seen) : Stands y c T ip path
  | past {ip : Nat} {path : Path} (past : c.function.code.size ≤ ip)
    (results : c.checkResults c.floor path.stack = .ok ()) (ends : y.Ends c T path) : Stands y c T ip path

variable {y : Survey} {c : Scope} {T T' : Table Ty} {ip i : Nat} {path : Path} {block : Block}

theorem Covers.mono (covers : y.Covers c T) (le : T.Le T') : y.Covers c T' :=
  ⟨covers.cut, covers.closed.mono le⟩

theorem Ends.mono (ends : y.Ends c T path) (le : T.Le T') : y.Ends c T' path := by
  rcases ends with nothing | ⟨v, mem, block, at_v, runs, along⟩
  · exact .inl nothing
  · exact .inr ⟨v, mem, block, at_v, runs, along.mono le⟩

theorem Stands.mono (stands : y.Stands c T ip path) (le : T.Le T') : y.Stands c T' ip path := by
  cases stands with
  | inside at_i started inside site rest whole off succs entered =>
    obtain ⟨v, mem, at_v, along⟩ := whole
    exact .inside at_i started inside site (rest.mono le) ⟨v, mem, at_v, along.mono le⟩ off succs entered
  | past past results ends => exact .past past results (ends.mono le)

theorem Covers.stands_of_visit (covers : y.Covers c T) (at_i : y.graph.blocks[i]? = some block)
    (visited : Visit.of i path ∈ y.seen) : y.Stands c T block.start path := by
  -- a visit covers its whole block, so control stands at the start of it
  obtain ⟨block', after, at_block, along, off, succs⟩ := (covers.closed _ visited).visit
  rw [show (Visit.of i path).block = i from rfl, at_i] at at_block
  cases at_block
  obtain ⟨site, nonempty⟩ := covers.cut.start_site at_i
  have whole := along
  obtain ⟨-, body, -⟩ := covers.cut.block_eq at_i
  rw [body] at along
  exact .inside at_i (Nat.le_refl _) nonempty site along ⟨_, visited, rfl, whole⟩ off succs
    fun _ => visited

theorem Covers.stands_of_succ (covers : y.Covers c T) {j : Nat} {block' : Block}
    (at_j : y.graph.blocks[j]? = some block')
    (known : Visit.of j path ∈ y.seen ∨ y.graph.blocks[j]? = none) : y.Stands c T block'.start path := by
  rcases known with visited | nowhere
  · exact covers.stands_of_visit at_j visited
  · rw [at_j] at nowhere
    cases nowhere

/-- After the last instruction of a block nothing of the block is left. -/
theorem within_nil {sites : List Site} {next stop : Nat} (ends : stop ≤ next) :
    within sites (next, stop) = [] := by
  refine List.filter_eq_nil_iff.2 fun u _ => ?_
  simp only [Bool.and_eq_true, decide_eq_true_eq, not_and]
  omega

/-- What there is to know about one instruction of checked code: it decodes, its rule leads on, and
wherever control goes from it the code was checked along the path that the rule gives. -/
structure Onward (y : Survey) (c : Scope) (T : Table Ty) (ip : Nat) (path : Path) (inst : Instruction)
    (path' : Path) : Prop where
  decoded : Instruction.decode c.function.code ip = .ok inst
  scanned : ⟨ip, inst⟩ ∈ c.function.code.scan.1
  transfer : c.Transfers T inst path path'
  falls : inst.opcode.fallsThrough = true → y.Stands c T (ip + inst.width) path'
  jumps : ∀ place ∈ inst.jumps (ip + inst.width),
    ∃ target, place = some target ∧ target < c.function.code.size ∧ y.Stands c T target path'

theorem Stands.step (stands : y.Stands c T ip path) (covers : y.Covers c T)
    (inside : ip < c.function.code.size) : ∃ inst path', y.Onward c T ip path inst path' := by
  cases stands with
  | past past results => omega
  | @inside _ i after block at_i started before site rest whole off succs entered =>
    obtain ⟨s, mem, rfl⟩ := site
    have cut := covers.cut
    obtain ⟨-, decoded, targets⟩ := cut.chain.decoded mem
    have pos := next_pos s
    -- the rest of the block is this instruction and what comes after it
    rw [cut.chain.within_split mem (Nat.le_refl _) before, within_nil (Nat.le_refl _)] at rest
    obtain ⟨path', transfer, rest⟩ := rest
    have scanned : s.toLocated ∈ c.function.code.scan.1 := cut.mem_scan.2 ⟨s, mem, rfl⟩
    refine ⟨s.inst, path', decoded, scanned, transfer, fun falls => ?_, fun place jump => ?_⟩
    -- control that runs on
    · rcases cut.next_block at_i mem started before falls with
        ⟨within, follower⟩ | ⟨ends, stop, past⟩ | ⟨ends, block', at_next, start, succ⟩
      · refine .inside at_i ?_ within follower rest whole off succs fun same => ?_
        · exact Nat.le_trans started (Nat.le_of_lt pos)
        · have : block.start = s.next := same
          omega
      · -- the last instruction of the code
        rw [within_nil ends] at rest
        cases rest
        obtain ⟨-, body, -⟩ := cut.block_eq at_i
        have last : block.last = s.inst.opcode := by
          rw [Block.last, body, List.getLast?_map, cut.last_of_block mem started before ends]
          rfl
        have runs : c.runsOff block = true := by simp [Scope.runsOff, last, falls, stop]
        obtain ⟨v, seen, rfl, along⟩ := whole
        exact .past past (off runs) (.inr ⟨v, seen, block, at_i, runs, along⟩)
      · -- the next block was entered along the same path
        rw [within_nil ends] at rest
        cases rest
        have next := covers.stands_of_succ at_next (succs _ succ)
        rwa [start] at next
    -- control that jumps: the instruction is the last one of its block
    · have ends := cut.stop_le_next at_i mem started (Instruction.isTerminator_of_jumps jump)
      rw [within_nil ends] at rest
      cases rest
      rw [Code.jumps_eq_targets decoded targets] at jump
      obtain ⟨target, found, rfl⟩ := List.mem_map.1 jump
      obtain ⟨j, block', at_j, start, succ⟩ := cut.target_block at_i mem started before ends found
      have size := cut.stop_le_size at_j
      have nonempty := (cut.start_site at_j).2
      have there := covers.stands_of_succ at_j (succs j succ)
      rw [start] at there
      exact ⟨target, rfl, by omega, there⟩

theorem Stands.results (stands : y.Stands c T ip path) (covers : y.Covers c T)
    (past : c.function.code.size ≤ ip) : c.checkResults c.floor path.stack = .ok () := by
  cases stands with
  | past _ results => exact results
  | inside at_i started before =>
    have size := covers.cut.stop_le_size at_i
    omega

/-- Control that stands at the end of the code came there along a path that was checked. -/
theorem Stands.ends (stands : y.Stands c T ip path) (covers : y.Covers c T)
    (past : c.function.code.size ≤ ip) : y.Ends c T path := by
  cases stands with
  | past _ _ ends => exact ends
  | inside at_i started before =>
    have size := covers.cut.stop_le_size at_i
    omega

/-- Control that stands at the start of a block entered it along a path that was visited. -/
theorem Stands.visited (stands : y.Stands c T ip path) (covers : y.Covers c T)
    (at_i : y.graph.blocks[i]? = some block) (start : block.start = ip) : Visit.of i path ∈ y.seen := by
  subst start
  have size := covers.cut.stop_le_size at_i
  have nonempty := (covers.cut.start_site at_i).2
  cases stands with
  | past past => omega
  | inside at_j started before site rest whole off succs entered =>
    -- the block in which control stands is the one that starts there
    cases covers.cut.block_unique at_j at_i started before
    rw [at_i] at at_j
    cases at_j
    exact entered rfl

end Survey

/-! ### Checked programs -/

/-- The function was checked: there is a survey of it in which its entry stands, with some of the types of
the table recorded. -/
def Checked (c : Scope) (T : Table Ty) : Prop :=
  ∃ (y : Survey) (w : Table Ty), y.Covers c T ∧ w.Le T ∧ y.Stands c T 0 ⟨c.entryStack, w⟩

theorem Checked.mono {c : Scope} {T T' : Table Ty} (checked : Checked c T) (le : T.Le T') :
    Checked c T' := by
  obtain ⟨y, w, covers, known, stands⟩ := checked
  exact ⟨y, w, covers.mono le, known.trans le, stands.mono le⟩

/-- An empty function has no visits, and its entry is its end. -/
theorem stands_of_empty {c : Scope} {T : Table Ty} {g : Graph} {sites : List Site} {seen : List Visit}
    {w : Table Ty} (cut : Flow.Cut c.function.code g sites) (empty : g.blocks.isEmpty = true)
    (results : c.checkResults c.floor c.entryStack = .ok ()) :
    Survey.Stands ⟨g, sites, seen⟩ c T 0 ⟨c.entryStack, w⟩ :=
  .past (Nat.le_of_eq (cut.size_of_empty empty).2) results (.inl ⟨empty, rfl⟩)

theorem stands_of_search {c : Scope} {T : Table Ty} {g : Graph} {sites : List Site} {s : Search}
    (cut : Flow.Cut c.function.code g sites) (nonempty : g.blocks.isEmpty = false)
    (searched : c.search g T = .ok s) :
    Survey.Covers ⟨g, sites, s.seen⟩ c s.globals ∧
      Survey.Stands ⟨g, sites, s.seen⟩ c s.globals 0 ⟨c.entryStack, T⟩ := by
  obtain ⟨-, closed, begun⟩ := closed_of_search searched
  have covers : Survey.Covers ⟨g, sites, s.seen⟩ c s.globals := ⟨cut, closed⟩
  obtain ⟨block, at_0, start⟩ := cut.first_block nonempty
  have stands := covers.stands_of_visit at_0 (begun nonempty)
  rw [start] at stands
  exact ⟨covers, stands⟩

/-- What a check that succeeds has done. -/
theorem check_eq_ok {f : Function} {v v' : Verifier} {exits : List (List Ty)}
    (done : check f v = .ok exits v') :
    ∃ g, Graph.build f.code = .ok g ∧ v'.program = v.program ∧ v'.maxStack = v.maxStack ∧
      ((g.blocks.isEmpty = true ∧ v'.globals = v.globals ∧
          Scope.checkResults ⟨v.program, f, v.maxStack⟩ (Scope.floor ⟨v.program, f, v.maxStack⟩)
            (Scope.entryStack ⟨v.program, f, v.maxStack⟩) = .ok () ∧
          exits = [(Scope.entryStack ⟨v.program, f, v.maxStack⟩).reverse]) ∨
        (g.blocks.isEmpty = false ∧ ∃ s, Scope.search ⟨v.program, f, v.maxStack⟩ g v.globals = .ok s ∧
          v'.globals = s.globals ∧ exits = s.exits.map List.reverse)) := by
  unfold check at done
  rw [Check.get_bind] at done
  -- the graph first, then the empty function, then the search
  cases built : Graph.build f.code with
  | error e =>
    simp only [built] at done
    cases done
  | ok g =>
    refine ⟨g, rfl, ?_⟩
    simp only [built] at done
    by_cases empty : g.blocks.isEmpty = true
    · rw [if_pos empty] at done
      cases results : Scope.checkResults ⟨v.program, f, v.maxStack⟩
          (Scope.floor ⟨v.program, f, v.maxStack⟩) (Scope.entryStack ⟨v.program, f, v.maxStack⟩) with
      | error cause =>
        simp only [results] at done
        cases done
      | ok u =>
        simp only [results] at done
        cases done
        exact ⟨rfl, rfl, .inl ⟨empty, rfl, rfl, rfl⟩⟩
    · rw [if_neg empty] at done
      cases searched : Scope.search ⟨v.program, f, v.maxStack⟩ g v.globals with
      | error failure =>
        simp only [searched] at done
        cases done
      | ok s =>
        simp only [searched] at done
        cases done
        exact ⟨rfl, rfl, .inr ⟨by simpa using empty, s, rfl, rfl, rfl⟩⟩

theorem checked_of_check {f : Function} {v v' : Verifier} {exits : List (List Ty)}
    (done : check f v = .ok exits v') :
    v.globals.Le v'.globals ∧ Checked ⟨v.program, f, v.maxStack⟩ v'.globals := by
  obtain ⟨g, built, -, -, outcome⟩ := check_eq_ok done
  obtain ⟨sites, cut⟩ := Flow.cut_of_build built
  -- a function without blocks has an empty survey
  rcases outcome with ⟨empty, same, results, -⟩ | ⟨nonempty, s, searched, same, -⟩
  · rw [same]
    refine ⟨.refl _, ⟨g, sites, []⟩, _, ⟨cut, ?_⟩, .refl _, stands_of_empty cut empty results⟩
    intro v mem
    cases mem
  · rw [same]
    obtain ⟨covers, stands⟩ := @stands_of_search ⟨v.program, f, v.maxStack⟩ _ _ _ _ cut nonempty searched
    have le := (closed_of_search searched).1
    exact ⟨le, _, _, covers, le, stands⟩

theorem checkAll_eq_ok_cons {f : Function} {fs : List Function} {v v' : Verifier}
    (done : checkAll (f :: fs) v = .ok () v') :
    ∃ exits between, check f v = .ok exits between ∧ checkAll fs between = .ok () v' := by
  have done : EStateM.bind (check f) (fun _ => checkAll fs) v = .ok () v' := done
  unfold EStateM.bind at done
  split at done
  · next exits between checked => exact ⟨exits, between, checked, done⟩
  · cases done

/-- Functions that were checked stay so while others are checked: the table only grows. -/
theorem checked_of_checkAll {fs : List Function} {v v' : Verifier} (done : checkAll fs v = .ok () v') :
    v.globals.Le v'.globals ∧ ∀ f ∈ fs, Checked ⟨v.program, f, v.maxStack⟩ v'.globals := by
  induction fs generalizing v with
  | nil =>
    cases done
    exact ⟨.refl _, fun f mem => nomatch mem⟩
  | cons f fs ih =>
    obtain ⟨exits, between, first, others⟩ := checkAll_eq_ok_cons done
    obtain ⟨le, checked⟩ := checked_of_check first
    obtain ⟨-, -, program, limit, -⟩ := check_eq_ok first
    obtain ⟨le', rest⟩ := ih others
    rw [program, limit] at rest
    refine ⟨le.trans le', fun f' mem => ?_⟩
    rcases List.mem_cons.1 mem with rfl | mem
    -- what was checked first knew fewer globals
    · exact checked.mono le'
    · exact rest f' mem

/-- Every function of a verified program was checked against the table that is known at the end. -/
theorem checked_of_verify {program : Program} {options : Options} {v : Verifier}
    (verified : verify (.new program options) = .ok () v) {f : Function} (mem : f ∈ program.functions) :
    Checked ⟨program, f, options.stackSize⟩ v.globals :=
  (checked_of_checkAll (v := .new program options) verified).2 f mem

/-! ### Searches of a few steps -/

namespace Search

/-- The end of a search, if it takes fewer than `n` steps. -/
def endWithin (c : Scope) (g : Graph) : Nat → Search → Option (Except Failure Search)
  | 0, _ => none
  | n + 1, s =>
    match s.step c g with
    | .error failure => some (.error failure)
    | .ok none => some (.ok s)
    | .ok (some s') => s'.endWithin c g n

theorem run_of_endWithin {c : Scope} {g : Graph} {b : Bounds} {covers : b.Covers c} {names : b.Names g}
    {s : Search} {contains : b.Contains s} {n : Nat} {result : Except Failure Search}
    (ended : s.endWithin c g n = some result) : s.run c g b covers names contains = result := by
  induction n generalizing s with
  | zero => cases ended
  | succ n ih =>
    rw [endWithin] at ended
    unfold Search.run
    -- one step of the run for one of the counted steps
    split
    · next failure stepped =>
      rw [stepped] at ended
      exact Option.some.inj ended
    · next stepped =>
      rw [stepped] at ended
      exact Option.some.inj ended
    · next s' stepped =>
      rw [stepped] at ended
      exact ih ended

end Search

/-- The table after checking functions whose searches take fewer than `n` steps, if all succeed. -/
def tableWithin (program : Program) (maxStack n : Nat) : List Function → Table Ty → Option (Table Ty)
  | [], T => some T
  | f :: fs, T =>
    let c : Scope := ⟨program, f, maxStack⟩
    match Graph.build f.code with
    | .error _ => none
    | .ok g =>
      if g.blocks.isEmpty then
        match c.checkResults c.floor c.entryStack with
        | .ok () => tableWithin program maxStack n fs T
        | .error _ => none
      else
        match (Search.start c T).endWithin c g n with
        | some (.ok s) => tableWithin program maxStack n fs s.globals
        | _ => none

theorem checkAll_of_tableWithin {program : Program} {maxStack n : Nat} {fs : List Function}
    {T T' : Table Ty} (checked : tableWithin program maxStack n fs T = some T') :
    checkAll fs ⟨program, maxStack, T⟩ = .ok () ⟨program, maxStack, T'⟩ := by
  induction fs generalizing T with
  | nil =>
    cases checked
    rfl
  | cons f fs ih =>
    have opened : checkAll (f :: fs) ⟨program, maxStack, T⟩ =
        EStateM.bind (check f) (fun _ => checkAll fs) ⟨program, maxStack, T⟩ := rfl
    rw [opened, EStateM.bind]
    unfold check
    rw [Check.get_bind]
    rw [tableWithin] at checked
    cases built : Graph.build f.code with
    | error e =>
      simp only [built] at checked
      cases checked
    | ok g =>
      simp only [built] at checked ⊢
      -- both sides look at the same graph, and do the same with it
      by_cases empty : g.blocks.isEmpty = true
      · rw [if_pos empty] at checked ⊢
        split at checked
        · next results =>
          simp only [results]
          exact ih checked
        · cases checked
      · rw [if_neg empty] at checked ⊢
        split at checked
        · next s ended =>
          have searched : Scope.search ⟨program, f, maxStack⟩ g T = .ok s := Search.run_of_endWithin ended
          simp only [searched]
          exact ih checked
        · cases checked

theorem verify_of_tableWithin {program : Program} {options : Options} {n : Nat} {T : Table Ty}
    (checked : tableWithin program options.stackSize n program.functions .empty = some T) :
    verify (.new program options) = .ok () ⟨program, options.stackSize, T⟩ :=
  checkAll_of_tableWithin checked

/-- The search through code without blocks ends at once. -/
theorem search_of_empty {c : Scope} {g : Graph} {T : Table Ty} (empty : g.blocks.isEmpty = true) :
    ∃ s, c.search g T = .ok s ∧ s.globals = T := by
  have nowhere : g.blocks[0]? = none := by
    rw [Array.isEmpty_iff.1 empty]
    rfl
  -- the first visit leads nowhere, and the second step finds nothing pending
  refine ⟨{ Search.start c T with pending := [] }, Search.run_of_endWithin (n := 2) ?_, rfl⟩
  simp [Search.endWithin, Search.step, Search.start, Visit.of, nowhere]

/-- The scope in which the entry code is checked. -/
abbrev entryScope (p : Program) (o : Options) : Scope := ⟨p, p.entry, o.stackSize⟩

/-- A verified program has a finished search through its entry code, in which the entry stands. -/
theorem entry_of_verify {p : Program} {o : Options} {v : Verifier}
    (verified : verify (.new p o) = .ok () v) :
    ∃ g sites s, Graph.build p.code = .ok g ∧ (entryScope p o).search g .empty = .ok s ∧
      s.globals.Le v.globals ∧ Survey.Covers ⟨g, sites, s.seen⟩ (entryScope p o) s.globals ∧
      Survey.Stands ⟨g, sites, s.seen⟩ (entryScope p o) s.globals 0 ⟨[], .empty⟩ := by
  obtain ⟨exits, between, checked, others⟩ := checkAll_eq_ok_cons (v := .new p o) verified
  obtain ⟨g, built, -, -, outcome⟩ := check_eq_ok checked
  have later := (checked_of_checkAll others).1
  obtain ⟨sites, cut⟩ := Flow.cut_of_build built
  rcases outcome with ⟨empty, same, results, -⟩ | ⟨nonempty, s, searched, same, -⟩
  -- the entry is empty: the check made no search, but one would end at once
  · obtain ⟨s, searched, start⟩ := @search_of_empty (entryScope p o) _ .empty empty
    have closed := (closed_of_search searched).2.1
    have same : between.globals = s.globals := same.trans start.symm
    rw [same] at later
    exact ⟨g, sites, s, built, searched, later, ⟨cut, closed⟩, stands_of_empty cut empty results⟩
  · obtain ⟨covers, stands⟩ := @stands_of_search (entryScope p o) _ _ _ _ cut nonempty searched
    rw [same] at later
    exact ⟨g, sites, s, built, searched, later, covers, stands⟩

end Verifier

end StackVM
