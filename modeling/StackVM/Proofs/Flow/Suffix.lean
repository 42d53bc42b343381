import Mathlib.Data.List.Sort
import StackVM.Proofs.Flow.Edges
import StackVM.Proofs.Flow.Landing

/-!
# The graph of a suffix

Code that no jump enters or leaves except at its first instruction can be cut off there, and what is left
has the rest of the graph as its own. Main statement: `Graph.build_suffix`.

Cutting moves every instruction and every target by the same distance, for displacements count from the
instruction itself (`Chain.back`). Hence the instructions of the suffix are those of the whole behind the
cut (`Behind`), its starts of blocks are the starts there (`Behind.leaders_drop`), and so are its ranges.
The neighbours of a block come in increasing order, so that it is enough to say which ones they are.
-/

namespace StackVM

/-- The code from an offset on. -/
def Code.suffix (code : Code) (s : Nat) : Code := code.extract s code.size

/-- No jump crosses the offset: those before it go to it at most, and those behind it do not go back over
it. -/
structure Code.Closed (code : Code) (s : Nat) : Prop where
  before : ∀ l ∈ code.scan.1, l.offset < s → ∀ x, some x ∈ l.inst.jumps l.next → x ≤ s
  behind : ∀ l ∈ code.scan.1, s ≤ l.offset → ∀ x, some x ∈ l.inst.jumps l.next → s ≤ x

/-- The instruction moved by `s` bytes. -/
def Located.forward (s : Nat) (l : Located) : Located := { l with offset := s + l.offset }

/-- The instruction and its targets moved by `s` bytes. -/
def Site.forward (s : Nat) (t : Site) : Site := ⟨t.toLocated.forward s, t.targets.map (s + ·)⟩

section Forward

variable (s : Nat) (t : Site)

@[simp] theorem Site.offset_forward : (t.forward s).offset = s + t.offset := rfl

@[simp] theorem Site.inst_forward : (t.forward s).inst = t.inst := rfl

@[simp] theorem Site.next_forward : (t.forward s).next = s + t.next := Nat.add_assoc _ _ _

@[simp] theorem Site.mem_targets_forward {x : Nat} : s + x ∈ (t.forward s).targets ↔ x ∈ t.targets := by
  simp [forward]

end Forward

/-- The second block is the first one after `s` bytes, which held `k` blocks, were cut off: the offsets are
smaller by `s` and the neighbours by `k`. Of the predecessors only those behind the cut are left. -/
structure Block.Shifted (s k : Nat) (b b' : Block) : Prop where
  start : b.start = s + b'.start
  stop : b.stop = s + b'.stop
  body : b.body = b'.body.map (Located.forward s)
  succs : b.succs = b'.succs.map (k + ·)
  preds : b.preds.filter (k ≤ ·) = b'.preds.map (k + ·)

namespace Code

variable {code : Code} {s ip : Nat} {inst : Instruction} {targets : List Nat}

/-! ### Reading a suffix -/

theorem size_suffix (code : Code) (s : Nat) : (code.suffix s).size = code.size - s := by
  simp [suffix]

theorem drop_suffix (code : Code) (s ip : Nat) :
    (code.suffix s).toList.drop ip = code.toList.drop (s + ip) := by
  rw [suffix, Array.toList_extract, List.extract_eq_take_drop, ← List.drop_drop, List.take_of_length_le]
  simp

/-- What decodes in the suffix is what decodes `s` bytes further on in the whole. -/
theorem decode_suffix :
    Instruction.decode (code.suffix s) ip = .ok inst ↔ Instruction.decode code (s + ip) = .ok inst := by
  rw [Instruction.decode_eq_ok_iff, Instruction.decode_eq_ok_iff, drop_suffix]

theorem mapM_of_map {α β : Type} {f : α → Option β} {as : List α} {bs : List β}
    (mapped : as.map f = bs.map some) : as.mapM f = some bs := by
  induction as generalizing bs with
  | nil =>
    cases bs with
    | nil => rfl
    | cons b bs => cases mapped
  | cons a as ih =>
    cases bs with
    | nil => cases mapped
    | cons b bs =>
      obtain ⟨first, others⟩ := List.cons.inj mapped
      rw [List.mapM_cons, first, ih others]
      rfl

/-- The targets that are found for a branch are those it goes to. -/
theorem branchTargets_eq_ok_iff (decoded : Instruction.decode code ip = .ok inst) :
    code.branchTargets ip inst.opcode inst.width = .ok targets ↔
      inst.jumps (ip + inst.width) = targets.map some := by
  constructor
  · intro found
    exact jumps_eq_targets decoded found
  · intro jumps
    rw [Instruction.jumps_eq_displacements] at jumps
    rw [branchTargets, displacements?_of_decode decoded, Option.bind_some, mapM_of_map jumps]

/-- A jump is as far from wherever it starts. -/
theorem jumps_back {next : Nat} (jumps : inst.jumps (s + next) = (targets.map (s + ·)).map some) :
    inst.jumps next = targets.map some := by
  rw [Instruction.jumps_eq_displacements] at jumps ⊢
  generalize inst.displacements = ds at jumps
  induction ds generalizing targets with
  | nil =>
    cases targets with
    | nil => rfl
    | cons t targets => cases jumps
  | cons d ds ih =>
    cases targets with
    | nil => cases jumps
    | cons t targets =>
      obtain ⟨first, others⟩ := List.cons.inj jumps
      have target : jumpTarget? next d = some t := by
        obtain ⟨here, small⟩ : ((s + t : Nat) : Int) = (s + next : Nat) + d ∧ s + t < offsetLimit :=
          jumpTarget?_eq_some_iff.1 first
        exact jumpTarget?_eq_some_iff.2 ⟨by omega, by omega⟩
      rw [List.map_cons, List.map_cons, target, ih others]

end Code

namespace Flow

variable {code : Code} {s k ip : Nat} {sites sites' : List Site} {t : Site}

/-! ### Instructions behind the cut -/

theorem Chain.scan (chain : Chain code ip sites) :
    code.scanFrom ip = (sites.map Site.toLocated, none) ∧
      (sites.map Site.toLocated).mapM (siteOf code) = .ok sites := by
  induction sites generalizing ip with
  | nil => exact ⟨Code.scanFrom_past chain, rfl⟩
  | cons t rest ih =>
    obtain ⟨rfl, inside, decoded, targets, tail⟩ := chain
    obtain ⟨scanned, mapped⟩ := ih tail
    have scanned : code.scanFrom (t.offset + t.inst.width) = (rest.map Site.toLocated, none) := scanned
    have site : siteOf code t.toLocated = .ok t := by
      rw [siteOf, targets]
      rfl
    constructor
    · rw [Code.scanFrom_ok inside decoded, scanned]
      rfl
    · rw [List.map_cons, List.mapM_cons, site, mapped]
      rfl

/-- Code that is a row of instructions is found to be one. -/
theorem Chain.sites_eq (chain : Chain code 0 sites) : Flow.sites code = .ok sites := by
  obtain ⟨scanned, mapped⟩ := chain.scan
  rw [Flow.sites, withTargets, Code.scan, scanned]
  simp only [mapped]
  rfl

/-- A row of instructions can be cut at any of them. -/
theorem Chain.cut_at (chain : Chain code ip sites) (mem : t ∈ sites) :
    ∃ front rest, sites = front ++ rest ∧ Chain code t.offset rest ∧ ∀ u ∈ front, u.next ≤ t.offset := by
  induction sites generalizing ip with
  | nil => cases mem
  | cons u sites ih =>
    have whole := chain
    obtain ⟨rfl, -, -, -, tail⟩ := chain
    rcases List.mem_cons.1 mem with rfl | here
    · exact ⟨[], t :: sites, rfl, whole, fun _ none => by cases none⟩
    · obtain ⟨front, rest, rfl, chain, passed⟩ := ih tail here
      exact ⟨u :: front, rest, rfl, chain, List.forall_mem_cons.2 ⟨tail.le_offset here, passed⟩⟩

/-- The instructions behind the cut are those of the suffix, moved, if none of them jumps over the cut. -/
theorem Chain.back (chain : Chain code (s + ip) sites) (stay : ∀ t ∈ sites, ∀ x ∈ t.targets, s ≤ x) :
    ∃ sites', sites = sites'.map (Site.forward s) ∧ Chain (code.suffix s) ip sites' := by
  induction sites generalizing ip with
  | nil =>
    have past : code.size ≤ s + ip := chain
    have past' : (code.suffix s).size ≤ ip := by
      rw [Code.size_suffix]
      omega
    exact ⟨[], rfl, past'⟩
  | cons t rest ih =>
    obtain ⟨place, inside, decoded, targets, tail⟩ := chain
    obtain ⟨here, stay⟩ := List.forall_mem_cons.1 stay
    have next : t.next = s + (ip + t.inst.width) := by
      rw [Located.next, place, Nat.add_assoc]
    rw [next] at tail
    obtain ⟨rest', rfl, tail'⟩ := ih tail stay
    -- the instruction as the suffix has it
    have moved : (t.targets.map (· - s)).map (s + ·) = t.targets := by
      rw [List.map_map]
      exact (List.map_congr_left fun x mem => Nat.add_sub_cancel' (here x mem)).trans (List.map_id _)
    have same : t = Site.forward s ⟨⟨ip, t.inst⟩, t.targets.map (· - s)⟩ := by
      rw [Site.forward, moved, Located.forward, ← place]
    have decoded' := Code.decode_suffix.2 decoded
    refine ⟨⟨⟨ip, t.inst⟩, t.targets.map (· - s)⟩ :: rest', by rw [List.map_cons, ← same], rfl, ?_, decoded',
      ?_, tail'⟩
    · rw [Code.size_suffix]
      omega
    · refine (Code.branchTargets_eq_ok_iff decoded').2 (Code.jumps_back (s := s) ?_)
      rw [moved, ← Nat.add_assoc]
      exact (Code.branchTargets_eq_ok_iff decoded).1 targets

/-- The first instructions lie behind the cut and are the second ones, moved; what lies before the cut reaches
it at most. -/
def Behind (s : Nat) (sites sites' : List Site) : Prop :=
  ∃ front, sites = front ++ sites'.map (Site.forward s) ∧
    ∀ u ∈ front, u.next ≤ s ∧ ∀ x ∈ u.targets, x ≤ s

namespace Behind

variable (behind : Behind s sites sites')
include behind

theorem mem_forward (mem : t ∈ sites') : t.forward s ∈ sites := by
  obtain ⟨front, rfl, -⟩ := behind
  exact List.mem_append_right front (List.mem_map_of_mem mem)

/-- An instruction is before the cut, or it is one of the suffix. -/
theorem mem_cases (mem : t ∈ sites) :
    (t.next ≤ s ∧ ∀ x ∈ t.targets, x ≤ s) ∨ ∃ t' ∈ sites', t'.forward s = t := by
  obtain ⟨front, rfl, passed⟩ := behind
  rcases List.mem_append.1 mem with here | here
  · exact .inl (passed t here)
  · exact .inr (List.mem_map.1 here)

theorem offset_iff {x : Nat} : (∃ t ∈ sites, t.offset = s + x) ↔ ∃ t ∈ sites', t.offset = x := by
  constructor
  · rintro ⟨t, mem, place⟩
    rcases behind.mem_cases mem with ⟨past, -⟩ | ⟨t', mem', rfl⟩
    · have pos := next_pos t
      omega
    · exact ⟨t', mem', Nat.add_left_cancel place⟩
  · rintro ⟨t, mem, rfl⟩
    exact ⟨t.forward s, behind.mem_forward mem, rfl⟩

theorem within_forward (a b : Nat) :
    within sites (s + a, s + b) = (within sites' (a, b)).map (Site.forward s) := by
  obtain ⟨front, rfl, passed⟩ := behind
  have none : within front (s + a, s + b) = [] := by
    refine List.filter_eq_nil_iff.2 fun u mem => ?_
    have pos := next_pos u
    have past := (passed u mem).1
    simp only [Bool.and_eq_true, decide_eq_true_eq, not_and]
    omega
  rw [within, List.filter_append]
  rw [within] at none
  rw [none, List.nil_append, List.filter_map, within]
  congr 1
  refine List.filter_congr fun t _ => ?_
  simp

theorem lands_back (landed : lands sites (t.forward s) = true) : lands sites' t = true := by
  refine List.all_eq_true.2 fun x target => ?_
  have found := List.all_eq_true.1 landed (s + x) (List.mem_map_of_mem target)
  obtain ⟨t', mem, place⟩ := List.any_eq_true.1 found
  obtain ⟨u, here, rfl⟩ := behind.offset_iff.1 ⟨t', mem, by simpa using place⟩
  exact List.any_eq_true.2 ⟨u, here, by simp⟩

/-- Control arrives at the same places behind the cut: what lies before it reaches only the first of them,
which is where the suffix starts. -/
theorem mem_arrivals_iff {x : Nat} (pos : 0 < x) : s + x ∈ arrivals sites ↔ x ∈ arrivals sites' := by
  simp only [arrivals, List.mem_cons, List.mem_flatMap, List.mem_append]
  rw [or_iff_right (by omega), or_iff_right (by omega)]
  constructor
  · rintro ⟨t, mem, arrives⟩
    rcases behind.mem_cases mem with ⟨past, far⟩ | ⟨t', mem', rfl⟩
    -- from before the cut control gets no further than to it
    · rcases arrives with target | follows
      · have := far _ target
        omega
      · split at follows
        · have := List.mem_singleton.1 follows
          omega
        · cases follows
    · exact ⟨t', mem', by simpa using arrives⟩
  · rintro ⟨t, mem, arrives⟩
    exact ⟨t.forward s, behind.mem_forward mem, by simpa using arrives⟩

theorem mem_leaders_iff (start : s ∈ leaders sites) {x : Nat} :
    s + x ∈ leaders sites ↔ x ∈ leaders sites' := by
  rw [mem_leaders, mem_leaders, behind.offset_iff]
  refine and_congr_right fun _ => ?_
  rcases Nat.eq_zero_or_pos x with rfl | pos
  -- the suffix is entered at its start
  · exact iff_of_true (mem_leaders.1 start).2 List.mem_cons_self
  · exact behind.mem_arrivals_iff pos

end Behind

/-! ### Starts and ranges behind the cut -/

section Sorted

variable {starts : List Nat} (sorted : starts.Pairwise (· < ·)) (at_k : starts[k]? = some s)
include sorted at_k

theorem le_of_start_le {j x : Nat} (at_j : starts[j]? = some x) (le : s ≤ x) : k ≤ j := by
  obtain ⟨here, at_k⟩ := List.getElem?_eq_some_iff.1 at_k
  obtain ⟨there, at_j⟩ := List.getElem?_eq_some_iff.1 at_j
  by_contra before
  have order := List.pairwise_iff_getElem.1 sorted j k there here (by omega)
  omega

theorem mem_drop_iff {x : Nat} : x ∈ starts.drop k ↔ x ∈ starts ∧ s ≤ x := by
  constructor
  · intro mem
    refine ⟨List.mem_of_mem_drop mem, ?_⟩
    obtain ⟨i, at_i⟩ := List.getElem?_of_mem mem
    rw [List.getElem?_drop] at at_i
    obtain ⟨here, at_k⟩ := List.getElem?_eq_some_iff.1 at_k
    obtain ⟨there, at_i⟩ := List.getElem?_eq_some_iff.1 at_i
    -- it stands at the place of `s` or after it
    rcases Nat.eq_zero_or_pos i with rfl | pos
    · exact Nat.le_of_eq (at_k.symm.trans at_i)
    · have order := List.pairwise_iff_getElem.1 sorted k (k + i) here there (by omega)
      omega
  · rintro ⟨mem, le⟩
    obtain ⟨j, at_j⟩ := List.getElem?_of_mem mem
    have later := le_of_start_le sorted at_k at_j le
    refine List.mem_of_getElem? (i := j - k) ?_
    rw [List.getElem?_drop, Nat.add_sub_cancel' later, at_j]

end Sorted

theorem ranges_drop {starts : List Nat} {size : Nat} (inside : k < starts.length) :
    (ranges starts size).drop k = ranges (starts.drop k) size := by
  have enough : k ≤ starts.tail.length := by
    rw [List.length_tail]
    omega
  rw [ranges, ranges, List.zip, List.drop_zipWith, List.drop_append_of_le_length enough, List.drop_tail,
    List.tail_drop]

theorem ranges_map (starts : List Nat) (size : Nat) :
    ranges (starts.map (s + ·)) (s + size) = (ranges starts size).map fun r => (s + r.1, s + r.2) := by
  rw [ranges, ranges, ← List.map_tail]
  have stops : starts.tail.map (s + ·) ++ [s + size] = (starts.tail ++ [size]).map (s + ·) := by simp
  rw [stops, List.zip_map]
  rfl

/-! ### Blocks behind the cut -/

/-- The code is cut at an offset where block `k` starts, and both the whole and the suffix have a graph. -/
structure Suffixed (code : Code) (s k : Nat) (g g' : Graph) (sites sites' : List Site) : Prop where
  whole : Cut code g sites
  part : Cut (code.suffix s) g' sites'
  behind : Behind s sites sites'
  at_k : (leaders sites)[k]? = some s

namespace Suffixed

variable {g g' : Graph} {i j x : Nat} {block block' : Block} {last : Site}
  (cut : Suffixed code s k g g' sites sites')
include cut

theorem leaders_drop : (leaders sites).drop k = (leaders sites').map (s + ·) := by
  have sorted := leaders_sorted cut.whole.chain
  have moved : ((leaders sites').map (s + ·)).Pairwise (· < ·) := by
    refine List.pairwise_map.2 ((leaders_sorted cut.part.chain).imp fun {a b} less => ?_)
    omega
  refine (sorted.drop).eq_of_mem_iff moved fun x => ?_
  rw [mem_drop_iff sorted cut.at_k, List.mem_map]
  have start := List.mem_of_getElem? cut.at_k
  constructor
  · rintro ⟨mem, le⟩
    rw [← Nat.add_sub_cancel' le] at mem ⊢
    exact ⟨x - s, (cut.behind.mem_leaders_iff start).1 mem, rfl⟩
  · rintro ⟨y, mem, rfl⟩
    exact ⟨(cut.behind.mem_leaders_iff start).2 mem, Nat.le_add_right s y⟩

theorem ranges_drop_eq : (ranges (leaders sites) code.size).drop k =
    (ranges (leaders sites') (code.suffix s).size).map fun r => (s + r.1, s + r.2) := by
  obtain ⟨inside, -⟩ := List.getElem?_eq_some_iff.1 cut.at_k
  have within : s ≤ code.size := by
    obtain ⟨⟨t, mem, place⟩, -⟩ := mem_leaders.1 (List.mem_of_getElem? cut.at_k)
    have := (cut.whole.chain.decoded mem).1
    omega
  rw [ranges_drop inside, cut.leaders_drop, ← ranges_map, Code.size_suffix, Nat.add_sub_cancel' within]

theorem size_eq : g.blocks.size - k = g'.blocks.size := by
  rw [cut.whole.size_eq, cut.part.size_eq, ← List.length_drop, cut.ranges_drop_eq, List.length_map]

theorem range_eq (at_i : g.blocks[k + i]? = some block) (at_i' : g'.blocks[i]? = some block') :
    block.start = s + block'.start ∧ block.stop = s + block'.stop := by
  obtain ⟨range, -, -⟩ := cut.whole.block_eq at_i
  obtain ⟨range', -, -⟩ := cut.part.block_eq at_i'
  rw [← List.getElem?_drop, cut.ranges_drop_eq, List.getElem?_map, range'] at range
  simpa [eq_comm] using range

/-- Each block behind the cut is left in the suffix. -/
theorem part_block (at_i : g.blocks[k + i]? = some block) : ∃ block', g'.blocks[i]? = some block' := by
  obtain ⟨inside, -⟩ := Array.getElem?_eq_some_iff.1 at_i
  have size := cut.size_eq
  exact ⟨_, Array.getElem?_eq_getElem (by omega)⟩

theorem whole_block (at_i : g'.blocks[i]? = some block') : ∃ block, g.blocks[k + i]? = some block := by
  obtain ⟨inside, -⟩ := Array.getElem?_eq_some_iff.1 at_i
  have size := cut.size_eq
  exact ⟨_, Array.getElem?_eq_getElem (by omega)⟩

theorem within_eq (at_i : g.blocks[k + i]? = some block) (at_i' : g'.blocks[i]? = some block') :
    within sites (block.start, block.stop) =
      (within sites' (block'.start, block'.stop)).map (Site.forward s) := by
  obtain ⟨start, stop⟩ := cut.range_eq at_i at_i'
  rw [start, stop, cut.behind.within_forward]

omit cut in
/-- A link says how far the blocks and the offsets are from each other. -/
theorem linked_forward : linked (k + i) (last.forward s) (k + j) (s + x) = linked i last j x := by
  have next : (k + j == k + i + 1) = (j == i + 1) := by
    rw [Bool.eq_iff_iff, beq_iff_eq, beq_iff_eq]
    omega
  have target : (last.forward s).targets.contains (s + x) = last.targets.contains x := by simp
  rw [linked, linked, target, next]
  rfl

/-- Links from behind the cut do not lead back over it. -/
theorem le_of_linked (at_j : g.blocks[j]? = some block)
    (link : linked (k + i) (last.forward s) j block.start = true) : k ≤ j := by
  obtain ⟨range, -, -⟩ := cut.whole.block_eq at_j
  rw [linked, Bool.or_eq_true, Bool.and_eq_true, List.contains_iff_mem, beq_iff_eq] at link
  rcases link with target | ⟨-, next⟩
  · obtain ⟨x, -, place⟩ := List.mem_map.1 target
    exact le_of_start_le (leaders_sorted cut.whole.chain) cut.at_k (getElem?_ranges range).1 (by omega)
  · omega

theorem mem_succs_iff (at_i : g.blocks[k + i]? = some block) (at_i' : g'.blocks[i]? = some block') :
    j ∈ block.succs ↔ ∃ j' ∈ block'.succs, k + j' = j := by
  obtain ⟨last, -, ends', -⟩ := cut.part.last_site at_i'
  -- both blocks end with the same instruction, moved
  have ends : (within sites (block.start, block.stop)).getLast? = some (last.forward s) := by
    rw [cut.within_eq at_i at_i', List.getLast?_map, ends', Option.map_some]
  constructor
  · intro edge
    obtain ⟨next, at_j⟩ : ∃ next, g.blocks[j]? = some next :=
      ⟨_, Array.getElem?_eq_getElem (cut.whole.succs_lt at_i edge)⟩
    have link := (cut.whole.mem_succs_iff at_i at_j ends).1 edge
    obtain ⟨j, rfl⟩ := Nat.exists_eq_add_of_le (cut.le_of_linked at_j link)
    obtain ⟨next', at_j'⟩ := cut.part_block at_j
    rw [(cut.range_eq at_j at_j').1, linked_forward] at link
    exact ⟨j, (cut.part.mem_succs_iff at_i' at_j' ends').2 link, rfl⟩
  · rintro ⟨j, edge, rfl⟩
    obtain ⟨next', at_j'⟩ : ∃ next', g'.blocks[j]? = some next' :=
      ⟨_, Array.getElem?_eq_getElem (cut.part.succs_lt at_i' edge)⟩
    obtain ⟨next, at_j⟩ := cut.whole_block at_j'
    rw [cut.whole.mem_succs_iff at_i at_j ends, (cut.range_eq at_j at_j').1, linked_forward]
    exact (cut.part.mem_succs_iff at_i' at_j' ends').1 edge

theorem mem_preds_iff (at_j : g.blocks[k + j]? = some block) (at_j' : g'.blocks[j]? = some block') :
    k + i ∈ block.preds ↔ i ∈ block'.preds := by
  constructor
  · intro edge
    obtain ⟨prev, at_i⟩ : ∃ prev, g.blocks[k + i]? = some prev :=
      ⟨_, Array.getElem?_eq_getElem (cut.whole.preds_lt at_j edge)⟩
    obtain ⟨prev', at_i'⟩ := cut.part_block at_i
    rw [cut.whole.mem_preds_iff at_i at_j, cut.mem_succs_iff at_i at_i'] at edge
    obtain ⟨j', edge, same⟩ := edge
    rw [cut.part.mem_preds_iff at_i' at_j', ← Nat.add_left_cancel same]
    exact edge
  · intro edge
    obtain ⟨prev', at_i'⟩ : ∃ prev', g'.blocks[i]? = some prev' :=
      ⟨_, Array.getElem?_eq_getElem (cut.part.preds_lt at_j' edge)⟩
    obtain ⟨prev, at_i⟩ := cut.whole_block at_i'
    rw [cut.part.mem_preds_iff at_i' at_j'] at edge
    rw [cut.whole.mem_preds_iff at_i at_j, cut.mem_succs_iff at_i at_i']
    exact ⟨j, edge, rfl⟩

omit cut in
theorem sorted_map {ns : List Nat} (sorted : ns.Pairwise (· < ·)) :
    (ns.map (k + ·)).Pairwise (· < ·) :=
  List.pairwise_map.2 (sorted.imp fun less => Nat.add_lt_add_left less k)

theorem shifted (at_i : g.blocks[k + i]? = some block) (at_i' : g'.blocks[i]? = some block') :
    block.Shifted s k block' := by
  obtain ⟨start, stop⟩ := cut.range_eq at_i at_i'
  obtain ⟨succs, preds⟩ := cut.whole.edges_sorted at_i
  obtain ⟨succs', preds'⟩ := cut.part.edges_sorted at_i'
  -- the lists of neighbours are in order, so that only their members have to be compared
  refine ⟨start, stop, ?_, ?_, ?_⟩
  · rw [cut.whole.body_eq (Array.mem_of_getElem? at_i), cut.within_eq at_i at_i',
      cut.part.body_eq (Array.mem_of_getElem? at_i'), List.map_map, List.map_map]
    rfl
  · refine succs.eq_of_mem_iff (sorted_map succs') fun j => ?_
    rw [cut.mem_succs_iff at_i at_i', List.mem_map]
  · refine (preds.filter _).eq_of_mem_iff (sorted_map preds') fun j => ?_
    rw [List.mem_filter, List.mem_map, decide_eq_true_eq]
    constructor
    · rintro ⟨edge, le⟩
      obtain ⟨i, rfl⟩ := Nat.exists_eq_add_of_le le
      exact ⟨i, (cut.mem_preds_iff at_i at_i').1 edge, rfl⟩
    · rintro ⟨i, edge, rfl⟩
      exact ⟨(cut.mem_preds_iff at_i at_i').2 edge, Nat.le_add_right k i⟩

end Suffixed

/-- Code that can be cut has a graph behind the cut. -/
theorem suffixed_of_cut {g : Graph} (cut : Cut code g sites) (at_k : (leaders sites)[k]? = some s)
    (closed : code.Closed s) :
    ∃ g' sites', Graph.build (code.suffix s) = .ok g' ∧ Suffixed code s k g g' sites sites' := by
  obtain ⟨⟨t, mem, rfl⟩, -⟩ := mem_leaders.1 (List.mem_of_getElem? at_k)
  obtain ⟨front, rest, split, chain, passed⟩ := cut.chain.cut_at mem
  -- what the code promises of jumps holds of the targets that were found
  have jump_of {u : Site} (here : u ∈ sites) {x : Nat} (target : x ∈ u.targets) :
      u.toLocated ∈ code.scan.1 ∧ some x ∈ u.inst.jumps u.next :=
    ⟨cut.mem_scan.2 ⟨u, here, rfl⟩, (cut.mem_jumps_iff here).2 target⟩
  have stay : ∀ u ∈ rest, ∀ x ∈ u.targets, t.offset ≤ x := by
    intro u here x target
    obtain ⟨known, jump⟩ := jump_of (split ▸ List.mem_append_right front here) target
    exact closed.behind u.toLocated known (chain.le_offset here) x jump
  have from_cut : Chain code (t.offset + 0) rest := chain
  obtain ⟨sites', rfl, chain'⟩ := from_cut.back stay
  have behind : Behind t.offset sites sites' := by
    refine ⟨front, split, fun u here => ⟨passed u here, fun x target => ?_⟩⟩
    obtain ⟨known, jump⟩ := jump_of (split ▸ List.mem_append_left _ here) target
    have pos := next_pos u
    exact closed.before u.toLocated known (Nat.lt_of_lt_of_le pos (passed u here)) x jump
  -- the targets behind the cut are instructions of the suffix, so it has a graph
  have landed : ∀ u ∈ sites', lands sites' u = true := fun u here =>
    behind.lands_back (cut.lands _ (behind.mem_forward here))
  have built : Graph.build (code.suffix t.offset) = .ok (.ofSites sites' (code.suffix t.offset).size) := by
    rw [Graph.build_eq_outline, Graph.outline, chain'.sites_eq]
    have none : sites'.find? (fun u => !lands sites' u) = none :=
      List.find?_eq_none.2 fun u here => by simp [landed u here]
    simp only [bind, Except.bind, none]
    rfl
  refine ⟨_, sites', built, cut, ⟨chain', ?_, landed, rfl⟩, behind, at_k⟩
  rw [Code.scan, chain'.scan.1]

end Flow

namespace Graph

/-- Code that is cut where block `k` starts, if no jump crosses this offset, has blocks `k`, `k + 1` and so on
as its graph, counted from the cut. -/
theorem build_suffix {code : Code} {g : Graph} {k : Nat} {block : Block} (built : Graph.build code = .ok g)
    (at_k : g.blocks[k]? = some block) (closed : code.Closed block.start) :
    ∃ g', Graph.build (code.suffix block.start) = .ok g' ∧
      List.Forall₂ (Block.Shifted block.start k) (g.blocks.toList.drop k) g'.blocks.toList := by
  obtain ⟨sites, whole⟩ := Flow.cut_of_build built
  obtain ⟨g', sites', built', cut⟩ :=
    Flow.suffixed_of_cut whole (Flow.getElem?_ranges (whole.block_eq at_k).1).1 closed
  refine ⟨g', built', List.forall₂_iff_get.2 ⟨?_, fun i inside inside' => ?_⟩⟩
  · rw [List.length_drop, Array.length_toList, Array.length_toList, cut.size_eq]
  · refine cut.shifted (i := i) ?_ ?_
    · rw [← Array.getElem?_toList, ← List.getElem?_drop]
      exact List.getElem?_eq_getElem inside
    · rw [← Array.getElem?_toList]
      exact List.getElem?_eq_getElem inside'

/-- A condition that skips an instruction, and a loop behind it. -/
def skipping : Code :=
  Instruction.assemble
    [⟨.const .i32, [0]⟩, ⟨.brIf, [1]⟩, ⟨.nop, []⟩, ⟨.const .i32, [1]⟩, ⟨.brIf, [0x100000000 - 10]⟩, ⟨.ret, []⟩]

/-- The loop is left when the condition is cut off; of its three predecessors it keeps itself. -/
theorem skipping_suffix :
    ∃ g block, Graph.build skipping = .ok g ∧ g.blocks[2]? = some block ∧ block.start = 11 ∧
      block.preds = [0, 1, 2] ∧ skipping.Closed 11 ∧
      ∃ g', Graph.build (skipping.suffix 11) = .ok g' ∧
        g'.blocks.toList.map (fun block => (block.start, block.stop, block.succs, block.preds)) =
          [(0, 10, [0, 1], [0]), (10, 11, [], [0])] ∧
        List.Forall₂ (Block.Shifted 11 2) (g.blocks.toList.drop 2) g'.blocks.toList := by
  obtain ⟨blocks, blocks', jumps⟩ :
      (Graph.build skipping).toOption.map (fun g => g.blocks[2]?.map fun block =>
        (block.start, block.preds)) = some (some (11, [0, 1, 2])) ∧
      (Graph.build (skipping.suffix 11)).toOption.map
        (fun g => g.blocks.toList.map fun block => (block.start, block.stop, block.succs, block.preds)) =
          some [(0, 10, [0, 1], [0]), (10, 11, [], [0])] ∧
      ∀ l ∈ skipping.scan.1, ∀ place ∈ l.inst.jumps l.next, ∀ x ∈ place,
        if l.offset < 11 then x ≤ 11 else 11 ≤ x := by
    decide +kernel
  have closed : skipping.Closed 11 := by
    refine ⟨fun l mem before x jump => ?_, fun l mem behind x jump => ?_⟩
    · simpa [before] using jumps l mem _ jump x rfl
    · simpa [Nat.not_lt.2 behind] using jumps l mem _ jump x rfl
  cases built : Graph.build skipping with
  | error e =>
    rw [built] at blocks
    cases blocks
  | ok g =>
    rw [built] at blocks
    obtain ⟨block, at_2, parts⟩ := Option.map_eq_some_iff.1 (Option.some.inj blocks)
    obtain ⟨start, preds⟩ := Prod.mk.inj parts
    obtain ⟨g', built', shifted⟩ := build_suffix built at_2 (start ▸ closed)
    rw [start] at built' shifted
    rw [built'] at blocks'
    exact ⟨g, block, rfl, at_2, start, preds, closed, g', built', Option.some.inj blocks', shifted⟩

end Graph

end StackVM
