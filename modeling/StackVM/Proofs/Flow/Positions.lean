import StackVM.Proofs.Flow.Outline
import StackVM.Proofs.Code.Operands

/-!
# Positions in code

Code whose graph can be built is a row of instructions without gaps, cut into blocks where control can
arrive. Main statements: the instructions of a block are those between its start and its stop
(`block_eq`), control that leaves an instruction stays in its block or goes to the start of a
successor (`next_block`, `target_block`), and a branch at run time goes to one of the targets that were
found beforehand (`jumps_eq_targets`).
-/

namespace StackVM

namespace Flow

variable {code : Code} {ip : Nat} {sites : List Site} {s s' : Site}

/-! ### Blocks -/

/-- The code was cut into these instructions, which make up the blocks of the graph. -/
structure Cut (code : Code) (g : Graph) (sites : List Site) : Prop where
  chain : Chain code 0 sites
  scanned : sites.map Site.toLocated = code.scan.1
  lands : ∀ s ∈ sites, Flow.lands sites s = true
  graph : g = .ofSites sites code.size

theorem cut_of_build {g : Graph} (built : Graph.build code = .ok g) : ∃ sites, Cut code g sites := by
  rw [Graph.build_eq_outline] at built
  obtain ⟨sites, found, built⟩ := bind_eq_ok built
  split at built
  · cases built
  · next landed =>
    cases built
    obtain ⟨chain, scanned⟩ := chain_of_sites found
    refine ⟨sites, chain, scanned, fun s mem => ?_, rfl⟩
    have good := List.find?_eq_none.1 landed s mem
    simpa using good

namespace Cut

variable {g : Graph} {i : Nat} {block : Block} (cut : Cut code g sites)
include cut

theorem mem_scan {l : Located} : l ∈ code.scan.1 ↔ ∃ s ∈ sites, s.toLocated = l := by
  rw [← cut.scanned, List.mem_map]

/-- What a block is made from: its range, the instructions in it, and its entries in the lists of
neighbours. -/
theorem block_parts (at_i : g.blocks[i]? = some block) :
    (ranges (leaders sites) code.size)[i]? = some (block.start, block.stop) ∧
      block.body = (within sites (block.start, block.stop)).map Site.toLocated ∧
      (successors sites (ranges (leaders sites) code.size))[i]? = some block.succs ∧
      block.preds = predecessors (successors sites (ranges (leaders sites) code.size)) i := by
  rw [cut.graph, Graph.ofSites, List.getElem?_toArray, List.getElem?_map] at at_i
  obtain ⟨⟨⟨⟨a, b⟩, succs⟩, k⟩, found, rfl⟩ := Option.map_eq_some_iff.1 at_i
  rw [List.getElem?_zipIdx] at found
  obtain ⟨pair, paired, same⟩ := Option.map_eq_some_iff.1 found
  simp only [Nat.zero_add, Prod.mk.injEq] at same
  obtain ⟨rfl, rfl⟩ := same
  obtain ⟨at_range, at_succs⟩ := List.getElem?_zip_eq_some.1 paired
  exact ⟨at_range, rfl, at_succs, rfl⟩

/-- What a block consists of: its range, the instructions in it, and the blocks that its last
instruction is linked to. -/
theorem block_eq (at_i : g.blocks[i]? = some block) :
    (ranges (leaders sites) code.size)[i]? = some (block.start, block.stop) ∧
      block.body = (within sites (block.start, block.stop)).map Site.toLocated ∧
      ∀ last, (within sites (block.start, block.stop)).getLast? = some last →
        block.succs = ((ranges (leaders sites) code.size).zipIdx.filter
          fun (range', j) => linked i last j range'.1).map Prod.snd := by
  obtain ⟨at_range, body, at_succs, -⟩ := cut.block_parts at_i
  refine ⟨at_range, body, fun last ends => ?_⟩
  -- the successors were computed for the same range
  unfold successors at at_succs
  rw [List.getElem?_map, List.getElem?_zipIdx, at_range] at at_succs
  simp only [Option.map_some, Nat.zero_add, ends, Option.some.injEq] at at_succs
  exact at_succs.symm

theorem block_of_range {a b : Nat} (at_i : (ranges (leaders sites) code.size)[i]? = some (a, b)) :
    ∃ block, g.blocks[i]? = some block ∧ block.start = a := by
  have at_succs : ∃ succs, (successors sites (ranges (leaders sites) code.size))[i]? = some succs := by
    unfold successors
    rw [List.getElem?_map, List.getElem?_zipIdx, at_i]
    exact ⟨_, rfl⟩
  obtain ⟨succs, at_succs⟩ := at_succs
  -- blocks are made from pairs of a range and its successors
  have paired : ((ranges (leaders sites) code.size).zip
      (successors sites (ranges (leaders sites) code.size)))[i]? = some ((a, b), succs) :=
    List.getElem?_zip_eq_some.2 ⟨at_i, at_succs⟩
  rw [cut.graph, Graph.ofSites, List.getElem?_toArray, List.getElem?_map, List.getElem?_zipIdx, paired]
  exact ⟨_, rfl, rfl⟩

theorem block_of_leader {x : Nat} (mem : x ∈ leaders sites) :
    ∃ (j : Nat) (block : Block) (b : Nat), g.blocks[j]? = some block ∧ block.start = x ∧
      (ranges (leaders sites) code.size)[j]? = some (x, b) := by
  obtain ⟨j, at_j⟩ := List.getElem?_of_mem mem
  obtain ⟨b, range⟩ := @ranges_of_start _ code.size _ _ at_j
  obtain ⟨block, at_block, start⟩ := cut.block_of_range range
  exact ⟨j, block, b, at_block, start, range⟩

/-- The first block starts at offset zero. -/
theorem first_block (nonempty : g.blocks.isEmpty = false) :
    ∃ block, g.blocks[0]? = some block ∧ block.start = 0 := by
  have inside : 0 < g.blocks.size := by
    rw [Nat.pos_iff_ne_zero]
    intro zero
    simp [Array.isEmpty, zero] at nonempty
  have at_0 : g.blocks[0]? = some g.blocks[0] := Array.getElem?_eq_getElem inside
  refine ⟨g.blocks[0], at_0, ?_⟩
  obtain ⟨range, -, -⟩ := cut.block_eq at_0
  have start := (getElem?_ranges range).1
  rcases leaders_eq_cons cut.chain with none | ⟨others, starts⟩
  · simp [none, leaders] at start
  · rw [starts] at start
    exact (Option.some.inj start).symm

theorem stop_le_size (at_i : g.blocks[i]? = some block) : block.stop ≤ code.size := by
  obtain ⟨range, -, -⟩ := cut.block_eq at_i
  -- a block stops at the start of the next one or at the end of the code
  rcases (getElem?_ranges range).2 with leader | ⟨-, last⟩
  · obtain ⟨⟨s', mem', at_stop⟩, -⟩ := mem_leaders.1 (List.mem_of_getElem? leader)
    have inside := (cut.chain.decoded mem').1
    omega
  · exact Nat.le_of_eq last

/-- A block starts with an instruction, so it is not empty. -/
theorem start_site (at_i : g.blocks[i]? = some block) :
    (∃ s ∈ sites, s.offset = block.start) ∧ block.start < block.stop :=
  first_site cut.chain (cut.block_eq at_i).1

/-- Blocks and their starts are in the same order. -/
theorem start_lt {j : Nat} {block' : Block} (at_i : g.blocks[i]? = some block)
    (at_j : g.blocks[j]? = some block') (before : i < j) : block.start < block'.start := by
  have start := (getElem?_ranges (cut.block_eq at_i).1).1
  have start' := (getElem?_ranges (cut.block_eq at_j).1).1
  obtain ⟨here, start⟩ := List.getElem?_eq_some_iff.1 start
  obtain ⟨there, start'⟩ := List.getElem?_eq_some_iff.1 start'
  have order := List.pairwise_iff_getElem.1 (leaders_sorted cut.chain) i j here there before
  rwa [start, start'] at order

/-- Where a block starts, no other block is. -/
theorem block_unique {j : Nat} {block' : Block} (at_i : g.blocks[i]? = some block)
    (at_j : g.blocks[j]? = some block') (after : block.start ≤ block'.start)
    (before : block'.start < block.stop) : i = j := by
  rcases Nat.lt_trichotomy i j with less | same | more
  · -- a later block starts where this one stops or behind that
    have start' := (getElem?_ranges (cut.block_eq at_j).1).1
    have := stop_le_start (leaders_sorted cut.chain) (cut.block_eq at_i).1 (List.mem_of_getElem? start')
      (cut.start_lt at_i at_j less)
    omega
  · exact same
  · have := cut.start_lt at_j at_i more
    omega

/-- The search finds the block that holds an offset. -/
theorem blockAt?_eq_some_iff {x : Nat} :
    g.blockAt? x = some i ↔ ∃ block, g.blocks[i]? = some block ∧ block.start ≤ x ∧ x < block.stop := by
  have splits : Bisection.Splits g.blocks (fun b => decide (b.start ≤ x)) _ :=
    Bisection.partitionPoint_splits fun i j b b' at_i at_j le below => by
      rcases Nat.lt_or_eq_of_le le with less | rfl
      · have := cut.start_lt at_i at_j less
        simp only [decide_eq_true_eq] at below ⊢
        omega
      · rwa [Option.some.inj (at_i.symm.trans at_j)]
  unfold Graph.blockAt?
  generalize Bisection.partitionPoint g.blocks (fun b => decide (b.start ≤ x)) = place at splits
  constructor
  · intro found
    cases place with
    | zero => cases found
    | succ k =>
      have inside := splits.le_size
      have at_k : g.blocks[k]? = some g.blocks[k] := Array.getElem?_eq_getElem (by omega)
      have start : g.blocks[k].start ≤ x := by simpa using splits.passes k _ at_k (by omega)
      simp only [at_k, Option.any_some, decide_eq_true_eq] at found
      split at found
      · next stop =>
        cases found
        exact ⟨_, at_k, start, stop⟩
      · cases found
  · rintro ⟨block, at_i, start, stop⟩
    -- the block lies before the place, and no later block does
    have before : i < place := by
      by_contra after
      have fails := splits.fails i _ at_i (by omega)
      simp [start] at fails
    have inside := splits.le_size
    cases place with
    | zero => omega
    | succ k =>
      have at_k : g.blocks[k]? = some g.blocks[k] := Array.getElem?_eq_getElem (by omega)
      have start' : g.blocks[k].start ≤ x := by simpa using splits.passes k _ at_k (by omega)
      obtain rfl : i = k := by
        rcases Nat.lt_or_eq_of_le (Nat.le_of_lt_succ before) with less | same
        · exact cut.block_unique at_i at_k (Nat.le_of_lt (cut.start_lt at_i at_k less)) (by omega)
        · exact same
      simp [at_i, stop]

/-- Every offset in code lies in the block that is found for it. -/
theorem block_at {x : Nat} (inside : x < code.size) :
    ∃ i block, g.blocks[i]? = some block ∧ block.start ≤ x ∧ x < block.stop ∧ g.blockAt? x = some i := by
  -- the first instruction starts a block, so the blocks leave no gap
  obtain ⟨others, starts⟩ : ∃ others, leaders sites = 0 :: others := by
    have chain := cut.chain
    rcases leaders_eq_cons chain with none | starts
    · rw [none] at chain
      exact absurd inside (Nat.not_lt.2 (Nat.le_trans chain (Nat.zero_le x)))
    · exact starts
  obtain ⟨i, start, stop, range, after, before⟩ := @ranges_cover code.size 0 x others (Nat.zero_le x) inside
  rw [← starts] at range
  obtain ⟨block, at_i, -⟩ := cut.block_of_range range
  obtain ⟨range', -, -⟩ := cut.block_eq at_i
  rw [range, Option.some.injEq, Prod.mk.injEq] at range'
  obtain ⟨rfl, rfl⟩ := range'
  exact ⟨i, block, at_i, after, before, cut.blockAt?_eq_some_iff.2 ⟨block, at_i, after, before⟩⟩

/-- Code without blocks is empty. -/
theorem size_of_empty (empty : g.blocks.isEmpty = true) : sites = [] ∧ code.size = 0 := by
  have chain := cut.chain
  cases found : sites with
  | nil =>
    rw [found] at chain
    exact ⟨rfl, Nat.le_zero.1 chain⟩
  | cons t rest =>
    have zero : t.offset = 0 := by
      rw [found] at chain
      exact chain.1
    -- an instruction at offset zero would start a block
    have leader : 0 ∈ leaders sites :=
      mem_leaders.2 ⟨⟨t, by simp [found], zero⟩, List.mem_cons_self⟩
    obtain ⟨j, block, -, at_j, -, -⟩ := cut.block_of_leader leader
    rw [Array.isEmpty_iff.1 empty] at at_j
    simp at at_j

/-- An instruction at the end of its range is the last one of its block. -/
theorem last_of_block (mem : s ∈ sites)
    (after : block.start ≤ s.offset) (before : s.offset < block.stop) (ends : block.stop ≤ s.next) :
    (within sites (block.start, block.stop)).getLast? = some s := by
  -- no instruction of the range comes after this one
  have nothing : within sites (s.next, block.stop) = [] := by
    refine List.filter_eq_nil_iff.2 fun u _ => ?_
    simp only [Bool.and_eq_true, decide_eq_true_eq, not_and]
    omega
  rw [cut.chain.within_split mem after before, nothing]
  simp

theorem linked_mem (at_i : g.blocks[i]? = some block) (mem : s ∈ sites)
    (after : block.start ≤ s.offset) (before : s.offset < block.stop) (ends : block.stop ≤ s.next)
    {j a b : Nat} (range : (ranges (leaders sites) code.size)[j]? = some (a, b))
    (link : linked i s j a = true) : j ∈ block.succs := by
  obtain ⟨-, -, succs⟩ := cut.block_eq at_i
  -- the links of a block are those of its last instruction
  rw [succs s (cut.last_of_block mem after before ends)]
  exact mem_places.2 ⟨(a, b), range, link⟩

/-- A jump ends its block, and each of its targets is the start of a successor. -/
theorem target_block (at_i : g.blocks[i]? = some block) (mem : s ∈ sites)
    (after : block.start ≤ s.offset) (before : s.offset < block.stop)
    (ends : block.stop ≤ s.next) {x : Nat} (target : x ∈ s.targets) :
    ∃ j block', g.blocks[j]? = some block' ∧ block'.start = x ∧ j ∈ block.succs := by
  have leader := target_mem_leaders (cut.lands s mem) mem target
  obtain ⟨j, block', b, at_j, start, range⟩ := cut.block_of_leader leader
  refine ⟨j, block', at_j, start, cut.linked_mem at_i mem after before ends range ?_⟩
  simp [linked, target]

/-- A terminator is the last instruction of its block. -/
theorem stop_le_next (at_i : g.blocks[i]? = some block) (mem : s ∈ sites)
    (after : block.start ≤ s.offset) (terminator : s.inst.opcode.isTerminator = true) :
    block.stop ≤ s.next := by
  obtain ⟨range, -, -⟩ := cut.block_eq at_i
  have pos := next_pos s
  -- what follows a terminator starts a block of its own
  rcases cut.chain.next_site mem with past | ⟨s', mem', at_next⟩
  · exact Nat.le_trans (cut.stop_le_size at_i) past
  · exact stop_le_start (leaders_sorted cut.chain) range (next_mem_leaders mem mem' at_next terminator)
      (by omega)

/-- Control that runs on stays in the block, runs off the end of the code, or enters the next block. -/
theorem next_block (at_i : g.blocks[i]? = some block) (mem : s ∈ sites)
    (after : block.start ≤ s.offset) (before : s.offset < block.stop)
    (falls : s.inst.opcode.fallsThrough = true) :
    (s.next < block.stop ∧ ∃ s' ∈ sites, s'.offset = s.next) ∨
      (block.stop ≤ s.next ∧ block.stop = code.size ∧ code.size ≤ s.next) ∨
      (block.stop ≤ s.next ∧ ∃ block', g.blocks[i + 1]? = some block' ∧ block'.start = s.next ∧
        i + 1 ∈ block.succs) := by
  obtain ⟨range, -, -⟩ := cut.block_eq at_i
  -- either the block goes on after the instruction or it stops there
  by_cases inside : s.next < block.stop
  · have bound := cut.stop_le_size at_i
    rcases cut.chain.next_site mem with past | follower
    · omega
    · exact .inl ⟨inside, follower⟩
  have ends : block.stop ≤ s.next := by omega
  rcases (getElem?_ranges range).2 with leader | ⟨-, last⟩
  · -- the next block starts where this one stops
    obtain ⟨⟨s', mem', at_stop⟩, -⟩ := mem_leaders.1 (List.mem_of_getElem? leader)
    have le := cut.chain.next_le mem mem' (by omega)
    obtain ⟨b, range'⟩ := @ranges_of_start _ code.size _ _ leader
    obtain ⟨block', at_j, start⟩ := cut.block_of_range range'
    refine .inr (.inr ⟨ends, block', at_j, by omega, ?_⟩)
    refine cut.linked_mem at_i mem after before ends range' ?_
    simp [linked, falls]
  -- the last block stops at the end of the code
  · rcases cut.chain.next_site mem with past | ⟨s', mem', at_next⟩
    · exact .inr (.inl ⟨ends, last, past⟩)
    · have := (cut.chain.decoded mem').1
      omega

end Cut

end Flow

/-! ### Branches at run time -/

namespace Instruction

/-- How far the instruction can jump: the displacements of the cases, then the one for all other selectors. -/
def displacements (inst : Instruction) : List Int :=
  match inst.opcode with
  | .br | .brIf => [inst.signed 0]
  | .brTable => (List.range (inst.operand 0 + 1)).map fun i => inst.signed (i + 1)
  | _ => []

/-- Where the instruction can jump to; `none` stands for a place before the start of the code. -/
def jumps (inst : Instruction) (next : Nat) : List (Option Nat) :=
  match inst.opcode with
  | .br | .brIf => [Code.jumpTarget? next (inst.signed 0)]
  | .brTable =>
    (List.range (inst.operand 0 + 1)).map fun i => Code.jumpTarget? next (inst.signed (i + 1))
  | _ => []

theorem jumps_eq_displacements (inst : Instruction) (next : Nat) :
    inst.jumps next = inst.displacements.map (Code.jumpTarget? next) := by
  unfold Instruction.jumps displacements
  split
  · rfl
  · rfl
  · rw [List.map_map]
    rfl
  · rfl

theorem branch_of_jumps {inst : Instruction} {next : Nat} {place : Option Nat}
    (mem : place ∈ inst.jumps next) : inst.opcode ∈ [.br, .brIf, .brTable] := by
  unfold Instruction.jumps at mem
  split at mem
  · next opcode => simp [opcode]
  · next opcode => simp [opcode]
  · next opcode => simp [opcode]
  · cases mem

theorem isTerminator_of_jumps {inst : Instruction} {next : Nat} {place : Option Nat}
    (mem : place ∈ inst.jumps next) : inst.opcode.isTerminator = true := by
  have ends : ∀ op ∈ [Opcode.br, .brIf, .brTable], op.isTerminator = true := by decide
  exact ends inst.opcode (branch_of_jumps mem)

end Instruction

namespace Code

variable {code : Code} {ip : Nat}

theorem map_of_mapM {α β : Type} {f : α → Option β} {as : List α} {bs : List β}
    (mapped : as.mapM f = some bs) : as.map f = bs.map some := by
  induction as generalizing bs with
  | nil =>
    cases mapped
    rfl
  | cons a as ih =>
    rw [List.mapM_cons] at mapped
    obtain ⟨b, first, mapped⟩ := Option.bind_eq_some_iff.1 mapped
    obtain ⟨rest, others, mapped⟩ := Option.bind_eq_some_iff.1 mapped
    cases mapped
    rw [List.map_cons, List.map_cons, first, ih others]

theorem mapM_eq_some_map {α β : Type} {f : α → Option β} {g : α → β} {as : List α}
    (each : ∀ a ∈ as, f a = some (g a)) : as.mapM f = some (as.map g) := by
  induction as with
  | nil => rfl
  | cons a as ih =>
    rw [List.mapM_cons, each a List.mem_cons_self, ih fun a mem => each a (List.mem_cons_of_mem _ mem)]
    rfl

theorem decode_eq_error {e : Error} (failed : Instruction.decode code ip = .error e) :
    e = Error.atOffset Cause.segmentationFault ip ∨ e = Error.atOffset Cause.unknownOpcode ip := by
  unfold Instruction.decode at failed
  split at failed
  · cases failed
    exact .inl rfl
  -- no such opcode, or fields that run past the end of the code
  · split at failed
    · cases failed
      exact .inr rfl
    · simp only at failed
      split at failed
      · cases failed
        exact .inl rfl
      · cases failed

/-- The displacements that are found for a branch are those in its operands. -/
theorem displacements?_of_decode {inst : Instruction} (decoded : Instruction.decode code ip = .ok inst) :
    code.displacements? ip inst.opcode = some inst.displacements := by
  have first {width : Nat} (at_0 : inst.widths[0]? = some width) :
      code.read? (ip + 1) width = some (inst.operand 0) := read?_operand decoded at_0
  unfold Instruction.displacements
  cases opcode : inst.opcode with
  | br => simp [displacements?, readSigned?, first (by simp [Instruction.widths, opcode]; rfl), Instruction.signed]
  | brIf => simp [displacements?, readSigned?, first (by simp [Instruction.widths, opcode]; rfl), Instruction.signed]
  -- the number of cases is itself read from the code
  | brTable =>
    have count : code.read? (ip + 1) 2 = some (inst.operand 0) :=
      first (by simp [Instruction.widths, opcode, Instruction.fieldWidths])
    simp only [displacements?, count, Option.bind_eq_bind, Option.bind_some]
    refine mapM_eq_some_map fun i mem => ?_
    rw [readSigned?, read?_case decoded opcode (by simpa [Nat.lt_succ_iff] using mem)]
    rfl
  | _ => rfl

/-- A branch goes to one of the targets that were found for it. -/
theorem jumps_eq_targets {inst : Instruction} {targets : List Nat}
    (decoded : Instruction.decode code ip = .ok inst)
    (found : code.branchTargets ip inst.opcode inst.width = .ok targets) :
    inst.jumps (ip + inst.width) = targets.map some := by
  unfold branchTargets at found
  rw [displacements?_of_decode decoded, Option.bind_some] at found
  split at found
  · next ts landed =>
    cases found
    rw [inst.jumps_eq_displacements, map_of_mapM landed]
  · cases found

end Code

end StackVM
