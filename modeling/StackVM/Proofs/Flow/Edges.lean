import StackVM.Proofs.Flow.Partition

/-!
# The edges between blocks

A block leads exactly to the blocks where its last instruction can hand over control. Main statement:
`Graph.edges_of_build`, which covers the successors of a block, the predecessors, and the order of both
lists.

Both lists are made of the places of some entries of another list (`mem_places`, `places_sorted`). The
test that picks the successors agrees with `Located.LeadsTo` (`linked_iff`).
-/

namespace StackVM

/-- The instruction, the last one of block `i`, can hand over control to block `j`, which starts at
`start`: it jumps there, or control goes on after it and `j` is the next block. -/
def Located.LeadsTo (last : Located) (i j start : Nat) : Prop :=
  (last.inst.opcode ∈ [.br, .brIf, .brTable] ∧ some start ∈ last.inst.jumps last.next) ∨
    (last.inst.opcode ∉ [.br, .brTable, .ret, .unreachable] ∧ j = i + 1)

namespace Graph

/-- The edges of the graph are the ways from block to block. -/
structure Edges (g : Graph) (code : Code) : Prop where
  succs : ∀ {i j : Nat} {block block' : Block}, g.blocks[i]? = some block →
    g.blocks[j]? = some block' →
      ∃ last, block.body.getLast? = some last ∧ last ∈ code.scan.1 ∧ last.next = block.stop ∧
        (j ∈ block.succs ↔ last.LeadsTo i j block'.start)
  preds : ∀ {i j : Nat} {block block' : Block}, g.blocks[i]? = some block →
    g.blocks[j]? = some block' → (j ∈ block.succs ↔ i ∈ block'.preds)
  sorted : ∀ block ∈ g.blocks, block.succs.Pairwise (· < ·) ∧ block.preds.Pairwise (· < ·)
  /-- An edge joins two blocks of the graph. -/
  known : ∀ block ∈ g.blocks, (∀ j ∈ block.succs, j < g.blocks.size) ∧
    ∀ i ∈ block.preds, i < g.blocks.size

end Graph

theorem Opcode.fallsThrough_iff {op : Opcode} :
    op.fallsThrough = true ↔ op ∉ [.br, .brTable, .ret, .unreachable] := by
  cases op <;> simp [fallsThrough]

namespace Flow

namespace Cut

variable {code : Code} {g : Graph} {sites : List Site} {block block' : Block} {last : Site} {i j : Nat}
  (cut : Cut code g sites)
include cut

/-- Every block has a last instruction, which ends where the block does. -/
theorem last_site (at_i : g.blocks[i]? = some block) :
    ∃ last ∈ sites, (within sites (block.start, block.stop)).getLast? = some last ∧
      block.body.getLast? = some last.toLocated ∧ last.next = block.stop := by
  have mem := Array.mem_of_getElem? at_i
  obtain ⟨⟨s, here, start⟩, filled⟩ := cut.start_site at_i
  have first : s ∈ within sites (block.start, block.stop) := by
    refine List.mem_filter.2 ⟨here, ?_⟩
    simp [start, filled]
  cases ends : (within sites (block.start, block.stop)).getLast? with
  | none =>
    rw [List.getLast?_eq_none_iff.1 ends] at first
    cases first
  | some last =>
    have known := List.mem_filter.1 (List.mem_of_getLast? ends)
    have body : block.body.getLast? = some last.toLocated := by
      rw [cut.body_eq mem, List.getLast?_map, ends]
      rfl
    exact ⟨last, known.1, rfl, body, (cut.row mem).next_last body⟩

/-- The test for a link says whether the instruction leads there. -/
theorem linked_iff (mem : last ∈ sites) {start : Nat} :
    linked i last j start = true ↔ last.LeadsTo i j start := by
  have jumps : some start ∈ last.inst.jumps last.next ↔ start ∈ last.targets := cut.mem_jumps_iff mem
  rw [linked, Bool.or_eq_true, Bool.and_eq_true, List.contains_iff_mem, beq_iff_eq,
    Opcode.fallsThrough_iff, ← jumps]
  refine or_congr_left ?_
  constructor
  · intro jump
    exact ⟨Instruction.branch_of_jumps jump, jump⟩
  · rintro ⟨-, jump⟩
    exact jump

theorem mem_succs_iff (at_i : g.blocks[i]? = some block) (at_j : g.blocks[j]? = some block')
    (ends : (within sites (block.start, block.stop)).getLast? = some last) :
    j ∈ block.succs ↔ linked i last j block'.start = true := by
  obtain ⟨-, -, succs⟩ := cut.block_eq at_i
  obtain ⟨range, -, -⟩ := cut.block_eq at_j
  rw [succs last ends, mem_places, range]
  simp

theorem mem_preds_iff (at_i : g.blocks[i]? = some block) (at_j : g.blocks[j]? = some block') :
    i ∈ block'.preds ↔ j ∈ block.succs := by
  obtain ⟨-, -, succs, -⟩ := cut.block_parts at_i
  obtain ⟨-, -, -, preds⟩ := cut.block_parts at_j
  rw [preds, predecessors, mem_places, succs]
  simp

/-- There are as many blocks as ranges. -/
theorem size_eq : g.blocks.size = (ranges (leaders sites) code.size).length := by
  rw [← cut.ranges_eq, List.length_map, Array.length_toList]

theorem succs_lt (at_i : g.blocks[i]? = some block) (edge : j ∈ block.succs) : j < g.blocks.size := by
  obtain ⟨last, -, ends, -⟩ := cut.last_site at_i
  rw [(cut.block_eq at_i).2.2 last ends, mem_places] at edge
  obtain ⟨range, at_j, -⟩ := edge
  rw [cut.size_eq]
  exact (List.getElem?_eq_some_iff.1 at_j).1

theorem preds_lt (at_j : g.blocks[j]? = some block) (edge : i ∈ block.preds) : i < g.blocks.size := by
  obtain ⟨-, -, -, preds⟩ := cut.block_parts at_j
  rw [preds, predecessors, mem_places] at edge
  obtain ⟨succs, at_i, -⟩ := edge
  -- there is one list of successors for each range
  obtain ⟨inside, -⟩ := List.getElem?_eq_some_iff.1 at_i
  rwa [successors, List.length_map, List.length_zipIdx, ← cut.size_eq] at inside

theorem edges_sorted (at_i : g.blocks[i]? = some block) :
    block.succs.Pairwise (· < ·) ∧ block.preds.Pairwise (· < ·) := by
  obtain ⟨last, -, ends, -⟩ := cut.last_site at_i
  obtain ⟨-, -, -, preds⟩ := cut.block_parts at_i
  rw [(cut.block_eq at_i).2.2 last ends, preds]
  exact ⟨places_sorted _ _, places_sorted _ _⟩

end Cut

end Flow

namespace Graph

/-- The edges of a graph are exactly the ways control can take from one block to another. -/
theorem edges_of_build {code : Code} {g : Graph} (built : Graph.build code = .ok g) : g.Edges code := by
  obtain ⟨sites, cut⟩ := Flow.cut_of_build built
  refine ⟨?_, ?_, ?_, ?_⟩
  · intro i j block block' at_i at_j
    obtain ⟨last, mem, ends, body, stop⟩ := cut.last_site at_i
    refine ⟨last.toLocated, body, cut.mem_scan.2 ⟨last, mem, rfl⟩, stop, ?_⟩
    rw [cut.mem_succs_iff at_i at_j ends, cut.linked_iff mem]
  · intro i j block block' at_i at_j
    exact (cut.mem_preds_iff at_i at_j).symm
  · intro block mem
    obtain ⟨i, at_i⟩ := Array.getElem?_of_mem mem
    exact cut.edges_sorted at_i
  · intro block mem
    obtain ⟨i, at_i⟩ := Array.getElem?_of_mem mem
    exact ⟨fun j edge => cut.succs_lt at_i edge, fun j edge => cut.preds_lt at_i edge⟩

/-- A branch table with two cases for one place and a default that goes back to the start, then an
instruction that control runs through. -/
def switching : Code :=
  Instruction.assemble
    [⟨.const .i32, [1]⟩, ⟨.brTable, [2, 1, 1, 0x100000000 - 20]⟩, ⟨.nop, []⟩, ⟨.ret, []⟩]

/-- The two cases make one edge. -/
theorem switching_edges :
    ∃ g, Graph.build switching = .ok g ∧
      g.blocks.toList.map (fun block => (block.start, block.succs, block.preds)) =
        [(0, [0, 2], [0]), (20, [2], []), (21, [], [0, 1])] ∧
      g.Edges switching := by
  have edges : (Graph.build switching).toOption.map
      (fun g => g.blocks.toList.map fun block => (block.start, block.succs, block.preds)) =
        some [(0, [0, 2], [0]), (20, [2], []), (21, [], [0, 1])] := by decide +kernel
  cases built : Graph.build switching with
  | error e =>
    rw [built] at edges
    cases edges
  | ok g =>
    rw [built] at edges
    exact ⟨g, rfl, Option.some.inj edges, edges_of_build built⟩

end Graph

end StackVM
