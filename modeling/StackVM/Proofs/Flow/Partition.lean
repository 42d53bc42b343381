import StackVM.Proofs.Code.Encoding
import StackVM.Proofs.Flow.Positions

/-!
# The partition into blocks

The blocks of a graph cut its code into whole instructions at exactly the offsets where a block has to
start. Main statement: `Graph.partitions_of_build`, which covers the ranges of the blocks, their starts,
what they consist of, and the look-up of the block at an offset.

The ranges between sorted starts tile the code (`tiles_ranges`), and what lies between two instructions
is a row of instructions without gaps (`Chain.row_within`), whose bytes are their encodings (`Row.bytes`).
-/

namespace StackVM

/-- The opcodes after which a block ends. -/
def Opcode.terminators : List Opcode := [.br, .brIf, .brTable, .ret, .unreachable]

/-- A block has to start at the offset: the code begins there, an instruction jumps there, or one that
ends a block stands before it. -/
inductive Code.Leader (code : Code) : Nat → Prop where
  | entry (nonempty : 0 < code.size) : Leader code 0
  | target {l : Located} {x : Nat} (mem : l ∈ code.scan.1) (jump : some x ∈ l.inst.jumps l.next) :
    Leader code x
  | after {l : Located} (mem : l ∈ code.scan.1) (ends : l.inst.opcode ∈ Opcode.terminators)
    (inside : l.next < code.size) : Leader code l.next

namespace Flow

/-- The ranges follow one another without gaps from one offset to another, and none is empty. -/
def Tiles : Nat → List (Nat × Nat) → Nat → Prop
  | start, [], stop => start = stop
  | start, (a, b) :: rest, stop => a = start ∧ a < b ∧ Tiles b rest stop

/-- The instructions follow one another without gaps from one offset to another. -/
def Row : Nat → List Located → Nat → Prop
  | start, [], stop => start = stop
  | start, l :: rest, stop => l.offset = start ∧ Row l.next rest stop

end Flow

namespace Graph

/-- The blocks of the graph partition the code, and start exactly where they have to. -/
structure Partitions (g : Graph) (code : Code) : Prop where
  tiles : Flow.Tiles 0 (g.blocks.toList.map fun block => (block.start, block.stop)) code.size
  starts : ∀ x, (∃ block ∈ g.blocks, block.start = x) ↔ code.Leader x
  /-- Every instruction of the code is in one block. -/
  bodies : g.blocks.toList.flatMap Block.body = code.scan.1
  /-- A block is a whole number of instructions. -/
  rows : ∀ block ∈ g.blocks, Flow.Row block.start block.body block.stop ∧
    Instruction.assemble (block.body.map Located.inst) = code.extract block.start block.stop
  /-- Only the last instruction of a block can end one. -/
  last : ∀ block ∈ g.blocks, ∀ l ∈ block.body, l.inst.opcode ∈ Opcode.terminators →
    l.next = block.stop
  /-- No instruction jumps into a block other than to its start. -/
  interior : ∀ block ∈ g.blocks, ∀ l ∈ code.scan.1, ∀ x, some x ∈ l.inst.jumps l.next →
    ¬ (block.start < x ∧ x < block.stop)
  blockAt_some : ∀ offset i, g.blockAt? offset = some i ↔
    ∃ block, g.blocks[i]? = some block ∧ block.start ≤ offset ∧ offset < block.stop
  blockAt_none : ∀ offset, g.blockAt? offset = none ↔ code.size ≤ offset

end Graph

theorem Opcode.mem_terminators_iff {op : Opcode} :
    op ∈ terminators ↔ op.isTerminator = true := by
  cases op <;> simp [terminators, isTerminator]

namespace Flow

variable {code : Code} {ip a b c : Nat} {sites : List Site} {s : Site}

/-! ### Ranges and rows -/

theorem Tiles.le {rs : List (Nat × Nat)} (tiles : Tiles a rs c) : a ≤ c := by
  induction rs generalizing a with
  | nil => exact Nat.le_of_eq tiles
  | cons r rs ih =>
    obtain ⟨rfl, filled, tail⟩ := tiles
    have := ih tail
    omega

/-- The ranges between sorted starts leave no gap. -/
theorem tiles_ranges {others : List Nat} (sorted : (a :: others).Pairwise (· < ·))
    (inside : ∀ x ∈ a :: others, x < c) : Tiles a (ranges (a :: others) c) c := by
  induction others generalizing a with
  | nil => exact ⟨rfl, inside a List.mem_cons_self, rfl⟩
  | cons b others ih =>
    obtain ⟨first, sorted⟩ := List.pairwise_cons.1 sorted
    exact ⟨rfl, first b List.mem_cons_self,
      ih sorted fun x mem => inside x (List.mem_cons_of_mem a mem)⟩

theorem within_self (sites : List Site) (a : Nat) : within sites (a, a) = [] := by
  refine List.filter_eq_nil_iff.2 fun s _ => ?_
  simp only [Bool.and_eq_true, decide_eq_true_eq, not_and]
  omega

theorem within_cons (s : Site) (sites : List Site) (a b : Nat) :
    within (s :: sites) (a, b) =
      if a ≤ s.offset ∧ s.offset < b then s :: within sites (a, b) else within sites (a, b) := by
  simp [within, List.filter_cons]

/-- A range can be cut in two. -/
theorem within_append (sorted : sites.Pairwise fun s s' => s.offset < s'.offset) (first : a ≤ b)
    (second : b ≤ c) : within sites (a, b) ++ within sites (b, c) = within sites (a, c) := by
  induction sites with
  | nil => rfl
  | cons s sites ih =>
    obtain ⟨later, sorted⟩ := List.pairwise_cons.1 sorted
    by_cases before : s.offset < b
    -- an instruction before the cut is in the first part, if in any
    · rw [within_cons, within_cons, within_cons, if_neg (by omega : ¬ (b ≤ s.offset ∧ s.offset < c)),
        ← ih sorted]
      by_cases after : a ≤ s.offset
      · rw [if_pos ⟨after, before⟩, if_pos ⟨after, by omega⟩, List.cons_append]
      · rw [if_neg (fun h => after h.1), if_neg (fun h => after h.1)]
    -- behind the cut there are only instructions of the second part
    · have behind : ∀ s' ∈ s :: sites, b ≤ s'.offset := by
        refine List.forall_mem_cons.2 ⟨by omega, fun s' mem => ?_⟩
        have := later s' mem
        omega
      have none : within (s :: sites) (a, b) = [] := by
        refine List.filter_eq_nil_iff.2 fun s' mem => ?_
        have := behind s' mem
        simp only [Bool.and_eq_true, decide_eq_true_eq, not_and]
        omega
      rw [none, List.nil_append]
      refine List.filter_congr fun s' mem => ?_
      have := behind s' mem
      rw [decide_eq_true this, decide_eq_true (by omega : a ≤ s'.offset)]

/-- Ranges without gaps between them hold what lies between the ends. -/
theorem flatMap_within {rs : List (Nat × Nat)}
    (sorted : sites.Pairwise fun s s' => s.offset < s'.offset) (tiles : Tiles a rs c) :
    rs.flatMap (within sites) = within sites (a, c) := by
  induction rs generalizing a with
  | nil =>
    cases tiles
    exact (within_self sites _).symm
  | cons r rs ih =>
    obtain ⟨rfl, filled, tail⟩ := tiles
    rw [List.flatMap_cons, ih tail]
    exact within_append sorted (Nat.le_of_lt filled) tail.le

theorem Chain.offsets_sorted (chain : Chain code ip sites) :
    sites.Pairwise fun s s' => s.offset < s'.offset :=
  chain.sorted.imp fun {s _} before => Nat.lt_of_lt_of_le (next_pos s) before

/-- The instructions from one instruction to another, or to the end of the code, leave no gap. -/
theorem Chain.row_within (chain : Chain code ip sites) (mem : s ∈ sites) (begins : s.offset < b)
    (ends : b = code.size ∨ ∃ s' ∈ sites, s'.offset = b) :
    Row s.offset ((within sites (s.offset, b)).map Site.toLocated) b := by
  induction length : b - s.offset using Nat.strongRecOn generalizing s with
  | ind n ih =>
    have pos := next_pos s
    rw [chain.within_split mem (Nat.le_refl _) begins, within_self, List.nil_append, List.map_cons]
    refine ⟨rfl, ?_⟩
    have bound : s.next ≤ b := by
      rcases ends with rfl | ⟨s', mem', rfl⟩
      · obtain ⟨-, decoded, -⟩ := chain.decoded mem
        exact Instruction.next_le_size decoded
      · exact chain.next_le mem mem' begins
    rcases Nat.lt_or_eq_of_le bound with more | last
    -- before the end there is another instruction
    · obtain past | ⟨t, here, at_next⟩ := chain.next_site mem
      · rcases ends with rfl | ⟨s', mem', rfl⟩
        · omega
        · have := (chain.decoded mem').1
          omega
      · rw [← at_next] at more ⊢
        exact ih (b - t.offset) (by omega) here more rfl
    · rw [← last, within_self]
      rfl

/-- A row goes forward, and its instructions lie within its ends. -/
theorem Row.bounds {ls : List Located} (row : Row a ls b) :
    a ≤ b ∧ ∀ l ∈ ls, a ≤ l.offset ∧ l.next ≤ b := by
  induction ls generalizing a with
  | nil =>
    cases row
    simp
  | cons l ls ih =>
    obtain ⟨rfl, row⟩ := row
    obtain ⟨le, later⟩ := ih row
    have pos : l.offset < l.next := Nat.lt_add_of_pos_right l.inst.width_pos
    refine ⟨by omega, List.forall_mem_cons.2 ⟨⟨Nat.le_refl _, le⟩, fun l' mem => ?_⟩⟩
    have := later l' mem
    omega

/-- The last instruction of a row ends where the row does. -/
theorem Row.next_last {ls : List Located} {l : Located} (row : Row a ls b) (last : ls.getLast? = some l) :
    l.next = b := by
  induction ls generalizing a with
  | nil => cases last
  | cons l' ls ih =>
    obtain ⟨-, row⟩ := row
    cases ls with
    | nil =>
      cases last
      exact row
    | cons l'' ls => exact ih row (by rwa [List.getLast?_cons_cons] at last)

/-- The bytes of a row are the encodings of its instructions. -/
theorem Row.bytes {ls : List Located} (row : Row a ls b)
    (decoded : ∀ l ∈ ls, Instruction.decode code l.offset = .ok l.inst) :
    Instruction.assemble (ls.map Located.inst) = code.extract a b := by
  suffices (ls.map Located.inst).flatMap Instruction.encode = (code.toList.drop a).take (b - a) by
    rw [Instruction.assemble, this, ← List.extract_eq_take_drop, ← Array.toList_extract]
  induction ls generalizing a with
  | nil =>
    cases row
    simp
  | cons l ls ih =>
    obtain ⟨rfl, row⟩ := row
    obtain ⟨first, decoded⟩ := List.forall_mem_cons.1 decoded
    obtain ⟨-, starts⟩ := Instruction.decode_eq_ok_iff.1 first
    have le := row.bounds.1
    have split : b - l.offset = l.inst.width + (b - l.next) := by
      simp only [Located.next] at le ⊢
      omega
    rw [List.map_cons, List.flatMap_cons, ih row decoded, split, List.take_add, List.drop_drop,
      ← Instruction.length_encode, ← List.prefix_iff_eq_take.1 starts, Instruction.length_encode]
    rfl

namespace Cut

variable {g : Graph} {block : Block} {i : Nat} (cut : Cut code g sites)
include cut

/-- The ranges of the blocks are those between the leaders. -/
theorem ranges_eq :
    (g.blocks.toList.map fun block => (block.start, block.stop)) = ranges (leaders sites) code.size := by
  apply List.ext_getElem?
  intro i
  rw [List.getElem?_map, Array.getElem?_toList]
  cases at_i : g.blocks[i]? with
  | some block => exact (cut.block_eq at_i).1.symm
  | none =>
    cases range : (ranges (leaders sites) code.size)[i]? with
    | none => rfl
    | some r =>
      obtain ⟨block, at_i', -⟩ := cut.block_of_range range
      rw [at_i] at at_i'
      cases at_i'

theorem tiles : Tiles 0 (g.blocks.toList.map fun block => (block.start, block.stop)) code.size := by
  rw [cut.ranges_eq]
  have chain := cut.chain
  rcases leaders_eq_cons chain with none | ⟨others, starts⟩
  · rw [none] at chain ⊢
    exact (Nat.le_zero.1 chain).symm
  · have sorted := leaders_sorted chain
    rw [starts] at sorted ⊢
    refine tiles_ranges sorted fun x mem => ?_
    rw [← starts] at mem
    obtain ⟨⟨s, here, rfl⟩, -⟩ := mem_leaders.1 mem
    exact (chain.decoded here).1

theorem body_eq (mem : block ∈ g.blocks) :
    block.body = (within sites (block.start, block.stop)).map Site.toLocated := by
  obtain ⟨i, at_i⟩ := Array.getElem?_of_mem mem
  exact (cut.block_eq at_i).2.1

theorem bodies : g.blocks.toList.flatMap Block.body = code.scan.1 := by
  have chain := cut.chain
  have all : within sites (0, code.size) = sites := by
    refine List.filter_eq_self.2 fun s mem => ?_
    simp [(chain.decoded mem).1]
  have bodies : g.blocks.toList.flatMap Block.body =
      (g.blocks.toList.flatMap fun block => within sites (block.start, block.stop)).map
        Site.toLocated := by
    rw [List.map_flatMap]
    exact List.flatMap_congr fun block mem => cut.body_eq (Array.mem_toList_iff.1 mem)
  have whole := flatMap_within chain.offsets_sorted cut.tiles
  rw [List.flatMap_map, all] at whole
  rw [bodies, whole, cut.scanned]

theorem row (mem : block ∈ g.blocks) : Row block.start block.body block.stop := by
  rw [cut.body_eq mem]
  obtain ⟨i, at_i⟩ := Array.getElem?_of_mem mem
  obtain ⟨range, -, -⟩ := cut.block_eq at_i
  obtain ⟨⟨s, here, start⟩, filled⟩ := cut.start_site at_i
  rw [← start] at filled ⊢
  refine cut.chain.row_within here filled ?_
  -- a block stops where another one starts, or with the code
  rcases (getElem?_ranges range).2 with leader | ⟨-, last⟩
  · exact .inr (mem_leaders.1 (List.mem_of_getElem? leader)).1
  · exact .inl last

/-- The targets that were found for an instruction are where it jumps to. -/
theorem mem_jumps_iff (mem : s ∈ sites) {x : Nat} :
    some x ∈ s.inst.jumps s.next ↔ x ∈ s.targets := by
  obtain ⟨-, decoded, targets⟩ := cut.chain.decoded mem
  rw [Located.next, Code.jumps_eq_targets decoded targets]
  simp

theorem leader_iff {x : Nat} : x ∈ leaders sites ↔ code.Leader x := by
  constructor
  · intro mem
    obtain ⟨⟨s, here, at_x⟩, arrives⟩ := mem_leaders.1 mem
    have inside := (cut.chain.decoded here).1
    rcases List.mem_cons.1 arrives with rfl | arrives
    · exact .entry (by omega)
    obtain ⟨s', mem', arrives⟩ := List.mem_flatMap.1 arrives
    have known := cut.mem_scan.2 ⟨s', mem', rfl⟩
    rcases List.mem_append.1 arrives with target | follows
    · exact .target known ((cut.mem_jumps_iff mem').2 target)
    · split at follows
      · next ends =>
        cases List.mem_singleton.1 follows
        exact .after known (Opcode.mem_terminators_iff.2 ends) (by omega)
      · cases follows
  · intro leader
    cases leader with
    | entry nonempty =>
      rcases leaders_eq_cons cut.chain with none | ⟨others, starts⟩
      · have chain := cut.chain
        rw [none] at chain
        exact absurd nonempty (Nat.not_lt.2 chain)
      · rw [starts]
        exact List.mem_cons_self
    | target mem jump =>
      obtain ⟨s, here, rfl⟩ := cut.mem_scan.1 mem
      exact target_mem_leaders (cut.lands s here) here ((cut.mem_jumps_iff here).1 jump)
    | after mem ends inside =>
      obtain ⟨s, here, rfl⟩ := cut.mem_scan.1 mem
      rcases cut.chain.next_site here with past | ⟨s', mem', at_next⟩
      · omega
      · exact next_mem_leaders here mem' at_next (Opcode.mem_terminators_iff.1 ends)

theorem start_iff {x : Nat} : (∃ block ∈ g.blocks, block.start = x) ↔ code.Leader x := by
  rw [← cut.leader_iff]
  constructor
  · rintro ⟨block, mem, rfl⟩
    obtain ⟨i, at_i⟩ := Array.getElem?_of_mem mem
    exact List.mem_of_getElem? (getElem?_ranges (cut.block_eq at_i).1).1
  · intro leader
    obtain ⟨j, block, -, at_j, start, -⟩ := cut.block_of_leader leader
    exact ⟨block, Array.mem_of_getElem? at_j, start⟩

theorem site_of_body (mem : block ∈ g.blocks) {l : Located} (here : l ∈ block.body) :
    ∃ s ∈ sites, s.toLocated = l ∧ block.start ≤ l.offset ∧ l.offset < block.stop := by
  rw [cut.body_eq mem] at here
  obtain ⟨s, within, rfl⟩ := List.mem_map.1 here
  obtain ⟨known, place⟩ := List.mem_filter.1 within
  simp only [Bool.and_eq_true, decide_eq_true_eq] at place
  exact ⟨s, known, rfl, place⟩

/-- An instruction that ends a block is the last of its block. -/
theorem next_eq_stop (mem : block ∈ g.blocks) {l : Located} (here : l ∈ block.body)
    (ends : l.inst.opcode ∈ Opcode.terminators) : l.next = block.stop := by
  obtain ⟨i, at_i⟩ := Array.getElem?_of_mem mem
  obtain ⟨s, known, rfl, after, before⟩ := cut.site_of_body mem here
  have past := cut.stop_le_next at_i known after (Opcode.mem_terminators_iff.1 ends)
  exact Nat.le_antisymm ((cut.row mem).bounds.2 _ here).2 past

/-- No instruction jumps into the middle of a block. -/
theorem not_interior (mem : block ∈ g.blocks) {l : Located} (here : l ∈ code.scan.1) {x : Nat}
    (jump : some x ∈ l.inst.jumps l.next) : ¬ (block.start < x ∧ x < block.stop) := by
  rintro ⟨after, before⟩
  obtain ⟨i, at_i⟩ := Array.getElem?_of_mem mem
  have start := cut.leader_iff.2 (.target here jump)
  have := stop_le_start (leaders_sorted cut.chain) (cut.block_eq at_i).1 start after
  omega

theorem blockAt?_eq_none_iff {x : Nat} : g.blockAt? x = none ↔ code.size ≤ x := by
  constructor
  · intro missing
    by_contra inside
    obtain ⟨i, -, -, -, -, found⟩ := cut.block_at (x := x) (by omega)
    rw [missing] at found
    cases found
  · intro past
    cases found : g.blockAt? x with
    | none => rfl
    | some i =>
      obtain ⟨block, at_i, -, before⟩ := cut.blockAt?_eq_some_iff.1 found
      have size := cut.stop_le_size at_i
      omega

end Cut

end Flow

namespace Graph

/-- The blocks of a graph partition its code at exactly the offsets where blocks have to start. -/
theorem partitions_of_build {code : Code} {g : Graph} (built : Graph.build code = .ok g) :
    g.Partitions code := by
  obtain ⟨sites, cut⟩ := Flow.cut_of_build built
  refine ⟨cut.tiles, fun _ => cut.start_iff, cut.bodies, ?_, ?_, ?_, ?_, ?_⟩
  · intro block mem
    refine ⟨cut.row mem, (cut.row mem).bytes fun l here => ?_⟩
    obtain ⟨s, known, rfl, -⟩ := cut.site_of_body mem here
    exact (cut.chain.decoded known).2.1
  · intro block mem l here ends
    exact cut.next_eq_stop mem here ends
  · intro block mem l here x jump
    exact cut.not_interior mem here jump
  · intro offset i
    exact cut.blockAt?_eq_some_iff
  · intro offset
    exact cut.blockAt?_eq_none_iff

/-- A loop that starts in the middle of straight-line code, and code after a return. -/
def looping : Code :=
  Instruction.assemble
    [⟨.nop, []⟩, ⟨.const .i32, [1]⟩, ⟨.brIf, [0x100000000 - 10]⟩, ⟨.ret, []⟩, ⟨.nop, []⟩]

/-- The jump back cuts the code before it. -/
theorem looping_partitions :
    ∃ g, Graph.build looping = .ok g ∧
      g.blocks.toList.map (fun block => (block.start, block.stop)) =
        [(0, 1), (1, 11), (11, 12), (12, 13)] ∧
      g.Partitions looping := by
  have ranges : (Graph.build looping).toOption.map
      (fun g => g.blocks.toList.map fun block => (block.start, block.stop)) =
        some [(0, 1), (1, 11), (11, 12), (12, 13)] := by decide +kernel
  cases built : Graph.build looping with
  | error e =>
    rw [built] at ranges
    cases ranges
  | ok g =>
    rw [built] at ranges
    exact ⟨g, rfl, Option.some.inj ranges, partitions_of_build built⟩

end Graph

end StackVM
