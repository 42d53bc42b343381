import StackVM.Proofs.Bisection
import StackVM.Proofs.Flow.Chain

/-!
# What the blocks and edges are

An outline of the graph without searches: the starts of blocks are the offsets where control can arrive, and
there is an edge wherever the last instruction of one block is linked to another block. Main statement:
`Graph.build_eq_outline`. Sorting and bisection find exactly these starts (`starts_eq`), the edges of each
block (`succsOf_eq`) and, in the second pass, the same edges from their other end (`predsOf_eq`).
-/

namespace StackVM

namespace Flow

/-- Whether every target of the instruction is the offset of an instruction. -/
def lands (sites : List Site) (s : Site) : Bool :=
  s.targets.all fun t => sites.any fun s' => s'.offset == t

/-- Offsets at which control can arrive other than from the instruction before. -/
def arrivals (sites : List Site) : List Nat :=
  0 :: sites.flatMap fun s => s.targets ++ if s.inst.opcode.isTerminator then [s.next] else []

/-- The starts of the blocks, in increasing order. -/
def leaders (sites : List Site) : List Nat :=
  let arrivals := arrivals sites
  (sites.map fun s => s.offset).filter fun offset => arrivals.contains offset

/-- Each start with the start that follows it, the last with the end of the code. -/
def ranges (starts : List Nat) (size : Nat) : List (Nat × Nat) :=
  starts.zip (starts.tail ++ [size])

/-- Whether control can pass from the end of block `i`, whose last instruction is `last`, to the block
`j` that starts at `start`. -/
def linked (i : Nat) (last : Site) (j start : Nat) : Bool :=
  last.targets.contains start || (last.inst.opcode.fallsThrough && j == i + 1)

/-- Successors of each block. -/
def successors (sites : List Site) (ranges : List (Nat × Nat)) : List (List Nat) :=
  ranges.zipIdx.map fun (range, i) =>
    match (within sites range).getLast? with
    | none => []
    | some last =>
      (ranges.zipIdx.filter fun (range', j) => linked i last j range'.1).map Prod.snd

/-- Predecessors of block `j`. -/
def predecessors (succs : List (List Nat)) (j : Nat) : List Nat :=
  (succs.zipIdx.filter fun (s, _) => s.contains j).map Prod.snd

end Flow

namespace Graph

open StackVM.Flow

/-- The blocks of code whose instructions and targets are known. -/
def ofSites (sites : List Site) (size : Nat) : Graph :=
  let ranges := ranges (leaders sites) size
  let succs := successors sites ranges
  let blocks := (ranges.zip succs).zipIdx.map fun ((range, succs'), i) =>
    { start := range.1, stop := range.2, body := (within sites range).map Site.toLocated,
      succs := succs', preds := predecessors succs i : Block }
  ⟨blocks.toArray⟩

/-- The outline of the code. A jump to an offset where no instruction starts is an error. -/
def outline (code : Code) : Except Error Graph := do
  let sites ← sites code
  match sites.find? fun s => !lands sites s with
  | some s => throw (Error.atOffset Cause.invalidJump s.offset)
  | none => return ofSites sites code.size

end Graph

namespace Flow

variable {code : Code} {ip : Nat} {sites : List Site} {s s' : Site}

/-! ### Starts of blocks -/

theorem mem_leaders {x : Nat} :
    x ∈ leaders sites ↔ (∃ s ∈ sites, s.offset = x) ∧ x ∈ arrivals sites := by
  simp [leaders]

theorem leaders_sorted (chain : Chain code ip sites) : (leaders sites).Pairwise (· < ·) := by
  -- filtering keeps the order of the offsets
  refine List.Pairwise.filter _ ?_
  rw [List.pairwise_map]
  refine chain.sorted.imp fun {s s'} before => ?_
  have pos := next_pos s
  omega

/-- The first instruction starts a block. -/
theorem leaders_eq_cons (chain : Chain code 0 sites) :
    sites = [] ∨ ∃ others, leaders sites = 0 :: others := by
  cases sites with
  | nil => exact .inl rfl
  | cons t rest =>
    -- offset zero is an arrival
    have zero : t.offset = 0 := chain.1
    have kept : (arrivals (t :: rest)).contains 0 = true := by simp [arrivals]
    simp only [leaders, List.map_cons, zero, List.filter_cons, kept, if_true]
    exact .inr ⟨_, rfl⟩

theorem target_mem_leaders (landed : lands sites s = true) (mem : s ∈ sites) {x : Nat}
    (target : x ∈ s.targets) : x ∈ leaders sites := by
  -- a leader is an offset of an instruction at which control arrives
  refine mem_leaders.2 ⟨?_, ?_⟩
  · have found := List.all_eq_true.1 landed x target
    obtain ⟨s', mem', at_x⟩ := List.any_eq_true.1 found
    exact ⟨s', mem', by simpa using at_x⟩
  · refine List.mem_cons_of_mem _ (List.mem_flatMap.2 ⟨s, mem, ?_⟩)
    exact List.mem_append_left _ target

theorem next_mem_leaders (mem : s ∈ sites) (mem' : s' ∈ sites) (at_next : s'.offset = s.next)
    (ends : s.inst.opcode.isTerminator = true) : s.next ∈ leaders sites := by
  refine mem_leaders.2 ⟨⟨s', mem', at_next⟩, ?_⟩
  refine List.mem_cons_of_mem _ (List.mem_flatMap.2 ⟨s, mem, ?_⟩)
  refine List.mem_append_right _ ?_
  simp [ends]

/-! ### Ranges -/

section Ranges

variable {starts : List Nat} {size i a b : Nat}

theorem getElem?_ranges (at_i : (ranges starts size)[i]? = some (a, b)) :
    starts[i]? = some a ∧ (starts[i + 1]? = some b ∨ (starts[i + 1]? = none ∧ b = size)) := by
  rw [ranges, List.getElem?_zip_eq_some] at at_i
  refine ⟨at_i.1, ?_⟩
  have stop := at_i.2
  rw [List.getElem?_append, List.length_tail] at stop
  obtain ⟨inside, -⟩ := List.getElem?_eq_some_iff.1 at_i.1
  -- the stop is the next start, or the size of the code after the last one
  split at stop
  · rw [List.getElem?_tail] at stop
    exact .inl stop
  · have last : i - (starts.length - 1) = 0 := by omega
    rw [last] at stop
    refine .inr ⟨List.getElem?_eq_none (by omega), ?_⟩
    simpa using stop.symm

theorem ranges_of_start (at_i : starts[i]? = some a) : ∃ b, (ranges starts size)[i]? = some (a, b) := by
  obtain ⟨inside, -⟩ := List.getElem?_eq_some_iff.1 at_i
  have stop : i < (starts.tail ++ [size]).length := by
    simp
    omega
  refine ⟨(starts.tail ++ [size])[i], ?_⟩
  rw [ranges, List.getElem?_zip_eq_some]
  exact ⟨at_i, List.getElem?_eq_getElem stop⟩

/-- What lies after the first start and before the end lies in some range. -/
theorem ranges_cover {x : Nat} {others : List Nat} (after : a ≤ x) (inside : x < size) :
    ∃ i start stop : Nat, (ranges (a :: others) size)[i]? = some (start, stop) ∧ start ≤ x ∧ x < stop := by
  induction others generalizing a with
  | nil => exact ⟨0, a, size, rfl, after, inside⟩
  | cons next others ih =>
    by_cases before : x < next
    · exact ⟨0, a, next, rfl, after, before⟩
    · obtain ⟨i, start, stop, range, within⟩ := ih (Nat.le_of_not_lt before)
      exact ⟨i + 1, start, stop, range, within⟩

/-- No block starts inside a range. -/
theorem stop_le_start (sorted : starts.Pairwise (· < ·)) (at_i : (ranges starts size)[i]? = some (a, b))
    {x : Nat} (mem : x ∈ starts) (after : a < x) : b ≤ x := by
  obtain ⟨start, stop⟩ := getElem?_ranges at_i
  obtain ⟨j, at_j⟩ := List.getElem?_of_mem mem
  obtain ⟨j_inside, at_j⟩ := List.getElem?_eq_some_iff.1 at_j
  obtain ⟨i_inside, start⟩ := List.getElem?_eq_some_iff.1 start
  have order := List.pairwise_iff_getElem.1 sorted
  -- the place of `x` among the starts comes after that of `a`
  have later : i < j := by
    rcases Nat.lt_trichotomy i j with before | same | behind
    · exact before
    · subst same
      omega
    · have := order j i j_inside i_inside behind
      omega
  rcases stop with stop | ⟨none, -⟩
  · obtain ⟨inside, stop⟩ := List.getElem?_eq_some_iff.1 stop
    rcases Nat.lt_or_eq_of_le later with further | same
    · have := order (i + 1) j inside j_inside further
      omega
    · subst same
      exact Nat.le_of_eq (stop.symm.trans at_j)
  · have := List.getElem?_eq_none_iff.1 none
    omega

end Ranges

/-- The places of the entries that a test picks. -/
theorem mem_places {α : Type} {as : List α} {pick : α × Nat → Bool} {j : Nat} :
    j ∈ (as.zipIdx.filter pick).map Prod.snd ↔ ∃ a, as[j]? = some a ∧ pick (a, j) = true := by
  constructor
  · intro mem
    obtain ⟨⟨a, k⟩, here, rfl⟩ := List.mem_map.1 mem
    obtain ⟨at_k, picked⟩ := List.mem_filter.1 here
    exact ⟨a, List.mem_zipIdx_iff_getElem?.1 at_k, picked⟩
  · rintro ⟨a, at_j, picked⟩
    refine List.mem_map.2 ⟨(a, j), List.mem_filter.2 ⟨?_, picked⟩, rfl⟩
    exact List.mem_zipIdx_iff_getElem?.2 at_j


/-- The places of the picked entries are in increasing order. -/
theorem places_sorted {α : Type} (as : List α) (pick : α × Nat → Bool) :
    ((as.zipIdx.filter pick).map Prod.snd).Pairwise (· < ·) := by
  have some_of_all : ((as.zipIdx.filter pick).map Prod.snd).Sublist (as.zipIdx.map Prod.snd) :=
    List.filter_sublist.map _
  rw [List.zipIdx_map_snd] at some_of_all
  exact List.Pairwise.sublist some_of_all List.pairwise_lt_range'

/-! ### The starts that are found -/

/-- The offsets of the instructions. -/
def boundaries (sites : List Site) : Array Nat := (sites.map fun s => s.offset).toArray

theorem boundaries_sorted (chain : Chain code ip sites) : (boundaries sites).toList.Pairwise (· < ·) := by
  rw [boundaries, List.toList_toArray, List.pairwise_map]
  refine chain.sorted.imp fun {s s'} before => ?_
  have pos := next_pos s
  omega

theorem mem_boundaries {x : Nat} : x ∈ boundaries sites ↔ ∃ s ∈ sites, s.offset = x := by
  simp [boundaries]

/-- The starts that an instruction brings about, if its targets are boundaries. -/
def brought (size : Nat) (s : Site) : List Nat :=
  s.targets ++ if s.inst.opcode.isTerminator && s.next < size then [s.next] else []

theorem startsOf_eq (chain : Chain code ip sites) (size : Nat) (s : Site) :
    startsOf (boundaries sites) size s =
      if lands sites s then .ok (brought size s) else .error (Error.atOffset Cause.invalidJump s.offset) := by
  have same : (s.targets.all fun t => (Bisection.find? (boundaries sites) t).isSome) = lands sites s := by
    refine List.all_congr rfl fun t => ?_
    rw [Bool.eq_iff_iff, Bisection.isSome_find? (boundaries_sorted chain), mem_boundaries]
    simp
  rw [startsOf, same]
  rfl

/-- The first entry that fails a test is the error of the whole. -/
theorem mapM_guarded {α β ε : Type} (test : α → Bool) (f : α → β) (e : α → ε) (as : List α) :
    as.mapM (fun a => if test a then (.ok (f a) : Except ε β) else .error (e a)) =
      match as.find? (fun a => !test a) with
      | some a => .error (e a)
      | none => .ok (as.map f) := by
  induction as with
  | nil => rfl
  | cons a as ih =>
    rw [List.mapM_cons, ih, List.find?_cons]
    cases test a with
    | false => rfl
    | true =>
      simp only [Bool.not_true, if_true]
      cases as.find? fun a => !test a <;> rfl

theorem mem_starts_iff (chain : Chain code 0 sites) (filled : sites ≠ [])
    (landed : ∀ s ∈ sites, lands sites s = true) {x : Nat} :
    x ∈ 0 :: (sites.map (brought code.size)).flatten ↔ x ∈ leaders sites := by
  constructor
  · intro mem
    rcases List.mem_cons.1 mem with rfl | mem
    · rcases leaders_eq_cons chain with none | ⟨others, starts⟩
      · exact absurd none filled
      · rw [starts]
        exact List.mem_cons_self
    · obtain ⟨found, here, mem⟩ := List.mem_flatten.1 mem
      obtain ⟨s, known, rfl⟩ := List.mem_map.1 here
      rcases List.mem_append.1 mem with target | next
      · exact target_mem_leaders (landed s known) known target
      · split at next
        · next ends =>
          obtain rfl := List.mem_singleton.1 next
          rw [Bool.and_eq_true, decide_eq_true_eq] at ends
          -- code follows, so there is an instruction
          rcases chain.next_site known with past | ⟨s', mem', at_next⟩
          · omega
          · exact next_mem_leaders known mem' at_next ends.1
        · cases next
  · intro mem
    obtain ⟨⟨s', known', rfl⟩, arrives⟩ := mem_leaders.1 mem
    rcases List.mem_cons.1 arrives with first | arrives
    · rw [first]
      exact List.mem_cons_self
    · obtain ⟨s, known, arrives⟩ := List.mem_flatMap.1 arrives
      refine List.mem_cons_of_mem _ (List.mem_flatten.2 ⟨_, List.mem_map_of_mem known, ?_⟩)
      rcases List.mem_append.1 arrives with target | next
      · exact List.mem_append_left _ target
      · split at next
        · next ends =>
          have here := List.mem_singleton.1 next
          have inside := (chain.decoded known').1
          refine List.mem_append_right _ ?_
          rw [if_pos (by simp [ends, ← here, inside]), here]
          exact List.mem_cons_self
        · cases next

/-- The starts are the leaders, unless some instruction jumps to no instruction. -/
theorem starts_eq (chain : Chain code 0 sites) (filled : sites ≠ []) :
    starts (boundaries sites) code.size sites =
      match sites.find? fun s => !lands sites s with
      | some s => .error (Error.atOffset Cause.invalidJump s.offset)
      | none => .ok (leaders sites).toArray := by
  unfold starts
  rw [funext (startsOf_eq chain code.size), mapM_guarded]
  cases stray : sites.find? fun s => !lands sites s with
  | some s => rfl
  | none =>
    have landed : ∀ s ∈ sites, lands sites s = true := by simpa using stray
    have sorted := Bisection.sortedOnce_eq (leaders_sorted chain) fun x => mem_starts_iff chain filled landed
    simp only [bind, Except.bind, sorted]
    rfl

/-! ### The edges that are found -/

theorem ranges_eq_stops (starts : List Nat) (size : Nat) :
    (starts.zipIdx.map fun (start, i) => (start, stopOf starts.toArray size i)) = ranges starts size := by
  apply List.ext_getElem?
  intro i
  rw [List.getElem?_map, List.getElem?_zipIdx]
  cases at_i : starts[i]? with
  | none =>
    rw [ranges, List.getElem?_eq_none]
    · rfl
    · have outside := List.getElem?_eq_none_iff.1 at_i
      simp only [List.length_zip]
      omega
  | some start =>
    obtain ⟨stop, range⟩ := @ranges_of_start _ size _ _ at_i
    rw [range]
    -- the stop is the next start, or the end of the code
    rcases (getElem?_ranges range).2 with next | ⟨none, rfl⟩
    · simp [stopOf, next]
    · simp [stopOf, none]

theorem getElem?_boundaries (i : Nat) : (boundaries sites)[i]? = sites[i]?.map fun s => s.offset := by
  rw [boundaries, List.getElem?_toArray, List.getElem?_map]

/-- The last instruction of a range is the one with the greatest offset below its end. -/
theorem getLast?_within (chain : Chain code ip sites) {stop : Nat} (mem : s ∈ sites) (filled : s.offset < stop) :
    sites.toArray[Bisection.partitionPoint (boundaries sites) (· < stop) - 1]? =
      (within sites (s.offset, stop)).getLast? := by
  have sorted := boundaries_sorted chain
  have splits : Bisection.Splits (boundaries sites) (· < stop) _ :=
    Bisection.partitionPoint_splits fun i j x y at_i at_j le below => by
      -- a smaller offset is below whatever a greater one is below
      rcases Nat.lt_or_ge y x with less | le
      · have := Bisection.place_lt sorted at_j at_i less
        omega
      · simp only [decide_eq_true_eq] at below ⊢
        omega
  obtain ⟨k, at_k⟩ := List.getElem?_of_mem mem
  have at_k' : (boundaries sites)[k]? = some s.offset := by rw [getElem?_boundaries, at_k, Option.map_some]
  have size : (boundaries sites).size = sites.length := by simp [boundaries]
  -- the instruction at the start comes before the place, so there is one just before the place
  have before : k < Bisection.partitionPoint (boundaries sites) (· < stop) := by
    by_contra after
    have fails := splits.fails k _ at_k' (by omega)
    simp [filled] at fails
  have inside := splits.le_size
  generalize Bisection.partitionPoint (boundaries sites) (· < stop) = place at splits before inside
  have at_last : sites[place - 1]? = some sites[place - 1] := List.getElem?_eq_getElem (by omega)
  generalize sites[place - 1] = last at at_last
  have known := List.mem_of_getElem? at_last
  have at_last' : (boundaries sites)[place - 1]? = some last.offset := by
    rw [getElem?_boundaries, at_last, Option.map_some]
  have below : last.offset < stop := by simpa using splits.passes _ _ at_last' (by omega)
  have le : s.offset ≤ last.offset := by
    by_contra greater
    have := Bisection.place_lt sorted at_last' at_k' (by omega)
    omega
  have nothing : within sites (last.next, stop) = [] := by
    refine List.filter_eq_nil_iff.2 fun u here => ?_
    obtain ⟨j, at_j⟩ := List.getElem?_of_mem here
    have at_j' : (boundaries sites)[j]? = some u.offset := by rw [getElem?_boundaries, at_j, Option.map_some]
    have pos := next_pos last
    simp only [Bool.and_eq_true, decide_eq_true_eq, not_and]
    -- what comes later stands at the place or behind it
    intro later
    have behind := Bisection.place_lt sorted at_last' at_j' (by omega)
    simpa using splits.fails _ _ at_j' (by omega)
  rw [chain.within_split known le below, nothing, List.getElem?_toArray, at_last, List.getLast?_append]
  rfl

/-- The successors found for a block are those that its last instruction is linked to. -/
theorem succsOf_eq (chain : Chain code ip sites) {starts : List Nat} (sorted : starts.Pairwise (· < ·))
    {size i start stop : Nat} (mem : s ∈ sites) (first : s.offset = start) (filled : start < stop) :
    succsOf (boundaries sites) starts.toArray sites.toArray i stop =
      match (within sites (start, stop)).getLast? with
      | none => []
      | some last =>
        ((ranges starts size).zipIdx.filter fun (range', j) => linked i last j range'.1).map Prod.snd := by
  subst first
  unfold succsOf
  rw [getLast?_within chain mem filled]
  cases (within sites (s.offset, stop)).getLast? with
  | none => rfl
  | some last =>
    refine Bisection.sortedOnce_eq (places_sorted _ _) fun j => ?_
    have at_j : (∃ range, (ranges starts size)[j]? = some range ∧ linked i last j range.1 = true) ↔
        ∃ x, starts[j]? = some x ∧ linked i last j x = true := by
      constructor
      · rintro ⟨⟨x, y⟩, range, link⟩
        exact ⟨x, (getElem?_ranges range).1, link⟩
      · rintro ⟨x, here, link⟩
        obtain ⟨y, range⟩ := @ranges_of_start _ size _ _ here
        exact ⟨(x, y), range, link⟩
    have found {x : Nat} : Bisection.find? starts.toArray x = some j ↔ starts[j]? = some x := by
      rw [Bisection.find?_eq_some_iff (by simpa using sorted), List.getElem?_toArray]
    rw [mem_places, at_j, List.mem_append, List.mem_filterMap]
    simp only [found, linked, Bool.or_eq_true, List.contains_iff_mem, Bool.and_eq_true, beq_iff_eq]
    constructor
    · rintro (⟨x, target, here⟩ | next)
      · exact ⟨x, here, .inl target⟩
      · split at next
        · next onward =>
          obtain rfl := List.mem_singleton.1 next
          simp only [decide_eq_true_eq, List.size_toArray] at onward
          exact ⟨_, List.getElem?_eq_getElem onward.2, .inr ⟨onward.1, rfl⟩⟩
        · cases next
    · rintro ⟨x, here, target | ⟨falls, rfl⟩⟩
      · exact .inl ⟨x, target, here⟩
      · obtain ⟨inside, -⟩ := List.getElem?_eq_some_iff.1 here
        right
        rw [if_pos (by simp [falls, inside])]
        exact List.mem_cons_self

/-! ### The second pass -/

/-- The blocks entered for block `j`. -/
abbrev entered (preds : Array (List Nat)) (j : Nat) : List Nat := preds[j]?.getD []

theorem size_enter (preds : Array (List Nat)) (succs : List Nat) (i : Nat) :
    (enter preds succs i).size = preds.size := by
  unfold enter
  induction succs generalizing preds with
  | nil => rfl
  | cons s succs ih => rw [List.foldl_cons, ih, Array.size_modify]

/-- Entering a block adds it to the lists of its successors. -/
theorem mem_enter {preds : Array (List Nat)} {succs : List Nat} {i j k : Nat} (inside : j < preds.size) :
    k ∈ entered (enter preds succs i) j ↔ k ∈ entered preds j ∨ (k = i ∧ j ∈ succs) := by
  unfold enter
  induction succs generalizing preds with
  | nil => simp
  | cons s succs ih =>
    rw [List.foldl_cons, ih (by rwa [Array.size_modify]), List.mem_cons, entered, Array.getElem?_modify,
      Array.getElem?_eq_getElem inside]
    have before : entered preds j = preds[j] := by rw [entered, Array.getElem?_eq_getElem inside, Option.getD_some]
    rw [before]
    by_cases here : s = j
    · subst here
      simp only [if_true, Option.map_some, Option.getD_some, List.mem_append, List.mem_singleton, true_or, and_true]
      tauto
    · simp [here, Ne.symm here]

/-- All blocks are entered one after the other. -/
theorem mem_enterAll {succs : List (List Nat)} {preds : Array (List Nat)} {n j k : Nat} (inside : j < preds.size) :
    k ∈ entered ((succs.zipIdx n).foldl (fun preds (ss, i) => enter preds ss i) preds) j ↔
      k ∈ entered preds j ∨ ∃ ss, (ss, k) ∈ succs.zipIdx n ∧ j ∈ ss := by
  induction succs generalizing preds n with
  | nil => simp
  | cons ss succs ih =>
    rw [List.zipIdx_cons, List.foldl_cons, ih (by rwa [size_enter]), mem_enter inside, or_assoc]
    simp [or_and_right, exists_or]

theorem size_enterAll (succs : List (List Nat)) (preds : Array (List Nat)) (n : Nat) :
    ((succs.zipIdx n).foldl (fun preds (ss, i) => enter preds ss i) preds).size = preds.size := by
  induction succs generalizing preds n with
  | nil => rfl
  | cons ss succs ih => rw [List.zipIdx_cons, List.foldl_cons, ih, size_enter]

/-- The second pass finds the same edges from their other end. -/
theorem predsOf_eq (succs : List (List Nat)) :
    (predsOf succs).toList = (List.range succs.length).map (predecessors succs) := by
  apply List.ext_getElem?
  intro j
  rw [predsOf, Array.toList_map, List.getElem?_map, Array.getElem?_toList, List.getElem?_map]
  by_cases inside : j < succs.length
  · have size : j < (Array.replicate succs.length ([] : List Nat)).size := by rwa [Array.size_replicate]
    have size' := size
    rw [← size_enterAll succs _ 0] at size'
    rw [Array.getElem?_eq_getElem size', List.getElem?_range inside, Option.map_some, Option.map_some]
    refine congrArg some (Bisection.sortedOnce_eq (places_sorted _ _) fun k => ?_)
    have members := @mem_enterAll succs _ 0 j k size
    rw [entered, Array.getElem?_eq_getElem size', Option.getD_some] at members
    rw [members, predecessors, mem_places]
    simp [entered, inside, List.mem_zipIdx_iff_getElem?]
  · rw [Array.getElem?_eq_none (by rw [size_enterAll, Array.size_replicate]; omega),
      List.getElem?_eq_none (by simp; omega)]
    rfl

/-! ### Both graphs -/

/-- A range begins with an instruction. -/
theorem first_site (chain : Chain code ip sites) {i start stop : Nat}
    (range : (ranges (leaders sites) code.size)[i]? = some (start, stop)) :
    (∃ s ∈ sites, s.offset = start) ∧ start < stop := by
  obtain ⟨here, next⟩ := getElem?_ranges range
  obtain ⟨⟨s, known, first⟩, -⟩ := mem_leaders.1 (List.mem_of_getElem? here)
  refine ⟨⟨s, known, first⟩, ?_⟩
  -- starts are sorted, and the last one lies inside the code
  rcases next with next | ⟨-, last⟩
  · obtain ⟨i_inside, here⟩ := List.getElem?_eq_some_iff.1 here
    obtain ⟨next_inside, next⟩ := List.getElem?_eq_some_iff.1 next
    have order := List.pairwise_iff_getElem.1 (leaders_sorted chain) i (i + 1) i_inside next_inside (by omega)
    rwa [here, next] at order
  · have inside := (chain.decoded known).1
    omega

theorem successors_eq (chain : Chain code ip sites) :
    ((ranges (leaders sites) code.size).zipIdx.map fun (range, i) =>
      succsOf (boundaries sites) (leaders sites).toArray sites.toArray i range.2) =
        successors sites (ranges (leaders sites) code.size) := by
  refine List.map_congr_left fun ⟨⟨start, stop⟩, i⟩ mem => ?_
  obtain ⟨⟨s, known, first⟩, filled⟩ := first_site chain (List.mem_zipIdx_iff_getElem?.1 mem)
  exact succsOf_eq chain (leaders_sorted chain) known first filled

/-- The entries of a list beside what is computed from their places. -/
theorem zip_range_map {α β : Type} (as : List α) (f : Nat → β) :
    as.zip ((List.range as.length).map f) = as.zipIdx.map fun (a, i) => (a, f i) := by
  rw [List.zip_map_right, List.range_eq_range', ← List.zipIdx_eq_zip_range']
  rfl

theorem ofStarts_eq (chain : Chain code ip sites) :
    Graph.ofStarts (boundaries sites) (leaders sites).toArray sites code.size = Graph.ofSites sites code.size := by
  unfold Graph.ofStarts Graph.ofSites
  simp only [ranges_eq_stops, successors_eq chain, predsOf_eq]
  have length : (successors sites (ranges (leaders sites) code.size)).length =
      ((ranges (leaders sites) code.size).zip (successors sites (ranges (leaders sites) code.size))).length := by
    simp [successors]
  rw [length, zip_range_map, List.map_map]
  rfl

end Flow

namespace Graph

open StackVM.Flow

/-- The graph that is built is the outline of the code. -/
theorem build_eq_outline (code : Code) : build code = outline code := by
  unfold build outline
  rw [sitesFrom_eq_sites]
  cases found : sites code with
  | error e => rfl
  | ok sites =>
    obtain ⟨chain, -⟩ := chain_of_sites found
    simp only [bind, Except.bind]
    cases sites with
    | nil => rfl
    | cons s rest =>
      change (starts (boundaries (s :: rest)) code.size (s :: rest)).bind
        (fun starts => .ok (ofStarts (boundaries (s :: rest)) starts (s :: rest) code.size)) = _
      rw [starts_eq chain (List.cons_ne_nil s rest)]
      cases (s :: rest).find? fun t => !lands (s :: rest) t with
      | some stray => rfl
      | none => exact congrArg Except.ok (ofStarts_eq chain)

end Graph

end StackVM
