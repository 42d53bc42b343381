import StackVM.Flow
import StackVM.Proofs.Code.Scan
import StackVM.Proofs.Outcome

/-!
# A row of instructions

Code whose instructions and targets are all known is a row of instructions without gaps
(`chain_of_sites`). They are found in one walk over the code; it comes to the same to read all instructions
first and to look up their targets then (`sitesFrom_eq_sites`).
-/

namespace StackVM

namespace Flow

/-! ### One walk or two -/

/-- Adds to an instruction the offsets that it can jump to. -/
def siteOf (code : Code) (l : Located) : Except Error Site := do
  let targets ← code.branchTargets l.offset l.inst.opcode l.inst.width
  return { l with targets }

/-- Adds their targets to instructions that were read before; the error that ended the reading is due only
if none comes up here. -/
def withTargets (code : Code) (scanned : List Located × Option Error) : Except Error (List Site) := do
  let sites ← scanned.1.mapM (siteOf code)
  match scanned.2 with
  | none => return sites
  | some e => throw e

/-- The instructions with their targets. -/
def sites (code : Code) : Except Error (List Site) := withTargets code code.scan

theorem sitesFrom_eq_withTargets (code : Code) (ip : Nat) :
    sitesFrom code ip = withTargets code (code.scanFrom ip) := by
  fun_induction Code.scanFrom code ip with
  | case1 ip inside e decoded =>
    unfold sitesFrom
    rw [if_pos inside, decoded]
    rfl
  | case2 ip inside inst decoded rest failure scanned ih =>
    rw [scanned] at ih
    have step : sitesFrom code ip = (code.branchTargets ip inst.opcode inst.width).bind fun targets =>
        (sitesFrom code (ip + inst.width)).bind fun rest => .ok (⟨⟨ip, inst⟩, targets⟩ :: rest) := by
      rw [sitesFrom, if_pos inside, decoded]
      rfl
    rw [step, ih]
    -- the targets of this instruction are looked up before those of the rest
    have first : siteOf code ⟨ip, inst⟩ = (code.branchTargets ip inst.opcode inst.width).map
        fun targets => ⟨⟨ip, inst⟩, targets⟩ := by
      unfold siteOf
      cases code.branchTargets ip inst.opcode inst.width <;> rfl
    simp only [withTargets, List.mapM_cons, first]
    cases code.branchTargets ip inst.opcode inst.width with
    | error e => rfl
    | ok targets =>
      cases rest.mapM (siteOf code) with
      | error e => rfl
      | ok ss => cases failure <;> rfl
  | case3 ip outside =>
    unfold sitesFrom
    rw [if_neg outside]
    rfl

/-- The walk finds what two passes find. -/
theorem sitesFrom_eq_sites (code : Code) : sitesFrom code 0 = sites code := sitesFrom_eq_withTargets code 0

/-! ### Instructions without gaps -/

variable {code : Code} {ip : Nat} {sites : List Site} {s s' : Site}

/-- Instructions that follow one another from `ip` to the end of the code. -/
def Chain (code : Code) : Nat → List Site → Prop
  | ip, [] => code.size ≤ ip
  | ip, s :: rest =>
    s.offset = ip ∧ ip < code.size ∧ Instruction.decode code ip = .ok s.inst ∧
      code.branchTargets ip s.inst.opcode s.inst.width = .ok s.targets ∧ Chain code s.next rest

/-- A scan without instructions starts at the end. -/
theorem scanFrom_nil (scanned : code.scanFrom ip = ([], none)) : code.size ≤ ip := by
  unfold Code.scanFrom at scanned
  split at scanned
  · split at scanned
    · cases scanned
    · cases scanned
  · exact Nat.le_of_not_lt ‹_›

/-- A scan starts with the instruction at its offset and goes on after it. -/
theorem scanFrom_cons {l : Located} {located : List Located}
    (scanned : code.scanFrom ip = (l :: located, none)) :
    l.offset = ip ∧ ip < code.size ∧ Instruction.decode code ip = .ok l.inst ∧
      code.scanFrom (ip + l.inst.width) = (located, none) := by
  unfold Code.scanFrom at scanned
  split at scanned
  · next inside =>
    split at scanned
    · cases scanned
    · next inst decoded =>
      -- the rest was scanned from the offset after this instruction on
      cases rest : code.scanFrom (ip + inst.width) with
      | mk others failure =>
        simp only [rest, Prod.mk.injEq, List.cons.injEq] at scanned
        obtain ⟨⟨rfl, rfl⟩, rfl⟩ := scanned
        exact ⟨rfl, inside, decoded, rest⟩
  · cases scanned

/-- There are no more instructions than bytes. -/
theorem length_scanFrom (code : Code) (ip : Nat) : (code.scanFrom ip).1.length ≤ code.size - ip := by
  fun_induction Code.scanFrom code ip with
  | case1 ip inside e decoded => exact Nat.zero_le _
  | case2 ip inside inst decoded rest failure scanned ih =>
    rw [scanned] at ih
    have pos := inst.width_pos
    simp only [List.length_cons] at ih ⊢
    omega
  | case3 ip outside => exact Nat.zero_le _

theorem chain_of_scan {located : List Located} (scanned : code.scanFrom ip = (located, none))
    (found : located.mapM (siteOf code) = .ok sites) : Chain code ip sites := by
  induction located generalizing ip sites with
  | nil =>
    cases found
    exact scanFrom_nil scanned
  | cons l located ih =>
    obtain ⟨rfl, inside, decoded, rest⟩ := scanFrom_cons scanned
    obtain ⟨s, ss, rfl, site, more⟩ := mapM_eq_ok_cons found
    obtain ⟨targets, branches, site⟩ := bind_eq_ok site
    cases site
    exact ⟨rfl, inside, decoded, branches, ih rest more⟩

theorem toLocated_of_sites {located : List Located} (found : located.mapM (siteOf code) = .ok sites) :
    sites.map Site.toLocated = located := by
  induction located generalizing sites with
  | nil =>
    cases found
    rfl
  | cons l located ih =>
    obtain ⟨s, ss, rfl, site, more⟩ := mapM_eq_ok_cons found
    obtain ⟨targets, -, site⟩ := bind_eq_ok site
    cases site
    rw [List.map_cons, ih more]

/-- Sites are found only where the whole code decodes. -/
theorem scan_of_sites (found : Flow.sites code = .ok sites) :
    ∃ located, code.scan = (located, none) ∧ located.mapM (siteOf code) = .ok sites := by
  unfold Flow.sites withTargets at found
  rcases scanned : code.scan with ⟨located, failure⟩
  simp only [scanned] at found
  obtain ⟨ss, mapped, found⟩ := bind_eq_ok found
  cases failure with
  | some e => cases found
  | none =>
    cases found
    exact ⟨located, rfl, mapped⟩

theorem chain_of_sites (found : Flow.sites code = .ok sites) :
    Chain code 0 sites ∧ sites.map Site.toLocated = code.scan.1 := by
  obtain ⟨located, scanned, mapped⟩ := scan_of_sites found
  rw [scanned]
  exact ⟨chain_of_scan scanned mapped, toLocated_of_sites mapped⟩

theorem next_pos (s : Site) : s.offset < s.next := by
  have := s.inst.width_pos
  simp only [Located.next]
  omega

namespace Chain

theorem le_offset (chain : Chain code ip sites) (mem : s ∈ sites) : ip ≤ s.offset := by
  induction sites generalizing ip with
  | nil => simp at mem
  | cons t rest ih =>
    obtain ⟨rfl, -, -, -, tail⟩ := chain
    rcases List.mem_cons.1 mem with rfl | mem
    · exact Nat.le_refl _
    · have later := ih tail mem
      have := next_pos t
      omega

theorem decoded (chain : Chain code ip sites) (mem : s ∈ sites) :
    s.offset < code.size ∧ Instruction.decode code s.offset = .ok s.inst ∧
      code.branchTargets s.offset s.inst.opcode s.inst.width = .ok s.targets := by
  induction sites generalizing ip with
  | nil => simp at mem
  | cons t rest ih =>
    obtain ⟨rfl, inside, decoded, targets, tail⟩ := chain
    rcases List.mem_cons.1 mem with rfl | mem
    · exact ⟨inside, decoded, targets⟩
    · exact ih tail mem

/-- After an instruction comes another one or the end. -/
theorem next_site (chain : Chain code ip sites) (mem : s ∈ sites) :
    code.size ≤ s.next ∨ ∃ s' ∈ sites, s'.offset = s.next := by
  induction sites generalizing ip with
  | nil => simp at mem
  | cons t rest ih =>
    obtain ⟨rfl, -, -, -, tail⟩ := chain
    rcases List.mem_cons.1 mem with rfl | mem
    -- the instruction after the head of the row is the head of the rest
    · cases rest with
      | nil => exact .inl tail
      | cons u rest => exact .inr ⟨u, by simp, tail.1⟩
    · rcases ih tail mem with past | ⟨u, mem, at_next⟩
      · exact .inl past
      · exact .inr ⟨u, List.mem_cons_of_mem _ mem, at_next⟩

theorem sorted (chain : Chain code ip sites) :
    sites.Pairwise fun s s' => s.next ≤ s'.offset := by
  induction sites generalizing ip with
  | nil => exact .nil
  | cons t rest ih =>
    obtain ⟨rfl, -, -, -, tail⟩ := chain
    exact .cons (fun u mem => le_offset tail mem) (ih tail)

theorem next_le (chain : Chain code ip sites) (mem : s ∈ sites) (mem' : s' ∈ sites)
    (before : s.offset < s'.offset) : s.next ≤ s'.offset := by
  induction sites generalizing ip with
  | nil => simp at mem
  | cons t rest ih =>
    obtain ⟨rfl, -, -, -, tail⟩ := chain
    have pos := next_pos t
    -- four cases: each of the two is the head of the row or comes later
    rcases List.mem_cons.1 mem with rfl | here
    · rcases List.mem_cons.1 mem' with rfl | there
      · omega
      · exact le_offset tail there
    · rcases List.mem_cons.1 mem' with rfl | there
      · have later := le_offset tail here
        omega
      · exact ih tail here there

/-- The part of a range that was passed, the instruction, and the part that is left. -/
theorem within_split (chain : Chain code ip sites) (mem : s ∈ sites) {start stop : Nat}
    (after : start ≤ s.offset) (before : s.offset < stop) :
    within sites (start, stop) = within sites (start, s.offset) ++ s :: within sites (s.next, stop) := by
  induction sites generalizing ip with
  | nil => simp at mem
  | cons t rest ih =>
    obtain ⟨rfl, -, -, -, tail⟩ := chain
    have pos := next_pos t
    have later : ∀ u ∈ rest, t.next ≤ u.offset := fun u mem => le_offset tail mem
    rcases List.mem_cons.1 mem with rfl | here
    · -- nothing before, and everything else comes after
      have passed : within (s :: rest) (start, s.offset) = [] := by
        refine List.filter_eq_nil_iff.2 fun u member => ?_
        rcases List.mem_cons.1 member with rfl | member
        · simp
        · have := later u member
          simp only [Bool.and_eq_true, decide_eq_true_eq, not_and]
          omega
      have left : within rest (start, stop) = within (s :: rest) (s.next, stop) := by
        simp only [within, List.filter_cons]
        rw [if_neg (by simp; omega)]
        refine List.filter_congr fun u member => ?_
        have := later u member
        rw [decide_eq_true (by omega : start ≤ u.offset), decide_eq_true this]
      rw [passed, List.nil_append, ← left]
      simp only [within, List.filter_cons]
      rw [if_pos (by simp [after, before])]
    -- the head of the row lies before the instruction, so it is only ever in the first part
    · have beyond := later s here
      have next := next_pos s
      have tailed := ih tail here
      simp only [within, List.filter_cons] at tailed ⊢
      rw [if_neg (c := (decide (s.next ≤ t.offset) && decide (t.offset < stop)) = true) (by simp; omega)]
      by_cases inside : start ≤ t.offset
      · rw [if_pos (by simp [inside]; omega), if_pos (by simp [inside]; omega), tailed]
        rfl
      · rw [if_neg (by simp [inside]), if_neg (by simp [inside]), tailed]

end Chain

end Flow

end StackVM
