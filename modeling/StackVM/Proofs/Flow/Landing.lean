import StackVM.Proofs.Code.Streams
import StackVM.Proofs.Flow.Positions

/-!
# Where branches land

Code has a graph exactly if it decodes and every displacement of a branch leads to an instruction. Main
statement: `build_outcome`, which also says what the errors of `Graph.build` mean.

Two passes look at the displacements. The first one, which goes together with decoding, turns them into
offsets and refuses what is none (`siteOf_eq_error`); the second one, once all instructions are known,
refuses offsets where none of them starts. In code of less than `2 ^ 63` bytes only a place before the start
is no offset, so that nothing else can keep the first pass from decoding to the end.
-/

namespace StackVM

namespace Code

variable {code : Code} {ip next t : Nat} {d : Int} {l : Located} {e : Error}

/-- The displacement leads from the instruction to one that the code decodes to. -/
def Lands (code : Code) (l : Located) (d : Int) : Prop :=
  ∃ l' ∈ code.scan.1, (l'.offset : Int) = l.offset + l.inst.width + d

instance : Decidable (code.Lands l d) :=
  inferInstanceAs (Decidable (∃ l' ∈ code.scan.1, (l'.offset : Int) = l.offset + l.inst.width + d))

/-! ### Targets -/

theorem jumpTarget?_eq_some_iff : jumpTarget? next d = some t ↔ (t : Int) = next + d ∧ t < offsetLimit := by
  simp only [jumpTarget?, Option.ite_none_right_eq_some, Option.some.injEq]
  omega

theorem jumpTarget?_eq_none_iff :
    jumpTarget? next d = none ↔ (next + d : Int) < 0 ∨ (offsetLimit : Int) ≤ next + d := by
  simp only [jumpTarget?, ite_eq_right_iff, reduceCtorEq, imp_false]
  omega

/-- Displacements have 32 bits. -/
theorem displacement_lt {inst : Instruction} (mem : d ∈ inst.displacements) : d < 2 ^ 31 := by
  have bound (n : Nat) : Instruction.signed32 n < 2 ^ 31 := BitVec.toInt_lt
  unfold Instruction.displacements at mem
  split at mem
  · cases List.mem_singleton.1 mem
    exact bound _
  · cases List.mem_singleton.1 mem
    exact bound _
  · obtain ⟨i, -, rfl⟩ := List.mem_map.1 mem
    exact bound _
  · cases mem

theorem decoded_of_scanFrom (mem : l ∈ (code.scanFrom ip).1) :
    l.offset < code.size ∧ Instruction.decode code l.offset = .ok l.inst := by
  fun_induction scanFrom code ip with
  | case1 ip inside e failed => cases mem
  | case2 ip inside inst decoded rest failure scanned ih =>
    rw [scanned] at ih
    rcases List.mem_cons.1 mem with rfl | mem
    · exact ⟨inside, decoded⟩
    · exact ih mem
  | case3 ip outside => cases mem

theorem instructions_of_scan {located : List Located} (scanned : code.scan = (located, none)) :
    code.instructions = .ok (located.map Located.inst) := by
  rw [instructions_eq, scanned]

variable (short : code.size < 2 ^ 63)
include short

theorem lands_iff : code.Lands l d ↔ ∃ l' ∈ code.scan.1, jumpTarget? l.next d = some l'.offset := by
  constructor
  · rintro ⟨l', mem, here⟩
    have inside := (decoded_of_scanFrom mem).1
    refine ⟨l', mem, jumpTarget?_eq_some_iff.2 ⟨?_, ?_⟩⟩
    · rw [here, Located.next, Int.natCast_add]
    · rw [offsetLimit]
      omega
  · rintro ⟨l', mem, target⟩
    have here := (jumpTarget?_eq_some_iff.1 target).1
    exact ⟨l', mem, by rw [here, Located.next, Int.natCast_add]⟩

/-- No displacement leads past the last offset. -/
theorem negative_of_no_target (mem : l ∈ code.scan.1) (here : d ∈ l.inst.displacements)
    (missing : jumpTarget? l.next d = none) : (l.offset + l.inst.width + d : Int) < 0 := by
  have within := Instruction.next_le_size (decoded_of_scanFrom mem).2
  have small := displacement_lt here
  have outside := jumpTarget?_eq_none_iff.1 missing
  rw [offsetLimit, Located.next] at outside
  omega

omit short

theorem cause_of_undecoded (failed : code.instructions = .error e) : e.cause ≠ .invalidJump := by
  obtain ⟨n, c, -, undecoded, rfl⟩ := undecoded_of_error failed
  cases undecoded with
  | unassigned => simp
  | cutShort => simp

end Code

/-! ### Both passes -/

namespace Flow

variable {code : Code} {l : Located} {s : Site} {e : Error}

/-- The first pass refuses a displacement that leads to no offset. -/
theorem siteOf_eq_error (mem : l ∈ code.scan.1) (failed : siteOf code l = .error e) :
    e = Error.atOffset Cause.invalidJump l.offset ∧
      ∃ d ∈ l.inst.displacements, Code.jumpTarget? l.next d = none := by
  have decoded := (Code.decoded_of_scanFrom mem).2
  rcases bind_eq_error failed with failed | ⟨targets, -, failed⟩
  · unfold Code.branchTargets at failed
    rw [Code.displacements?_of_decode decoded, Option.bind_some] at failed
    split at failed
    · cases failed
    · next missing =>
      cases failed
      exact ⟨rfl, mapM_eq_none missing⟩
  · cases failed

/-- Either pass fails at a branch, the second one only in code that decodes; apart from that only decoding
fails. -/
theorem build_eq_error (failed : Graph.build code = .error e) :
    (∃ l ∈ code.scan.1, e = Error.atOffset Cause.invalidJump l.offset ∧ ∃ d ∈ l.inst.displacements,
        Code.jumpTarget? l.next d = none ∨ (∃ insts, code.instructions = .ok insts) ∧
          ∀ l' ∈ code.scan.1, Code.jumpTarget? l.next d ≠ some l'.offset) ∨
      code.instructions = .error e := by
  rw [Graph.build_eq_outline] at failed
  rcases bind_eq_error failed with failed | ⟨sites, found, failed⟩
  · unfold Flow.sites withTargets at failed
    rw [Code.instructions_eq]
    rcases scanned : code.scan with ⟨located, failure⟩
    simp only [scanned] at failed
    rcases bind_eq_error failed with failed | ⟨ss, -, failed⟩
    -- the first pass stops at a branch
    · obtain ⟨l, mem, failed⟩ := mapM_eq_error failed
      obtain ⟨rfl, d, here, missing⟩ := siteOf_eq_error (by rwa [scanned]) failed
      exact .inl ⟨l, mem, rfl, d, here, .inl missing⟩
    -- the code does not decode
    · cases failure with
      | none => cases failed
      | some e' =>
        cases failed
        exact .inr rfl
  -- the second pass stops at a branch
  · obtain ⟨chain, scanned⟩ := chain_of_sites found
    obtain ⟨located, whole, -⟩ := scan_of_sites found
    split at failed
    · next s stray =>
      cases failed
      have mem := List.mem_of_find?_eq_some stray
      obtain ⟨-, decoded, targets⟩ := chain.decoded mem
      have lost : ¬ ∀ t ∈ s.targets, ∃ s' ∈ sites, s'.offset = t := by
        simpa [lands] using List.find?_some stray
      obtain ⟨t, target, lost⟩ : ∃ t ∈ s.targets, ∀ s' ∈ sites, s'.offset ≠ t := by
        simpa using lost
      have jump : some t ∈ s.inst.jumps s.next := by
        rw [Located.next, Code.jumps_eq_targets decoded targets]
        exact List.mem_map_of_mem target
      rw [Instruction.jumps_eq_displacements] at jump
      obtain ⟨d, here, leads⟩ := List.mem_map.1 jump
      refine .inl ⟨s.toLocated, ?_, rfl, d, here, .inr ⟨⟨_, Code.instructions_of_scan whole⟩, ?_⟩⟩
      · rw [← scanned]
        exact List.mem_map_of_mem mem
      · intro l' known
        rw [← scanned] at known
        obtain ⟨s', mem', rfl⟩ := List.mem_map.1 known
        rw [leads]
        intro same
        exact lost s' mem' (Option.some.inj same).symm
    · cases failed

/-- What passed decodes, and all its displacements lead to instructions. -/
theorem build_eq_ok {g : Graph} (built : Graph.build code = .ok g) :
    (∃ insts, code.instructions = .ok insts) ∧ ∀ l ∈ code.scan.1, ∀ d ∈ l.inst.displacements,
      ∃ l' ∈ code.scan.1, Code.jumpTarget? l.next d = some l'.offset := by
  constructor
  · rw [Graph.build_eq_outline] at built
    obtain ⟨sites, found, -⟩ := bind_eq_ok built
    obtain ⟨located, scanned, -⟩ := scan_of_sites found
    exact ⟨_, Code.instructions_of_scan scanned⟩
  · obtain ⟨sites, cut⟩ := cut_of_build built
    intro l known d here
    obtain ⟨s, mem, rfl⟩ := cut.mem_scan.1 known
    obtain ⟨-, decoded, targets⟩ := cut.chain.decoded mem
    have jump : Code.jumpTarget? s.next d ∈ s.inst.jumps s.next := by
      rw [Instruction.jumps_eq_displacements]
      exact List.mem_map_of_mem here
    rw [Located.next, Code.jumps_eq_targets decoded targets] at jump
    obtain ⟨t, target, leads⟩ := List.mem_map.1 jump
    have landed : ∀ t ∈ s.targets, ∃ s' ∈ sites, s'.offset = t := by
      simpa [lands] using cut.lands s mem
    obtain ⟨s', mem', rfl⟩ := landed t target
    exact ⟨s'.toLocated, cut.mem_scan.2 ⟨s', mem', rfl⟩, leads.symm⟩

end Flow

namespace Graph

/-- Code of any length that a machine can hold has a graph exactly if it decodes and every displacement of its
branches, those of the cases of a table and the one for all other selectors included, leads to the offset of
an instruction. `invalidJump` is reported at a branch that has a displacement to a place before the code or,
if the code decodes, to none of its instructions. Any other error is that of decoding. -/
theorem build_outcome (code : Code) (short : code.size < 2 ^ 63) :
    ((∃ g, Graph.build code = .ok g) ↔
      (∃ insts, code.instructions = .ok insts) ∧
        ∀ l ∈ code.scan.1, ∀ d ∈ l.inst.displacements, code.Lands l d) ∧
    ∀ e, Graph.build code = .error e →
      (e.cause = .invalidJump → ∃ l ∈ code.scan.1, e = ⟨.invalidJump, some l.offset, none⟩ ∧
        ∃ d ∈ l.inst.displacements, (l.offset + l.inst.width + d : Int) < 0 ∨
          (∃ insts, code.instructions = .ok insts) ∧ ¬ code.Lands l d) ∧
      (e.cause ≠ .invalidJump → code.instructions = .error e) := by
  constructor
  · constructor
    · rintro ⟨g, built⟩
      obtain ⟨decodes, lands⟩ := Flow.build_eq_ok built
      refine ⟨decodes, fun l mem d here => ?_⟩
      exact (Code.lands_iff short).2 (lands l mem d here)
    · rintro ⟨⟨insts, decodes⟩, lands⟩
      cases built : Graph.build code with
      | ok g => exact ⟨g, rfl⟩
      | error e =>
        rcases Flow.build_eq_error built with ⟨l, mem, -, d, here, stray⟩ | failed
        · obtain ⟨l', mem', leads⟩ := (Code.lands_iff short).1 (lands l mem d here)
          rcases stray with missing | ⟨-, stray⟩
          · rw [missing] at leads
            cases leads
          · exact absurd leads (stray l' mem')
        · rw [decodes] at failed
          cases failed
  · intro e failed
    rcases Flow.build_eq_error failed with ⟨l, mem, rfl, d, here, stray⟩ | undecoded
    · constructor
      · intro _
        refine ⟨l, mem, rfl, d, here, ?_⟩
        rcases stray with missing | ⟨decodes, stray⟩
        · exact .inl (Code.negative_of_no_target short mem here missing)
        · refine .inr ⟨decodes, ?_⟩
          rw [Code.lands_iff short]
          rintro ⟨l', mem', leads⟩
          exact stray l' mem' leads
      · intro other
        exact absurd rfl other
    · constructor
      · intro jump
        exact absurd jump (Code.cause_of_undecoded undecoded)
      · intro _
        exact undecoded

/-- A branch table with a case that goes back to the start, and a displacement for all other selectors. -/
def table (other : Nat) : Code :=
  Instruction.assemble [⟨.const .i32, [1]⟩, ⟨.brTable, [1, 0x100000000 - 16, other]⟩, ⟨.ret, []⟩]

/-- The table may go on to the return, but not past it to the end of the code. -/
theorem table_outcome :
    (table 0).size < 2 ^ 63 ∧ (∃ g, Graph.build (table 0) = .ok g) ∧ (table 1).size < 2 ^ 63 ∧
      ∃ e, Graph.build (table 1) = .error e ∧ e.cause = .invalidJump ∧
        ∃ l ∈ (table 1).scan.1, e = ⟨.invalidJump, some l.offset, none⟩ ∧
          ∃ d ∈ l.inst.displacements, (l.offset + l.inst.width + d : Int) < 0 ∨
            (∃ insts, (table 1).instructions = .ok insts) ∧ ¬ (table 1).Lands l d := by
  obtain ⟨short, short', whole, lands, refused, whole'⟩ :
      (table 0).size < 2 ^ 63 ∧ (table 1).size < 2 ^ 63 ∧ (table 0).scan.2 = none ∧
        (∀ l ∈ (table 0).scan.1, ∀ d ∈ l.inst.displacements, (table 0).Lands l d) ∧
        (Graph.build (table 1)).toOption.isNone ∧ (table 1).scan.2 = none := by
    decide +kernel
  refine ⟨short, (build_outcome _ short).1.2 ⟨⟨_, Code.instructions_of_scan (Prod.ext rfl whole)⟩, lands⟩,
    short', ?_⟩
  cases built : Graph.build (table 1) with
  | ok g =>
    rw [built] at refused
    cases refused
  | error e =>
    obtain ⟨jump, other⟩ := (build_outcome _ short').2 e built
    have cause : e.cause = .invalidJump := by
      by_contra other_cause
      have read := other other_cause
      rw [Code.instructions_of_scan (Prod.ext rfl whole')] at read
      cases read
    exact ⟨e, rfl, cause, jump cause⟩

end Graph

end StackVM
