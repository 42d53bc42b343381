import StackVM.Proofs.Machine.Calls
import StackVM.Proofs.Machine.Ownership
import StackVM.Proofs.Machine.Run
import StackVM.Proofs.Machine.Shape

/-!
# Exact reference counts

A machine that runs no host function keeps every reference count equal to the number of holders,
whatever its code does: at the end of a run, at a fault, after a run was cut off, when it is resumed and
after a reset. Main statement: `refcount_eq_holders`.
-/

namespace StackVM

/-- A number is loaded as it is, or as an object if it is too wide for a word. -/
theorem Constant.form_number (s : Scalar) (bits : BitVec (8 * s.width)) :
    (∃ v, (Constant.number s bits).form = .inl v ∧ v.kind = .scalar s) ∨
      ∃ n, (Constant.number s bits).form = .inr (.int64 n) ∧ s = .i64 := by
  cases s with
  | i64 =>
    by_cases fits : Value.fitsPayload (.ofNat 64 bits.toNat) = true
    · exact .inl ⟨.i64 (.ofNat 64 bits.toNat), if_pos fits, rfl⟩
    · exact .inr ⟨.ofNat 64 bits.toNat, if_neg fits, rfl⟩
  | _ => exact .inl ⟨_, rfl, rfl⟩

/-- What is loaded for a constant of a program holds nothing. -/
theorem Constant.sound_form {p : Program} {c : Constant} {o : Object} (mem : c ∈ p.constants)
    (form : c.form = .inr o) : o.Sound p ∧ o.children = [] := by
  cases c with
  | number s bits =>
    rcases Constant.form_number s bits with ⟨v, number, _⟩ | ⟨n, wide, _⟩
    · rw [number] at form
      cases form
    · rw [wide] at form
      cases form
      exact ⟨trivial, rfl⟩
  | function f =>
    cases form
    refine ⟨List.mem_cons_of_mem _ (List.mem_filterMap.2 ?_), rfl⟩
    exact ⟨.function f, Array.mem_toList_iff.2 mem, rfl⟩
  | host signature body =>
    cases form
    exact ⟨mem, rfl⟩
  | _ =>
    cases form
    exact ⟨trivial, rfl⟩

theorem Constant.number_form {c : Constant} {v : Value} (form : c.form = .inl v) : v.kind ≠ .ref := by
  cases c with
  | number s bits =>
    rcases Constant.form_number s bits with ⟨w, number, kind⟩ | ⟨n, wide, _⟩
    · rw [number] at form
      cases form
      simp [kind]
    · rw [wide] at form
      cases form
  | _ => cases form

namespace Machine

/-- The counts are right and the stack keeps to its limit. The outermost frame is that of the entry, to
which nothing refers. -/
structure Orderly (m : Machine) : Prop where
  balanced : m.Balanced []
  bounded : m.stack.length ≤ m.options.stackSize
  entry : ∀ a, (m.frames.map Frame.callee).getLast? = some a → a = 0

/-- Besides, there is no host function to call, so instructions do what `effect` says. -/
structure Steady (m : Machine) : Prop extends m.Orderly where
  hostless : ∀ c ∈ m.program.constants, c.isHost = false

variable {m m' : Machine}

/-! ### Starting out -/

/-- Loading holds each object once, from the table of constants. -/
theorem loadConstants_exact {p : Program} {heap : Heap} {outer : List Nat} {cs : List Constant}
    (known : ∀ c ∈ cs, c ∈ p.constants) (wf : heap.WellFormed) (exact : heap.Exact outer)
    (sound : ∀ a o, heap.get? a = some o → o.Sound p) :
    (loadConstants heap cs).2.WellFormed ∧
      (loadConstants heap cs).2.Exact (Value.addresses (loadConstants heap cs).1 ++ outer) ∧
      ∀ a o, (loadConstants heap cs).2.get? a = some o → o.Sound p := by
  induction cs generalizing heap outer with
  | nil => exact ⟨wf, exact, sound⟩
  | cons c cs ih =>
    have others : ∀ c ∈ cs, c ∈ p.constants := fun c mem => known c (List.mem_cons_of_mem _ mem)
    unfold loadConstants
    cases form : c.form with
    | inl v =>
      obtain ⟨wf', exact', sound'⟩ := ih others wf exact sound
      refine ⟨wf', exact'.congr fun a pos => ?_, sound'⟩
      -- a number in the table of constants holds nothing
      have number : v ≠ .ref a := by
        rintro rfl
        exact Constant.number_form form rfl
      simp only [List.count_append, Value.count_addresses pos, List.count_cons_of_ne number]
    | inr o =>
      obtain ⟨object, childless⟩ := Constant.sound_form (known c List.mem_cons_self) form
      -- an object without children, held by its entry in the table
      have allocated : (heap.alloc o).2.Exact ((heap.alloc o).1 :: outer) :=
        Heap.Exact.alloc wf o (by rwa [childless])
      obtain ⟨wf', exact', sound'⟩ := ih others (wf.alloc o) allocated fun a o' found => by
        rw [wf.get?_alloc] at found
        split at found
        · cases found
          exact object
        · exact sound a o' found
      refine ⟨wf', exact'.congr fun a pos => ?_, sound'⟩
      simp only [List.count_append, Value.count_addresses pos, List.count_cons, beq_iff_eq,
        Value.ref.injEq]
      omega

/-- Loading gives each object a slot that held nothing, and what the heap held before stays. -/
theorem loadConstants_kept {heap : Heap} (cs : List Constant) (wf : heap.WellFormed) :
    List.Forall₂ (Constant.Kept (loadConstants heap cs).2) cs (loadConstants heap cs).1 ∧
      (Value.addresses (loadConstants heap cs).1).Nodup ∧
      (∀ a ∈ Value.addresses (loadConstants heap cs).1, heap.get? a = none) ∧
      ∀ a o, heap.get? a = some o → (loadConstants heap cs).2.get? a = some o := by
  induction cs generalizing heap with
  | nil => exact ⟨.nil, List.nodup_nil, fun a mem => (nomatch mem), fun a o found => found⟩
  | cons c cs ih =>
    unfold loadConstants
    cases form : c.form with
    | inl v =>
      obtain ⟨kept, distinct, fresh, stays⟩ := ih wf
      -- a number takes no slot
      have none : Value.addresses (v :: (loadConstants heap cs).1) =
          Value.addresses (loadConstants heap cs).1 := by
        have number := Constant.number_form form
        cases v with
        | ref a => exact absurd rfl number
        | _ => rfl
      refine ⟨.cons ?_ kept, ?_, ?_, stays⟩
      · simp only [Constant.Kept, form]
      · rwa [none]
      · rwa [none]
    | inr o =>
      obtain ⟨kept, distinct, fresh, stays⟩ := ih (wf.alloc o)
      have here : (heap.alloc o).2.get? (heap.alloc o).1 = some o := by
        rw [wf.get?_alloc, if_pos rfl]
      have older : ∀ a o', heap.get? a = some o' → (heap.alloc o).2.get? a = some o' := by
        intro a o' found
        rw [wf.get?_alloc, if_neg, found]
        rintro rfl
        rw [(wf.alloc_fresh o).2.2] at found
        cases found
      -- a slot that is taken now is not taken again by a later constant
      have taken : (heap.alloc o).1 ∉ Value.addresses (loadConstants (heap.alloc o).2 cs).1 := by
        intro mem
        rw [fresh _ mem] at here
        cases here
      have addresses : Value.addresses (.ref (heap.alloc o).1 :: (loadConstants (heap.alloc o).2 cs).1) =
          (heap.alloc o).1 :: Value.addresses (loadConstants (heap.alloc o).2 cs).1 := by
        obtain ⟨a, pos⟩ := Nat.exists_eq_succ_of_ne_zero (Nat.ne_of_gt (wf.alloc_fresh o).1)
        rw [pos]
        rfl
      refine ⟨.cons ?_ kept, ?_, ?_, fun a o' found => stays a o' (older a o' found)⟩
      · simp only [Constant.Kept, form]
        exact ⟨_, o, rfl, stays _ _ here, rfl⟩
      · rw [addresses]
        exact List.nodup_cons.2 ⟨taken, distinct⟩
      · intro a mem
        rw [addresses] at mem
        rcases List.mem_cons.1 mem with rfl | mem
        · exact (wf.alloc_fresh o).2.2
        · cases found : heap.get? a with
          | none => rfl
          | some o' =>
            have later := older a o' found
            rw [fresh a mem] at later
            cases later

/-- Whatever is on the heap after loading was there before or was loaded. -/
theorem loadConstants_origin {heap : Heap} {cs : List Constant} {a : Nat} {o : Object}
    (found : (loadConstants heap cs).2.get? a = some o) :
    heap.get? a = some o ∨ ∃ c ∈ cs, c.form = .inr o := by
  induction cs generalizing heap with
  | nil => exact .inl found
  | cons c cs ih =>
    unfold loadConstants at found
    cases form : c.form with
    | inl v =>
      simp only [form] at found
      rcases ih found with before | ⟨c', mem, later⟩
      · exact .inl before
      · exact .inr ⟨c', List.mem_cons_of_mem _ mem, later⟩
    | inr loaded =>
      simp only [form] at found
      rcases ih found with before | ⟨c', mem, later⟩
      · rcases Heap.get?_of_alloc before with rfl | before
        · exact .inr ⟨c, List.mem_cons_self, form⟩
        · exact .inl before
      · exact .inr ⟨c', List.mem_cons_of_mem _ mem, later⟩

/-- A machine that has just loaded its constants holds each of them once. -/
theorem balanced_load (p : Program) (o : Options) : (load p o).Balanced [] := by
  obtain ⟨wf, exact, sound⟩ := @loadConstants_exact p .empty [] p.constants.toList
    (fun c mem => Array.mem_toList_iff.1 mem) Heap.wellFormed_empty Heap.exact_empty
    (fun a o found => by simp [Heap.get?_empty] at found)
  obtain ⟨kept, distinct, -, -⟩ := loadConstants_kept p.constants.toList Heap.wellFormed_empty
  refine ⟨wf, fun a pos => ?_, sound, ⟨kept, distinct⟩⟩
  have counted := exact a pos
  rw [List.append_nil, Value.count_addresses pos] at counted
  simp only [holders, held, load, Table.empty, Table.values, List.filterMap_nil, List.map_nil,
    List.count_nil, Nat.zero_add, Nat.add_zero]
  exact counted

theorem orderly_load (p : Program) (o : Options) : (load p o).Orderly :=
  ⟨balanced_load p o, by simp [load], by simp [load]⟩

theorem steady_load {p : Program} (guest : ∀ c ∈ p.constants, c.isHost = false) (o : Options) :
    (load p o).Steady := ⟨orderly_load p o, guest⟩

/-! ### Every turn keeps the counts -/

theorem orderly_started (orderly : m.Orderly) : m.started.Orderly := by
  unfold started
  split
  · next none =>
    refine ⟨orderly.balanced.moved rfl rfl rfl fun a pos => ?_, orderly.bounded, by simp [entryFrame]⟩
    -- the frame of the entry refers to null
    have other : [0].count a = 0 := List.count_eq_zero.2 (by simp; omega)
    simp [held, none, entryFrame, other]
  · exact orderly

theorem program_started (m : Machine) : m.started.program = m.program := by
  unfold started
  split <;> rfl

theorem steady_started (steady : m.Steady) : m.started.Steady := by
  refine ⟨orderly_started steady.toOrderly, ?_⟩
  rw [program_started]
  exact steady.hostless

/-- Calls change neither the program nor the options. -/
theorem calling_loaded (done : m.calling = .ok m') : m'.program = m.program ∧ m'.options = m.options := by
  have entering {f : Function} {captures : List Value} {callee : Nat}
      (done : m.entering f captures callee = .ok m') :
      m'.program = m.program ∧ m'.options = m.options := by
    obtain ⟨_, _, done⟩ := bind_eq_ok done
    obtain ⟨_, _, done⟩ := bind_eq_ok done
    obtain ⟨_, _, done⟩ := bind_eq_ok done
    obtain ⟨_, _, done⟩ := bind_eq_ok done
    cases done
    exact ⟨rfl, rfl⟩
  obtain ⟨_, _, done⟩ := bind_eq_ok done
  obtain ⟨callee, _, done⟩ := bind_eq_ok done
  split at done
  · exact entering done
  · exact entering done
  · cases done
  · cases done

theorem returning_loaded (done : m.returning = .ok m') :
    m'.program = m.program ∧ m'.options = m.options := by
  unfold Machine.returning at done
  split at done
  · cases done
  · obtain ⟨_, _, done⟩ := bind_eq_ok done
    cases done
    exact ⟨rfl, rfl⟩

/-- A call adds a frame, keeps to the limit of the stack and changes no other frame. -/
theorem calling_frames (done : m.calling = .ok m') :
    m'.stack.length ≤ m'.options.stackSize ∧ ∃ frame, m'.frames = frame :: m.frames := by
  have entering {f : Function} {captures : List Value} {callee : Nat}
      (done : m.entering f captures callee = .ok m') :
      m'.stack.length ≤ m'.options.stackSize ∧ ∃ frame, m'.frames = frame :: m.frames := by
    obtain ⟨_, few, done⟩ := bind_eq_ok done
    obtain ⟨_, _, done⟩ := bind_eq_ok done
    obtain ⟨_, _, done⟩ := bind_eq_ok done
    obtain ⟨_, room, done⟩ := bind_eq_ok done
    have few := reject_eq_ok few
    have room := reject_eq_ok room
    cases done
    refine ⟨?_, _, rfl⟩
    -- captures are locals, and there is room for all of these
    simp only [entered, List.length_append, List.length_reverse, List.length_replicate,
      List.length_drop]
    omega
  obtain ⟨_, _, done⟩ := bind_eq_ok done
  obtain ⟨callee, _, done⟩ := bind_eq_ok done
  split at done
  · exact entering done
  · exact entering done
  · cases done
  · cases done

theorem returning_frames (done : m.returning = .ok m') :
    m'.options = m.options ∧ m'.stack.length ≤ m.stack.length ∧ m'.frames = m.frames.tail := by
  unfold Machine.returning at done
  split at done
  · cases done
  · obtain ⟨_, _, done⟩ := bind_eq_ok done
    cases done
    refine ⟨rfl, ?_, rfl⟩
    simp only [returned, List.length_append, List.length_take, List.length_drop]
    omega

theorem Orderly.returning (orderly : m.Orderly) (done : m.returning = .ok m') : m'.Orderly := by
  obtain ⟨options, lower, frames⟩ := returning_frames done
  refine ⟨orderly.balanced.returning done, ?_, fun a last => orderly.entry a ?_⟩
  · rw [options]
    exact Nat.le_trans lower orderly.bounded
  · rw [frames] at last
    cases found : m.frames with
    | nil => simp [found] at last
    | cons frame callers =>
      simp only [found, List.tail_cons] at last
      rw [List.map_cons, List.getLast?_cons, last]
      rfl

theorem Orderly.calling (orderly : m.Orderly) (running : m.frames ≠ []) (done : m.calling = .ok m') :
    m'.Orderly := by
  obtain ⟨bounded, frame, frames⟩ := calling_frames done
  refine ⟨orderly.balanced.calling done, bounded, fun a last => ?_⟩
  rw [frames, List.map_cons, List.getLast?_cons] at last
  -- the outermost frame stays the outermost
  cases outer : (m.frames.map Frame.callee).getLast? with
  | some b =>
    simp only [outer, Option.getD_some, Option.some.injEq] at last
    exact last ▸ orderly.entry b outer
  | none => simp [running] at outer

theorem Orderly.setIp (orderly : m.Orderly) (ip : Nat) : (m.setIp ip).Orderly := by
  refine ⟨orderly.balanced.setIp ip, ?_, fun a last => orderly.entry a ?_⟩
  · rw [setIp_eq]
    exact orderly.bounded
  · rwa [Balanced.callees_setIp] at last

theorem Orderly.effect {inst : Instruction} {size next : Nat} (orderly : m.Orderly)
    (running : m.frames ≠ []) (addresses : m.heap.size ≤ Word.payloadSize)
    (done : m.effect inst size next = .ok m') : m'.Orderly := by
  by_cases call : inst.opcode = .call
  · rw [effect_of_call call] at done
    exact orderly.calling running done
  by_cases ret : inst.opcode = .ret
  · rw [effect_of_ret ret] at done
    exact orderly.returning done
  have addressable : m.Addressable := Nat.le_trans addresses (by decide)
  have moved := effect_ok ⟨call, ret⟩ done
  -- no other instruction changes what the frames refer to
  have callees : m'.frames.map Frame.callee = m.frames.map Frame.callee := by
    rcases moved.frames with ⟨_, same⟩ | ⟨target, _, _, jumped⟩
    · rw [same]
    · rw [jumped, Balanced.callees_setIp]
  refine ⟨orderly.balanced.effect addressable done, ?_, by rw [callees]; exact orderly.entry⟩
  rw [moved.options]
  exact moved.bounded orderly.bounded

theorem heap_setIp (m : Machine) (ip : Nat) : (m.setIp ip).heap = m.heap := by rw [setIp_eq]

/-- The entry ends without giving up a reference, for it holds none. -/
theorem Orderly.ended {frame : Frame} (orderly : m.Orderly) (frames : m.frames = [frame]) :
    Orderly { m with frames := [] } := by
  have callee : frame.callee = 0 := orderly.entry _ (by simp [frames])
  refine ⟨orderly.balanced.moved rfl rfl rfl fun a pos => ?_, orderly.bounded, by simp⟩
  have other : [0].count a = 0 := List.count_eq_zero.2 (by simp; omega)
  simp [held, frames, callee, other]

/-! ### Programs without host functions -/

/-- No constant is a host function, and nothing else makes one. -/
theorem Steady.no_host (steady : m.Steady) (a : Nat) (signature : Signature)
    (body : List Value → Script) : m.heap.get? a ≠ some (.host signature body) := by
  intro found
  have guest := steady.hostless _ (steady.balanced.sound a _ found)
  cases guest

theorem Steady.guest (steady : m.Steady) : m.Guest := fun _ _ _ _ _ _ _ => steady.no_host

theorem Steady.closureless (steady : m.Steady) : m.Closureless := by
  intro a f captures found
  exact steady.balanced.sound a _ found

theorem Steady.returning (steady : m.Steady) (done : m.returning = .ok m') : m'.Steady :=
  ⟨steady.toOrderly.returning done, (returning_loaded done).1 ▸ steady.hostless⟩

theorem Steady.setIp (steady : m.Steady) (ip : Nat) : (m.setIp ip).Steady := by
  refine ⟨steady.toOrderly.setIp ip, ?_⟩
  rw [setIp_eq]
  exact steady.hostless

theorem effect_program {inst : Instruction} {size next : Nat} (done : m.effect inst size next = .ok m') :
    m'.program = m.program := by
  by_cases call : inst.opcode = .call
  · rw [effect_of_call call] at done
    exact (calling_loaded done).1
  by_cases ret : inst.opcode = .ret
  · rw [effect_of_ret ret] at done
    exact (returning_loaded done).1
  exact (effect_ok ⟨call, ret⟩ done).program

theorem Steady.effect {inst : Instruction} {size next : Nat} (steady : m.Steady)
    (running : m.frames ≠ []) (addresses : m.heap.size ≤ Word.payloadSize)
    (done : m.effect inst size next = .ok m') : m'.Steady :=
  ⟨steady.toOrderly.effect running addresses done, effect_program done ▸ steady.hostless⟩

/-- One turn, whatever it comes to, leaves a steady machine steady. -/
theorem steady_turn (nested : Exec Unit) (steady : m.Steady)
    (addresses : m.heap.size ≤ Word.payloadSize) :
    Exec.Stops Steady (fun _ => Steady) (Exec.turn nested m) := by
  have turned := Exec.turn_cases nested steady.bounded steady.guest
  generalize Exec.turn nested m = result at turned
  cases turned with
  | idle none => exact steady
  | undecoded frames inside decoded => exact steady
  | stepped frames inside decoded done =>
    refine (steady.setIp _).effect ?_ ?_ done
    · simp [Machine.setIp, frames]
    · rwa [heap_setIp]
  | failed frames inside decoded refused => exact steady.setIp _
  | ended frames past => exact ⟨steady.toOrderly.ended frames, steady.hostless⟩
  | returned frames called past done => exact steady.returning done
  | stuck frames called past refused => exact steady

/-! ### Everything a machine can come to -/

/-- The machine that something leaves behind. -/
def leftBy {α : Type} : EStateM.Result Stop Machine α → Machine
  | .ok _ m => m
  | .error _ m => m

theorem leftBy_of_stops {α : Type} {P : Machine → Prop} {Q : Error → Machine → Prop}
    {result : EStateM.Result Stop Machine α} (stopped : Exec.Stops P Q result)
    (faulted : ∀ e m, Q e m → P m) : P (leftBy result) := by
  cases result with
  | ok a m' => exact stopped
  | error stop m' =>
    cases stop with
    | fault e => exact faulted e m' stopped
    | exhausted => exact stopped

theorem stops_of_leftBy {α : Type} {P : Machine → Prop} {result : EStateM.Result Stop Machine α}
    (holds : P (leftBy result)) : Exec.Stops P (fun _ => P) result := by
  cases result with
  | ok a m' => exact holds
  | error stop m' => cases stop <;> exact holds

/-- The states of a machine that is run and reset at will. A run may be cut off after any number of
turns, and a machine that stopped at a fault is resumed by the next run. -/
inductive Reachable (p : Program) (o : Options) : Machine → Prop where
  | load : Reachable p o (.load p o)
  | run {m : Machine} (fuel : Nat) (before : Reachable p o m) : Reachable p o (leftBy (Exec.run fuel m))
  | reset {m : Machine} (before : Reachable p o m) : Reachable p o m.reset

theorem steady_run (fuel : Nat) (steady : m.Steady) : (leftBy (Exec.run fuel m)).Steady := by
  have stopped : Exec.Stops Steady (fun _ => Steady) (Exec.run fuel m) :=
    Exec.run_invariant (fun nested m => steady_turn nested) (fun _ _ => steady) fuel (steady_started steady)
  exact leftBy_of_stops stopped fun _ _ steady => steady

theorem steady_reachable {p : Program} {o : Options} (guest : ∀ c ∈ p.constants, c.isHost = false)
    (reached : Reachable p o m) : m.Steady := by
  induction reached with
  | load => exact steady_load guest o
  | run fuel before ih => exact steady_run fuel ih
  | reset before ih =>
    exact ⟨⟨ih.balanced.reset, by simp [Machine.reset], by simp [Machine.reset]⟩, ih.hostless⟩

/-- In a program without host functions, the count of every address is the number of its holders,
whatever was run, and what has a holder is live. -/
theorem refcount_eq_holders {p : Program} {o : Options} (guest : ∀ c ∈ p.constants, c.isHost = false)
    (reached : Reachable p o m) (a : Nat) (pos : 0 < a) :
    m.heap.refcount a = m.holders a ∧
      (0 < m.holders a → (m.heap.get? a).isSome ∧ m.heap.isFree a = false) := by
  have balanced := (steady_reachable guest reached).balanced
  have exact : m.heap.refcount a = m.holders a := by
    simpa using balanced.exact a pos
  refine ⟨exact, fun held => ?_⟩
  have counted : 0 < m.heap.refcount a := by omega
  refine ⟨(balanced.heap.live a).2 counted, ?_⟩
  -- a free slot is one whose count is zero
  rw [Heap.isFree, ← Bool.not_eq_true, List.contains_iff_mem]
  intro free
  obtain ⟨-, -, zero⟩ := (balanced.heap.free a).1 free
  omega

/-- A program that pushes its only constant, a string, twice. -/
def twice : Program :=
  { code := Instruction.assemble [⟨.constGet, [0]⟩, ⟨.dup, []⟩]
    constants := #[.string "text"]
    types := #[] }

theorem refcount_twice :
    (leftBy (Exec.run 3 (load twice {}))).holders 1 = 3 ∧
      (leftBy (Exec.run 3 (load twice {}))).heap.refcount 1 = 3 := by
  have three : (leftBy (Exec.run 3 (load twice {}))).holders 1 = 3 := by decide +kernel
  have guest : ∀ c ∈ twice.constants, c.isHost = false := by simp [twice, Constant.isHost]
  have exact := refcount_eq_holders guest (.run 3 (.load (o := {}))) 1 (by omega)
  exact ⟨three, exact.1.trans three⟩

end Machine

end StackVM
