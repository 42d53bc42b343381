import StackVM.Proofs.Operation.Shapes
import StackVM.Proofs.Typing.Agreement

/-!
# Kinds at run time

Where references of unknown type are about, a value need not have the type that a rule gives for it, but
it has the kind of that type, where a wide integer on the heap counts as a number. Main statements: a live
value of a kind can be read as that kind (`Machine.read_of_hasKind`), values of one kind pass for each
other (`Machine.sameKind_of_hasKind`), and numbers that pass for each other are of one kind
(`Machine.eq_of_sameKind`).

What an instruction asks of its operands is settled by their kinds alone, so the lemmas here that are
named `sure_` leave open what is to be shown of the machine that the instruction makes.
-/

namespace StackVM

open Verifier

/-! ### Values -/

namespace Value

/-- The value has some type of the kind of the given one. -/
def HasKind (h : Heap) (v : Value) (t : Ty) : Prop := ∃ u, u.kind = t.kind ∧ v.HasTy h u

variable {h : Heap} {v : Value} {t u : Ty}

theorem HasTy.hasKind (typed : v.HasTy h t) : v.HasKind h t := ⟨t, rfl, typed⟩

theorem HasKind.congr (promised : v.HasKind h t) (same : t.kind = u.kind) : v.HasKind h u := by
  obtain ⟨u', kind, typed⟩ := promised
  exact ⟨u', kind.trans same, typed⟩

/-- A type that accepts another one has its kind. -/
theorem HasKind.accepted (promised : v.HasKind h u) (accepts : t.accepts u = true) : v.HasKind h t :=
  promised.congr (Ty.kind_of_accepts accepts)

theorem HasKind.number {s : Scalar} (kind : v.kind = .scalar s) : v.HasKind h (.scalar s) :=
  (HasTy.number kind).hasKind

/-- A reference to an object whose type is a reference type, for any such type. -/
theorem HasKind.of_object {a : Nat} {o : Object} (pos : 0 < a) (found : h.get? a = some o)
    (reference : o.ty.kind = t.kind) : (Value.ref a).HasKind h t :=
  ⟨o.ty, reference, .of_object pos found⟩

end Value

theorem Ty.eq_scalar_of_kind {t : Ty} {s : Scalar} (kind : t.kind = .scalar s) : t = .scalar s := by
  cases t <;> cases kind
  rfl

instance : Lasting Value.HasKind where
  within promised fewer := by
    obtain ⟨u, kind, typed⟩ := promised
    exact ⟨u, kind, typed.within fewer⟩
  alloc promised wf live o := by
    obtain ⟨u, kind, typed⟩ := promised
    exact ⟨u, kind, typed.alloc wf live o⟩
  boxed promised pos found := by
    obtain ⟨u, kind, typed⟩ := promised
    exact ⟨u, kind, Lasting.boxed typed pos found⟩
  canonical promised := by
    obtain ⟨u, kind, typed⟩ := promised
    exact ⟨u, kind, typed.canonical⟩

namespace Machine

/-- The kind of a value at run time. A reference to an integer on the heap stands for the integer. -/
def kindOf (m : Machine) (v : Value) : Kind :=
  if (m.int64? v).isSome then .scalar .i64 else v.kind

variable {m m' : Machine} {T : Table Ty} {ts us : List Ty} {t u : Ty} {v w : Value} {o : Object}
  {hand : List Value} {d n i : Nat} {s s' : Scalar}

theorem kindOf_of_hasKind (promised : v.HasKind m.heap t) (wf : m.heap.WellFormed) (live : m.Live v) :
    m.kindOf v = t.kind := by
  obtain ⟨u, kind, typed⟩ := promised
  rw [← kind]
  unfold kindOf int64?
  cases v with
  | ref a =>
    cases a with
    | zero =>
      simp only [wf.null.2]
      exact (eq_of_beq typed).symm
    | succ a =>
      -- the object that is there has the type, and only a wide integer has that of a number
      obtain ⟨o, found⟩ := live _ (Nat.succ_pos a) rfl
      rw [← typed o found]
      simp only [found]
      cases o <;> rfl
  | _ =>
    rw [show u = _ from typed]
    rfl

/-- A live value of a kind can be read as that kind. -/
theorem read_of_hasKind (promised : v.HasKind m.heap t) (live : m.Live v) :
    ∃ w, m.read? t.kind v = some w := by
  obtain ⟨u, kind, typed⟩ := promised
  rw [← kind]
  exact read_of_hasTy typed live

theorem int32_of_hasKind (promised : v.HasKind m.heap .i32) (live : m.Live v) : ∃ n, v = .i32 n := by
  obtain ⟨u, kind, typed⟩ := promised
  rw [Ty.eq_scalar_of_kind kind] at typed
  cases v with
  | i32 n => exact ⟨n, rfl⟩
  | ref a =>
    cases a with
    | zero => cases typed
    | succ a =>
      -- of the objects only wide integers have the type of a number
      obtain ⟨o, found⟩ := live _ (Nat.succ_pos a) rfl
      have same := typed o found
      cases o <;> cases same
  | _ => cases typed

/-- Values of one kind pass for values of one kind at run time. -/
theorem sameKind_of_hasKind (first : v.HasKind m.heap t) (second : w.HasKind m.heap t)
    (live : m.Live v) (live' : m.Live w) : m.sameKind v w = true := by
  obtain ⟨x, read⟩ := read_of_hasKind first live
  obtain ⟨y, read'⟩ := read_of_hasKind second live'
  unfold read? at read read'
  unfold sameKind
  split at read
  -- integers are read from either form
  · next wide =>
    rw [if_pos wide] at read'
    obtain ⟨k, number, -⟩ := Option.map_eq_some_iff.1 read
    obtain ⟨k', number', -⟩ := Option.map_eq_some_iff.1 read'
    simp [number, number']
  · next other =>
    rw [if_neg other] at read'
    split at read
    · next kind =>
      split at read'
      · next kind' => simp [kind, kind']
      · cases read'
    · cases read

/-! ### What answers tell of kinds -/

theorem kindOf_of_number (number : v.kind = .scalar s) : m.kindOf v = .scalar s := by
  unfold kindOf int64?
  cases v <;> cases number <;> rfl

theorem kindOf_of_int32At {k : BitVec 32} (asked : m.int32At d = .ok k) :
    m.kindOf (m.peek d) = .scalar .i32 := by
  rw [int32At_eq_ok asked]
  exact kindOf_of_number rfl

/-- What can be read as a number is one. -/
theorem kindOf_of_read? (read : m.read? (.scalar s) v = some w) : m.kindOf v = .scalar s := by
  unfold read? at read
  split at read
  · next wide =>
    cases wide
    obtain ⟨n, found, -⟩ := Option.map_eq_some_iff.1 read
    simp [kindOf, found]
  · split at read
    · next number => exact kindOf_of_number number
    · cases read

/-- Of numbers, only those of one kind pass for each other. -/
theorem eq_of_sameKind (same : m.sameKind v w = true) (first : m.kindOf v = .scalar s)
    (second : m.kindOf w = .scalar s') : s = s' := by
  unfold sameKind at same
  rw [Bool.or_eq_true, Bool.and_eq_true, decide_eq_true_eq] at same
  rcases same with same | ⟨wide, wide'⟩
  · cases kind : v.kind with
    | scalar k =>
      rw [kindOf_of_number kind] at first
      rw [kindOf_of_number (same.symm.trans kind)] at second
      exact Kind.scalar.inj (first.symm.trans second)
    -- references that stand for numbers refer to wide integers
    | ref =>
      unfold kindOf at first second
      rw [kind] at first
      rw [same.symm.trans kind] at second
      split at first
      · split at second
        · exact Kind.scalar.inj (first.symm.trans second)
        · cases second
      · cases first
  · unfold kindOf at first second
    rw [if_pos wide] at first
    rw [if_pos wide'] at second
    exact Kind.scalar.inj (first.symm.trans second)

/-! ### Questions -/

/-- The values in the places outside the heap have the kinds of the given types. -/
abbrev Kinded (m : Machine) (T : Table Ty) (ts : List Ty) : Prop := m.Agrees Value.HasKind T ts

theorem Kinded.int32At (kinded : m.Kinded T ts) (balanced : m.Balanced hand)
    (at_depth : ts[d]? = some .i32) : m.int32At d ≠ .error .typeMismatch := by
  obtain ⟨n, number⟩ := int32_of_hasKind (kinded.peek at_depth) (balanced.live_peek d)
  simp [Machine.int32At, number]

theorem Kinded.indexAt (kinded : m.Kinded T ts) (balanced : m.Balanced hand)
    (at_depth : ts[d]? = some .i32) : m.indexAt d ≠ .error .typeMismatch := by
  intro refused
  rcases bind_eq_error refused with refused | ⟨n, -, refused⟩
  · exact kinded.int32At balanced at_depth refused
  · split at refused
    · cases refused
    · cases refused

/-- Values can be read as what accepts types of their kinds. -/
theorem readAll_of_kinds {vs : List Value} (below : List Ty) (accepts : Scope.Accepts ts us)
    (promised : List.Forall₂ (Value.HasKind m.heap) vs (us ++ below)) (live : ∀ v ∈ vs, m.Live v) :
    ∃ ws, m.readAll ts vs = .ok ws := by
  unfold readAll
  -- one value for each type that is read; whatever lies below stays unread
  induction accepts generalizing vs with
  | nil => exact ⟨[], rfl⟩
  | cons first others ih =>
    cases promised with
    | cons promised more =>
      obtain ⟨w, read⟩ := read_of_hasKind (promised.accepted first) (live _ (by simp))
      obtain ⟨ws, rest⟩ := ih more fun v mem => live v (by simp [mem])
      rw [List.zip_cons_cons, List.mapM_cons]
      split at rest
      · next mapped => exact ⟨w :: ws, by cases rest; simp [read, mapped]⟩
      · cases rest

theorem operands_eq (m : Machine) (n : Nat) (k : Kind) :
    m.operands n k = m.readAll (List.replicate (m.stack.take n).reverse.length (.ofKind k))
      (m.stack.take n).reverse := by
  have kind : (Ty.ofKind k).kind = k := by cases k <;> rfl
  -- reading operands of one kind is reading them at one type over and over
  have same (vs : List Value) : ((List.replicate vs.length (Ty.ofKind k)).zip vs).mapM
      (fun x => m.read? x.1.kind x.2) = vs.mapM (m.read? k) := by
    induction vs with
    | nil => rfl
    | cons v vs ih =>
      rw [List.length_cons, List.replicate_succ, List.zip_cons_cons, List.mapM_cons, List.mapM_cons, ih]
      simp only [kind]
  unfold operands readAll
  rw [← same (m.stack.take n).reverse]

theorem Balanced.live_operands (balanced : m.Balanced []) (n : Nat) :
    ∀ v ∈ (m.stack.take n).reverse, m.Live v := fun _ mem =>
  balanced.live_of_stack (List.mem_of_mem_take (List.mem_reverse.1 mem))

end Machine

/-! ### Outcomes without a mismatch -/

/-- The outcome is no type mismatch, and an answer has the property. -/
def Sure {α : Type} (P : α → Prop) : Except Cause α → Prop
  | .ok a => P a
  | .error c => c ≠ .typeMismatch

/-- A question that meets no mismatch, before what follows from its answer. -/
theorem Sure.bind {α β : Type} {P : β → Prop} {x : Except Cause α} {f : α → Except Cause β}
    (asked : x ≠ .error .typeMismatch) (rest : ∀ a, x = .ok a → Sure P (f a)) : Sure P (x >>= f) := by
  cases x with
  | error c =>
    intro same
    exact asked (congrArg _ same)
  | ok a => exact rest a rfl

namespace Machine

variable {m m' : Machine} {T : Table Ty} {ts us : List Ty} {t u : Ty} {v w : Value} {o : Object}
  {n i : Nat} {P : Machine → Prop} {size next : Nat} {displacement : Int}

theorem need_no_mismatch : m.need n ≠ .error .typeMismatch := by
  intro refused
  cases (need_eq_error refused).1

theorem room_no_mismatch : m.room n ≠ .error .typeMismatch := by
  intro refused
  cases (room_eq_error refused).1

theorem roomAfter_no_mismatch : m.roomAfter n ≠ .error .typeMismatch := by
  unfold roomAfter
  split
  · exact room_no_mismatch
  · nofun

theorem lookup_no_mismatch {α : Type} {entry : Option α} : lookup entry ≠ .error .typeMismatch := by
  intro refused
  cases (lookup_eq_error refused).1

theorem localAt_no_mismatch : m.localAt i ≠ .error .typeMismatch := by
  intro refused
  rcases localAt_eq_error refused with ⟨never, -⟩ | never
  · cases never
  · cases never

theorem structFields_eq {fields : List Ty} (found : m.program.types[i]? = some (.struct fields)) :
    m.structFields i = .ok fields := by
  unfold structFields typeAt
  rw [found]
  rfl

theorem sure_copied (kept : P ((m.retain v).pushed v)) : Sure P (m.copied v) :=
  Sure.bind room_no_mismatch fun _ _ => kept

theorem sure_jumped (kept : ∀ ip, P (m.setIp ip)) : Sure P (m.jumped size next displacement) := by
  unfold Machine.jumped
  split
  · split
    · exact kept _
    · nofun
  · nofun

/-- A jump, and one operand less. -/
theorem sure_branched (kept : ∀ ip, P ((m.setIp ip).discarded 1)) :
    Sure P (do return (← m.jumped size next displacement).discarded 1) := by
  have moved : Sure (fun m' => ∃ ip, m' = m.setIp ip) (m.jumped size next displacement) :=
    sure_jumped fun ip => ⟨ip, rfl⟩
  cases found : m.jumped size next displacement with
  | error c =>
    rw [found] at moved
    exact moved
  | ok m' =>
    rw [found] at moved
    obtain ⟨ip, rfl⟩ := moved
    exact kept ip

/-- The operands of an operation have its kind, so it has a result or divides by zero. -/
theorem Kinded.sure_operating {op : Operation} (kinded : m.Kinded T (us ++ ts)) (balanced : m.Balanced [])
    (accepts : Scope.Accepts (List.replicate op.shape.arity (.ofKind op.shape.operand)) us)
    (kept : ∀ v, v.HasTy m.heap (.ofKind op.shape.result) → P (m.replaced op.shape.arity v)) :
    Sure P (do
      m.need op.shape.arity
      let operands ← m.operands op.shape.arity op.shape.operand
      let result ← op.eval operands
      return m.replaced op.shape.arity result) := by
  have length := accepts.length_eq
  rw [List.length_replicate] at length
  have in_order := List.rel_reverse accepts
  rw [List.reverse_replicate] at in_order
  have values := kinded.operands
  rw [length] at values
  refine Sure.bind need_no_mismatch fun _ need => ?_
  have enough := need_eq_ok.1 need
  have taken : (m.stack.take op.shape.arity).reverse.length = op.shape.arity := by
    simp
    omega
  have asked := operands_eq m op.shape.arity op.shape.operand
  rw [taken] at asked
  refine Sure.bind ?_ fun operands answer => ?_
  · obtain ⟨ws, read⟩ := readAll_of_kinds [] in_order (by rwa [List.append_nil])
      (balanced.live_operands op.shape.arity)
    rw [asked, read]
    nofun
  rw [asked] at answer
  obtain ⟨arity, each⟩ := getElem?_readAll answer (by rw [List.length_replicate, taken])
  rw [List.length_replicate] at arity
  -- whatever was read for the kind has it
  have kinds : ∀ v ∈ operands, v.kind = op.shape.operand := by
    intro v mem
    obtain ⟨i, at_i⟩ := List.getElem?_of_mem mem
    obtain ⟨t, w, expected, -, read⟩ := each i v at_i
    rw [kind_of_read? read, List.eq_of_mem_replicate (List.mem_of_getElem? expected)]
    cases op.shape.operand <;> rfl
  refine Sure.bind ?_ fun result evaluated => kept result ?_
  · intro failed
    cases Operation.eval_error failed arity kinds
  have kind := Operation.kind_eval evaluated
  -- every operation gives a number
  obtain ⟨s, scalar⟩ : ∃ s, op.shape.result = .scalar s := by
    cases op <;> exact ⟨_, rfl⟩
  rw [scalar] at kind ⊢
  exact .number kind

/-- Elements of the right kind make an array, of numbers or of the values themselves. -/
theorem Kinded.sure_makingArray {index count : Nat} {elem : Ty} (kinded : m.Kinded T (us ++ ts))
    (balanced : m.Balanced []) (found : m.program.types[index]? = some t) (array : t.elem? = some elem)
    (accepts : Scope.Accepts (List.replicate count elem) us)
    (packed : ∀ s numbers, t = .packed s →
      P ((m.discarded count).pushedObject (.packed (.ofValues s numbers))))
    (boxed : t = .array elem →
      P ((m.dropped count).pushedObject (.array elem (m.stack.take count).reverse.toArray))) :
    Sure P (m.makingArray index count) := by
  have length := accepts.length_eq
  rw [List.length_replicate] at length
  subst length
  -- the rule pops the last element first
  have in_order : Scope.Accepts (List.replicate us.length elem) us.reverse := by
    have turned := List.rel_reverse accepts
    rwa [List.reverse_replicate] at turned
  refine Sure.bind lookup_no_mismatch fun t' answer => ?_
  have same := lookup_eq_ok answer
  rw [found] at same
  cases same
  simp only [array]
  refine Sure.bind need_no_mismatch fun _ _ => ?_
  refine Sure.bind ?_ fun numbers read => ?_
  · obtain ⟨ws, read⟩ := readAll_of_kinds [] in_order (by rw [List.append_nil]; exact kinded.operands)
      (balanced.live_operands us.length)
    rw [read]
    nofun
  refine Sure.bind roomAfter_no_mismatch fun _ _ => ?_
  split
  · exact packed _ _ rfl
  · next not_packed =>
    -- any other array takes the operands over as its elements
    cases t with
    | packed s => exact absurd rfl (not_packed s)
    | array elem' =>
      cases array
      exact boxed rfl
    | _ => cases array

theorem Kinded.sure_makingZeroArray {index : Nat} {elem : Ty} (kinded : m.Kinded T (.i32 :: ts))
    (balanced : m.Balanced []) (found : m.program.types[index]? = some t) (array : t.elem? = some elem)
    (kept : ∀ o length, zeroArray t length = .ok o → P ((m.discarded 1).pushedObject o)) :
    Sure P (m.makingZeroArray index) := by
  refine Sure.bind lookup_no_mismatch fun t' answer => ?_
  have same := lookup_eq_ok answer
  rw [found] at same
  cases same
  refine Sure.bind need_no_mismatch fun _ _ => ?_
  refine Sure.bind (kinded.indexAt balanced rfl) fun length _ => ?_
  refine Sure.bind ?_ fun _ _ => ?_
  · intro refused
    cases (reject_eq_error refused).1
  refine Sure.bind ?_ fun o made => kept o length made
  cases t with
  | packed s => nofun
  | array elem' => nofun
  | _ => cases array

/-- Fields of the right kinds make a struct, which takes over the references among them. -/
theorem Kinded.sure_makingStruct {index : Nat} {fields : List Ty} (kinded : m.Kinded T (us ++ ts))
    (balanced : m.Balanced []) (found : m.program.types[index]? = some (.struct fields))
    (accepts : Scope.Accepts fields.reverse us)
    (kept : ∀ values, fields.length ≤ m.stack.length →
      m.readAll fields (m.stack.take fields.length).reverse = .ok values →
      P (((m.dropped fields.length).releaseAll
          (((fields.zip (m.stack.take fields.length).reverse).filter fun (t, _) => !t.isRef).map
            Prod.snd)).pushedObject (.struct (.ofValues fields values)))) :
    Sure P (m.makingStruct index) := by
  have length := accepts.length_eq
  rw [List.length_reverse] at length
  -- the rule pops the last field first
  have in_order : Scope.Accepts fields us.reverse := by
    have turned := List.rel_reverse accepts
    rwa [List.reverse_reverse] at turned
  have operands := kinded.operands
  rw [length] at operands
  refine Sure.bind (by rw [structFields_eq found]; nofun) fun fields' answer => ?_
  rw [structFields_eq found] at answer
  cases answer
  refine Sure.bind need_no_mismatch fun _ need => ?_
  have enough := need_eq_ok.1 need
  refine Sure.bind ?_ fun values read => ?_
  · obtain ⟨ws, read⟩ := readAll_of_kinds [] in_order (by rwa [List.append_nil])
      (balanced.live_operands fields.length)
    rw [read]
    nofun
  exact Sure.bind roomAfter_no_mismatch fun _ _ => kept values (by omega) read

theorem sure_makingZeroStruct {index : Nat} {fields : List Ty}
    (found : m.program.types[index]? = some (.struct fields))
    (kept : P (m.pushedObject (.struct (.zero fields)))) : Sure P (m.makingZeroStruct index) := by
  refine Sure.bind (by rw [structFields_eq found]; nofun) fun fields' answer => ?_
  rw [structFields_eq found] at answer
  cases answer
  exact Sure.bind room_no_mismatch fun _ _ => kept

end Machine

end StackVM
