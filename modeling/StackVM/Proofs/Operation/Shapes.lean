import StackVM.Operation.Eval

/-!
# Operations keep to their shapes

A result has the kind that the shape announces, and operands of the shape are refused only for a zero
divisor.
-/

namespace StackVM

/-- Operations that can have no result for a zero divisor. -/
def IntBinary.divides : IntBinary → Bool
  | .divS | .divU | .remS | .remU => true
  | _ => false

variable {c : Cause} {v result : Value}

theorem Conversion.kind_eval? {conversion : Conversion} (done : conversion.eval? v = some result) :
    result.kind = .scalar conversion.target := by
  unfold Conversion.eval? at done
  split at done <;> cases done <;> rfl

theorem Conversion.eval?_isSome {conversion : Conversion} (source : v.kind = .scalar conversion.source) :
    (conversion.eval? v).isSome := by
  cases v <;> rcases conversion with ⟨_ | _⟩ | _ | ⟨_ | _, _ | _, _ | _⟩ | ⟨_ | _, _ | _, _ | _⟩ | _ | _ <;>
    first
    | rfl
    | cases source

theorem error_of_map {α β : Type} {x : Except Cause α} {f : α → β} (failed : x.map f = .error c) :
    x = .error c := by
  cases x with
  | error e =>
    cases failed
    rfl
  | ok a => cases failed

theorem IntBinary.eval_error {w : Nat} {op : IntBinary} {a b : BitVec w} (failed : op.eval a b = .error c) :
    c = .divideByZero := by
  have division (q : BitVec w) (failed : IntBinary.eval.divisor b q = .error c) : c = .divideByZero := by
    unfold IntBinary.eval.divisor at failed
    split at failed
    · cases failed
      rfl
    · cases failed
  cases op with
  | divS | divU | remS | remU => exact division _ failed
  | _ => cases failed

namespace Operation

theorem arity_pos (op : Operation) : 0 < op.shape.arity := by cases op <;> exact Nat.succ_pos _

variable {op : Operation} {vs : List Value}

theorem kind_eval (evaluated : op.eval vs = .ok result) : result.kind = op.shape.result := by
  unfold Operation.eval at evaluated
  split at evaluated
  case h_8 op a b =>
    cases computed : op.eval a b with
    | error c => simp [computed, Except.map] at evaluated
    | ok n =>
      rw [computed] at evaluated
      cases evaluated
      rfl
  case h_9 op a b =>
    cases computed : op.eval a b with
    | error c => simp [computed, Except.map] at evaluated
    | ok n =>
      rw [computed] at evaluated
      cases evaluated
      rfl
  case h_14 conversion v =>
    split at evaluated
    · next converted =>
      cases evaluated
      exact Conversion.kind_eval? converted
    · cases evaluated
  all_goals
    cases evaluated
    try rfl

/-- Every operation gives a number. -/
theorem number_eval (evaluated : op.eval vs = .ok result) : result.kind ≠ .ref := by
  rw [kind_eval evaluated]
  cases op <;> simp [shape]

/-- An operation fails for its operands or for a zero divisor. -/
theorem cause_eval (failed : op.eval vs = .error c) : c = .typeMismatch ∨ c = .divideByZero := by
  unfold Operation.eval at failed
  split at failed
  case h_8 op a b => exact .inr (IntBinary.eval_error (error_of_map failed))
  case h_9 op a b => exact .inr (IntBinary.eval_error (error_of_map failed))
  case h_14 conversion v =>
    split at failed
    · cases failed
    · cases failed
      exact .inl rfl
  case h_15 =>
    cases failed
    exact .inl rfl
  all_goals cases failed

private theorem eval_one_error (failed : op.eval [v] = .error c) (arity : op.shape.arity = 1)
    (kind : v.kind = op.shape.operand) : c = .divideByZero := by
  cases op with
  | refIsNull => cases v <;> cases kind <;> cases failed
  | intEqz width => cases width <;> cases v <;> cases kind <;> cases failed
  | convert conversion =>
    obtain ⟨result, converted⟩ := Option.isSome_iff_exists.1 (Conversion.eval?_isSome kind)
    simp [Operation.eval, converted] at failed
  | _ => cases arity

private theorem eval_two_error {w : Value} (failed : op.eval [v, w] = .error c)
    (arity : op.shape.arity = 2) (first : v.kind = op.shape.operand) (second : w.kind = op.shape.operand) :
    c = .divideByZero := by
  cases op with
  | refEq | refNe => cases v <;> cases first <;> cases w <;> cases second <;> cases failed
  | intTest width test =>
    cases width <;> cases v <;> cases first <;> cases w <;> cases second <;> cases failed
  | floatTest width test =>
    cases width <;> cases v <;> cases first <;> cases w <;> cases second <;> cases failed
  | floatBinary width op =>
    cases width <;> cases v <;> cases first <;> cases w <;> cases second <;> cases failed
  | intBinary width op =>
    cases width with
    | w32 =>
      cases v <;> cases first
      cases w <;> cases second
      exact IntBinary.eval_error (error_of_map failed)
    | w64 =>
      cases v <;> cases first
      cases w <;> cases second
      exact IntBinary.eval_error (error_of_map failed)
  | _ => cases arity

/-- Operands of the shape are refused only for a zero divisor. -/
theorem eval_error (failed : op.eval vs = .error c) (arity : vs.length = op.shape.arity)
    (kinds : ∀ v ∈ vs, v.kind = op.shape.operand) : c = .divideByZero := by
  match vs with
  | [] => cases op <;> cases arity
  | [v] => exact eval_one_error failed arity.symm (kinds v (by simp))
  | [v, w] => exact eval_two_error failed arity.symm (kinds v (by simp)) (kinds w (by simp))
  | _ :: _ :: _ :: _ => cases op <;> cases arity

end Operation

end StackVM
