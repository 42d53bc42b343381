import StackVM.Proofs.Machine.Effect

/-!
# Calls of the host

A call of a host function takes the function and its arguments off the stack, lets the callback work on what
is left, and goes on from what the callback comes to (`HostCall.call_eq`).
-/

namespace StackVM

namespace Exec

theorem ask_bind_ok {α β : Type} {m : Machine} {question : Machine → Except Cause α} {a : α}
    (answer : question m = .ok a) (f : α → Exec β) : (ask question >>= f) m = f a m := by
  change EStateM.bind (ask question) f m = _
  rw [EStateM.bind, ask_apply, answer]

end Exec

namespace Machine

/-- A call of a host function that gets as far as its callback. -/
structure HostCall (m : Machine) (signature : Signature) (body : List Value → Script) (callee : Nat) :
    Prop where
  top : m.peek 0 = .ref callee
  found : m.heap.get? callee = some (.host signature body)
  arguments : m.checkArguments signature.params = .ok ()
  room : m.stack.length - 1 - signature.params.length + signature.returns.length ≤ m.options.stackSize

/-- What a host function with the signature is handed. -/
def arguments (m : Machine) (signature : Signature) : List Value :=
  ((m.stack.drop 1).take signature.params.length).reverse

/-- The machine that the callback finds. -/
def handed (m : Machine) (signature : Signature) : Machine := m.dropped (signature.params.length + 1)

variable {m : Machine} {signature : Signature} {body : List Value → Script} {callee : Nat}

theorem HostCall.enough (calls : m.HostCall signature body callee) :
    m.floor + (signature.params.length + 1) ≤ m.stack.length := by
  obtain ⟨_, need, -⟩ := bind_eq_ok calls.arguments
  exact need_eq_ok.1 need

/-- The function lies on top of the stack, and below it lie the arguments, the last one first. -/
theorem HostCall.stack_eq (calls : m.HostCall signature body callee) :
    m.stack = .ref callee :: ((m.arguments signature).reverse ++ (m.handed signature).stack) := by
  have enough := calls.enough
  have top : m.stack.take 1 = [.ref callee] := by rw [take_one (by omega), calls.top]
  calc
    m.stack = m.stack.take 1 ++ m.stack.drop 1 := (List.take_append_drop 1 m.stack).symm
    _ = .ref callee :: m.stack.drop 1 := by rw [top, List.singleton_append]
    _ = .ref callee :: ((m.arguments signature).reverse ++ (m.handed signature).stack) := by
      rw [Machine.arguments, List.reverse_reverse, handed, dropped, Nat.add_comm, ← List.drop_drop,
        List.take_append_drop]

/-- How the call goes on from what the callback comes to. -/
theorem HostCall.call_eq (calls : m.HostCall signature body callee) (nested : Exec Unit) :
    Exec.call nested m =
      match Exec.perform nested (body (m.arguments signature)) (m.handed signature) with
      | .ok results m' =>
        Exec.settle signature.returns.length (m.arguments signature) results (m'.release (.ref callee))
      | .error stop m' => .error stop ((m'.release (.ref callee)).releaseAll (m.arguments signature)) := by
  have enough := calls.enough
  have need : m.need 1 = .ok () := need_eq_ok.2 (by omega)
  have address : m.addressAt 0 = .ok callee := by
    unfold addressAt
    rw [calls.top]
  have room := calls.room
  unfold Exec.call
  rw [Exec.ask_bind_ok need, Exec.ask_bind_ok address, Exec.get_bind]
  simp only [calls.found]
  unfold Exec.callHost
  rw [Exec.ask_bind_ok calls.arguments, Exec.get_bind, if_neg (by omega)]
  rfl

end Machine

end StackVM
