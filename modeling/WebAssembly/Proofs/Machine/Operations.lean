import WebAssembly.Machine.Run
import WebAssembly.Proofs.Fallible
import WebAssembly.Proofs.Stacks

/-!
# Operations on a known machine

What the building blocks of execution do on a given machine, as equations by which longer operations
are run step by step. Operand stacks are given as lists with the topmost value first.
-/

namespace WebAssembly

variable {α β : Type}

/-! ## The store and the stack

An operation on the stack alone is one on the machine that leaves the store alone, and the other way
around.
-/

namespace Exec

theorem ask_of_ok {question : Store → Except RuntimeError α} {m : Machine} {a : α}
    (h : question m.store = .ok a) : ask question m = .ok a m := by
  rw [ask, h]

theorem ask_of_error {question : Store → Except RuntimeError α} {m : Machine} {e : RuntimeError}
    (h : question m.store = .error e) : ask question m = .error e m := by
  rw [ask, h]

theorem ofExcept_of_ok {x : Except RuntimeError α} {a : α} (h : x = .ok a) (m : Machine) :
    ofExcept x m = .ok a m := by
  rw [h]
  rfl

/-- A part that is run on a stack of its own leaves the stack around it alone. -/
theorem isolated_of_ok {x : Exec α} {store : Store} {a : α} {m : Machine}
    (h : x ⟨store, .empty⟩ = .ok a m) (stack : Stack Value) :
    isolated x ⟨store, stack⟩ = .ok a ⟨m.store, stack⟩ := by
  unfold isolated
  dsimp only
  rw [h]

/-- The stack around an isolated part is untouched by its failure too. -/
theorem isolated_of_error {x : Exec α} {store : Store} {e : RuntimeError} {m : Machine}
    (h : x ⟨store, .empty⟩ = .error e m) (stack : Stack Value) :
    isolated x ⟨store, stack⟩ = .error e ⟨m.store, stack⟩ := by
  unfold isolated
  dsimp only
  rw [h]

theorem onStack_of_ok {x : OnStack α} {store : Store} {stack stack' : Stack Value} {a : α}
    (h : x stack = .ok a stack') : onStack x ⟨store, stack⟩ = .ok a ⟨store, stack'⟩ := by
  rw [onStack, h]

theorem onStack_of_error {x : OnStack α} {store : Store} {stack stack' : Stack Value}
    {e : RuntimeError} (h : x stack = .error e stack') :
    onStack x ⟨store, stack⟩ = .error e ⟨store, stack'⟩ := by
  rw [onStack, h]

/-- Doing two things on the stack is doing both there. -/
theorem onStack_bind (x : OnStack α) (f : α → OnStack β) :
    onStack (x >>= f) = onStack x >>= fun a => onStack (f a) := by
  funext m
  obtain ⟨store, stack⟩ := m
  cases h : x stack with
  | ok a stack' =>
      rw [bind_of_ok (onStack_of_ok h), onStack, bind_of_ok h]
      rfl
  | error e stack' =>
      rw [bind_of_error (onStack_of_error h), onStack_of_error (bind_of_error h)]

theorem onStack_height (m : Machine) : onStack OnStack.height m = .ok m.stack.size m :=
  rfl

end Exec

/-! ## Unwinding

Values are carried over a cut of the stack. Cutting to the same height twice is cutting once.
-/

namespace OnStack

/-- Popping gives the values from the bottom up, the order in which they were pushed. -/
theorem popMany_append (top rest : List Value) :
    popMany top.length (Stack.ofList (top ++ rest)) = .ok top.reverse (Stack.ofList rest) := by
  rw [popMany, if_neg (by rw [Stack.size_ofList, List.length_append]; omega), Stack.takeTop,
    Stack.toList_ofList, Stack.drop_ofList, List.take_left, List.drop_left]

/-- Popping too many values takes none. -/
theorem popMany_of_lt {vs : List Value} {n : Nat} (h : vs.length < n) :
    popMany n (Stack.ofList vs) = .error .stackUnderflow (Stack.ofList vs) := by
  rw [popMany, Stack.size_ofList, if_pos h]

/-- The top values stay, and under them what lies below the height. -/
theorem unwind_append (top rest : List Value) (height : Nat) :
    unwind top.length height (Stack.ofList (top ++ rest)) =
      .ok () (Stack.ofList (top ++ rest.drop (rest.length - height))) := by
  rw [unwind, bind_of_ok (popMany_append top rest)]
  show EStateM.Result.ok () (((Stack.ofList rest).truncate height).pushAll top.reverse) = _
  rw [Stack.truncate_ofList, Stack.pushAll_ofList, List.reverse_reverse]

/-- Unwinding fails where the values to be carried are not there, and leaves the stack as it was. -/
theorem unwind_of_lt {vs : List Value} {n : Nat} (h : vs.length < n) (height : Nat) :
    unwind n height (Stack.ofList vs) = .error .stackUnderflow (Stack.ofList vs) :=
  bind_of_error (popMany_of_lt h)

/-- Cutting the stack back a second time to the same place changes nothing. -/
theorem unwind_unwind (arity height : Nat) :
    (unwind arity height >>= fun _ => unwind arity height) = unwind arity height := by
  funext stack
  obtain ⟨vs, rfl⟩ : ∃ vs, stack = Stack.ofList vs := ⟨stack.toList, by simp⟩
  by_cases hsize : vs.length < arity
  · rw [bind_of_error (unwind_of_lt hsize height), unwind_of_lt hsize height]
  · have harity : (vs.take arity).length = arity := by
      rw [List.length_take]
      omega
    have hunwind := fun rest => unwind_append (vs.take arity) rest height
    rw [harity] at hunwind
    -- what the first unwinding leaves is no higher than `height`, so the second cuts nothing
    have hcut : ∀ rest : List Value, (rest.drop (rest.length - height)).length - height = 0 := by
      intro rest
      rw [List.length_drop]
      omega
    rw [← List.take_append_drop arity vs, bind_of_ok (hunwind _), hunwind, hunwind, hcut,
      List.drop_zero]

/-- Cutting the stack back to what lies under the operands of a construct. -/
theorem unwind_suffix (top : List Value) {rest left : List Value} (h : left <:+ rest) :
    unwind top.length left.length (Stack.ofList (top ++ rest)) =
      .ok () (Stack.ofList (top ++ left)) := by
  obtain ⟨mid, rfl⟩ := h
  rw [unwind_append, List.length_append, Nat.add_sub_cancel, List.drop_left]

end OnStack

/-! ## Entering constructs and calls

What a header does once its operand is off the stack, and what a branch does once its label is
found.
-/

namespace Exec

/-- The header of an `if` enters the construct at one of its two arms. -/
theorem ifElse_of_ok {act : Activation} {arity otherwise stop : Nat} {m m' : Machine}
    {condition : BitVec IntType.i32.width}
    (h : onStack (OnStack.popInt .i32) m = .ok condition m') :
    op act (.ifElse arity otherwise stop) m =
      let inside := act.enterLabel (.ofConstruct .ifElse arity m'.stack.size (stop + 1))
      .ok (.next (if condition = 0 then inside.goTo (otherwise + 1) else inside)) m' :=
  bind_of_ok h

theorem ifElse_of_error {act : Activation} {arity otherwise stop : Nat} {m m' : Machine}
    {e : RuntimeError} (h : onStack (OnStack.popInt .i32) m = .error e m') :
    op act (.ifElse arity otherwise stop) m = .error e m' :=
  bind_of_error h

/-- A branch past all labels. -/
theorem br_of_drop_nil {act : Activation} {label : UInt32} (h : act.labels.drop label.toNat = []) :
    (onStack (OnStack.br act.labels label) >>= follow act) =
      (throw (.invalidIndex .label label) : Exec Flow) := by
  have hnone : act.labels[label.toNat]? = none := by
    rw [← List.head?_drop, h]
    rfl
  rw [OnStack.br, hnone]
  rfl

/-- A branch cuts the stack back for its target and goes on there. -/
theorem br_of_drop_cons {act : Activation} {label : UInt32} {target : Label} {around : List Label}
    (h : act.labels.drop label.toNat = target :: around) :
    (onStack (OnStack.br act.labels label) >>= follow act) =
      onStack (OnStack.unwindTo target) >>= fun _ => pure
        (if target.kind = .func then .done { act with labels := around }
        else .next { act with labels := around, pc := target.cont }) := by
  have hsome : act.labels[label.toNat]? = some target := by
    rw [← List.head?_drop, h]
    rfl
  have htarget : branchTo? act.labels label = some (target, around) := by
    rw [branchTo?, h]
  have hfollow : follow act (.branch label) = pure
      (if target.kind = .func then .done { act with labels := around }
      else .next { act with labels := around, pc := target.cont }) := by
    rw [follow, htarget]
    exact (apply_ite pure _ _ _).symm
  -- the label is looked up twice, once for its height and once for its continuation
  rw [OnStack.br, hsome]
  show (onStack (OnStack.unwindTo target >>= fun _ => pure (.branch label)) >>= follow act) = _
  rw [onStack_bind, bind_assoc]
  exact congrArg _ (funext fun _ => hfollow)

/-- A conditional branch is a branch taken where the condition is not zero. -/
theorem brIf_eq (act : Activation) (label : UInt32) :
    instruction act (.brIf label) = onStack (OnStack.popInt .i32) >>= fun condition =>
      if condition = 0 then pure (.next act)
      else onStack (OnStack.br act.labels label) >>= follow act := by
  show (onStack (OnStack.brIf act.labels label) >>= follow act) = _
  rw [OnStack.brIf, onStack_bind, bind_assoc]
  congr 1
  funext condition
  split <;> rfl

/-- A branch through a table is a branch to the label the operand selects. -/
theorem brTable_eq (act : Activation) (targets : List UInt32) (default : UInt32) :
    instruction act (.brTable targets default) = onStack (OnStack.popInt .i32) >>= fun index =>
      onStack (OnStack.br act.labels (targets[index.toNat]?.getD default)) >>= follow act := by
  show (onStack (OnStack.brTable act.labels targets default) >>= follow act) = _
  rw [OnStack.brTable, onStack_bind, bind_assoc]

/-- An activation starts at the first op of its function, and only the function is around it. -/
theorem enter_eq_some {addr : Nat} {m m' : Machine} {act : Activation}
    (h : enter addr m = .ok (some act) m') :
    ∃ (type : FuncType) (module : Nat), m.store.func addr = .ok (.defined type module act.code) ∧
      act.arity = type.results.length ∧ act.pc = 0 ∧
      act.labels = [⟨.func, act.arity, act.height, act.code.ops.size⟩] := by
  rw [enter] at h
  obtain ⟨f, m₁, hf, h⟩ := bind_eq_ok_iff.mp h
  cases hfunc : m.store.func addr with
  | error e =>
      rw [ask_of_error hfunc] at hf
      cases hf
  | ok f' =>
      rw [ask_of_ok hfunc] at hf
      cases hf
      cases f with
      | host type run =>
          -- a host function returns no activation, whatever it answers
          obtain ⟨_, _, _, h⟩ := bind_eq_ok_iff.mp h
          obtain ⟨_, _, _, h⟩ := bind_eq_ok_iff.mp h
          obtain ⟨_, _, _, h⟩ := bind_eq_ok_iff.mp h
          obtain ⟨_, _, _, h⟩ := bind_eq_ok_iff.mp h
          obtain ⟨_, _, _, h⟩ := bind_eq_ok_iff.mp h
          cases h
      | defined type module code =>
          obtain ⟨_, _, _, h⟩ := bind_eq_ok_iff.mp h
          obtain ⟨_, _, _, h⟩ := bind_eq_ok_iff.mp h
          obtain ⟨_, _, _, h⟩ := bind_eq_ok_iff.mp h
          cases h
          exact ⟨type, module, rfl, rfl, rfl, rfl⟩

/-! ## Single ops -/

/-- What becomes of the activations after an op. -/
def proceed (outer : Stack Activation) : Flow → Exec (Stack Activation)
  | .next act => return outer.push act
  | .call act func => do
    match ← enter func with
    | none => return outer.push act
    | some callee =>
      if maxCallDepth ≤ outer.size + 1 then throw (.trap .callStackExhausted)
      else return (outer.push act).push callee
  | .done act => do
    leave act
    return outer

theorem advance_eq (act : Activation) (outer : Stack Activation) :
    advance act outer = step act >>= proceed outer := by
  unfold advance
  congr 1

theorem step_of_op {act : Activation} {o : Op} (h : act.code.ops[act.pc]? = some o) :
    step act = op (act.goTo (act.pc + 1)) o := by
  rw [step, h]

/-- Past the end of its code an activation is done. -/
theorem step_of_none {act : Activation} (h : act.code.ops[act.pc]? = none) :
    step act = pure (.done act) := by
  rw [step, h]

end Exec

end WebAssembly
