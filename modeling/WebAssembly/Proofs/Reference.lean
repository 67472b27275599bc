import WebAssembly.Machine.Run

/-!
# The reference interpreter

Code evaluated on its tree: a construct evaluates its body and looks at how the body ended. There
are no positions, no labels and no activations here. A branch is an exit that each construct on its
way passes outwards, one construct fewer left to leave each time, until it arrives at its target,
which cuts the stack back. A call evaluates the callee's body before it goes on.

Instructions without control act on the machine as they do in flat code. The interpreter takes the
bodies of functions from `bodies`, by address, because a store holds flat code only. `fuel` bounds
the depth of the evaluation; the answer is `none` when it is used up.
-/

namespace WebAssembly

/-- How a piece of code ends. -/
inductive Exit where
  /-- Behind its last instruction. -/
  | next
  /-- With a branch that has `left` constructs to leave before the one it targets; `label` is the
  branch as written. -/
  | branch (left : Nat) (label : UInt32)
  /-- With a return from the function. -/
  | ret

/-- A branch as it starts. -/
def Exit.toLabel (label : UInt32) : Exit :=
  .branch label.toNat label

namespace Tree

/-- Ends a construct that was entered at a height. A branch that targets it carries `arity` values
and then does what `arrive` says. -/
def leaveConstruct (arity height : Nat) (arrive : Frame → Run (Exit × Frame)) (frame : Frame) :
    Exit → Run (Exit × Frame)
  | .branch 0 _ => do
    Exec.onStack (OnStack.unwind arity height)
    arrive frame
  | .branch (left + 1) label => return (.branch left label, frame)
  | exit => return (exit, frame)

/-- A branch that targets a `block` or `if` goes on behind it. -/
def behind (frame : Frame) : Run (Exit × Frame) :=
  return (.next, frame)

/-- Ends a call: a branch must not have got past the function. -/
def leaveCall (act : Activation) : Exit → Exec Unit
  | .branch (_ + 1) label => throw (.invalidIndex .label label)
  | _ => Exec.leave act

/-- Calls a function with its arguments on the stack, `depth` calls deep. `evaluate` evaluates a
body. -/
def callWith (bodies : Nat → Expr) (evaluate : Frame → Expr → Run (Exit × Frame)) (depth : Nat)
    (addr : Nat) : Run Unit := do
  match ← Exec.enter addr with
  | none => return ()
  | some act =>
    if maxCallDepth ≤ depth then Exec.ofExcept (.error (.trap .callStackExhausted))
    else
      let (exit, _) ← evaluate act.frame (bodies addr)
      leaveCall act exit

mutual

/-- Evaluates an instruction, `depth` calls deep. -/
def instruction (bodies : Nat → Expr) :
    (fuel depth : Nat) → Frame → Instruction → Run (Exit × Frame)
  | 0, _, _, _ => fun _ => none
  | fuel + 1, depth, frame, i =>
    match i with
    | .unreachable => Exec.ofExcept (.error (.trap .unreachable))
    | .nop => return (.next, frame)
    | .block type body => do
      let height ← Exec.onStack OnStack.height
      let (exit, frame) ← sequence bodies fuel depth frame body
      leaveConstruct type.arity height behind frame exit
    | .loop type body => do
      let height ← Exec.onStack OnStack.height
      let (exit, frame) ← sequence bodies fuel depth frame body
      leaveConstruct 0 height (fun frame => instruction bodies fuel depth frame (.loop type body))
        frame exit
    | .ifElse type thenBody elseBody => do
      let condition ← Exec.onStack (OnStack.popInt .i32)
      let height ← Exec.onStack OnStack.height
      let (exit, frame) ←
        sequence bodies fuel depth frame (if condition = 0 then elseBody else thenBody)
      leaveConstruct type.arity height behind frame exit
    | .br label => return (.toLabel label, frame)
    | .brIf label => do
      let condition ← Exec.onStack (OnStack.popInt .i32)
      return (if condition = 0 then .next else .toLabel label, frame)
    | .brTable targets default => do
      let index ← Exec.onStack (OnStack.popInt .i32)
      return (.toLabel (targets[index.toNat]?.getD default), frame)
    | .ret => return (.ret, frame)
    | .call i => do
      let addr ← Exec.ofExcept (frame.module.func i)
      callWith bodies (sequence bodies fuel (depth + 1)) depth addr
      return (.next, frame)
    | .callIndirect type => do
      let addr ← Exec.indirect frame.module type
      callWith bodies (sequence bodies fuel (depth + 1)) depth addr
      return (.next, frame)
    | .plain op => do
      let frame ← Exec.plain frame op
      return (.next, frame)

/-- Evaluates a sequence up to the first instruction that does not fall through. -/
def sequence (bodies : Nat → Expr) : (fuel depth : Nat) → Frame → Expr → Run (Exit × Frame)
  | 0, _, _, _ => fun _ => none
  | fuel + 1, depth, frame, is =>
    match is with
    | [] => return (.next, frame)
    | i :: is => do
      let (exit, frame) ← instruction bodies fuel depth frame i
      match exit with
      | .next => sequence bodies fuel depth frame is
      | exit => return (exit, frame)

end

/-- Calls a function with its arguments on the stack, and leaves its results in their place. -/
def call (bodies : Nat → Expr) (fuel addr : Nat) : Run Unit :=
  callWith bodies (sequence bodies fuel 1) 0 addr

/-- Calls a function with the given arguments. -/
def invoke (bodies : Nat → Expr) (fuel addr : Nat) (args : List Value) : Run (List Value) := do
  let f ← Exec.ask (·.func addr)
  Exec.ofExcept (f.type.checkArgs args)
  let height ← Exec.onStack OnStack.height
  Exec.onStack (OnStack.pushAll args)
  call bodies fuel addr
  let results ← Exec.onStack (OnStack.popMany f.type.results.length)
  Exec.onStack (OnStack.truncate height)
  return results

end Tree

end WebAssembly
