import WebAssembly.Machine.Basic
import WebAssembly.Machine.Label

/-!
# Running functions

Each call of a function of a module is an activation: its code, a position in it, its labels and its
frame. The activations of a run form a stack with the innermost one on top, and all share the
operand stack. `Exec.advance` executes one op of the innermost activation; `Run.finish` repeats this
until none is left. Code may run forever, so `Run.finish` takes a bound on the number of ops and
gives `none` when it is used up.
-/

namespace WebAssembly

/-- The most activations of a run. -/
def maxCallDepth : Nat := 1024

/-- A call of a function of a module. -/
structure Activation where
  /-- Number of results. -/
  arity : Nat
  frame : Frame
  code : Code
  /-- Height of the stack below what the call puts on it. -/
  height : Nat
  /-- Position of the next op. -/
  pc : Nat
  /-- Constructs around the next op, the innermost one first, and last the function itself. -/
  labels : List Label

/-- What an activation asks for after an op. -/
inductive Flow where
  | next (act : Activation)
  | call (act : Activation) (func : Nat)
  | done (act : Activation)

namespace Activation

/-- It inside one more construct. -/
def enterLabel (act : Activation) (label : Label) : Activation :=
  { act with labels := label :: act.labels }

/-- It at another position. -/
def goTo (act : Activation) (pc : Nat) : Activation :=
  { act with pc := pc }

end Activation

namespace Exec

/-! ## Calls -/

/-- Host functions must give what their type says: first as many values, then each of its type. -/
def checkResults (type : FuncType) (vs : List Value) : Except RuntimeError Unit :=
  if vs.length = type.results.length then
    match (vs.zip type.results).find? fun (v, t) => v.type ≠ t with
    | some (v, t) => .error (.typeMismatch t v.type)
    | none => .ok ()
  else .error (.hostResultMismatch type.results.length vs.length)

/-- Starts a call with the arguments on the stack. A host function is done at once; a function of a
module gets an activation. -/
def enter (addr : Nat) : Exec (Option Activation) := do
  match ← ask (·.func addr) with
  | .host type run =>
    let args ← OnStack.popMany type.params.length
    let answer ← ask fun s => .ok (run s.hostCalls args)
    modifyStore (·.recordCall ⟨addr, args⟩)
    let results ← ofExcept answer
    ofExcept (checkResults type results)
    OnStack.pushAll results
    return none
  | .defined type moduleAddr code =>
    let args ← OnStack.popMany type.params.length
    let module ← ask (·.module moduleAddr)
    let height ← OnStack.height
    let arity := type.results.length
    let locals := (args ++ code.locals.map Value.zero).toArray
    let label := Label.ofConstruct .func arity height code.ops.size
    return some ⟨arity, ⟨module, locals⟩, code, height, 0, [label]⟩

/-- Ends a call: its results replace all that it has put on the stack. -/
def leave (act : Activation) : Exec Unit :=
  OnStack.unwind act.arity act.height

/-- Address of the function that an indirect call goes to. The position in the table is taken off
the stack. -/
def indirect (module : ModuleInstance) (type : UInt32) : Exec Nat := do
  let expected ← ofExcept (module.type type)
  let tableAddr ← ofExcept (module.table 0)
  let table ← ask (·.table tableAddr)
  let index ← OnStack.popInt .i32
  let addr ← ofExcept ((table.get index.toNat).mapError .trap)
  let f ← ask (·.func addr)
  if f.type = expected then return addr else throw (.trap .indirectCallTypeMismatch)

/-! ## Ops -/

/-- Follows a branch for which the stack has been cut back. -/
def follow (act : Activation) : Jump → Exec Flow
  | .next => return .next act
  | .branch depth =>
    match branchTo? act.labels depth with
    | none => throw (.invalidIndex .label depth)
    | some (label, outer) =>
      if label.kind = .func then return .done { act with labels := outer }
      else return .next { act with labels := outer, pc := label.cont }

/-- Executes an instruction without a body. -/
def instruction (act : Activation) : Instruction → Exec Flow
  | .unreachable => do
    let jump ← OnStack.unreachable
    follow act jump
  | .nop => return .next act
  | .br depth => do
    let jump ← OnStack.br act.labels depth
    follow act jump
  | .brIf depth => do
    let jump ← OnStack.brIf act.labels depth
    follow act jump
  | .brTable targets default => do
    let jump ← OnStack.brTable act.labels targets default
    follow act jump
  | .ret => return .done act
  | .call i => do
    let addr ← ofExcept (act.frame.module.func i)
    return .call act addr
  | .callIndirect type => do
    let addr ← indirect act.frame.module type
    return .call act addr
  | .plain op =>
    match act with
    | ⟨arity, frame, code, height, pc, labels⟩ => do
      let frame ← plain frame op
      return .next ⟨arity, frame, code, height, pc, labels⟩
  | i => throw (.misplacedControl i.mnemonic)

/-- Executes an op behind which the activation already stands. -/
def op (act : Activation) : Op → Exec Flow
  | .block arity stop => do
    let height ← OnStack.height
    return .next (act.enterLabel (.ofConstruct .block arity height (stop + 1)))
  | .loop => do
    let height ← OnStack.height
    return .next (act.enterLabel (.ofConstruct .loop 0 height (act.pc - 1)))
  | .ifElse arity otherwise stop => do
    let condition ← OnStack.popInt .i32
    let height ← OnStack.height
    let act := act.enterLabel (.ofConstruct .ifElse arity height (stop + 1))
    return .next (if condition = 0 then act.goTo (otherwise + 1) else act)
  | .skip stop => return .next (act.goTo stop)
  | .close => return .next { act with labels := act.labels.tail }
  | .instr i => instruction act i

/-- Executes the next op of an activation. Behind the last one it is done. -/
def step (act : Activation) : Exec Flow :=
  match act.code.ops[act.pc]? with
  | some o => op (act.goTo (act.pc + 1)) o
  | none => return .done act

/-- Executes one op of the innermost activation, and gives the activations after it. -/
def advance (act : Activation) (outer : Stack Activation) : Exec (Stack Activation) := do
  match ← step act with
  | .next act => return outer.push act
  | .call act func =>
    match ← enter func with
    | none => return outer.push act
    | some callee =>
      if maxCallDepth ≤ outer.size + 1 then throw (.trap .callStackExhausted)
      else return (outer.push act).push callee
  | .done act =>
    leave act
    return outer

end Exec

/-! ## Runs -/

/-- How a run ends: with a value or a failure, and the machine then; or not at all. -/
abbrev Outcome (α : Type) : Type := Option (EStateM.Result RuntimeError Machine α)

/-- What may take forever: an operation on the machine that may not end within its bound. -/
def Run (α : Type) : Type := Machine → Outcome α

namespace Run

/-- Gives a value. -/
def pure {α : Type} (a : α) : Run α := fun m =>
  some (.ok a m)

/-- One run and then another. A failure or the end of the bound ends both. -/
def bind {α β : Type} (x : Run α) (f : α → Run β) : Run β := fun m =>
  match x m with
  | none => none
  | some (.error e m) => some (.error e m)
  | some (.ok a m) => f a m

instance : Monad Run where
  pure := Run.pure
  bind := Run.bind

/-- An operation as a run. -/
def ofExec {α : Type} (x : Exec α) : Run α := fun m =>
  some (x m)

instance : MonadLift Exec Run where
  monadLift := ofExec

/-- Runs with an empty stack and brings the old one back afterwards. -/
def isolated {α : Type} (x : Run α) : Run α := fun ⟨store, stack⟩ =>
  match x ⟨store, .empty⟩ with
  | none => none
  | some (.ok a m) => some (.ok a ⟨m.store, stack⟩)
  | some (.error e m) => some (.error e ⟨m.store, stack⟩)

/-- Executes ops, at most `fuel` of them, until no activation is left. -/
def finish : (fuel : Nat) → Stack Activation → Run Unit
  | 0, acts => fun m =>
    if acts.size = 0 then some (.ok () m) else none
  | fuel + 1, acts => fun m =>
    match acts.pop? with
    | none => some (.ok () m)
    | some (act, outer) =>
      match Exec.advance act outer m with
      | .ok acts m => finish fuel acts m
      | .error e m => some (.error e m)

/-- Calls a function with its arguments on the stack, and leaves its results in their place. -/
def call (fuel : Nat) (addr : Nat) : Run Unit := do
  match ← Exec.enter addr with
  | none => return ()
  | some act => finish fuel (Stack.empty.push act)

end Run

/-- Arguments must agree with the parameters: first in number, then each in its type. -/
def FuncType.checkArgs (type : FuncType) (args : List Value) : Except RuntimeError Unit :=
  if args.length = type.params.length then
    match (args.zip type.params).find? fun (v, t) => v.type ≠ t with
    | some (v, t) => .error (.argumentTypeMismatch t v.type)
    | none => .ok ()
  else .error (.argumentCountMismatch type.params.length args.length)

/-- Calls a function with the given arguments. If it returns, the stack is as it was before. -/
def Run.invoke (fuel : Nat) (addr : Nat) (args : List Value) : Run (List Value) := do
  let f ← Exec.ask (·.func addr)
  Exec.ofExcept (f.type.checkArgs args)
  let height ← Exec.onStack OnStack.height
  Exec.onStack (OnStack.pushAll args)
  call fuel addr
  let results ← Exec.onStack (OnStack.popMany f.type.results.length)
  Exec.onStack (OnStack.truncate height)
  return results

end WebAssembly
