import WebAssembly.Machine.Numeric
import WebAssembly.Store.Basic

/-!
# The machine and its plain instructions

A machine is a store and an operand stack. Operations on it are written in `Exec`, which keeps the
machine as it is at a failure. A plain instruction acts on the machine and on a frame, which has the
locals and the module instance that the instruction's indices refer to.
-/

namespace WebAssembly

/-- A store and an operand stack. -/
structure Machine where
  store : Store
  stack : Stack Value := .empty

/-- The scope of running code: a module instance and locals. -/
structure Frame where
  module : ModuleInstance
  locals : Array Value := #[]

/-- An operation on the machine. -/
abbrev Exec (α : Type) : Type := EStateM RuntimeError Machine α

namespace Exec

/-- Operates on the stack alone. -/
@[inline]
def onStack {α : Type} (x : OnStack α) : Exec α := fun ⟨store, stack⟩ =>
  match x stack with
  | .ok a stack => .ok a ⟨store, stack⟩
  | .error e stack => .error e ⟨store, stack⟩

instance : MonadLift OnStack Exec where
  monadLift := onStack

/-- Goes on with a result or fails. -/
def ofExcept {α : Type} : Except RuntimeError α → Exec α
  | .ok a => return a
  | .error e => throw e

/-- Asks the store for something. -/
@[inline]
def ask {α : Type} (question : Store → Except RuntimeError α) : Exec α := fun m =>
  match question m.store with
  | .ok a => .ok a m
  | .error e => .error e m

/-- Changes the store. -/
@[inline]
def modifyStore (f : Store → Store) : Exec Unit := fun ⟨store, stack⟩ =>
  .ok () ⟨f store, stack⟩

/-- Adds something to the store and gives its address. -/
@[inline]
def add (f : Store → Nat × Store) : Exec Nat := fun ⟨store, stack⟩ =>
  let (addr, store) := f store
  .ok addr ⟨store, stack⟩

/-- Operates with an empty stack and brings the old one back afterwards. -/
def isolated {α : Type} (x : Exec α) : Exec α := fun ⟨store, stack⟩ =>
  match x ⟨store, .empty⟩ with
  | .ok a m => .ok a ⟨m.store, stack⟩
  | .error e m => .error e ⟨m.store, stack⟩

/-! ## Locals -/

/-- The local with the given index. -/
def localGet (frame : Frame) (i : UInt32) : Exec Value :=
  ofExcept (atIndex frame.locals .local i)

/-- The frame with another value of a local. -/
def localSet (frame : Frame) (i : UInt32) (v : Value) : Exec Frame :=
  if i.toNat < frame.locals.size then
    return { frame with locals := frame.locals.setIfInBounds i.toNat v }
  else throw (.invalidIndex .local i)

/-! ## Globals -/

/-- Puts the value of a global on the stack. -/
def globalGet (frame : Frame) (i : UInt32) : Exec Unit := do
  let addr ← ofExcept (frame.module.global i)
  let g ← ask (·.global addr)
  OnStack.push g.value

/-- Takes a value off the stack and assigns it to a global. -/
def globalSet (frame : Frame) (i : UInt32) : Exec Unit := do
  let addr ← ofExcept (frame.module.global i)
  let g ← ask (·.global addr)
  let v ← OnStack.pop
  let g ← ofExcept (g.set? v)
  modifyStore (·.modifyGlobal addr fun _ => g)

/-! ## Memory -/

/-- Address of the memory that code uses, which exists in the store. -/
def memoryAddr (frame : Frame) : Exec Nat := do
  let addr ← ofExcept (frame.module.memory 0)
  ask fun s => (s.memory addr).map fun _ => addr

/-- Takes an address off the stack and puts the value there on. -/
def load (frame : Frame) (op : LoadOp) (arg : MemArg) : Exec Unit := do
  let addr ← memoryAddr frame
  let base ← OnStack.popInt .i32
  let bs ← ask fun s => do
    let m ← s.memory addr
    (m.read? (Memory.address base arg) op.bytes).mapError .trap
  OnStack.push (op.value bs)

/-- Takes a value and an address off the stack and writes the value there. -/
def store (frame : Frame) (op : StoreOp) (arg : MemArg) : Exec Unit := do
  let addr ← memoryAddr frame
  let v ← OnStack.popType op.type
  let base ← OnStack.popInt .i32
  let start := Memory.address base arg
  let inside ← ask fun s => (s.memory addr).map (·.inBounds start op.bytes)
  if inside then modifyStore (·.modifyMemory addr (·.write start (op.encode v)))
  else throw (.trap .outOfBoundsMemoryAccess)

/-- Puts the number of pages on the stack. -/
def memorySize (frame : Frame) : Exec Unit := do
  let addr ← memoryAddr frame
  let pages ← ask fun s => (s.memory addr).map (·.pages)
  OnStack.push (.i32 (BitVec.ofNat 32 pages))

/-- Takes a number of pages off the stack, grows the memory by them, and puts the number of pages
before on; or `-1` if there is no room, and then nothing grows. -/
def memoryGrow (frame : Frame) : Exec Unit := do
  let addr ← memoryAddr frame
  let delta ← OnStack.popInt .i32
  let delta := UInt32.ofNat delta.toNat
  let (pages, room) ← ask fun s => (s.memory addr).map fun m => (m.pages, m.canGrow delta)
  if room then
    modifyStore (·.modifyMemory addr (·.grow delta))
    OnStack.push (.i32 (BitVec.ofNat 32 pages))
  else OnStack.push (.i32 (-1))

/-! ## Plain instructions -/

/-- Takes a condition and two values off, and puts the first one on if the condition is not zero,
else the second one. -/
def select : OnStack Unit := do
  let condition ← OnStack.popInt .i32
  let second ← OnStack.pop
  let first ← OnStack.pop
  OnStack.push (if condition = 0 then second else first)

/-- Executes a plain instruction, and gives the frame after it. -/
def plain (frame : Frame) : Plain → Exec Frame
  | .drop => do
    let _ ← OnStack.pop
    return frame
  | .select => do
    select
    return frame
  | .localGet i => do
    let v ← localGet frame i
    OnStack.push v
    return frame
  | .localSet i => do
    let v ← OnStack.pop
    localSet frame i v
  | .localTee i => do
    let v ← OnStack.pop
    let frame ← localSet frame i v
    OnStack.push v
    return frame
  | .globalGet i => do
    globalGet frame i
    return frame
  | .globalSet i => do
    globalSet frame i
    return frame
  | .load op arg => do
    load frame op arg
    return frame
  | .store op arg => do
    store frame op arg
    return frame
  | .memorySize => do
    memorySize frame
    return frame
  | .memoryGrow => do
    memoryGrow frame
    return frame
  | .const v => do
    OnStack.push v
    return frame
  | .numeric op => do
    OnStack.numeric op
    return frame

/-! ## Constant expressions -/

/-- Executes plain instructions one after another. -/
def plainSequence : Frame → Expr → Exec Unit
  | _, [] => return ()
  | frame, .plain op :: rest => do
    let frame ← plain frame op
    plainSequence frame rest
  | _, i :: _ => throw (.misplacedControl i.mnemonic)

/-- The value of a constant expression of the given type, in the scope of a module instance. -/
def constant (module : ModuleInstance) (e : Expr) (type : ValueType) : Exec Value := do
  plainSequence ⟨module, #[]⟩ e
  let v ← OnStack.pop
  if v.type = type then return v else throw (.typeMismatch type v.type)

end Exec

end WebAssembly
