import WebAssembly.Typing.Checker

/-!
# Checking of bodies

Each instruction takes its operands off the checker's state and puts its results on. A construct
opens a frame, checks its bodies in it, and closes it.
-/

namespace WebAssembly

/-- What the code of a function can refer to. Index spaces hold imports first. -/
structure Context where
  types : Array FuncType
  funcs : Array FuncType
  tables : Array TableType
  memories : Array MemoryType
  globals : Array GlobalType
  locals : Array ValueType := #[]

/-- Largest alignment of an access to so many bytes, as a power of two. -/
def naturalAlign (bytes : Nat) : Nat :=
  Nat.log2 bytes

namespace Check

variable (ctx : Context)

/-! ## Look-ups -/

/-- The type with an index. -/
def typeAt (i : UInt32) : Check FuncType :=
  match ctx.types[i.toNat]? with
  | some t => return t
  | none => throw (.unknownType i)

/-- The type of a function. -/
def funcAt (i : UInt32) : Check FuncType :=
  match ctx.funcs[i.toNat]? with
  | some t => return t
  | none => throw (.unknownFunc i)

/-- The type of a global. -/
def globalAt (i : UInt32) : Check GlobalType :=
  match ctx.globals[i.toNat]? with
  | some t => return t
  | none => throw (.unknownGlobal i)

/-- The type of a local. -/
def localAt (i : UInt32) : Check ValueType :=
  match ctx.locals[i.toNat]? with
  | some t => return t
  | none => throw (.unknownLocal i)

/-- There must be a memory. -/
def requireMemory : Check Unit :=
  if ctx.memories.isEmpty then throw (.unknownMemory 0) else return ()

/-- There must be a table. -/
def requireTable : Check Unit :=
  if ctx.tables.isEmpty then throw (.unknownTable 0) else return ()

/-- An access to so many bytes must not ask for more than natural alignment. -/
def requireAlign (arg : MemArg) (bytes : Nat) : Check Unit :=
  if naturalAlign bytes < arg.align.toNat then throw .badAlignment else return ()

/-! ## Instructions -/

/-- An instruction with fixed operand and result types. -/
def apply (operands results : List ValueType) : Check Unit := do
  popTypes operands
  pushTypes results

/-- Checks a plain instruction. -/
def plain : Plain → Check Unit
  | .drop => do
    let _ ← pop
  | .select => do
    popType .i32
    let second ← pop
    let first ← popOperand second
    push (if second = .unknown then first else second)
  | .localGet i => do
    pushTypes [← localAt ctx i]
  | .localSet i => do
    popType (← localAt ctx i)
  | .localTee i => do
    let t ← localAt ctx i
    apply [t] [t]
  | .globalGet i => do
    pushTypes [(← globalAt ctx i).type]
  | .globalSet i => do
    let g ← globalAt ctx i
    if g.mutable then popType g.type else throw (.immutableGlobal i)
  | .load op arg => do
    requireMemory ctx
    requireAlign arg op.bytes
    apply [.i32] [op.type]
  | .store op arg => do
    requireMemory ctx
    requireAlign arg op.bytes
    apply [.i32, op.type] []
  | .memorySize => do
    requireMemory ctx
    pushTypes [.i32]
  | .memoryGrow => do
    requireMemory ctx
    apply [.i32] [.i32]
  | .const v => pushTypes [v.type]
  | .numeric op => apply op.operands [op.result]

/-- One target of a `br_table`: it must carry what the default target carries. -/
def tableTarget (default : List ValueType) (label : UInt32) : Check Unit := do
  let ts ← labelTypes label
  if ts.length = default.length then apply ts ts else throw .typeMismatch

mutual

/-- Checks an instruction. -/
def instruction : Instruction → Check Unit
  | .unreachable => markUnreachable
  | .nop => return ()
  | .block type body => do
    pushFrame .block type.results
    sequence body
    pushTypes (← popFrame)
  | .loop type body => do
    pushFrame .loop type.results
    sequence body
    pushTypes (← popFrame)
  | .ifElse type thenBody elseBody => do
    popType .i32
    pushFrame .ifElse type.results
    sequence thenBody
    let _ ← popFrame
    pushFrame .ifElse type.results
    sequence elseBody
    pushTypes (← popFrame)
  | .br label => do
    popTypes (← labelTypes label)
    markUnreachable
  | .brIf label => do
    popType .i32
    let ts ← labelTypes label
    apply ts ts
  | .brTable labels default => do
    popType .i32
    let ts ← labelTypes default
    labels.forM (tableTarget ts)
    popTypes ts
    markUnreachable
  | .ret => do
    match (← get).frames.getLast? with
    | some frame => popTypes frame.labelTypes
    | none => throw .typeMismatch
    markUnreachable
  | .call i => do
    let f ← funcAt ctx i
    apply f.params f.results
  | .callIndirect i => do
    requireTable ctx
    let f ← typeAt ctx i
    popType .i32
    apply f.params f.results
  | .plain op => plain ctx op

/-- Checks instructions one after the other. -/
def sequence : List Instruction → Check Unit
  | [] => return ()
  | i :: is => do
    instruction i
    sequence is

end

/-- Checks a body that must leave `results`. -/
def body (results : List ValueType) (code : Expr) : Check Unit := do
  pushFrame .func results
  sequence ctx code
  let _ ← popFrame

end Check

/-- Checks the body of a function with the given type and declared locals. -/
def Context.checkBody (ctx : Context) (type : FuncType) (locals : List ValueType) (code : Expr) :
    Except ValidationError Unit :=
  let ctx := { ctx with locals := (type.params ++ locals).toArray }
  match Check.body ctx type.results code ⟨.empty, []⟩ with
  | .ok _ _ => .ok ()
  | .error e _ => .error e

end WebAssembly
