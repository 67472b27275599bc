import WebAssembly.Module.Basic
import WebAssembly.Typing.Body

/-!
# Valid modules

`Module.validate` checks a module part by part, in an order that decides which of several faults is
reported, and gives the types of its imports and exports.
-/

namespace WebAssembly

/-- What a module needs and what it offers, in the order of its declarations. -/
structure Signature where
  imports : List ExternType
  exports : List ExternType
deriving DecidableEq

/-- A check without a state. -/
abbrev Validate (α : Type) : Type := Except ValidationError α

/-- A function gives at most one result. -/
def FuncType.validate (t : FuncType) : Validate Unit :=
  if 1 < t.results.length then throw (.invalidResultArity t.results.length) else return ()

/-- An upper limit is not below the lower one. -/
def Limits.validate (l : Limits) : Validate Unit :=
  match l.max with
  | some max => if max < l.min then throw .invalidLimits else return ()
  | none => return ()

/-- A table has limits in order. -/
def TableType.validate (t : TableType) : Validate Unit :=
  t.limits.validate

/-- A memory has limits in order and no larger than its address space. -/
def MemoryType.validate (t : MemoryType) : Validate Unit := do
  t.limits.validate
  if maxPages < t.limits.min.toNat || t.limits.max.any fun max => maxPages < max.toNat then
    throw .memoryTooLarge

namespace Context

variable (ctx : Context)

/-- The type of a function. -/
def funcType (i : UInt32) : Validate FuncType :=
  match ctx.funcs[i.toNat]? with
  | some t => return t
  | none => throw (.unknownFunc i)

/-- Type of a constant expression: one constant, or one imported global that cannot change. -/
def constantType (importedGlobals : List GlobalType) : Expr → Validate ValueType
  | [] => throw .typeMismatch
  | [.plain (.const v)] => return v.type
  | [.plain (.globalGet i)] =>
    match importedGlobals[i.toNat]? with
    | none => throw (.unknownGlobal i)
    | some g => if g.mutable then throw .constantExpressionRequired else return g.type
  | _ => throw .constantExpressionRequired

/-- A constant expression of type `expected`. -/
def checkConstant (importedGlobals : List GlobalType) (e : Expr) (expected : ValueType) :
    Validate Unit := do
  let t ← constantType importedGlobals e
  if t = expected then return () else throw .typeMismatch

/-- An element segment: a table, an offset, and functions that exist. -/
def checkElement (importedGlobals : List GlobalType) (s : ElementSegment) : Validate Unit := do
  if ctx.tables.size ≤ s.table.toNat then throw (.unknownTable s.table)
  checkConstant importedGlobals s.offset .i32
  s.funcs.forM fun f =>
    if ctx.funcs.size ≤ f.toNat then throw (.unknownFunc f) else return ()

/-- A data segment: a memory and an offset. -/
def checkData (importedGlobals : List GlobalType) (s : DataSegment) : Validate Unit := do
  if ctx.memories.size ≤ s.memory.toNat then throw (.unknownMemory s.memory)
  checkConstant importedGlobals s.offset .i32

/-- The start function takes and gives nothing. -/
def checkStart (start : Option UInt32) : Validate Unit := do
  match start with
  | none => return ()
  | some i =>
    let t ← ctx.funcType i
    if t.params.isEmpty && t.results.isEmpty then return () else throw .invalidStartFunc

/-- The type of what an export names. -/
def exportType : ExportDesc → Validate ExternType
  | .func i => return .func (← ctx.funcType i)
  | .table i =>
    match ctx.tables[i.toNat]? with
    | some t => return .table t
    | none => throw (.unknownTable i)
  | .memory i =>
    match ctx.memories[i.toNat]? with
    | some t => return .memory t
    | none => throw (.unknownMemory i)
  | .global i =>
    match ctx.globals[i.toNat]? with
    | some t => return .global t
    | none => throw (.unknownGlobal i)

/-- The types of exports, put behind those of `acc`, which are held in reverse. No name occurs twice
or in `seen`. -/
def exportTypes : (exports : List Export) → (seen : List String) → (acc : List ExternType) →
    Validate (List ExternType)
  | [], _, acc => return acc.reverse
  | e :: rest, seen, acc => do
    if seen.contains e.name then throw (.duplicateExport e.name)
    let t ← ctx.exportType e.desc
    exportTypes rest (e.name :: seen) (t :: acc)

end Context

namespace Module

/-- The type with an index. -/
def typeAt (types : Array FuncType) (i : UInt32) : Validate FuncType :=
  match types[i.toNat]? with
  | some t => return t
  | none => throw (.unknownType i)

/-- The type of an import. -/
def importType (types : Array FuncType) (i : Import) : Validate ExternType :=
  match i.desc with
  | .func t => return .func (← typeAt types t)
  | .table t => do
    t.validate
    return .table t
  | .memory t => do
    t.validate
    return .memory t
  | .global t => return .global t

/-- Types of the functions among extern types. -/
def externFuncs (ts : List ExternType) : List FuncType :=
  ts.filterMap fun t => match t with
    | .func f => some f
    | _ => none

/-- The types of imports and exports of a valid module, or the first fault. -/
def validate (m : Module) : Validate Signature := do
  m.types.forM FuncType.validate
  let types := m.types.toArray
  let imports ← m.imports.mapM (importType types)
  let funcTypes ← m.funcs.mapM fun f => typeAt types f.type
  m.tables.forM TableType.validate
  m.memories.forM MemoryType.validate
  let ctx : Context :=
    { types := types
      funcs := (externFuncs imports ++ funcTypes).toArray
      tables := (m.importedTables ++ m.tables).toArray
      memories := (m.importedMemories ++ m.memories).toArray
      globals := (m.importedGlobals ++ m.globals.map GlobalDef.type).toArray }
  if 1 < ctx.tables.size then throw .multipleTables
  if 1 < ctx.memories.size then throw .multipleMemories
  m.globals.forM fun g => Context.checkConstant m.importedGlobals g.init g.type.type
  m.funcs.forM fun f => do
    ctx.checkBody (← typeAt types f.type) f.locals f.body
  m.elements.forM (ctx.checkElement m.importedGlobals)
  m.data.forM (ctx.checkData m.importedGlobals)
  ctx.checkStart m.start
  let exports ← ctx.exportTypes m.exports [] []
  return ⟨imports, exports⟩

end Module

end WebAssembly
