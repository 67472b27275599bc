import WebAssembly.Machine.Run
import WebAssembly.Typing.Module

/-!
# Linking

Linking a module puts its instances into a store. It checks the module and the imports it is given,
computes the first values of its globals, adds its instances, checks all its segments, writes them,
and then runs its start function. What was in the store before is not touched until every segment
has been checked. Instances that were added stay in the store also when a later step fails.
-/

namespace WebAssembly

/-- A segment with its place in the store. -/
inductive SegmentWrite where
  | table (addr offset : Nat) (funcs : List Nat)
  | memory (addr offset : Nat) (bytes : List UInt8)

namespace Store

/-- An import must exist and have a type that fits where `expected` is declared. -/
def checkImport (s : Store) (given : ExternVal) (expected : ExternType) :
    Except RuntimeError Unit := do
  let type ← s.externType given
  if type.isSubtypeOf expected then return () else throw (.externTypeMismatch expected type)

/-- The given imports must be as many as declared, and each must fit. -/
def checkImports (s : Store) (given : List ExternVal) (expected : List ExternType) :
    Except RuntimeError Unit :=
  if given.length = expected.length then
    (given.zip expected).forM fun (g, e) => s.checkImport g e
  else throw (.importCountMismatch expected.length given.length)

end Store

namespace Exec

/-! ## Adding instances -/

/-- Adds the functions of a module that will have address `moduleAddr`. -/
def addFuncs (moduleAddr : Nat) (inst : ModuleInstance) (funcs : List Func) : Exec ModuleInstance :=
  funcs.foldlM (fun inst f => do
    let type ← ofExcept (inst.type f.type)
    let addr ← add (·.addFunc (.defined type moduleAddr (Code.compile f.locals f.body)))
    return inst.add (.func addr)) inst

/-- Adds tables. -/
def addTables (inst : ModuleInstance) (types : List TableType) : Exec ModuleInstance :=
  types.foldlM (fun inst t => do
    let addr ← add (·.addTable (Table.ofType t))
    return inst.add (.table addr)) inst

/-- Adds memories. -/
def addMemories (inst : ModuleInstance) (types : List MemoryType) : Exec ModuleInstance :=
  types.foldlM (fun inst t => do
    let memory ← ofExcept (Memory.ofType t)
    let addr ← add (·.addMemory memory)
    return inst.add (.memory addr)) inst

/-- Adds globals with their first values. -/
def addGlobals (inst : ModuleInstance) (globals : List (GlobalType × Value)) :
    Exec ModuleInstance :=
  globals.foldlM (fun inst (t, v) => do
    let global ← ofExcept (Global.ofValue t v)
    let addr ← add (·.addGlobal global)
    return inst.add (.global addr)) inst

/-- Finds what the exports of a module stand for. -/
def resolveExports (inst : ModuleInstance) (exports : List Export) : Exec ModuleInstance := do
  let resolved ← exports.mapM fun e => do
    let val ← ofExcept (inst.resolve e.desc)
    return (e.name, val)
  return { inst with exports := resolved }

/-- The first values of globals. Only imported globals are in scope. -/
def globalValues (m : Module) (imported : ModuleInstance) : Exec (List (GlobalType × Value)) :=
  m.globals.mapM fun g => do
    let scope := { types := imported.types, globals := imported.globals : ModuleInstance }
    let v ← isolated (constant scope g.init g.type.type)
    return (g.type, v)

/-- Adds all instances of a module, with the imports first, and gives the address of the module's
own one. -/
def allocate (m : Module) (imports : List ExternVal) : Exec (Nat × ModuleInstance) := do
  let inst := imports.foldl ModuleInstance.add { types := m.types.toArray }
  let globals ← globalValues m inst
  let moduleAddr ← ask fun s => .ok s.modules.size
  let inst ← addFuncs moduleAddr inst m.funcs
  let inst ← addTables inst m.tables
  let inst ← addMemories inst m.memories
  let inst ← addGlobals inst globals
  let inst ← resolveExports inst m.exports
  let addr ← add (·.addModule inst)
  return (addr, inst)

/-! ## Segments -/

/-- The value of an offset, read as unsigned. -/
def offset (inst : ModuleInstance) (e : Expr) : Exec Nat := do
  let v ← isolated (constant inst e .i32)
  return v.toNat

/-- Finds the place of an element segment, which must lie inside its table. -/
def placeElement (inst : ModuleInstance) (s : ElementSegment) : Exec SegmentWrite := do
  let start ← offset inst s.offset
  let addr ← ofExcept (inst.table s.table)
  let table ← ask (·.table addr)
  if table.size < start + s.funcs.length then throw .tableInitOutOfBounds
  let funcs ← s.funcs.mapM fun f => ofExcept (inst.func f)
  return .table addr start funcs

/-- Finds the place of a data segment, which must lie inside its memory. -/
def placeData (inst : ModuleInstance) (s : DataSegment) : Exec SegmentWrite := do
  let start ← offset inst s.offset
  let addr ← ofExcept (inst.memory s.memory)
  let memory ← ask (·.memory addr)
  if memory.size < start + s.bytes.length then throw .memoryInitOutOfBounds
  return .memory addr start s.bytes

/-- Writes a segment, which must still lie inside. -/
def writeSegment : SegmentWrite → Exec Unit
  | .table addr offset funcs => do
    let inside ← ask fun s => (s.table addr).map (·.inBounds offset funcs.length)
    if inside then modifyStore (·.modifyTable addr (·.write offset funcs))
    else throw (.trap .undefinedElement)
  | .memory addr offset bytes => do
    let inside ← ask fun s => (s.memory addr).map (·.inBounds offset bytes.length)
    if inside then modifyStore (·.modifyMemory addr (·.write offset bytes))
    else throw (.trap .outOfBoundsMemoryAccess)

/-- Checks all segments of a module and then writes them. -/
def writeSegments (m : Module) (inst : ModuleInstance) : Exec Unit := do
  let elements ← m.elements.mapM (placeElement inst)
  let data ← m.data.mapM (placeData inst)
  (elements ++ data).forM writeSegment

/-- Links a module up to its start function: gives the address of its instance and the instance. -/
def link (m : Module) (imports : List ExternVal) : Exec (Nat × ModuleInstance) := do
  let signature ← ofExcept (m.validate.mapError .invalidModule)
  ask (·.checkImports imports signature.imports)
  let (addr, inst) ← allocate m imports
  writeSegments m inst
  return (addr, inst)

end Exec

/-- Links a module and runs its start function. -/
def Run.instantiate (fuel : Nat) (m : Module) (imports : List ExternVal) : Run Nat := do
  let (addr, inst) ← Exec.link m imports
  match m.start with
  | none => return addr
  | some start =>
    let func ← Exec.ofExcept (inst.func start)
    let _ ← isolated (invoke fuel func [])
    return addr

end WebAssembly
