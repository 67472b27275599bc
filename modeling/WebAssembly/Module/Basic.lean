import WebAssembly.Instruction.Basic

/-!
# Modules

A module as its binary form lists it: types, imports, definitions, exports, segments and custom
sections. Indices are positions in the module's index spaces, in which imports of a kind come before
the module's own definitions.
-/

namespace WebAssembly

/-- A function: its type, its declared locals beyond the parameters, and its body. -/
structure Func where
  type : UInt32
  locals : List ValueType
  body : Expr

/-- A global and the constant expression that gives its first value. -/
structure GlobalDef where
  type : GlobalType
  init : Expr

/-- Functions to be put into a table from an offset on. -/
structure ElementSegment where
  table : UInt32
  offset : Expr
  funcs : List UInt32

/-- Bytes to be put into a memory from an offset on. -/
structure DataSegment where
  memory : UInt32
  offset : Expr
  bytes : List UInt8

/-- What an import must be. A function is given by the index of its type. -/
inductive ImportDesc where
  | func (type : UInt32)
  | table (type : TableType)
  | memory (type : MemoryType)
  | global (type : GlobalType)
deriving DecidableEq

/-- An import, named by a module name and a name in it. -/
structure Import where
  module : String
  name : String
  desc : ImportDesc
deriving DecidableEq

/-- What an export is: an index into one of the index spaces. -/
inductive ExportDesc where
  | func (index : UInt32)
  | table (index : UInt32)
  | memory (index : UInt32)
  | global (index : UInt32)
deriving DecidableEq

/-- An export under a name. -/
structure Export where
  name : String
  desc : ExportDesc
deriving DecidableEq

/-- A custom section: a name and bytes that nobody interprets. -/
structure Custom where
  name : String
  bytes : List UInt8
deriving DecidableEq

/-- A module. -/
structure Module where
  types : List FuncType := []
  imports : List Import := []
  funcs : List Func := []
  tables : List TableType := []
  memories : List MemoryType := []
  globals : List GlobalDef := []
  exports : List Export := []
  start : Option UInt32 := none
  elements : List ElementSegment := []
  data : List DataSegment := []
  customs : List Custom := []

namespace Module

/-- Type indices of the imported functions. -/
def importedFuncs (m : Module) : List UInt32 :=
  m.imports.filterMap fun i => match i.desc with
    | .func t => some t
    | _ => none

/-- Types of the imported tables. -/
def importedTables (m : Module) : List TableType :=
  m.imports.filterMap fun i => match i.desc with
    | .table t => some t
    | _ => none

/-- Types of the imported memories. -/
def importedMemories (m : Module) : List MemoryType :=
  m.imports.filterMap fun i => match i.desc with
    | .memory t => some t
    | _ => none

/-- Types of the imported globals. -/
def importedGlobals (m : Module) : List GlobalType :=
  m.imports.filterMap fun i => match i.desc with
    | .global t => some t
    | _ => none

/-- The first name under which the function with this index is exported. -/
def funcName? (m : Module) (index : Nat) : Option String :=
  m.exports.findSome? fun e => match e.desc with
    | .func i => if i.toNat = index then some e.name else none
    | _ => none

end Module

end WebAssembly
