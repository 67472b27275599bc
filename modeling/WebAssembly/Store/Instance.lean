import WebAssembly.Code
import WebAssembly.Store.Error

/-!
# Instances

What a module becomes when it is linked. Functions, tables, memories, globals and module instances
live in a store and are named by their address in it, a position. A `ModuleInstance` maps the
indices that the code of a module uses to addresses.
-/

namespace WebAssembly

/-- A call of a host function. -/
structure HostCall where
  func : Nat
  args : List Value
deriving DecidableEq

/-- A function of the surroundings: from arguments to results or a failure. It sees no store, but it
can remember what host functions were called with before, the latest call first. -/
abbrev HostFunc : Type :=
  (earlier : List HostCall) → (args : List Value) → Except RuntimeError (List Value)

/-- A function in a store. -/
inductive FuncInstance where
  /-- A function of a linked module, given by its address. -/
  | defined (type : FuncType) (module : Nat) (code : Code)
  /-- A function of the surroundings. -/
  | host (type : FuncType) (run : HostFunc)

/-- The type of a function in a store. -/
def FuncInstance.type : FuncInstance → FuncType
  | .defined type _ _ => type
  | .host type _ => type

/-- The address of something that can be imported and exported. -/
inductive ExternVal where
  | func (addr : Nat)
  | table (addr : Nat)
  | memory (addr : Nat)
  | global (addr : Nat)
deriving DecidableEq

/-- A linked module: its types, the addresses behind its indices, and what its exports stand for. -/
structure ModuleInstance where
  types : Array FuncType := #[]
  funcs : Array Nat := #[]
  tables : Array Nat := #[]
  memories : Array Nat := #[]
  globals : Array Nat := #[]
  exports : List (String × ExternVal) := []

/-- The entry with the given index, which belongs to `space`. -/
def atIndex {α : Type} (xs : Array α) (space : Space) (index : UInt32) : Except RuntimeError α :=
  match xs[index.toNat]? with
  | some x => .ok x
  | none => .error (.invalidIndex space index)

/-- The entry with the given address, which belongs to `space`. -/
def atAddress {α : Type} (xs : Array α) (space : Space) (addr : Nat) : Except RuntimeError α :=
  match xs[addr]? with
  | some x => .ok x
  | none => .error (.invalidAddress space)

namespace ModuleInstance

variable (m : ModuleInstance)

/-- The type with the given index. -/
def type (index : UInt32) : Except RuntimeError FuncType :=
  atIndex m.types .type index

/-- Address of the function with the given index. -/
def func (index : UInt32) : Except RuntimeError Nat :=
  atIndex m.funcs .func index

/-- Address of the table with the given index. -/
def table (index : UInt32) : Except RuntimeError Nat :=
  atIndex m.tables .table index

/-- Address of the memory with the given index. -/
def memory (index : UInt32) : Except RuntimeError Nat :=
  atIndex m.memories .memory index

/-- Address of the global with the given index. -/
def global (index : UInt32) : Except RuntimeError Nat :=
  atIndex m.globals .global index

/-- The first export of the given name. -/
def export? (name : String) : Option ExternVal :=
  (m.exports.find? fun e => e.1 = name).map (·.2)

/-- What an export declaration stands for. -/
def resolve : ExportDesc → Except RuntimeError ExternVal
  | .func i => (m.func i).map .func
  | .table i => (m.table i).map .table
  | .memory i => (m.memory i).map .memory
  | .global i => (m.global i).map .global

/-- It with one more address behind its indices. -/
def add : ExternVal → ModuleInstance
  | .func a => { m with funcs := m.funcs.push a }
  | .table a => { m with tables := m.tables.push a }
  | .memory a => { m with memories := m.memories.push a }
  | .global a => { m with globals := m.globals.push a }

end ModuleInstance

/-! ## Text -/

/-- The kind and the address. -/
def ExternVal.text : ExternVal → String
  | .func a => "func@" ++ toString a
  | .table a => "table@" ++ toString a
  | .memory a => "memory@" ++ toString a
  | .global a => "global@" ++ toString a

/-- Name of a value type in descriptions. -/
def ValueType.descriptionText : ValueType → String
  | .i32 => "I32"
  | .i64 => "I64"
  | .f32 => "F32"
  | .f64 => "F64"

/-- Value types in brackets. -/
def ValueType.listDescription (ts : List ValueType) : String :=
  "[" ++ String.intercalate ", " (ts.map ValueType.descriptionText) ++ "]"

/-- A function type field by field. -/
def FuncType.description (t : FuncType) : String :=
  "FunctionType \x7b parameters: " ++ ValueType.listDescription t.params ++
    ", return_types: " ++ ValueType.listDescription t.results ++ " \x7d"

/-- A function in a store field by field, without its code. -/
def FuncInstance.description : FuncInstance → String
  | .defined type module _ =>
    "Module \x7b func_type: " ++ type.description ++
      ", module: ModuleAddr(" ++ toString module ++ ") \x7d"
  | .host type _ => "Host \x7b func_type: " ++ type.description ++ " \x7d"

end WebAssembly
