import WebAssembly.Store.Global
import WebAssembly.Store.Instance
import WebAssembly.Store.Memory
import WebAssembly.Store.Table

/-!
# The store

A store holds every instance and only ever gains instances at the end, so that an address stays good
for as long as the store lives. It also records the calls of host functions, by which code is seen
from outside and which host functions can remember.
-/

namespace WebAssembly

/-- All instances, and the calls of host functions with the latest one first. -/
structure Store where
  funcs : Array FuncInstance := #[]
  tables : Array Table := #[]
  memories : Array Memory := #[]
  globals : Array Global := #[]
  modules : Array ModuleInstance := #[]
  hostCalls : List HostCall := []

namespace Store

variable (s : Store)

/-! ## Looking up -/

/-- The function at an address. -/
def func (addr : Nat) : Except RuntimeError FuncInstance :=
  atAddress s.funcs .func addr

/-- The table at an address. -/
def table (addr : Nat) : Except RuntimeError Table :=
  atAddress s.tables .table addr

/-- The memory at an address. -/
def memory (addr : Nat) : Except RuntimeError Memory :=
  atAddress s.memories .memory addr

/-- The global at an address. -/
def global (addr : Nat) : Except RuntimeError Global :=
  atAddress s.globals .global addr

/-- The module instance at an address. -/
def module (addr : Nat) : Except RuntimeError ModuleInstance :=
  atAddress s.modules .module addr

/-- The type that an instance has now. -/
def externType : ExternVal → Except RuntimeError ExternType
  | .func a => (s.func a).map fun f => .func f.type
  | .table a => (s.table a).map fun t => .table t.type
  | .memory a => (s.memory a).map fun m => .memory m.type
  | .global a => (s.global a).map fun g => .global g.type

/-! ## Adding -/

/-- Adds a function and gives its address. -/
def addFunc (f : FuncInstance) : Nat × Store :=
  (s.funcs.size, { s with funcs := s.funcs.push f })

/-- Adds a table and gives its address. -/
def addTable (t : Table) : Nat × Store :=
  (s.tables.size, { s with tables := s.tables.push t })

/-- Adds a memory and gives its address. -/
def addMemory (m : Memory) : Nat × Store :=
  (s.memories.size, { s with memories := s.memories.push m })

/-- Adds a global and gives its address. -/
def addGlobal (g : Global) : Nat × Store :=
  (s.globals.size, { s with globals := s.globals.push g })

/-- Adds a module instance and gives its address. -/
def addModule (m : ModuleInstance) : Nat × Store :=
  (s.modules.size, { s with modules := s.modules.push m })

/-! ## Changing what is there -/

/-- Changes the table at an address. -/
def modifyTable (addr : Nat) (f : Table → Table) : Store :=
  { s with tables := s.tables.modify addr f }

/-- Changes the memory at an address. -/
def modifyMemory (addr : Nat) (f : Memory → Memory) : Store :=
  { s with memories := s.memories.modify addr f }

/-- Changes the global at an address. -/
def modifyGlobal (addr : Nat) (f : Global → Global) : Store :=
  { s with globals := s.globals.modify addr f }

/-- Records a call of a host function. -/
def recordCall (call : HostCall) : Store :=
  { s with hostCalls := call :: s.hostCalls }

/-! ## Listing -/

/-- The instances, one line for each table, memory and global. -/
def listing [FloatPrinter] : String :=
  String.intercalate "\n" <|
    ["Store:", "  functions: " ++ toString s.funcs.size]
      ++ s.tables.toList.mapIdx (fun i t =>
        "  table " ++ toString i ++ ": " ++ toString t.size ++ " elements")
      ++ s.memories.toList.mapIdx (fun i m =>
        "  memory " ++ toString i ++ ": " ++ toString m.pages ++ " pages")
      ++ s.globals.toList.mapIdx (fun i g =>
        "  global " ++ toString i ++ ": " ++ g.type.text ++ " = " ++ g.value.text)
      ++ ["  modules: " ++ toString s.modules.size]

end Store

end WebAssembly
