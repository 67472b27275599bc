import WebAssembly.Store.Basic

/-!
# Access from outside

What the surroundings of a store can do with it besides linking and calling: add instances of their
own, and read, write and grow what is there. An operation that fails leaves the store as it is.
-/

namespace WebAssembly

namespace Store

variable (s : Store)

/-! ## Adding -/

/-- Adds a host function. -/
def newHostFunc (type : FuncType) (run : HostFunc) : Nat × Store :=
  s.addFunc (.host type run)

/-- Adds a table of the given type. -/
def newTable (type : TableType) : Nat × Store :=
  s.addTable (Table.ofType type)

/-- Adds a memory of the given type. -/
def newMemory (type : MemoryType) : Except RuntimeError (Nat × Store) := do
  let m ← Memory.ofType type
  return s.addMemory m

/-- Adds a global of the given type. -/
def newGlobal (type : GlobalType) (v : Value) : Except RuntimeError (Nat × Store) := do
  let g ← Global.ofValue type v
  return s.addGlobal g

/-! ## Tables -/

/-- The function in a slot of a table. -/
def tableGet (addr i : Nat) : Except RuntimeError Nat := do
  let t ← s.table addr
  (t.get i).mapError .trap

/-- Puts a function into a slot of a table, or empties it. -/
def tableSet (addr i : Nat) (f : Option Nat) : Except RuntimeError (Unit × Store) := do
  let t ← s.table addr
  let t ← (t.set? i f).mapError .trap
  return ((), s.modifyTable addr fun _ => t)

/-- Adds empty slots to a table, and gives the number of slots before. -/
def tableGrow (addr : Nat) (delta : UInt32) : Except RuntimeError (Nat × Store) := do
  let t ← s.table addr
  let (size, t) ← t.grow? delta
  return (size, s.modifyTable addr fun _ => t)

/-- Writes functions into a table from `start` on. -/
def tableWrite (addr start : Nat) (funcs : List Nat) : Except RuntimeError (Unit × Store) := do
  let t ← s.table addr
  let t ← (t.write? start funcs).mapError .trap
  return ((), s.modifyTable addr fun _ => t)

/-! ## Memories -/

/-- Reads `count` bytes of a memory from `start` on. -/
def memoryRead (addr start count : Nat) : Except RuntimeError (List UInt8) := do
  let m ← s.memory addr
  (m.read? start count).mapError .trap

/-- Writes bytes into a memory from `start` on. -/
def memoryWrite (addr start : Nat) (bytes : List UInt8) : Except RuntimeError (Unit × Store) := do
  let m ← s.memory addr
  let m ← (m.write? start bytes).mapError .trap
  return ((), s.modifyMemory addr fun _ => m)

/-- Adds pages to a memory, and gives the number of pages before. -/
def memoryGrow (addr : Nat) (delta : UInt32) : Except RuntimeError (Nat × Store) := do
  let m ← s.memory addr
  let (pages, m) ← m.grow? delta
  return (pages, s.modifyMemory addr fun _ => m)

/-! ## Globals -/

/-- Assigns a global. -/
def globalSet (addr : Nat) (v : Value) : Except RuntimeError (Unit × Store) := do
  let g ← s.global addr
  let g ← g.set? v
  return ((), s.modifyGlobal addr fun _ => g)

end Store

end WebAssembly
