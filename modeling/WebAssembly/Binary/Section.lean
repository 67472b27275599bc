import WebAssembly.Binary.Instruction
import WebAssembly.Module.Basic

/-!
# Sections

A section is a byte that gives its kind, a size, and its contents. The size is not used to delimit
the contents, which delimit themselves, except in custom sections, whose bytes are taken as they
are.
-/

namespace WebAssembly

/-- A function body with the locals declared in front of it. -/
structure Body where
  locals : List ValueType
  code : Expr

/-- The contents of a section. A custom section whose name cannot be read has no contents. -/
inductive Section where
  | custom (contents : Option Custom)
  | types (types : List FuncType)
  | imports (imports : List Import)
  | funcs (types : List UInt32)
  | tables (types : List TableType)
  | memories (types : List MemoryType)
  | globals (globals : List GlobalDef)
  | exports (exports : List Export)
  | start (func : UInt32)
  | elements (segments : List ElementSegment)
  | code (bodies : List Body)
  | data (segments : List DataSegment)

namespace Decoder

/-! ## Types -/

/-- A function type. -/
def funcType : Decoder FuncType := do
  let _ ← expect [0x60] "function type"
  let params ← boundedVec .params valueType
  let results ← boundedVec .results valueType
  return ⟨params, results⟩

/-- Limits: a flag that tells whether there is an upper bound, and the bounds. -/
def limits : Decoder Limits := do
  let flag ← expect [0x00, 0x01] "limits"
  let min ← u32
  if flag = 0x01 then return ⟨min, some (← u32)⟩
  else return ⟨min, none⟩

/-- A table type. -/
def tableType : Decoder TableType := do
  let _ ← expect [0x70] "table element type"
  return ⟨← limits⟩

/-- A memory type. -/
def memoryType : Decoder MemoryType := do
  return ⟨← limits⟩

/-- A global type. -/
def globalType : Decoder GlobalType := do
  let type ← valueType
  let flag ← expect [0x00, 0x01] "global mutability"
  return ⟨type, flag == 0x01⟩

/-! ## Entries -/

/-- What an import must be. -/
def importDesc : Decoder ImportDesc := do
  let b ← byte
  match b with
  | 0x00 => return .func (← u32)
  | 0x01 => return .table (← tableType)
  | 0x02 => return .memory (← memoryType)
  | 0x03 => return .global (← globalType)
  | _ => throw (.invalidImportDesc b)

/-- An import. -/
def importEntry : Decoder Import := do
  let module ← name
  let name ← name
  return ⟨module, name, ← importDesc⟩

/-- What an export is. -/
def exportDesc : Decoder ExportDesc := do
  let b ← byte
  match b with
  | 0x00 => return .func (← u32)
  | 0x01 => return .table (← u32)
  | 0x02 => return .memory (← u32)
  | 0x03 => return .global (← u32)
  | _ => throw (.invalidExportDesc b)

/-- An export. -/
def exportEntry : Decoder Export := do
  let name ← name
  return ⟨name, ← exportDesc⟩

/-- A global with its initialiser. -/
def globalEntry : Decoder GlobalDef := do
  let type ← globalType
  return ⟨type, ← expr⟩

/-- An element segment. -/
def elementSegment : Decoder ElementSegment := do
  let table ← u32
  let offset ← expr
  return ⟨table, offset, ← vec u32⟩

/-- A data segment. -/
def dataSegment : Decoder DataSegment := do
  let memory ← u32
  let offset ← expr
  return ⟨memory, offset, ← byteString⟩

/-- `n` groups of locals, each a number and a type, behind the groups of `acc`, which are held in
reverse and hold `declared` locals together. -/
def localGroups : (n declared : Nat) → (acc : List (List ValueType)) → Decoder (List ValueType)
  | 0, _, acc => return acc.reverse.flatten
  | n + 1, declared, acc => do
    let count ← u32
    let type ← valueType
    let declared := declared + count.toNat
    if Bound.locals.limit < declared then throw (.limitExceeded .locals)
    localGroups n declared (List.replicate count.toNat type :: acc)

/-- A function body: a size, which is not used, groups of locals, and code. -/
def bodyEntry : Decoder Body := do
  let _ ← u32
  let groups ← u32
  let locals ← localGroups groups.toNat 0 []
  return ⟨locals, ← expr⟩

/-! ## Sections -/

/-- A custom section of `size` bytes. -/
def customSection (size : Nat) : Decoder (Option Custom) := do
  let contents ← bytes size
  match name (.ofBytes contents) with
  | .ok s r => return some ⟨s, r.unread⟩
  | .error _ _ => return none

/-- The contents of a section of kind `id`. -/
def sectionContents (id : UInt8) (size : Nat) : Decoder Section :=
  match id with
  | 0 => return .custom (← customSection size)
  | 1 => return .types (← vec funcType)
  | 2 => return .imports (← vec importEntry)
  | 3 => return .funcs (← vec u32)
  | 4 => return .tables (← vec tableType)
  | 5 => return .memories (← vec memoryType)
  | 6 => return .globals (← vec globalEntry)
  | 7 => return .exports (← vec exportEntry)
  | 8 => return .start (← u32)
  | 9 => return .elements (← vec elementSegment)
  | 10 => return .code (← vec bodyEntry)
  | 11 => return .data (← vec dataSegment)
  | _ => throw (.invalidSectionId id)

/-- One section. -/
def sectionEntry : Decoder Section := do
  let id ← byte
  let size ← u32
  sectionContents id size.toNat

/-- Sections up to the end of input, put behind those of `acc`, which are held in reverse. -/
def sectionsAux : (fuel : Nat) → (acc : List Section) → Decoder (List Section)
  | 0, acc => return acc.reverse
  | fuel + 1, acc => do
    if ← hasMore then
      let s ← sectionEntry
      sectionsAux fuel (s :: acc)
    else return acc.reverse

/-- Sections up to the end of input. Each takes at least one byte, so that as many rounds as there
are bytes reach the end. -/
def sections : Decoder (List Section) :=
  fun r => sectionsAux r.unread.length [] r

end Decoder

end WebAssembly
