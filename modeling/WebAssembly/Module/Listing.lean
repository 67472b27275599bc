import WebAssembly.Instruction.Text
import WebAssembly.Module.Basic
import WebAssembly.Text.Hex

/-!
# Listing of a module

A heading with a count for each kind of content, and a line for each entry.
-/

namespace WebAssembly

/-- Text of an import, its type first. -/
def Import.text (i : Import) : String :=
  (match i.desc with
    | .func t => "func sig=" ++ toString t.toNat
    | .table t => "table " ++ t.text
    | .memory t => "memory " ++ t.text
    | .global t => "global " ++ t.text) ++
  " <- " ++ i.module ++ "." ++ i.name

/-- An index with the name of its index space. -/
def ExportDesc.text : ExportDesc → String
  | .func i => "func[" ++ toString i.toNat ++ "]"
  | .table i => "table[" ++ toString i.toNat ++ "]"
  | .memory i => "memory[" ++ toString i.toNat ++ "]"
  | .global i => "global[" ++ toString i.toNat ++ "]"

/-- Text of an export. The name stands as it is. -/
def Export.text (e : Export) : String :=
  e.desc.text ++ " -> \"" ++ e.name ++ "\""

/-- Summary of a function. -/
def Func.text (f : Func) : String :=
  "sig=" ++ toString f.type.toNat ++ " locals=" ++ toString f.locals.length ++
    " instructions=" ++ toString f.body.length

variable [FloatPrinter]

/-- Type and initialiser of a global. -/
def GlobalDef.text (g : GlobalDef) : String :=
  g.type.text ++ " - init " ++ g.init.lineText

/-- Text of an element segment. -/
def ElementSegment.text (s : ElementSegment) : String :=
  "table=" ++ toString s.table.toNat ++ " offset=" ++ s.offset.lineText ++
    " count=" ++ toString s.funcs.length ++
    " funcs=[" ++ String.intercalate ", " (s.funcs.map fun f => toString f.toNat) ++ "]"

/-- Number of bytes of a data segment that its text shows. -/
def DataSegment.shownBytes : Nat := 32

/-- Text of a data segment: its first bytes, and dots where there are more. -/
def DataSegment.text (s : DataSegment) : String :=
  "memory=" ++ toString s.memory.toNat ++ " offset=" ++ s.offset.lineText ++
    " size=" ++ toString s.bytes.length ++ " - " ++ Text.hexBytes (s.bytes.take shownBytes) ++
    (if shownBytes < s.bytes.length then "..." else "")

/-- Text of a custom section. -/
def Custom.text (c : Custom) : String :=
  "Custom: \"" ++ c.name ++ "\" size=" ++ toString c.bytes.length

namespace Module

/-- A heading with the number of its entries, and the entries. -/
def heading (name : String) (entries : List String) : List String :=
  (name ++ "[" ++ toString entries.length ++ "]:") :: entries.map (" - " ++ ·)

/-- Entries numbered from `first` in the index space `space`. -/
def numbered (space : String) (first : Nat) (entries : List String) : List String :=
  entries.zipIdx.map fun (s, i) => space ++ "[" ++ toString (first + i) ++ "] " ++ s

/-- The lines for functions, with the name of each that is exported. -/
def funcLines (m : Module) : List String :=
  let first := m.importedFuncs.length
  m.funcs.zipIdx.map fun (f, i) =>
    "func[" ++ toString (first + i) ++ "] " ++ f.text ++
      (match m.funcName? (first + i) with
        | some name => " <" ++ name ++ ">"
        | none => "")

/-- The lines of the listing. -/
def lines (m : Module) : List String :=
  heading "Type" (numbered "type" 0 (m.types.map FuncType.text)) ++
    heading "Import" (m.imports.map Import.text) ++
    heading "Function" m.funcLines ++
    heading "Table" (numbered "table" 0 (m.tables.map TableType.text)) ++
    heading "Memory" (numbered "memory" 0 (m.memories.map MemoryType.text)) ++
    heading "Global" (numbered "global" 0 (m.globals.map GlobalDef.text)) ++
    heading "Export" (m.exports.map Export.text) ++
    (match m.start with
      | some f => ["Start: func[" ++ toString f.toNat ++ "]"]
      | none => []) ++
    heading "Elem" (numbered "segment" 0 (m.elements.map ElementSegment.text)) ++
    heading "Data" (numbered "segment" 0 (m.data.map DataSegment.text)) ++
    m.customs.map Custom.text

/-- The listing, every line ended. -/
def listing (m : Module) : String :=
  unlines m.lines

end Module

end WebAssembly
