import WebAssembly.Binary.Section

/-!
# Decoding of modules

A module is a preamble and a sequence of sections in any order. Where a kind of section occurs more
than once the last one counts; custom sections all count. Functions are split over two sections, one
with their types and one with their bodies, which must be of one length.
-/

namespace WebAssembly

/-- What the sections read so far amount to. -/
structure Draft where
  module : Module := {}
  funcTypes : List UInt32 := []
  bodies : List Body := []

/-- Takes in one more section. -/
def Draft.add (d : Draft) : Section → Draft
  | .custom c => { d with module := { d.module with customs := d.module.customs ++ c.toList } }
  | .types types => { d with module := { d.module with types := types } }
  | .imports imports => { d with module := { d.module with imports := imports } }
  | .funcs types => { d with funcTypes := types }
  | .tables types => { d with module := { d.module with tables := types } }
  | .memories types => { d with module := { d.module with memories := types } }
  | .globals globals => { d with module := { d.module with globals := globals } }
  | .exports exports => { d with module := { d.module with exports := exports } }
  | .start func => { d with module := { d.module with start := some func } }
  | .elements segments => { d with module := { d.module with elements := segments } }
  | .code bodies => { d with bodies := bodies }
  | .data segments => { d with module := { d.module with data := segments } }

/-- Joins types and bodies to functions. -/
def Draft.finish (d : Draft) : Except DecodeError Module :=
  if d.funcTypes.length = d.bodies.length then
    .ok { d.module with
      funcs := List.zipWith (fun type (body : Body) => ⟨type, body.locals, body.code⟩)
        d.funcTypes d.bodies }
  else
    .error (.funcCodeMismatch d.funcTypes.length d.bodies.length)

/-- The module that a sequence of sections makes. -/
def Module.ofSections (ss : List Section) : Except DecodeError Module :=
  (ss.foldl Draft.add {}).finish

namespace Decoder

/-- The given bytes one by one. -/
def literal (context : String) : List UInt8 → Decoder Unit
  | [] => return ()
  | b :: bs => do
    let _ ← expect [b] context
    literal context bs

/-- The bytes that every module starts with: a mark and a version. -/
def preamble : Decoder Unit := do
  literal "magic" [0x00, 0x61, 0x73, 0x6d]
  literal "version" [0x01, 0x00, 0x00, 0x00]

/-- A preamble and sections. -/
def moduleSections : Decoder (List Section) := do
  preamble
  sections

end Decoder

/-- The module that the bytes encode. -/
def Module.parse (bytes : List UInt8) : Except DecodeError Module :=
  match Decoder.moduleSections (.ofBytes bytes) with
  | .ok ss _ => Module.ofSections ss
  | .error e _ => .error e

end WebAssembly
