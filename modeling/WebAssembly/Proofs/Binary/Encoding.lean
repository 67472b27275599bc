import WebAssembly.Proofs.Binary.Grammar

/-!
# Encoding of modules

How a module is written: each part of it by a function of its own, with numbers in their shortest
form. Where the format leaves a choice there is a relation in place of a function. `Body.Encodes`
leaves open into which groups locals are put, and `Module.Encodes` where custom sections stand and
which sections without contents are left out.

`Module.Bounded` says of which sizes a module must be to be written and read.
-/

namespace WebAssembly

open Leb128

/-! ## Expressions

Instructions are written with the shortest forms of their numbers. An `if` without a second body is
written without `else`.
-/

/-- The immediate of a memory access. -/
def MemArg.encode (arg : MemArg) : List UInt8 :=
  unsigned arg.align.toNat ++ unsigned arg.offset.toNat

/-- A plain instruction. -/
def Plain.encode : Plain → List UInt8
  | .drop => [0x1a]
  | .select => [0x1b]
  | .localGet i => 0x20 :: unsigned i.toNat
  | .localSet i => 0x21 :: unsigned i.toNat
  | .localTee i => 0x22 :: unsigned i.toNat
  | .globalGet i => 0x23 :: unsigned i.toNat
  | .globalSet i => 0x24 :: unsigned i.toNat
  | .load op arg => op.opcode :: arg.encode
  | .store op arg => op.opcode :: arg.encode
  | .memorySize => [0x3f, 0x00]
  | .memoryGrow => [0x40, 0x00]
  | .const (.i32 v) => 0x41 :: signed v.toInt
  | .const (.i64 v) => 0x42 :: signed v.toInt
  | .const (.f32 v) => 0x43 :: littleEndianBytes 4 v.toNat
  | .const (.f64 v) => 0x44 :: littleEndianBytes 8 v.toNat
  | .numeric op => [op.opcode]

mutual

/-- An instruction with the bodies in it. An empty second body of an `if` is left out. -/
def Instruction.encode : Instruction → List UInt8
  | .unreachable => [0x00]
  | .nop => [0x01]
  | .block type body => 0x02 :: type.code :: (Expr.encode body ++ [0x0b])
  | .loop type body => 0x03 :: type.code :: (Expr.encode body ++ [0x0b])
  | .ifElse type thenBody elseBody =>
    if elseBody.isEmpty then 0x04 :: type.code :: (Expr.encode thenBody ++ [0x0b])
    else 0x04 :: type.code :: ((Expr.encode thenBody ++ [0x05]) ++ (Expr.encode elseBody ++ [0x0b]))
  | .br label => 0x0c :: unsigned label.toNat
  | .brIf label => 0x0d :: unsigned label.toNat
  | .brTable labels default =>
    0x0e :: (encodeVec (labels.map fun label => unsigned label.toNat) ++ unsigned default.toNat)
  | .ret => [0x0f]
  | .call func => 0x10 :: unsigned func.toNat
  | .callIndirect type => 0x11 :: (unsigned type.toNat ++ [0x00])
  | .plain op => op.encode

/-- The instructions of a sequence one behind the other. -/
def Expr.encode : List Instruction → List UInt8
  | [] => []
  | i :: is => Instruction.encode i ++ Expr.encode is

end

/-- A body and its `end`. -/
def Expr.encodeClosed (e : Expr) : List UInt8 :=
  Expr.encode e ++ [Decoder.endCode]

/-- Constructs are nested at most 1024 deep and branch tables have at most 65536 labels. -/
def Expr.Bounded (e : Expr) : Prop :=
  Expr.nesting e ≤ 1024 ∧ Expr.tableWidth e ≤ 65536

/-! What is encoded is a written form. -/

theorem MemArg.written_encode (arg : MemArg) : arg.Written arg.encode :=
  ⟨_, _, unsigned_toNat arg.align, unsigned_toNat arg.offset, rfl⟩

/-- Writing a plain instruction gives its opcode and one form of its immediates. -/
theorem Plain.immediates_encode (op : Plain) :
    ∃ b bs, op.encode = b :: bs ∧ op.Immediates b bs := by
  cases op with
  | drop => exact ⟨_, _, rfl, .drop⟩
  | select => exact ⟨_, _, rfl, .select⟩
  | localGet i => exact ⟨_, _, rfl, .localGet (unsigned_toNat i)⟩
  | localSet i => exact ⟨_, _, rfl, .localSet (unsigned_toNat i)⟩
  | localTee i => exact ⟨_, _, rfl, .localTee (unsigned_toNat i)⟩
  | globalGet i => exact ⟨_, _, rfl, .globalGet (unsigned_toNat i)⟩
  | globalSet i => exact ⟨_, _, rfl, .globalSet (unsigned_toNat i)⟩
  | load op arg => exact ⟨_, _, rfl, .load arg.written_encode⟩
  | store op arg => exact ⟨_, _, rfl, .store arg.written_encode⟩
  | memorySize => exact ⟨_, _, rfl, .memorySize⟩
  | memoryGrow => exact ⟨_, _, rfl, .memoryGrow⟩
  | const v =>
      cases v with
      | i32 v => exact ⟨_, _, rfl, .i32 (signed_toInt v)⟩
      | i64 v => exact ⟨_, _, rfl, .i64 (signed_toInt v)⟩
      | f32 v => exact ⟨_, _, rfl, .f32 v⟩
      | f64 v => exact ⟨_, _, rfl, .f64 v⟩
  | numeric op => exact ⟨_, _, rfl, .numeric op⟩

/-- A branch table is written with its labels counted. -/
theorem Instruction.immediates_brTable {labels : List UInt32} (hlength : labels.length < 2 ^ 32)
    (default : UInt32) :
    (Instruction.brTable labels default).Immediates 0x0e
      (encodeVec (labels.map fun label => unsigned label.toNat) ++ unsigned default.toNat) := by
  refine .brTable (unsigned_ofNat _) ?_ ?_ (unsigned_toNat default)
  · rw [List.length_map]
    exact UInt32.toNat_ofNat_of_lt' hlength
  · rw [List.forall₂_map_right_iff, List.forall₂_same]
    exact fun label _ => unsigned_toNat label

mutual

/-- An instruction in front of others. -/
theorem Instruction.written_encode : ∀ (i : Instruction), i.tableWidth ≤ 65536 →
    ∀ {is : Expr} {rest : List UInt8}, Expr.Written is rest →
      Expr.Written (i :: is) (i.encode ++ rest)
  | .unreachable, _, _, _, h => .bodiless .unreachable h
  | .nop, _, _, _, h => .bodiless .nop h
  | .block _ body, hwidth, _, _, h => .block (Expr.written_encode body hwidth) h
  | .loop _ body, hwidth, _, _, h => .loop (Expr.written_encode body hwidth) h
  | .ifElse type thenBody elseBody, hwidth, _, _, h => by
      have hboth := Nat.max_le.mp hwidth
      have hthen := Expr.written_encode thenBody hboth.1
      rw [Instruction.encode]
      cases elseBody with
      | nil => exact .ifThen hthen h
      | cons i is => exact .ifElse hthen (Expr.written_encode (i :: is) hboth.2) h
  | .br label, _, _, _, h => .bodiless (.br (unsigned_toNat label)) h
  | .brIf label, _, _, _, h => .bodiless (.brIf (unsigned_toNat label)) h
  | .brTable labels default, hwidth, _, _, h =>
      .bodiless (Instruction.immediates_brTable (Nat.lt_of_le_of_lt hwidth (by decide)) default) h
  | .ret, _, _, _, h => .bodiless .ret h
  | .call func, _, _, _, h => .bodiless (.call (unsigned_toNat func)) h
  | .callIndirect type, _, _, _, h => .bodiless (.callIndirect (unsigned_toNat type)) h
  | .plain op, _, _, _, h => by
      obtain ⟨b, bs, hencode, himmediates⟩ := op.immediates_encode
      rw [Instruction.encode, hencode]
      exact .bodiless (.plain himmediates) h

theorem Expr.written_encode : ∀ (e : Expr), Expr.tableWidth e ≤ 65536 →
    Expr.Written e (Expr.encode e)
  | [], _ => .nil
  | i :: is, hwidth =>
      Instruction.written_encode i (Nat.max_le.mp hwidth).1
        (Expr.written_encode is (Nat.max_le.mp hwidth).2)

end

/-! ## Types -/

/-- A function type. -/
def FuncType.encode (t : FuncType) : List UInt8 :=
  0x60 :: (encodeVec (t.params.map fun t => [t.code]) ++
    encodeVec (t.results.map fun t => [t.code]))

/-- Limits: whether there is an upper bound, and the bounds. -/
def Limits.encode (l : Limits) : List UInt8 :=
  match l.max with
  | none => 0x00 :: unsigned l.min.toNat
  | some max => 0x01 :: (unsigned l.min.toNat ++ unsigned max.toNat)

/-- A table type. -/
def TableType.encode (t : TableType) : List UInt8 :=
  0x70 :: t.limits.encode

/-- A memory type. -/
def MemoryType.encode (t : MemoryType) : List UInt8 :=
  t.limits.encode

/-- A global type. -/
def GlobalType.encode (t : GlobalType) : List UInt8 :=
  [t.type.code, if t.mutable then 0x01 else 0x00]

/-! ## Entries

The entries of each section, those of functions excepted: their types and their bodies are in
sections of their own.
-/

/-- What an import must be. -/
def ImportDesc.encode : ImportDesc → List UInt8
  | .func type => 0x00 :: unsigned type.toNat
  | .table type => 0x01 :: type.encode
  | .memory type => 0x02 :: type.encode
  | .global type => 0x03 :: type.encode

/-- An import. -/
def Import.encode (i : Import) : List UInt8 :=
  encodeName i.module ++ (encodeName i.name ++ i.desc.encode)

/-- What an export is. -/
def ExportDesc.encode : ExportDesc → List UInt8
  | .func index => 0x00 :: unsigned index.toNat
  | .table index => 0x01 :: unsigned index.toNat
  | .memory index => 0x02 :: unsigned index.toNat
  | .global index => 0x03 :: unsigned index.toNat

/-- An export. -/
def Export.encode (e : Export) : List UInt8 :=
  encodeName e.name ++ e.desc.encode

/-- A global with its initialiser. -/
def GlobalDef.encode (g : GlobalDef) : List UInt8 :=
  g.type.encode ++ g.init.encodeClosed

/-- An element segment. -/
def ElementSegment.encode (s : ElementSegment) : List UInt8 :=
  unsigned s.table.toNat ++
    (s.offset.encodeClosed ++ encodeVec (s.funcs.map fun i => unsigned i.toNat))

/-- A data segment. -/
def DataSegment.encode (s : DataSegment) : List UInt8 :=
  unsigned s.memory.toNat ++ (s.offset.encodeClosed ++ encodeBytes s.bytes)

/-- A group of locals of one type. -/
def encodeLocals (group : Nat × ValueType) : List UInt8 :=
  unsigned group.1 ++ [group.2.code]

/-- The locals that groups of them declare. -/
def declaredLocals (groups : List (Nat × ValueType)) : List ValueType :=
  groups.flatMap fun group => List.replicate group.1 group.2

/-- A function body behind its size. Its locals can be put into groups in any way. -/
def Body.Encodes (body : Body) (bs : List UInt8) : Prop :=
  ∃ groups, groups.length < 2 ^ 32 ∧ declaredLocals groups = body.locals ∧
    bs = encodeBytes (encodeVec (groups.map encodeLocals) ++ body.code.encodeClosed)

/-! ## Sections

A section is an id, the size of its contents and its contents. The contents of all but the code are
a function of the section.
-/

/-- The byte that gives the kind of a section. -/
def Section.id : Section → UInt8
  | .custom _ => 0
  | .types _ => 1
  | .imports _ => 2
  | .funcs _ => 3
  | .tables _ => 4
  | .memories _ => 5
  | .globals _ => 6
  | .exports _ => 7
  | .start _ => 8
  | .elements _ => 9
  | .code _ => 10
  | .data _ => 11

/-- What stands in a section. -/
def Section.Contents : Section → List UInt8 → Prop
  | .custom none, _ => False
  | .custom (some c), bs => bs = encodeName c.name ++ c.bytes
  | .types ts, bs => bs = encodeVec (ts.map FuncType.encode)
  | .imports is, bs => bs = encodeVec (is.map Import.encode)
  | .funcs ts, bs => bs = encodeVec (ts.map fun t => unsigned t.toNat)
  | .tables ts, bs => bs = encodeVec (ts.map TableType.encode)
  | .memories ts, bs => bs = encodeVec (ts.map MemoryType.encode)
  | .globals gs, bs => bs = encodeVec (gs.map GlobalDef.encode)
  | .exports es, bs => bs = encodeVec (es.map Export.encode)
  | .start f, bs => bs = unsigned f.toNat
  | .elements ss, bs => bs = encodeVec (ss.map ElementSegment.encode)
  | .code bodies, bs => ∃ parts, List.Forall₂ Body.Encodes bodies parts ∧ bs = encodeVec parts
  | .data ss, bs => bs = encodeVec (ss.map DataSegment.encode)

/-- A section: its kind, the size of its contents, and these. -/
def Section.Encodes (s : Section) (bs : List UInt8) : Prop :=
  ∃ contents, s.Contents contents ∧ bs = s.id :: encodeBytes contents

/-- A section without entries, which may as well not be there. -/
def Section.IsEmpty : Section → Prop
  | .custom _ => False
  | .types ts => ts = []
  | .imports is => is = []
  | .funcs ts => ts = []
  | .tables ts => ts = []
  | .memories ts => ts = []
  | .globals gs => gs = []
  | .exports es => es = []
  | .start _ => False
  | .elements ss => ss = []
  | .code bodies => bodies = []
  | .data ss => ss = []

/-- Sections `ss` are the given ones in their order, of which empty ones may be missing, with the
custom ones in their order anywhere before, between and behind them. -/
inductive Section.Arranged : (sections : List Section) → (customs : List Custom) →
    (ss : List Section) → Prop
  | nil : Arranged [] [] []
  | custom {sections ss : List Section} {customs : List Custom} (c : Custom) :
      Arranged sections customs ss → Arranged sections (c :: customs) (.custom (some c) :: ss)
  | keep {sections ss : List Section} {customs : List Custom} (s : Section) :
      Arranged sections customs ss → Arranged (s :: sections) customs (s :: ss)
  | skip {sections ss : List Section} {customs : List Custom} {s : Section} : s.IsEmpty →
      Arranged sections customs ss → Arranged (s :: sections) customs ss

/-! ## Modules

Known sections come in the order of their ids. Custom ones may stand anywhere between them.
-/

namespace Module

/-- The sections of a module in the order of their kinds, without the custom ones. -/
def sections (m : Module) : List Section :=
  [.types m.types, .imports m.imports, .funcs (m.funcs.map (·.type)), .tables m.tables,
    .memories m.memories, .globals m.globals, .exports m.exports] ++
  (m.start.toList.map .start ++
    [.elements m.elements, .code (m.funcs.map fun f => ⟨f.locals, f.body⟩), .data m.data])

/-- The bytes that every module starts with. -/
def preamble : List UInt8 :=
  [0x00, 0x61, 0x73, 0x6d, 0x01, 0x00, 0x00, 0x00]

/-- The bytes are an encoding of the module: the preamble, and its sections in order. -/
def Encodes (m : Module) (bs : List UInt8) : Prop :=
  ∃ ss parts, Section.Arranged m.sections m.customs ss ∧ List.Forall₂ Section.Encodes ss parts ∧
    bs = preamble ++ parts.flatten

end Module

/-! ## Bounds

What is counted is written with 32 bits, and some counts have bounds of their own that the readers
check.
-/

/-- A vector whose length fits in 32 bits, of entries that satisfy `p`. -/
def FitsVec {α : Type} (p : α → Prop) (xs : List α) : Prop :=
  xs.length < 2 ^ 32 ∧ ∀ x ∈ xs, p x

/-- A name of less than `2 ^ 32` bytes. -/
def NameFits (s : String) : Prop :=
  (utf8 s).length < 2 ^ 32

/-- At most 1000 parameters and 1000 results. -/
def FuncType.Bounded (t : FuncType) : Prop :=
  t.params.length ≤ 1000 ∧ t.results.length ≤ 1000

/-- Its names fit. -/
def Import.Bounded (i : Import) : Prop :=
  NameFits i.module ∧ NameFits i.name

/-- At most 50000 locals and code within its bounds. -/
def Body.Bounded (body : Body) : Prop :=
  body.locals.length ≤ 50000 ∧ body.code.Bounded

/-- Its offset keeps to the bounds of code and its functions can be counted. -/
def ElementSegment.Bounded (s : ElementSegment) : Prop :=
  s.offset.Bounded ∧ s.funcs.length < 2 ^ 32

/-- Its offset keeps to the bounds of code and its bytes can be counted. -/
def DataSegment.Bounded (s : DataSegment) : Prop :=
  s.offset.Bounded ∧ s.bytes.length < 2 ^ 32

/-- A custom section is one byte string, made of its name and its bytes. -/
def Custom.Bounded (c : Custom) : Prop :=
  (encodeName c.name ++ c.bytes).length < 2 ^ 32

/-- Every vector and every byte string of the module is shorter than `2 ^ 32`, and it keeps to the
bounds on types, locals, nesting and branch tables. -/
structure Module.Bounded (m : Module) : Prop where
  types : FitsVec FuncType.Bounded m.types
  imports : FitsVec Import.Bounded m.imports
  funcs : FitsVec (fun f : Func => Body.Bounded ⟨f.locals, f.body⟩) m.funcs
  tables : m.tables.length < 2 ^ 32
  memories : m.memories.length < 2 ^ 32
  globals : FitsVec (fun g : GlobalDef => g.init.Bounded) m.globals
  exports : FitsVec (fun e : Export => NameFits e.name) m.exports
  elements : FitsVec ElementSegment.Bounded m.elements
  data : FitsVec DataSegment.Bounded m.data
  customs : ∀ c ∈ m.customs, c.Bounded

end WebAssembly
