import WebAssembly.Proofs.Binary.Vectors

/-!
# The binary grammar of expressions

`Expr.Written` relates a body to the bytes it can be written as: an opcode and immediates for each
instruction, and an `end` behind each nested body. Numbers may have more digits than they need, and
an `if` with an empty second body may do without its `else`. Every written form of a body that stays
within the bounds on nesting and on branch tables is read back as that body (`Decoder.reads_expr`).

The opcodes are given by tables of their own here, one entry for each instruction.
-/

namespace WebAssembly

/-! ## Opcodes -/

/-- The opcode of a load. -/
def LoadOp.opcode : LoadOp → UInt8
  | .full .i32 => 0x28
  | .full .i64 => 0x29
  | .full .f32 => 0x2a
  | .full .f64 => 0x2b
  | .byte .i32 .signed => 0x2c
  | .byte .i32 .unsigned => 0x2d
  | .half .i32 .signed => 0x2e
  | .half .i32 .unsigned => 0x2f
  | .byte .i64 .signed => 0x30
  | .byte .i64 .unsigned => 0x31
  | .half .i64 .signed => 0x32
  | .half .i64 .unsigned => 0x33
  | .word .signed => 0x34
  | .word .unsigned => 0x35

/-- The opcode of a store. -/
def StoreOp.opcode : StoreOp → UInt8
  | .full .i32 => 0x36
  | .full .i64 => 0x37
  | .full .f32 => 0x38
  | .full .f64 => 0x39
  | .byte .i32 => 0x3a
  | .half .i32 => 0x3b
  | .byte .i64 => 0x3c
  | .half .i64 => 0x3d
  | .word => 0x3e

/-- The place of a comparison among those of its type. -/
def IntCompare.place : IntCompare → UInt8
  | .eq => 0
  | .ne => 1
  | .lt .signed => 2
  | .lt .unsigned => 3
  | .gt .signed => 4
  | .gt .unsigned => 5
  | .le .signed => 6
  | .le .unsigned => 7
  | .ge .signed => 8
  | .ge .unsigned => 9

/-- The place of a comparison among those of its type. -/
def FloatCompare.place : FloatCompare → UInt8
  | .eq => 0
  | .ne => 1
  | .lt => 2
  | .gt => 3
  | .le => 4
  | .ge => 5

/-- The place of an operator among those of its type. -/
def IntUnary.place : IntUnary → UInt8
  | .clz => 0
  | .ctz => 1
  | .popcnt => 2

/-- The place of an operator among those of its type. -/
def IntBinary.place : IntBinary → UInt8
  | .add => 0
  | .sub => 1
  | .mul => 2
  | .div .signed => 3
  | .div .unsigned => 4
  | .rem .signed => 5
  | .rem .unsigned => 6
  | .and => 7
  | .or => 8
  | .xor => 9
  | .shl => 10
  | .shr .signed => 11
  | .shr .unsigned => 12
  | .rotl => 13
  | .rotr => 14

/-- The place of an operator among those of its type. -/
def FloatUnary.place : FloatUnary → UInt8
  | .abs => 0
  | .neg => 1
  | .ceil => 2
  | .floor => 3
  | .trunc => 4
  | .nearest => 5
  | .sqrt => 6

/-- The place of an operator among those of its type. -/
def FloatBinary.place : FloatBinary → UInt8
  | .add => 0
  | .sub => 1
  | .mul => 2
  | .div => 3
  | .min => 4
  | .max => 5
  | .copysign => 6

/-- The opcode of a conversion. -/
def Conversion.opcode : Conversion → UInt8
  | .wrap => 0xa7
  | .truncate .i32 .f32 .signed => 0xa8
  | .truncate .i32 .f32 .unsigned => 0xa9
  | .truncate .i32 .f64 .signed => 0xaa
  | .truncate .i32 .f64 .unsigned => 0xab
  | .extend .signed => 0xac
  | .extend .unsigned => 0xad
  | .truncate .i64 .f32 .signed => 0xae
  | .truncate .i64 .f32 .unsigned => 0xaf
  | .truncate .i64 .f64 .signed => 0xb0
  | .truncate .i64 .f64 .unsigned => 0xb1
  | .convert .f32 .i32 .signed => 0xb2
  | .convert .f32 .i32 .unsigned => 0xb3
  | .convert .f32 .i64 .signed => 0xb4
  | .convert .f32 .i64 .unsigned => 0xb5
  | .demote => 0xb6
  | .convert .f64 .i32 .signed => 0xb7
  | .convert .f64 .i32 .unsigned => 0xb8
  | .convert .f64 .i64 .signed => 0xb9
  | .convert .f64 .i64 .unsigned => 0xba
  | .promote => 0xbb
  | .floatBits .f32 => 0xbc
  | .floatBits .f64 => 0xbd
  | .intBits .i32 => 0xbe
  | .intBits .i64 => 0xbf

/-- The opcode of a numeric operator. -/
def Numeric.opcode : Numeric → UInt8
  | .eqz .i32 => 0x45
  | .intCompare .i32 op => 0x46 + op.place
  | .eqz .i64 => 0x50
  | .intCompare .i64 op => 0x51 + op.place
  | .floatCompare .f32 op => 0x5b + op.place
  | .floatCompare .f64 op => 0x61 + op.place
  | .intUnary .i32 op => 0x67 + op.place
  | .intBinary .i32 op => 0x6a + op.place
  | .intUnary .i64 op => 0x79 + op.place
  | .intBinary .i64 op => 0x7c + op.place
  | .floatUnary .f32 op => 0x8b + op.place
  | .floatBinary .f32 op => 0x92 + op.place
  | .floatUnary .f64 op => 0x99 + op.place
  | .floatBinary .f64 op => 0xa0 + op.place
  | .conversion op => op.opcode

/-- The byte of a block type. -/
def BlockType.code : BlockType → UInt8
  | .empty => 0x40
  | .value t => t.code

/-! The readers look opcodes up in lists; the tables above give the entries that they find. -/

theorem LoadOp.ofOpcode?_opcode (op : LoadOp) : ofOpcode? op.opcode = some op := by
  rcases op with (_ | _ | _ | _) | ⟨_ | _, _ | _⟩ | ⟨_ | _, _ | _⟩ | (_ | _) <;> rfl

theorem StoreOp.ofOpcode?_opcode (op : StoreOp) : ofOpcode? op.opcode = some op := by
  rcases op with (_ | _ | _ | _) | (_ | _) | (_ | _) | _ <;> rfl

/-- The families of numeric opcodes do not overlap. -/
theorem Numeric.ofOpcode?_opcode (op : Numeric) : ofOpcode? op.opcode = some op := by
  cases op with
  | eqz t => cases t <;> rfl
  | intCompare t op =>
      rcases t with _ | _ <;> rcases op with _ | _ | (_ | _) | (_ | _) | (_ | _) | (_ | _) <;> rfl
  | floatCompare t op => cases t <;> cases op <;> rfl
  | intUnary t op => cases t <;> cases op <;> rfl
  | intBinary t op =>
      rcases t with _ | _ <;>
        rcases op with _ | _ | _ | (_ | _) | (_ | _) | _ | _ | _ | _ | (_ | _) | _ | _ <;> rfl
  | floatUnary t op => cases t <;> cases op <;> rfl
  | floatBinary t op => cases t <;> cases op <;> rfl
  | conversion op =>
      rcases op with _ | (_ | _) | ⟨_ | _, _ | _, _ | _⟩ | ⟨_ | _, _ | _, _ | _⟩ | _ | _ | (_ | _) |
        (_ | _) <;> rfl

/-- A family of opcodes goes from its first one as far as it has members. -/
theorem bounds_of_family {α : Type} {first b : UInt8} {members : List α} {a : α}
    (h : family? first members b = some a) :
    first.toNat ≤ b.toNat ∧ b.toNat < first.toNat + members.length := by
  rw [family?] at h
  split at h
  · next hle =>
      have hlt := (List.getElem?_eq_some_iff.mp h).1
      rw [UInt8.le_iff_toNat_le] at hle
      omega
  · cases h

/-- A byte behind a family is none of its members. -/
theorem family?_eq_none {α : Type} {first b : UInt8} {members : List α}
    (h : first.toNat + members.length ≤ b.toNat) : family? first members b = none := by
  cases hfamily : family? first members b with
  | none => rfl
  | some a =>
      have := (bounds_of_family hfamily).2
      omega

/-- The opcodes of loads lie between those of variables and those of stores. -/
theorem LoadOp.opcode_bounds (op : LoadOp) : 0x28 ≤ op.opcode.toNat ∧ op.opcode.toNat < 0x36 :=
  bounds_of_family op.ofOpcode?_opcode

theorem StoreOp.opcode_bounds (op : StoreOp) : 0x36 ≤ op.opcode.toNat ∧ op.opcode.toNat < 0x3f :=
  bounds_of_family op.ofOpcode?_opcode

theorem Numeric.opcode_bounds (op : Numeric) : 0x45 ≤ op.opcode.toNat ∧ op.opcode.toNat < 0xc0 :=
  bounds_of_family op.ofOpcode?_opcode

namespace Decoder

/-- An opcode that belongs to one of the families. -/
theorem plain_of_family {b : UInt8}
    (h : 0x28 ≤ b.toNat ∧ b.toNat < 0x3f ∨ 0x45 ≤ b.toNat) :
    plain b =
      match LoadOp.ofOpcode? b, StoreOp.ofOpcode? b, Numeric.ofOpcode? b with
      | some op, _, _ => return .load op (← memArg)
      | _, some op, _ => return .store op (← memArg)
      | _, _, some op => return .numeric op
      | _, _, _ => throw (.invalidOpcode b) := by
  unfold plain
  split
  case h_14 => rfl
  all_goals exact absurd h (by decide)

/-- An opcode of a load is taken for no other instruction. -/
theorem plain_loadOpcode (op : LoadOp) :
    plain op.opcode = memArg >>= fun arg => pure (.load op arg) := by
  have hbounds := op.opcode_bounds
  rw [plain_of_family (by omega), op.ofOpcode?_opcode]

theorem plain_storeOpcode (op : StoreOp) :
    plain op.opcode = memArg >>= fun arg => pure (.store op arg) := by
  have hbounds := op.opcode_bounds
  have hload : LoadOp.ofOpcode? op.opcode = none := family?_eq_none hbounds.1
  rw [plain_of_family (by omega), hload, op.ofOpcode?_opcode]

theorem plain_numericOpcode (op : Numeric) : plain op.opcode = pure (.numeric op) := by
  have hbounds := op.opcode_bounds
  have hload : LoadOp.ofOpcode? op.opcode = none :=
    family?_eq_none (Nat.le_trans (by decide) hbounds.1)
  have hstore : StoreOp.ofOpcode? op.opcode = none :=
    family?_eq_none (Nat.le_trans (by decide) hbounds.1)
  rw [plain_of_family (by omega), hload, hstore, op.ofOpcode?_opcode]

end Decoder

/-! ## Immediates

What stands behind an opcode. The relation fixes the bytes of floats and leaves those of numbers
open.
-/

open Leb128

/-- The bytes of the immediate of a memory access. -/
def MemArg.Written (arg : MemArg) (bs : List UInt8) : Prop :=
  ∃ align offset, Unsigned arg.align align ∧ Unsigned arg.offset offset ∧ bs = align ++ offset

/-- The opcode of a plain instruction and the bytes behind it. -/
inductive Plain.Immediates : Plain → UInt8 → List UInt8 → Prop
  | drop : Immediates .drop 0x1a []
  | select : Immediates .select 0x1b []
  | localGet {i : UInt32} {bs : List UInt8} : Unsigned i bs → Immediates (.localGet i) 0x20 bs
  | localSet {i : UInt32} {bs : List UInt8} : Unsigned i bs → Immediates (.localSet i) 0x21 bs
  | localTee {i : UInt32} {bs : List UInt8} : Unsigned i bs → Immediates (.localTee i) 0x22 bs
  | globalGet {i : UInt32} {bs : List UInt8} : Unsigned i bs → Immediates (.globalGet i) 0x23 bs
  | globalSet {i : UInt32} {bs : List UInt8} : Unsigned i bs → Immediates (.globalSet i) 0x24 bs
  | load {op : LoadOp} {arg : MemArg} {bs : List UInt8} :
      arg.Written bs → Immediates (.load op arg) op.opcode bs
  | store {op : StoreOp} {arg : MemArg} {bs : List UInt8} :
      arg.Written bs → Immediates (.store op arg) op.opcode bs
  | memorySize : Immediates .memorySize 0x3f [0x00]
  | memoryGrow : Immediates .memoryGrow 0x40 [0x00]
  | i32 {v : BitVec 32} {bs : List UInt8} : Signed v bs → Immediates (.const (.i32 v)) 0x41 bs
  | i64 {v : BitVec 64} {bs : List UInt8} : Signed v bs → Immediates (.const (.i64 v)) 0x42 bs
  | f32 (v : BitVec 32) : Immediates (.const (.f32 v)) 0x43 (littleEndianBytes 4 v.toNat)
  | f64 (v : BitVec 64) : Immediates (.const (.f64 v)) 0x44 (littleEndianBytes 8 v.toNat)
  | numeric (op : Numeric) : Immediates (.numeric op) op.opcode []

/-- The opcode of an instruction without a body and the bytes behind it. -/
inductive Instruction.Immediates : Instruction → UInt8 → List UInt8 → Prop
  | unreachable : Immediates .unreachable 0x00 []
  | nop : Immediates .nop 0x01 []
  | br {label : UInt32} {bs : List UInt8} : Unsigned label bs → Immediates (.br label) 0x0c bs
  | brIf {label : UInt32} {bs : List UInt8} : Unsigned label bs → Immediates (.brIf label) 0x0d bs
  | brTable {labels : List UInt32} {default n : UInt32} {count last : List UInt8}
      {parts : List (List UInt8)} : Unsigned n count → n.toNat = labels.length →
      List.Forall₂ Unsigned labels parts → Unsigned default last →
      Immediates (.brTable labels default) 0x0e (count ++ parts.flatten ++ last)
  | ret : Immediates .ret 0x0f []
  | call {func : UInt32} {bs : List UInt8} : Unsigned func bs → Immediates (.call func) 0x10 bs
  | callIndirect {type : UInt32} {bs : List UInt8} :
      Unsigned type bs → Immediates (.callIndirect type) 0x11 (bs ++ [0x00])
  | plain {op : Plain} {b : UInt8} {bs : List UInt8} :
      op.Immediates b bs → Immediates (.plain op) b bs

mutual

/-- The most labels of a branch table in an instruction. -/
def Instruction.tableWidth : Instruction → Nat
  | .brTable labels _ => labels.length
  | .block _ body => Expr.tableWidth body
  | .loop _ body => Expr.tableWidth body
  | .ifElse _ thenBody elseBody => max (Expr.tableWidth thenBody) (Expr.tableWidth elseBody)
  | _ => 0

/-- The most labels of a branch table in a sequence. -/
def Expr.tableWidth : List Instruction → Nat
  | [] => 0
  | i :: is => max (Instruction.tableWidth i) (Expr.tableWidth is)

end

mutual

/-- How deep constructs are nested in an instruction. -/
def Instruction.nesting : Instruction → Nat
  | .block _ body => Expr.nesting body + 1
  | .loop _ body => Expr.nesting body + 1
  | .ifElse _ thenBody elseBody => max (Expr.nesting thenBody) (Expr.nesting elseBody) + 1
  | _ => 0

/-- How deep constructs are nested in a sequence. -/
def Expr.nesting : List Instruction → Nat
  | [] => 0
  | i :: is => max (Instruction.nesting i) (Expr.nesting is)

end

namespace Decoder

theorem reads_memArg {arg : MemArg} {bs : List UInt8} (h : arg.Written bs) (d : Nat) :
    Reads memArg bs arg d d := by
  obtain ⟨align, offset, halign, hoffset, rfl⟩ := h
  exact (reads_u32 halign d).bind ((reads_u32 hoffset d).map _)

theorem reads_reserved (context : String) (d : Nat) : Reads (reserved context) [0x00] () d d :=
  fun _ _ => rfl

/-- The immediates of a plain instruction are read back behind its opcode. -/
theorem reads_plain {op : Plain} {b : UInt8} {bs : List UInt8} (h : op.Immediates b bs) (d : Nat) :
    Reads (plain b) bs op d d := by
  cases h with
  | drop => exact .pure _ d
  | select => exact .pure _ d
  | localGet h => exact (reads_u32 h d).map _
  | localSet h => exact (reads_u32 h d).map _
  | localTee h => exact (reads_u32 h d).map _
  | globalGet h => exact (reads_u32 h d).map _
  | globalSet h => exact (reads_u32 h d).map _
  | load h =>
      rw [plain_loadOpcode]
      exact (reads_memArg h d).map _
  | store h =>
      rw [plain_storeOpcode]
      exact (reads_memArg h d).map _
  | memorySize => exact (reads_reserved _ d).map _
  | memoryGrow => exact (reads_reserved _ d).map _
  | i32 h => exact (reads_s32 h d).map _
  | i64 h => exact (reads_s64 h d).map _
  | f32 v => exact (reads_float .f32 v d).map _
  | f64 v => exact (reads_float .f64 v d).map _
  | numeric op =>
      rw [plain_numericOpcode]
      exact .pure _ d

/-- Control instructions come first among the opcodes. -/
theorem le_plainOpcode {op : Plain} {b : UInt8} {bs : List UInt8} (h : op.Immediates b bs) :
    0x1a ≤ b.toNat := by
  cases h with
  | @load op _ _ _ => exact Nat.le_trans (by decide) op.opcode_bounds.1
  | @store op _ _ _ => exact Nat.le_trans (by decide) op.opcode_bounds.1
  | numeric op => exact Nat.le_trans (by decide) op.opcode_bounds.1
  | _ => decide

/-- From the opcode of `drop` on all instructions are plain. -/
theorem bodiless_of_le {b : UInt8} (h : 0x1a ≤ b.toNat) :
    bodiless b = plain b >>= fun op => pure (.plain op) := by
  unfold bodiless
  split
  case h_9 => rfl
  all_goals exact absurd h (by decide)

/-- An instruction without a body is read back, a branch table if it keeps to its bound. -/
theorem reads_bodiless {i : Instruction} {b : UInt8} {bs : List UInt8} (h : i.Immediates b bs)
    (hwidth : i.tableWidth ≤ Bound.branchLabels.limit) (d : Nat) :
    Reads (bodiless b) bs i d d := by
  cases h with
  | unreachable => exact .pure _ d
  | nop => exact .pure _ d
  | br h => exact (reads_u32 h d).map _
  | brIf h => exact (reads_u32 h d).map _
  | @brTable labels default n count last parts hcount hn hlabels hdefault =>
      have hitems : List.Forall₂ (fun label bs => Reads u32 bs label d d) labels parts :=
        hlabels.imp fun _ _ hlabel => reads_u32 hlabel d
      exact (reads_boundedVec hcount hn hwidth hitems).bind ((reads_u32 hdefault d).map _)
  | ret => exact .pure _ d
  | call h => exact (reads_u32 h d).map _
  | callIndirect h => exact (reads_u32 h d).bind ((reads_reserved _ d).map _)
  | plain h =>
      rw [bodiless_of_le (le_plainOpcode h)]
      exact (reads_plain h d).map _

/-- The opcodes that open a construct or end a body belong to no other instruction. -/
theorem opcode_notMem {i : Instruction} {b : UInt8} {bs : List UInt8} (h : i.Immediates b bs) :
    b ∉ [0x02, 0x03, 0x04, elseCode, endCode] := by
  cases h with
  | plain h =>
      have hle := le_plainOpcode h
      intro hmem
      simp only [List.mem_cons, List.not_mem_nil, or_false] at hmem
      rcases hmem with rfl | rfl | rfl | rfl | rfl <;> exact absurd hle (by decide)
  | _ => decide

end Decoder

/-! ## Bodies

The grammar goes from the back to the front, so that a body is a first instruction with a written
rest behind it. The readers are followed along it with fuel that exceeds the number of bytes.
-/

/-- The bytes of a body, without the `end` behind it. -/
inductive Expr.Written : Expr → List UInt8 → Prop
  | nil : Written [] []
  | bodiless {i : Instruction} {is : Expr} {b : UInt8} {bs rest : List UInt8} :
      i.Immediates b bs → Written is rest → Written (i :: is) (b :: bs ++ rest)
  | block {type : BlockType} {body is : Expr} {inner rest : List UInt8} :
      Written body inner → Written is rest →
      Written (.block type body :: is) (0x02 :: type.code :: (inner ++ [0x0b]) ++ rest)
  | loop {type : BlockType} {body is : Expr} {inner rest : List UInt8} :
      Written body inner → Written is rest →
      Written (.loop type body :: is) (0x03 :: type.code :: (inner ++ [0x0b]) ++ rest)
  | ifThen {type : BlockType} {body is : Expr} {inner rest : List UInt8} :
      Written body inner → Written is rest →
      Written (.ifElse type body [] :: is) (0x04 :: type.code :: (inner ++ [0x0b]) ++ rest)
  | ifElse {type : BlockType} {thenBody elseBody is : Expr} {first second rest : List UInt8} :
      Written thenBody first → Written elseBody second → Written is rest →
      Written (.ifElse type thenBody elseBody :: is)
        (0x04 :: type.code :: ((first ++ [0x05]) ++ (second ++ [0x0b])) ++ rest)

namespace Decoder

variable {d fuel : Nat} {allowElse : Bool} {acc : List Instruction}

theorem reads_blockType (type : BlockType) (d : Nat) : Reads blockType [type.code] type d d := by
  rcases type with _ | (_ | _ | _ | _) <;> exact fun _ _ => rfl

/-- What makes a sequence stop is what may end it. -/
theorem reads_sequenceEnd {b : UInt8} (h : (b = endCode || (b = elseCode && allowElse)) = true)
    (d : Nat) : Reads (sequenceEnd allowElse) [b] b d d := by
  refine reads_expect ?_ _ d
  cases allowElse with
  | false => simpa using h
  | true => simpa [or_comm] using h

/-- At the end of a body. -/
theorem reads_terminator {b : UInt8} (h : (b = endCode || (b = elseCode && allowElse)) = true) :
    Reads (sequenceAux (fuel + 1) allowElse acc) [b] (acc.reverse, b) d d := by
  intro rest pos
  rw [sequenceAux]
  show (if (b = endCode || (b = elseCode && allowElse)) = true then _ else _ : Decoder _) _ = _
  rw [if_pos h]
  exact (reads_sequenceEnd h d).map _ rest pos

/-- One more instruction of a body. -/
theorem reads_member {b : UInt8} {bs rest : List UInt8} {i : Instruction}
    {r : List Instruction × UInt8} (hb : b ∉ [elseCode, endCode])
    (hi : Reads (instructionAux fuel) (b :: bs) i d d)
    (hrest : Reads (sequenceAux fuel allowElse (i :: acc)) rest r d d) :
    Reads (sequenceAux (fuel + 1) allowElse acc) (b :: bs ++ rest) r d d := by
  have hends : ¬ (b = endCode || (b = elseCode && allowElse)) = true := by
    simp only [List.mem_cons, List.not_mem_nil, or_false, not_or] at hb
    simp [hb.1, hb.2]
  intro rest' pos
  rw [sequenceAux]
  show (if (b = endCode || (b = elseCode && allowElse)) = true then _ else _ : Decoder _) _ = _
  rw [if_neg hends]
  exact hi.bind hrest rest' pos

/-- The opcode of an instruction without a body opens no construct. -/
theorem reads_bodilessInstruction {i : Instruction} {b : UInt8} {bs : List UInt8}
    (h : i.Immediates b bs) (hwidth : i.tableWidth ≤ Bound.branchLabels.limit) :
    Reads (instructionAux (fuel + 1)) (b :: bs) i d d := by
  have hb := opcode_notMem h
  rw [instructionAux]
  show Reads _ ([b] ++ bs) i d d
  refine (reads_byte b d).bind ?_
  split
  case h_4 => exact reads_bodiless h hwidth d
  all_goals exact absurd hb (by decide)

/-! A construct opens one more level, in which its bodies are read. -/

section Constructs

variable {type : BlockType} {body thenBody elseBody : Expr} {bs first second : List UInt8}

/-- A block is read back if its body is, one level further in. -/
theorem reads_block (hd : d < Bound.nesting.limit)
    (h : Reads (sequenceAux fuel false []) bs (body, endCode) (d + 1) (d + 1)) :
    Reads (instructionAux (fuel + 1)) (0x02 :: type.code :: bs) (.block type body) d d := by
  rw [instructionAux]
  exact (reads_byte 0x02 d).bind ((reads_blockType type d).bind ((reads_enter hd).bind
    (h.bind_nil ((reads_leave d).map _))))

theorem reads_loop (hd : d < Bound.nesting.limit)
    (h : Reads (sequenceAux fuel false []) bs (body, endCode) (d + 1) (d + 1)) :
    Reads (instructionAux (fuel + 1)) (0x03 :: type.code :: bs) (.loop type body) d d := by
  rw [instructionAux]
  exact (reads_byte 0x03 d).bind ((reads_blockType type d).bind ((reads_enter hd).bind
    (h.bind_nil ((reads_leave d).map _))))

/-- Without an `else` the second body is empty. -/
theorem reads_ifThen (hd : d < Bound.nesting.limit)
    (h : Reads (sequenceAux fuel true []) bs (body, endCode) (d + 1) (d + 1)) :
    Reads (instructionAux (fuel + 1)) (0x04 :: type.code :: bs) (.ifElse type body []) d d := by
  rw [instructionAux]
  refine (reads_byte 0x04 d).bind ((reads_blockType type d).bind ((reads_enter hd).bind
    (h.bind_nil ?_)))
  dsimp only
  rw [if_neg (by decide)]
  exact (Reads.pure [] (d + 1)).bind_nil ((reads_leave d).map _)

/-- A conditional with two arms is read back: the first ends with `else`, the second with `end`. -/
theorem reads_ifElse (hd : d < Bound.nesting.limit)
    (hfirst : Reads (sequenceAux fuel true []) first (thenBody, elseCode) (d + 1) (d + 1))
    (hsecond : Reads (sequenceAux fuel false []) second (elseBody, endCode) (d + 1) (d + 1)) :
    Reads (instructionAux (fuel + 1)) (0x04 :: type.code :: (first ++ second))
      (.ifElse type thenBody elseBody) d d := by
  rw [instructionAux]
  refine (reads_byte 0x04 d).bind ((reads_blockType type d).bind ((reads_enter hd).bind
    (hfirst.bind ?_)))
  dsimp only
  rw [if_pos rfl]
  exact hsecond.bind_nil ((Reads.pure elseBody (d + 1)).bind_nil ((reads_leave d).map _))

end Constructs

/-- By induction on the written form. There is a byte for every instruction and for the end of every
body, so that as much fuel as bytes is enough. -/
theorem reads_sequence {is : Expr} {bs : List UInt8} (h : Expr.Written is bs)
    (hwidth : Expr.tableWidth is ≤ Bound.branchLabels.limit) {fuel d : Nat}
    (hfuel : bs.length < fuel) (hd : d + Expr.nesting is ≤ Bound.nesting.limit) {b : UInt8}
    {allowElse : Bool} (hb : (b = endCode || (b = elseCode && allowElse)) = true)
    (acc : List Instruction) :
    Reads (sequenceAux fuel allowElse acc) (bs ++ [b]) (acc.reverse ++ is, b) d d := by
  have hend : ∀ allow, (endCode = endCode || (endCode = elseCode && allow)) = true := by decide
  have helse : (elseCode = endCode || (elseCode = elseCode && true)) = true := by decide
  -- One instruction is put in front of those that were read, the others behind it.
  have hcons : ∀ (acc : List Instruction) (i : Instruction) (is : Expr),
      acc.reverse ++ i :: is = (i :: acc).reverse ++ is := by simp
  induction h generalizing fuel d b allowElse acc with
  | nil =>
      obtain ⟨k, rfl⟩ : ∃ k, fuel = k + 1 := ⟨fuel - 1, by omega⟩
      rw [List.append_nil]
      exact reads_terminator hb
  | @bodiless i is b' bs rest hi _ ih =>
      simp only [List.length_append, List.length_cons, Expr.nesting, Expr.tableWidth]
        at hfuel hd hwidth
      obtain ⟨k, rfl⟩ : ∃ k, fuel = k + 2 := ⟨fuel - 2, by omega⟩
      have hb' := opcode_notMem hi
      rw [List.append_assoc, hcons]
      exact reads_member (fun hmem => hb' (by simp_all)) (reads_bodilessInstruction hi (by omega))
        (ih (by omega) (by omega) (by omega) hb _)
  | @block type body is inner rest _ _ ihbody ih =>
      simp only [List.length_append, List.length_cons, Expr.nesting, Expr.tableWidth,
        Instruction.nesting, Instruction.tableWidth] at hfuel hd hwidth
      obtain ⟨k, rfl⟩ : ∃ k, fuel = k + 2 := ⟨fuel - 2, by omega⟩
      have hbody : Reads (sequenceAux k false []) (inner ++ [endCode]) (body, endCode)
          (d + 1) (d + 1) :=
        ihbody (by omega) (by omega) (by omega) (hend false) []
      rw [List.append_assoc, hcons]
      exact reads_member (by decide) (reads_block (by omega) hbody)
        (ih (by omega) (by omega) (by omega) hb _)
  | @loop type body is inner rest _ _ ihbody ih =>
      simp only [List.length_append, List.length_cons, Expr.nesting, Expr.tableWidth,
        Instruction.nesting, Instruction.tableWidth] at hfuel hd hwidth
      obtain ⟨k, rfl⟩ : ∃ k, fuel = k + 2 := ⟨fuel - 2, by omega⟩
      have hbody : Reads (sequenceAux k false []) (inner ++ [endCode]) (body, endCode)
          (d + 1) (d + 1) :=
        ihbody (by omega) (by omega) (by omega) (hend false) []
      rw [List.append_assoc, hcons]
      exact reads_member (by decide) (reads_loop (by omega) hbody)
        (ih (by omega) (by omega) (by omega) hb _)
  | @ifThen type body is inner rest _ _ ihbody ih =>
      simp only [List.length_append, List.length_cons, Expr.nesting, Expr.tableWidth,
        Instruction.nesting, Instruction.tableWidth] at hfuel hd hwidth
      obtain ⟨k, rfl⟩ : ∃ k, fuel = k + 2 := ⟨fuel - 2, by omega⟩
      have hbody : Reads (sequenceAux k true []) (inner ++ [endCode]) (body, endCode)
          (d + 1) (d + 1) :=
        ihbody (by omega) (by omega) (by omega) (hend true) []
      rw [List.append_assoc, hcons]
      exact reads_member (by decide) (reads_ifThen (by omega) hbody)
        (ih (by omega) (by omega) (by omega) hb _)
  | @ifElse type thenBody elseBody is first second rest _ _ _ ihfirst ihsecond ih =>
      simp only [List.length_append, List.length_cons, Expr.nesting, Expr.tableWidth,
        Instruction.nesting, Instruction.tableWidth] at hfuel hd hwidth
      obtain ⟨k, rfl⟩ : ∃ k, fuel = k + 2 := ⟨fuel - 2, by omega⟩
      have hfirst : Reads (sequenceAux k true []) (first ++ [elseCode]) (thenBody, elseCode)
          (d + 1) (d + 1) :=
        ihfirst (by omega) (by omega) (by omega) helse []
      have hsecond : Reads (sequenceAux k false []) (second ++ [endCode]) (elseBody, endCode)
          (d + 1) (d + 1) :=
        ihsecond (by omega) (by omega) (by omega) (hend false) []
      rw [List.append_assoc, hcons]
      exact reads_member (by decide) (reads_ifElse (by omega) hfirst hsecond)
        (ih (by omega) (by omega) (by omega) hb _)

/-- A body in any of its written forms, and the `end` behind it. -/
theorem reads_expr {e : Expr} {bs : List UInt8} (h : Expr.Written e bs)
    (hwidth : Expr.tableWidth e ≤ Bound.branchLabels.limit) {d : Nat}
    (hd : d + Expr.nesting e ≤ Bound.nesting.limit) :
    Reads expr (bs ++ [endCode]) e d d := by
  intro rest pos
  have hfuel : bs.length < fuelFor (bs ++ [endCode] ++ rest).length := by
    simp only [fuelFor, List.length_append]
    omega
  have hread : Reads (sequenceAux (fuelFor (bs ++ [endCode] ++ rest).length) false [])
      (bs ++ [endCode]) (e, endCode) d d :=
    reads_sequence h hwidth hfuel hd (by decide) []
  exact bind_of_ok (hread rest pos)

end Decoder

end WebAssembly
