import WebAssembly.Instruction.Basic

/-!
# Opcodes

Loads, stores and numeric operators are numbered without gaps, each family from a first opcode. The
lists here give the order in which `ofOpcode?` numbers them.
-/

namespace WebAssembly

/-- The byte of a value type. -/
def ValueType.code : ValueType → UInt8
  | .i32 => 0x7f
  | .i64 => 0x7e
  | .f32 => 0x7d
  | .f64 => 0x7c

/-- The value type of a byte. -/
def ValueType.ofCode? (b : UInt8) : Option ValueType :=
  if b = 0x7f then some .i32
  else if b = 0x7e then some .i64
  else if b = 0x7d then some .f32
  else if b = 0x7c then some .f64
  else none

/-- The value types in the order in which families of instructions list them. -/
def ValueType.all : List ValueType :=
  [.i32, .i64, .f32, .f64]

/-- Entry of a family of opcodes that starts at `first`. -/
def family? {α : Type} (first : UInt8) (members : List α) (b : UInt8) : Option α :=
  if first ≤ b then members[b.toNat - first.toNat]? else none

/-- The loads, from opcode `0x28`. -/
def LoadOp.all : List LoadOp :=
  ValueType.all.map .full ++
    [.byte .i32 .signed, .byte .i32 .unsigned, .half .i32 .signed, .half .i32 .unsigned,
      .byte .i64 .signed, .byte .i64 .unsigned, .half .i64 .signed, .half .i64 .unsigned,
      .word .signed, .word .unsigned]

/-- The stores, from opcode `0x36`. -/
def StoreOp.all : List StoreOp :=
  ValueType.all.map .full ++ [.byte .i32, .half .i32, .byte .i64, .half .i64, .word]

/-- Integer comparisons in opcode order. -/
def IntCompare.all : List IntCompare :=
  [.eq, .ne, .lt .signed, .lt .unsigned, .gt .signed, .gt .unsigned, .le .signed, .le .unsigned,
    .ge .signed, .ge .unsigned]

/-- Float comparisons in opcode order. -/
def FloatCompare.all : List FloatCompare :=
  [.eq, .ne, .lt, .gt, .le, .ge]

/-- Integer operators of one operand in opcode order. -/
def IntUnary.all : List IntUnary :=
  [.clz, .ctz, .popcnt]

/-- Integer operators of two operands in opcode order. -/
def IntBinary.all : List IntBinary :=
  [.add, .sub, .mul, .div .signed, .div .unsigned, .rem .signed, .rem .unsigned, .and, .or, .xor,
    .shl, .shr .signed, .shr .unsigned, .rotl, .rotr]

/-- Float operators of one operand in opcode order. -/
def FloatUnary.all : List FloatUnary :=
  [.abs, .neg, .ceil, .floor, .trunc, .nearest, .sqrt]

/-- Float operators of two operands in opcode order. -/
def FloatBinary.all : List FloatBinary :=
  [.add, .sub, .mul, .div, .min, .max, .copysign]

/-- Conversions in opcode order. -/
def Conversion.all : List Conversion :=
  [.wrap,
    .truncate .i32 .f32 .signed, .truncate .i32 .f32 .unsigned,
    .truncate .i32 .f64 .signed, .truncate .i32 .f64 .unsigned,
    .extend .signed, .extend .unsigned,
    .truncate .i64 .f32 .signed, .truncate .i64 .f32 .unsigned,
    .truncate .i64 .f64 .signed, .truncate .i64 .f64 .unsigned,
    .convert .f32 .i32 .signed, .convert .f32 .i32 .unsigned,
    .convert .f32 .i64 .signed, .convert .f32 .i64 .unsigned, .demote,
    .convert .f64 .i32 .signed, .convert .f64 .i32 .unsigned,
    .convert .f64 .i64 .signed, .convert .f64 .i64 .unsigned, .promote,
    .floatBits .f32, .floatBits .f64, .intBits .i32, .intBits .i64]

/-- The numeric operators, from opcode `0x45`: tests and comparisons, arithmetic, conversions, each
of the first two type by type. -/
def Numeric.all : List Numeric :=
  [.eqz .i32] ++ IntCompare.all.map (.intCompare .i32) ++
    [.eqz .i64] ++ IntCompare.all.map (.intCompare .i64) ++
    FloatCompare.all.map (.floatCompare .f32) ++ FloatCompare.all.map (.floatCompare .f64) ++
    IntUnary.all.map (.intUnary .i32) ++ IntBinary.all.map (.intBinary .i32) ++
    IntUnary.all.map (.intUnary .i64) ++ IntBinary.all.map (.intBinary .i64) ++
    FloatUnary.all.map (.floatUnary .f32) ++ FloatBinary.all.map (.floatBinary .f32) ++
    FloatUnary.all.map (.floatUnary .f64) ++ FloatBinary.all.map (.floatBinary .f64) ++
    Conversion.all.map .conversion

/-- The load of an opcode. -/
def LoadOp.ofOpcode? (b : UInt8) : Option LoadOp :=
  family? 0x28 LoadOp.all b

/-- The store of an opcode. -/
def StoreOp.ofOpcode? (b : UInt8) : Option StoreOp :=
  family? 0x36 StoreOp.all b

/-- The numeric operator of an opcode. -/
def Numeric.ofOpcode? (b : UInt8) : Option Numeric :=
  family? 0x45 Numeric.all b

end WebAssembly
