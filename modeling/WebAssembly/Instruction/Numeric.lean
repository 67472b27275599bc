import WebAssembly.Types

/-!
# Numeric operators

Tests, comparisons, arithmetic and conversions: the operators that take their operands from the
stack and depend on nothing else. Each has operand types and a result type (`Numeric.operands`,
`Numeric.result`), by which code that uses it is checked.
-/

namespace WebAssembly

/-- How an operator reads an integer. -/
inductive Sign where
  | signed | unsigned
deriving DecidableEq

/-- Integer operators of one operand. -/
inductive IntUnary where
  | clz | ctz | popcnt
deriving DecidableEq

/-- Integer operators of two operands. -/
inductive IntBinary where
  | add | sub | mul
  | div (sign : Sign)
  | rem (sign : Sign)
  | and | or | xor | shl
  | shr (sign : Sign)
  | rotl | rotr
deriving DecidableEq

/-- Integer comparisons. -/
inductive IntCompare where
  | eq | ne
  | lt (sign : Sign)
  | gt (sign : Sign)
  | le (sign : Sign)
  | ge (sign : Sign)
deriving DecidableEq

/-- Float operators of one operand. -/
inductive FloatUnary where
  | abs | neg | ceil | floor | trunc | nearest | sqrt
deriving DecidableEq

/-- Float operators of two operands. -/
inductive FloatBinary where
  | add | sub | mul | div | min | max | copysign
deriving DecidableEq

/-- Float comparisons. -/
inductive FloatCompare where
  | eq | ne | lt | gt | le | ge
deriving DecidableEq

/-- Operators from one number type to another. -/
inductive Conversion where
  /-- The low half of an `i64`. -/
  | wrap
  /-- An `i32` as an `i64`. -/
  | extend (sign : Sign)
  /-- A float without its fraction as an integer. -/
  | truncate (target : IntType) (source : FloatType) (sign : Sign)
  /-- An integer as a float. -/
  | convert (target : FloatType) (source : IntType) (sign : Sign)
  /-- An `f64` as an `f32`. -/
  | demote
  /-- An `f32` as an `f64`. -/
  | promote
  /-- The bits of a float as an integer of its width. -/
  | floatBits (source : FloatType)
  /-- The bits of an integer as a float of its width. -/
  | intBits (source : IntType)
deriving DecidableEq

/-- The numeric operators. -/
inductive Numeric where
  | eqz (type : IntType)
  | intCompare (type : IntType) (op : IntCompare)
  | floatCompare (type : FloatType) (op : FloatCompare)
  | intUnary (type : IntType) (op : IntUnary)
  | intBinary (type : IntType) (op : IntBinary)
  | floatUnary (type : FloatType) (op : FloatUnary)
  | floatBinary (type : FloatType) (op : FloatBinary)
  | conversion (op : Conversion)
deriving DecidableEq

/-! ## Types of operators -/

/-- The float type of the width of an integer type. -/
def IntType.sameWidth : IntType → FloatType
  | .i32 => .f32
  | .i64 => .f64

/-- The integer type of the width of a float type. -/
def FloatType.sameWidth : FloatType → IntType
  | .f32 => .i32
  | .f64 => .i64

/-- Type of the number that a conversion takes. -/
def Conversion.source : Conversion → ValueType
  | .wrap => .i64
  | .extend _ => .i32
  | .truncate _ source _ => source.toValueType
  | .convert _ source _ => source.toValueType
  | .demote => .f64
  | .promote => .f32
  | .floatBits source => source.toValueType
  | .intBits source => source.toValueType

/-- Type of the number that a conversion gives. -/
def Conversion.target : Conversion → ValueType
  | .wrap => .i32
  | .extend _ => .i64
  | .truncate target _ _ => target.toValueType
  | .convert target _ _ => target.toValueType
  | .demote => .f32
  | .promote => .f64
  | .floatBits source => source.sameWidth.toValueType
  | .intBits source => source.sameWidth.toValueType

/-- Operand types, the one on top of the stack last. -/
def Numeric.operands : Numeric → List ValueType
  | .eqz t => [t.toValueType]
  | .intCompare t _ => [t.toValueType, t.toValueType]
  | .floatCompare t _ => [t.toValueType, t.toValueType]
  | .intUnary t _ => [t.toValueType]
  | .intBinary t _ => [t.toValueType, t.toValueType]
  | .floatUnary t _ => [t.toValueType]
  | .floatBinary t _ => [t.toValueType, t.toValueType]
  | .conversion c => [c.source]

/-- Result type. -/
def Numeric.result : Numeric → ValueType
  | .eqz _ => .i32
  | .intCompare _ _ => .i32
  | .floatCompare _ _ => .i32
  | .intUnary t _ => t.toValueType
  | .intBinary t _ => t.toValueType
  | .floatUnary t _ => t.toValueType
  | .floatBinary t _ => t.toValueType
  | .conversion c => c.target

end WebAssembly
