import WebAssembly.Float.Arithmetic

/-!
# Values

A value is a type and as many bits. Integers are read as signed or unsigned by the operations on
them, floats keep their bits, NaN payloads included. Equality of values in Lean is equality of bits;
`Value.numericEq` is equality of numbers. How floats are written is left open (`FloatPrinter`), here
and in all texts with values in them.
-/

namespace WebAssembly

/-- A way to write floats. -/
class FloatPrinter where
  /-- The text of a bit pattern. -/
  text : (t : FloatType) → t.Bits → String

/-- A value of one of the four number types. -/
inductive Value where
  | i32 (bits : BitVec 32)
  | i64 (bits : BitVec 64)
  | f32 (bits : BitVec 32)
  | f64 (bits : BitVec 64)
deriving DecidableEq

namespace Value

/-- The type of a value. -/
def type : Value → ValueType
  | .i32 _ => .i32
  | .i64 _ => .i64
  | .f32 _ => .f32
  | .f64 _ => .f64

/-- The value of a type with the given bits. -/
def ofBits : (t : ValueType) → BitVec t.width → Value
  | .i32, b => .i32 b
  | .i64, b => .i64 b
  | .f32, b => .f32 b
  | .f64, b => .f64 b

/-- The bits of a value as a number. -/
def toNat : Value → Nat
  | .i32 b => b.toNat
  | .i64 b => b.toNat
  | .f32 b => b.toNat
  | .f64 b => b.toNat

/-- The integer of a type with the given bits. -/
def int : (t : IntType) → BitVec t.width → Value
  | .i32, b => .i32 b
  | .i64, b => .i64 b

/-- The float of a type with the given bits. -/
def float : (t : FloatType) → t.Bits → Value
  | .f32, b => .f32 b
  | .f64, b => .f64 b

/-- The bits of an integer of type `t`. -/
def int? : (t : IntType) → Value → Option (BitVec t.width)
  | .i32, .i32 b => some b
  | .i64, .i64 b => some b
  | _, _ => none

/-- The bits of a float of type `t`. -/
def float? : (t : FloatType) → Value → Option t.Bits
  | .f32, .f32 b => some b
  | .f64, .f64 b => some b
  | _, _ => none

/-- The value that locals of a type start with. -/
def zero : ValueType → Value
  | .i32 => .i32 0
  | .i64 => .i64 0
  | .f32 => .f32 0
  | .f64 => .f64 0

/-- Equality of numbers: values of one type, integers with equal bits, floats that compare equal. -/
def numericEq : Value → Value → Bool
  | .i32 a, .i32 b => a == b
  | .i64 a, .i64 b => a == b
  | .f32 a, .f32 b => FloatType.eq .f32 a b
  | .f64 a, .f64 b => FloatType.eq .f64 a b
  | _, _ => false

variable [FloatPrinter]

/-- The number alone: signed decimal for integers, and floats as the printer writes them. -/
def numberText : Value → String
  | .i32 b => toString b.toInt
  | .i64 b => toString b.toInt
  | .f32 b => FloatPrinter.text .f32 b
  | .f64 b => FloatPrinter.text .f64 b

/-- The type, a colon and the number. -/
def text (v : Value) : String :=
  v.type.text ++ ":" ++ v.numberText

end Value

end WebAssembly
