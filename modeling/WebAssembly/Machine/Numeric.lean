import WebAssembly.Instruction.Numeric
import WebAssembly.Integer
import WebAssembly.Machine.Stack

/-!
# Numeric operators on the stack

The meaning of every operator on its operands (`eval`), and its execution, which takes the operands
off, the second one first, and puts the result on. Operators that are undefined on some operands
trap there.
-/

namespace WebAssembly

/-! ## Integers -/

/-- The result of an integer operator of one operand. -/
def IntUnary.eval {w : Nat} (x : BitVec w) : IntUnary → BitVec w
  | .clz => Integer.clz x
  | .ctz => Integer.ctz x
  | .popcnt => Integer.popcnt x

/-- The result of an integer operator of two operands. Division by zero traps, and so does the one
signed quotient that is out of range. -/
def IntBinary.eval {w : Nat} (x y : BitVec w) : IntBinary → Except Trap (BitVec w)
  | .add => .ok (x + y)
  | .sub => .ok (x - y)
  | .mul => .ok (x * y)
  | .div .signed =>
    if y = 0 then .error .divisionByZero
    else if x = BitVec.intMin w ∧ y = -1 then .error .integerOverflow
    else .ok (x.sdiv y)
  | .div .unsigned => if y = 0 then .error .divisionByZero else .ok (x.udiv y)
  | .rem .signed => if y = 0 then .error .divisionByZero else .ok (x.srem y)
  | .rem .unsigned => if y = 0 then .error .divisionByZero else .ok (x.umod y)
  | .and => .ok (x &&& y)
  | .or => .ok (x ||| y)
  | .xor => .ok (x ^^^ y)
  | .shl => .ok (Integer.shl x y)
  | .shr .signed => .ok (Integer.shrS x y)
  | .shr .unsigned => .ok (Integer.shrU x y)
  | .rotl => .ok (Integer.rotl x y)
  | .rotr => .ok (Integer.rotr x y)

/-- Whether an integer comparison holds. -/
def IntCompare.eval {w : Nat} (x y : BitVec w) : IntCompare → Bool
  | .eq => x == y
  | .ne => x != y
  | .lt .signed => x.slt y
  | .lt .unsigned => x.ult y
  | .gt .signed => y.slt x
  | .gt .unsigned => y.ult x
  | .le .signed => x.sle y
  | .le .unsigned => x.ule y
  | .ge .signed => y.sle x
  | .ge .unsigned => y.ule x

/-! ## Floats -/

/-- The result of a float operator of one operand. -/
def FloatUnary.eval (t : FloatType) (a : t.Bits) : FloatUnary → t.Bits
  | .abs => t.abs a
  | .neg => t.neg a
  | .ceil => t.roundToInt .up a
  | .floor => t.roundToInt .down a
  | .trunc => t.roundToInt .towardZero a
  | .nearest => t.roundToInt .nearest a
  | .sqrt => t.sqrt a

/-- The result of a float operator of two operands. -/
def FloatBinary.eval (t : FloatType) (a b : t.Bits) : FloatBinary → t.Bits
  | .add => t.add a b
  | .sub => t.sub a b
  | .mul => t.mul a b
  | .div => t.div a b
  | .min => t.min a b
  | .max => t.max a b
  | .copysign => t.copysign a b

/-- Whether a float comparison holds. With a NaN only `ne` does. -/
def FloatCompare.eval (t : FloatType) (a b : t.Bits) (op : FloatCompare) : Bool :=
  match op, t.compare? a b with
  | .eq, o => o == some .eq
  | .ne, o => o != some .eq
  | .lt, o => o == some .lt
  | .gt, o => o == some .gt
  | .le, o => o == some .lt || o == some .eq
  | .ge, o => o == some .gt || o == some .eq

/-! ## Conversions -/

/-- The integer that bits stand for under the given reading. -/
def Sign.toInt (sign : Sign) {w : Nat} (x : BitVec w) : Int :=
  match sign with
  | .signed => x.toInt
  | .unsigned => x.toNat

/-- The least or the greatest of the integers that `w` bits can hold. -/
def Sign.limit (sign : Sign) (w : Nat) (least : Bool) : Int :=
  match sign, least with
  | .signed, true => -((1 <<< (w - 1) : Nat) : Int)
  | .signed, false => ((1 <<< (w - 1) : Nat) : Int) - 1
  | .unsigned, true => 0
  | .unsigned, false => ((1 <<< w : Nat) : Int) - 1

/-- The nearest of the integers that `w` bits can hold. -/
def Sign.clamp (sign : Sign) (w : Nat) (n : Int) : Int :=
  max (sign.limit w true) (min n (sign.limit w false))

/-- The cast of a float to `w` bits. It drops the fraction, goes to the nearer end of the range
where the number is out of range, and gives zero for a NaN. -/
def FloatType.saturate (t : FloatType) (sign : Sign) (w : Nat) (a : t.Bits) : BitVec w :=
  match t.datum a with
  | .nan => 0
  | .infinite s => BitVec.ofInt w (sign.limit w s)
  | .finite s m e => BitVec.ofInt w (sign.clamp w (FloatType.truncate s m e))

/-- The `f64` that is two to the power of 31. -/
def twoPow31 : FloatType.f64.Bits := FloatType.f64.ofInt 2147483648

/-- The `f64` that is two to the power of 32. -/
def twoPow32 : FloatType.f64.Bits := FloatType.f64.ofInt 4294967296

/-- The `f64` that is two to the power of 63. -/
def twoPow63 : FloatType.f64.Bits := FloatType.f64.ofInt 9223372036854775808

/-- The `f64` that is two to the power of 64. -/
def twoPow64 : FloatType.f64.Bits := FloatType.f64.ofInt 18446744073709551616

/-- The least float that truncation accepts once the fraction is dropped. -/
def IntType.leastFloat : IntType → Sign → FloatType.f64.Bits
  | .i32, .signed => FloatType.f64.neg twoPow31
  | .i64, .signed => FloatType.f64.neg twoPow63
  | _, .unsigned => FloatType.f64.zero false

/-- The float from which on truncation refuses. It is a power of two and so exact, where the
greatest integer of 64 bits is not. -/
def IntType.floatBound : IntType → Sign → FloatType.f64.Bits
  | .i32, .signed => twoPow31
  | .i32, .unsigned => twoPow32
  | .i64, .signed => twoPow63
  | .i64, .unsigned => twoPow64

/-- Drops the fraction of a float, which must then be at least `least` and below `bound`. -/
def truncateWithin (least bound x : FloatType.f64.Bits) : Except Trap FloatType.f64.Bits :=
  if FloatType.f64.isNaN x then .error .invalidConversion
  else
    let whole := FloatType.f64.roundToInt .towardZero x
    if FloatCompare.lt.eval .f64 whole least || FloatCompare.ge.eval .f64 whole bound then
      .error .integerOverflow
    else .ok whole

/-- A float without its fraction as an integer. The range is tested on floats, all of them as `f64`,
and the cast comes last. -/
def FloatType.toInteger (t : FloatType) (sign : Sign) (target : IntType) (a : t.Bits) :
    Except Trap (BitVec target.width) := do
  let whole ← truncateWithin (target.leastFloat sign) (target.floatBound sign) (t.widen a)
  return FloatType.f64.saturate sign target.width whole

/-- A value with the same bits and another type. -/
def Value.reinterpret (t : ValueType) (v : Value) : Value :=
  Value.ofBits t (BitVec.ofNat t.width v.toNat)

/-! ## Execution -/

namespace OnStack

/-- Goes on with a result or traps. -/
def orTrap {α : Type} : Except Trap α → OnStack α
  | .ok a => return a
  | .error trap => throw (.trap trap)

/-- Puts one on if a test holds, else zero. -/
def pushBool (b : Bool) : OnStack Unit :=
  push (.i32 (if b then 1 else 0))

/-- Executes a conversion. -/
def conversion : Conversion → OnStack Unit
  | .wrap => do
    let x ← popInt .i64
    push (.i32 (x.setWidth 32))
  | .extend sign => do
    let x ← popInt .i32
    push (.i64 (BitVec.ofInt 64 (sign.toInt x)))
  | .truncate target source sign => do
    let a ← popFloat source
    let x ← orTrap (source.toInteger sign target a)
    push (.int target x)
  | .convert target source sign => do
    let x ← popInt source
    push (.float target (target.ofInt (sign.toInt x)))
  | .demote => do
    let a ← popFloat .f64
    push (.f32 (FloatType.convert .f64 .f32 a))
  | .promote => do
    let a ← popFloat .f32
    push (.f64 (FloatType.convert .f32 .f64 a))
  | .floatBits source => do
    let a ← popFloat source
    push ((Value.float source a).reinterpret source.sameWidth.toValueType)
  | .intBits source => do
    let x ← popInt source
    push ((Value.int source x).reinterpret source.sameWidth.toValueType)

/-- Executes a numeric operator. -/
def numeric : Numeric → OnStack Unit
  | .eqz t => do
    let x ← popInt t
    pushBool (x == 0)
  | .intCompare t op => do
    let y ← popInt t
    let x ← popInt t
    pushBool (op.eval x y)
  | .floatCompare t op => do
    let b ← popFloat t
    let a ← popFloat t
    pushBool (op.eval t a b)
  | .intUnary t op => do
    let x ← popInt t
    push (.int t (op.eval x))
  | .intBinary t op => do
    let y ← popInt t
    let x ← popInt t
    let r ← orTrap (op.eval x y)
    push (.int t r)
  | .floatUnary t op => do
    let a ← popFloat t
    push (.float t (op.eval t a))
  | .floatBinary t op => do
    let b ← popFloat t
    let a ← popFloat t
    push (.float t (op.eval t a b))
  | .conversion c => conversion c

end OnStack

end WebAssembly
