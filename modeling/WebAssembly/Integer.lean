/-!
# Integer operations

Counts, shifts and rotations on words of any width `w`. A shift or rotation reads its second operand
modulo the width; a shift reads no more than the low 32 bits of it.
-/

namespace WebAssembly.Integer

variable {w : Nat}

/-- Number of zero bits above the highest one: all of them for zero. -/
def clz (x : BitVec w) : BitVec w :=
  BitVec.ofNat w (if x = 0#w then w else w - 1 - Nat.log2 x.toNat)

/-- Number of zero bits among the bits of `n` from bit 0 on, at most `fuel`. -/
def trailingZeros : (fuel n : Nat) → Nat
  | 0, _ => 0
  | fuel + 1, n => if n % 2 = 1 then 0 else trailingZeros fuel (n / 2) + 1

/-- Number of zero bits below the lowest one: all of them for zero. -/
def ctz (x : BitVec w) : BitVec w :=
  BitVec.ofNat w (trailingZeros w x.toNat)

/-- Number of one bits among the lowest `count` bits of `n`. -/
def ones : (count n : Nat) → Nat
  | 0, _ => 0
  | count + 1, n => n % 2 + ones count (n / 2)

/-- Number of one bits. -/
def popcnt (x : BitVec w) : BitVec w :=
  BitVec.ofNat w (ones w x.toNat)

/-- How far a shift by `y` goes: the low 32 bits of `y` modulo the width. -/
def shiftCount (y : BitVec w) : Nat :=
  (y.setWidth 32).toNat % w

/-- Shift left by `y` modulo the width. -/
def shl (x y : BitVec w) : BitVec w :=
  x <<< shiftCount y

/-- Shift right by `y` modulo the width, filling with zeros. -/
def shrU (x y : BitVec w) : BitVec w :=
  x >>> shiftCount y

/-- Shift right by `y` modulo the width, filling with the sign bit. -/
def shrS (x y : BitVec w) : BitVec w :=
  x.sshiftRight (shiftCount y)

/-- Rotation to the left by `y` modulo the width. -/
def rotl (x y : BitVec w) : BitVec w :=
  x.rotateLeft (y.toNat % w)

/-- Rotation to the right by `y` modulo the width. -/
def rotr (x y : BitVec w) : BitVec w :=
  x.rotateRight (y.toNat % w)

end WebAssembly.Integer
