import WebAssembly.Types

/-!
# Floats as bit patterns

A float is its bits: a sign, a biased exponent field and a fraction field. `Datum` is what the bits
denote: no number, an infinity, or the exact number `± significand * 2 ^ exponent`. Two patterns of
one number are never confused, since all operations that must keep bits act on the pattern.
-/

namespace WebAssembly

/-- Number of bits of the fraction field. -/
def FloatType.fractionBits : FloatType → Nat
  | .f32 => 23
  | .f64 => 52

/-- Number of bits of the exponent field. -/
def FloatType.exponentBits : FloatType → Nat
  | .f32 => 8
  | .f64 => 11

/-- Exponent of the lowest bit of the smallest numbers: a pattern whose exponent field is 0 or 1
counts units of two to this power. -/
def FloatType.minExponent : FloatType → Int
  | .f32 => -149
  | .f64 => -1074

/-- Exponent field of infinities and NaNs: all ones. -/
def FloatType.maxField : FloatType → Nat
  | .f32 => 255
  | .f64 => 2047

/-- What a bit pattern denotes. -/
inductive Datum where
  | nan
  | infinite (negative : Bool)
  | finite (negative : Bool) (significand : Nat) (exponent : Int)
deriving DecidableEq

namespace FloatType

/-- Bits of a float of type `t`. -/
abbrev Bits (t : FloatType) : Type := BitVec t.width

/-- The sign bit. -/
def sign (t : FloatType) (b : t.Bits) : Bool :=
  b.toNat.testBit (t.width - 1)

/-- The exponent field. -/
def exponentField (t : FloatType) (b : t.Bits) : Nat :=
  (b.toNat >>> t.fractionBits) % (1 <<< t.exponentBits)

/-- The fraction field. -/
def fractionField (t : FloatType) (b : t.Bits) : Nat :=
  b.toNat % (1 <<< t.fractionBits)

/-- The pattern without its sign bit. -/
def magnitude (t : FloatType) (b : t.Bits) : Nat :=
  b.toNat % (1 <<< (t.width - 1))

/-- The pattern with the given sign and magnitude. -/
def ofMagnitude (t : FloatType) (negative : Bool) (m : Nat) : t.Bits :=
  BitVec.ofNat t.width ((if negative then 1 <<< (t.width - 1) else 0) + m)

/-- Magnitude of the infinities. -/
def infinityMagnitude (t : FloatType) : Nat :=
  t.maxField <<< t.fractionBits

/-- The NaN with a clear sign and only the quiet bit set in its fraction. -/
def canonicalNaN (t : FloatType) : t.Bits :=
  t.ofMagnitude false (t.infinityMagnitude + 1 <<< (t.fractionBits - 1))

/-- All exponent bits set and a fraction that is not zero. -/
def isNaN (t : FloatType) (b : t.Bits) : Bool :=
  t.exponentField b == t.maxField && t.fractionField b != 0

/-- What the pattern denotes. A pattern with exponent field 0 has no leading one. -/
def datum (t : FloatType) (b : t.Bits) : Datum :=
  let e := t.exponentField b
  let f := t.fractionField b
  if e = t.maxField then
    if f = 0 then .infinite (t.sign b) else .nan
  else if e = 0 then
    .finite (t.sign b) f t.minExponent
  else
    .finite (t.sign b) (1 <<< t.fractionBits + f) (t.minExponent + (e - 1 : Nat))

/-! ## Operations on the sign -/

/-- Clears the sign. -/
def abs (t : FloatType) (b : t.Bits) : t.Bits :=
  t.ofMagnitude false (t.magnitude b)

/-- Flips the sign. -/
def neg (t : FloatType) (b : t.Bits) : t.Bits :=
  t.ofMagnitude (!t.sign b) (t.magnitude b)

/-- The magnitude of the first under the sign of the second. -/
def copysign (t : FloatType) (a b : t.Bits) : t.Bits :=
  t.ofMagnitude (t.sign b) (t.magnitude a)

end FloatType

end WebAssembly
