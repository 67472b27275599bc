import WebAssembly.Text.Hex
import WebAssembly.Value

/-!
# Hexadecimal float text

`-0x1.8p+1`: sign, a leading one, the fraction without trailing zeros, and the exponent of two in
decimal with its sign. A NaN shows its fraction field unless only the quiet bit is set, so distinct
patterns of one type have distinct texts. Reports write floats in this way.
-/

namespace WebAssembly

namespace FloatType

/-- A decimal exponent, its sign always written. -/
def exponentText (e : Int) : String :=
  (if e < 0 then "-" else "+") ++ toString e.natAbs

/-- Digits without the zeros at their end. -/
def dropTrailingZeros (ds : List Char) : List Char :=
  (ds.reverse.dropWhile (· == '0')).reverse

/-- The fraction digits after the leading one of a significand: the fraction field of a number
scaled so that its highest bit has the place of the leading one, filled up to whole digits. -/
def fractionText (t : FloatType) (significand : Nat) : String :=
  let scaled := significand <<< (t.fractionBits - Nat.log2 significand)
  let digits := (t.fractionBits + 3) / 4
  let field := (scaled % (1 <<< t.fractionBits)) <<< (4 * digits - t.fractionBits)
  let ds := dropTrailingZeros (Text.hexDigits digits field)
  if ds.isEmpty then "" else "." ++ String.ofList ds

/-- Text of a bit pattern. -/
def numberText (t : FloatType) (b : t.Bits) : String :=
  (if t.sign b then "-" else "") ++
    match t.datum b with
    | .nan =>
      let f := t.fractionField b
      if f = 1 <<< (t.fractionBits - 1) then "nan" else "nan:0x" ++ Text.hex f
    | .infinite _ => "inf"
    | .finite _ m e =>
      if m = 0 then "0x0p+0"
      else "0x1" ++ t.fractionText m ++ "p" ++ exponentText (e + (Nat.log2 m : Nat))

end FloatType

/-- Floats in hexadecimal. -/
instance FloatPrinter.hexadecimal : FloatPrinter where
  text := FloatType.numberText

end WebAssembly
