/-!
# Hexadecimal text

Digits are lower case. A byte takes two digits.
-/

namespace WebAssembly.Text

/-- The digit of a number below 16. -/
def hexDigit (n : Nat) : Char :=
  "0123456789abcdef".toList.getD n '0'

/-- The last `count` hexadecimal digits of `n`, leading zeros included. -/
def hexDigits : (count n : Nat) → List Char
  | 0, _ => []
  | count + 1, n => hexDigits count (n / 16) ++ [hexDigit (n % 16)]

/-- `n` in hexadecimal without leading zeros. -/
def hex (n : Nat) : String :=
  String.ofList (hexDigits (Nat.log2 n / 4 + 1) n)

/-- `n` in exactly `count` hexadecimal digits. -/
def hexPadded (count n : Nat) : String :=
  String.ofList (hexDigits count n)

/-- A byte in two digits. -/
def hexByte (b : UInt8) : String :=
  hexPadded 2 b.toNat

/-- Bytes one after the other, two digits each. -/
def hexBytes (bs : List UInt8) : String :=
  String.join (bs.map hexByte)

/-- Bytes in square brackets, separated by a comma and a blank. -/
def byteList (bs : List UInt8) : String :=
  "[" ++ String.intercalate ", " (bs.map hexByte) ++ "]"

/-- A byte as a number: `0x` and two digits. -/
def byteNumber (b : UInt8) : String :=
  "0x" ++ hexByte b

end WebAssembly.Text
