/-!
# Numbers as bytes

Numbers are written with their lowest byte first. `littleEndian` reads such bytes and
`littleEndianBytes` writes them.
-/

namespace WebAssembly

/-- The number whose bytes are given, lowest first. -/
def littleEndian : List UInt8 → Nat
  | [] => 0
  | b :: bs => b.toNat + 256 * littleEndian bs

/-- The `count` lowest bytes of a number, lowest first. -/
def littleEndianBytes : (count n : Nat) → List UInt8
  | 0, _ => []
  | count + 1, n => UInt8.ofNat n :: littleEndianBytes count (n / 256)

end WebAssembly
