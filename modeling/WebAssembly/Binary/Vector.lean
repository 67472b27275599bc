import WebAssembly.Binary.Leb128
import WebAssembly.Bytes
import WebAssembly.Instruction.Opcode

/-!
# Floats, vectors and names

A vector is the number of its items and then the items. A byte string is a vector of bytes, and a
name is a byte string in UTF-8.
-/

namespace WebAssembly

/-- The float that the bytes of a buffer stand for, lowest byte first. -/
def FloatType.ofLittleEndian (t : FloatType) (buffer : List UInt8) : t.Bits :=
  BitVec.ofNat t.width (littleEndian buffer)

namespace Decoder

/-- A float. Its bytes are read one at a time. -/
def float (t : FloatType) : Decoder t.Bits := do
  return t.ofLittleEndian (← replicate (t.width / 8) byte)

/-- A vector of items. -/
def vec {α : Type} (item : Decoder α) : Decoder (List α) := do
  let n ← u32
  replicate n.toNat item

/-- A vector of at most as many items as `bound` allows. -/
def boundedVec {α : Type} (bound : Bound) (item : Decoder α) : Decoder (List α) := do
  let n ← u32
  if bound.limit < n.toNat then throw (.limitExceeded bound)
  replicate n.toNat item

/-- A byte string. -/
def byteString : Decoder (List UInt8) := do
  let n ← u32
  bytes n.toNat

/-- A name. Its bytes are read also if they are not UTF-8. -/
def name : Decoder String := do
  let bs ← byteString
  match String.fromUTF8? bs.toByteArray with
  | some s => return s
  | none => throw (.invalidUtf8 bs)

/-- A value type. -/
def valueType : Decoder ValueType := do
  let b ← byte
  match ValueType.ofCode? b with
  | some t => return t
  | none => throw (.invalidValueType b)

end Decoder

end WebAssembly
