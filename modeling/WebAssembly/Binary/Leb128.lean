import WebAssembly.Binary.Reader

/-!
# LEB128 numbers

LEB128 numbers are groups of seven bits, lowest group first, in bytes of which all but the last have
their high bit set. There is no bound on their length: bits beyond the word are dropped, so an
overlong form denotes the same number.
-/

namespace WebAssembly

namespace Leb128

/-- What was read of a number: the word so far, the number of bits filled, and the last byte. -/
structure Scan where
  word : BitVec 64
  filled : Nat
  last : UInt8
  rest : List UInt8

/-- Reads groups of seven bits into `word` from bit `filled` on, up to the first byte without its
high bit; nothing if there is no such byte. -/
def scan : (bytes : List UInt8) → (word : BitVec 64) → (filled : Nat) → Option Scan
  | [], _, _ => none
  | b :: rest, word, filled =>
    let word :=
      if filled < 64 then word ||| (b.toBitVec &&& 0x7f#8).setWidth 64 <<< filled else word
    if b &&& 0x80 = 0 then some ⟨word, filled + 7, b, rest⟩ else scan rest word (filled + 7)

/-- The word read as a signed number: bits not filled, if there are any, are copies of the highest
bit of the last group. -/
def Scan.signed (s : Scan) : BitVec 64 :=
  if s.filled < 64 ∧ s.last &&& 0x40 ≠ 0 then s.word ||| BitVec.allOnes 64 <<< s.filled
  else s.word

end Leb128

namespace Decoder

/-- The groups of the next number. -/
def leb128 : Decoder Leb128.Scan := fun r =>
  match Leb128.scan r.unread 0#64 0 with
  | some s => .ok s (r.advance (s.filled / 7) s.rest)
  | none => .error .unexpectedEof (r.advance r.unread.length [])

/-- An unsigned 64-bit number. -/
def u64 : Decoder (BitVec 64) := do
  return (← leb128).word

/-- A signed 64-bit number. -/
def s64 : Decoder (BitVec 64) := do
  return (← leb128).signed

/-- An unsigned 32-bit number: the low half of a 64-bit one. -/
def u32 : Decoder UInt32 := do
  return UInt32.ofBitVec ((← u64).setWidth 32)

/-- A signed 32-bit number: the low half of a 64-bit one. -/
def s32 : Decoder (BitVec 32) := do
  return (← s64).setWidth 32

end Decoder

end WebAssembly
