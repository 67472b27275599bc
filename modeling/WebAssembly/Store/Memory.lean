import WebAssembly.Instruction.Basic
import WebAssembly.Bytes
import WebAssembly.Store.Error

/-!
# Memories

A memory is a whole number of pages of bytes, with an upper bound if it was declared with one. An
access either lies inside it or traps; it grows by whole pages of zeros or not at all.
-/

namespace WebAssembly

/-- A memory: its bytes, and the most pages it was declared to have. -/
structure Memory where
  bytes : Array UInt8
  max : Option UInt32

namespace Memory

/-- A memory of the given type: as many pages of zeros as it starts with. -/
def ofType (t : MemoryType) : Except RuntimeError Memory :=
  if maxPages < t.limits.min.toNat then .error .memoryTooBig
  else .ok ⟨Array.replicate (t.limits.min.toNat * pageSize) 0, t.limits.max⟩

/-- Number of bytes. -/
def size (m : Memory) : Nat :=
  m.bytes.size

/-- Number of pages. -/
def pages (m : Memory) : Nat :=
  m.size / pageSize

/-- The most pages it can have. -/
def capacity (m : Memory) : Nat :=
  match m.max with
  | some max => min max.toNat maxPages
  | none => maxPages

/-- The type it has now: its size is the lower bound. -/
def type (m : Memory) : MemoryType :=
  ⟨⟨UInt32.ofNat m.pages, m.max⟩⟩

/-- It has room for `delta` more pages. -/
def canGrow (m : Memory) (delta : UInt32) : Bool :=
  decide (m.pages + delta.toNat ≤ m.capacity)

/-- It with `delta` more pages of zeros. -/
def grow (m : Memory) (delta : UInt32) : Memory :=
  { m with bytes := m.bytes ++ Array.replicate (delta.toNat * pageSize) 0 }

/-- The bytes from `start` up to `start + count` lie inside. -/
def inBounds (m : Memory) (start count : Nat) : Bool :=
  decide (start + count ≤ m.size)

/-- The `count` bytes from `start` on. -/
def read (m : Memory) (start count : Nat) : List UInt8 :=
  (m.bytes.extract start (start + count)).toList

end Memory

/-- The array with the given bytes from `start` on, as far as it reaches. -/
def overwrite {α : Type} (xs : Array α) (start : Nat) : List α → Array α
  | [] => xs
  | b :: bs => overwrite (xs.setIfInBounds start b) (start + 1) bs

namespace Memory

/-- It with the given bytes from `start` on. -/
def write (m : Memory) (start : Nat) (bs : List UInt8) : Memory :=
  { m with bytes := overwrite m.bytes start bs }

/-- The `count` bytes from `start` on, if they lie inside. -/
def read? (m : Memory) (start count : Nat) : Except Trap (List UInt8) :=
  if m.inBounds start count then .ok (m.read start count) else .error .outOfBoundsMemoryAccess

/-- It with the given bytes from `start` on, if they fit inside. -/
def write? (m : Memory) (start : Nat) (bs : List UInt8) : Except Trap Memory :=
  if m.inBounds start bs.length then .ok (m.write start bs) else .error .outOfBoundsMemoryAccess

/-- Number of pages before growing, and it with `delta` more pages. -/
def grow? (m : Memory) (delta : UInt32) : Except RuntimeError (Nat × Memory) :=
  if m.canGrow delta then .ok (m.pages, m.grow delta) else .error .memoryTooBig

/-- The place an access acts on: a base read as unsigned, and a static offset. -/
def address (base : BitVec 32) (arg : MemArg) : Nat :=
  base.toNat + arg.offset.toNat

end Memory

/-- The value that a load makes of the bytes it read. -/
def LoadOp.value (op : LoadOp) (bs : List UInt8) : Value :=
  let raw := BitVec.ofNat (8 * op.bytes) (littleEndian bs)
  Value.ofBits op.type <|
    match op.sign with
    | .signed => raw.signExtend op.type.width
    | .unsigned => raw.setWidth op.type.width

/-- The bytes that a store writes. -/
def StoreOp.encode (op : StoreOp) (v : Value) : List UInt8 :=
  littleEndianBytes op.bytes v.toNat

end WebAssembly
