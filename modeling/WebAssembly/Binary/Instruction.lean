import WebAssembly.Binary.Vector

/-!
# Decoding of instructions

An opcode is followed by its immediates, and that of a `block`, `loop` or `if` by its bodies. Each
body runs up to an `end`; the first body of an `if` may end in an `else` instead, and then a second
body follows. Every instruction takes at least one byte, so the number of bytes left bounds the
recursion (`Decoder.instruction`, `Decoder.expr`).
-/

namespace WebAssembly

namespace Decoder

/-- The byte that ends a body. -/
def endCode : UInt8 := 0x0b

/-- The byte between the bodies of an `if`. -/
def elseCode : UInt8 := 0x05

/-- The byte that ends a sequence, which may be `else` only if `allowElse` holds. -/
def sequenceEnd (allowElse : Bool) : Decoder UInt8 :=
  expect (if allowElse then [elseCode, endCode] else [endCode]) "end of instruction sequence"

/-- The immediate of a memory access. -/
def memArg : Decoder MemArg := do
  let align ← u32
  let offset ← u32
  return ⟨align, offset⟩

/-- The type of a `block`, `loop` or `if`. -/
def blockType : Decoder BlockType := do
  let b ← byte
  if b = 0x40 then return .empty
  match ValueType.ofCode? b with
  | some t => return .value t
  | none => throw (.invalidValueType b)

/-- A byte that must be zero. -/
def reserved (context : String) : Decoder Unit := do
  let _ ← expect [0x00] context

/-- The immediates of the plain instruction with opcode `b`. -/
def plain (b : UInt8) : Decoder Plain :=
  match b with
  | 0x1a => return .drop
  | 0x1b => return .select
  | 0x20 => return .localGet (← u32)
  | 0x21 => return .localSet (← u32)
  | 0x22 => return .localTee (← u32)
  | 0x23 => return .globalGet (← u32)
  | 0x24 => return .globalSet (← u32)
  | 0x3f => do
    reserved "memory.size reserved byte"
    return .memorySize
  | 0x40 => do
    reserved "memory.grow reserved byte"
    return .memoryGrow
  | 0x41 => return .const (.i32 (← s32))
  | 0x42 => return .const (.i64 (← s64))
  | 0x43 => return .const (.f32 (← float .f32))
  | 0x44 => return .const (.f64 (← float .f64))
  | _ =>
    match LoadOp.ofOpcode? b, StoreOp.ofOpcode? b, Numeric.ofOpcode? b with
    | some op, _, _ => return .load op (← memArg)
    | _, some op, _ => return .store op (← memArg)
    | _, _, some op => return .numeric op
    | _, _, _ => throw (.invalidOpcode b)

/-- The immediates of the instruction with opcode `b`, if that has no body. -/
def bodiless (b : UInt8) : Decoder Instruction :=
  match b with
  | 0x00 => return .unreachable
  | 0x01 => return .nop
  | 0x0c => return .br (← u32)
  | 0x0d => return .brIf (← u32)
  | 0x0e => do
    let labels ← boundedVec .branchLabels u32
    return .brTable labels (← u32)
  | 0x0f => return .ret
  | 0x10 => return .call (← u32)
  | 0x11 => do
    let type ← u32
    reserved "call_indirect reserved byte"
    return .callIndirect type
  | _ => return .plain (← plain b)

mutual

/-- One instruction, if `fuel` suffices. -/
def instructionAux : (fuel : Nat) → Decoder Instruction
  | 0 => throw .unexpectedEof
  | fuel + 1 => do
    let b ← byte
    match b with
    | 0x02 => do
      let type ← blockType
      enter
      let (body, _) ← sequenceAux fuel false []
      leave
      return .block type body
    | 0x03 => do
      let type ← blockType
      enter
      let (body, _) ← sequenceAux fuel false []
      leave
      return .loop type body
    | 0x04 => do
      let type ← blockType
      enter
      let (thenBody, terminator) ← sequenceAux fuel true []
      let elseBody ←
        if terminator = elseCode then do
          let (body, _) ← sequenceAux fuel false []
          pure body
        else pure []
      leave
      return .ifElse type thenBody elseBody
    | _ => bodiless b

/-- Instructions up to the byte that ends them, put behind those of `acc`, which are held in
reverse; `else` ends them only if `allowElse` holds. The byte itself is part of the result. -/
def sequenceAux : (fuel : Nat) → (allowElse : Bool) → (acc : List Instruction) →
    Decoder (List Instruction × UInt8)
  | 0, _, _ => throw .unexpectedEof
  | fuel + 1, allowElse, acc => do
    match ← peek with
    | none => throw .unexpectedEof
    | some b =>
      if b = endCode || (b = elseCode && allowElse) then do
        let terminator ← sequenceEnd allowElse
        return (acc.reverse, terminator)
      else do
        let i ← instructionAux fuel
        sequenceAux fuel allowElse (i :: acc)

end

/-- Fuel that reading `n` bytes cannot use up: one unit for each instruction and one for each place
in a sequence. -/
def fuelFor (n : Nat) : Nat :=
  2 * n + 2

/-- One instruction with the bodies in it. -/
def instruction : Decoder Instruction :=
  fun r => instructionAux (fuelFor r.unread.length) r

/-- A body and its `end`. -/
def expr : Decoder Expr := do
  let (body, _) ← (fun r => sequenceAux (fuelFor r.unread.length) false [] r)
  return body

end Decoder

end WebAssembly
