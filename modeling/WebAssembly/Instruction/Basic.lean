import WebAssembly.Instruction.Numeric
import WebAssembly.Value

/-!
# Instructions

A body is a list of instructions. `block`, `loop` and `if` hold their bodies, so nesting is in the
type and there are no `else` or `end` markers. Instructions that do not direct control are
`Plain`: they act on the operand stack, the locals and the store, and then the next one follows.
-/

namespace WebAssembly

/-- Immediate of a memory access: alignment hint as a power of two, and static offset. -/
structure MemArg where
  align : UInt32
  offset : UInt32
deriving DecidableEq

/-- Memory loads. All but `full` read fewer bytes than the result has and extend them. -/
inductive LoadOp where
  | full (type : ValueType)
  | byte (type : IntType) (sign : Sign)
  | half (type : IntType) (sign : Sign)
  | word (sign : Sign)
deriving DecidableEq

/-- Memory stores. All but `full` write only the low bytes of the operand. -/
inductive StoreOp where
  | full (type : ValueType)
  | byte (type : IntType)
  | half (type : IntType)
  | word
deriving DecidableEq

/-- Number of bytes of a value. -/
def ValueType.bytes : ValueType → Nat
  | .i32 => 4
  | .i64 => 8
  | .f32 => 4
  | .f64 => 8

namespace LoadOp

/-- Type of the loaded value. -/
def type : LoadOp → ValueType
  | .full t => t
  | .byte t _ => t.toValueType
  | .half t _ => t.toValueType
  | .word _ => .i64

/-- Number of bytes read. -/
def bytes : LoadOp → Nat
  | .full t => t.bytes
  | .byte _ _ => 1
  | .half _ _ => 2
  | .word _ => 4

/-- How the bytes read are extended to the width of the result. -/
def sign : LoadOp → Sign
  | .full _ => .unsigned
  | .byte _ s => s
  | .half _ s => s
  | .word s => s

end LoadOp

namespace StoreOp

/-- Type of the stored operand. -/
def type : StoreOp → ValueType
  | .full t => t
  | .byte t => t.toValueType
  | .half t => t.toValueType
  | .word => .i64

/-- Number of bytes written. -/
def bytes : StoreOp → Nat
  | .full t => t.bytes
  | .byte _ => 1
  | .half _ => 2
  | .word => 4

end StoreOp

/-- Instructions after which the next one follows. -/
inductive Plain where
  | drop
  | select
  | localGet (index : UInt32)
  | localSet (index : UInt32)
  | localTee (index : UInt32)
  | globalGet (index : UInt32)
  | globalSet (index : UInt32)
  | load (op : LoadOp) (arg : MemArg)
  | store (op : StoreOp) (arg : MemArg)
  | memorySize
  | memoryGrow
  | const (value : Value)
  | numeric (op : Numeric)
deriving DecidableEq

/-- What a `block`, `loop` or `if` leaves on the stack: nothing or one value. -/
inductive BlockType where
  | empty
  | value (type : ValueType)
deriving DecidableEq

/-- Result types of a block type. -/
def BlockType.results : BlockType → List ValueType
  | .empty => []
  | .value t => [t]

/-- Number of results of a block type. -/
def BlockType.arity (b : BlockType) : Nat :=
  b.results.length

/-- The instructions. Branch targets count enclosing constructs from the innermost one. -/
inductive Instruction where
  | unreachable
  | nop
  | block (type : BlockType) (body : List Instruction)
  | loop (type : BlockType) (body : List Instruction)
  | ifElse (type : BlockType) (thenBody elseBody : List Instruction)
  | br (label : UInt32)
  | brIf (label : UInt32)
  | brTable (labels : List UInt32) (default : UInt32)
  | ret
  | call (func : UInt32)
  | callIndirect (type : UInt32)
  | plain (op : Plain)

/-- What a branch can target: a function as a whole, or a construct in it. -/
inductive Construct where
  | func | block | loop | ifElse
deriving DecidableEq

/-- A sequence of instructions: a function body, an initialiser, an offset. -/
abbrev Expr : Type := List Instruction

end WebAssembly
