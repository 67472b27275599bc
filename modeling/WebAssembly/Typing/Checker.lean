import WebAssembly.Instruction.Basic
import WebAssembly.Stack
import WebAssembly.Typing.Error

/-!
# The operand checker

Checking a body runs it over types. The state holds what is known of each operand and a frame for
each construct that is open. Operands below the height of the innermost frame belong to the
constructs around it and cannot be popped. Behind an instruction that never falls through the frame
is marked unreachable, and then popping at its height gives an operand of unknown type.
-/

namespace WebAssembly

/-- What is known of an operand. -/
inductive Operand where
  | known (type : ValueType)
  | unknown
deriving DecidableEq

/-- An open construct: what it must leave, and the number of operands below it. -/
structure ControlFrame where
  kind : Construct
  results : List ValueType
  height : Nat
  unreachable : Bool
deriving DecidableEq

/-- Types that a branch to a frame carries: none to a loop, which starts over, else the results. -/
def ControlFrame.labelTypes (frame : ControlFrame) : List ValueType :=
  if frame.kind = .loop then [] else frame.results

/-- The state: operands, and frames with the innermost one first. -/
structure Checker where
  operands : Stack Operand
  frames : List ControlFrame

/-- A checking step. -/
abbrev Check (α : Type) : Type := EStateM ValidationError Checker α

namespace Check

/-- Puts an operand on top. -/
def push (o : Operand) : Check Unit :=
  modify fun c => { c with operands := c.operands.push o }

/-- Puts operands of the given types on top, the last one topmost. -/
def pushTypes (ts : List ValueType) : Check Unit :=
  modify fun c => { c with operands := c.operands.pushAll (ts.map .known) }

/-- Takes the top operand off. -/
def pop : Check Operand := fun c =>
  match c.frames with
  | [] => .error .typeMismatch c
  | frame :: _ =>
    if c.operands.size = frame.height then
      if frame.unreachable then .ok .unknown c else .error .typeMismatch c
    else
      match c.operands.pop? with
      | none => .error .typeMismatch c
      | some (o, rest) => .ok o { c with operands := rest }

/-- Two operands can be of one type. -/
def compatible (a b : Operand) : Bool :=
  a == b || a == .unknown || b == .unknown

/-- Takes the top operand off, which must be able to be `expected`. -/
def popOperand (expected : Operand) : Check Operand := do
  let o ← pop
  if compatible o expected then return o else throw .typeMismatch

/-- Takes an operand of type `t` off. -/
def popType (t : ValueType) : Check Unit := do
  let _ ← popOperand (.known t)

/-- Takes operands of the given types off, the last one first. -/
def popTypes (ts : List ValueType) : Check Unit :=
  ts.reverse.forM popType

/-- Opens a construct. -/
def pushFrame (kind : Construct) (results : List ValueType) : Check Unit :=
  modify fun c =>
    { c with frames := ⟨kind, results, c.operands.size, false⟩ :: c.frames }

/-- Closes the innermost construct, whose results must be all that it left, and gives these. -/
def popFrame : Check (List ValueType) := do
  match (← get).frames with
  | [] => throw .typeMismatch
  | frame :: outer =>
    popTypes frame.results
    modify fun c => { c with frames := outer }
    if (← get).operands.size = frame.height then return frame.results
    else throw .typeMismatch

/-- Marks the rest of the innermost construct unreachable and drops its operands. -/
def markUnreachable : Check Unit := do
  match (← get).frames with
  | [] => throw .typeMismatch
  | frame :: outer =>
    modify fun c =>
      { operands := c.operands.truncate frame.height
        frames := { frame with unreachable := true } :: outer }

/-- Types that a branch to the label carries. -/
def labelTypes (label : UInt32) : Check (List ValueType) := do
  match (← get).frames[label.toNat]? with
  | some frame => return frame.labelTypes
  | none => throw (.unknownLabel label)

end Check

end WebAssembly
