import WebAssembly.Stack
import WebAssembly.Store.Error
import WebAssembly.Value

/-!
# The operand stack

Operations on a stack of values, written in `OnStack`, which keeps the stack as it is at a failure:
what was taken off before stays off.
-/

namespace WebAssembly

/-- An operation on the operand stack. -/
abbrev OnStack (α : Type) : Type := EStateM RuntimeError (Stack Value) α

namespace OnStack

/-- Puts a value on top. -/
def push (v : Value) : OnStack Unit :=
  modify (·.push v)

/-- Puts values on top, the last one topmost. -/
def pushAll (vs : List Value) : OnStack Unit :=
  modify (·.pushAll vs)

/-- Takes the top value off. -/
def pop : OnStack Value := fun stack =>
  match stack.pop? with
  | none => .error .stackUnderflow stack
  | some (v, rest) => .ok v rest

/-- Takes an integer off. A value of another type is off as well when this fails. -/
def popInt (t : IntType) : OnStack (BitVec t.width) := do
  let v ← pop
  match v.int? t with
  | some b => return b
  | none => throw (.typeMismatch t.toValueType v.type)

/-- Takes a float off. A value of another type is off as well when this fails. -/
def popFloat (t : FloatType) : OnStack t.Bits := do
  let v ← pop
  match v.float? t with
  | some b => return b
  | none => throw (.typeMismatch t.toValueType v.type)

/-- Takes a value of the given type off. A value of another type is off as well when this fails. -/
def popType (t : ValueType) : OnStack Value := do
  let v ← pop
  if v.type = t then return v else throw (.typeMismatch t v.type)

/-- Takes `n` values off, and gives them with the topmost one last. If there are fewer, none is
taken off. -/
def popMany (n : Nat) : OnStack (List Value) := fun stack =>
  if stack.size < n then .error .stackUnderflow stack
  else .ok (stack.takeTop n) (stack.drop n)

/-- Takes everything above the given height off. -/
def truncate (height : Nat) : OnStack Unit :=
  modify (·.truncate height)

/-- The top value. -/
def peek : OnStack (Option Value) :=
  return (← get).toList.head?

/-- Number of values. -/
def height : OnStack Nat :=
  return (← get).size

/-- Cuts the stack back to the given height below its `arity` top values. -/
def unwind (arity height : Nat) : OnStack Unit := do
  let vs ← popMany arity
  truncate height
  pushAll vs

end OnStack

end WebAssembly
