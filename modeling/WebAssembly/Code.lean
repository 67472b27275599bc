import WebAssembly.Instruction.Text
import WebAssembly.Module.Basic

/-!
# Flat code

To be run, a body is laid out as one sequence of ops, in which each construct refers to its end by
position. A `block`, `loop` or `if` becomes an op, its bodies, and a closing op; between the bodies
of an `if` stands an op that skips the second one. `Instruction.flatten` lays an instruction out
behind the ops that are already there, and goes back to what opens a construct when it has got to
the end of it.
-/

namespace WebAssembly

/-- A step of flat code. -/
inductive Op where
  /-- Enters a block, closed at `stop`. -/
  | block (arity stop : Nat)
  /-- Enters a loop. -/
  | loop
  /-- Takes a condition off and enters the first body, or goes behind `otherwise`. -/
  | ifElse (arity otherwise stop : Nat)
  /-- Skips the second body of an `if`. -/
  | skip (stop : Nat)
  /-- Leaves the innermost construct. -/
  | close
  /-- An instruction without a body. -/
  | instr (i : Instruction)

/-- The code of a function: its declared locals and its ops. -/
structure Code where
  locals : List ValueType
  ops : Array Op

mutual

/-- The given ops and behind them those of an instruction. An op that refers to positions further on
is put there once these are known; until then a `close` holds its place. -/
def Instruction.flatten : Instruction → Array Op → Array Op
  | .block type body, ops =>
    let start := ops.size
    let ops := Expr.flatten body (ops.push .close)
    let stop := ops.size
    (ops.push .close).setIfInBounds start (.block type.arity stop)
  | .loop _ body, ops =>
    (Expr.flatten body (ops.push .loop)).push .close
  | .ifElse type thenBody elseBody, ops =>
    let start := ops.size
    let ops := Expr.flatten thenBody (ops.push .close)
    let otherwise := ops.size
    let ops := Expr.flatten elseBody (ops.push .close)
    let stop := ops.size
    let ops := (ops.push .close).setIfInBounds start (.ifElse type.arity otherwise stop)
    ops.setIfInBounds otherwise (.skip stop)
  | i, ops => ops.push (.instr i)

/-- The given ops and behind them those of a sequence. -/
def Expr.flatten : List Instruction → Array Op → Array Op
  | [], ops => ops
  | i :: is, ops => Expr.flatten is (Instruction.flatten i ops)

end

/-- Lays out a body. -/
def Code.compile (locals : List ValueType) (body : Expr) : Code :=
  ⟨locals, Expr.flatten body #[]⟩

/-- Text of an op. -/
def Op.text [FloatPrinter] : Op → String
  | .block arity stop => "block arity=" ++ toString arity ++ " end=" ++ toString stop
  | .loop => "loop"
  | .ifElse arity otherwise stop =>
    "if arity=" ++ toString arity ++ " else=" ++ toString otherwise ++ " end=" ++ toString stop
  | .skip stop => "else end=" ++ toString stop
  | .close => "end"
  | .instr i => "instr " ++ i.text

end WebAssembly
