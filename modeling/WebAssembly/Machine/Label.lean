import WebAssembly.Instruction.Basic
import WebAssembly.Machine.Stack

/-!
# Labels and branches

Each construct that is being executed has a label, which holds all that a branch to it needs: how
many values it carries, how high the stack was, and where to go on. Labels are listed with the
innermost one first, so that the depth of a branch is a position. A branch first cuts the stack back
and then names the label it goes to.
-/

namespace WebAssembly

/-- A construct that is being executed. -/
structure Label where
  kind : Construct
  arity : Nat
  height : Nat
  cont : Nat
deriving DecidableEq

/-- The label of a construct with `arity` results. A branch to a loop starts it over and carries
nothing. -/
def Label.ofConstruct (kind : Construct) (arity height cont : Nat) : Label :=
  ⟨kind, if kind = .loop then 0 else arity, height, cont⟩

/-- What follows an instruction that may branch. -/
inductive Jump where
  | next
  | branch (depth : UInt32)
deriving DecidableEq

/-- The label at the given depth and those around it. -/
def branchTo? (labels : List Label) (depth : UInt32) : Option (Label × List Label) :=
  match labels.drop depth.toNat with
  | [] => none
  | label :: outer => some (label, outer)

namespace OnStack

/-- Cuts the stack back for a branch to a label. -/
def unwindTo (label : Label) : OnStack Unit :=
  unwind label.arity label.height

/-- Branches to the label at the given depth. -/
def br (labels : List Label) (depth : UInt32) : OnStack Jump :=
  match labels[depth.toNat]? with
  | none => throw (.invalidIndex .label depth)
  | some label => do
    unwindTo label
    return .branch depth

/-- Takes a condition off and branches unless it is zero. -/
def brIf (labels : List Label) (depth : UInt32) : OnStack Jump := do
  let condition ← popInt .i32
  if condition = 0 then return .next else br labels depth

/-- Takes a position in `targets` off and branches to the depth there, or to `default` past the
end. -/
def brTable (labels : List Label) (targets : List UInt32) (default : UInt32) : OnStack Jump := do
  let index ← popInt .i32
  br labels (targets[index.toNat]?.getD default)

/-- Fails. -/
def unreachable : OnStack Jump :=
  throw (.trap .unreachable)

end OnStack

end WebAssembly
