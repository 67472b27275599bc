import WebAssembly.Code

/-!
# Positions in flat code

Laying out a body behind other ops adds a block of ops that depends on the body and on where the
block starts, and on nothing else. `Expr.layout` is this block, with all positions known from the
start. That some ops are put in place only when others stand behind them comes to the same
(`Expr.toList_flatten`): what holds the place of an op is overwritten, and nothing else. Code that
runs does not see blocks but single ops at positions; `StandAt` says that the ops of a block stand
at their positions, and is taken apart along the constructs of the body.
-/

namespace WebAssembly

/-! ## Blocks of ops

Flattening pushes an op with a placeholder, lays out the body and then sets the placeholder. By
induction on the tree the array is the old one with the block behind it; the placeholder is
overwritten because its position is still that of the op.
-/

mutual

/-- Number of ops of an instruction. -/
def Instruction.opCount : Instruction → Nat
  | .block _ body => Expr.opCount body + 2
  | .loop _ body => Expr.opCount body + 2
  | .ifElse _ thenBody elseBody => Expr.opCount thenBody + Expr.opCount elseBody + 3
  | _ => 1

/-- Number of ops of a sequence. -/
def Expr.opCount : List Instruction → Nat
  | [] => 0
  | i :: is => Instruction.opCount i + Expr.opCount is

end

mutual

/-- The ops of an instruction that starts at position `p`. -/
def Instruction.layout (p : Nat) : Instruction → List Op
  | .block type body =>
    .block type.arity (p + 1 + Expr.opCount body) :: (Expr.layout (p + 1) body ++ [.close])
  | .loop _ body => .loop :: (Expr.layout (p + 1) body ++ [.close])
  | .ifElse type thenBody elseBody =>
    let otherwise := p + 1 + Expr.opCount thenBody
    let stop := otherwise + 1 + Expr.opCount elseBody
    .ifElse type.arity otherwise stop ::
      (Expr.layout (p + 1) thenBody ++
        .skip stop :: (Expr.layout (otherwise + 1) elseBody ++ [.close]))
  | i => [.instr i]

/-- The ops of a sequence that starts at position `p`. -/
def Expr.layout (p : Nat) : List Instruction → List Op
  | [] => []
  | i :: is => Instruction.layout p i ++ Expr.layout (p + Instruction.opCount i) is

end

mutual

/-- The block of an instruction has as many ops as were counted, wherever it starts. Positions
inside it refer to its start by this number. -/
theorem Instruction.length_layout (i : Instruction) (p : Nat) :
    (Instruction.layout p i).length = Instruction.opCount i := by
  cases i with
  | block type body =>
      rw [Instruction.layout, Instruction.opCount, List.length_cons, List.length_append,
        Expr.length_layout body, List.length_singleton]
  | loop type body =>
      rw [Instruction.layout, Instruction.opCount, List.length_cons, List.length_append,
        Expr.length_layout body, List.length_singleton]
  | ifElse type thenBody elseBody =>
      rw [Instruction.layout, Instruction.opCount, List.length_cons, List.length_append,
        Expr.length_layout thenBody, List.length_cons, List.length_append,
        Expr.length_layout elseBody, List.length_singleton]
      omega
  | _ => rfl

/-- The same of a sequence. -/
theorem Expr.length_layout (is : List Instruction) (p : Nat) :
    (Expr.layout p is).length = Expr.opCount is := by
  cases is with
  | nil => rfl
  | cons i is =>
      rw [Expr.layout, Expr.opCount, List.length_append, Instruction.length_layout i,
        Expr.length_layout is]

end

/-- An op is put where another one holds its place. -/
theorem set_placeholder {before : List Op} {p : Nat} (hp : before.length = p)
    (placeholder o : Op) (after : List Op) :
    (before ++ placeholder :: after).set p o = before ++ o :: after := by
  rw [← hp, List.set_append_right _ _ (Nat.le_refl _), Nat.sub_self, List.set_cons_zero]

/-- A body is laid out behind what it takes to open it. -/
theorem toList_flatten_push {body : List Instruction}
    (hbody : ∀ ops, (Expr.flatten body ops).toList = ops.toList ++ Expr.layout ops.size body)
    (ops : Array Op) (o : Op) :
    (Expr.flatten body (ops.push o)).toList =
      ops.toList ++ o :: Expr.layout (ops.size + 1) body := by
  rw [hbody, Array.toList_push, Array.size_push, List.append_assoc, List.singleton_append]

/-- Where the ops behind a body go. -/
theorem size_flatten_push {body : List Instruction}
    (hbody : ∀ ops, (Expr.flatten body ops).toList = ops.toList ++ Expr.layout ops.size body)
    (ops : Array Op) (o : Op) :
    (Expr.flatten body (ops.push o)).size = ops.size + 1 + Expr.opCount body := by
  rw [← Array.length_toList, hbody, List.length_append, Expr.length_layout, Array.length_toList,
    Array.size_push]

mutual

/-- Laying an instruction out adds its block behind what is there. -/
theorem Instruction.toList_flatten (i : Instruction) (ops : Array Op) :
    (Instruction.flatten i ops).toList = ops.toList ++ Instruction.layout ops.size i := by
  cases i with
  | block type body =>
      have hbody := Expr.toList_flatten body
      rw [Instruction.flatten, Instruction.layout, size_flatten_push hbody,
        Array.toList_setIfInBounds, Array.toList_push, toList_flatten_push hbody,
        List.append_assoc, List.cons_append, set_placeholder Array.length_toList]
  | loop type body =>
      rw [Instruction.flatten, Instruction.layout, Array.toList_push,
        toList_flatten_push (Expr.toList_flatten body), List.append_assoc, List.cons_append]
  | ifElse type thenBody elseBody =>
      have hthen := Expr.toList_flatten thenBody
      have helse := Expr.toList_flatten elseBody
      rw [Instruction.flatten, Instruction.layout, Array.toList_setIfInBounds,
        Array.toList_setIfInBounds, Array.toList_push, size_flatten_push helse,
        toList_flatten_push helse, size_flatten_push hthen, toList_flatten_push hthen]
      -- the `if` goes to the first place held, which is behind `ops`
      rw [List.append_assoc, List.append_assoc, List.cons_append,
        set_placeholder Array.length_toList]
      -- and the op that skips to the second one, which is behind the first body
      rw [← List.cons_append, ← List.append_assoc, List.cons_append, set_placeholder]
      · rw [List.append_assoc, List.cons_append]
      · rw [List.length_append, List.length_cons, Expr.length_layout, Array.length_toList]
        omega
  | _ => simp only [Instruction.flatten, Instruction.layout, Array.toList_push]

/-- Laying a sequence out adds its block behind what is there. -/
theorem Expr.toList_flatten (is : List Instruction) (ops : Array Op) :
    (Expr.flatten is ops).toList = ops.toList ++ Expr.layout ops.size is := by
  cases is with
  | nil => rw [Expr.flatten, Expr.layout, List.append_nil]
  | cons i is =>
      have hsize : (Instruction.flatten i ops).size = ops.size + Instruction.opCount i := by
        rw [← Array.length_toList, Instruction.toList_flatten i, List.length_append,
          Instruction.length_layout, Array.length_toList]
      rw [Expr.flatten, Expr.layout, Expr.toList_flatten is, Instruction.toList_flatten i, hsize,
        List.append_assoc]

end

/-! ## Ops at positions

What a block says of single positions. A block made of two stands where its first part does and its
second part behind that.
-/

/-- The ops `block` stand in `ops` from position `p` on. -/
def StandAt (ops : Array Op) (p : Nat) : (block : List Op) → Prop
  | [] => True
  | o :: rest => ops[p]? = some o ∧ StandAt ops (p + 1) rest

/-- Two blocks stand one behind the other if the second one starts where the first one ends. -/
theorem standAt_append {ops : Array Op} {p : Nat} {front back : List Op} :
    StandAt ops p (front ++ back) ↔ StandAt ops p front ∧ StandAt ops (p + front.length) back := by
  induction front generalizing p with
  | nil => exact ⟨fun h => ⟨trivial, h⟩, And.right⟩
  | cons o front ih =>
      rw [List.cons_append, StandAt, StandAt, ih, List.length_cons, and_assoc,
        show p + 1 + front.length = p + (front.length + 1) by omega]

/-- A block that is part of the ops as a list stands at the position that counts what is in front of
it. -/
theorem standAt_of_toList_eq {ops : Array Op} {before block after : List Op}
    (h : ops.toList = before ++ (block ++ after)) : StandAt ops before.length block := by
  induction block generalizing before with
  | nil => trivial
  | cons o block ih =>
      constructor
      · rw [← Array.getElem?_toList, h, List.getElem?_append_right (Nat.le_refl _)]
        simp
      · have hnext := @ih (before ++ [o]) (by
          rw [h, List.append_assoc, List.singleton_append, List.cons_append])
        rwa [List.length_append, List.length_singleton] at hnext

/-- The code of a body holds its block from the start. -/
theorem standAt_compile (locals : List ValueType) (body : Expr) :
    StandAt (Code.compile locals body).ops 0 (Expr.layout 0 body) := by
  have h : (Code.compile locals body).ops.toList = [] ++ (Expr.layout 0 body ++ []) := by
    rw [Code.compile, Expr.toList_flatten, List.append_nil]
    rfl
  exact standAt_of_toList_eq h

/-- Code has no ops but those of its body. -/
theorem size_ops_compile (locals : List ValueType) (body : Expr) :
    (Code.compile locals body).ops.size = Expr.opCount body := by
  rw [Code.compile, ← Array.length_toList, Expr.toList_flatten, List.length_append,
    Expr.length_layout]
  simp

/-! ## Constructs at positions

The ops of each construct with the positions they refer to, as the proofs about running code use
them.
-/

/-- A sequence stands where its first instruction and the rest of it do. -/
theorem standAt_cons {ops : Array Op} {p : Nat} {i : Instruction} {is : List Instruction} :
    StandAt ops p (Expr.layout p (i :: is)) ↔
      StandAt ops p (Instruction.layout p i) ∧
        StandAt ops (p + Instruction.opCount i) (Expr.layout (p + Instruction.opCount i) is) := by
  rw [Expr.layout, standAt_append, Instruction.length_layout]

/-- A `block` is an op that names the position of its end, its body, and the closing op at that
position. -/
theorem standAt_block {ops : Array Op} {p : Nat} {type : BlockType} {body : List Instruction} :
    StandAt ops p (Instruction.layout p (.block type body)) ↔
      ops[p]? = some (.block type.arity (p + 1 + Expr.opCount body)) ∧
        StandAt ops (p + 1) (Expr.layout (p + 1) body) ∧
        ops[p + 1 + Expr.opCount body]? = some .close := by
  rw [Instruction.layout, StandAt, standAt_append, Expr.length_layout, StandAt, StandAt, and_true]

/-- A `loop` is laid out like a `block`, but its op names no position: branches to a loop go back to
the op itself. -/
theorem standAt_loop {ops : Array Op} {p : Nat} {type : BlockType} {body : List Instruction} :
    StandAt ops p (Instruction.layout p (.loop type body)) ↔
      ops[p]? = some .loop ∧ StandAt ops (p + 1) (Expr.layout (p + 1) body) ∧
        ops[p + 1 + Expr.opCount body]? = some .close := by
  rw [Instruction.layout, StandAt, standAt_append, Expr.length_layout, StandAt, StandAt, and_true]

/-- The two bodies of an `if`, with the op between them that skips the second one. -/
theorem standAt_ifElse {ops : Array Op} {p : Nat} {type : BlockType}
    {thenBody elseBody : List Instruction} :
    StandAt ops p (Instruction.layout p (.ifElse type thenBody elseBody)) ↔
      ops[p]? = some (.ifElse type.arity (p + 1 + Expr.opCount thenBody)
          (p + 1 + Expr.opCount thenBody + 1 + Expr.opCount elseBody)) ∧
        StandAt ops (p + 1) (Expr.layout (p + 1) thenBody) ∧
        ops[p + 1 + Expr.opCount thenBody]? =
          some (.skip (p + 1 + Expr.opCount thenBody + 1 + Expr.opCount elseBody)) ∧
        StandAt ops (p + 1 + Expr.opCount thenBody + 1)
          (Expr.layout (p + 1 + Expr.opCount thenBody + 1) elseBody) ∧
        ops[p + 1 + Expr.opCount thenBody + 1 + Expr.opCount elseBody]? = some .close := by
  rw [Instruction.layout, StandAt, standAt_append, Expr.length_layout, StandAt, standAt_append,
    Expr.length_layout, StandAt, StandAt, and_true]

end WebAssembly
