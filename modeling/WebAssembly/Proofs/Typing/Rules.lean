import Mathlib.Algebra.Group.Nat.Defs
import WebAssembly.Typing.Body

/-!
# The typing rules

The declarative type system of WebAssembly 1.0. A judgment `HasType … taken given` says that code
takes operands of types `taken` off the stack and leaves `given`, each listed with the topmost
operand last. Nothing here computes: a rule may take and give stacks that no algorithm could guess,
as those behind an unconditional branch do.

Single instructions are typed at exactly what they touch. Only sequencing widens them: operands
`under` what an instruction takes are kept as they are (`Expr.HasType.cons`).
-/

namespace WebAssembly

/-! ## Plain instructions

The operands an instruction takes and gives, with what it demands of the context.
-/

/-- Conversions take one number and give one. -/
inductive Conversion.HasType : Conversion → ValueType → ValueType → Prop
  | wrap : HasType .wrap .i64 .i32
  | extend (sign : Sign) : HasType (.extend sign) .i32 .i64
  | truncate (target : IntType) (source : FloatType) (sign : Sign) :
      HasType (.truncate target source sign) source.toValueType target.toValueType
  | convert (target : FloatType) (source : IntType) (sign : Sign) :
      HasType (.convert target source sign) source.toValueType target.toValueType
  | demote : HasType .demote .f64 .f32
  | promote : HasType .promote .f32 .f64
  | floatBits32 : HasType (.floatBits .f32) .f32 .i32
  | floatBits64 : HasType (.floatBits .f64) .f64 .i64
  | intBits32 : HasType (.intBits .i32) .i32 .f32
  | intBits64 : HasType (.intBits .i64) .i64 .f64

/-- Tests and comparisons give an `i32`, arithmetic the type it takes. -/
inductive Numeric.HasType : Numeric → List ValueType → List ValueType → Prop
  | eqz (t : IntType) : HasType (.eqz t) [t.toValueType] [.i32]
  | intCompare (t : IntType) (op : IntCompare) :
      HasType (.intCompare t op) [t.toValueType, t.toValueType] [.i32]
  | floatCompare (t : FloatType) (op : FloatCompare) :
      HasType (.floatCompare t op) [t.toValueType, t.toValueType] [.i32]
  | intUnary (t : IntType) (op : IntUnary) :
      HasType (.intUnary t op) [t.toValueType] [t.toValueType]
  | intBinary (t : IntType) (op : IntBinary) :
      HasType (.intBinary t op) [t.toValueType, t.toValueType] [t.toValueType]
  | floatUnary (t : FloatType) (op : FloatUnary) :
      HasType (.floatUnary t op) [t.toValueType] [t.toValueType]
  | floatBinary (t : FloatType) (op : FloatBinary) :
      HasType (.floatBinary t op) [t.toValueType, t.toValueType] [t.toValueType]
  | conversion {op : Conversion} {source target : ValueType} :
      op.HasType source target → HasType (.conversion op) [source] [target]

/-- Plain instructions. `drop` and `select` work at every type, but `select` at one type for both
of its values. An access is aligned to at most as many bytes as it touches. -/
inductive Plain.HasType (ctx : Context) : Plain → List ValueType → List ValueType → Prop
  | drop (t : ValueType) : HasType ctx .drop [t] []
  | select (t : ValueType) : HasType ctx .select [t, t, .i32] [t]
  | localGet {i : UInt32} {t : ValueType} :
      ctx.locals[i.toNat]? = some t → HasType ctx (.localGet i) [] [t]
  | localSet {i : UInt32} {t : ValueType} :
      ctx.locals[i.toNat]? = some t → HasType ctx (.localSet i) [t] []
  | localTee {i : UInt32} {t : ValueType} :
      ctx.locals[i.toNat]? = some t → HasType ctx (.localTee i) [t] [t]
  | globalGet {i : UInt32} {g : GlobalType} :
      ctx.globals[i.toNat]? = some g → HasType ctx (.globalGet i) [] [g.type]
  | globalSet {i : UInt32} {g : GlobalType} :
      ctx.globals[i.toNat]? = some g → g.mutable = true → HasType ctx (.globalSet i) [g.type] []
  | load {op : LoadOp} {arg : MemArg} {m : MemoryType} :
      ctx.memories[0]? = some m → 2 ^ arg.align.toNat ≤ op.bytes →
      HasType ctx (.load op arg) [.i32] [op.type]
  | store {op : StoreOp} {arg : MemArg} {m : MemoryType} :
      ctx.memories[0]? = some m → 2 ^ arg.align.toNat ≤ op.bytes →
      HasType ctx (.store op arg) [.i32, op.type] []
  | memorySize {m : MemoryType} :
      ctx.memories[0]? = some m → HasType ctx .memorySize [] [.i32]
  | memoryGrow {m : MemoryType} :
      ctx.memories[0]? = some m → HasType ctx .memoryGrow [.i32] [.i32]
  | const (v : Value) : HasType ctx (.const v) [] [v.type]
  | numeric {op : Numeric} {taken given : List ValueType} :
      op.HasType taken given → HasType ctx (.numeric op) taken given

/-! ## Instructions and sequences

Constructs type their bodies with one more label. A branch that is always taken may be given any
types for what follows.
-/

mutual

/-- Instructions, where `labels` are the types that branches to the enclosing constructs carry, the
innermost one first, and `results` what the function returns. Instructions that never fall through
take any operands under those they need and give anything. -/
inductive Instruction.HasType (ctx : Context) (results : List ValueType) :
    List (List ValueType) → Instruction → List ValueType → List ValueType → Prop
  | unreachable {labels : List (List ValueType)} (taken given : List ValueType) :
      Instruction.HasType ctx results labels .unreachable taken given
  | nop {labels : List (List ValueType)} :
      Instruction.HasType ctx results labels .nop [] []
  | block {labels : List (List ValueType)} {type : BlockType} {body : List Instruction} :
      Expr.HasType ctx results (type.results :: labels) body [] type.results →
      Instruction.HasType ctx results labels (.block type body) [] type.results
  | loop {labels : List (List ValueType)} {type : BlockType} {body : List Instruction} :
      Expr.HasType ctx results ([] :: labels) body [] type.results →
      Instruction.HasType ctx results labels (.loop type body) [] type.results
  | ifElse {labels : List (List ValueType)} {type : BlockType}
      {thenBody elseBody : List Instruction} :
      Expr.HasType ctx results (type.results :: labels) thenBody [] type.results →
      Expr.HasType ctx results (type.results :: labels) elseBody [] type.results →
      Instruction.HasType ctx results labels (.ifElse type thenBody elseBody) [.i32] type.results
  | br {labels : List (List ValueType)} {label : UInt32} {ts : List ValueType}
      (under given : List ValueType) :
      labels[label.toNat]? = some ts →
      Instruction.HasType ctx results labels (.br label) (under ++ ts) given
  | brIf {labels : List (List ValueType)} {label : UInt32} {ts : List ValueType} :
      labels[label.toNat]? = some ts →
      Instruction.HasType ctx results labels (.brIf label) (ts ++ [.i32]) ts
  | brTable {labels : List (List ValueType)} {targets : List UInt32} {default : UInt32}
      {ts : List ValueType} (under given : List ValueType) :
      (∀ target ∈ targets, labels[target.toNat]? = some ts) →
      labels[default.toNat]? = some ts →
      Instruction.HasType ctx results labels (.brTable targets default) (under ++ ts ++ [.i32])
        given
  | ret {labels : List (List ValueType)} (under given : List ValueType) :
      Instruction.HasType ctx results labels .ret (under ++ results) given
  | call {labels : List (List ValueType)} {i : UInt32} {f : FuncType} :
      ctx.funcs[i.toNat]? = some f →
      Instruction.HasType ctx results labels (.call i) f.params f.results
  | callIndirect {labels : List (List ValueType)} {i : UInt32} {table : TableType} {f : FuncType} :
      ctx.tables[0]? = some table → ctx.types[i.toNat]? = some f →
      Instruction.HasType ctx results labels (.callIndirect i) (f.params ++ [.i32]) f.results
  | plain {labels : List (List ValueType)} {op : Plain} {taken given : List ValueType} :
      op.HasType ctx taken given →
      Instruction.HasType ctx results labels (.plain op) taken given

/-- Sequences. The operands `under` those that the first instruction takes pass by it. -/
inductive Expr.HasType (ctx : Context) (results : List ValueType) :
    List (List ValueType) → List Instruction → List ValueType → List ValueType → Prop
  | nil {labels : List (List ValueType)} (ts : List ValueType) :
      Expr.HasType ctx results labels [] ts ts
  | cons {labels : List (List ValueType)} {i : Instruction} {is : List Instruction}
      {taken given final : List ValueType} (under : List ValueType) :
      Instruction.HasType ctx results labels i taken given →
      Expr.HasType ctx results labels is (under ++ given) final →
      Expr.HasType ctx results labels (i :: is) (under ++ taken) final

end

/-- What the code of a function with the given type and declared locals refers to. -/
def Context.forBody (ctx : Context) (type : FuncType) (locals : List ValueType) : Context :=
  { ctx with locals := (type.params ++ locals).toArray }

/-- The body of a function: it starts on no operands and leaves the results, which is also what a
branch to the function itself carries. -/
def Context.BodyHasType (ctx : Context) (type : FuncType) (locals : List ValueType) (code : Expr) :
    Prop :=
  Expr.HasType (ctx.forBody type locals) type.results [type.results] code [] type.results

/-! ## Rules read as data -/

/-- The rule of a conversion is the one of its source and target. -/
theorem Conversion.hasType_iff {op : Conversion} {source target : ValueType} :
    op.HasType source target ↔ source = op.source ∧ target = op.target := by
  constructor
  · intro h
    cases h <;> exact ⟨rfl, rfl⟩
  · rintro ⟨rfl, rfl⟩
    cases op with
    | wrap => exact .wrap
    | extend sign => exact .extend sign
    | truncate target source sign => exact .truncate target source sign
    | convert target source sign => exact .convert target source sign
    | demote => exact .demote
    | promote => exact .promote
    | floatBits source =>
        cases source with
        | f32 => exact .floatBits32
        | f64 => exact .floatBits64
    | intBits source =>
        cases source with
        | i32 => exact .intBits32
        | i64 => exact .intBits64

/-- A numeric operator has one rule. -/
theorem Numeric.hasType_iff {op : Numeric} {taken given : List ValueType} :
    op.HasType taken given ↔ taken = op.operands ∧ given = [op.result] := by
  constructor
  · intro h
    cases h with
    | conversion h =>
        obtain ⟨rfl, rfl⟩ := Conversion.hasType_iff.mp h
        exact ⟨rfl, rfl⟩
    | _ => exact ⟨rfl, rfl⟩
  · rintro ⟨rfl, rfl⟩
    cases op with
    | eqz t => exact .eqz t
    | intCompare t op => exact .intCompare t op
    | floatCompare t op => exact .floatCompare t op
    | intUnary t op => exact .intUnary t op
    | intBinary t op => exact .intBinary t op
    | floatUnary t op => exact .floatUnary t op
    | floatBinary t op => exact .floatBinary t op
    | conversion op => exact .conversion (Conversion.hasType_iff.mpr ⟨rfl, rfl⟩)

end WebAssembly
