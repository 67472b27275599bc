/-!
# Types

The types of WebAssembly 1.0: numbers, functions, limits, and everything that can cross a module
boundary. Main definitions: `ValueType`, `FuncType`, `Limits`, `ExternType`, and the subtype order
`ExternType.isSubtypeOf`, by which an instance can stand in for an import of a declared type.
-/

namespace WebAssembly

/-! ## Number types -/

/-- The integer types. -/
inductive IntType where
  | i32 | i64
deriving DecidableEq

/-- The float types. -/
inductive FloatType where
  | f32 | f64
deriving DecidableEq

/-- The types of values. -/
inductive ValueType where
  | i32 | i64 | f32 | f64
deriving DecidableEq

/-- Number of bits of an integer. -/
def IntType.width : IntType → Nat
  | .i32 => 32
  | .i64 => 64

/-- Number of bits of a float. -/
def FloatType.width : FloatType → Nat
  | .f32 => 32
  | .f64 => 64

/-- Number of bits of a value. -/
def ValueType.width : ValueType → Nat
  | .i32 => 32
  | .i64 => 64
  | .f32 => 32
  | .f64 => 64

/-- An integer type as a value type. -/
def IntType.toValueType : IntType → ValueType
  | .i32 => .i32
  | .i64 => .i64

/-- A float type as a value type. -/
def FloatType.toValueType : FloatType → ValueType
  | .f32 => .f32
  | .f64 => .f64

/-- Name of a value type. -/
def ValueType.text : ValueType → String
  | .i32 => "i32"
  | .i64 => "i64"
  | .f32 => "f32"
  | .f64 => "f64"

/-- Name of an integer type. -/
def IntType.text (t : IntType) : String :=
  t.toValueType.text

/-- Name of a float type. -/
def FloatType.text (t : FloatType) : String :=
  t.toValueType.text

/-! ## Functions, tables, memories and globals -/

/-- A function takes `params` and gives `results`, each first to last. -/
structure FuncType where
  params : List ValueType
  results : List ValueType
deriving DecidableEq

/-- Bounds on a size that can grow: where it starts, and where it must stop if anywhere. -/
structure Limits where
  min : UInt32
  max : Option UInt32
deriving DecidableEq

/-- A table of function references, with bounds on the number of its slots. -/
structure TableType where
  limits : Limits
deriving DecidableEq

/-- A memory, with bounds on the number of its pages. -/
structure MemoryType where
  limits : Limits
deriving DecidableEq

/-- Number of bytes of a page. -/
def pageSize : Nat := 65536

/-- The most pages a memory can have. -/
def maxPages : Nat := 65536

/-- A global holds one value of `type` and can be assigned iff it is `mutable`. -/
structure GlobalType where
  type : ValueType
  mutable : Bool
deriving DecidableEq

/-- The type of something that crosses a module boundary. -/
inductive ExternType where
  | func (type : FuncType)
  | table (type : TableType)
  | memory (type : MemoryType)
  | global (type : GlobalType)
deriving DecidableEq

/-! ## Subtyping -/

/-- Limits `given` fit where `expected` are declared: they start no lower, and stop no later
wherever `expected` stops. -/
def Limits.isSubtypeOf (given expected : Limits) : Bool :=
  decide (expected.min ≤ given.min) &&
    match given.max, expected.max with
    | _, none => true
    | some g, some e => decide (g ≤ e)
    | none, some _ => false

/-- Functions and globals must agree exactly; tables and memories need fitting limits. -/
def ExternType.isSubtypeOf : ExternType → ExternType → Bool
  | .func given, .func expected => decide (given = expected)
  | .table given, .table expected => given.limits.isSubtypeOf expected.limits
  | .memory given, .memory expected => given.limits.isSubtypeOf expected.limits
  | .global given, .global expected => decide (given = expected)
  | _, _ => false

/-! ## Text -/

/-- Names separated by a comma and a blank. -/
def ValueType.listText (ts : List ValueType) : String :=
  String.intercalate ", " (ts.map ValueType.text)

/-- Parameters in brackets, an arrow, and the results, or `nil` where there are none. -/
def FuncType.text (t : FuncType) : String :=
  "(" ++ ValueType.listText t.params ++ ") -> " ++
    (if t.results.isEmpty then "nil" else ValueType.listText t.results)

/-- The lower bound, and the upper one if there is one. -/
def Limits.text (l : Limits) : String :=
  match l.max with
  | some max => "initial=" ++ toString l.min.toNat ++ " max=" ++ toString max.toNat
  | none => "initial=" ++ toString l.min.toNat

/-- Text of a table type. -/
def TableType.text (t : TableType) : String :=
  "type=funcref " ++ t.limits.text

/-- Text of a memory type. -/
def MemoryType.text (t : MemoryType) : String :=
  "pages: " ++ t.limits.text

/-- Text of a global type. -/
def GlobalType.text (t : GlobalType) : String :=
  t.type.text ++ " mutable=" ++ (if t.mutable then "1" else "0")

/-- Text of an extern type: its kind and then the type itself. -/
def ExternType.text : ExternType → String
  | .func t => "func " ++ t.text
  | .table t => "table " ++ t.text
  | .memory t => "memory " ++ t.text
  | .global t => "global " ++ t.text

end WebAssembly
