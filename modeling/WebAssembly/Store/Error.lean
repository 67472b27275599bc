import WebAssembly.Types
import WebAssembly.Typing.Error

/-!
# What can go wrong when modules are linked and run

A trap is a failure that the language defines. Every other `RuntimeError` is a misuse of the store
or the machine by its surroundings; code of valid modules causes none of them.
-/

namespace WebAssembly

/-- Failures that the language defines. -/
inductive Trap where
  | unreachable
  | divisionByZero
  | integerOverflow
  | invalidConversion
  | outOfBoundsMemoryAccess
  | undefinedElement
  | uninitializedElement
  | indirectCallTypeMismatch
  | callStackExhausted
deriving DecidableEq

/-- Wording of a trap. -/
def Trap.message : Trap → String
  | .unreachable => "unreachable"
  | .divisionByZero => "integer divide by zero"
  | .integerOverflow => "integer overflow"
  | .invalidConversion => "invalid conversion to integer"
  | .outOfBoundsMemoryAccess => "out of bounds memory access"
  | .undefinedElement => "undefined element"
  | .uninitializedElement => "uninitialized element"
  | .indirectCallTypeMismatch => "indirect call type mismatch"
  | .callStackExhausted => "call stack exhausted"

/-- What an index or address points into. -/
inductive Space where
  | func | table | memory | global | module | type | local | label
deriving DecidableEq

/-- Name of a space. -/
def Space.text : Space → String
  | .func => "function"
  | .table => "table"
  | .memory => "memory"
  | .global => "global"
  | .module => "module"
  | .type => "type"
  | .local => "local"
  | .label => "label"

/-- Failures of linking and running. -/
inductive RuntimeError where
  | invalidModule (cause : ValidationError)
  | importCountMismatch (expected given : Nat)
  | externTypeMismatch (expected given : ExternType)
  | tableInitOutOfBounds
  | memoryInitOutOfBounds
  | argumentCountMismatch (expected given : Nat)
  | argumentTypeMismatch (expected given : ValueType)
  | tableTooBig
  | memoryTooBig
  | trap (cause : Trap)
  | stackUnderflow
  | typeMismatch (expected actual : ValueType)
  | unknownExport (name : String)
  | hostResultMismatch (expected given : Nat)
  | immutableGlobal
  | invalidAddress (space : Space)
  | invalidIndex (space : Space) (index : UInt32)
  /-- A control instruction stands where only plain ones can be executed. -/
  | misplacedControl (mnemonic : String)
deriving DecidableEq

/-- Wording of a failure. -/
def RuntimeError.message : RuntimeError → String
  | .invalidModule cause => "invalid module: " ++ cause.message
  | .importCountMismatch expected given =>
    "import count mismatch: module expects " ++ toString expected ++ ", given " ++ toString given
  | .externTypeMismatch expected given =>
    "incompatible import type: expected " ++ expected.text ++ ", given " ++ given.text
  | .tableInitOutOfBounds => "table initialization out of bounds"
  | .memoryInitOutOfBounds => "memory initialization out of bounds"
  | .argumentCountMismatch expected given =>
    "argument count mismatch: expected " ++ toString expected ++ ", given " ++ toString given
  | .argumentTypeMismatch expected given =>
    "argument type mismatch: expected " ++ expected.text ++ ", given " ++ given.text
  | .tableTooBig => "table too big"
  | .memoryTooBig => "memory too big"
  | .trap cause => "trap: " ++ cause.message
  | .stackUnderflow => "stack underflow"
  | .typeMismatch expected actual =>
    "operand type mismatch: expected " ++ expected.text ++ ", got " ++ actual.text
  | .unknownExport name => "unknown export " ++ Text.quoted name
  | .hostResultMismatch expected given =>
    "host function returned " ++ toString given ++ " values, expected " ++ toString expected
  | .immutableGlobal => "global is immutable"
  | .invalidAddress space => "invalid " ++ space.text ++ " address"
  | .invalidIndex space index => "invalid " ++ space.text ++ " index " ++ toString index.toNat
  | .misplacedControl mnemonic =>
    "internal error: entered unreachable code: control instruction " ++ mnemonic ++
      " dispatched as plain"

end WebAssembly
