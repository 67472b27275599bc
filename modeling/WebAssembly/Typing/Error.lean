import WebAssembly.Text.Quoted

/-!
# Why a module is not valid
-/

namespace WebAssembly

/-- The causes for which a module is refused. Indices are those that the module uses. -/
inductive ValidationError where
  | typeMismatch
  | unknownType (index : UInt32)
  | unknownFunc (index : UInt32)
  | unknownTable (index : UInt32)
  | unknownMemory (index : UInt32)
  | unknownGlobal (index : UInt32)
  | unknownLocal (index : UInt32)
  | unknownLabel (index : UInt32)
  | immutableGlobal (index : UInt32)
  | constantExpressionRequired
  | badAlignment
  | multipleTables
  | multipleMemories
  | invalidLimits
  | memoryTooLarge
  | duplicateExport (name : String)
  | invalidStartFunc
  | invalidResultArity (count : Nat)
deriving DecidableEq

/-- Wording of a cause. -/
def ValidationError.message : ValidationError → String
  | .typeMismatch => "type mismatch"
  | .unknownType i => "unknown type " ++ toString i.toNat
  | .unknownFunc i => "unknown function " ++ toString i.toNat
  | .unknownTable i => "unknown table " ++ toString i.toNat
  | .unknownMemory i => "unknown memory " ++ toString i.toNat
  | .unknownGlobal i => "unknown global " ++ toString i.toNat
  | .unknownLocal i => "unknown local " ++ toString i.toNat
  | .unknownLabel i => "unknown label " ++ toString i.toNat
  | .immutableGlobal i => "global " ++ toString i.toNat ++ " is immutable"
  | .constantExpressionRequired => "constant expression required"
  | .badAlignment => "alignment must not be larger than natural"
  | .multipleTables => "multiple tables"
  | .multipleMemories => "multiple memories"
  | .invalidLimits => "size minimum must not be greater than maximum"
  | .memoryTooLarge => "memory size must be at most 65536 pages (4GiB)"
  | .duplicateExport name => "duplicate export name " ++ Text.quoted name
  | .invalidStartFunc => "start function must have type [] -> []"
  | .invalidResultArity _ => "invalid result arity"

end WebAssembly
