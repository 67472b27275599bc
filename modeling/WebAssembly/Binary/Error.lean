import WebAssembly.Text.Hex

/-!
# Why bytes are not a module

`DecodeError` has a constructor for each cause. `Bound` names the sizes that the format leaves open
and decoding does not.
-/

namespace WebAssembly

/-- A size that decoding bounds. -/
inductive Bound where
  | nesting
  | params
  | results
  | locals
  | branchLabels
deriving DecidableEq

/-- The largest size allowed. -/
def Bound.limit : Bound → Nat
  | .nesting => 1024
  | .params => 1000
  | .results => 1000
  | .locals => 50000
  | .branchLabels => 65536

/-- What is bounded. -/
def Bound.text : Bound → String
  | .nesting => "block nesting depth"
  | .params => "function parameter count"
  | .results => "function result count"
  | .locals => "function local count"
  | .branchLabels => "br_table label count"

/-- The causes for which decoding fails. -/
inductive DecodeError where
  | unexpectedEof
  | unexpectedByte (received : UInt8) (expected : List UInt8) (context : String)
  | invalidUtf8 (bytes : List UInt8)
  | invalidValueType (byte : UInt8)
  | invalidOpcode (byte : UInt8)
  | invalidSectionId (byte : UInt8)
  | invalidImportDesc (byte : UInt8)
  | invalidExportDesc (byte : UInt8)
  | funcCodeMismatch (funcs bodies : Nat)
  | limitExceeded (bound : Bound)
deriving DecidableEq

/-- Wording of a cause. -/
def DecodeError.message : DecodeError → String
  | .unexpectedEof => "unexpected end of input"
  | .unexpectedByte received expected context =>
    "unexpected byte " ++ Text.byteNumber received ++ " reading " ++ context ++
      ", expected one of " ++ Text.byteList expected
  | .invalidUtf8 bytes => "invalid utf-8 in name: " ++ Text.byteList bytes
  | .invalidValueType b => "invalid value type " ++ Text.byteNumber b
  | .invalidOpcode b => "invalid opcode " ++ Text.byteNumber b
  | .invalidSectionId b => "invalid section id " ++ toString b.toNat
  | .invalidImportDesc b => "invalid import descriptor " ++ Text.byteNumber b
  | .invalidExportDesc b => "invalid export descriptor " ++ Text.byteNumber b
  | .funcCodeMismatch funcs bodies =>
    "function and code section lengths differ: " ++ toString funcs ++ " functions, " ++
      toString bodies ++ " bodies"
  | .limitExceeded bound => "implementation limit exceeded: " ++ bound.text

end WebAssembly
