import WebAssembly.Value
import WebAssembly.Store.Error

/-!
# Globals

A global holds a value of its type. Only a mutable one can be assigned.
-/

namespace WebAssembly

/-- A global. -/
structure Global where
  type : GlobalType
  value : Value

namespace Global

/-- A global of the given type, which the value must have. -/
def ofValue (t : GlobalType) (v : Value) : Except RuntimeError Global :=
  if v.type = t.type then .ok ⟨t, v⟩ else .error (.typeMismatch t.type v.type)

/-- It with another value. -/
def set? (g : Global) (v : Value) : Except RuntimeError Global :=
  if g.type.mutable then
    if v.type = g.type.type then .ok { g with value := v }
    else .error (.typeMismatch g.type.type v.type)
  else .error .immutableGlobal

end Global

end WebAssembly
