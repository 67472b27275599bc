import WebAssembly.Binary.Module
import WebAssembly.Linking

/-!
# The engine

An engine is a store together with the module that was linked last, whose exports can be called by
name. Every operation gives the engine afterwards, also when it fails.
-/

namespace WebAssembly

/-- A store, and the address of the current module. -/
structure Engine where
  store : Store := {}
  current : Option Nat := none

namespace Engine

/-- A bound on the number of ops that no run reaches in practice. -/
def maxSteps : Nat := 4611686018427387904

/-- A result or a failure, and the engine afterwards. -/
abbrev Answer (α : Type) : Type := Except RuntimeError α × Engine

/-- Runs something on the store with a stack of its own. -/
def run {α : Type} : Engine → Run α → Option (Answer α)
  | ⟨store, current⟩, x =>
    match x ⟨store, .empty⟩ with
    | none => none
    | some (.ok a m) => some (.ok a, ⟨m.store, current⟩)
    | some (.error e m) => some (.error e, ⟨m.store, current⟩)

/-- Links a module, which becomes the current one if nothing fails, its start function included. -/
def instantiate (e : Engine) (fuel : Nat) (m : Module) (imports : List ExternVal) :
    Option (Answer Nat) :=
  match e.run (Run.instantiate fuel m imports) with
  | some (.ok addr, e) => some (.ok addr, { e with current := some addr })
  | other => other

/-- Calls the function at an address. -/
def invoke (e : Engine) (fuel : Nat) (addr : Nat) (args : List Value) :
    Option (Answer (List Value)) :=
  e.run (Run.invoke fuel addr args)

/-- The current module. -/
def instance? (e : Engine) : Option ModuleInstance :=
  e.current.bind fun addr => e.store.modules[addr]?

/-- An export of the current module. -/
def export? (e : Engine) (name : String) : Option ExternVal :=
  e.instance?.bind fun m => m.export? name

/-- Calls an exported function of the current module. -/
def call (e : Engine) (fuel : Nat) (name : String) (args : List Value) :
    Option (Answer (List Value)) :=
  match e.export? name with
  | some (.func addr) => e.invoke fuel addr args
  | _ => some (.error (.unknownExport name), e)

/-- The store and then the exports of the current module, one a line. -/
def listing [FloatPrinter] (e : Engine) : String :=
  e.store.listing ++ "\n" ++
    match e.instance? with
    | some m =>
      String.intercalate "\n" <|
        "Exports:" :: m.exports.map fun (name, val) => "  " ++ name ++ " -> " ++ val.text
    | none => "No module instantiated"

end Engine

end WebAssembly
