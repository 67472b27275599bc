import WebAssembly.Engine
import WebAssembly.Float.Text
import WebAssembly.Module.Listing

/-!
# Reports

What the command line prints: the listing of a module, and, once it has been linked without imports,
the listing of the engine, with floats in hexadecimal. Everything is decided here, on the content of
the file; reading and printing are left to the caller.
-/

namespace WebAssembly

/-- Why a file could not be read: the system's words and its number for them. -/
structure FileError where
  description : String
  code : Nat
deriving DecidableEq

/-- There is no such file. -/
def FileError.notFound : FileError :=
  ⟨"No such file or directory", 2⟩

/-- Wording of a file error. -/
def FileError.message (e : FileError) : String :=
  e.description ++ " (os error " ++ toString e.code ++ ")"

/-- What is printed, and the exit code. -/
structure Report where
  code : Nat
  out : String
  err : String
deriving DecidableEq

namespace Report

/-- A line on an error, after what has been printed before. -/
def failure (out message : String) : Report :=
  ⟨1, out, "error: " ++ message ++ "\n"⟩

/-- The report without a file to report on. -/
def usage : Report :=
  ⟨1, "", "Usage: wasmite <file.wasm>\n"⟩

/-- The report on a file that could not be read. -/
def unreadable (path : String) (e : FileError) : Report :=
  failure "" ("couldn't read " ++ path ++ ": " ++ e.message)

/-- The report on a module. -/
def ofModule (fuel : Nat) (m : Module) : Option Report :=
  let listing := m.listing ++ "\n"
  match ({} : Engine).instantiate fuel m [] with
  | none => none
  | some (.error e, _) => some (failure listing e.message)
  | some (.ok _, engine) => some ⟨0, listing ++ engine.listing ++ "\n", ""⟩

/-- The report on the content of a file. -/
def ofBytes (fuel : Nat) (bytes : List UInt8) : Option Report :=
  match Module.parse bytes with
  | .error e => some (failure "" e.message)
  | .ok m => ofModule fuel m

end Report

end WebAssembly
