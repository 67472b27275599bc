import WebAssembly.Report

/-!
# The command line

Takes the path of a module and prints the report on it.
-/

namespace WebAssembly

/-- The system's words and number for a failure to read a file. -/
def FileError.ofError : IO.Error → FileError
  | .noFileOrDirectory .. => .notFound
  | .permissionDenied _ code details => ⟨details, code.toNat⟩
  | .inappropriateType _ code details => ⟨details, code.toNat⟩
  | .resourceExhausted _ code details => ⟨details, code.toNat⟩
  | .otherError code details => ⟨details, code.toNat⟩
  | e => ⟨toString e, 0⟩

/-- Reads the file that the arguments name and reports on it. -/
def report (args : List String) : IO (Option Report) := do
  match args with
  | [] => return some .usage
  | path :: _ =>
    match ← (IO.FS.readBinFile path).toBaseIO with
    | .error e => return some (.unreadable path (.ofError e))
    | .ok bytes => return Report.ofBytes Engine.maxSteps bytes.toList

end WebAssembly

/-- Prints the report and gives its exit code. -/
def main (args : List String) : IO UInt32 := do
  match ← WebAssembly.report args with
  | none => return 1
  | some report =>
    IO.print report.out
    IO.eprint report.err
    return UInt32.ofNat report.code
