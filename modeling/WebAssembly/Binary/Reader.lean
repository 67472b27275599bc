import WebAssembly.Binary.Error

/-!
# Reading bytes

A `Reader` holds the bytes not yet read, how many were read before them, and how many constructs are
open around the current place. A `Decoder` takes a reader and gives a value or an error, and in both
cases the reader as it left it: after a failure one can read on, from where the failing step
stopped.
-/

namespace WebAssembly

/-- A place in a sequence of bytes. -/
structure Reader where
  unread : List UInt8
  pos : Nat := 0
  depth : Nat := 0

/-- A reading step. -/
abbrev Decoder (α : Type) : Type := EStateM DecodeError Reader α

/-- The reader at the start of `bytes`. -/
def Reader.ofBytes (bytes : List UInt8) : Reader :=
  { unread := bytes }

/-- The reader `n` bytes further on, with `rest` left. -/
def Reader.advance (r : Reader) (n : Nat) (rest : List UInt8) : Reader :=
  { r with unread := rest, pos := r.pos + n }

/-- The first `n` members and the rest, if there are that many. -/
def splitExact? {α : Type} : Nat → List α → Option (List α × List α)
  | 0, xs => some ([], xs)
  | _ + 1, [] => none
  | n + 1, x :: xs => (splitExact? n xs).map fun (taken, rest) => (x :: taken, rest)

namespace Decoder

/-! ## Bytes -/

/-- The next byte, left unread. -/
def peek : Decoder (Option UInt8) :=
  fun r => .ok r.unread.head? r

/-- The next byte, if there is one. -/
def next : Decoder (Option UInt8) := fun r =>
  match r.unread with
  | [] => .ok none r
  | b :: rest => .ok (some b) (r.advance 1 rest)

/-- The next byte. -/
def byte : Decoder UInt8 := fun r =>
  match r.unread with
  | [] => .error .unexpectedEof r
  | b :: rest => .ok b (r.advance 1 rest)

/-- Whether bytes are left. -/
def hasMore : Decoder Bool :=
  fun r => .ok (!r.unread.isEmpty) r

/-- The number of bytes left. -/
def remaining : Decoder Nat :=
  fun r => .ok r.unread.length r

/-- Leaves out `n` bytes. If there are fewer, all of them are left out. -/
def skip (n : Nat) : Decoder Unit := fun r =>
  match splitExact? n r.unread with
  | some (_, rest) => .ok () (r.advance n rest)
  | none => .error .unexpectedEof (r.advance r.unread.length [])

/-- The next `n` bytes. If there are fewer, none is read. -/
def bytes (n : Nat) : Decoder (List UInt8) := fun r =>
  match splitExact? n r.unread with
  | some (taken, rest) => .ok taken (r.advance n rest)
  | none => .error .unexpectedEof r

/-- The next byte, which must be one of `allowed`. It is read also if it is not. -/
def expect (allowed : List UInt8) (context : String) : Decoder UInt8 := do
  let received ← byte
  if allowed.contains received then return received
  else throw (.unexpectedByte received allowed context)

/-! ## Repetition -/

/-- `n` items one after the other, put behind those of `acc`, which are held in reverse. -/
def repeated {α : Type} (item : Decoder α) : (n : Nat) → (acc : List α) → Decoder (List α)
  | 0, acc => return acc.reverse
  | n + 1, acc => do
    let a ← item
    repeated item n (a :: acc)

/-- `n` items one after the other. -/
def replicate {α : Type} (n : Nat) (item : Decoder α) : Decoder (List α) :=
  repeated item n []

/-! ## Nesting -/

/-- Enters a construct, unless too many are open. -/
def enter : Decoder Unit := fun r =>
  if Bound.nesting.limit ≤ r.depth then .error (.limitExceeded .nesting) r
  else .ok () { r with depth := r.depth + 1 }

/-- Leaves a construct. -/
def leave : Decoder Unit :=
  fun r => .ok () { r with depth := r.depth - 1 }

end Decoder

end WebAssembly
