import WebAssembly.Store.Memory

/-!
# Tables

A table is a sequence of slots, each empty or holding the address of a function, with an upper bound
if it was declared with one.
-/

namespace WebAssembly

/-- The most slots a table can have. -/
def maxSlots : Nat := 4294967295

/-- A table: its slots, and the most slots it was declared to have. -/
structure Table where
  slots : Array (Option Nat)
  max : Option UInt32

namespace Table

/-- A table of the given type: as many empty slots as it starts with. -/
def ofType (t : TableType) : Table :=
  ⟨Array.replicate t.limits.min.toNat none, t.limits.max⟩

/-- Number of slots. -/
def size (t : Table) : Nat :=
  t.slots.size

/-- The most slots it can have. -/
def capacity (t : Table) : Nat :=
  match t.max with
  | some max => max.toNat
  | none => maxSlots

/-- The type it has now: its size is the lower bound. -/
def type (t : Table) : TableType :=
  ⟨⟨UInt32.ofNat t.size, t.max⟩⟩

/-- The function in a slot. -/
def get (t : Table) (i : Nat) : Except Trap Nat :=
  match t.slots[i]? with
  | none => .error .undefinedElement
  | some none => .error .uninitializedElement
  | some (some f) => .ok f

/-- It with another content of a slot. -/
def set? (t : Table) (i : Nat) (f : Option Nat) : Except Trap Table :=
  if i < t.size then .ok { t with slots := t.slots.setIfInBounds i f }
  else .error .undefinedElement

/-- Size before growing, and it with `delta` more empty slots. -/
def grow? (t : Table) (delta : UInt32) : Except RuntimeError (Nat × Table) :=
  if t.size + delta.toNat ≤ t.capacity then
    .ok (t.size, { t with slots := t.slots ++ Array.replicate delta.toNat none })
  else .error .tableTooBig

/-- The slots from `start` up to `start + count` lie inside. -/
def inBounds (t : Table) (start count : Nat) : Bool :=
  decide (start + count ≤ t.size)

/-- It with the given functions from `start` on. -/
def write (t : Table) (start : Nat) (funcs : List Nat) : Table :=
  { t with slots := overwrite t.slots start (funcs.map some) }

/-- It with the given functions from `start` on, if they fit inside. -/
def write? (t : Table) (start : Nat) (funcs : List Nat) : Except Trap Table :=
  if t.inBounds start funcs.length then .ok (t.write start funcs) else .error .undefinedElement

end Table

end WebAssembly
