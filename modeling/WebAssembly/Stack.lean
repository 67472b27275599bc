/-!
# Stacks

A stack is the list of its entries with the top one first. It carries its size, because heights are
asked for all the time and counting a tall stack takes long. The view is `Stack.toList`; each
operation has one equation through it.
-/

namespace WebAssembly

/-- Entries, the top one first, and how many there are. -/
structure Stack (α : Type) where
  toList : List α
  size : Nat
  size_eq : size = toList.length

namespace Stack

variable {α : Type}

/-- Stacks with the same entries are equal. -/
theorem eq_of_toList_eq {s t : Stack α} (h : s.toList = t.toList) : s = t := by
  cases s with
  | mk l n hn =>
    cases t with
    | mk l' n' hn' =>
      cases h
      cases hn
      cases hn'
      rfl

/-- The stack without entries. -/
def empty : Stack α :=
  ⟨[], 0, rfl⟩

/-- It with one more entry on top. -/
@[inline]
def push (s : Stack α) (a : α) : Stack α :=
  ⟨a :: s.toList, s.size + 1, congrArg (· + 1) s.size_eq⟩

/-- It with the given entries on top, the last one topmost. -/
def pushAll (s : Stack α) (as : List α) : Stack α :=
  ⟨as.reverse ++ s.toList, as.length + s.size, by
    rw [List.length_append, List.length_reverse, s.size_eq]⟩

/-- Its top entry and the rest. -/
@[inline]
def pop? (s : Stack α) : Option (α × Stack α) :=
  match s with
  | ⟨[], _, _⟩ => none
  | ⟨a :: rest, size, h⟩ => some (a, ⟨rest, size - 1, by rw [h]; rfl⟩)

/-- It without its `n` top entries. -/
def drop (s : Stack α) (n : Nat) : Stack α :=
  ⟨s.toList.drop n, s.size - n, by rw [List.length_drop, s.size_eq]⟩

/-- Its `n` top entries, the topmost one last. -/
def takeTop (s : Stack α) (n : Nat) : List α :=
  (s.toList.take n).reverse

/-- It without what lies above the given height. -/
def truncate (s : Stack α) (height : Nat) : Stack α :=
  s.drop (s.size - height)

@[simp]
theorem toList_empty : (empty : Stack α).toList = [] :=
  rfl

@[simp]
theorem toList_push (s : Stack α) (a : α) : (s.push a).toList = a :: s.toList :=
  rfl

@[simp]
theorem toList_pushAll (s : Stack α) (as : List α) :
    (s.pushAll as).toList = as.reverse ++ s.toList :=
  rfl

@[simp]
theorem toList_drop (s : Stack α) (n : Nat) : (s.drop n).toList = s.toList.drop n :=
  rfl

@[simp]
theorem toList_truncate (s : Stack α) (height : Nat) :
    (s.truncate height).toList = s.toList.drop (s.toList.length - height) := by
  rw [truncate, toList_drop, s.size_eq]

/-- Pushing and popping leads back. -/
@[simp]
theorem pop?_push (s : Stack α) (a : α) : (s.push a).pop? = some (a, s) :=
  rfl

/-- Nothing can be popped off the empty stack only. -/
theorem pop?_eq_none_iff (s : Stack α) : s.pop? = none ↔ s.toList = [] := by
  cases s with
  | mk l n hn => cases l <;> simp [pop?]

end Stack

end WebAssembly
