import WebAssembly.Stack

/-!
# Stacks as lists

A stack is determined by its entries, so a statement about stacks can be made about `Stack.ofList`
of a list, the top entry first. Each operation then is an operation on the list.
-/

namespace WebAssembly.Stack

variable {α : Type}

/-- A stack with the given entries. -/
def ofList (as : List α) : Stack α :=
  ⟨as, as.length, rfl⟩

/-- A stack is known when its list is, topmost value first. -/
theorem eq_ofList {s : Stack α} {as : List α} (h : s.toList = as) : s = ofList as :=
  eq_of_toList_eq h

@[simp]
theorem toList_ofList (as : List α) : (ofList as).toList = as :=
  rfl

@[simp]
theorem ofList_toList (s : Stack α) : ofList s.toList = s :=
  (eq_ofList rfl).symm

/-- The two forms of a stack, for arguments by cases. -/
theorem eq_empty_or_push (s : Stack α) : s = empty ∨ ∃ a t, s = push t a := by
  cases h : s.toList with
  | nil => exact Or.inl (eq_of_toList_eq h)
  | cons a as => exact Or.inr ⟨a, ofList as, eq_of_toList_eq h⟩

/-- What was pushed last and what was there before can both be told from the stack. -/
theorem push_inj {s t : Stack α} {a b : α} : s.push a = t.push b ↔ a = b ∧ s = t := by
  constructor
  · intro h
    have hpop := congrArg pop? h
    rw [pop?_push, pop?_push] at hpop
    exact Prod.mk.inj (Option.some.inj hpop)
  · rintro ⟨rfl, rfl⟩
    rfl

theorem size_ofList (as : List α) : (ofList as).size = as.length :=
  rfl

/-- Values that are pushed one after the other end up in reverse order, the last one topmost. -/
theorem pushAll_eq (s : Stack α) (as : List α) :
    s.pushAll as = ofList (as.reverse ++ s.toList) :=
  eq_ofList rfl

/-- The same of a stack that is given by its list. -/
theorem pushAll_ofList (as bs : List α) : (ofList as).pushAll bs = ofList (bs.reverse ++ as) :=
  pushAll_eq (ofList as) bs

theorem drop_ofList (as : List α) (n : Nat) : (ofList as).drop n = ofList (as.drop n) :=
  eq_ofList rfl

/-- Cutting back to a height keeps what is at the bottom, which is the end of the list. -/
theorem truncate_ofList (as : List α) (height : Nat) :
    (ofList as).truncate height = ofList (as.drop (as.length - height)) :=
  eq_ofList rfl

/-- Nothing lies above the top. -/
theorem truncate_size (s : Stack α) : s.truncate s.size = s := by
  refine eq_of_toList_eq ?_
  rw [toList_truncate, s.size_eq, Nat.sub_self, List.drop_zero]

end WebAssembly.Stack
