import Mathlib.Data.List.Forall2

/-!
# Operations that may fail

Checking, stack operations and execution are all written in `EStateM`: a state is kept also at a
failure. The equations here say what one operation followed by another does on a state, and what
operations on the entries of a list do one after the other. Checks of modules have no state and are
written in `Except`.
-/

namespace WebAssembly

variable {ε σ α β : Type}

/-- After a success the second operation goes on. -/
theorem bind_of_ok {x : EStateM ε σ α} {f : α → EStateM ε σ β} {s s' : σ} {a : α}
    (h : x s = .ok a s') : (x >>= f) s = f a s' := by
  show (match x s with | .ok a s => f a s | .error e s => .error e s) = f a s'
  rw [h]

/-- A failure ends both operations. -/
theorem bind_of_error {x : EStateM ε σ α} {f : α → EStateM ε σ β} {s s' : σ} {e : ε}
    (h : x s = .error e s') : (x >>= f) s = .error e s' := by
  show (match x s with | .ok a s => f a s | .error e s => .error e s) = .error e s'
  rw [h]

/-- Both operations succeed iff the first one does and then the second one. -/
theorem bind_eq_ok_iff {x : EStateM ε σ α} {f : α → EStateM ε σ β} {s s'' : σ} {b : β} :
    (x >>= f) s = .ok b s'' ↔ ∃ a s', x s = .ok a s' ∧ f a s' = .ok b s'' := by
  constructor
  · intro h
    cases hx : x s with
    | ok a s' => exact ⟨a, s', rfl, by rwa [bind_of_ok hx] at h⟩
    | error e s' =>
        rw [bind_of_error hx] at h
        cases h
  · rintro ⟨a, s', hx, hf⟩
    rw [bind_of_ok hx, hf]

/-- The state at the end, be it a success or a failure. -/
def final : EStateM.Result ε σ α → σ
  | .ok _ s => s
  | .error _ s => s

/-- A success satisfies `good`, a failure satisfies `bad`. -/
def Meets (good : α → σ → Prop) (bad : ε → σ → Prop) : EStateM.Result ε σ α → Prop
  | .ok a s => good a s
  | .error e s => bad e s

/-- One computation after another: what the first one establishes is all that the second one has to
go by, and a failure of either is a failure of both. -/
theorem Meets.bind {x : EStateM ε σ α} {f : α → EStateM ε σ β} {s : σ} {mid : α → σ → Prop}
    {good : β → σ → Prop} {bad : ε → σ → Prop} (hx : Meets mid bad (x s))
    (hf : ∀ a s', mid a s' → Meets good bad (f a s')) : Meets good bad ((x >>= f) s) := by
  cases hxs : x s with
  | ok a s' =>
      rw [hxs] at hx
      rw [bind_of_ok hxs]
      exact hf a s' hx
  | error e s' =>
      rw [hxs] at hx
      rw [bind_of_error hxs]
      exact hx

/-- A specification can be weakened, for results and for failures alike. -/
theorem Meets.mono {r : EStateM.Result ε σ α} {good good' : α → σ → Prop} {bad bad' : ε → σ → Prop}
    (h : Meets good bad r) (hgood : ∀ a s, good a s → good' a s)
    (hbad : ∀ e s, bad e s → bad' e s) : Meets good' bad' r := by
  cases r with
  | ok a s => exact hgood a s h
  | error e s => exact hbad e s h

/-- Partners for all members of a list, from a partner for each. -/
theorem exists_forall₂ {related : α → β → Prop} {xs : List α}
    (h : ∀ x ∈ xs, ∃ y, related x y) : ∃ ys, List.Forall₂ related xs ys := by
  induction xs with
  | nil => exact ⟨[], .nil⟩
  | cons x xs ih =>
      obtain ⟨⟨y, hy⟩, hxs⟩ := List.forall_mem_cons.mp h
      obtain ⟨ys, hys⟩ := ih hxs
      exact ⟨y :: ys, .cons hy hys⟩

/-- A member on the right has come from some member on the left. Read with `List.Forall₂.flip`, this
goes both ways. -/
theorem exists_of_mem_right {related : α → β → Prop} {xs : List α} {ys : List β}
    (h : List.Forall₂ related xs ys) {y : β} (hy : y ∈ ys) : ∃ x ∈ xs, related x y := by
  induction h with
  | nil => cases hy
  | @cons x _ _ _ hxy _ ih =>
      rcases List.mem_cons.mp hy with rfl | hy
      · exact ⟨x, List.mem_cons_self, hxy⟩
      · obtain ⟨x', hx', hxy'⟩ := ih hy
        exact ⟨x', List.mem_cons_of_mem x hx', hxy'⟩

/-- Operations on the entries of a list of which none changes the state. -/
theorem mapM_of_ok {f : α → EStateM ε σ β} {s : σ} {xs : List α} {ys : List β}
    (h : List.Forall₂ (fun x y => f x s = .ok y s) xs ys) : xs.mapM f s = .ok ys s := by
  induction h with
  | nil => rfl
  | cons hx _ ih =>
      rw [List.mapM_cons, bind_of_ok hx, bind_of_ok ih]
      rfl

/-- The outcome of a check that leaves the state as it is: the failure if there is a fault, and else
a result that satisfies `good`. -/
def Checks (fault : Option ε) (good : α → Prop) (s : σ) (r : EStateM.Result ε σ α) : Prop :=
  match fault with
  | some e => r = .error e s
  | none => ∃ a, good a ∧ r = .ok a s

/-- Checks one after the other end at the first fault. -/
theorem checks_mapM {f : α → EStateM ε σ β} {s : σ} {fault : α → Option ε} {good : α → β → Prop}
    {xs : List α} (h : ∀ x ∈ xs, Checks (fault x) (good x) s (f x s)) :
    Checks (xs.findSome? fault) (List.Forall₂ good xs) s (xs.mapM f s) := by
  -- along the list: the first member that fails decides, and those behind it are not looked at
  induction xs with
  | nil => exact ⟨[], .nil, rfl⟩
  | cons x xs ih =>
      obtain ⟨hx, hxs⟩ := List.forall_mem_cons.mp h
      rw [List.findSome?_cons, List.mapM_cons]
      cases hfault : fault x with
      | some e =>
          rw [hfault] at hx
          exact bind_of_error hx
      | none =>
          rw [hfault] at hx
          obtain ⟨y, hy, hx⟩ := hx
          rw [bind_of_ok hx]
          have ih := ih hxs
          cases hrest : xs.findSome? fault with
          | some e =>
              rw [hrest] at ih
              exact bind_of_error ih
          | none =>
              rw [hrest] at ih
              obtain ⟨ys, hys, ih⟩ := ih
              exact ⟨y :: ys, .cons hy hys, bind_of_ok ih⟩

/-! ## Checks without a state

The same equations for `Except`, in which validation of modules and access to single instances are
written.
-/

/-- A chain of two steps succeeds if both do. -/
theorem except_bind_eq_ok_iff {x : Except ε α} {f : α → Except ε β} {b : β} :
    (x >>= f) = .ok b ↔ ∃ a, x = .ok a ∧ f a = .ok b := by
  cases x with
  | ok a => exact ⟨fun h => ⟨a, rfl, h⟩, fun ⟨_, ha, h⟩ => Except.ok.inj ha ▸ h⟩
  | error e => exact ⟨nofun, nofun⟩

/-- Changing the result changes nothing about when there is one. -/
theorem except_map_eq_ok_iff {x : Except ε α} {f : α → β} {b : β} :
    x.map f = .ok b ↔ ∃ a, x = .ok a ∧ f a = b := by
  cases x <;> simp [Except.map]

/-- Naming a failure differently makes no success out of it. -/
theorem eq_ok_of_mapError {ε' : Type} {x : Except ε α} {f : ε → ε'} {a : α}
    (h : x.mapError f = .ok a) : x = .ok a := by
  cases x with
  | ok b =>
      cases h
      rfl
  | error e => cases h

/-- A check of all entries succeeds iff that of each one does. -/
theorem forM_eq_ok_iff {f : α → Except ε Unit} {xs : List α} :
    xs.forM f = .ok () ↔ ∀ x ∈ xs, f x = .ok () := by
  induction xs with
  | nil => exact ⟨fun _ => nofun, fun _ => rfl⟩
  | cons x xs ih =>
      rw [List.forM, except_bind_eq_ok_iff, List.forall_mem_cons]
      constructor
      · rintro ⟨_, hx, hxs⟩
        exact ⟨hx, ih.mp hxs⟩
      · rintro ⟨hx, hxs⟩
        exact ⟨_, hx, ih.mpr hxs⟩

/-- A list is gone through to the end if each member is, and the results stand in the order of the
members. -/
theorem mapM_eq_ok_iff {f : α → Except ε β} {xs : List α} {ys : List β} :
    xs.mapM f = .ok ys ↔ List.Forall₂ (fun x y => f x = .ok y) xs ys := by
  induction xs generalizing ys with
  | nil =>
      rw [List.forall₂_nil_left_iff]
      exact ⟨fun h => (Except.ok.inj h).symm, fun h => congrArg Except.ok h.symm⟩
  | cons x xs ih =>
      rw [List.mapM_cons, except_bind_eq_ok_iff, List.forall₂_cons_left_iff]
      constructor
      · rintro ⟨y, hy, h⟩
        obtain ⟨ys', hys', h⟩ := except_bind_eq_ok_iff.mp h
        exact ⟨y, ys', hy, ih.mp hys', (Except.ok.inj h).symm⟩
      · rintro ⟨y, ys', hy, hys', rfl⟩
        exact ⟨y, hy, except_bind_eq_ok_iff.mpr ⟨ys', ih.mpr hys', rfl⟩⟩

end WebAssembly
