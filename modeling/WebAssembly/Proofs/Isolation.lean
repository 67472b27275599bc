import Mathlib
import WebAssembly.Proofs.Machine.Local

/-!
# Isolation

A call is confined to what its function can get at. `Store.invoke_confined` says that it changes
nothing else, and `Store.invoke_noninterference` that nothing else has any influence on it. Both
hold in every store, of code that need not be valid, and however the call ends. They are the two
halves of `Run.Local.invoke` for the least closed region around the function.

Host functions can remember earlier calls, whoever made them. Two stores agree on one only if it
will have the same answers in both.
-/

namespace WebAssembly

variable {α : Type}

/-- The value or the failure at the end, without the machine. -/
def answer : EStateM.Result RuntimeError Machine α → Except RuntimeError α
  | .ok a _ => .ok a
  | .error e _ => .error e

/-- Runs that end alike have moved in step up to their end. -/
theorem SameEnd.inStep {R : Region} {good : α → Prop} {m₁ m₂ : Machine}
    {r₁ r₂ : EStateM.Result RuntimeError Machine α} (h : SameEnd R good m₁ m₂ r₁ r₂) :
    InStep R m₁ m₂ (final r₁) (final r₂) := by
  cases h with
  | ok _ hstep => exact hstep
  | error hstep => exact hstep

theorem SameEnd.answer_eq {R : Region} {good : α → Prop} {m₁ m₂ : Machine}
    {r₁ r₂ : EStateM.Result RuntimeError Machine α} (h : SameEnd R good m₁ m₂ r₁ r₂) :
    answer r₁ = answer r₂ := by
  cases h <;> rfl

/-- Two calls, made in `s₁` and in `s₂`, that cannot be told apart inside the region: they have the
same answer, have called the same host functions in the same order with the same arguments, and
leave the same in the region. -/
structure SameCall (R : Region) (s₁ s₂ : Store) (r₁ r₂ : EStateM.Result RuntimeError Machine α) :
    Prop where
  answers : answer r₁ = answer r₂
  calls : ∃ calls, (final r₁).store.hostCalls = calls ++ s₁.hostCalls ∧
    (final r₂).store.hostCalls = calls ++ s₂.hostCalls
  agree : Store.AgreeOn R (final r₁).store (final r₂).store

namespace Store

variable {s s₁ s₂ : Store} {f : Nat}

/-! ## The least region around a function

What a call can get at is decided by following references, from the function to its module and on
from there. A call cannot widen it, since every address it uses comes from inside.
-/

theorem alike_reaches (h : AgreeOn (s₁.Reaches f) s₁ s₂) (stack : Stack Value) :
    Alike (s₁.Reaches f) ⟨s₁, stack⟩ ⟨s₂, stack⟩ :=
  ⟨rfl, closed_reaches s₁ f, h⟩

/-- A call made on two machines that agree on what its function can get at. -/
theorem invoke_sameEnd (h : AgreeOn (s₁.Reaches f) s₁ s₂) (args : List Value)
    (stack : Stack Value) (fuel : Nat) :
    Option.Rel (SameEnd (s₁.Reaches f) (fun _ => True) ⟨s₁, stack⟩ ⟨s₂, stack⟩)
      (Run.invoke fuel f args ⟨s₁, stack⟩) (Run.invoke fuel f args ⟨s₂, stack⟩) :=
  Run.Local.invoke fuel .self args _ _ (alike_reaches h stack)

/-! ## Confinement

Changes are made inside the region only, by the half of locality that speaks of one machine.
-/

/-- A call that ends, with results or a failure, changes no memory and no global that its function
cannot get at, no function, no table and no module instance, and adds and removes nothing. -/
theorem invoke_confined {args : List Value} {stack : Stack Value} {fuel : Nat}
    {r : EStateM.Result RuntimeError Machine (List Value)}
    (h : Run.invoke fuel f args ⟨s, stack⟩ = some r) :
    ChangesWithin (s.Reaches f) s (final r).store := by
  -- The machine is run beside itself.
  have hends := invoke_sameEnd (AgreeOn.refl (s.Reaches f) s) args stack fuel
  rw [h] at hends
  cases hends with
  | some hends => exact hends.inStep.left

end Store

/-! Two modules in one store, neither of which can get at the other. -/

/-- The first module adds one to what its memory holds, keeps the sum in its global, and hands it to
the host through its table. -/
def reporting : Expr :=
  [.plain (.const (.i32 0)), .plain (.load (.full .i32) ⟨0, 0⟩), .plain (.const (.i32 1)),
    .plain (.numeric (.intBinary .i32 .add)), .plain (.globalSet 0), .plain (.globalGet 0),
    .plain (.const (.i32 0)), .callIndirect 0]

/-- Both modules with their memories and globals. The second one owns those at address 0. Its global
holds `secret`, and it has told the host. -/
def twoModules (secret : BitVec 32) : Store where
  funcs := #[.host ⟨[.i32], [.i32]⟩ fun _ args => .ok args,
    .defined ⟨[], [.i32]⟩ 0 (Code.compile [] reporting),
    .defined ⟨[], [.i32]⟩ 1 (Code.compile [] [.plain (.globalGet 0)])]
  tables := #[⟨#[some 0], none⟩]
  memories := #[⟨#[7], none⟩, ⟨#[41, 0, 0, 0], none⟩]
  globals := #[⟨⟨.i32, true⟩, .i32 secret⟩, ⟨⟨.i32, true⟩, .i32 0⟩]
  modules := #[⟨#[⟨[.i32], [.i32]⟩], #[1], #[0], #[1], #[1], []⟩, ⟨#[], #[2], #[], #[0], #[0], []⟩]
  hostCalls := [⟨0, [.i32 secret]⟩]

/-- What belongs to the first module, and the host function in its table. -/
def firstModule : Region
  | .func addr => addr < 2
  | .table addr => addr = 0
  | .memory addr => addr = 1
  | .global addr => addr = 1
  | .module addr => addr = 0

/-- The first module refers to nothing of the second. -/
theorem closed_firstModule (secret : BitVec 32) : (twoModules secret).Closed firstModule where
  module addr m type code haddr hfunc := by
    change addr < 2 at haddr
    obtain rfl | rfl : addr = 0 ∨ addr = 1 := by omega
    · cases hfunc
    · cases hfunc
      rfl
  inst addr inst haddr hinst := by
    obtain rfl : addr = 0 := haddr
    cases hinst
    constructor <;> simp [firstModule, twoModules]
  slot addr func t haddr ht hmem := by
    obtain rfl : addr = 0 := haddr
    cases ht
    obtain rfl : func = 0 := by simpa [twoModules] using hmem
    exact Nat.zero_lt_two

namespace Store

/-- The first module runs to its end, and the global of the second one stays. -/
theorem invoke_confined_twoModules :
    ¬ (twoModules 5).Reaches 1 (.global 0) ∧
      ∃ r, Run.invoke 20 1 [] ⟨twoModules 5, .empty⟩ = some r ∧ answer r = .ok [.i32 42] ∧
        (final r).store.globals[0]? = (twoModules 5).globals[0]? := by
  have hother : ¬ (twoModules 5).Reaches 1 (.global 0) := fun hreach =>
    absurd (hreach.mem_of_closed (closed_firstModule 5) Nat.one_lt_two) Nat.zero_ne_one
  have hrun : (Run.invoke 20 1 [] ⟨twoModules 5, .empty⟩).map answer = some (.ok [.i32 42]) := by
    cbv
  obtain ⟨r, hr, hanswer⟩ := Option.map_eq_some_iff.mp hrun
  exact ⟨hother, r, hr, hanswer, (invoke_confined hr).globals 0 hother⟩

/-! ## Non-interference

By the half of locality that speaks of two machines: where they agree on the region, they do the
same there.
-/

/-- In two stores that agree on all that a function can get at, the function can get at the same,
and within every bound a call of it ends in both or in neither; if it ends, both calls have the same
answer and the same calls of host functions, and they leave stores that agree on it again. -/
theorem invoke_noninterference (h : AgreeOn (s₁.Reaches f) s₁ s₂) (args : List Value)
    (stack : Stack Value) (fuel : Nat) :
    (∀ p, s₁.Reaches f p ↔ s₂.Reaches f p) ∧
      Option.Rel (SameCall (s₁.Reaches f) s₁ s₂)
        (Run.invoke fuel f args ⟨s₁, stack⟩) (Run.invoke fuel f args ⟨s₂, stack⟩) := by
  refine ⟨h.reaches_iff, ?_⟩
  have hends := invoke_sameEnd h args stack fuel
  generalize Run.invoke fuel f args ⟨s₁, stack⟩ = r₁ at hends ⊢
  generalize Run.invoke fuel f args ⟨s₂, stack⟩ = r₂ at hends ⊢
  cases hends with
  | none => exact .none
  | some hends => exact .some ⟨hends.answer_eq, hends.inStep.calls, hends.inStep.alike.agree⟩

/-- The two stores differ in the global of the second module and in what the host was told, which it
does not remember. -/
theorem agreeOn_twoModules (secret secret' : BitVec 32) :
    AgreeOn firstModule (twoModules secret) (twoModules secret') := by
  intro p hp
  cases p with
  | func addr =>
      obtain rfl | rfl : addr = 0 ∨ addr = 1 := by
        change addr < 2 at hp
        omega
      · refine ⟨rfl, fun type run hf calls args => ?_⟩
        cases hf
        rfl
      · exact ⟨rfl, fun type run hf => by cases hf⟩
  | global addr =>
      obtain rfl : addr = 1 := hp
      rfl
  | _ => rfl

/-- What the second module keeps in its global has no influence on the first one. -/
theorem invoke_noninterference_twoModules :
    (twoModules 5).globals[0]? ≠ (twoModules 6).globals[0]? ∧
      Option.Rel (SameCall ((twoModules 5).Reaches 1) (twoModules 5) (twoModules 6))
        (Run.invoke 20 1 [] ⟨twoModules 5, .empty⟩)
        (Run.invoke 20 1 [] ⟨twoModules 6, .empty⟩) := by
  have hagree : AgreeOn ((twoModules 5).Reaches 1) (twoModules 5) (twoModules 6) := fun p hreach =>
    agreeOn_twoModules 5 6 p (hreach.mem_of_closed (closed_firstModule 5) Nat.one_lt_two)
  refine ⟨?_, (invoke_noninterference hagree [] .empty 20).2⟩
  intro heq
  cases heq

end Store

end WebAssembly
