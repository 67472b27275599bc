import Mathlib
import WebAssembly.Proofs.Linking.Outcome
import WebAssembly.Proofs.Machine.Soundness
import WebAssembly.Proofs.Store.Access

/-!
# Histories of a store

What can happen to a store, step by step: its surroundings add instances of their own, write to what
is there, link modules and call functions, with whatever outcome. Every step keeps a store well
typed (`Store.Step.grows`), and so every store that comes about from the empty one is. Two results
follow for all these stores: a call with arguments of the right types gives results of the right
types unless it traps or a host function is at fault, and linking has exactly the outcome that the
first fault of the module dictates.
-/

namespace WebAssembly

/-! ## Steps

All that can be done to a store from outside, and nothing else: each case is one operation that an
embedder is offered, together with what it demands.
-/

/-- What the surroundings of a store can do with it. An operation that fails is a step only where it
may leave something behind. -/
inductive Store.Step (s : Store) : Store → Prop
  | newHostFunc (type : FuncType) (run : HostFunc) : Step s (s.newHostFunc type run).2
  | newTable (type : TableType) : Step s (s.newTable type).2
  | newMemory {type : MemoryType} {addr : Nat} {s' : Store} :
      s.newMemory type = .ok (addr, s') → Step s s'
  | newGlobal {type : GlobalType} {v : Value} {addr : Nat} {s' : Store} :
      s.newGlobal type v = .ok (addr, s') → Step s s'
  | tableGrow {addr size : Nat} {delta : UInt32} {s' : Store} :
      s.tableGrow addr delta = .ok (size, s') → Step s s'
  | memoryGrow {addr pages : Nat} {delta : UInt32} {s' : Store} :
      s.memoryGrow addr delta = .ok (pages, s') → Step s s'
  | memoryWrite {addr start : Nat} {bytes : List UInt8} {s' : Store} :
      s.memoryWrite addr start bytes = .ok ((), s') → Step s s'
  | globalSet {addr : Nat} {v : Value} {s' : Store} :
      s.globalSet addr v = .ok ((), s') → Step s s'
  /-- A slot is emptied or gets a function of the store. -/
  | tableSet {addr i : Nat} {f : Option Nat} {s' : Store} :
      (∀ func, f = some func → func < s.funcs.size) →
      s.tableSet addr i f = .ok ((), s') → Step s s'
  | instantiate {fuel : Nat} {m : Module} {imports : List ExternVal} {stack : Stack Value}
      {r : EStateM.Result RuntimeError Machine Nat} :
      Run.instantiate fuel m imports ⟨s, stack⟩ = some r → Step s (final r).store
  | invoke {fuel addr : Nat} {args : List Value} {stack : Stack Value}
      {r : EStateM.Result RuntimeError Machine (List Value)} :
      Run.invoke fuel addr args ⟨s, stack⟩ = some r → Step s (final r).store

/-- A store that comes about from the empty one. -/
def Store.Reachable (s : Store) : Prop :=
  Relation.ReflTransGen Store.Step {} s

/-! ## Instantiation

Linking and then the start function, if there is one. The call is made on a stack of its own.
-/

namespace Run

variable {m : Module} {imports : List ExternVal} {mach mach' : Machine} {inst : ModuleInstance}
variable {addr : Nat}

theorem instantiate_of_error {e : RuntimeError} (h : Exec.link m imports mach = .error e mach')
    (fuel : Nat) : instantiate fuel m imports mach = some (.error e mach') :=
  lift_of_error h

theorem instantiate_of_no_start (h : Exec.link m imports mach = .ok (addr, inst) mach')
    (hstart : m.start = none) (fuel : Nat) :
    instantiate fuel m imports mach = some (.ok addr mach') := by
  unfold instantiate
  rw [lift_of_ok h, hstart]
  rfl

/-- With a start function, instantiation is linking and then a call on a stack of its own. -/
theorem instantiate_of_start (h : Exec.link m imports mach = .ok (addr, inst) mach') {i : UInt32}
    {func : Nat} (hstart : m.start = some i) (hfunc : inst.func i = .ok func) (fuel : Nat) :
    instantiate fuel m imports mach =
      (do let _ ← isolated (invoke fuel func []); return addr : Run Nat) mach' := by
  unfold instantiate
  rw [lift_of_ok h, hstart]
  exact lift_of_ok (Exec.ofExcept_of_ok hfunc _)

/-- Linking keeps a store well typed, whether it succeeds or not. -/
theorem instantiate_grows {s : Store} (hs : s.WellTyped) {fuel : Nat} {stack : Stack Value}
    {r : EStateM.Result RuntimeError Machine Nat}
    (h : instantiate fuel m imports ⟨s, stack⟩ = some r) : s.Grows (final r).store := by
  have hlink := Exec.link_outcome hs m imports stack
  split at hlink
  · obtain ⟨s', herror, hgrows⟩ := hlink
    rw [instantiate_of_error herror] at h
    cases h
    exact hgrows
  · obtain ⟨s', inst, hok, hgrows, hfunc⟩ := hlink
    -- whether linking fails or not the store has grown, and a start function runs in it
    cases hstart : m.start with
    | none =>
        rw [instantiate_of_no_start hok hstart] at h
        cases h
        exact hgrows
    | some i =>
        obtain ⟨func, _, hfunc, _⟩ := hfunc i hstart
        rw [instantiate_of_start hok hstart hfunc] at h
        have hkeeps : s'.Keeps (final r).store :=
          ((Steady.isolated (.invoke fuel func [])).bind fun _ => .pure _) _ r h
        exact ⟨hgrows.1.trans hkeeps.extends, hgrows.2.keeps hkeeps⟩

end Run

/-! ## What every step preserves

Well-typedness, by one lemma for each kind of step. What runs code is steady, so nothing has to be
known of the code here.
-/

namespace Store

variable {s s' : Store}

theorem Keeps.grows (h : s.Keeps s') (hs : s.WellTyped) : s.Grows s' :=
  ⟨h.extends, hs.keeps h⟩

/-- A table may be replaced by what it evolves to. -/
theorem modifyTable_grows (hs : s.WellTyped) {addr : Nat} {t t' : Table} (ht : s.table addr = .ok t)
    (hevolves : t.Evolves t') (hwithin : t.Within s → t'.Within s) :
    s.Grows (s.modifyTable addr fun _ => t') := by
  have hevolves' : ∀ t₀, s.tables[addr]? = some t₀ → t₀.Evolves t' :=
    forall_of_atAddress ht hevolves
  exact ⟨extends_modifyTable hevolves',
    hs.modifyTable hevolves' (forall_of_atAddress ht hwithin)⟩

/-- Every step keeps what is in a store, and keeps it well typed. -/
theorem Step.grows (h : s.Step s') (hs : s.WellTyped) : s.Grows s' := by
  -- each way from outside to change a store, those that run code by what running code may do
  cases h with
  | newHostFunc type run => exact ⟨extends_addFunc s _, hs.addHostFunc type run⟩
  | newTable type => exact ⟨extends_addTable s _, hs.addTable (Table.within_ofType type s)⟩
  | newMemory h =>
      obtain ⟨memory, _, rfl⟩ := newMemory_eq_ok h
      exact ⟨extends_addMemory s memory, hs.addMemory memory⟩
  | newGlobal h =>
      obtain ⟨g, hg, rfl⟩ := newGlobal_eq_ok h
      exact ⟨extends_addGlobal s g, hs.addGlobal hg⟩
  | tableGrow h =>
      obtain ⟨t, t', ht, hgrow, rfl⟩ := tableGrow_eq_ok h
      exact modifyTable_grows hs ht (Table.evolves_of_grow hgrow) fun hwithin => hwithin.grow hgrow
  | memoryGrow h => exact (keeps_of_memoryGrow h).grows hs
  | memoryWrite h => exact (keeps_of_memoryWrite h).grows hs
  | globalSet h => exact (keeps_of_globalSet h).grows hs
  | tableSet hf h =>
      obtain ⟨t, t', ht, hset, rfl⟩ := tableSet_eq_ok h
      exact modifyTable_grows hs ht (Table.evolves_of_set hset) fun hwithin => hwithin.set hset hf
  | instantiate h => exact Run.instantiate_grows hs h
  | invoke h => exact (Run.Steady.invoke _ _ _ _ _ h).grows hs

/-- Whatever has been done to a store, it is well typed. -/
theorem Reachable.wellTyped (h : s.Reachable) : s.WellTyped := by
  induction h with
  | refl => exact .empty
  | tail _ hstep ih => exact (hstep.grows ih).2

/-! ## Calls

Soundness of the machine for the stores that come about, in which every function of a module has
been validated.
-/

/-- Type soundness. In every store that comes about, a function invoked with arguments of its types
gives results of its types and leaves the operand stack as it was; or it traps; or it fails because
a host function did or gave an answer that is not of its type. -/
theorem Reachable.invoke_sound (hs : s.Reachable) {addr : Nat} {f : FuncInstance}
    (hf : s.funcs[addr]? = some f) {args : List Value}
    (hargs : args.map Value.type = f.type.params) {stack : Stack Value} {fuel : Nat}
    {r : EStateM.Result RuntimeError Machine (List Value)}
    (hr : Run.invoke fuel addr args ⟨s, stack⟩ = some r) :
    Meets (fun vs m => vs.map Value.type = f.type.results ∧ m.stack = stack)
      (fun e m => e.IsTrap ∨ HostFault s m.store e) r :=
  invoke_ends_sound hs.wellTyped hf hargs hr

end Store

/-- A module with one function, which multiplies its argument with what it gives for the number
before. It calls itself through a table. -/
def factorial : Module where
  types := [⟨[.i32], [.i32]⟩]
  funcs := [⟨0, [],
    [.plain (.localGet 0),
      .ifElse (.value .i32)
        [.plain (.localGet 0), .plain (.localGet 0), .plain (.const (.i32 1)),
          .plain (.numeric (.intBinary .i32 .sub)), .plain (.const (.i32 0)), .callIndirect 0,
          .plain (.numeric (.intBinary .i32 .mul))]
        [.plain (.const (.i32 1))]]⟩]
  tables := [⟨⟨1, some 1⟩⟩]
  elements := [⟨0, [.plain (.const (.i32 0))], [0]⟩]

/-- The empty store after `factorial` has been linked. -/
def factorialStore : Store :=
  ((Run.instantiate 0 factorial [] ⟨{}, .empty⟩).map fun r => (final r).store).getD {}

theorem reachable_factorialStore : factorialStore.Reachable := by
  unfold factorialStore
  cases h : Run.instantiate 0 factorial [] ⟨{}, .empty⟩ with
  | none => exact .refl
  | some r => exact .single (.instantiate h)

theorem factorial_sound :
    factorialStore.Reachable ∧ ∃ f, factorialStore.funcs[0]? = some f ∧
      [Value.i32 3].map Value.type = f.type.params ∧
      Run.invoke 100 0 [.i32 3] ⟨factorialStore, .empty⟩ =
        some (.ok [.i32 6] ⟨factorialStore, .empty⟩) ∧
      [Value.i32 6].map Value.type = f.type.results := by
  have htype : factorialStore.funcs[0]?.map FuncInstance.type = some ⟨[.i32], [.i32]⟩ := by
    cbv
  have hrun : Run.invoke 100 0 [.i32 3] ⟨factorialStore, .empty⟩ =
      some (.ok [.i32 6] ⟨factorialStore, .empty⟩) := by
    cbv
  obtain ⟨f, hf, htype⟩ := Option.map_eq_some_iff.mp htype
  have hargs : [Value.i32 3].map Value.type = f.type.params := by
    rw [htype]
    rfl
  exact ⟨reachable_factorialStore, f, hf, hargs, hrun,
    (reachable_factorialStore.invoke_sound hf hargs hrun).1⟩

/-! ## Linking

For the stores that come about the outcome of linking is a function of the module, the imports and
the store.
-/

/-- The outcome of linking, in every store that comes about. There is no fault exactly where all
conditions on the module and its imports hold. A fault is what linking fails with, and nothing is
run. Without one, linking gets to the start function: if there is none it is done, and else the
start function exists, takes and gives nothing, and all that is left is to invoke it. -/
theorem Store.Reachable.instantiate_outcome {s : Store} (hs : s.Reachable) (m : Module)
    (imports : List ExternVal) (stack : Stack Value) :
    (m.linkFault s imports = none ↔ m.Linkable s imports) ∧
      match m.linkFault s imports with
      | some e => ∃ s', ∀ fuel,
        Run.instantiate fuel m imports ⟨s, stack⟩ = some (.error e ⟨s', stack⟩)
      | none => ∃ s' inst, Exec.link m imports ⟨s, stack⟩ = .ok (s.modules.size, inst) ⟨s', stack⟩ ∧
        match m.start with
        | none => ∀ fuel, Run.instantiate fuel m imports ⟨s, stack⟩ =
          some (.ok s.modules.size ⟨s', stack⟩)
        | some i => ∃ func f, inst.func i = .ok func ∧ s'.func func = .ok f ∧ f.type = ⟨[], []⟩ ∧
          ∀ fuel, Run.instantiate fuel m imports ⟨s, stack⟩ =
            (do
              let _ ← Run.isolated (Run.invoke fuel func [])
              return s.modules.size : Run Nat) ⟨s', stack⟩ := by
  refine ⟨Module.linkFault_eq_none_iff hs.wellTyped, ?_⟩
  have hlink := Exec.link_outcome hs.wellTyped m imports stack
  cases hfault : m.linkFault s imports with
  | some e =>
      rw [hfault] at hlink
      obtain ⟨s', herror, _⟩ := hlink
      exact ⟨s', Run.instantiate_of_error herror⟩
  | none =>
      rw [hfault] at hlink
      obtain ⟨s', inst, hok, _, hfunc⟩ := hlink
      refine ⟨s', inst, hok, ?_⟩
      cases hstart : m.start with
      | none => exact Run.instantiate_of_no_start hok hstart
      | some i =>
          obtain ⟨func, f, hfunc, hf, htype⟩ := hfunc i hstart
          exact ⟨func, f, hfunc, atAddress_eq_ok_iff.mpr hf, htype,
            Run.instantiate_of_start hok hstart hfunc⟩

/-- A module that imports a memory and a global, and has two data segments: an empty one at the
start of the memory, and one byte at the offset that the global holds. -/
def offsetFromGlobal : Module where
  imports := [⟨"env", "memory", .memory ⟨⟨0, none⟩⟩⟩, ⟨"env", "offset", .global ⟨.i32, false⟩⟩]
  data := [⟨0, [.plain (.const (.i32 0))], []⟩, ⟨0, [.plain (.globalGet 0)], [1]⟩]

/-- A store with an empty memory. -/
def emptyMemory : Store :=
  (({} : Store).addMemory ⟨#[], none⟩).2

/-- A store with an empty memory and a global that holds the largest offset. -/
def largestOffset : Store :=
  (emptyMemory.addGlobal ⟨⟨.i32, false⟩, .i32 (-1)⟩).2

theorem reachable_largestOffset : largestOffset.Reachable := by
  have hmemory : ({} : Store).newMemory ⟨⟨0, none⟩⟩ = .ok (0, emptyMemory) := by
    cbv
  have hglobal : emptyMemory.newGlobal ⟨.i32, false⟩ (.i32 (-1)) = .ok (0, largestOffset) := by
    cbv
  exact .tail (.single (.newMemory hmemory)) (.newGlobal hglobal)

/-- The empty segment fits into an empty memory. The offset `-1` is read as unsigned, so the other
segment does not. -/
theorem offsetFromGlobal_outcome :
    largestOffset.Reachable ∧ ∃ s', ∀ fuel,
      Run.instantiate fuel offsetFromGlobal [.memory 0, .global 0] ⟨largestOffset, .empty⟩ =
        some (.error .memoryInitOutOfBounds ⟨s', .empty⟩) := by
  have hfault : offsetFromGlobal.linkFault largestOffset [.memory 0, .global 0] =
      some .memoryInitOutOfBounds := by
    cbv
  have h :=
    (reachable_largestOffset.instantiate_outcome offsetFromGlobal [.memory 0, .global 0] .empty).2
  rw [hfault] at h
  exact ⟨reachable_largestOffset, h⟩

end WebAssembly
