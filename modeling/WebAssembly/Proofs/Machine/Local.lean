import WebAssembly.Proofs.Machine.Operations
import WebAssembly.Proofs.Machine.Runs
import WebAssembly.Proofs.Store.Region

/-!
# Code stays inside its region

Two machines with the same stack whose stores agree on a closed region are run side by side. An
operation is local to the region if it cannot tell the two apart: it ends the same way on both, it
leaves them in agreement, it calls the same host functions, and on neither does it change anything
outside. Locality is closed under doing one thing after another, so it only has to be shown that
each look-up asks for a place of the region and that each change is made to one.

Which places come up depends on what was found before: an index of a module instance gives an
address, an address a function, a function its module instance. The predicate `good` of
`Exec.Local` hands on what is known of the value so far.
-/

namespace WebAssembly

variable {α β : Type} {R : Region}

/-! ## Two machines side by side

What it is for two runs to move in step: they stay in agreement on the region, they record the same
host calls, and neither changes anything outside.
-/

/-- Two machines that look the same from inside the region. -/
structure Alike (R : Region) (m₁ m₂ : Machine) : Prop where
  stack : m₁.stack = m₂.stack
  closed : m₁.store.Closed R
  agree : Store.AgreeOn R m₁.store m₂.store

/-- Two machines `m₁` and `m₂` have come to `n₁` and `n₂` in the same way. -/
structure InStep (R : Region) (m₁ m₂ n₁ n₂ : Machine) : Prop where
  alike : Alike R n₁ n₂
  left : Store.ChangesWithin R m₁.store n₁.store
  right : Store.ChangesWithin R m₂.store n₂.store
  calls : ∃ calls, n₁.store.hostCalls = calls ++ m₁.store.hostCalls ∧
    n₂.store.hostCalls = calls ++ m₂.store.hostCalls

theorem InStep.refl {m₁ m₂ : Machine} (h : Alike R m₁ m₂) : InStep R m₁ m₂ m₁ m₂ :=
  ⟨h, .refl R _, .refl R _, [], rfl, rfl⟩

/-- Machines that move in step, and then in step again, have moved in step. The host calls in
between are added up. -/
theorem InStep.trans {m₁ m₂ n₁ n₂ k₁ k₂ : Machine} (h : InStep R m₁ m₂ n₁ n₂)
    (h' : InStep R n₁ n₂ k₁ k₂) : InStep R m₁ m₂ k₁ k₂ := by
  obtain ⟨first, hn₁, hn₂⟩ := h.calls
  obtain ⟨second, hk₁, hk₂⟩ := h'.calls
  refine ⟨h'.alike, h.left.trans h'.left, h.right.trans h'.right, second ++ first, ?_, ?_⟩
  · rw [hk₁, hn₁, List.append_assoc]
  · rw [hk₂, hn₂, List.append_assoc]

/-- Both end with the same value, which satisfies `good`, or with the same failure. -/
inductive SameEnd (R : Region) (good : α → Prop) (m₁ m₂ : Machine) :
    EStateM.Result RuntimeError Machine α → EStateM.Result RuntimeError Machine α → Prop
  | ok {a : α} {n₁ n₂ : Machine} : good a → InStep R m₁ m₂ n₁ n₂ →
      SameEnd R good m₁ m₂ (.ok a n₁) (.ok a n₂)
  | error {e : RuntimeError} {n₁ n₂ : Machine} : InStep R m₁ m₂ n₁ n₂ →
      SameEnd R good m₁ m₂ (.error e n₁) (.error e n₂)

/-- What has happened before does not matter for how two machines end. -/
theorem SameEnd.after {good : α → Prop} {m₁ m₂ n₁ n₂ : Machine}
    {r₁ r₂ : EStateM.Result RuntimeError Machine α} (hstep : InStep R m₁ m₂ n₁ n₂)
    (h : SameEnd R good n₁ n₂ r₁ r₂) : SameEnd R good m₁ m₂ r₁ r₂ := by
  cases h with
  | ok hgood hrest => exact .ok hgood (hstep.trans hrest)
  | error hrest => exact .error (hstep.trans hrest)

/-- One operation after another. What the first one did is known of the machines that the second one
starts on. -/
theorem SameEnd.bind {mid : α → Prop} {good : β → Prop} {m₁ m₂ : Machine} {x : Exec α}
    {f : α → Exec β} (hx : SameEnd R mid m₁ m₂ (x m₁) (x m₂))
    (hf : ∀ a n₁ n₂, mid a → InStep R m₁ m₂ n₁ n₂ → SameEnd R good n₁ n₂ (f a n₁) (f a n₂)) :
    SameEnd R good m₁ m₂ ((x >>= f) m₁) ((x >>= f) m₂) := by
  generalize hr₁ : x m₁ = r₁ at hx
  generalize hr₂ : x m₂ = r₂ at hx
  cases hx with
  | ok ha hstep =>
      rw [bind_of_ok hr₁, bind_of_ok hr₂]
      exact (hf _ _ _ ha hstep).after hstep
  | error hstep =>
      rw [bind_of_error hr₁, bind_of_error hr₂]
      exact .error hstep

/-! ## Local operations

Locality of the building blocks, and that it is kept by sequencing. The value handed on is the same
on both sides and satisfies `good`.
-/

/-- An operation that sees and changes only what is in the region, and whose value satisfies
`good`. -/
def Exec.Local (R : Region) (good : α → Prop) (x : Exec α) : Prop :=
  ∀ m₁ m₂ : Machine, Alike R m₁ m₂ → SameEnd R good m₁ m₂ (x m₁) (x m₂)

/-- An activation whose indices lead into the region. -/
def Activation.Within (act : Activation) (R : Region) : Prop :=
  act.frame.module.Within R

/-- What an activation asks for concerns the region only. -/
def Flow.Within (R : Region) : Flow → Prop
  | .next act => act.Within R
  | .call act func => act.Within R ∧ R (.func func)
  | .done _ => True

namespace Exec.Local

variable {good mid : α → Prop}

/-- What is computed from what lies in the region is again within it. -/
theorem bind {x : Exec α} {f : α → Exec β} {good : β → Prop} (hx : Local R mid x)
    (hf : ∀ a, mid a → Local R good (f a)) : Local R good (x >>= f) :=
  fun m₁ m₂ halike => (hx m₁ m₂ halike).bind fun a n₁ n₂ ha hstep => hf a ha n₁ n₂ hstep.alike

theorem pure {a : α} (ha : good a) : Local R good (pure a : Exec α) :=
  fun _ _ halike => .ok ha (.refl halike)

theorem throw (e : RuntimeError) : Local R good (throw e : Exec α) :=
  fun _ _ halike => .error (.refl halike)

theorem ite {p : Prop} [Decidable p] {x y : Exec α} (hx : Local R good x) (hy : Local R good y) :
    Local R good (if p then x else y) := by
  split
  · exact hx
  · exact hy

/-- The stack belongs to the machine and not to any region. -/
theorem onStack (x : OnStack α) : Local R (fun _ => True) (onStack x) := by
  rintro ⟨s₁, stack₁⟩ ⟨s₂, stack₂⟩ halike
  obtain rfl : stack₁ = stack₂ := halike.stack
  have hstep : ∀ stack : Stack Value,
      InStep R ⟨s₁, stack₁⟩ ⟨s₂, stack₁⟩ ⟨s₁, stack⟩ ⟨s₂, stack⟩ := fun stack =>
    ⟨⟨rfl, halike.closed, halike.agree⟩, .refl R s₁, .refl R s₂, [], rfl, rfl⟩
  cases h : x stack₁ with
  | ok a stack =>
      rw [onStack_of_ok h, onStack_of_ok h]
      exact .ok trivial (hstep stack)
  | error e stack =>
      rw [onStack_of_error h, onStack_of_error h]
      exact .error (hstep stack)

theorem lift (x : OnStack α) : Local R (fun _ => True) (liftM x : Exec α) :=
  onStack x

theorem ofExcept {x : Except RuntimeError α} (h : ∀ a, x = .ok a → good a) :
    Local R good (ofExcept x) := by
  cases x with
  | ok a => exact pure (h a rfl)
  | error e => exact throw e

/-- A question that has one answer in both stores. -/
theorem ask {question : Store → Except RuntimeError α}
    (hsame : ∀ s₁ s₂ : Store, Store.AgreeOn R s₁ s₂ → question s₁ = question s₂)
    (hgood : ∀ (s : Store) (a : α), s.Closed R → question s = .ok a → good a) :
    Local R good (ask question) := by
  intro m₁ m₂ halike
  have heq := hsame m₁.store m₂.store halike.agree
  cases h : question m₁.store with
  | ok a =>
      rw [ask_of_ok h, ask_of_ok (heq ▸ h)]
      exact .ok (hgood _ a halike.closed h) (.refl halike)
  | error e =>
      rw [ask_of_error h, ask_of_error (heq ▸ h)]
      exact .error (.refl halike)

/-- A change of both stores that takes place in the region and calls no host function. -/
theorem modifyStore {f : Store → Store} (hchanges : ∀ s, Store.ChangesWithin R s (f s))
    (hagree : ∀ s₁ s₂, Store.AgreeOn R s₁ s₂ → Store.AgreeOn R (f s₁) (f s₂))
    (hcalls : ∀ s, (f s).hostCalls = s.hostCalls) :
    Local R (fun _ => True) (modifyStore f) := by
  intro m₁ m₂ halike
  refine .ok trivial ⟨⟨halike.stack, ?_, hagree _ _ halike.agree⟩, hchanges _, hchanges _, [], ?_⟩
  · exact halike.closed.of_changesWithin (hchanges _)
  · exact ⟨hcalls _, hcalls _⟩

/-- A write to a memory of the region changes the region alike in both stores. -/
theorem modifyMemory {addr : Nat} (haddr : R (.memory addr)) (f : Memory → Memory) :
    Local R (fun _ => True) (Exec.modifyStore (·.modifyMemory addr f)) :=
  modifyStore (fun s => s.changesWithin_modifyMemory haddr f)
    (fun _ _ hagree => hagree.modifyMemory addr f) fun _ => rfl

theorem modifyGlobal {addr : Nat} (haddr : R (.global addr)) (f : Global → Global) :
    Local R (fun _ => True) (Exec.modifyStore (·.modifyGlobal addr f)) :=
  modifyStore (fun s => s.changesWithin_modifyGlobal haddr f)
    (fun _ _ hagree => hagree.modifyGlobal addr f) fun _ => rfl

/-- A call is recorded alike on both sides, at the end of whatever was recorded before. -/
theorem recordCall (call : HostCall) :
    Local R (fun _ => True) (Exec.modifyStore (·.recordCall call)) := by
  intro m₁ m₂ halike
  -- The arenas stay as they are, and the same call is added on both sides.
  have hchanges : ∀ s : Store, Store.ChangesWithin R s (s.recordCall call) := fun s =>
    ⟨rfl, rfl, rfl, rfl, rfl, fun _ _ => rfl, fun _ _ => rfl⟩
  refine .ok trivial ⟨⟨halike.stack, ?_, halike.agree.recordCall call⟩, hchanges _, hchanges _,
    [call], rfl, rfl⟩
  exact halike.closed.of_changesWithin (hchanges _)

/-! ## Look-ups

Each look-up is at a place of the region and so has the same answer. What is found refers to the
region again, because the region is closed.
-/

/-- An index of a module within the region names an address of the region. -/
theorem funcIndex {inst : ModuleInstance} (h : inst.Within R) (i : UInt32) :
    Local R (fun addr => R (.func addr)) (Exec.ofExcept (inst.func i)) :=
  ofExcept fun _ hi => h.funcs _ (Array.mem_of_getElem? (atIndex_eq_ok_iff.mp hi))

theorem tableIndex {inst : ModuleInstance} (h : inst.Within R) (i : UInt32) :
    Local R (fun addr => R (.table addr)) (Exec.ofExcept (inst.table i)) :=
  ofExcept fun _ hi => h.tables _ (Array.mem_of_getElem? (atIndex_eq_ok_iff.mp hi))

theorem memoryIndex {inst : ModuleInstance} (h : inst.Within R) (i : UInt32) :
    Local R (fun addr => R (.memory addr)) (Exec.ofExcept (inst.memory i)) :=
  ofExcept fun _ hi => h.memories _ (Array.mem_of_getElem? (atIndex_eq_ok_iff.mp hi))

theorem globalIndex {inst : ModuleInstance} (h : inst.Within R) (i : UInt32) :
    Local R (fun addr => R (.global addr)) (Exec.ofExcept (inst.global i)) :=
  ofExcept fun _ hi => h.globals _ (Array.mem_of_getElem? (atIndex_eq_ok_iff.mp hi))

/-- What is given without looking at the store. -/
theorem known (x : Except RuntimeError α) : Local R (fun _ => True) (Exec.ofExcept x) :=
  ofExcept fun _ _ => trivial

theorem askFunc {addr : Nat} (haddr : R (.func addr)) :
    Local R (fun _ => True) (Exec.ask (·.func addr)) :=
  ask (fun _ _ hagree => hagree.func haddr) fun _ _ _ _ => trivial

/-- A module of the region is the same in both stores, and all it refers to lies in the region. -/
theorem askModule {addr : Nat} (haddr : R (.module addr)) :
    Local R (fun inst => inst.Within R) (Exec.ask (·.module addr)) :=
  ask (fun _ _ hagree => hagree.module haddr) fun _ inst hclosed hinst =>
    hclosed.inst addr inst haddr (atAddress_eq_ok_iff.mp hinst)

/-- The table at a place of the region, whose slots lead to functions of the region. -/
theorem askTable {addr : Nat} (haddr : R (.table addr)) :
    Local R (fun t => ∀ func, some func ∈ t.slots → R (.func func))
      (Exec.ask (·.table addr)) :=
  ask (fun _ _ hagree => hagree.table haddr) fun _ t hclosed ht func =>
    hclosed.slot addr func t haddr (atAddress_eq_ok_iff.mp ht)

theorem askGlobal {addr : Nat} (haddr : R (.global addr)) :
    Local R (fun _ => True) (Exec.ask (·.global addr)) :=
  ask (fun _ _ hagree => hagree.global haddr) fun _ _ _ _ => trivial

/-- Anything that is asked of the memory at a place of the region. -/
theorem askMemory {addr : Nat} (haddr : R (.memory addr))
    (answer : Except RuntimeError Memory → Except RuntimeError α) :
    Local R (fun _ => True) (Exec.ask fun s => answer (s.memory addr)) :=
  ask (fun _ _ hagree => congrArg answer (hagree.memory haddr)) fun _ _ _ _ => trivial

/-! ## Plain instructions

They reach the store through the module instance of their frame, which is within the region.
-/

section Plain

variable {frame : Frame} (hframe : frame.module.Within R)

include hframe

theorem localSet (i : UInt32) (v : Value) :
    Local R (fun frame' => frame'.module.Within R) (localSet frame i v) :=
  ite (pure hframe) (throw _)

theorem globalGet (i : UInt32) : Local R (fun _ => True) (globalGet frame i) :=
  (globalIndex hframe i).bind fun _ haddr => (askGlobal haddr).bind fun _ _ => lift _

theorem globalSet (i : UInt32) : Local R (fun _ => True) (globalSet frame i) :=
  (globalIndex hframe i).bind fun _ haddr => (askGlobal haddr).bind fun _ _ =>
    (lift _).bind fun _ _ => (known _).bind fun _ _ => modifyGlobal haddr _

/-- The memory that code within the region works on is one of the region. -/
theorem memoryAddr : Local R (fun addr => R (.memory addr)) (memoryAddr frame) := by
  refine (memoryIndex hframe 0).bind fun addr haddr => ?_
  refine ask (fun _ _ hagree => congrArg (Except.map fun _ => addr) (hagree.memory haddr)) ?_
  intro s addr' _ hmap
  obtain ⟨_, _, rfl⟩ := map_atAddress_eq_ok_iff.mp hmap
  exact haddr

theorem load (op : LoadOp) (arg : MemArg) : Local R (fun _ => True) (load frame op arg) :=
  (memoryAddr hframe).bind fun _ haddr => (lift _).bind fun _ _ =>
    (askMemory haddr fun m => do
      let m ← m
      (m.read? _ _).mapError .trap).bind fun _ _ => lift _

theorem store (op : StoreOp) (arg : MemArg) : Local R (fun _ => True) (store frame op arg) :=
  (memoryAddr hframe).bind fun _ haddr => (lift _).bind fun _ _ => (lift _).bind fun _ _ =>
    (askMemory haddr fun m => m.map _).bind fun _ _ => ite (modifyMemory haddr _) (throw _)

theorem memorySize : Local R (fun _ => True) (memorySize frame) :=
  (memoryAddr hframe).bind fun _ haddr => (askMemory haddr fun m => m.map _).bind fun _ _ => lift _

theorem memoryGrow : Local R (fun _ => True) (memoryGrow frame) := by
  refine (memoryAddr hframe).bind fun _ haddr => (lift _).bind fun delta _ =>
    (askMemory haddr fun m => m.map _).bind ?_
  rintro ⟨pages, room⟩ _
  exact ite ((modifyMemory haddr _).bind fun _ _ => lift _) (lift _)

/-- An instruction leaves the module instance of its frame alone. -/
theorem plain (op : Plain) : Local R (fun frame' => frame'.module.Within R) (plain frame op) := by
  cases op with
  | drop => exact (lift _).bind fun _ _ => pure hframe
  | select => exact (lift _).bind fun _ _ => pure hframe
  | localGet i => exact (known _).bind fun _ _ => (lift _).bind fun _ _ => pure hframe
  | localSet i => exact (lift _).bind fun v _ => localSet hframe i v
  | localTee i =>
      exact (lift _).bind fun v _ => (localSet hframe i v).bind fun _ hframe' =>
        (lift _).bind fun _ _ => pure hframe'
  | globalGet i => exact (globalGet hframe i).bind fun _ _ => pure hframe
  | globalSet i => exact (globalSet hframe i).bind fun _ _ => pure hframe
  | load op arg => exact (load hframe op arg).bind fun _ _ => pure hframe
  | store op arg => exact (store hframe op arg).bind fun _ _ => pure hframe
  | memorySize => exact (memorySize hframe).bind fun _ _ => pure hframe
  | memoryGrow => exact (memoryGrow hframe).bind fun _ _ => pure hframe
  | const v => exact (lift _).bind fun _ _ => pure hframe
  | numeric op => exact (lift _).bind fun _ _ => pure hframe

end Plain

/-! ## Calls and control

A call leads to a function of the region, by the index space or by a table. A host function is asked
the same question on both sides, and agreement on its answers is part of agreement on the region.
-/

/-- A callee resolves its indices through its own module instance, which its function reaches. A
host function has one answer on both sides, since the same calls have been made in both stores since
they agreed. -/
theorem enter {addr : Nat} (haddr : R (.func addr)) :
    Local R (fun act => ∀ callee, act = some callee → callee.Within R) (enter addr) := by
  intro m₁ m₂ halike
  have hsame := halike.agree.func haddr
  cases hf : m₁.store.func addr with
  | error e =>
      rw [Exec.enter, bind_of_error (ask_of_error hf), bind_of_error (ask_of_error (hsame ▸ hf))]
      exact .error (.refl halike)
  | ok f =>
      rw [Exec.enter, bind_of_ok (ask_of_ok hf), bind_of_ok (ask_of_ok (hsame ▸ hf))]
      cases f with
      | host type run =>
          -- the host sees the calls made so far, and they differ only in what came before both runs
          have hanswers := halike.agree.answersAlike haddr hf
          refine (lift _ m₁ m₂ halike).bind fun args n₁ n₂ _ hstep => ?_
          obtain ⟨calls, hcalls₁, hcalls₂⟩ := hstep.calls
          have hanswer : run n₁.store.hostCalls args = run n₂.store.hostCalls args := by
            rw [hcalls₁, hcalls₂, hanswers]
          have hask : ∀ n : Machine, Exec.ask (fun s => .ok (run s.hostCalls args)) n =
              .ok (run n.store.hostCalls args) n := fun _ => rfl
          rw [bind_of_ok (hask n₁), bind_of_ok (hask n₂), hanswer]
          exact ((recordCall ⟨addr, args⟩).bind fun _ _ => (known _).bind fun _ _ =>
            (known _).bind fun _ _ => (lift _).bind fun _ _ => pure fun callee hnone => by
              cases hnone) n₁ n₂ hstep.alike
      | defined type moduleAddr code =>
          -- The indices of the callee are those of the module that its own function belongs to.
          have hmodule := halike.closed.module addr moduleAddr type code haddr
            (atAddress_eq_ok_iff.mp hf)
          refine ((lift _).bind fun args _ => ?_) m₁ m₂ halike
          refine (askModule hmodule).bind fun inst hinst => (lift _).bind fun height _ => pure ?_
          rintro callee ⟨⟩
          exact hinst

/-- A table of the region holds functions of the region only, so an indirect call stays within
it. -/
theorem indirect {inst : ModuleInstance} (hinst : inst.Within R) (type : UInt32) :
    Local R (fun addr => R (.func addr)) (indirect inst type) := by
  refine (known _).bind fun expected _ => (tableIndex hinst 0).bind fun tableAddr htable => ?_
  refine (askTable htable).bind fun table hslots => (lift _).bind fun index _ => ?_
  have hget : Local R (fun addr => R (.func addr))
      (Exec.ofExcept ((table.get index.toNat).mapError .trap)) :=
    ofExcept fun addr hok => hslots addr (Table.mem_slots_of_get (eq_ok_of_mapError hok))
  exact hget.bind fun addr haddr => (askFunc haddr).bind fun _ _ => ite (pure haddr) (throw _)

section Activation

variable {act : Activation} (hact : act.Within R)

include hact

/-- Moving within the code of an activation does not change what it refers to. -/
theorem follow (jump : Jump) : Local R (Flow.Within R) (follow act jump) := by
  cases jump with
  | next => exact pure hact
  | branch depth =>
      rw [Exec.follow]
      cases branchTo? act.labels depth with
      | none => exact throw _
      | some target => exact ite (pure trivial) (pure hact)

/-- One instruction within the region reads and changes the region only. -/
theorem instruction (i : Instruction) : Local R (Flow.Within R) (instruction act i) := by
  cases i with
  | unreachable => exact (lift _).bind fun jump _ => follow hact jump
  | nop => exact pure hact
  | br label => exact (lift _).bind fun jump _ => follow hact jump
  | brIf label => exact (lift _).bind fun jump _ => follow hact jump
  | brTable targets default => exact (lift _).bind fun jump _ => follow hact jump
  | ret => exact pure trivial
  | call i => exact (funcIndex hact i).bind fun _ haddr => pure ⟨hact, haddr⟩
  | callIndirect type => exact (indirect hact type).bind fun _ haddr => pure ⟨hact, haddr⟩
  | plain op => exact (plain hact op).bind fun _ hframe => pure hframe
  | block type body => exact throw _
  | loop type body => exact throw _
  | ifElse type thenBody elseBody => exact throw _

theorem op (o : Op) : Local R (Flow.Within R) (op act o) := by
  cases o with
  | block arity stop => exact (lift _).bind fun _ _ => pure hact
  | loop => exact (lift _).bind fun _ _ => pure hact
  | ifElse arity otherwise stop =>
      refine (lift _).bind fun condition _ => (lift _).bind fun height _ => pure ?_
      show (if condition = 0 then _ else _ : Activation).Within R
      split <;> exact hact
  | skip stop => exact pure hact
  | close => exact pure hact
  | instr i => exact instruction hact i

/-- One operation of an activation within the region stays within it. -/
theorem step : Local R (Flow.Within R) (step act) := by
  rw [Exec.step]
  cases act.code.ops[act.pc]? with
  | some o =>
      have hnext : (act.goTo (act.pc + 1)).Within R := hact
      exact op hnext o
  | none => exact pure trivial

/-- One op of the innermost activation: the step from which runs are made. -/
theorem advance {outer : Stack Activation} (houter : ∀ act ∈ outer.toList, act.Within R) :
    Local R (fun acts => ∀ act ∈ acts.toList, act.Within R) (advance act outer) := by
  refine (step hact).bind fun flow hflow => ?_
  cases flow with
  | next act => exact pure (List.forall_mem_cons.mpr ⟨hflow, houter⟩)
  | call act func =>
      -- the caller goes below the callee, with its place in the code moved on
      have hcaller : ∀ act' ∈ (outer.push act).toList, act'.Within R :=
        List.forall_mem_cons.mpr ⟨hflow.1, houter⟩
      refine (enter hflow.2).bind fun callee hcallee => ?_
      cases callee with
      | none => exact pure hcaller
      | some callee =>
          exact ite (throw _) (pure (List.forall_mem_cons.mpr ⟨hcallee callee rfl, hcaller⟩))
  | done act => exact (lift _).bind fun _ _ => pure houter

end Activation

end Exec.Local

/-! ## Local runs

By induction on the fuel, with all activations within the region.
-/

/-- A run that sees and changes only what is in the region: it ends on both machines or on neither,
within every bound. -/
def Run.Local (R : Region) (good : α → Prop) (x : Run α) : Prop :=
  ∀ m₁ m₂ : Machine, Alike R m₁ m₂ → Option.Rel (SameEnd R good m₁ m₂) (x m₁) (x m₂)

namespace Run.Local

variable {good mid : α → Prop}

theorem lift {x : Exec α} (hx : x.Local R good) : Local R good (liftM x : Run α) :=
  fun m₁ m₂ halike => .some (hx m₁ m₂ halike)

theorem pure {a : α} (ha : good a) : Local R good (pure a : Run α) :=
  fun _ _ halike => .some (.ok ha (.refl halike))

/-- What follows ends the same way on machines that have been brought to the same point. -/
theorem rel_after {x : Run α} {m₁ m₂ n₁ n₂ : Machine} (hx : Local R good x)
    (hstep : InStep R m₁ m₂ n₁ n₂) : Option.Rel (SameEnd R good m₁ m₂) (x n₁) (x n₂) := by
  have hends := hx n₁ n₂ hstep.alike
  generalize x n₁ = r₁ at hends ⊢
  generalize x n₂ = r₂ at hends ⊢
  cases hends with
  | some hends => exact .some (hends.after hstep)
  | none => exact .none

/-- Runs in sequence are local if their parts are. -/
theorem bind {x : Run α} {f : α → Run β} {good : β → Prop} (hx : Local R mid x)
    (hf : ∀ a, mid a → Local R good (f a)) : Local R good (x >>= f) := by
  intro m₁ m₂ halike
  have hends := hx m₁ m₂ halike
  generalize hr₁ : x m₁ = r₁ at hends
  generalize hr₂ : x m₂ = r₂ at hends
  cases hends with
  | none =>
      rw [bind_of_none hr₁, bind_of_none hr₂]
      exact .none
  | some hends =>
      cases hends with
      | ok ha hstep =>
          rw [bind_of_ok hr₁, bind_of_ok hr₂]
          exact (hf _ ha).rel_after hstep
      | error hstep =>
          rw [bind_of_error hr₁, bind_of_error hr₂]
          exact .some (.error hstep)

/-- By induction on the bound: each op leads to activations that are in the region again. -/
theorem finish (fuel : Nat) {acts : Stack Activation} (hacts : ∀ act ∈ acts.toList, act.Within R) :
    Local R (fun _ => True) (finish fuel acts) := by
  -- both runs have the same activations at each step, all of them within the region
  induction fuel generalizing acts with
  | zero =>
      intro m₁ m₂ halike
      rw [Run.finish]
      split
      · exact .some (.ok trivial (.refl halike))
      · exact .none
  | succ fuel ih =>
      rcases Stack.eq_empty_or_push acts with rfl | ⟨act, outer, rfl⟩
      · intro m₁ m₂ halike
        rw [finish_empty, finish_empty]
        exact .some (.ok trivial (.refl halike))
      · obtain ⟨hact, houter⟩ := List.forall_mem_cons.mp hacts
        intro m₁ m₂ halike
        rw [finish_succ_push, finish_succ_push]
        have hends := Exec.Local.advance hact houter m₁ m₂ halike
        generalize Exec.advance act outer m₁ = r₁ at hends ⊢
        generalize Exec.advance act outer m₂ = r₂ at hends ⊢
        cases hends with
        | ok hacts' hstep => exact (ih hacts').rel_after hstep
        | error hstep => exact .some (.error hstep)

theorem call (fuel : Nat) {addr : Nat} (haddr : R (.func addr)) :
    Local R (fun _ => True) (call fuel addr) := by
  refine (lift (Exec.Local.enter haddr)).bind fun act hact => ?_
  cases act with
  | none => exact pure trivial
  | some act => exact finish fuel (List.forall_mem_cons.mpr ⟨hact act rfl, nofun⟩)

/-- A call from outside into the region depends on the region and the arguments alone. -/
theorem invoke (fuel : Nat) {addr : Nat} (haddr : R (.func addr)) (args : List Value) :
    Local R (fun _ => True) (invoke fuel addr args) :=
  (lift (.askFunc haddr)).bind fun _ _ => (lift (.known _)).bind fun _ _ =>
    (lift (.onStack _)).bind fun _ _ => (lift (.onStack _)).bind fun _ _ =>
      (call fuel haddr).bind fun _ _ => (lift (.onStack _)).bind fun _ _ =>
        (lift (.onStack _)).bind fun _ _ => pure trivial

end Run.Local

end WebAssembly
