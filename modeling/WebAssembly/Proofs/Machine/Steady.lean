import WebAssembly.Proofs.Machine.Operations
import WebAssembly.Proofs.Store.Evolution

/-!
# What running code leaves alone

Every operation that code can perform keeps the store in the sense of `Store.Keeps`, whether it
succeeds or fails and whether the code is valid or not. The property is closed under doing one thing
after another, so only the few operations that change the store need an argument.
-/

namespace WebAssembly

/-- An operation keeps every store, also when it fails. -/
def Exec.Steady {α : Type} (x : Exec α) : Prop :=
  ∀ m : Machine, m.store.Keeps (final (x m)).store

namespace Exec.Steady

variable {α β : Type}

/-- One change that execution may make and then another is again one. -/
theorem bind {x : Exec α} {f : α → Exec β} (hx : Steady x) (hf : ∀ a, Steady (f a)) :
    Steady (x >>= f) := by
  intro m
  have hxm := hx m
  cases h : x m with
  | ok a m' =>
      rw [h] at hxm
      rw [bind_of_ok h]
      exact hxm.trans (hf a m')
  | error e m' =>
      rw [h] at hxm
      rw [bind_of_error h]
      exact hxm

/-- What else is known of the outcome. -/
theorem meets {x : Exec α} (hx : Steady x) {m : Machine} {good : α → Machine → Prop}
    {bad : RuntimeError → Machine → Prop} (h : Meets good bad (x m)) :
    Meets (fun a m' => good a m' ∧ m.store.Keeps m'.store) bad (x m) := by
  have hkeeps := hx m
  cases hxm : x m with
  | ok a m' =>
      rw [hxm] at h hkeeps
      exact ⟨h, hkeeps⟩
  | error e m' =>
      rw [hxm] at h
      exact h

theorem pure (a : α) : Steady (pure a : Exec α) :=
  fun m => .refl m.store

theorem throw (e : RuntimeError) : Steady (throw e : Exec α) :=
  fun m => .refl m.store

/-- An operation on the stack does not reach the store. -/
theorem onStack (x : OnStack α) : Steady (onStack x) := by
  rintro ⟨store, stack⟩
  rw [Exec.onStack]
  cases x stack <;> exact .refl store

theorem lift (x : OnStack α) : Steady (liftM x : Exec α) :=
  onStack x

theorem ofExcept (x : Except RuntimeError α) : Steady (ofExcept x) := by
  cases x with
  | ok a => exact pure a
  | error e => exact throw e

/-- A question leaves the store as it was, whatever the answer. -/
theorem ask (question : Store → Except RuntimeError α) : Steady (ask question) := by
  intro m
  rw [Exec.ask]
  cases question m.store <;> exact .refl m.store

theorem modifyStore {f : Store → Store} (hf : ∀ s : Store, s.Keeps (f s)) :
    Steady (modifyStore f) :=
  fun m => hf m.store

theorem ite {p : Prop} [Decidable p] {x y : Exec α} (hx : Steady x) (hy : Steady y) :
    Steady (if p then x else y) := by
  split
  · exact hx
  · exact hy

/-! ## Plain instructions

Look-ups do not change the store. What does is assignment to a global, a write to memory and growth,
and each replaces an instance by one it may evolve to.
-/

theorem localGet (frame : Frame) (i : UInt32) : Steady (localGet frame i) :=
  ofExcept _

theorem localSet (frame : Frame) (i : UInt32) (v : Value) : Steady (localSet frame i v) :=
  ite (pure _) (throw _)

theorem globalGet (frame : Frame) (i : UInt32) : Steady (globalGet frame i) :=
  (ofExcept _).bind fun _ => (ask _).bind fun _ => lift _

/-- Between looking a global up and assigning it nothing else changes the store. -/
theorem globalSet (frame : Frame) (i : UInt32) : Steady (globalSet frame i) := by
  refine (ofExcept _).bind fun addr => ?_
  rintro ⟨store, stack⟩
  cases hg : store.global addr with
  | error e =>
      rw [bind_of_error (ask_of_error hg)]
      exact .refl store
  | ok g =>
      rw [bind_of_ok (ask_of_ok hg)]
      cases hv : OnStack.pop stack with
      | error e stack' =>
          have hpop : (liftM OnStack.pop : Exec Value) ⟨store, stack⟩ = .error e ⟨store, stack'⟩ :=
            onStack_of_error hv
          rw [bind_of_error hpop]
          exact .refl store
      | ok v stack' =>
          have hpop : (liftM OnStack.pop : Exec Value) ⟨store, stack⟩ = .ok v ⟨store, stack'⟩ :=
            onStack_of_ok hv
          rw [bind_of_ok hpop]
          -- a refused write leaves the global, an accepted one keeps its type
          cases hset : g.set? v with
          | error e => exact .refl store
          | ok g' =>
              exact Store.keeps_modifyGlobal (forall_of_atAddress hg (Global.evolves_of_set hset))

theorem memoryAddr (frame : Frame) : Steady (memoryAddr frame) :=
  (ofExcept _).bind fun _ => ask _

theorem load (frame : Frame) (op : LoadOp) (arg : MemArg) : Steady (load frame op arg) :=
  (memoryAddr frame).bind fun _ => (lift _).bind fun _ => (ask _).bind fun _ => lift _

theorem store (frame : Frame) (op : StoreOp) (arg : MemArg) : Steady (store frame op arg) :=
  (memoryAddr frame).bind fun _ => (lift _).bind fun _ => (lift _).bind fun _ =>
    (ask _).bind fun _ =>
      ite (modifyStore fun _ => Store.keeps_modifyMemory fun m _ => m.evolves_write _ _) (throw _)

theorem memorySize (frame : Frame) : Steady (memorySize frame) :=
  (memoryAddr frame).bind fun _ => (ask _).bind fun _ => lift _

/-- The memory grows only where it was found to have room. -/
theorem memoryGrow (frame : Frame) : Steady (memoryGrow frame) := by
  refine (memoryAddr frame).bind fun addr => (lift _).bind fun delta => ?_
  rintro ⟨store, stack⟩
  cases hm : store.memory addr with
  | error e =>
      rw [bind_of_error (ask_of_error (congrArg (Except.map _) hm))]
      exact .refl store
  | ok m =>
      rw [bind_of_ok (ask_of_ok (congrArg (Except.map _) hm))]
      dsimp only
      -- growth is within the limits whenever it happens
      by_cases hroom : m.canGrow (UInt32.ofNat delta.toNat) = true
      · have hkeeps : store.Keeps (store.modifyMemory addr (·.grow (UInt32.ofNat delta.toNat))) :=
          Store.keeps_modifyMemory (forall_of_atAddress hm (Memory.evolves_grow hroom))
        rw [if_pos hroom]
        exact hkeeps.trans (lift _ ⟨_, stack⟩)
      · rw [if_neg hroom]
        exact lift _ ⟨store, stack⟩

/-- Among the plain instructions only `global.set`, `memory.grow` and the stores write to the store
at all. -/
theorem plain (frame : Frame) (op : Plain) : Steady (plain frame op) := by
  cases op with
  | drop => exact (lift _).bind fun _ => pure _
  | select => exact (lift _).bind fun _ => pure _
  | localGet i => exact (localGet frame i).bind fun _ => (lift _).bind fun _ => pure _
  | localSet i => exact (lift _).bind fun v => localSet frame i v
  | localTee i =>
      exact (lift _).bind fun v => (localSet frame i v).bind fun _ => (lift _).bind fun _ => pure _
  | globalGet i => exact (globalGet frame i).bind fun _ => pure _
  | globalSet i => exact (globalSet frame i).bind fun _ => pure _
  | load op arg => exact (load frame op arg).bind fun _ => pure _
  | store op arg => exact (store frame op arg).bind fun _ => pure _
  | memorySize => exact (memorySize frame).bind fun _ => pure _
  | memoryGrow => exact (memoryGrow frame).bind fun _ => pure _
  | const v => exact (lift _).bind fun _ => pure _
  | numeric op => exact (lift _).bind fun _ => pure _

/-! ## Calls and control

Control changes activations, which are not in the store. A host function leaves a record of its
call.
-/

/-- Entering a function writes to the store only to record the call of a host function. -/
theorem enter (addr : Nat) : Steady (enter addr) := by
  refine (ask _).bind fun f => ?_
  cases f with
  | host type run =>
      exact (lift _).bind fun args => (ask _).bind fun _ =>
        (modifyStore fun s => s.keeps_recordCall ⟨addr, args⟩).bind fun _ =>
          (ofExcept _).bind fun _ => (ofExcept _).bind fun _ => (lift _).bind fun _ => pure _
  | defined type moduleAddr code =>
      exact (lift _).bind fun _ => (ask _).bind fun _ => (lift _).bind fun _ => pure _

theorem leave (act : Activation) : Steady (leave act) :=
  lift _

theorem indirect (module : ModuleInstance) (type : UInt32) : Steady (indirect module type) :=
  (ofExcept _).bind fun _ => (ofExcept _).bind fun _ => (ask _).bind fun _ => (lift _).bind fun _ =>
    (ofExcept _).bind fun _ => (ask _).bind fun _ => ite (pure _) (throw _)

theorem follow (act : Activation) (jump : Jump) : Steady (follow act jump) := by
  cases jump with
  | next => exact pure _
  | branch depth =>
      rw [Exec.follow]
      cases branchTo? act.labels depth with
      | none => exact throw _
      | some target => exact ite (pure _) (pure _)

/-- Instructions that are not plain move the control and never write to the store. -/
theorem instruction (act : Activation) (i : Instruction) : Steady (instruction act i) := by
  cases i with
  | unreachable => exact (lift _).bind fun jump => follow act jump
  | nop => exact pure _
  | br label => exact (lift _).bind fun jump => follow act jump
  | brIf label => exact (lift _).bind fun jump => follow act jump
  | brTable targets default => exact (lift _).bind fun jump => follow act jump
  | ret => exact pure _
  | call f => exact (ofExcept _).bind fun _ => pure _
  | callIndirect type => exact (indirect _ type).bind fun _ => pure _
  | plain op => exact (plain act.frame op).bind fun _ => pure _
  | block type body => exact throw _
  | loop type body => exact throw _
  | ifElse type thenBody elseBody => exact throw _

theorem op (act : Activation) (o : Op) : Steady (op act o) := by
  cases o with
  | block arity stop => exact (lift _).bind fun _ => pure _
  | loop => exact (lift _).bind fun _ => pure _
  | ifElse arity otherwise stop => exact (lift _).bind fun _ => (lift _).bind fun _ => pure _
  | skip stop => exact pure _
  | close => exact pure _
  | instr i => exact instruction act i

theorem step (act : Activation) : Steady (step act) := by
  rw [Exec.step]
  cases act.code.ops[act.pc]? with
  | some o => exact op _ o
  | none => exact pure _

/-- One operation of a run, calls and returns included, changes the store only as execution may. -/
theorem advance (act : Activation) (outer : Stack Activation) : Steady (advance act outer) := by
  refine (step act).bind fun flow => ?_
  cases flow with
  | next act => exact pure _
  | call act func =>
      refine (enter func).bind fun callee => ?_
      -- entering may still be refused, for the depth of the calls
      cases callee with
      | none => exact pure _
      | some callee => exact ite (throw _) (pure _)
  | done act => exact (leave act).bind fun _ => pure _

end Exec.Steady

end WebAssembly
