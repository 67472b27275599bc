import WebAssembly.Proofs.Machine.Operations
import WebAssembly.Proofs.Machine.Steady
import WebAssembly.Proofs.Store.Typed

/-!
# Plain instructions do what their types say

On operands of the types it takes, a plain instruction leaves operands of the types it gives, or it
traps. It finds all that its indices refer to, and never looks at what lies under its operands.
-/

namespace WebAssembly

/-- A failure that the language defines. -/
def RuntimeError.IsTrap (e : RuntimeError) : Prop :=
  ∃ cause, e = .trap cause

/-! ## Types of results -/

namespace Value

theorem type_int (t : IntType) (b : BitVec t.width) : (int t b).type = t.toValueType := by
  cases t <;> rfl

theorem type_float (t : FloatType) (b : t.Bits) : (float t b).type = t.toValueType := by
  cases t <;> rfl

theorem type_ofBits (t : ValueType) (b : BitVec t.width) : (ofBits t b).type = t := by
  cases t <;> rfl

theorem type_zero (t : ValueType) : (zero t).type = t := by
  cases t <;> rfl

/-- A value of an integer type can be read as an integer of it. -/
theorem exists_int {v : Value} {t : IntType} (h : v.type = t.toValueType) :
    ∃ b, v.int? t = some b := by
  cases t <;> cases v <;> first | exact ⟨_, rfl⟩ | cases h

theorem exists_float {v : Value} {t : FloatType} (h : v.type = t.toValueType) :
    ∃ b, v.float? t = some b := by
  cases t <;> cases v <;> first | exact ⟨_, rfl⟩ | cases h

end Value

/-! ## Taking operands off

With operands of the right types on the stack, popping succeeds. What an instruction leaves is then
said by what it does with the values.
-/

namespace OnStack

variable {α : Type}

theorem pop_cons (v : Value) (vs : List Value) :
    pop (.ofList (v :: vs)) = .ok v (.ofList vs) :=
  rfl

/-- With an operand of the right type on top, popping it cannot fail. -/
theorem exists_popInt {v : Value} {t : IntType} (h : v.type = t.toValueType) (vs : List Value) :
    ∃ b, popInt t (.ofList (v :: vs)) = .ok b (.ofList vs) := by
  obtain ⟨b, hb⟩ := Value.exists_int h
  refine ⟨b, ?_⟩
  rw [popInt, bind_of_ok (pop_cons v vs), hb]
  rfl

theorem exists_popFloat {v : Value} {t : FloatType} (h : v.type = t.toValueType)
    (vs : List Value) : ∃ b, popFloat t (.ofList (v :: vs)) = .ok b (.ofList vs) := by
  obtain ⟨b, hb⟩ := Value.exists_float h
  refine ⟨b, ?_⟩
  rw [popFloat, bind_of_ok (pop_cons v vs), hb]
  rfl

theorem popType_cons {v : Value} {t : ValueType} (h : v.type = t) (vs : List Value) :
    popType t (.ofList (v :: vs)) = .ok v (.ofList vs) := by
  rw [popType, bind_of_ok (pop_cons v vs), if_pos h]
  rfl

/-- An operation leaves values of the given types on top of `rest`, or traps. -/
def Leaves (given : List ValueType) (rest : List Value)
    (r : EStateM.Result RuntimeError (Stack Value) α) : Prop :=
  Meets (fun _ stack => ∃ vs, HaveTypes vs given ∧ stack = .ofList (vs ++ rest))
    (fun e _ => e.IsTrap) r

theorem leaves_push {v : Value} {t : ValueType} (h : v.type = t) (rest : List Value) :
    Leaves [t] rest (push v (.ofList rest)) :=
  ⟨[v], haveTypes_singleton_iff.mpr ⟨v, rfl, h⟩, rfl⟩

/-- An instruction that begins by popping an integer is judged by what it does with it. -/
theorem leaves_popInt {v : Value} {t : IntType} {f : BitVec t.width → OnStack α}
    {given : List ValueType} {vs rest : List Value} (h : v.type = t.toValueType)
    (hf : ∀ b, Leaves given rest (f b (.ofList vs))) :
    Leaves given rest ((popInt t >>= f) (.ofList (v :: vs))) := by
  obtain ⟨b, hb⟩ := exists_popInt h vs
  rw [bind_of_ok hb]
  exact hf b

theorem leaves_popFloat {v : Value} {t : FloatType} {f : t.Bits → OnStack α}
    {given : List ValueType} {vs rest : List Value} (h : v.type = t.toValueType)
    (hf : ∀ b, Leaves given rest (f b (.ofList vs))) :
    Leaves given rest ((popFloat t >>= f) (.ofList (v :: vs))) := by
  obtain ⟨b, hb⟩ := exists_popFloat h vs
  rw [bind_of_ok hb]
  exact hf b

/-- A computation that may trap is judged by what follows where it does not. -/
theorem leaves_orTrap {x : Except Trap α} {f : α → OnStack Unit} {given : List ValueType}
    {rest : List Value} {stack : Stack Value} (hf : ∀ a, Leaves given rest (f a stack)) :
    Leaves given rest ((orTrap x >>= f) stack) := by
  cases x with
  | ok a => exact hf a
  | error trap => exact ⟨trap, rfl⟩

/-! ## Numeric operators

By cases on the typing rules. Those that can fail do so by a trap.
-/

/-- A conversion takes a value of its source type and leaves one of its target type, or traps. -/
theorem conversion_leaves {op : Conversion} {source target : ValueType}
    (h : op.HasType source target) {v : Value} (hv : v.type = source) (rest : List Value) :
    Leaves [target] rest (conversion op (.ofList (v :: rest))) := by
  cases h with
  | wrap => exact leaves_popInt hv fun _ => leaves_push (by rfl) rest
  | extend sign => exact leaves_popInt hv fun _ => leaves_push (by rfl) rest
  | truncate target source sign =>
      exact leaves_popFloat hv fun _ => leaves_orTrap fun _ =>
        leaves_push (Value.type_int target _) rest
  | convert target source sign =>
      exact leaves_popInt hv fun _ => leaves_push (Value.type_float target _) rest
  | demote => exact leaves_popFloat hv fun _ => leaves_push (by rfl) rest
  | promote => exact leaves_popFloat hv fun _ => leaves_push (by rfl) rest
  | floatBits32 => exact leaves_popFloat hv fun _ => leaves_push (Value.type_ofBits _ _) rest
  | floatBits64 => exact leaves_popFloat hv fun _ => leaves_push (Value.type_ofBits _ _) rest
  | intBits32 => exact leaves_popInt hv fun _ => leaves_push (Value.type_ofBits _ _) rest
  | intBits64 => exact leaves_popInt hv fun _ => leaves_push (Value.type_ofBits _ _) rest

/-- A numeric instruction leaves a value of its result type or traps. It never finds an operand
missing or of another type. -/
theorem numeric_leaves {op : Numeric} {taken given : List ValueType} (h : op.HasType taken given)
    {vs : List Value} (hvs : HaveTypes vs taken) (rest : List Value) :
    Leaves given rest (numeric op (.ofList (vs ++ rest))) := by
  -- the right operand lies on top and is popped first
  cases h with
  | eqz t =>
      obtain ⟨v, rfl, hv⟩ := haveTypes_singleton_iff.mp hvs
      exact leaves_popInt hv fun _ => leaves_push (by rfl) rest
  | intCompare t op =>
      obtain ⟨v, v', rfl, hv, hv'⟩ := haveTypes_pair_iff.mp hvs
      exact leaves_popInt hv' fun _ => leaves_popInt hv fun _ => leaves_push (by rfl) rest
  | floatCompare t op =>
      obtain ⟨v, v', rfl, hv, hv'⟩ := haveTypes_pair_iff.mp hvs
      exact leaves_popFloat hv' fun _ => leaves_popFloat hv fun _ => leaves_push (by rfl) rest
  | intUnary t op =>
      obtain ⟨v, rfl, hv⟩ := haveTypes_singleton_iff.mp hvs
      exact leaves_popInt hv fun _ => leaves_push (Value.type_int t _) rest
  | intBinary t op =>
      obtain ⟨v, v', rfl, hv, hv'⟩ := haveTypes_pair_iff.mp hvs
      exact leaves_popInt hv' fun _ => leaves_popInt hv fun _ => leaves_orTrap fun _ =>
        leaves_push (Value.type_int t _) rest
  | floatUnary t op =>
      obtain ⟨v, rfl, hv⟩ := haveTypes_singleton_iff.mp hvs
      exact leaves_popFloat hv fun _ => leaves_push (Value.type_float t _) rest
  | floatBinary t op =>
      obtain ⟨v, v', rfl, hv, hv'⟩ := haveTypes_pair_iff.mp hvs
      exact leaves_popFloat hv' fun _ => leaves_popFloat hv fun _ =>
        leaves_push (Value.type_float t _) rest
  | conversion hop =>
      obtain ⟨v, rfl, hv⟩ := haveTypes_singleton_iff.mp hvs
      exact conversion_leaves hop hv rest

end OnStack

/-! ## Frames

Locals and module instance of a frame bear out the context, at every later time as well.
-/

/-- The scope of running code bears out a context: the module instance does, and locals hold values
of their types. -/
structure Frame.Fits (frame : Frame) (s : Store) (ctx : Context) : Prop where
  module : frame.module.Fits s ctx
  locals : Matches (fun v t => v.type = t) frame.locals ctx.locals

/-- A frame goes on fitting its context as the store grows. -/
theorem Frame.Fits.extends {frame : Frame} {s s' : Store} {ctx : Context} (h : frame.Fits s ctx)
    (hs : s.Extends s') : frame.Fits s' ctx :=
  ⟨h.module.extends hs, h.locals⟩

namespace Exec

variable {α β : Type} {frame : Frame} {ctx : Context} {s : Store} {given : List ValueType}
  {rest : List Value}

/-- An operation leaves values of the given types on top of `rest`, or traps. -/
def Leaves (given : List ValueType) (rest : List Value)
    (r : EStateM.Result RuntimeError Machine α) : Prop :=
  Meets (fun _ m => ∃ vs, HaveTypes vs given ∧ m.stack = .ofList (vs ++ rest))
    (fun e _ => e.IsTrap) r

/-- What an operation does to the stack it does to the stack of a machine. -/
theorem leaves_onStack {x : OnStack α} {stack : Stack Value}
    (h : OnStack.Leaves given rest (x stack)) : Leaves given rest (onStack x ⟨s, stack⟩) := by
  cases hx : x stack with
  | ok a stack' =>
      rw [hx] at h
      rw [onStack_of_ok hx]
      exact h
  | error e stack' =>
      rw [hx] at h
      rw [onStack_of_error hx]
      exact h

theorem leaves_push {v : Value} {t : ValueType} (h : v.type = t) (rest : List Value) :
    Leaves [t] rest ((liftM (OnStack.push v) : Exec Unit) ⟨s, .ofList rest⟩) :=
  leaves_onStack (OnStack.leaves_push h rest)

theorem leaves_of_ok {x : Exec α} {f : α → Exec β} {m m' : Machine} {a : α} (hx : x m = .ok a m')
    (hf : Leaves given rest (f a m')) : Leaves given rest ((x >>= f) m) := by
  rw [bind_of_ok hx]
  exact hf

theorem exists_popInt {v : Value} {t : IntType} (h : v.type = t.toValueType) (vs : List Value) :
    ∃ b, (liftM (OnStack.popInt t) : Exec _) ⟨s, .ofList (v :: vs)⟩ = .ok b ⟨s, .ofList vs⟩ := by
  obtain ⟨b, hb⟩ := OnStack.exists_popInt h vs
  exact ⟨b, onStack_of_ok hb⟩

/-! ## Indices that refer to something

An index that the context gives a type to leads to an instance of that type.
-/

/-- A global the context declares is there, and has the declared type. -/
theorem exists_global (hframe : frame.Fits s ctx) {i : UInt32} {t : GlobalType}
    (hi : ctx.globals[i.toNat]? = some t) :
    ∃ addr g, frame.module.global i = .ok addr ∧ s.global addr = .ok g ∧ g.type = t ∧
      s.globals[addr]? = some g := by
  obtain ⟨addr, haddr, g, hg, htype⟩ := hframe.module.globals.exists_atIndex .global hi
  exact ⟨addr, g, haddr, atAddress_eq_ok_iff.mpr hg, htype, hg⟩

/-- The memory of a module is found through index zero. -/
theorem memoryAddr_of_ok {addr : Nat} {mem : Memory} (hframe : frame.module.memory 0 = .ok addr)
    (hmem : s.memory addr = .ok mem) (stack : Stack Value) :
    memoryAddr frame ⟨s, stack⟩ = .ok addr ⟨s, stack⟩ := by
  rw [memoryAddr, bind_of_ok (ofExcept_of_ok hframe _)]
  refine ask_of_ok ?_
  rw [hmem]
  rfl

/-- The memory of a module that has one. -/
theorem exists_memory (hframe : frame.Fits s ctx) {t : MemoryType}
    (h : ctx.memories[0]? = some t) (stack : Stack Value) :
    ∃ addr mem, memoryAddr frame ⟨s, stack⟩ = .ok addr ⟨s, stack⟩ ∧ s.memory addr = .ok mem := by
  -- instructions do not name their memory: it is the one behind index zero
  have h : ctx.memories[(0 : UInt32).toNat]? = some t := h
  obtain ⟨addr, haddr, mem, hmem⟩ := hframe.module.memories.exists_atIndex .memory h
  have hindex : frame.module.memory 0 = .ok addr := haddr
  have hstore : s.memory addr = .ok mem := atAddress_eq_ok_iff.mpr hmem
  exact ⟨addr, mem, memoryAddr_of_ok hindex hstore stack, hstore⟩

/-! ## Globals and memory

Instructions that go through the store, each for itself.
-/

theorem globalGet_leaves (hs : s.WellTyped) (hframe : frame.Fits s ctx) {i : UInt32}
    {t : GlobalType} (hi : ctx.globals[i.toNat]? = some t) (rest : List Value) :
    Leaves [t.type] rest (globalGet frame i ⟨s, .ofList rest⟩) := by
  obtain ⟨addr, g, haddr, hask, htype, hg⟩ := exists_global hframe hi
  have hvalue : g.value.type = t.type := by
    rw [hs.globals addr g hg, htype]
  exact leaves_of_ok (ofExcept_of_ok haddr _)
    (leaves_of_ok (ask_of_ok hask) (leaves_push hvalue rest))

/-- A typed `global.set` cannot fail: the global is mutable and the value is of its type. -/
theorem globalSet_leaves (hframe : frame.Fits s ctx) {i : UInt32} {t : GlobalType}
    (hi : ctx.globals[i.toNat]? = some t) (hmutable : t.mutable = true) {v : Value}
    (hv : v.type = t.type) (rest : List Value) :
    Leaves [] rest (globalSet frame i ⟨s, .ofList (v :: rest)⟩) := by
  obtain ⟨addr, g, haddr, hask, rfl, _⟩ := exists_global hframe hi
  have hset : g.set? v = .ok { g with value := v } := by
    rw [Global.set?, if_pos hmutable, if_pos hv]
  refine leaves_of_ok (ofExcept_of_ok haddr _) (leaves_of_ok (ask_of_ok hask) ?_)
  refine leaves_of_ok (onStack_of_ok (OnStack.pop_cons v rest)) ?_
  refine leaves_of_ok (ofExcept_of_ok hset _) ?_
  exact ⟨[], .nil, rfl⟩

/-- A load leaves a value of its type, and the only failure left is the trap out of bounds. -/
theorem load_leaves (hframe : frame.Fits s ctx) {t : MemoryType} (h : ctx.memories[0]? = some t)
    (op : LoadOp) (arg : MemArg) {v : Value} (hv : v.type = .i32) (rest : List Value) :
    Leaves [op.type] rest (load frame op arg ⟨s, .ofList (v :: rest)⟩) := by
  obtain ⟨addr, mem, haddr, hmem⟩ := exists_memory hframe h (.ofList (v :: rest))
  obtain ⟨base, hbase⟩ := exists_popInt (t := .i32) hv rest
  refine leaves_of_ok haddr (leaves_of_ok hbase ?_)
  -- the memory is asked for twice, for its address and for its bytes
  have hask : (do
      let m ← s.memory addr
      (m.read? (Memory.address base arg) op.bytes).mapError .trap : Except RuntimeError _) =
      (mem.read? (Memory.address base arg) op.bytes).mapError .trap := by
    rw [hmem]
    rfl
  cases hread : mem.read? (Memory.address base arg) op.bytes with
  | ok bs =>
      rw [hread] at hask
      exact leaves_of_ok (ask_of_ok hask) (leaves_push (Value.type_ofBits _ _) rest)
  | error cause =>
      rw [hread] at hask
      rw [bind_of_error (ask_of_error hask)]
      exact ⟨cause, rfl⟩

/-- A store leaves nothing behind, and the only failure left is the trap out of bounds. -/
theorem store_leaves (hframe : frame.Fits s ctx) {t : MemoryType} (h : ctx.memories[0]? = some t)
    (op : StoreOp) (arg : MemArg) {v v' : Value} (hv : v.type = .i32) (hv' : v'.type = op.type)
    (rest : List Value) : Leaves [] rest (store frame op arg ⟨s, .ofList (v' :: v :: rest)⟩) := by
  obtain ⟨addr, mem, haddr, hmem⟩ := exists_memory hframe h (.ofList (v' :: v :: rest))
  obtain ⟨base, hbase⟩ := exists_popInt (t := .i32) hv rest
  refine leaves_of_ok haddr (leaves_of_ok (onStack_of_ok (OnStack.popType_cons hv' _)) ?_)
  refine leaves_of_ok hbase (leaves_of_ok (ask_of_ok (congrArg (Except.map _) hmem)) ?_)
  split
  · exact ⟨[], .nil, rfl⟩
  · exact ⟨_, rfl⟩

theorem memorySize_leaves (hframe : frame.Fits s ctx) {t : MemoryType}
    (h : ctx.memories[0]? = some t) (rest : List Value) :
    Leaves [.i32] rest (memorySize frame ⟨s, .ofList rest⟩) := by
  obtain ⟨addr, mem, haddr, hmem⟩ := exists_memory hframe h (.ofList rest)
  exact leaves_of_ok haddr (leaves_of_ok (ask_of_ok (congrArg (Except.map _) hmem))
    (leaves_push (by rfl) rest))

/-- Growth leaves a number, whether or not the memory grew. -/
theorem memoryGrow_leaves (hframe : frame.Fits s ctx) {t : MemoryType}
    (h : ctx.memories[0]? = some t) {v : Value} (hv : v.type = .i32) (rest : List Value) :
    Leaves [.i32] rest (memoryGrow frame ⟨s, .ofList (v :: rest)⟩) := by
  obtain ⟨addr, mem, haddr, hmem⟩ := exists_memory hframe h (.ofList (v :: rest))
  obtain ⟨delta, hdelta⟩ := exists_popInt (t := .i32) hv rest
  refine leaves_of_ok haddr (leaves_of_ok hdelta ?_)
  refine leaves_of_ok (ask_of_ok (congrArg (Except.map _) hmem)) ?_
  dsimp only
  -- one number is pushed in each case, the old size or minus one
  split
  · exact leaves_push (by rfl) rest
  · exact leaves_push (by rfl) rest

/-! ## All plain instructions -/

/-- What a plain instruction in `ctx` must do: leave values of the given types on top of `rest` and
a frame that still bears out the context, or trap. -/
def PlainLeaves (ctx : Context) (given : List ValueType) (rest : List Value)
    (r : EStateM.Result RuntimeError Machine Frame) : Prop :=
  Meets (fun frame m => frame.Fits m.store ctx ∧
      ∃ vs, HaveTypes vs given ∧ m.stack = .ofList (vs ++ rest))
    (fun e _ => e.IsTrap) r

/-- An operation that does not touch the locals. -/
theorem plainLeaves_of_leaves {x : Exec Unit} {stack : Stack Value} (hsteady : x.Steady)
    (hframe : frame.Fits s ctx) (h : Leaves given rest (x ⟨s, stack⟩)) :
    PlainLeaves ctx given rest ((x >>= fun _ => pure frame) ⟨s, stack⟩) := by
  have hkeeps := hsteady ⟨s, stack⟩
  cases hx : x ⟨s, stack⟩ with
  | ok a m' =>
      rw [hx] at h hkeeps
      rw [bind_of_ok hx]
      exact ⟨hframe.extends hkeeps.extends, h⟩
  | error e m' =>
      rw [hx] at h
      rw [bind_of_error hx]
      exact h

/-- Assigning a local a value of its type. -/
theorem localSet_of_fits (hframe : frame.Fits s ctx) {i : UInt32} {t : ValueType}
    (hi : ctx.locals[i.toNat]? = some t) {v : Value} (hv : v.type = t) (m : Machine) :
    ∃ frame' : Frame, localSet frame i v m = .ok frame' m ∧ frame'.Fits s ctx := by
  obtain ⟨w, hw, _⟩ := hframe.locals.exists_of_getElem? hi
  obtain ⟨hlt, _⟩ := Array.getElem?_eq_some_iff.mp hw
  refine ⟨{ frame with locals := frame.locals.setIfInBounds i.toNat v }, ?_, ?_⟩
  · rw [localSet, if_pos hlt]
    rfl
  · exact ⟨hframe.module, hframe.locals.set hi hv⟩

/-- Plain instructions are sound for their types: on a stack of the types taken they leave one of
the types given, with the frame still fitting, or trap. -/
theorem plain_sound (hs : s.WellTyped) (hframe : frame.Fits s ctx) {op : Plain}
    {taken : List ValueType} (hop : op.HasType ctx taken given) {vs : List Value}
    (hvs : HaveTypes vs taken) (rest : List Value) :
    PlainLeaves ctx given rest (plain frame op ⟨s, .ofList (vs ++ rest)⟩) := by
  -- only instructions on locals change the frame, so they are treated here; the others go through
  -- what they leave
  cases hop with
  | drop t =>
      obtain ⟨v, rfl, _⟩ := haveTypes_singleton_iff.mp hvs
      exact ⟨hframe, [], .nil, rfl⟩
  | select t =>
      rw [show [t, t, .i32] = [t, t] ++ [.i32] from rfl] at hvs
      obtain ⟨c, vs, rfl, hc, hvs⟩ := haveTypes_concat_iff.mp hvs
      obtain ⟨v, v', rfl, hv, hv'⟩ := haveTypes_pair_iff.mp hvs
      refine plainLeaves_of_leaves (.lift _) hframe (leaves_onStack ?_)
      refine OnStack.leaves_popInt hc fun condition => OnStack.leaves_push ?_ rest
      split
      · exact hv'
      · exact hv
  | localGet hi =>
      obtain ⟨v, hv, htype⟩ := hframe.locals.exists_atIndex .local hi
      cases haveTypes_nil_iff.mp hvs
      show PlainLeaves _ _ _ ((ofExcept _ >>= fun v => _) _)
      rw [bind_of_ok (ofExcept_of_ok hv _)]
      exact ⟨hframe, [v], haveTypes_singleton_iff.mpr ⟨v, rfl, htype⟩, rfl⟩
  | localSet hi =>
      obtain ⟨v, rfl, hv⟩ := haveTypes_singleton_iff.mp hvs
      obtain ⟨frame', hset, hframe'⟩ := localSet_of_fits hframe hi hv ⟨s, .ofList rest⟩
      show PlainLeaves _ _ _ (localSet frame _ v ⟨s, .ofList rest⟩)
      rw [hset]
      exact ⟨hframe', [], .nil, rfl⟩
  | localTee hi =>
      obtain ⟨v, rfl, hv⟩ := haveTypes_singleton_iff.mp hvs
      obtain ⟨frame', hset, hframe'⟩ := localSet_of_fits hframe hi hv ⟨s, .ofList rest⟩
      show PlainLeaves _ _ _ ((localSet frame _ v >>= fun frame => _) ⟨s, .ofList rest⟩)
      rw [bind_of_ok hset]
      exact ⟨hframe', [v], hvs, rfl⟩
  | globalGet hi =>
      cases haveTypes_nil_iff.mp hvs
      exact plainLeaves_of_leaves (.globalGet _ _) hframe (globalGet_leaves hs hframe hi rest)
  | globalSet hi hmutable =>
      obtain ⟨v, rfl, hv⟩ := haveTypes_singleton_iff.mp hvs
      exact plainLeaves_of_leaves (.globalSet _ _) hframe
        (globalSet_leaves hframe hi hmutable hv rest)
  | load hm _ =>
      obtain ⟨v, rfl, hv⟩ := haveTypes_singleton_iff.mp hvs
      exact plainLeaves_of_leaves (.load _ _ _) hframe (load_leaves hframe hm _ _ hv rest)
  | store hm _ =>
      obtain ⟨v, v', rfl, hv, hv'⟩ := haveTypes_pair_iff.mp hvs
      exact plainLeaves_of_leaves (.store _ _ _) hframe (store_leaves hframe hm _ _ hv hv' rest)
  | memorySize hm =>
      cases haveTypes_nil_iff.mp hvs
      exact plainLeaves_of_leaves (.memorySize _) hframe (memorySize_leaves hframe hm rest)
  | memoryGrow hm =>
      obtain ⟨v, rfl, hv⟩ := haveTypes_singleton_iff.mp hvs
      exact plainLeaves_of_leaves (.memoryGrow _) hframe (memoryGrow_leaves hframe hm hv rest)
  | const v =>
      cases haveTypes_nil_iff.mp hvs
      exact ⟨hframe, [v], .single v, rfl⟩
  | numeric hop =>
      exact plainLeaves_of_leaves (.lift _) hframe
        (leaves_onStack (OnStack.numeric_leaves hop hvs rest))

end Exec

end WebAssembly
