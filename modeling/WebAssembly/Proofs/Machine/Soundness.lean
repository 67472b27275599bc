import WebAssembly.Proofs.Machine.Control
import WebAssembly.Proofs.Machine.Plain
import WebAssembly.Proofs.Machine.Runs

/-!
# Type soundness of the machine

On a well-typed store, code of valid modules runs without misusing the machine: every op finds the
operands, locals, labels and instances that it needs. The invariant of a run relates the innermost
activation and the stack by `Continues`, and says of each activation outside it that it will go on
in this way once the call it made has put its results on the stack (`Chain`). The invariant may
look at the activations of one call only, those above `under`. One op keeps it, so a whole run does,
and ends with the results of the function, with a trap, or with a failure of a host function.
-/

namespace WebAssembly

/-! ## Failures that are not the machine's

A trap, or a host function that fails or gives values of other types than it promises. Nothing else
can end a run of valid code.
-/

/-- A host function failed with `e`, or gave an answer that is refused with `e`. The call is the
latest one recorded in `s'`, and it is not recorded in `s` yet. -/
def HostFault (s s' : Store) (e : RuntimeError) : Prop :=
  ∃ (call : HostCall) (earlier : List HostCall) (type : FuncType) (run : HostFunc),
    s'.hostCalls = call :: earlier ∧ s.hostCalls <:+ earlier ∧
      s.funcs[call.func]? = some (.host type run) ∧
      (run earlier call.args = .error e ∨
        ∃ vs, run earlier call.args = .ok vs ∧ Exec.checkResults type vs = .error e)

/-- A failure that valid code can end with. -/
def Fault (s s' : Store) (e : RuntimeError) : Prop :=
  e.IsTrap ∨ HostFault s s' e

/-- A fault of a later part of a run is a fault of the run. -/
theorem Fault.keeps {s₀ s s' : Store} {e : RuntimeError} (h : Fault s s' e) (hs : s₀.Keeps s) :
    Fault s₀ s' e := by
  rcases h with htrap | ⟨call, earlier, type, run, hcalls, hearlier, hfunc, hfault⟩
  · exact Or.inl htrap
  · rw [hs.funcs] at hfunc
    exact Or.inr ⟨call, earlier, type, run, hcalls, hs.hostCalls.trans hearlier, hfunc, hfault⟩

/-! ## Activations

What is known of an activation between two ops: its frame fits, and its place, labels and operands
belong together.
-/

/-- The code of the activation is that of this function of the store, which has these results. -/
def Activation.Of (act : Activation) (s : Store) (func : Nat) (results : List ValueType) : Prop :=
  ∃ (type : FuncType) (module : Nat),
    s.funcs[func]? = some (.defined type module act.code) ∧ type.results = results

theorem Activation.Of.extends {act : Activation} {s s' : Store} {func : Nat}
    {results : List ValueType} (h : act.Of s func results) (hs : s.Extends s') :
    act.Of s' func results := by
  obtain ⟨type, module, hfunc, hresults⟩ := h
  obtain ⟨f, hf, rfl⟩ := hs.funcs func _ hfunc
  exact ⟨type, module, hf, hresults⟩

/-- The frame of an activation bears out a context, and it will give the results of its function on
top of `base`. -/
def Activation.Fits (act : Activation) (s : Store) (func : Nat) (ctx : Context)
    (results : List ValueType) (base : List Value) : Prop :=
  act.frame.Fits s ctx ∧ act.Of s func results ∧ act.arity = results.length ∧
    act.height = base.length

/-- An activation of a function with the given results can go on with a stack, at the bottom of
which lies `base`. The constructs around it are those of the body of its function. -/
inductive Activation.Sound (act : Activation) (s : Store) (bodies : Nat → Expr)
    (results : List ValueType) (base stack : List Value) : Prop
  | intro {func : Nat} {ctx : Context} :
      act.Fits s func ctx results base →
      Continues ctx results act.code.ops (Expr.sites 0 (bodies func)) base act.pc act.labels stack →
      act.Sound s bodies results base stack

/-- An activation stays sound while the store grows under it. -/
theorem Activation.Sound.extends {act : Activation} {s s' : Store} {bodies : Nat → Expr}
    {results : List ValueType} {base stack : List Value}
    (h : act.Sound s bodies results base stack) (hs : s.Extends s') :
    act.Sound s' bodies results base stack := by
  cases h with
  | intro hact hcont =>
      obtain ⟨hframe, hof, hbounds⟩ := hact
      exact .intro ⟨hframe.extends hs, hof.extends hs, hbounds⟩ hcont

/-- What an activation asks for after an op makes sense. -/
def FlowSound (bodies : Nat → Expr) (results : List ValueType) (base : List Value) :
    Flow → Machine → Prop
  | .next act, m => act.Sound m.store bodies results base m.stack.toList
  | .call act func, m =>
    ∃ f args rest, m.store.funcs[func]? = some f ∧ HaveTypes args f.type.params ∧
      m.stack = .ofList (args ++ rest) ∧
      ∀ vs, HaveTypes vs f.type.results → act.Sound m.store bodies results base (vs ++ rest)
  | .done act, m =>
    act.arity = results.length ∧ act.height = base.length ∧
      ∃ vs rest, HaveTypes vs results ∧ m.stack = .ofList (vs ++ rest) ∧ base <:+ rest

section

variable {bodies : Nat → Expr} {func : Nat} {ctx : Context} {results : List ValueType}
  {base : List Value} {act : Activation} {s : Store} {stop : Nat} {want : List ValueType}
  {types : List (List ValueType)} {vs below rest : List Value}

/-! ## Falling out of constructs

At the end of a sequence the construct around it is closed or, in the first arm of an `if`, the
second one is jumped over.
-/

/-- Behind the last instruction of a sequence. -/
theorem end_sound (hact : act.Fits s func ctx results base)
    (h : Around ctx results act.code.ops (Expr.sites 0 (bodies func)) base act.pc want act.labels
      types below)
    (hvs : HaveTypes vs want) :
    Meets (FlowSound bodies results base) (fun e _ => e.IsTrap)
      (Exec.step act ⟨s, .ofList (vs ++ below)⟩) := by
  -- the position and the labels are indices of `Around`, and must be variables to be taken apart
  generalize hpc : act.pc = pc at h
  generalize hlabels : act.labels = labels at h
  cases h with
  | func =>
      have hnone : act.code.ops[act.pc]? = none :=
        Array.getElem?_eq_none_iff.mpr (Nat.le_of_eq hpc.symm)
      rw [Exec.step_of_none hnone]
      exact ⟨hact.2.2.1, hact.2.2.2, vs, base, hvs, rfl, List.suffix_refl base⟩
  | block hc hkind hloop hclose hstand htyped hvs' haround =>
      rw [← hpc] at hclose
      rw [Exec.step_of_op hclose]
      refine .intro hact ?_
      show Continues ctx results act.code.ops _ base (act.pc + 1) act.labels.tail _
      rw [hlabels, hpc, ← List.append_assoc]
      exact .intro hstand htyped (hvs.append hvs') haround
  | @loop start type body rest ts final labels types vs' below hstand htyped hrest hvs' haround =>
      obtain ⟨_, _, hclose⟩ := standAt_loop.mp hstand.head
      have hbehind : act.pc + 1 = start + (Instruction.loop type body).opCount := by
        rw [hpc, Instruction.opCount]
        omega
      rw [← hpc] at hclose
      rw [Exec.step_of_op hclose]
      refine .intro hact ?_
      show Continues ctx results act.code.ops _ base (act.pc + 1) act.labels.tail _
      rw [hlabels, hbehind, ← List.append_assoc]
      rw [Expr.opCount, ← Nat.add_assoc] at haround
      exact .intro hstand.tail hrest (hvs.append hvs') haround
  | skip hskip haround =>
      rw [← hpc] at hskip
      rw [Exec.step_of_op hskip]
      refine .intro hact ?_
      show Continues ctx results act.code.ops _ base _ act.labels _
      rw [hlabels]
      exact haround.continues hvs

/-! ## Branching

The types of labels are those of the constructs around, so the operands a branch needs are there.
-/

/-- A branch that carries what its label takes. -/
theorem branch_sound (hact : act.Fits s func ctx results base)
    (haround : Around ctx results act.code.ops (Expr.sites 0 (bodies func)) base stop want
      act.labels types below)
    {label : UInt32} {ts : List ValueType} (hlabel : types[label.toNat]? = some ts)
    {top : List Value} (htop : HaveTypes top ts) (hrest : below <:+ rest) :
    Meets (FlowSound bodies results base) (fun e _ => e.IsTrap)
      ((Exec.onStack (OnStack.br act.labels label) >>= Exec.follow act)
        ⟨s, .ofList (top ++ rest)⟩) := by
  obtain ⟨target, around, hdrop, htarget⟩ := haround.branch hlabel
  obtain ⟨left, hunwind, _, hnext⟩ :=
    htarget.unwindTo htop (haround.base_suffix.trans hrest) hrest
  rw [Exec.br_of_drop_cons hdrop, bind_of_ok (Exec.onStack_of_ok hunwind)]
  -- to the function itself a branch returns, to a construct it goes on there
  rcases hnext with ⟨hkind, rfl, rfl⟩ | ⟨c, _, hof, hkind, _, hcont⟩
  · rw [if_pos hkind]
    exact ⟨hact.2.2.1, hact.2.2.2, top, left, htop, rfl, List.suffix_refl left⟩
  · rw [hof]
    rw [if_neg (show (c.label target.height).kind ≠ .func from hkind)]
    exact .intro hact hcont

/-! ## Entering constructs

A construct is entered with no operands of its own. Its label remembers the height of the stack, and
what is to be done behind it becomes part of what is around.
-/

/-- Entering a block puts its label on top of those around, with the end of the block behind it. -/
theorem block_sound (hact : act.Fits s func ctx results base) {type : BlockType}
    {body is : List Instruction} {under final : List ValueType}
    (hstand : Expr.Stands act.code.ops (Expr.sites 0 (bodies func)) act.pc (.block type body :: is))
    (hbody : Expr.HasType ctx results (type.results :: types) body [] type.results)
    (his : Expr.HasType ctx results types is (under ++ type.results) final)
    (hvs : HaveTypes vs under)
    (haround : Around ctx results act.code.ops (Expr.sites 0 (bodies func)) base
      (act.pc + Expr.opCount (.block type body :: is)) final act.labels types below) :
    Meets (FlowSound bodies results base) (fun e _ => e.IsTrap)
      (Exec.step act ⟨s, .ofList (vs ++ below)⟩) := by
  obtain ⟨hop, -, hclose⟩ := standAt_block.mp hstand.head
  obtain ⟨hc, hinside⟩ := hstand.block
  have hrest := hstand.tail
  -- what follows the block stands behind its `end`
  have hbehind : act.pc + (Instruction.block type body).opCount =
      act.pc + 1 + Expr.opCount body + 1 := by
    rw [Instruction.opCount]
    omega
  rw [hbehind] at hrest
  rw [Expr.opCount, ← Nat.add_assoc, hbehind] at haround
  rw [Exec.step_of_op hop]
  exact .intro hact
    ((Around.block hc nofun nofun hclose hrest his hvs haround).enters hinside hbody)

/-- Entering a loop puts a label on top that leads back to the loop itself. -/
theorem loop_sound (hact : act.Fits s func ctx results base) {type : BlockType}
    {body is : List Instruction} {under final : List ValueType}
    (hstand : Expr.Stands act.code.ops (Expr.sites 0 (bodies func)) act.pc (.loop type body :: is))
    (hbody : Expr.HasType ctx results ([] :: types) body [] type.results)
    (his : Expr.HasType ctx results types is (under ++ type.results) final)
    (hvs : HaveTypes vs under)
    (haround : Around ctx results act.code.ops (Expr.sites 0 (bodies func)) base
      (act.pc + Expr.opCount (.loop type body :: is)) final act.labels types below) :
    Meets (FlowSound bodies results base) (fun e _ => e.IsTrap)
      (Exec.step act ⟨s, .ofList (vs ++ below)⟩) := by
  obtain ⟨hop, -, -⟩ := standAt_loop.mp hstand.head
  have hwhole : Expr.HasType ctx results types (.loop type body :: is) under final := by
    have hcons := Expr.HasType.cons under (.loop hbody) his
    rwa [List.append_nil] at hcons
  rw [Exec.step_of_op hop]
  exact .intro hact
    ((Around.loop hstand hwhole his hvs haround).enters hstand.loop.2 hbody)

/-- A conditional enters one of its arms, and either arm goes on behind both of them. -/
theorem ifElse_sound (hact : act.Fits s func ctx results base) {type : BlockType}
    {thenBody elseBody is : List Instruction} {under final : List ValueType}
    (hstand : Expr.Stands act.code.ops (Expr.sites 0 (bodies func)) act.pc
      (.ifElse type thenBody elseBody :: is))
    (hthen : Expr.HasType ctx results (type.results :: types) thenBody [] type.results)
    (helse : Expr.HasType ctx results (type.results :: types) elseBody [] type.results)
    (his : Expr.HasType ctx results types is (under ++ type.results) final)
    {condition : Value} (hcondition : condition.type = .i32) (hvs : HaveTypes vs under)
    (haround : Around ctx results act.code.ops (Expr.sites 0 (bodies func)) base
      (act.pc + Expr.opCount (.ifElse type thenBody elseBody :: is)) final act.labels types below) :
    Meets (FlowSound bodies results base) (fun e _ => e.IsTrap)
      (Exec.step act ⟨s, .ofList (condition :: (vs ++ below))⟩) := by
  obtain ⟨hop, -, hskip, -, hclose⟩ := standAt_ifElse.mp hstand.head
  obtain ⟨hc, hthenStand, helseStand⟩ := hstand.ifElse
  have hrest := hstand.tail
  have hbehind : act.pc + (Instruction.ifElse type thenBody elseBody).opCount =
      act.pc + 1 + Expr.opCount thenBody + 1 + Expr.opCount elseBody + 1 := by
    rw [Instruction.opCount]
    omega
  rw [hbehind] at hrest
  rw [Expr.opCount, ← Nat.add_assoc, hbehind] at haround
  -- both arms share what is around them; the first has a jump over the second at its end
  have hinner := Around.block hc nofun nofun hclose hrest his hvs haround
  obtain ⟨b, hb⟩ := Exec.exists_popInt (t := .i32) (s := s) hcondition (vs ++ below)
  rw [Exec.step_of_op hop, Exec.ifElse_of_ok hb]
  by_cases hzero : b = 0
  · simp only [if_pos hzero]
    exact .intro hact (hinner.enters helseStand helse)
  · simp only [if_neg hzero]
    exact .intro hact ((Around.skip hskip hinner).enters hthenStand hthen)

/-! ## Calls

The instruction only finds the function. Its arguments are taken by the call itself, and the caller
waits for the results.
-/

/-- A direct call finds its function, of the type the context gives it. -/
theorem call_sound (hact : act.Fits s func ctx results base) {i : UInt32} {type : FuncType}
    (hi : ctx.funcs[i.toNat]? = some type) {args : List Value} (hargs : HaveTypes args type.params)
    (hnext : ∀ vs, HaveTypes vs type.results → act.Sound s bodies results base (vs ++ rest)) :
    Meets (FlowSound bodies results base) (fun e _ => e.IsTrap)
      (Exec.instruction act (.call i) ⟨s, .ofList (args ++ rest)⟩) := by
  obtain ⟨addr, haddr, f, hf, rfl⟩ := hact.1.module.funcs.exists_atIndex .func hi
  have hindex : act.frame.module.func i = .ok addr := haddr
  show Meets _ _ ((Exec.ofExcept (act.frame.module.func i) >>= fun addr =>
    pure (Flow.call act addr)) _)
  rw [bind_of_ok (Exec.ofExcept_of_ok hindex _)]
  exact ⟨f, args, rest, hf, hargs, rfl, hnext⟩

/-- An indirect call goes to a function of the type it names, or traps. -/
theorem indirect_sound (hs : s.WellTyped) {inst : ModuleInstance} (hinst : inst.Fits s ctx)
    {i : UInt32} {table : TableType} {type : FuncType} (htable : ctx.tables[0]? = some table)
    (hi : ctx.types[i.toNat]? = some type) {index : Value} (hindex : index.type = .i32) :
    Meets (fun addr m => m = ⟨s, .ofList rest⟩ ∧ ∃ f, s.funcs[addr]? = some f ∧ f.type = type)
      (fun e _ => e.IsTrap) (Exec.indirect inst i ⟨s, .ofList (index :: rest)⟩) := by
  have htable : ctx.tables[(0 : UInt32).toNat]? = some table := htable
  obtain ⟨tableAddr, htableAddr, t, ht⟩ := hinst.tables.exists_atIndex .table htable
  have htype : inst.type i = .ok type := by
    refine atIndex_eq_ok_iff.mpr ?_
    rw [hinst.types]
    exact hi
  have htableIndex : inst.table 0 = .ok tableAddr := htableAddr
  have htableStore : s.table tableAddr = .ok t := atAddress_eq_ok_iff.mpr ht
  obtain ⟨b, hb⟩ := Exec.exists_popInt (t := .i32) (s := s) hindex rest
  rw [Exec.indirect, bind_of_ok (Exec.ofExcept_of_ok htype _),
    bind_of_ok (Exec.ofExcept_of_ok htableIndex _), bind_of_ok (Exec.ask_of_ok htableStore),
    bind_of_ok hb]
  cases hslot : t.slots[b.toNat]? with
  | none =>
      have hget : t.get b.toNat = .error .undefinedElement := by
        rw [Table.get, hslot]
      rw [hget]
      exact ⟨_, rfl⟩
  | some slot =>
      cases slot with
      | none =>
          have hget : t.get b.toNat = .error .uninitializedElement := by
            rw [Table.get, hslot]
          rw [hget]
          exact ⟨_, rfl⟩
      | some addr =>
          -- the function exists since the store is well typed; its type is checked here
          have hget : (t.get b.toNat).mapError RuntimeError.trap = .ok addr := by
            rw [Table.get, hslot]
            rfl
          have hlt := hs.tables tableAddr t ht b.toNat addr hslot
          have hf : s.funcs[addr]? = some s.funcs[addr] := Array.getElem?_eq_getElem hlt
          have hfunc : s.func addr = .ok s.funcs[addr] := atAddress_eq_ok_iff.mpr hf
          rw [bind_of_ok (Exec.ofExcept_of_ok hget _), bind_of_ok (Exec.ask_of_ok hfunc)]
          split
          · next heq => exact ⟨rfl, _, hf, heq⟩
          · exact ⟨_, rfl⟩

/-- An indirect call finds a function of its type or traps. -/
theorem callIndirect_sound (hs : s.WellTyped) (hact : act.Fits s func ctx results base) {i : UInt32}
    {table : TableType} {type : FuncType} (htable : ctx.tables[0]? = some table)
    (hi : ctx.types[i.toNat]? = some type) {index : Value} (hindex : index.type = .i32)
    {args : List Value} (hargs : HaveTypes args type.params)
    (hnext : ∀ vs, HaveTypes vs type.results → act.Sound s bodies results base (vs ++ rest)) :
    Meets (FlowSound bodies results base) (fun e _ => e.IsTrap)
      (Exec.instruction act (.callIndirect i) ⟨s, .ofList (index :: (args ++ rest))⟩) := by
  refine Meets.bind (indirect_sound hs hact.1.module htable hi hindex) ?_
  rintro addr m ⟨rfl, f, hf, rfl⟩
  exact ⟨f, args, rest, hf, hargs, rfl, hnext⟩

/-! ## One op

By cases on what comes next in the sequence that stands at the position.
-/

/-- In front of an instruction, with what it takes on top of what passes by it. -/
theorem instruction_sound (hs : s.WellTyped) (hact : act.Fits s func ctx results base)
    {i : Instruction} {is : List Instruction} {taken given under final : List ValueType}
    (hstand : Expr.Stands act.code.ops (Expr.sites 0 (bodies func)) act.pc (i :: is))
    (hi : Instruction.HasType ctx results types i taken given)
    (his : Expr.HasType ctx results types is (under ++ given) final) {top : List Value}
    (htop : HaveTypes top taken) (hvs : HaveTypes vs under)
    (haround : Around ctx results act.code.ops (Expr.sites 0 (bodies func)) base
      (act.pc + Expr.opCount (i :: is)) final act.labels types below) :
    Meets (FlowSound bodies results base) (fun e _ => e.IsTrap)
      (Exec.step act ⟨s, .ofList (top ++ (vs ++ below))⟩) := by
  have hfirst := hstand.head
  have hact' : (act.goTo (act.pc + 1)).Fits s func ctx results base := hact
  have hbelow : below <:+ vs ++ below := List.suffix_append vs below
  have hbase : base <:+ vs ++ below := haround.base_suffix.trans hbelow
  -- behind the instruction, whatever it has made of the frame and the store
  have hnext : ∀ (frame : Frame) (s' : Store) (vs' : List Value), frame.Fits s' ctx →
      s.Keeps s' → HaveTypes vs' given →
        Activation.Sound { act with frame := frame, pc := act.pc + i.opCount } s' bodies results
          base (vs' ++ (vs ++ below)) := by
    intro frame s' vs' hframe hkeeps hvs'
    obtain ⟨-, hof, hbounds⟩ := hact
    refine .intro ⟨hframe, hof.extends hkeeps.extends, hbounds⟩ ?_
    rw [Expr.opCount, ← Nat.add_assoc] at haround
    rw [← List.append_assoc]
    exact .intro hstand.tail his (hvs'.append hvs) haround
  cases hi with
  | unreachable taken given =>
      rw [Exec.step_of_op hfirst.1]
      exact ⟨_, rfl⟩
  | nop =>
      rw [Exec.step_of_op hfirst.1]
      exact hnext act.frame s top hact.1 (.refl s) htop
  | block hbody =>
      rw [haveTypes_nil_iff.mp htop, List.nil_append]
      exact block_sound hact hstand hbody his hvs haround
  | loop hbody =>
      rw [haveTypes_nil_iff.mp htop, List.nil_append]
      exact loop_sound hact hstand hbody his hvs haround
  | ifElse hthen helse =>
      obtain ⟨condition, rfl, hcondition⟩ := haveTypes_singleton_iff.mp htop
      rw [List.singleton_append]
      exact ifElse_sound hact hstand hthen helse his hcondition hvs haround
  | br under' given hlabel =>
      obtain ⟨top, mid, rfl, htop, _⟩ := haveTypes_append_iff.mp htop
      rw [Exec.step_of_op hfirst.1, List.append_assoc]
      exact branch_sound hact' haround hlabel htop
        (hbelow.trans (List.suffix_append mid _))
  | @brIf _ label _ hlabel =>
      obtain ⟨condition, top, rfl, hcondition, htop⟩ := haveTypes_concat_iff.mp htop
      obtain ⟨b, hb⟩ := OnStack.exists_popInt (t := .i32) hcondition (top ++ (vs ++ below))
      rw [Exec.step_of_op hfirst.1]
      show Meets _ _ (Exec.instruction (act.goTo (act.pc + 1)) (.brIf label) _)
      rw [Exec.brIf_eq, List.cons_append, bind_of_ok (Exec.onStack_of_ok hb)]
      by_cases hzero : b = 0
      · rw [if_pos hzero]
        exact hnext act.frame s top hact.1 (.refl s) htop
      · rw [if_neg hzero]
        exact branch_sound hact' haround hlabel htop hbelow
  | @brTable _ targets default ts under' given htargets hdefault =>
      obtain ⟨index, top, rfl, hindex, htop⟩ := haveTypes_concat_iff.mp htop
      obtain ⟨top, mid, rfl, htop, _⟩ := haveTypes_append_iff.mp htop
      obtain ⟨b, hb⟩ := OnStack.exists_popInt (t := .i32) hindex
        (top ++ (mid ++ (vs ++ below)))
      have hlabel : types[(targets[b.toNat]?.getD default).toNat]? = some ts := by
        cases hget : targets[b.toNat]? with
        | none => exact hdefault
        | some target => exact htargets target (List.mem_of_getElem? hget)
      rw [Exec.step_of_op hfirst.1]
      show Meets _ _ (Exec.instruction (act.goTo (act.pc + 1)) (.brTable targets default) _)
      rw [Exec.brTable_eq, List.cons_append, List.append_assoc, bind_of_ok (Exec.onStack_of_ok hb)]
      exact branch_sound hact' haround hlabel htop (hbelow.trans (List.suffix_append mid _))
  | ret under' given =>
      obtain ⟨top, mid, rfl, htop, _⟩ := haveTypes_append_iff.mp htop
      rw [Exec.step_of_op hfirst.1, List.append_assoc]
      exact ⟨hact.2.2.1, hact.2.2.2, top, _, htop, rfl, hbase.trans (List.suffix_append mid _)⟩
  | call hfunc =>
      rw [Exec.step_of_op hfirst.1]
      exact call_sound hact' hfunc htop
        fun vs' hvs' => hnext act.frame s vs' hact.1 (.refl s) hvs'
  | callIndirect htable htype =>
      obtain ⟨index, args, rfl, hindex, hargs⟩ := haveTypes_concat_iff.mp htop
      rw [Exec.step_of_op hfirst.1]
      exact callIndirect_sound hs hact' htable htype hindex hargs
        fun vs' hvs' => hnext act.frame s vs' hact.1 (.refl s) hvs'
  | plain hop =>
      rw [Exec.step_of_op hfirst.1]
      have hplain := Exec.plain_sound hs hact.1 hop htop (vs ++ below)
      refine Meets.bind ((Exec.Steady.plain _ _).meets hplain) ?_
      rintro frame ⟨s', stack⟩ ⟨⟨hframe, vs', hvs', rfl⟩, hkeeps⟩
      exact hnext frame s' vs' hframe hkeeps hvs'

/-- An activation that can go on does so, asks for something that makes sense, or traps. -/
theorem step_sound (hs : s.WellTyped) {stack : List Value}
    (h : act.Sound s bodies results base stack) :
    Meets (FlowSound bodies results base) (fun e _ => e.IsTrap)
      (Exec.step act ⟨s, .ofList stack⟩) := by
  cases h with
  | intro hact hcont =>
      cases hcont with
      | @intro is ts final types vs below hstand htyped hvs haround =>
          cases htyped with
          | nil => exact end_sound hact haround hvs
          | cons under hi his =>
              obtain ⟨top, vs, rfl, htop, hvs⟩ := haveTypes_append_iff.mp hvs
              rw [List.append_assoc]
              exact instruction_sound hs hact hstand hi his htop hvs haround

end

/-! ## Starting and ending calls

A host function is called and checked on the spot. A function of a module starts with its arguments
and zeros as locals.
-/

/-- No value disagrees with the type listed for it iff the types are those of the values. -/
theorem find?_mismatch_eq_none_iff {vs : List Value} {ts : List ValueType}
    (hlength : vs.length = ts.length) :
    (vs.zip ts).find? (fun (v, t) => v.type ≠ t) = none ↔ vs.map Value.type = ts := by
  induction vs generalizing ts with
  | nil =>
      cases List.length_eq_zero_iff.mp hlength.symm
      exact ⟨fun _ => rfl, fun _ => rfl⟩
  | cons v vs ih =>
      cases ts with
      | nil => cases hlength
      | cons t ts =>
          rw [List.zip_cons_cons, List.find?_cons, List.map_cons]
          by_cases hv : v.type = t
          · simp only [hv, ne_eq, not_true_eq_false, decide_false, List.cons.injEq, true_and]
            exact ih (Nat.succ.inj hlength)
          · simp [hv]

/-- Results of a host function that pass the check have the declared types. -/
theorem Exec.map_type_of_checkResults {type : FuncType} {vs : List Value}
    (h : Exec.checkResults type vs = .ok ()) : vs.map Value.type = type.results := by
  unfold Exec.checkResults at h
  split at h
  · next hlength =>
      split at h
      · cases h
      · next hfind => exact (find?_mismatch_eq_none_iff hlength).mp hfind
  · cases h

theorem FuncType.checkArgs_of_map_type {type : FuncType} {args : List Value}
    (h : args.map Value.type = type.params) : type.checkArgs args = .ok () := by
  have hlength : args.length = type.params.length := by
    rw [← h, List.length_map]
  rw [FuncType.checkArgs, if_pos hlength, (find?_mismatch_eq_none_iff hlength).mpr h]

/-- What a call that has been started leaves: the results of a host function, or an activation that
can go on. -/
def CallSound (bodies : Nat → Expr) (type : FuncType) (rest : List Value) :
    Option Activation → Machine → Prop
  | none, m => ∃ vs, HaveTypes vs type.results ∧ m.stack = .ofList (vs ++ rest)
  | some act, m => m.stack = .ofList rest ∧ act.Sound m.store bodies type.results rest rest

section

variable {bodies : Nat → Expr} {s : Store} {addr : Nat} {args rest : List Value}

/-- Taking the arguments of a call off. -/
theorem popMany_of_haveTypes {ts : List ValueType} (h : HaveTypes args ts) (s : Store)
    (rest : List Value) :
    (liftM (OnStack.popMany ts.length) : Exec (List Value)) ⟨s, .ofList (args ++ rest)⟩ =
      .ok args.reverse ⟨s, .ofList rest⟩ := by
  refine Exec.onStack_of_ok ?_
  rw [← h.length]
  exact OnStack.popMany_append args rest

/-- A host function gives values of its result types, or it is the cause of the failure. -/
theorem enter_host_sound {type : FuncType} {run : HostFunc}
    (hf : s.funcs[addr]? = some (.host type run)) (hargs : HaveTypes args type.params) :
    Meets (CallSound bodies type rest) (fun e m => Fault s m.store e)
      (Exec.enter addr ⟨s, .ofList (args ++ rest)⟩) := by
  have hfunc : s.func addr = .ok (.host type run) := atAddress_eq_ok_iff.mpr hf
  -- the call is on record whether the host function fails or not
  have hfault : ∀ e, (run s.hostCalls args.reverse = .error e ∨
      ∃ vs, run s.hostCalls args.reverse = .ok vs ∧ Exec.checkResults type vs = .error e) →
      Fault s (s.recordCall ⟨addr, args.reverse⟩) e := by
    intro e he
    exact Or.inr ⟨_, s.hostCalls, type, run, rfl, List.suffix_refl _, hf, he⟩
  rw [Exec.enter, bind_of_ok (Exec.ask_of_ok hfunc)]
  dsimp only
  rw [bind_of_ok (popMany_of_haveTypes hargs s rest)]
  show Meets _ _ ((Exec.ofExcept (run s.hostCalls args.reverse) >>= fun results =>
    Exec.ofExcept (Exec.checkResults type results) >>= fun _ =>
      Exec.onStack (OnStack.pushAll results) >>= fun _ => pure none)
    ⟨s.recordCall ⟨addr, args.reverse⟩, .ofList rest⟩)
  cases hrun : run s.hostCalls args.reverse with
  | error e => exact hfault e (Or.inl hrun)
  | ok vs =>
      rw [bind_of_ok (Exec.ofExcept_of_ok rfl _)]
      cases hcheck : Exec.checkResults type vs with
      | error e => exact hfault e (Or.inr ⟨vs, hrun, hcheck⟩)
      | ok u =>
          refine ⟨vs.reverse, haveTypes_reverse_iff.mpr (Exec.map_type_of_checkResults hcheck), ?_⟩
          exact Stack.pushAll_ofList rest vs

/-- Entering a function of a module starts its body on a frame that fits, with the function itself
as the only construct around it. -/
theorem enter_defined_sound (hs : s.TypedFrom bodies) {type : FuncType} {module : Nat} {code : Code}
    (hf : s.funcs[addr]? = some (.defined type module code)) (hargs : HaveTypes args type.params) :
    Meets (CallSound bodies type rest) (fun e m => Fault s m.store e)
      (Exec.enter addr ⟨s, .ofList (args ++ rest)⟩) := by
  obtain ⟨inst, ctx, hmodule, hinst, hcode, hbody⟩ := hs.bodies addr type module code hf
  have hfunc : s.func addr = .ok (.defined type module code) := atAddress_eq_ok_iff.mpr hf
  have hask : s.module module = .ok inst := atAddress_eq_ok_iff.mpr hmodule
  rw [Exec.enter, bind_of_ok (Exec.ask_of_ok hfunc)]
  dsimp only
  rw [bind_of_ok (popMany_of_haveTypes hargs s rest), bind_of_ok (Exec.ask_of_ok hask)]
  refine ⟨rfl, ?_⟩
  have hargs' : args.reverse.map Value.type = type.params := by
    rw [← haveTypes_reverse_iff, List.reverse_reverse]
    exact hargs
  have hlocals : (args.reverse ++ code.locals.map Value.zero).map Value.type =
      type.params ++ code.locals := by
    have hzero : Value.type ∘ Value.zero = id := funext Value.type_zero
    rw [List.map_append, List.map_map, hzero, List.map_id, hargs']
  have hfits : inst.Fits s (ctx.forBody type code.locals) :=
    ⟨hinst.types, hinst.funcs, hinst.tables, hinst.memories, hinst.globals⟩
  have hsize : code.ops.size = 0 + Expr.opCount (bodies addr) := by
    rw [hcode, size_ops_compile, Nat.zero_add]
  have hstand : Expr.Stands code.ops (Expr.sites 0 (bodies addr)) 0 (bodies addr) := by
    rw [hcode]
    exact stands_compile _ _
  -- the function itself is all that is around its body
  refine .intro ⟨⟨hfits, .of_map_eq hlocals⟩, ⟨type, module, hf, rfl⟩, rfl, rfl⟩ ?_
  have haround : Around (ctx.forBody type code.locals) type.results code.ops
      (Expr.sites 0 (bodies addr)) rest (0 + Expr.opCount (bodies addr)) type.results
      [⟨.func, type.results.length, rest.length, code.ops.size⟩] [type.results] rest := by
    rw [← hsize]
    exact .func
  exact haround.enters hstand hbody

/-- Entering any function of the store is sound for its type. -/
theorem enter_sound (hs : s.TypedFrom bodies) {f : FuncInstance} (hf : s.funcs[addr]? = some f)
    (hargs : HaveTypes args f.type.params) (rest : List Value) :
    Meets (CallSound bodies f.type rest) (fun e m => Fault s m.store e)
      (Exec.enter addr ⟨s, .ofList (args ++ rest)⟩) := by
  cases f with
  | host type run => exact enter_host_sound hf hargs
  | defined type module code => exact enter_defined_sound hs hf hargs

/-- A call ends with its results on top of what lay under its arguments. -/
theorem leave_eq {act : Activation} {results : List ValueType} {base vs : List Value}
    (harity : act.arity = results.length) (hheight : act.height = base.length)
    (hvs : HaveTypes vs results) (hrest : base <:+ rest) (s : Store) :
    Exec.leave act ⟨s, .ofList (vs ++ rest)⟩ = .ok () ⟨s, .ofList (vs ++ base)⟩ := by
  refine Exec.onStack_of_ok ?_
  rw [harity, hheight, ← hvs.length]
  exact OnStack.unwind_suffix vs hrest

end

/-! ## The invariant of a run

The innermost activation is sound, and each one outside is sound once the one inside has left its
results.
-/

/-- Activations above `under` that wait for values of types `given` on top of `rest`, the innermost
one first. In the end they give `goal` on top of `bottom`. -/
inductive Chain (s : Store) (bodies : Nat → Expr) (under : List Activation)
    (goal : List ValueType) (bottom : List Value) :
    List Activation → List ValueType → List Value → Prop
  | nil : Chain s bodies under goal bottom under goal bottom
  | cons {act : Activation} {acts : List Activation} {given results : List ValueType}
      {rest base : List Value} :
      (∀ vs, HaveTypes vs given → act.Sound s bodies results base (vs ++ rest)) →
      Chain s bodies under goal bottom acts results base →
      Chain s bodies under goal bottom (act :: acts) given rest

/-- The activations of a run and the machine: the innermost one can go on and the others wait for
it, or all of them above `under` have ended with their results on the stack. -/
inductive RunSound (bodies : Nat → Expr) (under : List Activation) (goal : List ValueType)
    (bottom : List Value) : Stack Activation → Machine → Prop
  | running {act : Activation} {outer : Stack Activation} {results : List ValueType}
      {base stack : List Value} {s : Store} :
      act.Sound s bodies results base stack →
      Chain s bodies under goal bottom outer.toList results base →
      RunSound bodies under goal bottom (outer.push act) ⟨s, .ofList stack⟩
  | ended {acts : Stack Activation} {vs : List Value} {s : Store} :
      acts.toList = under → HaveTypes vs goal →
      RunSound bodies under goal bottom acts ⟨s, .ofList (vs ++ bottom)⟩

section

variable {bodies : Nat → Expr} {under : List Activation} {goal : List ValueType}
  {bottom : List Value} {s s' : Store} {outer : Stack Activation} {results : List ValueType}
  {base : List Value}

theorem Chain.extends {acts : List Activation} {given : List ValueType} {rest : List Value}
    (h : Chain s bodies under goal bottom acts given rest) (hs : s.Extends s') :
    Chain s' bodies under goal bottom acts given rest := by
  induction h with
  | nil => exact .nil
  | cons hact _ ih => exact .cons (fun vs hvs => (hact vs hvs).extends hs) ih

/-- Values that activations waited for. -/
theorem Chain.deliver (h : Chain s bodies under goal bottom outer.toList results base)
    {vs : List Value} (hvs : HaveTypes vs results) :
    RunSound bodies under goal bottom outer ⟨s, .ofList (vs ++ base)⟩ := by
  generalize hacts : outer.toList = acts at h
  cases h with
  | nil => exact .ended hacts hvs
  | @cons act acts _ _ _ _ hact hchain =>
      have hpush : outer = (Stack.ofList acts).push act := Stack.eq_of_toList_eq hacts
      rw [hpush]
      exact .running (hact vs hvs) hchain

/-- The activations below a chain may form a chain themselves. -/
theorem Chain.trans {under' acts : List Activation} {given : List ValueType} {rest : List Value}
    (h : Chain s bodies under' results base acts given rest)
    (h' : Chain s bodies under goal bottom under' results base) :
    Chain s bodies under goal bottom acts given rest := by
  induction h with
  | nil => exact h'
  | cons hact _ ih => exact .cons hact ih

/-- Part of a run, above activations that wait for it. -/
theorem RunSound.widen {under' : List Activation} {acts : Stack Activation} {m : Machine}
    (h : RunSound bodies under' results base acts m)
    (hchain : Chain m.store bodies under goal bottom under' results base) :
    RunSound bodies under goal bottom acts m := by
  cases h with
  | running hact hinner => exact .running hact (hinner.trans hchain)
  | ended hacts hvs =>
      subst hacts
      exact hchain.deliver hvs

/-- A call that an activation asked for runs above this activation, and fails through no fault of
the machine only. -/
theorem proceed_call_sound (hs : s.TypedFrom bodies) {func : Nat} {f : FuncInstance}
    (hf : s.funcs[func]? = some f) {args : List Value} (hargs : HaveTypes args f.type.params)
    (rest : List Value) (act : Activation) (outer : Stack Activation) :
    Meets
      (fun acts m => RunSound bodies (act :: outer.toList) f.type.results rest acts m ∧
        s.Keeps m.store)
      (fun e m => Fault s m.store e)
      (Exec.proceed outer (.call act func) ⟨s, .ofList (args ++ rest)⟩) := by
  refine Meets.bind ((Exec.Steady.enter func).meets (enter_sound hs hf hargs rest)) ?_
  rintro callee ⟨s', stack⟩ ⟨hcallee, hkeeps⟩
  cases callee with
  | none =>
      -- a host function is done already
      obtain ⟨vs, hvs, rfl⟩ := hcallee
      exact ⟨.ended rfl hvs, hkeeps⟩
  | some callee =>
      obtain ⟨rfl, hsound⟩ := hcallee
      dsimp only
      split
      · exact Or.inl ⟨_, rfl⟩
      · exact ⟨.running hsound .nil, hkeeps⟩

/-- One op keeps the invariant, or ends the run with a failure that is not the machine's. -/
theorem advance_sound (hs : s.TypedFrom bodies) {act : Activation} {stack : List Value}
    (hact : act.Sound s bodies results base stack)
    (hchain : Chain s bodies under goal bottom outer.toList results base) :
    Meets (RunSound bodies under goal bottom) (fun e m => Fault s m.store e)
      (Exec.advance act outer ⟨s, .ofList stack⟩) := by
  rw [Exec.advance_eq]
  have hstep := (Exec.Steady.step act).meets (step_sound hs.toWellTyped hact)
  refine Meets.bind (hstep.mono (fun _ _ h => h) fun e m h => Or.inl h) ?_
  rintro flow ⟨s₁, stack₁⟩ ⟨hflow, hkeeps⟩
  have hchain₁ := hchain.extends hkeeps.extends
  -- the activation goes on, returns to its caller, or becomes a caller itself
  cases flow with
  | next act' =>
      rw [← Stack.ofList_toList stack₁]
      exact .running hflow hchain₁
  | done act' =>
      obtain ⟨harity, hheight, vs, rest, hvs, rfl, hrest⟩ := hflow
      rw [Exec.proceed, bind_of_ok (leave_eq harity hheight hvs hrest s₁)]
      exact hchain₁.deliver hvs
  | call act' func =>
      obtain ⟨f, args, rest, hf, hargs, rfl, hnext⟩ := hflow
      refine (proceed_call_sound (hs.keeps hkeeps) hf hargs rest act' outer).mono ?_
        fun e m h => h.keeps hkeeps
      rintro acts m ⟨hrun, hkeeps₂⟩
      exact hrun.widen (.cons (fun vs hvs => (hnext vs hvs).extends hkeeps₂.extends)
        (hchain₁.extends hkeeps₂.extends))

end

/-! ## Whole runs

By induction on the fuel, and for calls from outside with the stack around them untouched.
-/

/-- A run that has ended: with values of types `goal` on top of `bottom`, or with a failure that is
not the machine's. -/
abbrev EndsSound (s : Store) (goal : List ValueType) (bottom : List Value) :
    EStateM.Result RuntimeError Machine Unit → Prop :=
  Meets (fun _ m => ∃ vs, HaveTypes vs goal ∧ m.stack = .ofList (vs ++ bottom))
    (fun e m => Fault s m.store e)

/-- A run that ends, ends with values of the types it is for, or with a fault. The invariant is that
each activation below waits for the results of the one above it. -/
theorem finish_sound {bodies : Nat → Expr} {fuel : Nat} {acts : Stack Activation} {m : Machine}
    {goal : List ValueType} {bottom : List Value} {r : EStateM.Result RuntimeError Machine Unit}
    (hs : m.store.TypedFrom bodies) (h : RunSound bodies [] goal bottom acts m)
    (hr : Run.finish fuel acts m = some r) :
    EndsSound m.store goal bottom r := by
  -- on the fuel; each step keeps the invariant by `advance_sound`
  induction fuel generalizing acts m with
  | zero =>
      cases h with
      | running =>
          rw [Run.finish_zero_push] at hr
          cases hr
      | @ended acts vs s hacts hvs =>
          obtain rfl : acts = .empty := Stack.eq_of_toList_eq hacts
          cases hr
          exact ⟨vs, hvs, rfl⟩
  | succ fuel ih =>
      cases h with
      | @ended acts vs s hacts hvs =>
          obtain rfl : acts = .empty := Stack.eq_of_toList_eq hacts
          rw [Run.finish_empty] at hr
          cases hr
          exact ⟨vs, hvs, rfl⟩
      | @running act outer results base stack s hact hchain =>
          rw [Run.finish_succ_push] at hr
          have hadvance := (Exec.Steady.advance act outer).meets (advance_sound hs hact hchain)
          cases hstep : Exec.advance act outer ⟨s, .ofList stack⟩ with
          | error e m' =>
              rw [hstep] at hr hadvance
              cases hr
              exact hadvance
          | ok acts' m' =>
              rw [hstep] at hr hadvance
              obtain ⟨hsound, hkeeps⟩ := hadvance
              -- a fault of the rest is one of the whole run, whose host calls start earlier
              have hend := ih (hs.keeps hkeeps) hsound hr
              exact hend.mono (fun _ _ h => h) fun e m h => h.keeps hkeeps

/-- A function called with its arguments on the stack. -/
theorem call_ends_sound {s : Store} (hs : s.WellTyped) {addr : Nat} {f : FuncInstance}
    (hf : s.funcs[addr]? = some f) {args : List Value} (hargs : HaveTypes args f.type.params)
    {rest : List Value} {fuel : Nat} {r : EStateM.Result RuntimeError Machine Unit}
    (hr : Run.call fuel addr ⟨s, .ofList (args ++ rest)⟩ = some r) :
    EndsSound s f.type.results rest r := by
  obtain ⟨bodies, hs⟩ := hs.exists_typedFrom
  have henter := (Exec.Steady.enter addr).meets (enter_sound hs hf hargs rest)
  cases hcall : Exec.enter addr ⟨s, .ofList (args ++ rest)⟩ with
  | error e m =>
      rw [Run.call, Run.lift_of_error hcall] at hr
      rw [hcall] at henter
      cases hr
      exact henter
  | ok callee m =>
      rw [Run.call, Run.lift_of_ok hcall] at hr
      rw [hcall] at henter
      obtain ⟨hcallee, hkeeps⟩ := henter
      -- a host function has already answered, other code is run to its end
      cases callee with
      | none =>
          cases hr
          exact hcallee
      | some act =>
          obtain ⟨s', stack⟩ := m
          obtain ⟨rfl, hact⟩ := hcallee
          have hrun : RunSound bodies [] f.type.results rest (Stack.empty.push act)
              ⟨s', .ofList rest⟩ :=
            .running hact .nil
          have hend := finish_sound (hs.keeps hkeeps) hrun hr
          exact hend.mono (fun _ _ h => h) fun e m h => h.keeps hkeeps

/-- A function invoked with arguments of its types gives results of its types and leaves the stack
as it was, or ends with a failure that is not the machine's. -/
theorem invoke_ends_sound {s : Store} (hs : s.WellTyped) {addr : Nat} {f : FuncInstance}
    (hf : s.funcs[addr]? = some f) {args : List Value}
    (hargs : args.map Value.type = f.type.params) {stack : Stack Value} {fuel : Nat}
    {r : EStateM.Result RuntimeError Machine (List Value)}
    (hr : Run.invoke fuel addr args ⟨s, stack⟩ = some r) :
    Meets (fun vs m => vs.map Value.type = f.type.results ∧ m.stack = stack)
      (fun e m => Fault s m.store e) r := by
  have hfunc : s.func addr = .ok f := atAddress_eq_ok_iff.mpr hf
  have hcheck := FuncType.checkArgs_of_map_type hargs
  -- arguments are pushed in order, so the last one lies on top
  have hpush : Exec.onStack (OnStack.pushAll args) ⟨s, stack⟩ =
      .ok () ⟨s, .ofList (args.reverse ++ stack.toList)⟩ := by
    rw [← Stack.pushAll_eq]
    rfl
  rw [Run.invoke, Run.lift_of_ok (Exec.ask_of_ok hfunc),
    Run.lift_of_ok (Exec.ofExcept_of_ok hcheck _), Run.lift_of_ok (Exec.onStack_height _),
    Run.lift_of_ok hpush] at hr
  have hargs' : HaveTypes args.reverse f.type.params := haveTypes_reverse_iff.mpr hargs
  rcases Run.bind_eq_some_iff.mp hr with ⟨e, m, hcall, rfl⟩ | ⟨_, m, hcall, hr⟩
  · exact call_ends_sound hs hf hargs' hcall
  · obtain ⟨s', stack'⟩ := m
    obtain ⟨vs, hvs, rfl⟩ := call_ends_sound hs hf hargs' hcall
    have hpop : Exec.onStack (OnStack.popMany f.type.results.length)
        ⟨s', .ofList (vs ++ stack.toList)⟩ = .ok vs.reverse ⟨s', stack⟩ := by
      rw [← Stack.ofList_toList stack]
      exact popMany_of_haveTypes hvs s' stack.toList
    rw [Run.lift_of_ok hpop] at hr
    cases hr
    refine ⟨?_, Stack.truncate_size stack⟩
    rw [← haveTypes_reverse_iff, List.reverse_reverse]
    exact hvs

end WebAssembly
