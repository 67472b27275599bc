import WebAssembly.Proofs.Histories

/-!
# The operand stack of valid code

All activations share one operand stack, and falling out of a construct does not cut it back. That
each of them nevertheless finds what is its own there rests on validation alone. For code of valid
modules, between any two ops: what lies under an activation stays, the op that closes a construct
finds the results of this construct and nothing else above the height at which it was entered, a
branch leaves what the construct that it goes to takes, and a call that has returned has put its
results in the place of its arguments. Falling out of a `block` or an `if` therefore leaves the same
as branching to it. For a loop this is not so: a branch starts it over and carries nothing.
-/

namespace WebAssembly

/-! ## Instructions that branch

Which branch an instruction takes depends on its topmost operand. With that known, the three
instructions do the same thing.
-/

/-- The label that an instruction branches to with these operands, the topmost one first, and the
operands that are left for the branch. -/
def Instruction.branch? : Instruction → List Value → Option (UInt32 × List Value)
  | .br label, vs => some (label, vs)
  | .brIf label, .i32 condition :: vs => if condition = 0 then none else some (label, vs)
  | .brTable targets default, .i32 index :: vs => some (targets[index.toNat]?.getD default, vs)
  | _, _ => none

section

variable {i : Instruction} {label : UInt32} {stack left : List Value}

/-- A branch is all that such an instruction does with the operands that are left. -/
theorem Exec.step_of_branch {act : Activation} (hop : act.code.ops[act.pc]? = some (.instr i))
    (hi : i.branch? stack = some (label, left)) (s : Store) :
    Exec.step act ⟨s, .ofList stack⟩ =
      (Exec.onStack (OnStack.br act.labels label) >>= Exec.follow (act.goTo (act.pc + 1)))
        ⟨s, .ofList left⟩ := by
  rw [Exec.step_of_op hop]
  unfold Instruction.branch? at hi
  -- the three branches that can be taken; the conditional ones pop their operand first
  split at hi
  · cases hi
    rfl
  · next target condition vs =>
      show Exec.instruction (act.goTo (act.pc + 1)) (.brIf target) _ = _
      have hpop : OnStack.popInt .i32 (.ofList (.i32 condition :: vs)) =
          .ok condition (.ofList vs) := rfl
      rw [Exec.brIf_eq, bind_of_ok (Exec.onStack_of_ok hpop)]
      split at hi
      · cases hi
      · next hzero =>
          cases hi
          exact congrFun (if_neg hzero) _
  · next targets default index vs =>
      show Exec.instruction (act.goTo (act.pc + 1)) (.brTable targets default) _ = _
      have hpop : OnStack.popInt .i32 (.ofList (.i32 index :: vs)) =
          .ok index (.ofList vs) := rfl
      rw [Exec.brTable_eq, bind_of_ok (Exec.onStack_of_ok hpop)]
      cases hi
      rfl
  · cases hi

/-- The operands that are left for a branch start with those that its label takes. -/
theorem Instruction.HasType.branch {ctx : Context} {results taken given : List ValueType}
    {types : List (List ValueType)} {top rest : List Value}
    (h : Instruction.HasType ctx results types i taken given) (htop : HaveTypes top taken)
    (hi : i.branch? (top ++ rest) = some (label, left)) :
    ∃ ts carried mid, types[label.toNat]? = some ts ∧ HaveTypes carried ts ∧
      left = carried ++ (mid ++ rest) := by
  cases h with
  | br under given hlabel =>
      cases hi
      obtain ⟨carried, mid, rfl, hcarried, -⟩ := haveTypes_append_iff.mp htop
      exact ⟨_, carried, mid, hlabel, hcarried, List.append_assoc ..⟩
  | brIf hlabel =>
      obtain ⟨v, carried, rfl, hv, hcarried⟩ := haveTypes_concat_iff.mp htop
      obtain ⟨condition, rfl⟩ := Value.exists_i32 hv
      simp only [List.cons_append, Instruction.branch?] at hi
      split at hi
      · cases hi
      · cases hi
        exact ⟨_, carried, [], hlabel, hcarried, rfl⟩
  | @brTable _ targets default ts under given htargets hdefault =>
      obtain ⟨v, operands, rfl, hv, hoperands⟩ := haveTypes_concat_iff.mp htop
      obtain ⟨index, rfl⟩ := Value.exists_i32 hv
      obtain ⟨carried, mid, rfl, hcarried, -⟩ := haveTypes_append_iff.mp hoperands
      cases hi
      refine ⟨ts, carried, mid, ?_, hcarried, List.append_assoc ..⟩
      -- an index past the table takes the default label
      cases hget : targets[index.toNat]? with
      | none => exact hdefault
      | some target => exact htargets target (List.mem_of_getElem? hget)
  | _ => cases hi

end

/-! ## What stands at a position

From the invariant of a run: where the op that closes a construct or a branch stands, what the stack
must hold.
-/

/-- The first op of an instruction does not close a construct, and is the instruction itself unless
this is a construct. -/
theorem standAt_head {ops : Array Op} {p : Nat} {i : Instruction}
    (h : StandAt ops p (Instruction.layout p i)) :
    ∃ o, ops[p]? = some o ∧ o ≠ .close ∧ ∀ j, o = .instr j → i = j := by
  cases i with
  | block type body => exact ⟨_, h.1, nofun, nofun⟩
  | loop type body => exact ⟨_, h.1, nofun, nofun⟩
  | ifElse type thenBody elseBody => exact ⟨_, h.1, nofun, nofun⟩
  | _ => exact ⟨_, h.1, nofun, fun _ => Op.instr.inj⟩

section

variable {ctx : Context} {results : List ValueType} {ops : Array Op} {cs : List Site}
  {base : List Value} {pc : Nat} {labels : List Label} {stack : List Value}

/-- Behind a sequence the code ends, or a second body is skipped, or a construct is closed that
wanted what the sequence leaves, and whose label is the innermost one. -/
theorem Around.at_stop {want : List ValueType} {types : List (List ValueType)} {below : List Value}
    (h : Around ctx results ops cs base pc want labels types below) :
    ops[pc]? = none ∨ (∃ stop, ops[pc]? = some (.skip stop)) ∨
      ops[pc]? = some .close ∧ ∃ c ∈ cs, c.stop = pc ∧ c.type.results = want ∧
        ∃ around, labels = c.label below.length :: around := by
  cases h with
  | func => exact .inl Array.getElem?_size
  | block hc _ _ hclose _ _ _ _ => exact .inr (.inr ⟨hclose, _, hc, rfl, rfl, _, rfl⟩)
  | loop hstand _ _ _ _ =>
      obtain ⟨-, -, hclose⟩ := standAt_loop.mp hstand.head
      exact .inr (.inr ⟨hclose, _, hstand.loop.1, rfl, rfl, _, rfl⟩)
  | skip hskip _ => exact .inr (.inl ⟨_, hskip⟩)

theorem Continues.base_suffix (h : Continues ctx results ops cs base pc labels stack) :
    base <:+ stack := by
  cases h with
  | intro _ _ _ haround => exact haround.base_suffix.trans (List.suffix_append _ _)

/-- Where a construct is closed, its label is the innermost one, and its results lie above the
height of this label. -/
theorem Continues.at_close (h : Continues ctx results ops cs base pc labels stack)
    (hop : ops[pc]? = some .close) :
    ∃ c ∈ cs, c.stop = pc ∧ ∃ around vs below, labels = c.label below.length :: around ∧
      stack = vs ++ below ∧ HaveTypes vs c.type.results := by
  cases h with
  | @intro is ts final types vs below hstand htyped hvs haround =>
      cases htyped with
      | cons under hi his =>
          -- in front of an instruction nothing is closed
          obtain ⟨o, ho, hclose, -⟩ := standAt_head hstand.head
          exact absurd (Option.some.inj (ho.symm.trans hop)) hclose
      | nil =>
          have haround : Around ctx results ops cs base pc _ labels types below := haround
          have hstop := haround.at_stop
          rw [hop] at hstop
          rcases hstop with hnone | ⟨stop, hskip⟩ | ⟨-, c, hc, hpc, hwant, around, hlabels⟩
          · cases hnone
          · cases hskip
          · exact ⟨c, hc, hpc, around, vs, below, hlabels, rfl, hwant ▸ hvs⟩

/-- Where an instruction branches, the operands that are left for the branch start with what its
label takes. -/
theorem Continues.at_branch (h : Continues ctx results ops cs base pc labels stack)
    {i : Instruction} (hop : ops[pc]? = some (.instr i)) {label : UInt32} {left : List Value}
    (hi : i.branch? stack = some (label, left)) :
    ∃ ts carried rest target around, left = carried ++ rest ∧ HaveTypes carried ts ∧
      base <:+ rest ∧ labels.drop label.toNat = target :: around ∧
      Target ctx results ops cs base ts rest target around := by
  cases h with
  | @intro is ts final types vs below hstand htyped hvs haround =>
      cases htyped with
      | cons under hj his =>
          obtain ⟨o, ho, -, hinstr⟩ := standAt_head hstand.head
          obtain rfl := hinstr i (Option.some.inj (ho.symm.trans hop))
          obtain ⟨top, vs, rfl, htop, hvs⟩ := haveTypes_append_iff.mp hvs
          rw [List.append_assoc] at hi
          obtain ⟨ts, carried, mid, hlabel, hcarried, rfl⟩ := hj.branch htop hi
          obtain ⟨target, around, hdrop, htarget⟩ := haround.branch hlabel
          have hrest : below <:+ mid ++ (vs ++ below) :=
            (List.suffix_append vs below).trans (List.suffix_append mid _)
          exact ⟨ts, carried, _, target, around, rfl, hcarried, haround.base_suffix.trans hrest,
            hdrop, htarget.widen hrest⟩
      | nil =>
          -- behind a sequence there is no instruction
          have haround : Around ctx results ops cs base pc _ labels types below := haround
          have hstop := haround.at_stop
          rw [hop] at hstop
          rcases hstop with hnone | ⟨stop, hskip⟩ | ⟨hclose, -⟩
          · cases hnone
          · cases hskip
          · cases hclose

end

/-! ## Calls that return

A call is followed up to the moment at which its activation is gone, through whatever calls it makes
itself.
-/

namespace Run

/-- Ops are executed until there are at most `depth` activations for the first time. -/
inductive Returns (depth : Nat) : Stack Activation → Machine → Stack Activation → Machine → Prop
  | here {acts : Stack Activation} {m : Machine} :
      acts.size ≤ depth → Returns depth acts m acts m
  | op {act : Activation} {outer acts acts' : Stack Activation} {m m₁ m' : Machine} :
      depth ≤ outer.size → Exec.advance act outer m = .ok acts m₁ →
      Returns depth acts m₁ acts' m' → Returns depth (outer.push act) m acts' m'

end Run

/-- A chain of activations is at least as long as what it stands on. -/
theorem Chain.length_le {s : Store} {bodies : Nat → Expr} {under acts : List Activation}
    {goal given : List ValueType} {bottom rest : List Value}
    (h : Chain s bodies under goal bottom acts given rest) : under.length ≤ acts.length := by
  induction h with
  | nil => exact Nat.le_refl _
  | cons _ _ ih => exact Nat.le_succ_of_le ih

section

variable {bodies : Nat → Expr} {under : List Activation} {goal : List ValueType}
  {bottom : List Value} {acts acts' : Stack Activation} {m m' : Machine}

/-- What runs above some activations gives its results to them. -/
theorem RunSound.returns (h : RunSound bodies under goal bottom acts m)
    (hs : m.store.TypedFrom bodies) (hreturns : Run.Returns under.length acts m acts' m') :
    acts'.toList = under ∧ ∃ vs, HaveTypes vs goal ∧ m'.stack = .ofList (vs ++ bottom) := by
  induction hreturns with
  | here hsize =>
      cases h with
      | running _ hchain =>
          -- an activation that still runs is one above `under`
          have hle := hchain.length_le
          rw [← Stack.size_eq] at hle
          exact absurd hsize (Nat.not_le_of_lt (Nat.lt_succ_of_le hle))
      | ended hacts hvs => exact ⟨hacts, _, hvs, rfl⟩
  | @op act outer acts acts' m m₁ m' hdepth hadvance _ ih =>
      generalize hpush : outer.push act = acts₀ at h
      cases h with
      | @running act₀ outer₀ _ _ _ s hact hchain =>
          obtain ⟨rfl, rfl⟩ := Stack.push_inj.mp hpush
          have hnext := (Exec.Steady.advance act outer).meets (advance_sound hs hact hchain)
          rw [hadvance] at hnext
          exact ih hnext.1 (hs.keeps hnext.2)
      | ended hacts hvs =>
          -- there would be one activation too many
          subst hpush
          have hsize : outer.toList.length + 1 = under.length := congrArg List.length hacts
          rw [← Stack.size_eq] at hsize
          omega

/-- All that a call goes through is sound. -/
theorem Run.Visits.sound {s : Store} (hs : s.TypedFrom bodies) {addr : Nat} {f : FuncInstance}
    (hf : s.funcs[addr]? = some f) {args rest : List Value} (hargs : HaveTypes args f.type.params)
    (h : Run.Visits addr ⟨s, .ofList (args ++ rest)⟩ acts m) :
    RunSound bodies [] f.type.results rest acts m := by
  -- on the run; each of its configurations is sound
  induction h with
  | @host m' henter =>
      obtain ⟨s', stack⟩ := m'
      have hcall := enter_sound hs hf hargs rest
      rw [henter] at hcall
      obtain ⟨vs, hvs, rfl⟩ := hcall
      exact .ended rfl hvs
  | @start act m' henter =>
      obtain ⟨s', stack⟩ := m'
      have hcall := enter_sound hs hf hargs rest
      rw [henter] at hcall
      obtain ⟨rfl, hact⟩ := hcall
      exact .running hact .nil
  | op h hadvance ih =>
      generalize hpush : Stack.push _ _ = acts₀ at ih
      cases ih with
      | running hact hchain =>
          obtain ⟨rfl, rfl⟩ := Stack.push_inj.mp hpush
          have hnext := advance_sound (hs.keeps h.keeps) hact hchain
          rwa [hadvance] at hnext
      | ended hacts _ =>
          subst hpush
          cases hacts

end

/-! ## The discipline

The four properties of an activation between two ops, put together.
-/

/-- The stack holds operands of types `ts`, and `height` values under them. -/
def Machine.Holds (m : Machine) (ts : List ValueType) (height : Nat) : Prop :=
  ∃ vs below, m.stack = .ofList (vs ++ below) ∧ HaveTypes vs ts ∧ below.length = height

theorem Machine.Holds.size_eq {m : Machine} {ts : List ValueType} {height : Nat}
    (h : m.Holds ts height) : m.stack.size = height + ts.length := by
  obtain ⟨vs, below, hstack, hvs, rfl⟩ := h
  rw [hstack, Stack.size_ofList, List.length_append, hvs.length, Nat.add_comm]

/-- The activation falls out of one of the constructs `cs`: the label on top is its label, and above
the height of this label lie its results. They stay where they are. -/
def Activation.FallsOut (act : Activation) (m : Machine) (cs : List Site) : Prop :=
  ∃ c ∈ cs, c.stop = act.pc ∧ ∃ label around, label.Of c ∧ act.labels = label :: around ∧
    m.stack.size = label.height + c.type.results.length ∧ m.Holds c.type.results label.height ∧
    Exec.step act m = .ok (.next { act with pc := c.stop + 1, labels := around }) m

/-- The activation branches to its label at some depth, and leaves what the label takes above the
height of the label. The label is one of the constructs `cs`, or else that of the function. -/
def Activation.Branches (act : Activation) (m : Machine) (cs : List Site)
    (results : List ValueType) (depth : Nat) : Prop :=
  ∃ label around m', act.labels.drop depth = label :: around ∧
    ((∃ c ∈ cs, label.Of c ∧ m'.Holds c.carried label.height ∧
        Exec.step act m = .ok (.next { act with pc := c.cont, labels := around }) m') ∨
      label.kind = .func ∧ m'.Holds results label.height ∧
        ∃ act', Exec.step act m = .ok (.done act') m')

/-- If the activation makes a call, then once this call has returned, its results have taken the
place of its arguments, and under them nothing has changed. The activations `outer` wait for this
one. -/
def Activation.GetsResults (act : Activation) (outer : Stack Activation) (m : Machine) : Prop :=
  ∀ (act' : Activation) (func : Nat) (m₁ : Machine),
    Exec.step act m = .ok (.call act' func) m₁ →
    ∃ f args rest, m₁.store.funcs[func]? = some f ∧ HaveTypes args f.type.params ∧
      m₁.stack = .ofList (args ++ rest) ∧
      ∀ (acts acts' : Stack Activation) (m₂ m' : Machine),
        Exec.advance act outer m = .ok acts m₂ →
        Run.Returns (outer.size + 1) acts m₂ acts' m' →
        acts' = outer.push act' ∧
          ∃ vs, HaveTypes vs f.type.results ∧ m'.stack = .ofList (vs ++ rest)

/-- What an activation of a function with this body and these results finds on the stack, and what
its next op leaves there. -/
structure Activation.Disciplined (act : Activation) (outer : Stack Activation) (m : Machine)
    (body : Expr) (results : List ValueType) : Prop where
  height : act.height ≤ m.stack.size
  close : act.code.ops[act.pc]? = some .close → act.FallsOut m (Expr.sites 0 body)
  branch : ∀ {i : Instruction} {label : UInt32} {left : List Value},
    act.code.ops[act.pc]? = some (.instr i) → i.branch? m.stack.toList = some (label, left) →
    act.Branches m (Expr.sites 0 body) results label.toNat
  call : act.GetsResults outer m

section

variable {bodies : Nat → Expr} {cs : List Site} {ctx : Context} {results : List ValueType}
  {base : List Value} {act : Activation} {outer : Stack Activation} {s : Store}
  {stack : List Value}

/-- At the end of a construct its results are on top, and nothing else of its own. -/
theorem Continues.fallsOut
    (h : Continues ctx results act.code.ops cs base act.pc act.labels stack)
    (hop : act.code.ops[act.pc]? = some .close) : act.FallsOut ⟨s, .ofList stack⟩ cs := by
  obtain ⟨c, hc, hstop, around, vs, below, hlabels, rfl, hvs⟩ := h.at_close hop
  have hholds : (⟨s, .ofList (vs ++ below)⟩ : Machine).Holds c.type.results below.length :=
    ⟨vs, below, rfl, hvs, rfl⟩
  refine ⟨c, hc, hstop, c.label below.length, around, rfl, hlabels, hholds.size_eq, hholds, ?_⟩
  rw [Exec.step_of_op hop, hstop]
  show EStateM.Result.ok (Flow.next { act with pc := act.pc + 1, labels := act.labels.tail }) _ = _
  rw [hlabels]
  rfl

/-- At a branch the operands it carries are on top, whatever else the construct has left on the
stack. -/
theorem Continues.branches
    (h : Continues ctx results act.code.ops cs base act.pc act.labels stack) {i : Instruction}
    {label : UInt32} {left : List Value} (hop : act.code.ops[act.pc]? = some (.instr i))
    (hi : i.branch? stack = some (label, left)) :
    act.Branches ⟨s, .ofList stack⟩ cs results label.toNat := by
  obtain ⟨ts, carried, rest, target, around, rfl, hcarried, hbase, hdrop, htarget⟩ :=
    h.at_branch hop hi
  obtain ⟨left, hunwind, hheight, hnext⟩ :=
    htarget.unwindTo hcarried hbase (List.suffix_refl rest)
  have hdrop' : (act.goTo (act.pc + 1)).labels.drop label.toNat = target :: around := hdrop
  have hstep := (Exec.step_of_branch hop hi s).trans (congrFun (Exec.br_of_drop_cons hdrop') _)
  rw [bind_of_ok (Exec.onStack_of_ok hunwind)] at hstep
  refine ⟨target, around, ⟨s, .ofList (carried ++ left)⟩, hdrop, ?_⟩
  rcases hnext with ⟨hkind, rfl, -⟩ | ⟨c, hc, hof, hkind, rfl, -⟩
  · rw [if_pos hkind] at hstep
    exact .inr ⟨hkind, ⟨carried, left, rfl, hcarried, hheight⟩, _, hstep⟩
  · rw [if_neg (show target.kind ≠ .func from hof ▸ hkind), hof] at hstep
    exact .inl ⟨c, hc, hof, ⟨carried, left, rfl, hcarried, hheight⟩, hstep⟩

/-- A call is given its arguments and leaves its results in their place. -/
theorem Activation.Sound.getsResults (hs : s.TypedFrom bodies)
    (h : act.Sound s bodies results base stack) (outer : Stack Activation) :
    act.GetsResults outer ⟨s, .ofList stack⟩ := by
  intro act' func ⟨s₁, stack₁⟩ hstep
  have hflow := (Exec.Steady.step act).meets (step_sound hs.toWellTyped h)
  rw [hstep] at hflow
  obtain ⟨⟨f, args, rest, hf, hargs, rfl, -⟩, hkeeps⟩ := hflow
  refine ⟨f, args, rest, hf, hargs, rfl, fun acts acts' m₂ m' hadvance hreturns => ?_⟩
  rw [Exec.advance_eq, bind_of_ok hstep] at hadvance
  -- the callee is a run of its own, above the caller and all that waits for it
  have hcall := proceed_call_sound (hs.keeps hkeeps) hf hargs rest act' outer
  rw [hadvance] at hcall
  obtain ⟨hrun, hkeeps'⟩ := hcall
  rw [outer.size_eq] at hreturns
  obtain ⟨hacts, hresults⟩ := hrun.returns ((hs.keeps hkeeps).keeps hkeeps') hreturns
  exact ⟨Stack.eq_of_toList_eq hacts, hresults⟩

theorem Activation.Sound.disciplined (hs : s.TypedFrom bodies)
    (h : act.Sound s bodies results base stack) (outer : Stack Activation) :
    ∃ func, act.Of s func results ∧
      act.Disciplined outer ⟨s, .ofList stack⟩ (bodies func) results := by
  have hcall := h.getsResults hs outer
  cases h with
  | @intro func ctx hact hcont =>
      refine ⟨func, hact.2.1, ?_, hcont.fallsOut, hcont.branches, hcall⟩
      rw [hact.2.2.2]
      exact hcont.base_suffix.length_le

end

/-! ## Valid modules

The stores in which calls start, those during instantiation included: the start function runs in a
store that no finished step has led to.
-/

/-- A store in which calls start: it comes about, or a module has just been linked in one that does,
and its start function is still to be called. -/
inductive Store.Ready : Store → Prop
  | reachable {s : Store} : s.Reachable → Ready s
  | linked {s s' : Store} {m : Module} {imports : List ExternVal} {stack stack' : Stack Value}
      {addr : Nat} {inst : ModuleInstance} :
      s.Reachable → Exec.link m imports ⟨s, stack⟩ = .ok (addr, inst) ⟨s', stack'⟩ → Ready s'

/-- Linking a module keeps a store well typed before its start function has run. -/
theorem Store.Ready.wellTyped {s : Store} (h : s.Ready) : s.WellTyped := by
  cases h with
  | reachable hs => exact hs.wellTyped
  | @linked s _ m imports stack _ _ _ hs hlink =>
      have houtcome := Exec.link_outcome hs.wellTyped m imports stack
      split at houtcome
      · obtain ⟨_, herror, _⟩ := houtcome
        rw [hlink] at herror
        cases herror
      · obtain ⟨_, _, hok, hgrows, _⟩ := houtcome
        rw [hlink] at hok
        cases hok
        exact hgrows.2

/-- Operand-stack discipline. The functions of modules that are in a store have bodies with which
they were validated. Whatever such bodies are, and whatever function is called with arguments of
its types: between any two ops, the innermost activation keeps to the discipline in the body of its
function, and once the call has returned, its results lie where its arguments were. -/
theorem Store.Ready.operands_disciplined {s : Store} (hs : s.Ready) :
    (∃ bodies, s.TypedFrom bodies) ∧
      ∀ {bodies : Nat → Expr}, s.TypedFrom bodies →
        ∀ {addr : Nat} {f : FuncInstance} {args rest : List Value} {acts : Stack Activation}
          {m : Machine},
          s.funcs[addr]? = some f → HaveTypes args f.type.params →
          Run.Visits addr ⟨s, .ofList (args ++ rest)⟩ acts m →
          (acts = .empty → ∃ vs, HaveTypes vs f.type.results ∧ m.stack = .ofList (vs ++ rest)) ∧
          ∀ {act : Activation} {outer : Stack Activation}, acts = outer.push act →
            ∃ func type module, s.funcs[func]? = some (.defined type module act.code) ∧
              act.Disciplined outer m (bodies func) type.results := by
  refine ⟨hs.wellTyped.exists_typedFrom, ?_⟩
  intro bodies hbodies addr f args rest acts m hf hargs hvisits
  have hkeeps := hvisits.keeps
  cases hvisits.sound hbodies hf hargs with
  | ended hacts hvs =>
      refine ⟨fun _ => ⟨_, hvs, rfl⟩, ?_⟩
      rintro act outer rfl
      cases hacts
  | running hact hchain =>
      refine ⟨nofun, ?_⟩
      intro act outer hpush
      obtain ⟨rfl, rfl⟩ := Stack.push_inj.mp hpush
      obtain ⟨func, ⟨type, module, hfunc, rfl⟩, hdisciplined⟩ :=
        hact.disciplined (hbodies.keeps hkeeps) _
      exact ⟨func, type, module, hkeeps.funcs ▸ hfunc, hdisciplined⟩

/-- Adds to 5 what a loop leaves. The loop is started over once unless the argument is zero. -/
def retry : Expr :=
  [.plain (.const (.i32 5)),
    .loop (.value .i32)
      [.plain (.const (.i32 7)), .plain (.localGet 0), .plain (.const (.i32 0)),
        .plain (.localSet 0), .brIf 0],
    .plain (.numeric (.intBinary .i32 .add))]

/-- The instance of a module with just this function. -/
def retryInstance : ModuleInstance where
  types := #[⟨[.i32], [.i32]⟩]
  funcs := #[0]

/-- The empty store after the module has been linked. -/
def retryStore : Store where
  funcs := #[.defined ⟨[.i32], [.i32]⟩ 0 (Code.compile [] retry)]
  modules := #[retryInstance]

theorem ready_retryStore : retryStore.Ready := by
  have hlink : Exec.link { types := [⟨[.i32], [.i32]⟩], funcs := [⟨0, [], retry⟩] } []
      ⟨{}, .empty⟩ = .ok (0, retryInstance) ⟨retryStore, .empty⟩ := by
    cbv
  exact .linked .refl hlink

theorem typedFrom_retryStore : retryStore.TypedFrom fun _ => retry where
  toWellTyped := ready_retryStore.wellTyped
  bodies := by
    intro addr type module code hcode
    cases addr with
    | succ addr => cases hcode
    | zero =>
        cases hcode
        have hfits : retryInstance.Fits retryStore
            ⟨#[⟨[.i32], [.i32]⟩], #[⟨[.i32], [.i32]⟩], #[], #[], #[], #[]⟩ := by
          refine ⟨rfl, ⟨rfl, ?_⟩, ⟨rfl, nofun⟩, ⟨rfl, nofun⟩, ⟨rfl, nofun⟩⟩
          intro i addr type haddr htype
          cases i with
          | zero =>
              cases haddr
              cases htype
              exact ⟨_, rfl, rfl⟩
          | succ i => cases haddr
        exact ⟨retryInstance, _, rfl, hfits, rfl,
          Context.bodyHasType_of_checkBody _ _ _ _ (by cbv)⟩

/-- The call of the function in the loop, before the op at `pc` and after the local has been set. -/
def inRetry (pc : Nat) : Activation :=
  ⟨1, ⟨retryInstance, #[.i32 0]⟩, Code.compile [] retry, 0, pc,
    [⟨.loop, 0, 1, 1⟩, ⟨.func, 1, 0, 9⟩]⟩

/-- The loop is about to be started over. -/
theorem retry_visits_branch :
    Run.Visits 0 ⟨retryStore, .ofList [.i32 1]⟩ (Stack.empty.push (inRetry 6))
      ⟨retryStore, .ofList [.i32 1, .i32 7, .i32 5]⟩ :=
  .op (.op (.op (.op (.op (.op (.start rfl) rfl) rfl) rfl) rfl) rfl) rfl

/-- The loop, which has been started over, is about to be left. -/
theorem retry_visits_close :
    Run.Visits 0 ⟨retryStore, .ofList [.i32 1]⟩ (Stack.empty.push (inRetry 7))
      ⟨retryStore, .ofList [.i32 7, .i32 5]⟩ :=
  .op (.op (.op (.op (.op (.op (.op retry_visits_branch rfl) rfl) rfl) rfl) rfl) rfl) rfl

theorem retry_operands_disciplined :
    retryStore.Ready ∧ retryStore.TypedFrom (fun _ => retry) ∧
      Expr.sites 0 retry = [⟨.loop, .value .i32, 1, 7⟩] ∧
      (inRetry 6).Branches ⟨retryStore, .ofList [.i32 1, .i32 7, .i32 5]⟩ (Expr.sites 0 retry)
        [.i32] 0 ∧
      (inRetry 7).FallsOut ⟨retryStore, .ofList [.i32 7, .i32 5]⟩ (Expr.sites 0 retry) := by
  obtain ⟨-, hall⟩ := ready_retryStore.operands_disciplined
  have hfunc : retryStore.funcs[0]? = some (.defined ⟨[.i32], [.i32]⟩ 0 (Code.compile [] retry)) :=
    rfl
  have hargs : HaveTypes [.i32 1] [.i32] := rfl
  obtain ⟨-, hbranch⟩ := hall typedFrom_retryStore hfunc hargs retry_visits_branch
  obtain ⟨func, type, module, hcode, hdisciplined⟩ := hbranch rfl
  obtain ⟨-, hclose⟩ := hall typedFrom_retryStore hfunc hargs retry_visits_close
  obtain ⟨_, _, _, -, hdisciplined'⟩ := hclose rfl
  have hresults : type.results = [.i32] := by
    cases func with
    | zero =>
        cases hcode
        rfl
    | succ func => cases hcode
  rw [hresults] at hdisciplined
  exact ⟨ready_retryStore, typedFrom_retryStore, rfl, hdisciplined.branch rfl rfl,
    hdisciplined'.close rfl⟩

/-- Falling out of a loop does not leave the same as branching to it. With the same labels, the
branch leaves just the 5 and starts the loop over, and at its end there is a 7 on top of it. -/
theorem retry_branch_leaves_less :
    Run.Visits 0 ⟨retryStore, .ofList [.i32 1]⟩ (Stack.empty.push (inRetry 6))
        ⟨retryStore, .ofList [.i32 1, .i32 7, .i32 5]⟩ ∧
      Run.Visits 0 ⟨retryStore, .ofList [.i32 1]⟩ (Stack.empty.push (inRetry 7))
        ⟨retryStore, .ofList [.i32 7, .i32 5]⟩ ∧
      Exec.step (inRetry 6) ⟨retryStore, .ofList [.i32 1, .i32 7, .i32 5]⟩ =
        .ok (.next { inRetry 1 with labels := [⟨.func, 1, 0, 9⟩] })
          ⟨retryStore, .ofList [.i32 5]⟩ ∧
      Exec.step (inRetry 7) ⟨retryStore, .ofList [.i32 7, .i32 5]⟩ =
        .ok (.next { inRetry 8 with labels := [⟨.func, 1, 0, 9⟩] })
          ⟨retryStore, .ofList [.i32 7, .i32 5]⟩ ∧
      Run.invoke 100 0 [.i32 1] ⟨retryStore, .empty⟩ =
        some (.ok [.i32 12] ⟨retryStore, .empty⟩) := by
  have hrun : Run.invoke 100 0 [.i32 1] ⟨retryStore, .empty⟩ =
      some (.ok [.i32 12] ⟨retryStore, .empty⟩) := by
    cbv
  exact ⟨retry_visits_branch, retry_visits_close, rfl, rfl, hrun⟩

end WebAssembly
