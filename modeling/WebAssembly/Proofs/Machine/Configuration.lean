import Mathlib.Data.List.Forall2
import WebAssembly.Proofs.Flattening
import WebAssembly.Proofs.Nesting

/-!
# Configurations

Labels come and go with single ops: ops that open a construct push one, `close` pops one, and
branches drop as many as they leave. For code that was laid out from a body, validated or not, they
nevertheless mirror the constructs of this body at every step of every run: the labels of an
activation are those of the constructs around its position, and below them the one of the function
(`Activation.Placed`). `Activation.Yields` says once what an op can make of an activation; that it
keeps the activation placed follows from where ops and branches go in bracketed code.
-/

namespace WebAssembly

/-! ## What ops make of an activation

A relation with one case for each way to go on, read off the machine once. All later arguments go by
its cases.
-/

/-- What an op, behind which the activation already stands, can make of it. -/
inductive Activation.Yields (act : Activation) : Op → Flow → Prop
  | block {arity stop : Nat} (height : Nat) :
      Yields act (.block arity stop)
        (.next (act.enterLabel (.ofConstruct .block arity height (stop + 1))))
  | loop (height : Nat) :
      Yields act .loop (.next (act.enterLabel (.ofConstruct .loop 0 height (act.pc - 1))))
  | ifThen {arity otherwise stop : Nat} (height : Nat) :
      Yields act (.ifElse arity otherwise stop)
        (.next (act.enterLabel (.ofConstruct .ifElse arity height (stop + 1))))
  | ifElse {arity otherwise stop : Nat} (height : Nat) :
      Yields act (.ifElse arity otherwise stop)
        (.next ((act.enterLabel (.ofConstruct .ifElse arity height (stop + 1))).goTo
          (otherwise + 1)))
  | skip {stop : Nat} : Yields act (.skip stop) (.next (act.goTo stop))
  | close : Yields act .close (.next { act with labels := act.labels.tail })
  | plain {i : Instruction} (frame : Frame) :
      Yields act (.instr i) (.next { act with frame := frame })
  | branch {i : Instruction} {n : Nat} {target : Label} {around : List Label} :
      act.labels.drop n = target :: around → target.kind ≠ .func →
      Yields act (.instr i) (.next { act with labels := around, pc := target.cont })
  | call {i : Instruction} {func : Nat} : Yields act (.instr i) (.call act func)
  | done {i : Instruction} {act' : Activation} : Yields act (.instr i) (.done act')

/-- The activation with which the caller goes on, now or later. -/
def Flow.remaining? : Flow → Option Activation
  | .next act => some act
  | .call act _ => some act
  | .done _ => none

/-- Code and arity are those of the function, and no operation changes them. -/
theorem Activation.Yields.same {act act' : Activation} {o : Op} {flow : Flow}
    (h : act.Yields o flow) (hact' : flow.remaining? = some act') :
    act'.code = act.code ∧ act'.arity = act.arity := by
  cases h <;> cases hact' <;> exact ⟨rfl, rfl⟩

namespace Exec

variable {act : Activation} {flow : Flow} {m m' : Machine}

/-- A branch goes to one of the labels, or ends the function. -/
theorem br_yields (i : Instruction) {label : UInt32}
    (h : (onStack (OnStack.br act.labels label) >>= follow act) m = .ok flow m') :
    act.Yields (.instr i) flow := by
  cases hdrop : act.labels.drop label.toNat with
  | nil =>
      rw [br_of_drop_nil hdrop] at h
      cases h
  | cons target around =>
      rw [br_of_drop_cons hdrop] at h
      obtain ⟨_, m₁, _, h⟩ := bind_eq_ok_iff.mp h
      -- the outermost label is that of the function, and a branch to it is a return
      by_cases hkind : target.kind = .func
      · rw [if_pos hkind] at h
        cases h
        exact .done
      · rw [if_neg hkind] at h
        cases h
        exact .branch hdrop hkind

/-- What an instruction can do to an activation, read off from it having done so. -/
theorem instruction_yields {i : Instruction} (h : instruction act i m = .ok flow m') :
    act.Yields (.instr i) flow := by
  cases i with
  | unreachable => cases h
  | nop =>
      cases h
      exact .plain act.frame
  | br label => exact br_yields _ h
  | brIf label =>
      rw [brIf_eq] at h
      obtain ⟨condition, m₁, _, h⟩ := bind_eq_ok_iff.mp h
      by_cases hzero : condition = 0
      · rw [if_pos hzero] at h
        cases h
        exact .plain act.frame
      · rw [if_neg hzero] at h
        exact br_yields _ h
  | brTable targets default =>
      rw [brTable_eq] at h
      obtain ⟨index, m₁, _, h⟩ := bind_eq_ok_iff.mp h
      exact br_yields _ h
  | ret =>
      cases h
      exact .done
  | call func =>
      obtain ⟨addr, m₁, _, h⟩ := bind_eq_ok_iff.mp h
      cases h
      exact .call
  | callIndirect type =>
      obtain ⟨addr, m₁, _, h⟩ := bind_eq_ok_iff.mp h
      cases h
      exact .call
  | plain op =>
      obtain ⟨frame, m₁, _, h⟩ := bind_eq_ok_iff.mp h
      cases h
      exact .plain frame
  | block type body => cases h
  | loop type body => cases h
  | ifElse type thenBody elseBody => cases h

/-- What an operation can do to an activation. -/
theorem op_yields {o : Op} (h : op act o m = .ok flow m') : act.Yields o flow := by
  cases o with
  | block arity stop =>
      cases h
      exact .block m.stack.size
  | loop =>
      cases h
      exact .loop m.stack.size
  | ifElse arity otherwise stop =>
      cases hpop : onStack (OnStack.popInt .i32) m with
      | error e m₁ =>
          rw [ifElse_of_error hpop] at h
          cases h
      | ok condition m₁ =>
          rw [ifElse_of_ok hpop] at h
          cases h
          split
          · exact .ifElse m'.stack.size
          · exact .ifThen m'.stack.size
  | skip stop =>
      cases h
      exact .skip
  | close =>
      cases h
      exact .close
  | instr i => exact instruction_yields h

/-- What executing one op of the innermost activation can make of the activations. -/
inductive Advances (act : Activation) (outer : Stack Activation) (m : Machine) :
    Stack Activation → Machine → Prop
  | next {act' : Activation} {m' : Machine} :
      step act m = .ok (.next act') m' → Advances act outer m (outer.push act') m'
  | host {act' : Activation} {func : Nat} {m₁ m' : Machine} :
      step act m = .ok (.call act' func) m₁ → enter func m₁ = .ok none m' →
      Advances act outer m (outer.push act') m'
  | call {act' callee : Activation} {func : Nat} {m₁ m' : Machine} :
      step act m = .ok (.call act' func) m₁ → enter func m₁ = .ok (some callee) m' →
      outer.size + 1 < maxCallDepth → Advances act outer m ((outer.push act').push callee) m'
  | done {act' : Activation} {m₁ m' : Machine} :
      step act m = .ok (.done act') m₁ → leave act' m₁ = .ok () m' → Advances act outer m outer m'

/-- A step of a run is one of four: on within the code, a host call, a call, a return. -/
theorem advances_of_advance {outer acts : Stack Activation}
    (h : advance act outer m = .ok acts m') : Advances act outer m acts m' := by
  rw [advance_eq] at h
  obtain ⟨flow, m₁, hstep, h⟩ := bind_eq_ok_iff.mp h
  cases flow with
  | next act' =>
      cases h
      exact .next hstep
  | call act' func =>
      obtain ⟨callee, m₂, henter, h⟩ := bind_eq_ok_iff.mp h
      cases callee with
      | none =>
          cases h
          exact .host hstep henter
      | some callee =>
          dsimp only at h
          split at h
          · cases h
          · next hdepth =>
              cases h
              exact .call hstep henter (Nat.lt_of_not_le hdepth)
  | done act' =>
      obtain ⟨_, m₂, hleave, h⟩ := bind_eq_ok_iff.mp h
      cases h
      exact .done hstep hleave

end Exec

/-! ## Labels and constructs

The invariant: labels are those of the constructs around the position, innermost first. Each case
keeps it because of where ops go in bracketed code.
-/

/-- The activation executes the code of `body` and has the right labels for where it stands: one for
each construct around it, the innermost one first, and last the one of the function. -/
structure Activation.Placed (act : Activation) (body : Expr) : Prop where
  code : act.code = Code.compile act.code.locals body
  pc_le : act.pc ≤ act.code.ops.size
  labels : ∃ inner, act.labels = inner ++ [⟨.func, act.arity, act.height, act.code.ops.size⟩] ∧
    List.Forall₂ Label.Of inner (enclosing (Expr.sites 0 body) act.pc).reverse

namespace Activation.Placed

variable {act : Activation} {body : Expr}

/-- The code of an activation in place is that of its body. -/
theorem bracketed (h : act.Placed body) :
    Bracketed act.code.ops 0 act.code.ops.size (Expr.sites 0 body) := by
  rw [h.code]
  exact bracketed_compile _ _

/-- It stays placed where the same constructs are around it. -/
theorem along (h : act.Placed body) {pc : Nat} (hpc : pc ≤ act.code.ops.size)
    (hsame : enclosing (Expr.sites 0 body) pc = enclosing (Expr.sites 0 body) act.pc)
    (frame : Frame) : { act with pc := pc, frame := frame }.Placed body where
  code := h.code
  pc_le := hpc
  labels := by
    rw [hsame]
    exact h.labels

/-- It stays placed where one more construct is around it, with the label of this one. -/
theorem into (h : act.Placed body) {pc : Nat} (hpc : pc ≤ act.code.ops.size) {c : Site}
    (hinto : enclosing (Expr.sites 0 body) pc = enclosing (Expr.sites 0 body) act.pc ++ [c])
    (height : Nat) : { act with pc := pc, labels := c.label height :: act.labels }.Placed body where
  code := h.code
  pc_le := hpc
  labels := by
    obtain ⟨inner, hlabels, hinner⟩ := h.labels
    refine ⟨c.label height :: inner, congrArg _ hlabels, ?_⟩
    rw [hinto, List.reverse_append]
    exact .cons rfl hinner

/-- The label on top is that of the innermost construct around. -/
theorem labels_of_enclosing (h : act.Placed body) {outer : List Site} {c : Site}
    (hc : enclosing (Expr.sites 0 body) act.pc = outer ++ [c]) :
    ∃ label inner, label.Of c ∧
      act.labels = label :: (inner ++ [⟨.func, act.arity, act.height, act.code.ops.size⟩]) ∧
      List.Forall₂ Label.Of inner outer.reverse := by
  obtain ⟨inner, hlabels, hinner⟩ := h.labels
  rw [hc, List.reverse_append] at hinner
  obtain ⟨label, inner, hof, hrest, rfl⟩ := List.forall₂_cons_right_iff.mp hinner
  exact ⟨label, inner, hof, hlabels, hrest⟩

/-- What is left of labels at some depth starts with the one of the function, or still has it at the
end. -/
theorem drop_labels {inner around : List Label} {func target : Label} {n : Nat}
    (h : (inner ++ [func]).drop n = target :: around) :
    target = func ∨ ∃ rest, inner.drop n = target :: rest ∧ around = rest ++ [func] := by
  rw [List.drop_append] at h
  -- the label of the function is below all others, so it is reached only if they are used up
  cases hcut : inner.drop n with
  | nil =>
      rw [hcut, List.nil_append] at h
      have htarget : target ∈ [func].drop (n - inner.length) := by
        rw [h]
        exact List.mem_cons_self
      exact .inl (List.mem_singleton.mp (List.mem_of_mem_drop htarget))
  | cons label rest =>
      have hlt : n < inner.length := by
        apply Nat.lt_of_not_le
        intro hle
        rw [List.drop_eq_nil_of_le hle] at hcut
        cases hcut
      rw [hcut, Nat.sub_eq_zero_of_le (Nat.le_of_lt hlt)] at h
      cases h
      exact .inr ⟨rest, rfl, rfl⟩

/-- It stays placed after a branch to one of its labels but that of the function. -/
theorem branch (h : act.Placed body) {n : Nat} {target : Label} {around : List Label}
    (hdrop : act.labels.drop n = target :: around) (hkind : target.kind ≠ .func) :
    { act with labels := around, pc := target.cont }.Placed body := by
  obtain ⟨inner, hlabels, hinner⟩ := h.labels
  rw [hlabels] at hdrop
  rcases drop_labels hdrop with rfl | ⟨rest, hcut, rfl⟩
  · exact absurd rfl hkind
  have hleft := List.forall₂_drop n hinner
  rw [hcut] at hleft
  obtain ⟨c, outer, hof, hrest, hsites⟩ := List.forall₂_cons_left_iff.mp hleft
  -- read from the outside, the constructs around are those around the target, it and those in it
  have haround : enclosing (Expr.sites 0 body) act.pc = outer.reverse ++
      c :: ((enclosing (Expr.sites 0 body) act.pc).reverse.take n).reverse := by
    apply List.reverse_injective
    conv_lhs => rw [← List.take_append_drop n (enclosing _ act.pc).reverse, hsites]
    simp
  have hcont : target.cont = c.cont := congrArg Label.cont hof
  refine ⟨h.code, ?_, rest, rfl, ?_⟩
  · have hbounds := h.bracketed.spans.cont (Nested.mem_of_enclosing haround)
    exact hcont ▸ hbounds.2
  · rw [show ({ act with labels := rest ++ [_], pc := target.cont } : Activation).pc = c.cont from
      hcont, h.bracketed.nested.cont haround, List.reverse_reverse]
    exact hrest

/-- What an op makes of a placed activation is placed. -/
theorem yields (h : act.Placed body) {o : Op} {flow : Flow} {act' : Activation}
    (hop : act.code.ops[act.pc]? = some o) (hflow : (act.goTo (act.pc + 1)).Yields o flow)
    (hact' : flow.remaining? = some act') : act'.Placed body := by
  have hlt : act.pc < act.code.ops.size := (Array.getElem?_eq_some_iff.mp hop).1
  have hmoves : o.Moves (Expr.sites 0 body) act.code.ops.size act.pc :=
    h.bracketed.moves (Nat.zero_le _) hlt hop
  -- each operation moves to where the bracketing of the code says
  cases hflow with
  | block height =>
      cases hact'
      obtain ⟨type, rfl, hinto⟩ := hmoves
      exact h.into hlt hinto height
  | loop height =>
      cases hact'
      obtain ⟨type, stop, hinto⟩ := hmoves
      exact h.into hlt hinto height
  | ifThen height =>
      cases hact'
      obtain ⟨type, rfl, -, -, hinto, -⟩ := hmoves
      exact h.into hlt hinto height
  | ifElse height =>
      cases hact'
      obtain ⟨type, rfl, -, hother, -, hinto⟩ := hmoves
      exact h.into hother hinto height
  | skip =>
      cases hact'
      obtain ⟨-, hstop, hsame⟩ := hmoves
      exact h.along hstop hsame act.frame
  | close =>
      cases hact'
      obtain ⟨c, -, hout⟩ := hmoves
      obtain ⟨label, inner, -, hlabels, hinner⟩ := h.labels_of_enclosing hout
      exact ⟨h.code, hlt, inner, congrArg List.tail hlabels, hinner⟩
  | plain frame =>
      cases hact'
      exact h.along hlt hmoves frame
  | branch hdrop hkind =>
      cases hact'
      exact h.branch hdrop hkind
  | call =>
      cases hact'
      exact h.along hlt hmoves act.frame
  | done => cases hact'

/-- The label on top is that of the construct that a `close` ends. -/
theorem label_of_stop (h : act.Placed body) {c : Site} (hc : c ∈ Expr.sites 0 body)
    (hstop : c.stop = act.pc) : ∃ label around, label.Of c ∧ act.labels = label :: around := by
  obtain ⟨outer, houter⟩ := h.bracketed.nested.last hc
  rw [hstop] at houter
  obtain ⟨label, inner, hof, hlabels, -⟩ := h.labels_of_enclosing houter
  exact ⟨label, _, hof, hlabels⟩

/-- There are no more labels than constructs around the place, and the function. -/
theorem length_labels_le (h : act.Placed body) : act.labels.length ≤ 1 + Expr.nesting body := by
  obtain ⟨inner, hlabels, hinner⟩ := h.labels
  have hdepth := Expr.length_enclosing_le body (standAt_compile act.code.locals body) act.pc
  have hlength := hinner.length_eq
  rw [List.length_reverse] at hlength
  rw [hlabels, List.length_append, List.length_singleton]
  omega

end Activation.Placed

/-! ## Whole runs

Activations come and go, each placed in the body of its own function. The bound on their number is
checked at every call.
-/

/-- The activation is one of a function of the store, placed in the body of this function. -/
def Activation.Runs (act : Activation) (s : Store) (bodies : Nat → Expr) : Prop :=
  ∃ (addr : Nat) (type : FuncType) (module : Nat),
    s.funcs[addr]? = some (.defined type module act.code) ∧ act.arity = type.results.length ∧
    act.Placed (bodies addr)

section Runs

variable {act act' : Activation} {bodies : Nat → Expr} {m m' : Machine}

/-- An operation moves an activation within its body to another place in it. -/
theorem Exec.step_runs {flow : Flow} (h : act.Runs m.store bodies)
    (hstep : Exec.step act m = .ok flow m') (hact' : flow.remaining? = some act') :
    act'.Runs m.store bodies := by
  obtain ⟨addr, type, module, hfunc, harity, hplaced⟩ := h
  cases hop : act.code.ops[act.pc]? with
  | none =>
      rw [Exec.step_of_none hop] at hstep
      cases hstep
      cases hact'
  | some o =>
      rw [Exec.step_of_op hop] at hstep
      have hyields := Exec.op_yields hstep
      obtain ⟨hcode, harity'⟩ := hyields.same hact'
      refine ⟨addr, type, module, ?_, harity'.trans harity, hplaced.yields hop hyields hact'⟩
      rw [hcode]
      exact hfunc

/-- A function is entered at the start of its body, with only itself around. -/
theorem Exec.enter_runs {addr : Nat} (hm : m.store.CompiledFrom bodies)
    (h : Exec.enter addr m = .ok (some act) m') : act.Runs m.store bodies := by
  obtain ⟨type, module, hfunc, harity, hpc, hlabels⟩ := Exec.enter_eq_some h
  have hfunc := atAddress_eq_ok_iff.mp hfunc
  have hcode := hm addr type module act.code hfunc
  have hspans := (bracketed_compile act.code.locals (bodies addr)).spans
  refine ⟨addr, type, module, hfunc, harity, hcode, hpc ▸ Nat.zero_le _, [], hlabels, ?_⟩
  rw [hpc, hspans.enclosing_eq_nil (.inl (Nat.le_refl 0))]
  exact .nil

theorem Activation.Runs.keeps {s s' : Store} (h : act.Runs s bodies) (hs : s.Keeps s') :
    act.Runs s' bodies := by
  obtain ⟨addr, type, module, hfunc, hrest⟩ := h
  exact ⟨addr, type, module, hs.funcs ▸ hfunc, hrest⟩

/-- There are not too many activations, and each is placed in the body of its function. -/
def Configured (bodies : Nat → Expr) (acts : Stack Activation) (m : Machine) : Prop :=
  acts.size ≤ maxCallDepth ∧ ∀ act ∈ acts.toList, act.Runs m.store bodies

/-- One op keeps activations configured. -/
theorem Exec.advance_configured {outer acts : Stack Activation}
    (hm : m.store.CompiledFrom bodies) (h : Configured bodies (outer.push act) m)
    (hadvance : Exec.advance act outer m = .ok acts m') : Configured bodies acts m' := by
  obtain ⟨hsize, hall⟩ := h
  have hact := hall act List.mem_cons_self
  have houter : ∀ a ∈ outer.toList, a.Runs m.store bodies :=
    fun a ha => hall a (List.mem_cons_of_mem act ha)
  -- no op changes the functions of the store, so it is enough to look at the store before it
  have hkeeps := Exec.Steady.advance act outer m
  rw [hadvance] at hkeeps
  suffices hbefore : acts.size ≤ maxCallDepth ∧ ∀ a ∈ acts.toList, a.Runs m.store bodies from
    ⟨hbefore.1, fun a ha => (hbefore.2 a ha).keeps hkeeps⟩
  cases Exec.advances_of_advance hadvance with
  | next hstep =>
      exact ⟨hsize, List.forall_mem_cons.mpr ⟨Exec.step_runs hact hstep rfl, houter⟩⟩
  | host hstep henter =>
      exact ⟨hsize, List.forall_mem_cons.mpr ⟨Exec.step_runs hact hstep rfl, houter⟩⟩
  | @call act' callee func m₁ _ hstep henter hdepth =>
      have hkeeps₁ := Exec.Steady.step act m
      rw [hstep] at hkeeps₁
      obtain ⟨addr, type, module, hfunc, hplaced⟩ := Exec.enter_runs (hm.keeps hkeeps₁) henter
      have hcallee : callee.Runs m.store bodies :=
        ⟨addr, type, module, hkeeps₁.funcs ▸ hfunc, hplaced⟩
      exact ⟨hdepth, List.forall_mem_cons.mpr ⟨hcallee,
        List.forall_mem_cons.mpr ⟨Exec.step_runs hact hstep rfl, houter⟩⟩⟩
  | done hstep hleave =>
      exact ⟨Nat.le_of_succ_le hsize, houter⟩

/-- Every op of a call does. -/
theorem Run.Visits.configured {addr : Nat} {acts : Stack Activation}
    (hm : m.store.CompiledFrom bodies) (h : Run.Visits addr m acts m') :
    Configured bodies acts m' := by
  induction h with
  | host _ => exact ⟨Nat.zero_le _, nofun⟩
  | start henter =>
      have hkeeps := Exec.Steady.enter addr m
      rw [henter] at hkeeps
      refine ⟨show 1 ≤ maxCallDepth by decide, fun act hact => ?_⟩
      obtain rfl := List.mem_singleton.mp hact
      exact (Exec.enter_runs hm henter).keeps hkeeps
  | op h hadvance ih => exact Exec.advance_configured (hm.keeps h.keeps) ih hadvance

/-- Labels mirror constructs. In every call on code that was laid out from bodies, whatever these
are, and between any two ops of it: there are at most `maxCallDepth` activations; each stands in the
code of its function and has exactly the labels of the constructs around its position and that of
the function. So there are never more labels than the body has levels, plus one, and `close` takes
off the label of the construct that it ends and does nothing else. -/
theorem Run.Visits.labels_mirror_constructs {addr : Nat} {acts : Stack Activation}
    (hm : m.store.CompiledFrom bodies) (h : Run.Visits addr m acts m') :
    acts.size ≤ maxCallDepth ∧
      ∀ act ∈ acts.toList, ∃ (func : Nat) (type : FuncType) (module : Nat),
        m'.store.funcs[func]? = some (.defined type module act.code) ∧
        act.arity = type.results.length ∧ act.Placed (bodies func) ∧
        act.labels.length ≤ 1 + Expr.nesting (bodies func) ∧
        (act.code.ops[act.pc]? = some .close →
          (∃ c ∈ Expr.sites 0 (bodies func), c.stop = act.pc) ∧
          ∀ c ∈ Expr.sites 0 (bodies func), c.stop = act.pc →
            ∃ label around, label.Of c ∧ act.labels = label :: around ∧
              ∀ m, Exec.step act m =
                .ok (.next { act with pc := act.pc + 1, labels := around }) m) := by
  obtain ⟨hsize, hall⟩ := h.configured hm
  refine ⟨hsize, fun act hact => ?_⟩
  obtain ⟨func, type, module, hfunc, harity, hplaced⟩ := hall act hact
  refine ⟨func, type, module, hfunc, harity, hplaced, hplaced.length_labels_le, fun hclose => ?_⟩
  have hlt : act.pc < act.code.ops.size := (Array.getElem?_eq_some_iff.mp hclose).1
  -- a closing operation stands at the end of a construct, whose label is on top
  obtain ⟨c, hstop, hout⟩ := hplaced.bracketed.moves (Nat.zero_le _) hlt hclose
  refine ⟨⟨c, Nested.mem_of_enclosing hout, hstop⟩, fun c hc hstop => ?_⟩
  obtain ⟨label, around, hof, hlabels⟩ := hplaced.label_of_stop hc hstop
  refine ⟨label, around, hof, hlabels, fun m => ?_⟩
  rw [Exec.step_of_op hclose]
  show EStateM.Result.ok (Flow.next { act with pc := act.pc + 1, labels := act.labels.tail }) m = _
  rw [hlabels]
  rfl

/-- A loop in the second body of an `if`, which is reached by a jump. -/
def loopInElse : Expr :=
  [.plain (.const (.i32 0)), .ifElse .empty [] [.loop .empty []]]

/-- The call of it before the op that ends the loop. -/
def insideLoop : Activation :=
  ⟨0, ⟨{}, #[]⟩, Code.compile [] loopInElse, 0, 4,
    [⟨.loop, 0, 0, 3⟩, ⟨.ifElse, 0, 0, 6⟩, ⟨.func, 0, 0, 6⟩]⟩

/-- The innermost label there is the one of the loop, and it goes with the next op. -/
theorem labels_mirror_constructs_loopInElse :
    let s := Store.ofBody ⟨[], []⟩ [] loopInElse
    s.CompiledFrom (fun _ => loopInElse) ∧
    Run.Visits 0 ⟨s, .empty⟩ (Stack.empty.push insideLoop) ⟨s, .empty⟩ ∧
    insideLoop.Placed loopInElse ∧
    enclosing (Expr.sites 0 loopInElse) 4 = [⟨.ifElse, .empty, 1, 5⟩, ⟨.loop, .empty, 3, 4⟩] ∧
    ∃ label around, label.Of ⟨.loop, .empty, 3, 4⟩ ∧ insideLoop.labels = label :: around ∧
      ∀ m, Exec.step insideLoop m =
        .ok (.next { insideLoop with pc := 5, labels := around }) m := by
  intro s
  have hs : s.CompiledFrom fun _ => loopInElse := Store.compiledFrom_ofBody _ _ _
  have hvisits : Run.Visits 0 ⟨s, .empty⟩ (Stack.empty.push insideLoop) ⟨s, .empty⟩ :=
    .op (.op (.op (.start rfl) rfl) rfl) rfl
  obtain ⟨-, hall⟩ := Run.Visits.labels_mirror_constructs hs hvisits
  obtain ⟨-, -, -, -, -, hplaced, -, hclose⟩ := hall insideLoop List.mem_cons_self
  obtain ⟨-, hlabel⟩ := hclose rfl
  exact ⟨hs, hvisits, hplaced, rfl, hlabel ⟨.loop, .empty, 3, 4⟩ (by decide) rfl⟩

end Runs

end WebAssembly
