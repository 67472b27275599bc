import Mathlib
import WebAssembly.Proofs.Layout
import WebAssembly.Proofs.Machine.Runs
import WebAssembly.Proofs.Reference

/-!
# Flattening preserves meaning

Flat code run with positions, labels and activations does what the reference interpreter does on
the tree, for all code, valid or not. One induction on the fuel of the interpreter gives both
directions: where the interpreter has an answer, a number of ops leads the flat machine to the same
one; where it has none, half as many ops do not suffice for the flat machine either. So neither side
can end without the other. Half, because a level of evaluation may enter a sequence without
executing an op, but not two levels in a row.
-/

namespace WebAssembly

/-- The code of every function in the store is the layout of the body that belongs to its
address. -/
def Store.CompiledFrom (s : Store) (bodies : Nat → Expr) : Prop :=
  ∀ (addr : Nat) (type : FuncType) (module : Nat) (code : Code),
    s.funcs[addr]? = some (.defined type module code) →
      code = Code.compile code.locals (bodies addr)

/-- Code is never replaced, so the trees it comes from stay the same. -/
theorem Store.CompiledFrom.keeps {s s' : Store} {bodies : Nat → Expr} (h : s.CompiledFrom bodies)
    (hs : s.Keeps s') : s'.CompiledFrom bodies := by
  intro addr type module code hcode
  rw [hs.funcs] at hcode
  exact h addr type module code hcode

/-! ## What runs of the interpreter leave alone

The interpreter changes the store only by the operations of the machine, so the compiled code in it
stays where it is and stays compiled from the same trees.
-/

namespace Tree

theorem leaveConstruct_steady (arity height : Nat) {arrive : Frame → Run (Exit × Frame)}
    (h : ∀ frame, (arrive frame).Steady) (frame : Frame) (exit : Exit) :
    (leaveConstruct arity height arrive frame exit).Steady := by
  cases exit with
  | next => exact .pure _
  | ret => exact .pure _
  | branch left label =>
      cases left with
      | zero => exact (Run.Steady.lift (.onStack _)).bind fun _ => h frame
      | succ left => exact .pure _

theorem behind_steady (frame : Frame) : (behind frame).Steady :=
  .pure _

theorem leaveCall_steady (act : Activation) (exit : Exit) : (leaveCall act exit).Steady := by
  cases exit with
  | next => exact .leave act
  | ret => exact .leave act
  | branch left label =>
      cases left with
      | zero => exact .leave act
      | succ left => exact .throw _

theorem callWith_steady {bodies : Nat → Expr} {evaluate : Frame → Expr → Run (Exit × Frame)}
    (h : ∀ frame is, (evaluate frame is).Steady) (depth addr : Nat) :
    (callWith bodies evaluate depth addr).Steady := by
  refine (Run.Steady.lift (.enter addr)).bind fun act => ?_
  cases act with
  | none => exact .pure ()
  | some act =>
      show Run.Steady (if _ then _ else _)
      split
      · exact .lift (.ofExcept _)
      · exact (h _ _).bind fun ⟨exit, _⟩ => .lift (leaveCall_steady act exit)

/-- Evaluating a tree does to the store what executing code may do to it. -/
theorem steady (bodies : Nat → Expr) (fuel : Nat) :
    (∀ depth frame i, (instruction bodies fuel depth frame i).Steady) ∧
      ∀ depth frame is, (sequence bodies fuel depth frame is).Steady := by
  -- on the fuel that instructions and sequences share
  induction fuel with
  | zero =>
      constructor
      · intro depth frame i m r h
        cases h
      · intro depth frame is m r h
        cases h
  | succ fuel ih =>
      obtain ⟨ihi, ihs⟩ := ih
      constructor
      · intro depth frame i
        rw [instruction.eq_def]
        cases i with
        | unreachable => exact .lift (.ofExcept _)
        | nop => exact .pure _
        | block type body =>
            exact (Run.Steady.lift (.onStack _)).bind fun _ => (ihs _ _ _).bind
              fun ⟨exit, frame⟩ => leaveConstruct_steady _ _ behind_steady frame exit
        | loop type body =>
            exact (Run.Steady.lift (.onStack _)).bind fun _ => (ihs _ _ _).bind
              fun ⟨exit, frame⟩ => leaveConstruct_steady _ _ (ihi depth · _) frame exit
        | ifElse type thenBody elseBody =>
            exact (Run.Steady.lift (.onStack _)).bind fun _ => (Run.Steady.lift (.onStack _)).bind
              fun _ => (ihs _ _ _).bind
                fun ⟨exit, frame⟩ => leaveConstruct_steady _ _ behind_steady frame exit
        | br label => exact .pure _
        | brIf label => exact (Run.Steady.lift (.onStack _)).bind fun _ => .pure _
        | brTable targets default => exact (Run.Steady.lift (.onStack _)).bind fun _ => .pure _
        | ret => exact .pure _
        | call i =>
            exact (Run.Steady.lift (.ofExcept _)).bind fun addr =>
              (callWith_steady (ihs (depth + 1)) depth addr).bind fun _ => .pure _
        | callIndirect type =>
            exact (Run.Steady.lift (.indirect _ _)).bind fun addr =>
              (callWith_steady (ihs (depth + 1)) depth addr).bind fun _ => .pure _
        | plain op => exact (Run.Steady.lift (.plain _ _)).bind fun _ => .pure _
      · intro depth frame is
        rw [sequence.eq_def]
        cases is with
        | nil => exact .pure _
        | cons i is =>
            refine (ihi _ _ _).bind ?_
            rintro ⟨exit, frame⟩
            cases exit with
            | next => exact ihs _ _ _
            | ret => exact .pure _
            | branch left label => exact .pure _

/-! ## Ways a call starts

Entering a function may fail, be answered by the host, be refused for the depth of calls, or start a
body. Tree and flat code part only after that.
-/

section Calls

variable {bodies : Nat → Expr} {evaluate : Frame → Expr → Run (Exit × Frame)} {depth addr : Nat}
  {m m' : Machine}

theorem callWith_of_error {e : RuntimeError} (h : Exec.enter addr m = .error e m') :
    callWith bodies evaluate depth addr m = some (.error e m') :=
  Run.lift_of_error h

theorem callWith_of_none (h : Exec.enter addr m = .ok none m') :
    callWith bodies evaluate depth addr m = some (.ok () m') :=
  Run.lift_of_ok h

theorem callWith_of_deep {act : Activation} (h : Exec.enter addr m = .ok (some act) m')
    (hdeep : maxCallDepth ≤ depth) :
    callWith bodies evaluate depth addr m = some (.error (.trap .callStackExhausted) m') := by
  rw [callWith, Run.lift_of_ok h]
  simp only [if_pos hdeep]
  rfl

theorem callWith_of_some {act : Activation} (h : Exec.enter addr m = .ok (some act) m')
    (hdepth : ¬ maxCallDepth ≤ depth) :
    callWith bodies evaluate depth addr m =
      (evaluate act.frame (bodies addr) >>= fun (exit, _) => liftM (leaveCall act exit)) m' := by
  rw [callWith, Run.lift_of_ok h]
  simp only [if_neg hdepth]

end Calls

end Tree

/-! ## Ops of flat code

What the ops of a construct do to an activation, one equation for each. They are compared with what
the interpreter does at the same point.
-/

namespace Exec

/-- How an activation goes on from the way a piece of its code ended. Behind the piece it stands at
`stop`. -/
def settle (act : Activation) (outer : Stack Activation) (stop : Nat) :
    Exit × Frame → Exec (Stack Activation)
  | (.next, frame) => return outer.push { act with frame := frame, pc := stop }
  | (.branch left label, frame) =>
    match act.labels.drop left with
    | [] => throw (.invalidIndex .label label)
    | target :: around => do
      onStack (OnStack.unwindTo target)
      if target.kind = .func then
        leave act
        return outer
      else return outer.push { act with frame := frame, pc := target.cont, labels := around }
  | (.ret, _) => do
    leave act
    return outer

/-- A branch in flat code goes where the exit of the tree leads. -/
theorem follow_br (act : Activation) (outer : Stack Activation) (stop : Nat) (label : UInt32)
    (m : Machine) :
    ((onStack (OnStack.br act.labels label) >>= follow act) >>= proceed outer) m =
      settle act outer stop (.toLabel label, act.frame) m := by
  rw [Exit.toLabel, settle]
  cases hdrop : act.labels.drop label.toNat with
  | nil =>
      rw [br_of_drop_nil hdrop]
      rfl
  | cons target around =>
      rw [br_of_drop_cons hdrop, bind_assoc]
      dsimp only
      cases hunwind : onStack (OnStack.unwindTo target) m with
      | error e m' => rw [bind_of_error hunwind, bind_of_error hunwind]
      | ok a m' =>
          rw [bind_of_ok hunwind, bind_of_ok hunwind]
          -- a branch to the function returns; all others go on at the continuation of their label
          by_cases hfunc : target.kind = .func
          · rw [if_pos hfunc, if_pos hfunc]
            rfl
          · rw [if_neg hfunc, if_neg hfunc]
            rfl

end Exec

/-! ## Reaching what the tree reaches

The relation that carries the proof. `Reaches` bounds the number of ops from both sides: enough of
them lead to the answer of the tree, and where the tree has none, too few do not end either.
-/

/-- The flat machine does from some activations what the tree did: it reaches the same failure, gets
to the `goal` after at least `least` ops, or does not end within `bound` ops. -/
def Reaches {α : Type} (bound least : Nat) (acts : Stack Activation) (m : Machine)
    (goal : α → Exec (Stack Activation)) : Outcome α → Prop
  | none => Run.finish bound acts m = none
  | some (.error e m') => ∃ k, Run.Leads k acts m (.error e m')
  | some (.ok a m') => ∃ k, least ≤ k ∧ Run.Leads k acts m (goal a m')

namespace Reaches

variable {α β : Type} {bound least : Nat} {acts : Stack Activation} {m : Machine}
  {goal : α → Exec (Stack Activation)} {o : Outcome α}

/-- Less may be asked of a run than it does. -/
theorem weaken {bound' least' : Nat} (h : Reaches bound least acts m goal o)
    (hbound : bound' ≤ bound) (hleast : least' ≤ least) : Reaches bound' least' acts m goal o := by
  cases o with
  | none => exact Run.finish_eq_none_of_le h hbound
  | some r =>
      cases r with
      | error e m' => exact h
      | ok a m' =>
          obtain ⟨k, hk, hleads⟩ := h
          exact ⟨k, Nat.le_trans hleast hk, hleads⟩

/-- Ops that lead to where the tree is followed. -/
theorem after {k : Nat} {acts' : Stack Activation} {m' : Machine}
    (hleads : Run.Leads k acts m (.ok acts' m')) (h : Reaches bound least acts' m' goal o) :
    Reaches (bound + k) (least + k) acts m goal o := by
  cases o with
  | none => exact hleads.finish_eq_none h
  | some r =>
      cases r with
      | error e m'' =>
          obtain ⟨k', hk'⟩ := h
          exact ⟨k' + k, hleads.trans hk'⟩
      | ok a m'' =>
          obtain ⟨k', hleast, hk'⟩ := h
          exact ⟨k' + k, by omega, hleads.trans hk'⟩

/-- Two runs of the tree after each other: only the second one, from where the first one got to, is
left to be followed. -/
theorem bind {x : Run α} {f : α → Run β} {least' : Nat} {goal' : β → Exec (Stack Activation)}
    {m₁ : Machine} (hx : Reaches bound least acts m goal (x m₁))
    (hf : ∀ (a : α) (m' : Machine) (k : Nat), x m₁ = some (.ok a m') → least ≤ k →
      Run.Leads k acts m (goal a m') → Reaches bound least' acts m goal' (f a m')) :
    Reaches bound least' acts m goal' ((x >>= f) m₁) := by
  cases hxm : x m₁ with
  | none =>
      rw [hxm] at hx
      rw [Run.bind_of_none hxm]
      exact hx
  | some r =>
      rw [hxm] at hx
      cases r with
      | error e m' =>
          rw [Run.bind_of_error hxm]
          exact hx
      | ok a m' =>
          obtain ⟨k, hk, hleads⟩ := hx
          rw [Run.bind_of_ok hxm]
          exact hf a m' k hxm hk hleads

/-- An operation that both sides do last. -/
theorem lift {x : Exec α} {k : Nat} {m' : Machine} (hk : least ≤ k)
    (h : Run.Leads k acts m ((x >>= goal) m')) :
    Reaches bound least acts m goal ((liftM x : Run α) m') := by
  show Reaches bound least acts m goal (some (x m'))
  cases hx : x m' with
  | error e m'' =>
      rw [bind_of_error hx] at h
      exact ⟨k, h⟩
  | ok a m'' =>
      rw [bind_of_ok hx] at h
      exact ⟨k, hk, h⟩

/-- Where every answer of the tree is reached, and its having none within twice the fuel means that
the machine does not end, one ends iff the other does, and with the same. -/
theorem finish_iff {x : Nat → Outcome Unit}
    (h : ∀ n, Reaches (n / 2) 0 acts m (fun _ => pure .empty) (x n))
    {r : EStateM.Result RuntimeError Machine Unit} :
    (∃ fuel, Run.finish fuel acts m = some r) ↔ ∃ fuel, x fuel = some r := by
  have hanswer : ∀ {n r}, x n = some r → ∃ fuel, Run.finish fuel acts m = some r := by
    intro n r hn
    have hreach := h n
    rw [hn] at hreach
    cases r with
    | error e m' =>
        obtain ⟨k, hk⟩ := hreach
        exact ⟨0 + k, hk 0⟩
    | ok a m' =>
        obtain ⟨k, _, hk⟩ := hreach
        exact ⟨0 + k, hk 0⟩
  constructor
  · rintro ⟨fuel, hfuel⟩
    -- had the tree no answer with twice the fuel, the machine would not end with this much
    cases hx : x (2 * fuel) with
    | none =>
        have hnone := h (2 * fuel)
        rw [hx, show 2 * fuel / 2 = fuel by omega] at hnone
        rw [hnone] at hfuel
        cases hfuel
    | some r' =>
        obtain ⟨fuel', hfuel'⟩ := hanswer hx
        have h₁ := Run.finish_of_le hfuel (Nat.le_max_left fuel fuel')
        have h₂ := Run.finish_of_le hfuel' (Nat.le_max_right fuel fuel')
        exact ⟨2 * fuel, hx.trans (h₂.symm.trans h₁)⟩
  · rintro ⟨n, hn⟩
    exact hanswer hn

end Reaches

/-! ## Pieces of code

A single op, an op with something behind it, and the constructs, each simulated under the assumption
that its bodies are.
-/

/-- The tree's evaluation of a piece of code that an activation stands at and that ends before
`stop` is followed by the machine. -/
abbrev Simulated (bound least : Nat) (act : Activation) (outer : Stack Activation) (stop : Nat)
    (m : Machine) (o : Outcome (Exit × Frame)) : Prop :=
  Reaches bound least (outer.push act) m (Exec.settle act outer stop) o

namespace Simulated

variable {bound : Nat} {act : Activation} {outer : Stack Activation} {stop : Nat} {m : Machine}
  {o : Op} {x : Run (Exit × Frame)}

/-- Executing the op at which an activation stands. -/
theorem leads_op (h : act.code.ops[act.pc]? = some o) :
    Run.Leads 1 (outer.push act) m
      ((Exec.op (act.goTo (act.pc + 1)) o >>= Exec.proceed outer) m) := by
  rw [← Exec.step_of_op h, ← Exec.advance_eq]
  exact .op act outer m

/-- An op after which the activation goes on. -/
theorem leads_next {act' : Activation} {m' : Machine} (h : act.code.ops[act.pc]? = some o)
    (hop : Exec.op (act.goTo (act.pc + 1)) o m = .ok (.next act') m') :
    Run.Leads 1 (outer.push act) m (.ok (outer.push act') m') := by
  have hleads : Run.Leads 1 (outer.push act) m _ := leads_op h
  rwa [bind_of_ok hop] at hleads

theorem leads_error {e : RuntimeError} {m' : Machine} (h : act.code.ops[act.pc]? = some o)
    (hop : Exec.op (act.goTo (act.pc + 1)) o m = .error e m') :
    Run.Leads 1 (outer.push act) m (.error e m') := by
  have hleads : Run.Leads 1 (outer.push act) m _ := leads_op h
  rwa [bind_of_error hop] at hleads

/-- An instruction that is one op. -/
theorem single {i : Instruction} {x : Exec (Exit × Frame)}
    (h : act.code.ops[act.pc]? = some (.instr i))
    (hop : (Exec.op (act.goTo (act.pc + 1)) (.instr i) >>= Exec.proceed outer) m =
      (x >>= Exec.settle act outer stop) m) :
    Simulated bound 1 act outer stop m ((liftM x : Run (Exit × Frame)) m) := by
  have hleads : Run.Leads 1 (outer.push act) m _ := leads_op h
  rw [hop] at hleads
  exact .lift (Nat.le_refl 1) hleads

/-- An instruction that is one op and starts with the same operation on both sides. -/
theorem first {α : Type} {i : Instruction} {y : Exec α} {f : α → Exec (Exit × Frame)}
    {g : α → Exec Flow} (h : act.code.ops[act.pc]? = some (.instr i))
    (hop : Exec.op (act.goTo (act.pc + 1)) (.instr i) = y >>= g)
    (hg : ∀ a m', (g a >>= Exec.proceed outer) m' = (f a >>= Exec.settle act outer stop) m') :
    Simulated bound 1 act outer stop m
      (((liftM y : Run α) >>= fun a => (liftM (f a) : Run (Exit × Frame))) m) := by
  have hleads : Run.Leads 1 (outer.push act) m _ := leads_op h
  rw [hop, bind_assoc] at hleads
  cases hy : y m with
  | error e m' =>
      rw [bind_of_error hy] at hleads
      rw [Run.lift_of_error hy]
      exact ⟨1, hleads⟩
  | ok a m' =>
      rw [bind_of_ok hy, hg] at hleads
      rw [Run.lift_of_ok hy]
      exact .lift (Nat.le_refl 1) hleads

/-- A construct: its body is simulated inside its label, from the end of the body the machine gets
behind the construct, and from where a branch to it goes on, what happens there is simulated. -/
theorem construct (label : Label) {bodyStop pc : Nat} {m₀ : Machine}
    {arrive : Frame → Run (Exit × Frame)} (hkind : label.kind ≠ .func) (hsteady : x.Steady)
    (henter : Run.Leads 1 (outer.push act) m
      (.ok (outer.push { act with pc := pc, labels := label :: act.labels }) m₀))
    (hbody : Simulated bound 0 { act with pc := pc, labels := label :: act.labels } outer bodyStop
      m₀ (x m₀))
    (hclose : ∀ frame m', ∃ k, Run.Leads k
      (outer.push { act with frame := frame, pc := bodyStop, labels := label :: act.labels }) m'
      (.ok (outer.push { act with frame := frame, pc := stop }) m'))
    (harrive : ∀ frame m', m₀.store.Keeps m'.store →
      Simulated bound 0 { act with frame := frame, pc := label.cont } outer stop m'
        (arrive frame m')) :
    Simulated (bound + 1) 1 act outer stop m
      ((x >>= fun (exit, frame) =>
        Tree.leaveConstruct label.arity label.height arrive frame exit) m₀) := by
  refine Reaches.after henter (hbody.bind ?_)
  rintro ⟨exit, frame⟩ m' k hx - hk
  cases exit with
  | next =>
      obtain ⟨k', hk'⟩ := hclose frame m'
      exact ⟨k' + k, by omega, hk.trans hk'⟩
  | ret => exact ⟨k, by omega, hk⟩
  | branch left written =>
      cases left with
      | succ left => exact ⟨k, by omega, hk⟩
      | zero =>
          -- the branch has arrived: both sides cut the stack back
          show Reaches _ _ _ _ _
            (((liftM (Exec.onStack (OnStack.unwindTo label)) : Run Unit) >>=
              fun _ => arrive frame) m')
          change Run.Leads k _ m₀
            ((Exec.onStack (OnStack.unwindTo label) >>= fun _ =>
              if label.kind = .func then
                Exec.leave act >>= fun _ => pure outer
              else pure (outer.push { act with frame := frame, pc := label.cont })) m') at hk
          rw [if_neg hkind] at hk
          refine (Reaches.lift (Nat.zero_le k) hk).bind fun _ m'' k' hunwind _ hk' => ?_
          have hcut := Run.Steady.lift (.onStack (OnStack.unwindTo label)) m' _ hunwind
          exact (Reaches.after hk' (harrive frame m'' ((hsteady m₀ _ hx).trans hcut))).weaken
            (by omega) (by omega)

/-- A call: once the body is simulated, the machine leaves the activation as the tree leaves the
call. -/
theorem returns {cont : Nat} (hlabels : act.labels = [⟨.func, act.arity, act.height, cont⟩])
    (hsize : act.code.ops.size = stop) (h : Simulated bound 0 act outer stop m (x m)) :
    Reaches bound 0 (outer.push act) m (fun _ => pure outer)
      ((x >>= fun (exit, _) => liftM (Tree.leaveCall act exit)) m) := by
  refine h.bind ?_
  rintro ⟨exit, frame⟩ m' k - - hk
  cases exit with
  | ret => exact .lift (Nat.zero_le k) hk
  | next =>
      have hnone : act.code.ops[stop]? = none :=
        Array.getElem?_eq_none_iff.mpr (Nat.le_of_eq hsize)
      have hend : Run.Leads 1 (outer.push { act with frame := frame, pc := stop }) m'
          ((Exec.leave act >>= fun _ => pure outer) m') := by
        have hop := Run.Leads.op { act with frame := frame, pc := stop } outer m'
        rwa [Exec.advance_eq, Exec.step_of_none hnone] at hop
      exact .lift (Nat.zero_le _) (hk.trans hend)
  | branch left written =>
      rw [Exec.settle, hlabels] at hk
      cases left with
      | succ left =>
          rw [List.drop_succ_cons, List.drop_nil] at hk
          exact .lift (Nat.zero_le k) hk
      | zero =>
          -- the branch has cut the stack back to the results already, and leaving does so again
          have htwice : (Exec.onStack (OnStack.unwind act.arity act.height) >>= fun _ =>
              Exec.leave act) = Exec.leave act := by
            show (Exec.onStack (OnStack.unwind act.arity act.height) >>= fun _ =>
              Exec.onStack (OnStack.unwind act.arity act.height)) = _
            rw [← Exec.onStack_bind, OnStack.unwind_unwind]
            rfl
          refine .lift (Nat.zero_le k) ?_
          show Run.Leads k _ m ((Exec.leave act >>= fun _ => pure outer) m')
          rw [← htwice, bind_assoc]
          exact hk

end Simulated

/-! ## Induction on the fuel

Instructions and sequences call each other, so both halves are proved together. A loop that is
entered again is an instruction with less fuel.
-/

/-- With this fuel every instruction is simulated, wherever it stands in a code. -/
def SimulatesInstructions (bodies : Nat → Expr) (fuel : Nat) : Prop :=
  ∀ (i : Instruction) (act : Activation) (outer : Stack Activation) (m : Machine),
    m.store.CompiledFrom bodies → StandAt act.code.ops act.pc (i.layout act.pc) →
      Simulated ((fuel + 1) / 2) 1 act outer (act.pc + i.opCount) m
        (Tree.instruction bodies fuel (outer.size + 1) act.frame i m)

/-- With this fuel every sequence is simulated, wherever it stands in a code. -/
def SimulatesSequences (bodies : Nat → Expr) (fuel : Nat) : Prop :=
  ∀ (is : List Instruction) (act : Activation) (outer : Stack Activation) (m : Machine),
    m.store.CompiledFrom bodies → StandAt act.code.ops act.pc (Expr.layout act.pc is) →
      Simulated (fuel / 2) 0 act outer (act.pc + Expr.opCount is) m
        (Tree.sequence bodies fuel (outer.size + 1) act.frame is m)

section Induction

variable {bodies : Nat → Expr} {fuel : Nat} {act : Activation} {outer : Stack Activation}
  {m : Machine}

/-- A sequence is simulated one instruction after the other, and left where the tree leaves it. -/
theorem SimulatesSequences.succ (hi : SimulatesInstructions bodies fuel)
    (hs : SimulatesSequences bodies fuel) : SimulatesSequences bodies (fuel + 1) := by
  intro is act outer m hm hstand
  cases is with
  | nil => exact ⟨0, Nat.le_refl 0, .refl _ m⟩
  | cons i is =>
      obtain ⟨hfirst, hrest⟩ := standAt_cons.mp hstand
      refine Reaches.bind (hi i act outer m hm hfirst) ?_
      rintro ⟨exit, frame⟩ m' k hx hk hleads
      cases exit with
      | ret => exact ⟨k, Nat.zero_le k, hleads⟩
      | branch left written => exact ⟨k, Nat.zero_le k, hleads⟩
      | next =>
          have hkeeps := (Tree.steady bodies fuel).1 _ _ _ m _ hx
          have hgoal := hs is { act with frame := frame, pc := act.pc + i.opCount } outer m'
            (hm.keeps hkeeps) hrest
          rw [Expr.opCount, ← Nat.add_assoc]
          exact (Reaches.after hleads hgoal).weaken (by omega) (by omega)

/-- The body of a construct that has been entered. -/
theorem SimulatesSequences.inside (hs : SimulatesSequences bodies fuel) {label : Label}
    {pc : Nat} {body : List Instruction} {m₀ : Machine} (hm : m₀.store.CompiledFrom bodies)
    (hstand : StandAt act.code.ops pc (Expr.layout pc body)) :
    Simulated (fuel / 2) 0 { act with pc := pc, labels := label :: act.labels } outer
      (pc + Expr.opCount body) m₀
      (Tree.sequence bodies fuel (outer.size + 1) act.frame body m₀) :=
  hs body { act with pc := pc, labels := label :: act.labels } outer m₀ hm hstand

/-- Closing a construct. -/
theorem leads_close {label : Label} {pc : Nat} (h : act.code.ops[pc]? = some .close)
    (frame : Frame) (m' : Machine) :
    Run.Leads 1 (outer.push { act with frame := frame, pc := pc, labels := label :: act.labels }) m'
      (.ok (outer.push { act with frame := frame, pc := pc + 1 }) m') :=
  Simulated.leads_next h rfl

theorem behind_simulated (frame : Frame) (m' : Machine) {bound stop : Nat} :
    Simulated bound 0 { act with frame := frame, pc := stop } outer stop m'
      (Tree.behind frame m') :=
  ⟨0, Nat.le_refl 0, .refl _ m'⟩

/-- The operations of a block are its header, its body and its end. -/
theorem simulated_block (hs : SimulatesSequences bodies fuel) (hm : m.store.CompiledFrom bodies)
    {type : BlockType} {body : List Instruction}
    (hstand : StandAt act.code.ops act.pc (Instruction.layout act.pc (.block type body))) :
    Simulated (fuel / 2 + 1) 1 act outer (act.pc + (Instruction.block type body).opCount) m
      (Tree.instruction bodies (fuel + 1) (outer.size + 1) act.frame (.block type body) m) := by
  obtain ⟨hop, hbody, hclose⟩ := standAt_block.mp hstand
  have hstop : act.pc + (Instruction.block type body).opCount =
      act.pc + 1 + Expr.opCount body + 1 := by
    rw [Instruction.opCount]
    omega
  rw [hstop]
  exact Simulated.construct
    (.ofConstruct .block type.arity m.stack.size (act.pc + 1 + Expr.opCount body + 1))
    nofun ((Tree.steady bodies fuel).2 _ _ _) (Simulated.leads_next hop rfl)
    (hs.inside hm hbody) (fun frame m' => ⟨1, leads_close hclose frame m'⟩)
    fun frame m' _ => behind_simulated frame m'

/-- The operations of a loop are simulated around its body, each time it is entered again. -/
theorem simulated_loop (hi : SimulatesInstructions bodies fuel)
    (hs : SimulatesSequences bodies fuel) (hm : m.store.CompiledFrom bodies)
    {type : BlockType} {body : List Instruction}
    (hstand : StandAt act.code.ops act.pc (Instruction.layout act.pc (.loop type body))) :
    Simulated (fuel / 2 + 1) 1 act outer (act.pc + (Instruction.loop type body).opCount) m
      (Tree.instruction bodies (fuel + 1) (outer.size + 1) act.frame (.loop type body) m) := by
  obtain ⟨hop, hbody, hclose⟩ := standAt_loop.mp hstand
  have hstop : act.pc + (Instruction.loop type body).opCount =
      act.pc + 1 + Expr.opCount body + 1 := by
    rw [Instruction.opCount]
    omega
  -- a branch to the loop finds the machine at the loop again, with less fuel on the tree's side
  have hagain : ∀ frame m', m.store.Keeps m'.store →
      Simulated (fuel / 2) 0 { act with frame := frame } outer
        (act.pc + (Instruction.loop type body).opCount) m'
        (Tree.instruction bodies fuel (outer.size + 1) frame (.loop type body) m') := by
    intro frame m' hkeeps
    exact (hi (.loop type body) { act with frame := frame } outer m' (hm.keeps hkeeps)
      hstand).weaken (by omega) (by omega)
  rw [hstop] at hagain ⊢
  exact Simulated.construct (.ofConstruct .loop 0 m.stack.size act.pc)
    nofun ((Tree.steady bodies fuel).2 _ _ _) (Simulated.leads_next hop rfl)
    (hs.inside hm hbody) (fun frame m' => ⟨1, leads_close hclose frame m'⟩) hagain

/-- The operations of a conditional take one arm and end behind the other. -/
theorem simulated_ifElse (hs : SimulatesSequences bodies fuel) (hm : m.store.CompiledFrom bodies)
    {type : BlockType} {thenBody elseBody : List Instruction}
    (hstand : StandAt act.code.ops act.pc
      (Instruction.layout act.pc (.ifElse type thenBody elseBody))) :
    Simulated (fuel / 2 + 1) 1 act outer
      (act.pc + (Instruction.ifElse type thenBody elseBody).opCount) m
      (Tree.instruction bodies (fuel + 1) (outer.size + 1) act.frame
        (.ifElse type thenBody elseBody) m) := by
  obtain ⟨hop, hthen, hskip, helse, hclose⟩ := standAt_ifElse.mp hstand
  have hstop : act.pc + (Instruction.ifElse type thenBody elseBody).opCount =
      act.pc + 1 + Expr.opCount thenBody + 1 + Expr.opCount elseBody + 1 := by
    rw [Instruction.opCount]
    omega
  rw [hstop]
  rw [Tree.instruction.eq_def]
  dsimp only
  cases hpop : Exec.onStack (OnStack.popInt .i32) m with
  | error e m' =>
      rw [Run.lift_of_error hpop]
      exact ⟨1, Simulated.leads_error hop (Exec.ifElse_of_error hpop)⟩
  | ok condition m' =>
      have hkeeps := Run.Steady.lift (.onStack (OnStack.popInt .i32)) m _ (congrArg some hpop)
      have henter : Run.Leads 1 (outer.push act) m _ :=
        Simulated.leads_next hop (Exec.ifElse_of_ok hpop)
      rw [Run.lift_of_ok hpop]
      by_cases hzero : condition = 0
      · rw [if_pos hzero] at henter ⊢
        exact Simulated.construct
          (.ofConstruct .ifElse type.arity m'.stack.size
            (act.pc + 1 + Expr.opCount thenBody + 1 + Expr.opCount elseBody + 1))
          nofun ((Tree.steady bodies fuel).2 _ _ _) henter (hs.inside (hm.keeps hkeeps) helse)
          (fun frame m' => ⟨1, leads_close hclose frame m'⟩)
          fun frame m' _ => behind_simulated frame m'
      · -- the first body ends with a jump to the end of the second one
        rw [if_neg hzero] at henter ⊢
        exact Simulated.construct
          (.ofConstruct .ifElse type.arity m'.stack.size
            (act.pc + 1 + Expr.opCount thenBody + 1 + Expr.opCount elseBody + 1))
          nofun ((Tree.steady bodies fuel).2 _ _ _) henter (hs.inside (hm.keeps hkeeps) hthen)
          (fun frame m' => ⟨1 + 1, Run.Leads.trans (Simulated.leads_next hskip rfl)
            (leads_close hclose frame m')⟩)
          fun frame m' _ => behind_simulated frame m'

/-- The body of a function that has been entered. -/
theorem reaches_return (hs : SimulatesSequences bodies fuel) (hm : m.store.CompiledFrom bodies)
    {addr : Nat} {callee : Activation} {m' : Machine}
    (henter : Exec.enter addr m = .ok (some callee) m') :
    Reaches (fuel / 2) 0 (outer.push callee) m' (fun _ => pure outer)
      ((Tree.sequence bodies fuel (outer.size + 1) callee.frame (bodies addr) >>=
        fun (exit, _) => liftM (Tree.leaveCall callee exit)) m') := by
  obtain ⟨type, module, hfunc, -, hpc, hlabels⟩ := Exec.enter_eq_some henter
  have hkeeps := Exec.Steady.enter addr m
  rw [henter] at hkeeps
  have hcode := hm addr type module callee.code (atAddress_eq_ok_iff.mp hfunc)
  have hsize : callee.code.ops.size = callee.pc + Expr.opCount (bodies addr) := by
    rw [hcode, size_ops_compile, hpc, Nat.zero_add]
  have hstand : StandAt callee.code.ops callee.pc (Expr.layout callee.pc (bodies addr)) := by
    rw [hpc, hcode]
    exact standAt_compile _ _
  exact Simulated.returns hlabels hsize (hs _ callee outer m' (hm.keeps hkeeps) hstand)

/-- A call of the function whose address `x` gives. -/
theorem simulated_call (hs : SimulatesSequences bodies fuel) (hm : m.store.CompiledFrom bodies)
    {i : Instruction} {x : Exec Nat} (hstand : act.code.ops[act.pc]? = some (.instr i))
    (hop : Exec.op (act.goTo (act.pc + 1)) (.instr i) =
      x >>= fun addr => pure (.call (act.goTo (act.pc + 1)) addr))
    (hsteady : x.Steady) :
    Simulated (fuel / 2 + 1) 1 act outer (act.pc + 1) m
      (((liftM x : Run Nat) >>= fun addr =>
        Tree.callWith bodies (Tree.sequence bodies fuel (outer.size + 1 + 1)) (outer.size + 1)
          addr >>= fun _ => pure (.next, act.frame)) m) := by
  have hleads : Run.Leads 1 (outer.push act) m _ := Simulated.leads_op hstand
  rw [hop] at hleads
  cases hx : x m with
  | error e m₁ =>
      rw [bind_of_error (bind_of_error hx)] at hleads
      rw [Run.lift_of_error hx]
      exact ⟨1, hleads⟩
  | ok addr m₁ =>
      have hkeeps := hsteady m
      rw [hx] at hkeeps
      have hflow : (x >>= fun addr => pure (.call (act.goTo (act.pc + 1)) addr) : Exec Flow) m =
          .ok (.call (act.goTo (act.pc + 1)) addr) m₁ := bind_of_ok hx
      rw [bind_of_ok hflow] at hleads
      rw [Run.lift_of_ok hx]
      -- host functions have answered on entry; code is run in an activation of its own above the
      -- caller
      cases henter : Exec.enter addr m₁ with
      | error e m₂ =>
          rw [Exec.proceed, bind_of_error henter] at hleads
          rw [Run.bind_of_error (Tree.callWith_of_error henter)]
          exact ⟨1, hleads⟩
      | ok callee m₂ =>
          rw [Exec.proceed, bind_of_ok henter] at hleads
          cases callee with
          | none =>
              rw [Run.bind_of_ok (Tree.callWith_of_none henter)]
              exact ⟨1, Nat.le_refl 1, hleads⟩
          | some callee =>
              by_cases hdepth : maxCallDepth ≤ outer.size + 1
              · simp only [if_pos hdepth] at hleads
                rw [Run.bind_of_error (Tree.callWith_of_deep henter hdepth)]
                exact ⟨1, hleads⟩
              · simp only [if_neg hdepth] at hleads
                have hbody : Reaches (fuel / 2) 0 ((outer.push (act.goTo (act.pc + 1))).push callee)
                    m₂ (fun _ => pure (outer.push (act.goTo (act.pc + 1))))
                    (Tree.callWith bodies (Tree.sequence bodies fuel (outer.size + 1 + 1))
                      (outer.size + 1) addr m₁) := by
                  rw [Tree.callWith_of_some henter hdepth]
                  exact reaches_return hs (hm.keeps hkeeps) henter
                exact Reaches.bind (Reaches.after hleads hbody)
                  fun _ m₃ k _ hk hk' => ⟨k, by omega, hk'⟩

/-- With both halves of the simulation for less fuel, each instruction is simulated. -/
theorem SimulatesInstructions.succ (hi : SimulatesInstructions bodies fuel)
    (hs : SimulatesSequences bodies fuel) : SimulatesInstructions bodies (fuel + 1) := by
  intro i act outer m hm hstand
  -- an instruction executes at least one op, which pays for two units of the tree's fuel
  rw [show (fuel + 1 + 1) / 2 = fuel / 2 + 1 by omega]
  cases i with
  | block type body => exact simulated_block hs hm hstand
  | loop type body => exact simulated_loop hi hs hm hstand
  | ifElse type thenBody elseBody => exact simulated_ifElse hs hm hstand
  | unreachable =>
      exact Simulated.single (x := Exec.ofExcept (.error (.trap .unreachable))) hstand.1 rfl
  | nop => exact Simulated.single (x := pure (.next, act.frame)) hstand.1 rfl
  | ret => exact Simulated.single (x := pure (.ret, act.frame)) hstand.1 rfl
  | br label =>
      exact Simulated.single (x := pure (.toLabel label, act.frame)) hstand.1
        (Exec.follow_br (act.goTo (act.pc + 1)) outer (act.pc + 1) label m)
  | brIf label =>
      refine Simulated.first
        (f := fun condition => pure (if condition = 0 then .next else .toLabel label, act.frame))
        hstand.1 (Exec.brIf_eq _ label) ?_
      intro condition m'
      by_cases hzero : condition = 0
      · simp only [if_pos hzero]
        rfl
      · simp only [if_neg hzero]
        exact Exec.follow_br (act.goTo (act.pc + 1)) outer (act.pc + 1) label m'
  | brTable targets default =>
      exact Simulated.first
        (f := fun index => pure (.toLabel (targets[index.toNat]?.getD default), act.frame))
        hstand.1 (Exec.brTable_eq _ targets default) fun index m' =>
          Exec.follow_br (act.goTo (act.pc + 1)) outer (act.pc + 1) _ m'
  | call j => exact simulated_call hs hm hstand.1 rfl (.ofExcept _)
  | callIndirect type => exact simulated_call hs hm hstand.1 rfl (.indirect _ _)
  | plain op =>
      exact Simulated.first (f := fun frame => pure (.next, frame))
        (g := fun frame => pure (.next { act with frame := frame, pc := act.pc + 1 }))
        hstand.1 rfl fun frame m' => rfl

/-- Flat code does what its tree does, for whatever fuel the tree is given. -/
theorem simulates (bodies : Nat → Expr) (fuel : Nat) :
    SimulatesInstructions bodies fuel ∧ SimulatesSequences bodies fuel := by
  -- without fuel the tree has no result, and code without fuel has none either
  induction fuel with
  | zero =>
      constructor
      · intro i act outer m _ _
        exact Run.finish_zero_push act outer m
      · intro is act outer m _ _
        exact Run.finish_zero_push act outer m
  | succ fuel ih => exact ⟨.succ ih.1 ih.2, .succ ih.1 ih.2⟩

end Induction

/-! ## Calls

A body is a sequence inside a function, and the label of the function is where all branches out of
the body end. For calls the two bounds on the fuel are traded for an equivalence.
-/

/-- Two bounded runs end from a machine in the same ways: with the same value or failure, and with
the same machine. -/
def SameEnds {α : Type} (x y : Nat → Run α) (m : Machine) : Prop :=
  ∀ r, (∃ fuel, x fuel m = some r) ↔ ∃ fuel, y fuel m = some r

namespace SameEnds

variable {α β : Type} {m : Machine}

/-- Both start with the same operation. -/
theorem lift {x : Exec α} {f g : Nat → α → Run β} (hsteady : x.Steady)
    (h : ∀ a m', m.store.Keeps m'.store → SameEnds (f · a) (g · a) m') :
    SameEnds (fun fuel => (liftM x : Run α) >>= f fuel) (fun fuel => (liftM x : Run α) >>= g fuel)
      m := by
  intro r
  cases hx : x m with
  | ok a m' =>
      have hkeeps := hsteady m
      rw [hx] at hkeeps
      simp only [Run.lift_of_ok hx]
      exact h a m' hkeeps r
  | error e m' => simp only [Run.lift_of_error hx]

/-- Both go on in the same way, which takes no fuel. -/
theorem bind {x y : Nat → Run α} (h : SameEnds x y m) (f : α → Run β) :
    SameEnds (fun fuel => x fuel >>= f) (fun fuel => y fuel >>= f) m := by
  intro r
  simp only [Run.bind_eq_some_iff, exists_or]
  constructor
  · rintro (⟨fuel, e, m', hx, hr⟩ | ⟨fuel, a, m', hx, hr⟩)
    · obtain ⟨fuel', hy⟩ := (h _).mp ⟨fuel, hx⟩
      exact Or.inl ⟨fuel', e, m', hy, hr⟩
    · obtain ⟨fuel', hy⟩ := (h _).mp ⟨fuel, hx⟩
      exact Or.inr ⟨fuel', a, m', hy, hr⟩
  · rintro (⟨fuel, e, m', hy, hr⟩ | ⟨fuel, a, m', hy, hr⟩)
    · obtain ⟨fuel', hx⟩ := (h _).mpr ⟨fuel, hy⟩
      exact Or.inl ⟨fuel', e, m', hx, hr⟩
    · obtain ⟨fuel', hx⟩ := (h _).mpr ⟨fuel, hy⟩
      exact Or.inr ⟨fuel', a, m', hx, hr⟩

/-- Flat code and the tree, called with the arguments on the stack. -/
theorem call {bodies : Nat → Expr} (hm : m.store.CompiledFrom bodies) (addr : Nat) :
    SameEnds (Run.call · addr) (Tree.call bodies · addr) m := by
  intro r
  cases henter : Exec.enter addr m with
  | error e m' =>
      simp only [Tree.call, Tree.callWith_of_error henter]
      simp only [Run.call, Run.lift_of_error henter]
  | ok callee m' =>
      cases callee with
      | none =>
          simp only [Tree.call, Tree.callWith_of_none henter]
          simp only [Run.call, Run.lift_of_ok henter]
          rfl
      | some callee =>
          simp only [Tree.call, Tree.callWith_of_some henter (show ¬ maxCallDepth ≤ 0 by decide)]
          simp only [Run.call, Run.lift_of_ok henter]
          exact Reaches.finish_iff fun fuel => reaches_return (simulates bodies fuel).2 hm henter

end SameEnds

/-- Flattening preserves meaning. Over a store whose functions are the layouts of `bodies`, whatever
these are, a function called on any operand stack or invoked with any arguments ends on flat code
iff it ends on the tree, and then with the same results or failure, store and stack. -/
theorem Store.CompiledFrom.sameEnds {bodies : Nat → Expr} {m : Machine}
    (hm : m.store.CompiledFrom bodies) (addr : Nat) :
    SameEnds (Run.call · addr) (Tree.call bodies · addr) m ∧
      ∀ args, SameEnds (Run.invoke · addr args) (Tree.invoke bodies · addr args) m := by
  refine ⟨.call hm addr, fun args => ?_⟩
  refine .lift (.ask _) fun f m₁ h₁ => .lift (.ofExcept _) fun _ m₂ h₂ => ?_
  refine .lift (.onStack _) fun height m₃ h₃ => .lift (.onStack _) fun _ m₄ h₄ => ?_
  have hkeeps : m.store.Keeps m₄.store := ((h₁.trans h₂).trans h₃).trans h₄
  exact (SameEnds.call (hm.keeps hkeeps) addr).bind _

/-- A store with one function, of a module that has nothing else. -/
def Store.ofBody (type : FuncType) (locals : List ValueType) (body : Expr) : Store :=
  { funcs := #[.defined type 0 (Code.compile locals body)], modules := #[{}] }

/-- Whatever the body is. -/
theorem Store.compiledFrom_ofBody (type : FuncType) (locals : List ValueType) (body : Expr) :
    (Store.ofBody type locals body).CompiledFrom fun _ => body := by
  intro addr type' module code h
  cases addr with
  | zero =>
      cases h
      rfl
  | succ addr => cases h

/-- A loop that counts its argument down to zero, with a branch out of an `if` to go on. -/
def countdown : Expr :=
  [.loop .empty
    [.plain (.localGet 0),
      .ifElse .empty
        [.plain (.localGet 0), .plain (.const (.i32 1)), .plain (.numeric (.intBinary .i32 .sub)),
          .plain (.localSet 0), .br 1]
        []],
    .plain (.localGet 0)]

/-- The tree counts down from two, so flat code does. -/
theorem countdown_sameEnds :
    (Store.ofBody ⟨[.i32], [.i32]⟩ [] countdown).CompiledFrom (fun _ => countdown) ∧
    (∃ fuel, Tree.invoke (fun _ => countdown) fuel 0 [.i32 2]
        ⟨.ofBody ⟨[.i32], [.i32]⟩ [] countdown, .empty⟩ =
      some (.ok [.i32 0] ⟨.ofBody ⟨[.i32], [.i32]⟩ [] countdown, .empty⟩)) ∧
    ∃ fuel, Run.invoke fuel 0 [.i32 2] ⟨.ofBody ⟨[.i32], [.i32]⟩ [] countdown, .empty⟩ =
      some (.ok [.i32 0] ⟨.ofBody ⟨[.i32], [.i32]⟩ [] countdown, .empty⟩) := by
  have htree : Tree.invoke (fun _ => countdown) 20 0 [.i32 2]
        ⟨.ofBody ⟨[.i32], [.i32]⟩ [] countdown, .empty⟩ =
      some (.ok [.i32 0] ⟨.ofBody ⟨[.i32], [.i32]⟩ [] countdown, .empty⟩) := by
    cbv
  have hcompiled := Store.compiledFrom_ofBody ⟨[.i32], [.i32]⟩ [] countdown
  exact ⟨hcompiled, ⟨20, htree⟩,
    ((Store.CompiledFrom.sameEnds hcompiled 0).2 [.i32 2] _).mpr ⟨20, htree⟩⟩

end WebAssembly
