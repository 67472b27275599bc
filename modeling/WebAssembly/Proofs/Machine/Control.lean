import WebAssembly.Proofs.Machine.Operations
import WebAssembly.Proofs.Nesting
import WebAssembly.Proofs.Store.Typed

/-!
# Typed positions in flat code

An activation knows a position, labels and a stack that all its constructs share. What it is worth
follows from the code it stands in: a sequence is still to be executed, and around it lie the
constructs that have been entered, each with a label, with the operands it found on the stack, and
with a sequence of its own to go on with. `Around` lists them from the inside out, `Continues` says
that a position, labels and a stack belong together. Both branching and falling out of a construct
then lead to positions that continue.
-/

namespace WebAssembly

/-- The constructs around a sequence that ends before `stop` and must leave `want`. All of them are
among `cs`. `labels` are their labels and `types` what branches to them carry, `below` are the
values under the operands of the sequence, and `base` those under the operands of the whole
function. -/
inductive Around (ctx : Context) (results : List ValueType) (ops : Array Op) (cs : List Site)
    (base : List Value) :
    Nat → List ValueType → List Label → List (List ValueType) → List Value → Prop
  /-- The function itself, which ends with its code. -/
  | func {cont : Nat} :
      Around ctx results ops cs base ops.size results
        [⟨.func, results.length, base.length, cont⟩] [results] base
  /-- A `block` or `if`, which `rest` follows. -/
  | block {c : Site} {ts final : List ValueType} {labels : List Label}
      {types : List (List ValueType)} {rest : List Instruction} {vs below : List Value} :
      c ∈ cs → c.kind ≠ .func → c.kind ≠ .loop →
      ops[c.stop]? = some .close →
      Expr.Stands ops cs (c.stop + 1) rest →
      Expr.HasType ctx results types rest (ts ++ c.type.results) final →
      HaveTypes vs ts →
      Around ctx results ops cs base (c.stop + 1 + Expr.opCount rest) final labels types below →
      Around ctx results ops cs base c.stop c.type.results
        (c.label (vs ++ below).length :: labels) (c.carried :: types) (vs ++ below)
  /-- A loop that starts at `start`: a branch to it starts it over, and `rest` follows it. -/
  | loop {start : Nat} {type : BlockType} {body rest : List Instruction}
      {ts final : List ValueType} {labels : List Label} {types : List (List ValueType)}
      {vs below : List Value} :
      Expr.Stands ops cs start (.loop type body :: rest) →
      Expr.HasType ctx results types (.loop type body :: rest) ts final →
      Expr.HasType ctx results types rest (ts ++ type.results) final →
      HaveTypes vs ts →
      Around ctx results ops cs base (start + Expr.opCount (.loop type body :: rest)) final labels
        types below →
      Around ctx results ops cs base (start + 1 + Expr.opCount body) type.results
        (⟨.loop, 0, (vs ++ below).length, start⟩ :: labels) ([] :: types) (vs ++ below)
  /-- The first body of an `if`, which ends with a jump behind the second one. -/
  | skip {stop stop' : Nat} {want : List ValueType} {labels : List Label}
      {types : List (List ValueType)} {below : List Value} :
      ops[stop]? = some (.skip stop') →
      Around ctx results ops cs base stop' want labels types below →
      Around ctx results ops cs base stop want labels types below

/-- At a position there stands a sequence which the top operands fit and with which the constructs
around it are content. -/
inductive Continues (ctx : Context) (results : List ValueType) (ops : Array Op) (cs : List Site)
    (base : List Value) (pc : Nat) (labels : List Label) : List Value → Prop
  | intro {is : List Instruction} {ts final : List ValueType} {types : List (List ValueType)}
      {vs below : List Value} :
      Expr.Stands ops cs pc is →
      Expr.HasType ctx results types is ts final →
      HaveTypes vs ts →
      Around ctx results ops cs base (pc + Expr.opCount is) final labels types below →
      Continues ctx results ops cs base pc labels (vs ++ below)

section

variable {ctx : Context} {results : List ValueType} {ops : Array Op} {cs : List Site}
  {base : List Value} {stop : Nat} {want : List ValueType} {labels : List Label}
  {types : List (List ValueType)} {below : List Value}

/-- What lies under a function lies under all its constructs. -/
theorem Around.base_suffix (h : Around ctx results ops cs base stop want labels types below) :
    base <:+ below := by
  induction h with
  | func => exact List.suffix_refl base
  | block _ _ _ _ _ _ _ _ ih => exact ih.trans (List.suffix_append _ _)
  | loop _ _ _ _ _ ih => exact ih.trans (List.suffix_append _ _)
  | skip _ _ ih => exact ih

/-- Behind a sequence that left what was wanted. -/
theorem Around.continues (h : Around ctx results ops cs base stop want labels types below)
    {vs : List Value} (hvs : HaveTypes vs want) :
    Continues ctx results ops cs base stop labels (vs ++ below) :=
  .intro .nil (.nil want) hvs h

/-- In front of the body of a construct that has been entered. -/
theorem Around.enters {pc : Nat} {body : List Instruction}
    (h : Around ctx results ops cs base (pc + Expr.opCount body) want labels types below)
    (hstand : Expr.Stands ops cs pc body)
    (hbody : Expr.HasType ctx results types body [] want) :
    Continues ctx results ops cs base pc labels below := by
  have hcont := Continues.intro hstand hbody .nil h
  rwa [List.nil_append] at hcont

/-! ## Branching

A label is found by counting constructs, and what is around the code is counted along with it. The
operands below those that are carried are cut off, down to what the target found when it was
entered.
-/

/-- What a branch finds at a label: it can carry values of types `ts` there. -/
inductive Target (ctx : Context) (results : List ValueType) (ops : Array Op) (cs : List Site)
    (base : List Value) (ts : List ValueType) (below : List Value) (label : Label)
    (around : List Label) : Prop
  | func :
      label.kind = .func → label.arity = ts.length → label.height = base.length → ts = results →
      Target ctx results ops cs base ts below label around
  | construct {c : Site} {left : List Value} :
      c ∈ cs → c.kind ≠ .func → label = c.label left.length → ts = c.carried → left <:+ below →
      (∀ vs, HaveTypes vs ts →
        Continues ctx results ops cs base c.cont around (vs ++ left)) →
      Target ctx results ops cs base ts below label around

/-- What lies deeper below a label does not matter to it. -/
theorem Target.widen {ts : List ValueType} {below' : List Value} {label : Label}
    {around : List Label} (h : Target ctx results ops cs base ts below label around)
    (hbelow : below <:+ below') : Target ctx results ops cs base ts below' label around := by
  cases h with
  | func hkind harity hheight hts => exact .func hkind harity hheight hts
  | construct hc hkind hlabel hts hleft hnext =>
      exact .construct hc hkind hlabel hts (hleft.trans hbelow) hnext

/-- Every depth that has a type has a label, with which the branch can go on. -/
theorem Around.branch (h : Around ctx results ops cs base stop want labels types below) {n : Nat}
    {ts : List ValueType} (hn : types[n]? = some ts) :
    ∃ label around, labels.drop n = label :: around ∧
      Target ctx results ops cs base ts below label around := by
  -- labels and what is around the code are counted off together, from the innermost out
  induction h generalizing n with
  | func =>
      cases n with
      | zero =>
          cases hn
          exact ⟨_, _, rfl, .func rfl rfl rfl rfl⟩
      | succ n => cases hn
  | block hc hkind hloop hclose hstand htyped hvs haround ih =>
      cases n with
      | zero =>
          cases hn
          refine ⟨_, _, rfl, .construct hc hkind rfl rfl (List.suffix_refl _) ?_⟩
          intro top htop
          rw [Site.carried_of_ne_loop hloop] at htop
          rw [Site.cont_of_ne_loop hloop, ← List.append_assoc]
          exact .intro hstand htyped (htop.append hvs) haround
      | succ n =>
          obtain ⟨label, around, hdrop, htarget⟩ := ih hn
          exact ⟨label, around, hdrop, htarget.widen (List.suffix_append _ _)⟩
  | loop hstand htyped hrest hvs haround ih =>
      cases n with
      | zero =>
          cases hn
          refine ⟨_, _, rfl, .construct hstand.loop.1 nofun rfl rfl (List.suffix_refl _) ?_⟩
          intro top htop
          rw [haveTypes_nil_iff.mp htop, List.nil_append]
          exact .intro hstand htyped hvs haround
      | succ n =>
          obtain ⟨label, around, hdrop, htarget⟩ := ih hn
          exact ⟨label, around, hdrop, htarget.widen (List.suffix_append _ _)⟩
  | skip _ _ ih => exact ih hn

/-- A branch that carries what its label takes: it leaves this on top of as many values as the label
says, and goes on at the label, or ends the function. -/
theorem Target.unwindTo {ts : List ValueType} {label : Label} {around : List Label}
    {top rest : List Value} (h : Target ctx results ops cs base ts below label around)
    (htop : HaveTypes top ts) (hbase : base <:+ rest) (hrest : below <:+ rest) :
    ∃ left, OnStack.unwindTo label (.ofList (top ++ rest)) = .ok () (.ofList (top ++ left)) ∧
      left.length = label.height ∧
      (label.kind = .func ∧ ts = results ∧ left = base ∨
        ∃ c ∈ cs, label.Of c ∧ c.kind ≠ .func ∧ ts = c.carried ∧
          Continues ctx results ops cs base c.cont around (top ++ left)) := by
  cases h with
  | func hkind harity hheight hts =>
      refine ⟨base, ?_, hheight.symm, .inl ⟨hkind, hts, rfl⟩⟩
      rw [OnStack.unwindTo, harity, hheight, ← htop.length]
      exact OnStack.unwind_suffix top hbase
  | @construct c left hc hkind hlabel hts hleft hnext =>
      subst hlabel hts
      refine ⟨left, ?_, rfl, .inr ⟨c, hc, rfl, hkind, rfl, hnext top htop⟩⟩
      rw [OnStack.unwindTo, Site.label, c.arity_eq, ← htop.length]
      exact OnStack.unwind_suffix top (hleft.trans hrest)

end

end WebAssembly
