import WebAssembly.Proofs.Typing.Decision

/-!
# Checks that stay inside of a construct

A check is `Check.Confined` if in two settings whose branches carry the same types it does the same
to the same residue. So it neither changes what is outside of the innermost construct nor looks at
it, and it never makes dead code live. Every instruction's check is made of confined ones; that of a
construct is confined because it closes each frame that it opens.
-/

namespace WebAssembly

/-- Outcomes in two settings are the same: the same value and the same residue, which is dead if it
was before, or the same error. -/
inductive Check.SameOutcome (w w' : Setting) (dead : Bool) {α : Type} :
    EStateM.Result ValidationError Checker α → EStateM.Result ValidationError Checker α → Prop
  | ok (a : α) {r : Residue} (hdead : dead = true → r.dead = true) :
      SameOutcome w w' dead (.ok a (w.state r)) (.ok a (w'.state r))
  | error (e : ValidationError) (c c' : Checker) : SameOutcome w w' dead (.error e c) (.error e c')

/-- Where branches carry the same types, a check does the same to the same residue, whatever lies
outside. -/
def Check.Confined {α : Type} (x : Check α) : Prop :=
  ∀ w w' : Setting, w.labels = w'.labels → ∀ r : Residue,
    SameOutcome w w' r.dead (x (w.state r)) (x (w'.state r))

namespace Check

variable {α β : Type}

namespace Confined

theorem pure (a : α) : Confined (pure a) :=
  fun _ _ _ _ => .ok a id

theorem throw (e : ValidationError) : Confined (throw e : Check α) :=
  fun _ _ _ _ => .error e _ _

/-- Confined checks in sequence are confined: the first leaves a state of the same setting. -/
theorem bind {x : Check α} {f : α → Check β} (hx : Confined x) (hf : ∀ a, Confined (f a)) :
    Confined (x >>= f) := by
  intro w w' hlabels r
  have h := hx w w' hlabels r
  generalize hw : x (w.state r) = first at h
  generalize hw' : x (w'.state r) = first' at h
  cases h with
  | error e c c' =>
      rw [bind_of_error hw, bind_of_error hw']
      exact .error e c c'
  | @ok a r₁ hdead =>
      rw [bind_of_ok hw, bind_of_ok hw']
      -- the first check has left one and the same residue in both settings
      have h₁ := hf a w w' hlabels r₁
      generalize f a (w.state r₁) = second at h₁
      generalize f a (w'.state r₁) = second' at h₁
      cases h₁ with
      | error e c c' => exact .error e c c'
      | ok b hdead₁ => exact .ok b fun h => hdead₁ (hdead h)

theorem require (refused : Prop) [Decidable refused] (e : ValidationError) :
    Confined (if refused then MonadExcept.throw e else Pure.pure () : Check Unit) := by
  split
  · exact .throw e
  · exact .pure ()

end Confined

theorem confined_push (o : Operand) : Confined (push o) := by
  intro w w' _ r
  rw [push_state, push_state]
  exact .ok () id

theorem confined_pushTypes (ts : List ValueType) : Confined (pushTypes ts) := by
  intro w w' _ r
  rw [pushTypes_state, pushTypes_state]
  exact .ok () id

/-- At the innermost height nothing is taken off, above it the top operand is one of the construct's
own. -/
theorem confined_pop : Confined pop := by
  rintro w w' _ ⟨operands, dead⟩
  cases operands with
  | nil =>
      rw [pop_start_state, pop_start_state]
      cases dead with
      | true => exact .ok Operand.unknown id
      | false => exact .error .typeMismatch _ _
  | cons o os =>
      have hpop : ∀ w : Setting, pop (w.state ⟨o :: os, dead⟩) = .ok o (w.state ⟨os, dead⟩) :=
        fun w => pop_push_state w ⟨os, dead⟩ o
      rw [hpop, hpop]
      exact .ok o id

theorem confined_popOperand (expected : Operand) : Confined (popOperand expected) := by
  refine .bind confined_pop fun o => ?_
  split
  · exact .pure o
  · exact .throw .typeMismatch

theorem confined_popType (t : ValueType) : Confined (popType t) :=
  (confined_popOperand (.known t)).bind fun _ => .pure ()

theorem confined_forM {x : α → Check Unit} (hx : ∀ a, Confined (x a)) (as : List α) :
    Confined (as.forM x) := by
  induction as with
  | nil => exact .pure ()
  | cons a as ih => exact (hx a).bind fun _ => ih

theorem confined_popTypes (ts : List ValueType) : Confined (popTypes ts) :=
  confined_forM confined_popType ts.reverse

theorem confined_apply (operands results : List ValueType) : Confined (apply operands results) :=
  (confined_popTypes operands).bind fun _ => confined_pushTypes results

theorem confined_markUnreachable : Confined markUnreachable := by
  intro w w' _ r
  rw [markUnreachable_state, markUnreachable_state]
  exact .ok () fun _ => rfl

/-! ## Look-ups

They read the context, or the types of the labels, which are the same in both settings.
-/

theorem labelTypes_of_frame {c : Checker} {label : UInt32} {frame : ControlFrame}
    (h : c.frames[label.toNat]? = some frame) :
    labelTypes label c = .ok frame.labelTypes c := by
  have hget : (get : Check Checker) c = .ok c c := rfl
  rw [labelTypes, bind_of_ok hget, h]
  rfl

theorem labelTypes_of_none {c : Checker} {label : UInt32} (h : c.frames[label.toNat]? = none) :
    labelTypes label c = .error (.unknownLabel label) c := by
  have hget : (get : Check Checker) c = .ok c c := rfl
  rw [labelTypes, bind_of_ok hget, h]
  rfl

/-- A label is looked up among the frames alone, whose types a setting lists. -/
theorem labelTypes_state (w : Setting) (r : Residue) (label : UInt32) :
    labelTypes label (w.state r) =
      match w.labels[label.toNat]? with
      | some ts => .ok ts (w.state r)
      | none => .error (.unknownLabel label) (w.state r) := by
  have hlabels : w.labels = (w.state r).frames.map ControlFrame.labelTypes := rfl
  rw [hlabels, List.getElem?_map]
  cases hframe : (w.state r).frames[label.toNat]? with
  | some frame => exact labelTypes_of_frame hframe
  | none => exact labelTypes_of_none hframe

theorem confined_labelTypes (label : UInt32) : Confined (labelTypes label) := by
  intro w w' hlabels r
  rw [labelTypes_state, labelTypes_state, ← hlabels]
  cases w.labels[label.toNat]? with
  | some ts => exact .ok ts id
  | none => exact .error (.unknownLabel label) _ _

variable (ctx : Context)

theorem confined_typeAt (i : UInt32) : Confined (typeAt ctx i) := by
  unfold typeAt
  split
  · exact .pure _
  · exact .throw _

theorem confined_funcAt (i : UInt32) : Confined (funcAt ctx i) := by
  unfold funcAt
  split
  · exact .pure _
  · exact .throw _

theorem confined_globalAt (i : UInt32) : Confined (globalAt ctx i) := by
  unfold globalAt
  split
  · exact .pure _
  · exact .throw _

theorem confined_localAt (i : UInt32) : Confined (localAt ctx i) := by
  unfold localAt
  split
  · exact .pure _
  · exact .throw _

theorem confined_requireMemory : Confined (requireMemory ctx) :=
  .require _ (.unknownMemory 0)

theorem confined_requireTable : Confined (requireTable ctx) :=
  .require _ (.unknownTable 0)

theorem confined_requireAlign (arg : MemArg) (bytes : Nat) : Confined (requireAlign arg bytes) :=
  .require _ .badAlignment

/-! ## Instructions without a body

Made of pushing, popping and look-ups.
-/

/-- Plain instructions work on the operands of the innermost frame. -/
theorem confined_plain (op : Plain) : Confined (plain ctx op) := by
  cases op with
  | drop => exact .bind confined_pop fun _ => .pure _
  | select =>
      exact (confined_popType .i32).bind fun _ => .bind confined_pop fun second =>
        (confined_popOperand second).bind fun _ => confined_push _
  | localGet i => exact (confined_localAt ctx i).bind fun _ => confined_pushTypes _
  | localSet i => exact (confined_localAt ctx i).bind fun _ => confined_popType _
  | localTee i => exact (confined_localAt ctx i).bind fun _ => confined_apply _ _
  | globalGet i => exact (confined_globalAt ctx i).bind fun _ => confined_pushTypes _
  | globalSet i =>
      refine (confined_globalAt ctx i).bind fun g => ?_
      split
      · exact confined_popType g.type
      · exact .throw _
  | load op arg =>
      exact (confined_requireMemory ctx).bind fun _ =>
        (confined_requireAlign arg op.bytes).bind fun _ => confined_apply _ _
  | store op arg =>
      exact (confined_requireMemory ctx).bind fun _ =>
        (confined_requireAlign arg op.bytes).bind fun _ => confined_apply _ _
  | memorySize => exact (confined_requireMemory ctx).bind fun _ => confined_pushTypes _
  | memoryGrow => exact (confined_requireMemory ctx).bind fun _ => confined_apply _ _
  | const v => exact confined_pushTypes _
  | numeric op => exact confined_apply _ _

theorem confined_tableTarget (default : List ValueType) (label : UInt32) :
    Confined (tableTarget default label) := by
  refine (confined_labelTypes label).bind fun ts => ?_
  split
  · exact confined_apply ts ts
  · exact .throw .typeMismatch

/-- A return looks at the outermost frame only for its results. -/
theorem ret_state (w : Setting) (r : Residue) :
    instruction ctx .ret (w.state r) =
      (popTypes w.returns >>= fun _ => markUnreachable) (w.state r) := by
  obtain ⟨frame, hframe, htypes⟩ := Decides.outermost_labelTypes w r.dead
  rw [instruction, bind_of_ok (Decides.get_state w r), Decides.frames_state, hframe, ← htypes]

theorem confined_ret : Confined (instruction ctx .ret) := by
  intro w w' hlabels r
  have hreturns : w'.returns = w.returns := by rw [Setting.returns, Setting.returns, hlabels]
  rw [ret_state, ret_state, hreturns]
  exact ((confined_popTypes w.returns).bind fun _ => confined_markUnreachable) w w' hlabels r

/-! ## Constructs

A frame is opened on the operands that are there and closed again at the same height, so what was
below it is untouched.
-/

/-- Closing a frame takes its results and then asks whether anything is left above its height. -/
theorem popFrame_state (w : Setting) (r : Residue) :
    popFrame (w.state r) =
      (popTypes w.results >>= fun _ => (modify fun c => { c with frames := w.outer }) >>=
        fun _ => get >>= fun c : Checker => if c.operands.size = w.below.length then pure w.results
          else throw .typeMismatch : Check (List ValueType)) (w.state r) :=
  rfl

/-- Closing a frame takes its results off. Only operands of the construct can be left over. -/
theorem popFrame_of_popTypes {w : Setting} {r r' : Residue}
    (h : popTypes w.results (w.state r) = .ok () (w.state r')) :
    popFrame (w.state r) =
      if r'.operands = [] then .ok w.results ⟨.ofList w.below, w.outer⟩
      else .error .typeMismatch ⟨.ofList (r'.operands ++ w.below), w.outer⟩ := by
  rw [popFrame_state, bind_of_ok h]
  -- the sizes are compared with the operands from outside counted on both sides
  show (if (r'.operands ++ w.below).length = w.below.length then pure w.results
    else throw .typeMismatch : Check (List ValueType))
      ⟨.ofList (r'.operands ++ w.below), w.outer⟩ = _
  cases hoperands : r'.operands with
  | nil => simp only [List.nil_append, if_true]; rfl
  | cons o os =>
      have hlength : (o :: os ++ w.below).length ≠ w.below.length := by
        rw [List.length_append, List.length_cons]
        omega
      rw [if_neg hlength, if_neg (List.cons_ne_nil o os)]
      rfl

theorem popFrame_of_error {w : Setting} {r : Residue} {e : ValidationError} {c : Checker}
    (h : popTypes w.results (w.state r) = .error e c) : popFrame (w.state r) = .error e c := by
  rw [popFrame_state, bind_of_error h]

/-- Whether a frame can be closed depends on what its construct left, and what remains then is what
lies outside. -/
theorem popFrame_alike {w w' : Setting} (hlabels : w.labels = w'.labels)
    (hresults : w.results = w'.results) (r : Residue) :
    (popFrame (w.state r) = .ok w.results ⟨.ofList w.below, w.outer⟩ ∧
      popFrame (w'.state r) = .ok w.results ⟨.ofList w'.below, w'.outer⟩) ∨
    ∃ e c c', popFrame (w.state r) = .error e c ∧ popFrame (w'.state r) = .error e c' := by
  have h := confined_popTypes w.results w w' hlabels r
  generalize hw : popTypes w.results (w.state r) = popped at h
  generalize hw' : popTypes w.results (w'.state r) = popped' at h
  rw [hresults] at hw'
  cases h with
  | error e c c' => exact .inr ⟨e, c, c', popFrame_of_error hw, popFrame_of_error hw'⟩
  | @ok _ r' _ =>
      have hpop := popFrame_of_popTypes hw
      have hpop' := popFrame_of_popTypes hw'
      -- whether operands are left over is seen from the residue, which both states share
      by_cases hempty : r'.operands = []
      · rw [if_pos hempty] at hpop hpop'
        rw [← hresults] at hpop'
        exact .inl ⟨hpop, hpop'⟩
      · rw [if_neg hempty] at hpop hpop'
        exact .inr ⟨_, _, _, hpop, hpop'⟩

/-- A construct is checked in a setting of its own, in which all that was there before lies
outside. -/
theorem confined_construct {kind : Construct} {results : List ValueType} {x : Check Unit}
    {f : List ValueType → Check Unit} (hx : Confined x) (hf : ∀ ts, Confined (f ts)) :
    Confined (pushFrame kind results >>= fun _ => x >>= fun _ => popFrame >>= f) := by
  intro w w' hlabels r
  have hinside : (w.inside r kind results).labels = (w'.inside r kind results).labels := by
    rw [Setting.labels_inside, Setting.labels_inside, hlabels]
  show SameOutcome w w' r.dead
    ((x >>= fun _ => popFrame >>= f) ((w.inside r kind results).state .start))
    ((x >>= fun _ => popFrame >>= f) ((w'.inside r kind results).state .start))
  have h := hx _ _ hinside .start
  generalize hw : x ((w.inside r kind results).state .start) = checked at h
  generalize hw' : x ((w'.inside r kind results).state .start) = checked' at h
  cases h with
  | error e c c' =>
      rw [bind_of_error hw, bind_of_error hw']
      exact .error e c c'
  | @ok _ r₁ _ =>
      rw [bind_of_ok hw, bind_of_ok hw']
      rcases popFrame_alike hinside rfl r₁ with ⟨hpop, hpop'⟩ | ⟨e, c, c', hpop, hpop'⟩
      · rw [bind_of_ok hpop, bind_of_ok hpop']
        -- with the frame closed both states are the ones in front of the construct again
        exact hf results w w' hlabels r
      · rw [bind_of_error hpop, bind_of_error hpop']
        exact .error e c c'

/-! ## Instructions and sequences

By recursion on the tree, one case for each instruction.
-/

mutual

/-- By induction on the instruction: what is inside of a construct is a sequence, and nothing else
opens frames. -/
theorem confined_instruction (i : Instruction) : Confined (instruction ctx i) := by
  -- the constructs call the check on their bodies, whose setting is one frame further in
  cases i with
  | unreachable => exact confined_markUnreachable
  | nop => exact .pure ()
  | block type body =>
      rw [instruction]
      exact confined_construct (confined_sequence body) confined_pushTypes
  | loop type body =>
      rw [instruction]
      exact confined_construct (confined_sequence body) confined_pushTypes
  | ifElse type thenBody elseBody =>
      rw [instruction]
      exact (confined_popType .i32).bind fun _ =>
        confined_construct (confined_sequence thenBody) fun _ =>
          confined_construct (confined_sequence elseBody) confined_pushTypes
  | br label =>
      rw [instruction]
      exact (confined_labelTypes label).bind fun ts => (confined_popTypes ts).bind fun _ =>
        confined_markUnreachable
  | brIf label =>
      rw [instruction]
      exact (confined_popType .i32).bind fun _ => (confined_labelTypes label).bind fun ts =>
        confined_apply ts ts
  | brTable labels default =>
      rw [instruction]
      exact (confined_popType .i32).bind fun _ => (confined_labelTypes default).bind fun ts =>
        (confined_forM (confined_tableTarget ts) labels).bind fun _ =>
          (confined_popTypes ts).bind fun _ => confined_markUnreachable
  | ret => exact confined_ret ctx
  | call i =>
      rw [instruction]
      exact (confined_funcAt ctx i).bind fun f => confined_apply f.params f.results
  | callIndirect i =>
      rw [instruction]
      exact (confined_requireTable ctx).bind fun _ => (confined_typeAt ctx i).bind fun f =>
        (confined_popType .i32).bind fun _ => confined_apply f.params f.results
  | plain op =>
      rw [instruction]
      exact confined_plain ctx op

/-- A sequence is as confined as its instructions. -/
theorem confined_sequence (is : List Instruction) : Confined (sequence ctx is) := by
  cases is with
  | nil =>
      rw [sequence]
      exact .pure ()
  | cons i is =>
      rw [sequence]
      exact (confined_instruction i).bind fun _ => confined_sequence is

end

/-- What a confined check leaves of a residue in a setting. -/
theorem Confined.residue {x : Check α} (hx : Confined x) {w : Setting} {r : Residue} {a : α}
    {c : Checker} (h : x (w.state r) = .ok a c) :
    ∃ r', c = w.state r' ∧ (r.dead = true → r'.dead = true) := by
  have halike := hx w w rfl r
  rw [h] at halike
  cases halike with
  | ok _ hdead => exact ⟨_, rfl, hdead⟩

end Check

end WebAssembly
