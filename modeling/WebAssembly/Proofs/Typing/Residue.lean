import Mathlib.Data.List.Induction
import WebAssembly.Proofs.Fallible
import WebAssembly.Proofs.Stacks
import WebAssembly.Proofs.Typing.Rules

/-!
# What the checker knows

While the checker works inside a construct, everything outside it stays as it is: the operands below
the construct's height and the frames around it. A `Setting` is this fixed part and a `Residue` the
part that changes, so that a checker state is a residue in a setting.

A residue stands for the operand stacks it admits. An operand of unknown type admits any type, and
once the rest of the construct is dead, any operands may lie under those that are listed. A check
`Decides` a relation between stacks if it succeeds exactly where the relation leads, forwards from
every admitted stack and backwards from every stack that is admitted afterwards. Backwards is the
direction in which unknown types get chosen: what a later instruction wants determines them.
-/

namespace WebAssembly

/-! ## Settings and residues

A state of the checker taken apart at the height of its innermost frame.
-/

/-- The part of the checker's state that code inside a construct cannot touch. -/
structure Setting where
  kind : Construct
  results : List ValueType
  below : List Operand
  outer : List ControlFrame

/-- The part that it works on: the operands of the construct, the topmost one first, and whether the
rest of the construct is dead. -/
structure Residue where
  operands : List Operand
  dead : Bool

namespace Setting

/-- The frame of the construct. -/
def frame (w : Setting) (dead : Bool) : ControlFrame :=
  ⟨w.kind, w.results, w.below.length, dead⟩

/-- The checker's state. -/
def state (w : Setting) (r : Residue) : Checker :=
  ⟨.ofList (r.operands ++ w.below), w.frame r.dead :: w.outer⟩

/-- What branches to the construct and to those around it carry. -/
def labels (w : Setting) : List (List ValueType) :=
  (w.frame false).labelTypes :: w.outer.map ControlFrame.labelTypes

/-- What a branch to the outermost construct carries, the function itself. -/
def returns (w : Setting) : List ValueType :=
  w.labels.getLastD []

/-- The setting of a construct inside this one. -/
def inside (w : Setting) (r : Residue) (kind : Construct) (results : List ValueType) : Setting :=
  ⟨kind, results, r.operands ++ w.below, w.frame r.dead :: w.outer⟩

theorem labels_inside (w : Setting) (r : Residue) (kind : Construct) (results : List ValueType) :
    (w.inside r kind results).labels = (if kind = .loop then [] else results) :: w.labels :=
  rfl

theorem returns_inside (w : Setting) (r : Residue) (kind : Construct) (results : List ValueType) :
    (w.inside r kind results).returns = w.returns := by
  unfold returns
  rw [labels_inside, List.getLastD_cons, labels, List.getLastD_cons, List.getLastD_cons]

end Setting

/-! ## Admitted stacks

What a residue stands for. Only a dead residue stands for stacks of different heights.
-/

/-- An operand can be of a type. -/
def Operand.Admits : Operand → ValueType → Prop
  | .known t, t' => t' = t
  | .unknown, _ => True

/-- Operands admit types, the topmost ones first. Under dead code anything may lie. -/
def Operand.AdmitAll (dead : Bool) : List Operand → List ValueType → Prop
  | [], ts => dead = true ∨ ts = []
  | _ :: _, [] => False
  | o :: os, t :: ts => o.Admits t ∧ Operand.AdmitAll dead os ts

/-- A residue admits a stack, whose topmost type is the last one. -/
def Residue.Admits (r : Residue) (ts : List ValueType) : Prop :=
  Operand.AdmitAll r.dead r.operands ts.reverse

namespace Residue

/-- Where a construct starts. -/
def start : Residue :=
  ⟨[], false⟩

theorem start_admits_iff {ts : List ValueType} : start.Admits ts ↔ ts = [] := by
  simp [Admits, Operand.AdmitAll, start]

theorem dead_admits (ts : List ValueType) : (⟨[], true⟩ : Residue).Admits ts :=
  Or.inl rfl

/-- The residue with one more operand. -/
def push (r : Residue) (o : Operand) : Residue :=
  { r with operands := o :: r.operands }

/-- The residue with operands of the given types. -/
def pushTypes (r : Residue) (ts : List ValueType) : Residue :=
  { r with operands := (ts.map Operand.known).reverse ++ r.operands }

/-- An operand pushed stands for one more type at the end. -/
theorem push_admits {r : Residue} {o : Operand} {t : ValueType} {ts : List ValueType}
    (hr : r.Admits ts) (ho : o.Admits t) : (r.push o).Admits (ts ++ [t]) := by
  unfold Admits at *
  rw [List.reverse_append]
  exact ⟨ho, hr⟩

/-- Every residue admits some stack. -/
theorem exists_admits (r : Residue) : ∃ ts, r.Admits ts := by
  obtain ⟨operands, dead⟩ := r
  induction operands with
  | nil => exact ⟨[], Or.inr rfl⟩
  | cons o os ih =>
      obtain ⟨ts, hts⟩ := ih
      -- for an unknown operand any type will do
      cases o with
      | known t => exact ⟨ts ++ [t], push_admits (r := ⟨os, dead⟩) hts rfl⟩
      | unknown => exact ⟨ts ++ [.i32], push_admits (r := ⟨os, dead⟩) hts trivial⟩

/-- What a residue with a top operand admits has a type for it on top. -/
theorem exists_of_push_admits {r : Residue} {o : Operand} {ts : List ValueType}
    (h : (r.push o).Admits ts) : ∃ ts' t, ts = ts' ++ [t] ∧ r.Admits ts' ∧ o.Admits t := by
  unfold Admits at h
  cases hts : ts.reverse with
  | nil =>
      rw [hts] at h
      exact h.elim
  | cons t us =>
      rw [hts] at h
      refine ⟨us.reverse, t, ?_, ?_, h.1⟩
      · rw [← List.reverse_reverse ts, hts, List.reverse_cons]
      · unfold Admits
        rw [List.reverse_reverse]
        exact h.2

theorem pushTypes_nil (r : Residue) : r.pushTypes [] = r :=
  rfl

theorem pushTypes_concat (r : Residue) (ts : List ValueType) (t : ValueType) :
    r.pushTypes (ts ++ [t]) = (r.pushTypes ts).push (.known t) := by
  simp [pushTypes, push]

/-- Known operands admit exactly their types. -/
theorem pushTypes_admits_iff {r : Residue} {given ts : List ValueType} :
    (r.pushTypes given).Admits ts ↔ ∃ under, r.Admits under ∧ ts = under ++ given := by
  induction given using List.reverseRecOn generalizing ts with
  | nil => simp [pushTypes_nil]
  | append_singleton given t ih =>
      rw [pushTypes_concat]
      constructor
      · intro h
        obtain ⟨ts', t', rfl, hts', ht'⟩ := exists_of_push_admits h
        obtain ⟨under, hunder, rfl⟩ := ih.mp hts'
        cases ht'
        exact ⟨under, hunder, by rw [List.append_assoc]⟩
      · rintro ⟨under, hunder, rfl⟩
        rw [← List.append_assoc]
        exact push_admits (ih.mpr ⟨under, hunder, rfl⟩) rfl

end Residue

/-! ## Steps of the checker in a setting

Pushing and popping act on the residue alone.
-/

namespace Check

theorem push_state (w : Setting) (r : Residue) (o : Operand) :
    push o (w.state r) = .ok () (w.state (r.push o)) :=
  rfl

theorem pushTypes_state (w : Setting) (r : Residue) (ts : List ValueType) :
    pushTypes ts (w.state r) = .ok () (w.state (r.pushTypes ts)) := by
  show EStateM.Result.ok () (Checker.mk _ _) = _
  simp only [Setting.state, Residue.pushTypes, Stack.pushAll_ofList, List.append_assoc]

theorem pop_push_state (w : Setting) (r : Residue) (o : Operand) :
    pop (w.state (r.push o)) = .ok o (w.state r) := by
  have hsize : r.operands.length + w.below.length + 1 ≠ w.below.length := by omega
  simp [pop, Setting.state, Setting.frame, Stack.ofList, Residue.push, Stack.pop?, hsize]

/-- Below its own operands a frame gives unknown ones, if its end cannot be reached. -/
theorem pop_start_state (w : Setting) (dead : Bool) :
    pop (w.state ⟨[], dead⟩) =
      if dead then .ok .unknown (w.state ⟨[], dead⟩)
      else .error .typeMismatch (w.state ⟨[], dead⟩) := by
  simp [pop, Setting.state, Setting.frame, Stack.ofList]

theorem markUnreachable_state (w : Setting) (r : Residue) :
    markUnreachable (w.state r) = .ok () (w.state ⟨[], true⟩) := by
  show EStateM.Result.ok () (Checker.mk _ _) = _
  simp [Setting.state, Setting.frame, Stack.truncate_ofList]

/-- Whatever is popped, it can be put back at any type it admits. -/
theorem pop_sound {w : Setting} {r : Residue} {o : Operand} {c : Checker}
    (h : pop (w.state r) = .ok o c) :
    ∃ r', c = w.state r' ∧ ∀ ts t, r'.Admits ts → o.Admits t → r.Admits (ts ++ [t]) := by
  obtain ⟨operands, dead⟩ := r
  -- in dead code an operand that is not there may have any type
  cases operands with
  | nil =>
      rw [pop_start_state] at h
      cases dead with
      | false => cases h
      | true =>
          cases h
          exact ⟨⟨[], true⟩, rfl, fun ts t _ _ => Residue.dead_admits (ts ++ [t])⟩
  | cons top rest =>
      have hpop := pop_push_state w ⟨rest, dead⟩ top
      rw [Residue.push] at hpop
      rw [hpop] at h
      cases h
      exact ⟨⟨rest, dead⟩, rfl, fun ts t hts ht => Residue.push_admits hts ht⟩

/-- From a stack with something on top something can be popped. -/
theorem pop_complete {w : Setting} {r : Residue} {ts : List ValueType} {t : ValueType}
    (h : r.Admits (ts ++ [t])) :
    ∃ o r', pop (w.state r) = .ok o (w.state r') ∧ r'.Admits ts ∧ o.Admits t := by
  obtain ⟨operands, dead⟩ := r
  cases operands with
  | nil =>
      cases dead with
      | false =>
          have hnil := Residue.start_admits_iff.mp h
          simp at hnil
      | true =>
          refine ⟨.unknown, ⟨[], true⟩, ?_, Residue.dead_admits ts, trivial⟩
          rw [pop_start_state, if_pos rfl]
  | cons top rest =>
      obtain ⟨ts', t', heq, hts', ht'⟩ := Residue.exists_of_push_admits (r := ⟨rest, dead⟩) h
      obtain ⟨rfl, ht⟩ := List.append_inj' heq rfl
      cases ht
      exact ⟨top, ⟨rest, dead⟩, pop_push_state w ⟨rest, dead⟩ top, hts', ht'⟩

/-- Against a known type only that type or an unknown one passes. -/
theorem compatible_known_iff {o : Operand} {t : ValueType} :
    compatible o (.known t) = true ↔ o.Admits t := by
  cases o with
  | known t' =>
      simp only [compatible, Operand.Admits, Bool.or_eq_true, beq_iff_eq, Operand.known.injEq,
        reduceCtorEq, or_false]
      exact eq_comm
  | unknown => simp [compatible, Operand.Admits]

end Check

/-! ## Deciding a relation between stacks

Sequences and look-ups decide what their parts decide, forwards and backwards.
-/

/-- In the given setting a check decides a relation between the stack before and the stack after. -/
structure Decides (w : Setting) (x : Check Unit) (R : List ValueType → List ValueType → Prop) :
    Prop where
  sound : ∀ {r : Residue} {c : Checker}, x (w.state r) = .ok () c →
    ∃ r', c = w.state r' ∧ ∀ ts', r'.Admits ts' → ∃ ts, r.Admits ts ∧ R ts ts'
  complete : ∀ {r : Residue} {ts ts' : List ValueType}, r.Admits ts → R ts ts' →
    ∃ r', x (w.state r) = .ok () (w.state r') ∧ r'.Admits ts'

namespace Decides

variable {w : Setting} {x y : Check Unit} {R S : List ValueType → List ValueType → Prop}

/-- Only which stacks are related matters. -/
theorem congr (h : Decides w x R) (hRS : ∀ ts ts', R ts ts' ↔ S ts ts') : Decides w x S := by
  have : R = S := funext fun ts => funext fun ts' => propext (hRS ts ts')
  rwa [this] at h

/-- One check after another decides the composite relation. -/
theorem bind (hx : Decides w x R) (hy : Decides w y S) :
    Decides w (x >>= fun _ => y) fun ts ts'' => ∃ ts', R ts ts' ∧ S ts' ts'' where
  sound := by
    intro r c h
    obtain ⟨_, c', hxc, hyc⟩ := bind_eq_ok_iff.mp h
    obtain ⟨r', rfl, hback⟩ := hx.sound hxc
    obtain ⟨r'', rfl, hback'⟩ := hy.sound hyc
    refine ⟨r'', rfl, ?_⟩
    intro ts'' hts''
    obtain ⟨ts', hts', hS⟩ := hback' ts'' hts''
    obtain ⟨ts, hts, hR⟩ := hback ts' hts'
    exact ⟨ts, hts, ts', hR, hS⟩
  complete := by
    rintro r ts ts'' hts ⟨ts', hR, hS⟩
    obtain ⟨r', hxr, hts'⟩ := hx.complete hts hR
    obtain ⟨r'', hyr, hts''⟩ := hy.complete hts' hS
    exact ⟨r'', by rw [bind_of_ok hxr, hyr], hts''⟩

/-- A check that does nothing relates each stack to itself. -/
theorem nothing : Decides w (pure ()) fun ts ts' => ts = ts' where
  sound := by
    intro r c h
    cases h
    exact ⟨r, rfl, fun ts' hts' => ⟨ts', hts', rfl⟩⟩
  complete := by
    rintro r ts _ hts rfl
    exact ⟨r, rfl, hts⟩

/-- A check that looks something up first: where it is found, the rest goes on with it. -/
theorem lookUp {α : Type} {find : Check α} {f : α → Check Unit} {found : Option α}
    {e : ValidationError} {T : α → List ValueType → List ValueType → Prop}
    (hfind : ∀ r, find (w.state r) =
      match found with
      | some a => .ok a (w.state r)
      | none => .error e (w.state r))
    (hf : ∀ a, found = some a → Decides w (f a) (T a)) :
    Decides w (find >>= f) fun ts ts' => ∃ a, found = some a ∧ T a ts ts' where
  sound := by
    intro r c h
    obtain ⟨a, c', ha, hfa⟩ := bind_eq_ok_iff.mp h
    rw [hfind] at ha
    -- a failed look-up refuses every stack, a successful one changes none
    cases hfound : found with
    | none => simp [hfound] at ha
    | some b =>
        simp only [hfound, EStateM.Result.ok.injEq] at ha
        obtain ⟨rfl, rfl⟩ := ha
        obtain ⟨r', rfl, hback⟩ := (hf b hfound).sound hfa
        refine ⟨r', rfl, ?_⟩
        intro ts' hts'
        obtain ⟨ts, hts, hT⟩ := hback ts' hts'
        exact ⟨ts, hts, b, rfl, hT⟩
  complete := by
    rintro r ts ts' hts ⟨a, rfl, hT⟩
    obtain ⟨r', hr', hts'⟩ := (hf a rfl).complete hts hT
    exact ⟨r', by rw [bind_of_ok (hfind r), hr'], hts'⟩

/-- Dead code can follow on every stack, and every stack can follow it. -/
theorem markUnreachable : Decides w Check.markUnreachable fun _ _ => True where
  sound := by
    intro r c h
    rw [Check.markUnreachable_state] at h
    cases h
    obtain ⟨ts, hts⟩ := r.exists_admits
    exact ⟨⟨[], true⟩, rfl, fun _ _ => ⟨ts, hts, trivial⟩⟩
  complete := by
    intro r ts ts' _ _
    exact ⟨⟨[], true⟩, Check.markUnreachable_state w r, Residue.dead_admits ts'⟩

end Decides

end WebAssembly
