import WebAssembly.Proofs.Binary.Grammar
import WebAssembly.Proofs.Typing.Confinement

/-!
# Frames of the checker

The checker compares the number of operands with the height of the innermost frame for equality
only. That is enough as long as there are never fewer operands than that. A state is
`Checker.WellFormed` if this is so, and checking code from such a state leads to such states only,
with the same frames and with the same operands below the innermost height. `Check.Visits` makes
this a statement about every state on the way as well.
-/

namespace WebAssembly

/-! ## Well-formed states

Every well-formed state is a residue in a setting, so what has been shown of residues applies to it.
-/

/-- There is a frame, no frame starts below one that is further out, and there are at least as many
operands as the innermost frame has below it. -/
structure Checker.WellFormed (c : Checker) : Prop where
  frames_ne_nil : c.frames ≠ []
  heights_ordered : c.frames.Pairwise fun inner outer => outer.height ≤ inner.height
  height_le_size : ∀ frame ∈ c.frames.head?, frame.height ≤ c.operands.size

/-- `c'` is a state in the innermost construct of `c`, with the constructs `inner` open in it. The
other frames are those of `c`, of which the innermost may have become unreachable, and the operands
below the innermost height are those of `c`. -/
def Checker.Confines (c : Checker) (inner : List ControlFrame) (c' : Checker) : Prop :=
  ∃ frame outer, c.frames = frame :: outer ∧
    (c'.frames = inner ++ c.frames ∨
      c'.frames = inner ++ { frame with unreachable := true } :: outer) ∧
    c'.operands.truncate frame.height = c.operands.truncate frame.height

/-- What is to be seen of a state from inside of the innermost construct. -/
structure View where
  labels : List (List ValueType)
  operands : List Operand
  dead : Bool

/-- The types that branches carry, the operands above the innermost height, and whether the rest of
the construct is dead. -/
def Checker.view (c : Checker) : Option View :=
  c.frames.head?.map fun frame =>
    ⟨c.frames.map ControlFrame.labelTypes, c.operands.toList.take (c.operands.size - frame.height),
      frame.unreachable⟩

/-- What is to be seen of the outcome of a check. -/
def Check.seen (x : Check Unit) (c : Checker) : Except ValidationError (Option View) :=
  match x c with
  | .ok _ c' => .ok c'.view
  | .error e _ => .error e

namespace Setting

/-- No frame of the setting starts below one that is further out. -/
def Ordered (w : Setting) : Prop :=
  (w.frame false :: w.outer).Pairwise fun inner outer => outer.height ≤ inner.height

theorem wellFormed_state {w : Setting} (h : w.Ordered) (r : Residue) : (w.state r).WellFormed where
  frames_ne_nil := List.cons_ne_nil _ _
  heights_ordered := List.pairwise_cons.mpr (List.pairwise_cons.mp h)
  height_le_size := by
    rintro _ ⟨⟩
    show w.below.length ≤ (r.operands ++ w.below).length
    rw [List.length_append]
    omega

/-- A well-formed state is a residue in a setting: operands are split at the innermost height. -/
theorem exists_of_wellFormed {c : Checker} (h : c.WellFormed) :
    ∃ w r, c = state w r ∧ w.Ordered := by
  obtain ⟨operands, frames⟩ := c
  obtain ⟨hne, hordered, hheight⟩ := h
  cases frames with
  | nil => exact absurd rfl hne
  | cons frame outer =>
      have hle : frame.height ≤ operands.toList.length := by
        rw [← operands.size_eq]
        exact hheight frame rfl
      have hbelow : (operands.toList.drop (operands.toList.length - frame.height)).length =
          frame.height := by
        rw [List.length_drop]
        omega
      -- the height of the innermost frame divides the operands into its own and those below
      refine ⟨⟨frame.kind, frame.results,
        operands.toList.drop (operands.toList.length - frame.height), outer⟩,
        ⟨operands.toList.take (operands.toList.length - frame.height), frame.unreachable⟩, ?_, ?_⟩
      · simp only [state, Setting.frame, List.take_append_drop, Stack.ofList_toList, hbelow]
      · exact List.pairwise_cons.mpr (by
          simp only [Setting.frame, hbelow]
          exact List.pairwise_cons.mp hordered)

/-- A frame opened later starts no lower than the frames around it. -/
theorem ordered_inside {w : Setting} (h : w.Ordered) (r : Residue) (kind : Construct)
    (results : List ValueType) : (w.inside r kind results).Ordered := by
  obtain ⟨houter, hrest⟩ := List.pairwise_cons.mp h
  have hheight : w.below.length ≤ (r.operands ++ w.below).length := by
    rw [List.length_append]
    omega
  refine List.pairwise_cons.mpr ⟨?_, List.pairwise_cons.mpr ⟨houter, hrest⟩⟩
  intro frame hframe
  rcases List.mem_cons.mp hframe with rfl | hframe
  · exact hheight
  · exact Nat.le_trans (houter frame hframe) hheight

/-- What can be seen of a state is its labels, its own operands and whether its end is reached. -/
theorem view_state (w : Setting) (r : Residue) :
    (w.state r).view = some ⟨w.labels, r.operands, r.dead⟩ := by
  have htake : (r.operands ++ w.below).take ((r.operands ++ w.below).length - w.below.length) =
      r.operands := by
    rw [List.length_append, Nat.add_sub_cancel, List.take_left]
  exact congrArg (fun operands => some (View.mk w.labels operands r.dead)) htake

end Setting

namespace Check

/-- From states that look alike a confined check leads to what looks alike. -/
theorem Confined.seen_eq {x : Check Unit} (hx : Confined x) {c c' : Checker} (hc : c.WellFormed)
    (hc' : c'.WellFormed) (hview : c'.view = c.view) : seen x c' = seen x c := by
  obtain ⟨w, r, rfl, _⟩ := Setting.exists_of_wellFormed hc
  obtain ⟨w', r', rfl, _⟩ := Setting.exists_of_wellFormed hc'
  rw [Setting.view_state, Setting.view_state] at hview
  obtain ⟨hlabels, hoperands, hdead⟩ := View.mk.inj (Option.some.inj hview)
  obtain rfl : r' = r := by
    cases r
    cases r'
    cases hoperands
    cases hdead
    rfl
  have halike := hx w' w hlabels r'
  unfold seen
  generalize x (w'.state r') = first at halike
  generalize x (w.state r') = second at halike
  cases halike with
  | error e _ _ => rfl
  | @ok _ r₁ _ =>
      show Except.ok (w'.state r₁).view = Except.ok (w.state r₁).view
      rw [Setting.view_state, Setting.view_state, hlabels]

end Check

/-! ## States on the way

Inside of a construct there are more frames than at its start and at its end. They are counted by
the nesting of the code.
-/

namespace Check

variable (ctx : Context)

/-- While a sequence is checked from the state `c`, the checker comes to the state `c'`, in front of
an instruction or at the end of a sequence, be it inside of constructs. -/
inductive Visits : Checker → List Instruction → Checker → Prop
  | here (c : Checker) (is : List Instruction) : Visits c is c
  | next {c c₁ c' : Checker} {i : Instruction} {is : List Instruction} :
      instruction ctx i c = .ok () c₁ → Visits c₁ is c' → Visits c (i :: is) c'
  | block {c c₁ c' : Checker} {type : BlockType} {body is : List Instruction} :
      pushFrame .block type.results c = .ok () c₁ → Visits c₁ body c' →
      Visits c (.block type body :: is) c'
  | loop {c c₁ c' : Checker} {type : BlockType} {body is : List Instruction} :
      pushFrame .loop type.results c = .ok () c₁ → Visits c₁ body c' →
      Visits c (.loop type body :: is) c'
  | thenBody {c c₁ c₂ c' : Checker} {type : BlockType} {thenBody elseBody is : List Instruction} :
      popType .i32 c = .ok () c₁ → pushFrame .ifElse type.results c₁ = .ok () c₂ →
      Visits c₂ thenBody c' → Visits c (.ifElse type thenBody elseBody :: is) c'
  | elseBody {c c₁ c₂ c₃ c₄ c₅ c' : Checker} {type : BlockType} {ts : List ValueType}
      {thenBody elseBody is : List Instruction} :
      popType .i32 c = .ok () c₁ → pushFrame .ifElse type.results c₁ = .ok () c₂ →
      sequence ctx thenBody c₂ = .ok () c₃ → popFrame c₃ = .ok ts c₄ →
      pushFrame .ifElse type.results c₄ = .ok () c₅ →
      Visits c₅ elseBody c' → Visits c (.ifElse type thenBody elseBody :: is) c'

end Check

/-- Where a state inside of a setting stands: up to `n` constructs have been opened there, and what
lies outside is as it was, but for dead code. -/
structure Setting.Holds (w : Setting) (dead : Bool) (n : Nat) (c : Checker) : Prop where
  wellFormed : w.Ordered → c.WellFormed
  place : ∃ inner above dead', c.frames = inner ++ w.frame dead' :: w.outer ∧
    c.operands = .ofList (above ++ w.below) ∧ (dead = true → dead' = true) ∧ inner.length ≤ n

namespace Setting.Holds

variable {w : Setting} {r : Residue} {n : Nat} {c : Checker}

theorem mono {dead dead' : Bool} {n' : Nat} (h : w.Holds dead n c)
    (hdead : dead' = true → dead = true) (hn : n ≤ n') : w.Holds dead' n' c where
  wellFormed := h.wellFormed
  place := by
    obtain ⟨inner, above, dead'', hframes, hoperands, hmono, hlength⟩ := h.place
    exact ⟨inner, above, dead'', hframes, hoperands, fun h => hmono (hdead h), by omega⟩

theorem of_state (w : Setting) (r : Residue) (n : Nat) : w.Holds r.dead n (w.state r) where
  wellFormed := fun h => wellFormed_state h r
  place := ⟨[], r.operands, r.dead, rfl, rfl, id, Nat.zero_le n⟩

/-- What holds inside of a construct holds outside of it, where the construct is one more. -/
theorem of_inside {kind : Construct} {results : List ValueType} {dead : Bool}
    (h : (w.inside r kind results).Holds dead n c) : w.Holds r.dead (n + 1) c where
  wellFormed := fun hordered => h.wellFormed (ordered_inside hordered r kind results)
  place := by
    obtain ⟨inner, above, dead', hframes, hoperands, _, hlength⟩ := h.place
    refine ⟨inner ++ [(w.inside r kind results).frame dead'], above ++ r.operands, r.dead, ?_, ?_,
      id, ?_⟩
    · rw [hframes, List.append_assoc]
      rfl
    · rw [hoperands, List.append_assoc]
      rfl
    · rw [List.length_append, List.length_singleton]
      omega

/-- Below the height of the setting the operands are those outside. -/
theorem truncate_eq {dead : Bool} (h : w.Holds dead n c) :
    c.operands.truncate w.below.length = .ofList w.below := by
  obtain ⟨_, above, _, _, hoperands, _, _⟩ := h.place
  rw [hoperands, Stack.truncate_ofList, List.length_append, Nat.add_sub_cancel, List.drop_left]

/-- A state that holds a setting has the frames and operands of it underneath. -/
theorem confines (h : w.Holds r.dead n c) :
    ∃ inner, (w.state r).Confines inner c ∧ inner.length ≤ n := by
  obtain ⟨inner, _, dead', hframes, _, hdead, hlength⟩ := h.place
  refine ⟨inner, ⟨w.frame r.dead, w.outer, rfl, ?_, ?_⟩, hlength⟩
  · by_cases heq : dead' = r.dead
    · exact .inl (by rw [hframes, heq]; rfl)
    · -- the flag has changed, and it can only have been turned on
      have hturned : dead' = true := by
        cases hr : r.dead with
        | true => exact hdead hr
        | false => simpa [hr] using heq
      exact .inr (by rw [hframes, hturned]; rfl)
  · exact h.truncate_eq.trans (of_state w r n).truncate_eq.symm

end Setting.Holds

namespace Check

variable {ctx : Context}

theorem pushFrame_state {w : Setting} {r : Residue} {kind : Construct} {results : List ValueType}
    {c : Checker} (h : pushFrame kind results (w.state r) = .ok () c) :
    c = (w.inside r kind results).state .start := by
  cases h
  rfl

/-- By induction on the way to the state. An instruction leaves the setting as it is, a construct
opens one inside of it. -/
theorem Visits.holds {c c' : Checker} {is : List Instruction} (h : Visits ctx c is c')
    {w : Setting} {r : Residue} (hc : c = w.state r) : w.Holds r.dead (Expr.nesting is) c' := by
  induction h generalizing w r with
  | here c is =>
      subst hc
      exact .of_state w r _
  | @next c c₁ c' i is hinstruction _ ih =>
      subst hc
      obtain ⟨r₁, hc₁, hdead⟩ := (confined_instruction ctx i).residue hinstruction
      exact (ih hc₁).mono hdead (Nat.le_max_right _ _)
  | block hpush _ ih =>
      subst hc
      exact (ih (pushFrame_state hpush)).of_inside.mono id (Nat.le_max_left _ _)
  | loop hpush _ ih =>
      subst hc
      exact (ih (pushFrame_state hpush)).of_inside.mono id (Nat.le_max_left _ _)
  | thenBody hpop hpush _ ih =>
      subst hc
      obtain ⟨r₁, rfl, hdead⟩ := (confined_popType .i32).residue hpop
      refine (ih (pushFrame_state hpush)).of_inside.mono hdead ?_
      simp only [Expr.nesting, Instruction.nesting]
      omega
  | @elseBody _ _ _ _ _ _ _ type _ thenBody _ _ hpop hpush hthen hclose hpush' _ ih =>
      subst hc
      obtain ⟨r₁, rfl, hdead⟩ := (confined_popType .i32).residue hpop
      obtain rfl := pushFrame_state hpush
      obtain ⟨r₂, rfl, _⟩ := (confined_sequence ctx thenBody).residue hthen
      obtain ⟨_, hclosed, _⟩ := Decides.popFrame_sound hclose
      -- with the frame closed the state is the one in front of the first body again
      have hclosed : _ = w.state r₁ := hclosed
      subst hclosed
      refine (ih (pushFrame_state hpush')).of_inside.mono hdead ?_
      simp only [Expr.nesting, Instruction.nesting]
      omega

end Check

/-! ## Labels

Labels count frames from the innermost one out, and the outermost is the function.
-/

/-- Labels are looked up among the frames that there are. Counted from the outermost one, the frame
of a label is at `frames.length - (label + 1)`, unless the label is refused, and a `return` is the
branch to the label `frames.length - 1`. -/
structure Checker.LabelsInRange (ctx : Context) (c : Checker) : Prop where
  exists_frame : 1 ≤ c.frames.length
  ret_eq : ∀ label : UInt32, label.toNat = c.frames.length - 1 →
    Check.instruction ctx .ret c = Check.instruction ctx (.br label) c
  labelTypes_eq : ∀ label : UInt32,
    c.frames.length ≤ label.toNat ∧ Check.labelTypes label c = .error (.unknownLabel label) c ∨
    label.toNat + 1 ≤ c.frames.length ∧
      ∃ frame, c.frames.reverse[c.frames.length - (label.toNat + 1)]? = some frame ∧
        Check.labelTypes label c = .ok frame.labelTypes c

/-- A return is a branch to the outermost label. -/
theorem Check.ret_eq_br (ctx : Context) {c : Checker} {label : UInt32}
    (h : label.toNat + 1 = c.frames.length) :
    instruction ctx .ret c = instruction ctx (.br label) c := by
  have hlast : c.frames.getLast? = c.frames[label.toNat]? := by
    rw [List.getLast?_eq_getElem?, ← h, Nat.add_sub_cancel]
  have hframe : c.frames[label.toNat]? = some c.frames[label.toNat] :=
    List.getElem?_eq_getElem (by omega)
  have hget : (get : Check Checker) c = .ok c c := rfl
  rw [instruction, instruction, bind_of_ok hget, hlast, hframe,
    bind_of_ok (labelTypes_of_frame hframe)]

/-- Labels count the open frames, and no label beyond them is found. -/
theorem Checker.labelsInRange (ctx : Context) {c : Checker} (h : c.frames ≠ []) :
    c.LabelsInRange ctx where
  exists_frame := List.length_pos_iff.mpr h
  ret_eq := by
    intro label hlabel
    have hpos := List.length_pos_iff.mpr h
    exact Check.ret_eq_br ctx (by omega)
  labelTypes_eq := by
    intro label
    by_cases hlabel : label.toNat < c.frames.length
    · have hframe := List.getElem?_eq_getElem hlabel
      refine .inr ⟨hlabel, c.frames[label.toNat], ?_, Check.labelTypes_of_frame hframe⟩
      rw [List.getElem?_reverse (by omega), ← hframe]
      congr 1
      omega
    · have hnone : c.frames[label.toNat]? = none := List.getElem?_eq_none (by omega)
      exact .inl ⟨by omega, Check.labelTypes_of_none hnone⟩

/-! ## The frame law -/

/-- From a well-formed state, checking an instruction or a sequence that succeeds leads to a
well-formed state with the same frames, of which at most the innermost has become unreachable, and
with the same operands below the innermost height. So it is on the way, inside of constructs too:
there is a frame for each label that is looked up and one to return from, at most as many frames are
added as the code is nested, and the operands that were there when a construct was opened stay as
long as it is open. Nor does the outcome depend on anything outside of the innermost construct but
the types that branches carry. -/
theorem Checker.WellFormed.check_confined (ctx : Context) {c : Checker} (hc : c.WellFormed) :
    (∀ i c', Check.instruction ctx i c = .ok () c' → c'.WellFormed ∧ c.Confines [] c') ∧
    (∀ is c', Check.sequence ctx is c = .ok () c' → c'.WellFormed ∧ c.Confines [] c') ∧
    (∀ is c', Check.Visits ctx c is c' → c'.WellFormed ∧ c'.LabelsInRange ctx ∧
      ∃ inner, c.Confines inner c' ∧ inner.length ≤ Expr.nesting is) ∧
    (∀ kind results c₁, Check.pushFrame kind results c = .ok () c₁ → c₁.WellFormed ∧
      ∀ is c', Check.Visits ctx c₁ is c' → c'.operands.truncate c.operands.size = c.operands) ∧
    ∀ c₂ : Checker, c₂.WellFormed → c₂.view = c.view →
      (∀ i, Check.seen (Check.instruction ctx i) c₂ = Check.seen (Check.instruction ctx i) c) ∧
      ∀ is, Check.seen (Check.sequence ctx is) c₂ = Check.seen (Check.sequence ctx is) c := by
  obtain ⟨w, r, rfl, hordered⟩ := Setting.exists_of_wellFormed hc
  -- instructions and sequences alike, since both are confined
  have hkept : ∀ {x : Check Unit} {c'}, x.Confined → x (w.state r) = .ok () c' →
      c'.WellFormed ∧ (w.state r).Confines [] c' := by
    intro x c' hx h
    obtain ⟨r', rfl, hdead⟩ := hx.residue h
    have hholds := (Setting.Holds.of_state w r' 0).mono hdead (Nat.le_refl 0)
    obtain ⟨inner, hconfines, hinner⟩ := hholds.confines
    rw [List.length_eq_zero_iff.mp (Nat.le_zero.mp hinner)] at hconfines
    exact ⟨Setting.wellFormed_state hordered r', hconfines⟩
  refine ⟨fun i c' => hkept (Check.confined_instruction ctx i),
    fun is c' => hkept (Check.confined_sequence ctx is), ?_, ?_, ?_⟩
  · intro is c' hvisits
    have hholds := hvisits.holds rfl
    have hc' := hholds.wellFormed hordered
    exact ⟨hc', Checker.labelsInRange ctx hc'.frames_ne_nil, hholds.confines⟩
  · intro kind results c₁ hpush
    obtain rfl := Check.pushFrame_state hpush
    refine ⟨Setting.wellFormed_state (Setting.ordered_inside hordered r kind results) _, ?_⟩
    intro is c' hvisits
    exact (hvisits.holds rfl).truncate_eq
  · intro c₂ hc₂ hview
    exact ⟨fun i => (Check.confined_instruction ctx i).seen_eq hc hc₂ hview,
      fun is => (Check.confined_sequence ctx is).seen_eq hc hc₂ hview⟩

/-- A block with an operand of its own, in a function that has one under it. -/
def innerState (below : Operand) : Checker :=
  ⟨.ofList [.known .i32, below], [⟨.block, [], 1, false⟩, ⟨.func, [], 0, false⟩]⟩

/-- Code that leaves a nested block for the end of the one around it, and then the function. -/
def leavingCode : Expr :=
  [.block (.value .i32) [.br 1], .ret]

theorem wellFormed_innerState (below : Operand) : (innerState below).WellFormed where
  frames_ne_nil := List.cons_ne_nil _ _
  heights_ordered := by simp [innerState]
  height_le_size := by
    rintro _ ⟨⟩
    exact Nat.le_succ 1

/-- The code drops the operand of the block and keeps the one under it, of which it makes no
difference what is known. In the nested block there are three frames to return through. -/
theorem innerState_check_confined :
    let ctx : Context := ⟨#[], #[], #[], #[], #[], #[]⟩
    let c := innerState (.known .f64)
    let c' : Checker := ⟨.ofList [.known .f64], [⟨.block, [], 1, true⟩, ⟨.func, [], 0, false⟩]⟩
    let nested : Checker := ⟨c.operands, ⟨.block, [.i32], 2, false⟩ :: c.frames⟩
    c.WellFormed ∧ Check.sequence ctx leavingCode c = .ok () c' ∧ c'.WellFormed ∧ c.Confines [] c' ∧
      Check.Visits ctx c leavingCode nested ∧ nested.LabelsInRange ctx ∧
      (innerState .unknown).view = c.view ∧
      Check.seen (Check.sequence ctx leavingCode) (innerState .unknown) =
        Check.seen (Check.sequence ctx leavingCode) c := by
  intro ctx c c' nested
  have hc : c.WellFormed := wellFormed_innerState (.known .f64)
  have hcheck : Check.sequence ctx leavingCode c = .ok () c' := rfl
  have hvisits : Check.Visits ctx c leavingCode nested := .block rfl (.here _ _)
  obtain ⟨_, hsequence, hway, _, hsame⟩ := hc.check_confined ctx
  obtain ⟨hc', hconfines⟩ := hsequence _ _ hcheck
  exact ⟨hc, hcheck, hc', hconfines, hvisits, (hway _ _ hvisits).2.1, rfl,
    (hsame _ (wellFormed_innerState .unknown) rfl).2 leavingCode⟩

end WebAssembly
