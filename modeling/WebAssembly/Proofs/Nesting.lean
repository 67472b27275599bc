import WebAssembly.Machine.Label
import WebAssembly.Proofs.Binary.Grammar
import WebAssembly.Proofs.Layout

/-!
# Constructs around a position

Flat code has no nesting of its own, but the body that it was laid out from does. `Expr.sites` lists
the constructs of a body with the positions of the ops that open and close them, and `enclosing`
picks those around a position, the outermost one first. `Bracketed` says how the ops of a piece of
code stand with respect to its constructs. From it follows what every op makes of the position: the
ops that open a construct go into it, the one that closes it goes out of it and of no other, and all
else stays where it is (`Op.Moves`). Where a branch goes, just the constructs around its target are
left (`Nested.cont`).
-/

namespace WebAssembly

/-! ## Constructs of a body

The positions of the ops that open and close each construct, by recursion on the tree in step with
the layout of its code.
-/

/-- A construct in flat code: what it leaves on the stack, and the positions of the op that opens it
and of the one that closes it. -/
structure Site where
  kind : Construct
  type : BlockType
  start : Nat
  stop : Nat
deriving DecidableEq

namespace Site

variable (c : Site)

/-- Number of values that a branch to it carries. A branch to a loop starts it over and carries
nothing. -/
def arity : Nat :=
  if c.kind = .loop then 0 else c.type.arity

/-- Types of these values. -/
def carried : List ValueType :=
  if c.kind = .loop then [] else c.type.results

/-- The number that a label holds is the number of values that a branch to it carries. -/
theorem arity_eq : c.arity = c.carried.length := by
  unfold arity carried
  split <;> rfl

/-- A branch to the end of a construct carries the results of the construct. -/
theorem carried_of_ne_loop {c : Site} (h : c.kind ≠ .loop) : c.carried = c.type.results :=
  if_neg h

/-- Where a branch to it goes on: behind it, or at the op that opens it if it is a loop. -/
def cont : Nat :=
  if c.kind = .loop then c.start else c.stop + 1

/-- A branch to a construct other than a loop goes on behind its closing op. -/
theorem cont_of_ne_loop {c : Site} (h : c.kind ≠ .loop) : c.cont = c.stop + 1 :=
  if_neg h

/-- It has been entered at this position, and not been left. -/
def Encloses (pc : Nat) : Prop :=
  c.start < pc ∧ pc ≤ c.stop

instance (pc : Nat) : Decidable (c.Encloses pc) :=
  inferInstanceAs (Decidable (_ ∧ _))

/-- The label that it gets when it is entered with the stack at some height. -/
def label (height : Nat) : Label :=
  ⟨c.kind, c.arity, height, c.cont⟩

end Site

/-- The label is one of this construct. -/
def Label.Of (label : Label) (c : Site) : Prop :=
  label = c.label label.height

mutual

/-- The constructs in an instruction that starts at position `p`, in the order in which they are
opened. -/
def Instruction.sites (p : Nat) : Instruction → List Site
  | .block type body => ⟨.block, type, p, p + 1 + Expr.opCount body⟩ :: Expr.sites (p + 1) body
  | .loop type body => ⟨.loop, type, p, p + 1 + Expr.opCount body⟩ :: Expr.sites (p + 1) body
  | .ifElse type thenBody elseBody =>
    let otherwise := p + 1 + Expr.opCount thenBody
    ⟨.ifElse, type, p, otherwise + 1 + Expr.opCount elseBody⟩ ::
      (Expr.sites (p + 1) thenBody ++ Expr.sites (otherwise + 1) elseBody)
  | _ => []

/-- The constructs in a sequence that starts at position `p`, in the order in which they are
opened. -/
def Expr.sites (p : Nat) : List Instruction → List Site
  | [] => []
  | i :: is => Instruction.sites p i ++ Expr.sites (p + Instruction.opCount i) is

end

/-- Those among the constructs `cs` that are around a position. -/
def enclosing (cs : List Site) (pc : Nat) : List Site :=
  cs.filter (·.Encloses pc)

/-- What encloses a position is found in each of two lists by itself. -/
theorem enclosing_append (cs ds : List Site) (pc : Nat) :
    enclosing (cs ++ ds) pc = enclosing cs pc ++ enclosing ds pc :=
  List.filter_append ..

/-- A construct around the position counts before those in it. -/
theorem enclosing_inside {c : Site} {pc : Nat} (h : c.Encloses pc) (cs : List Site) :
    enclosing (c :: cs) pc = c :: enclosing cs pc :=
  List.filter_cons_of_pos (by simpa using h)

/-- All constructs lie in the code from `lo` up to `hi`. -/
def Spans (lo hi : Nat) (cs : List Site) : Prop :=
  ∀ c ∈ cs, lo ≤ c.start ∧ c.start < c.stop ∧ c.stop < hi

/-- No construct is around a position where none has been opened, or where all have been closed. -/
theorem Spans.enclosing_eq_nil {lo hi pc : Nat} {cs : List Site} (h : Spans lo hi cs)
    (hpc : pc ≤ lo ∨ hi ≤ pc) : enclosing cs pc = [] := by
  refine List.filter_eq_nil_iff.mpr fun c hc henc => ?_
  have hspan := h c hc
  obtain ⟨hstart, hstop⟩ := of_decide_eq_true henc
  omega

/-- Branches to a construct stay in the range that the construct spans, or go to the place behind
it. -/
theorem Spans.cont {lo hi : Nat} {cs : List Site} (h : Spans lo hi cs) {c : Site} (hc : c ∈ cs) :
    lo ≤ c.cont ∧ c.cont ≤ hi := by
  have hspan := h c hc
  unfold Site.cont
  split <;> omega

/-- Constructs of two stretches of code span both stretches together. -/
theorem Spans.append {lo lo' hi hi' : Nat} {cs ds : List Site} (hcs : Spans lo hi cs)
    (hds : Spans lo' hi' ds) (hlo : lo ≤ lo') (hhi : hi ≤ hi') : Spans lo hi' (cs ++ ds) := by
  intro c hc
  rcases List.mem_append.mp hc with hc | hc
  · have hspan := hcs c hc
    omega
  · have hspan := hds c hc
    omega

/-- A construct takes up more than its body does. -/
theorem Spans.construct {p q : Nat} {kind : Construct} {type : BlockType} {cs : List Site}
    (h : Spans (p + 1) q cs) (hpq : p < q) : Spans p (q + 1) (⟨kind, type, p, q⟩ :: cs) := by
  intro c hc
  rcases List.mem_cons.mp hc with rfl | hc
  · exact ⟨Nat.le_refl p, hpq, Nat.lt_succ_self q⟩
  · have hspan := h c hc
    omega

/-! ## Code and its constructs

`Bracketed` is the shape of code that was laid out: pieces one after the other, and pieces inside of
a pair of ops. It forgets everything else about the tree.
-/

/-- The ops from `lo` up to `hi` are pieces of code one behind the other, whose constructs are
`cs`. -/
inductive Bracketed (ops : Array Op) : Nat → Nat → List Site → Prop
  | nil {p : Nat} : Bracketed ops p p []
  | instr {p : Nat} {i : Instruction} : ops[p]? = some (.instr i) → Bracketed ops p (p + 1) []
  | append {p q r : Nat} {cs ds : List Site} :
      Bracketed ops p q cs → Bracketed ops q r ds → Bracketed ops p r (cs ++ ds)
  | block {p q : Nat} {type : BlockType} {cs : List Site} :
      ops[p]? = some (.block type.arity q) → Bracketed ops (p + 1) q cs →
      ops[q]? = some .close → Bracketed ops p (q + 1) (⟨.block, type, p, q⟩ :: cs)
  | loop {p q : Nat} {type : BlockType} {cs : List Site} :
      ops[p]? = some .loop → Bracketed ops (p + 1) q cs →
      ops[q]? = some .close → Bracketed ops p (q + 1) (⟨.loop, type, p, q⟩ :: cs)
  | ifElse {p q r : Nat} {type : BlockType} {cs ds : List Site} :
      ops[p]? = some (.ifElse type.arity r q) → Bracketed ops (p + 1) r cs →
      ops[r]? = some (.skip q) → Bracketed ops (r + 1) q ds →
      ops[q]? = some .close → Bracketed ops p (q + 1) (⟨.ifElse, type, p, q⟩ :: (cs ++ ds))

mutual

/-- The ops of an instruction are bracketed by the constructs in it. -/
theorem Instruction.bracketed {ops : Array Op} (i : Instruction) {p : Nat}
    (h : StandAt ops p (Instruction.layout p i)) :
    Bracketed ops p (p + Instruction.opCount i) (Instruction.sites p i) := by
  cases i with
  | block type body =>
      obtain ⟨hopen, hbody, hclose⟩ := standAt_block.mp h
      rw [Instruction.sites, show p + Instruction.opCount (.block type body) =
        p + 1 + Expr.opCount body + 1 by rw [Instruction.opCount]; omega]
      exact .block hopen (Expr.bracketed body hbody) hclose
  | loop type body =>
      obtain ⟨hopen, hbody, hclose⟩ := standAt_loop.mp h
      rw [Instruction.sites, show p + Instruction.opCount (.loop type body) =
        p + 1 + Expr.opCount body + 1 by rw [Instruction.opCount]; omega]
      exact .loop hopen (Expr.bracketed body hbody) hclose
  | ifElse type thenBody elseBody =>
      obtain ⟨hopen, hthen, hskip, helse, hclose⟩ := standAt_ifElse.mp h
      rw [Instruction.sites, show p + Instruction.opCount (.ifElse type thenBody elseBody) =
        p + 1 + Expr.opCount thenBody + 1 + Expr.opCount elseBody + 1 by
          rw [Instruction.opCount]; omega]
      exact .ifElse hopen (Expr.bracketed thenBody hthen) hskip (Expr.bracketed elseBody helse)
        hclose
  | _ => exact .instr h.1

/-- The constructs of a body bracket the ops that it is laid out as. -/
theorem Expr.bracketed {ops : Array Op} (is : List Instruction) {p : Nat}
    (h : StandAt ops p (Expr.layout p is)) :
    Bracketed ops p (p + Expr.opCount is) (Expr.sites p is) := by
  cases is with
  | nil => exact .nil
  | cons i is =>
      obtain ⟨hfirst, hrest⟩ := standAt_cons.mp h
      rw [Expr.sites, Expr.opCount, ← Nat.add_assoc]
      exact .append (Instruction.bracketed i hfirst) (Expr.bracketed is hrest)

end

/-- The ops of code are bracketed by the constructs of its body, from the first op to the last. -/
theorem bracketed_compile (locals : List ValueType) (body : Expr) :
    Bracketed (Code.compile locals body).ops 0 (Code.compile locals body).ops.size
      (Expr.sites 0 body) := by
  have h := Expr.bracketed body (standAt_compile locals body)
  rwa [Nat.zero_add, ← size_ops_compile locals] at h

namespace Bracketed

variable {ops : Array Op} {lo hi : Nat} {cs : List Site}

/-- A bracketed stretch runs forwards. -/
theorem le (h : Bracketed ops lo hi cs) : lo ≤ hi := by
  induction h with
  | nil => exact Nat.le_refl _
  | instr _ => omega
  | append _ _ ih ih' => omega
  | block _ _ _ ih => omega
  | loop _ _ _ ih => omega
  | ifElse _ _ _ _ _ ih ih' => omega

/-- The constructs of a bracketed stretch lie inside it. -/
theorem spans (h : Bracketed ops lo hi cs) : Spans lo hi cs := by
  induction h with
  | nil => exact nofun
  | instr _ => exact nofun
  | append h h' ih ih' => exact ih.append ih' h.le h'.le
  | block _ h _ ih => exact ih.construct h.le
  | loop _ h _ ih => exact ih.construct h.le
  | ifElse _ h _ h' _ ih ih' =>
      have hle := h.le
      have hle' := h'.le
      exact (ih.append ih' (by omega) (by omega)).construct (by omega)

end Bracketed

/-! ## Where ops go

Each op says where the next one is taken from. What has to be shown is which constructs are around
that place, given those around the op.
-/

/-- What an op at `pc` makes of the constructs around the position: each of the places where it may
go on, `hi` at most, has the right ones around it. -/
def Op.Moves (cs : List Site) (hi pc : Nat) : Op → Prop
  | .instr _ => enclosing cs (pc + 1) = enclosing cs pc
  | .block arity stop =>
    ∃ type : BlockType, type.arity = arity ∧
      enclosing cs (pc + 1) = enclosing cs pc ++ [⟨.block, type, pc, stop⟩]
  | .loop =>
    ∃ type stop, enclosing cs (pc + 1) = enclosing cs pc ++ [⟨.loop, type, pc, stop⟩]
  | .ifElse arity otherwise stop =>
    ∃ type : BlockType, type.arity = arity ∧ pc ≤ otherwise ∧ otherwise < hi ∧
      enclosing cs (pc + 1) = enclosing cs pc ++ [⟨.ifElse, type, pc, stop⟩] ∧
      enclosing cs (otherwise + 1) = enclosing cs pc ++ [⟨.ifElse, type, pc, stop⟩]
  | .skip stop => pc ≤ stop ∧ stop ≤ hi ∧ enclosing cs stop = enclosing cs pc
  | .close => ∃ c, c.stop = pc ∧ enclosing cs pc = enclosing cs (pc + 1) ++ [c]

/-- Moves inside of a piece of code are moves of the code around it, which has the constructs
`outer` around the whole piece. -/
theorem Op.Moves.widen {cs ds : List Site} {hi top pc : Nat} {o : Op} (h : o.Moves cs hi pc)
    (outer : List Site) (lo : Nat) (hlo : lo ≤ pc) (hhi : pc < hi) (htop : hi ≤ top)
    (hds : ∀ q, lo ≤ q → q ≤ hi → enclosing ds q = outer ++ enclosing cs q) :
    o.Moves ds top pc := by
  have hhere := hds pc hlo (by omega)
  have hnext := hds (pc + 1) (by omega) (by omega)
  cases o with
  | instr i =>
      show enclosing ds (pc + 1) = enclosing ds pc
      rw [hnext, hhere, show enclosing cs (pc + 1) = _ from h]
  | block arity stop =>
      obtain ⟨type, harity, hinto⟩ := h
      exact ⟨type, harity, by rw [hnext, hhere, hinto, List.append_assoc]⟩
  | loop =>
      obtain ⟨type, stop, hinto⟩ := h
      exact ⟨type, stop, by rw [hnext, hhere, hinto, List.append_assoc]⟩
  | ifElse arity otherwise stop =>
      obtain ⟨type, harity, hle, hlt, hinto, hother⟩ := h
      have hjump := hds (otherwise + 1) (by omega) (by omega)
      exact ⟨type, harity, hle, by omega, by rw [hnext, hhere, hinto, List.append_assoc],
        by rw [hjump, hhere, hother, List.append_assoc]⟩
  | skip stop =>
      obtain ⟨hle, hle', hsame⟩ := h
      have hjump := hds stop (by omega) hle'
      exact ⟨hle, by omega, by rw [hjump, hhere, hsame]⟩
  | close =>
      obtain ⟨c, hstop, hout⟩ := h
      exact ⟨c, hstop, by rw [hnext, hhere, hout, List.append_assoc]⟩

section Construct

variable {p q pc : Nat} {kind : Construct} {type : BlockType} {cs : List Site} {o : Op}

/-- Inside a construct, that construct is the outermost of all that enclose a position. -/
theorem enclosing_construct (hlo : p < pc) (hhi : pc ≤ q) :
    enclosing (⟨kind, type, p, q⟩ :: cs) pc = ⟨kind, type, p, q⟩ :: enclosing cs pc :=
  enclosing_inside ⟨hlo, hhi⟩ cs

/-- Nothing is around the op that opens a construct, and this construct is around the next one. -/
theorem enclosing_open (hpq : p < q) (hcs : Spans (p + 1) q cs) :
    enclosing (⟨kind, type, p, q⟩ :: cs) (p + 1) =
      enclosing (⟨kind, type, p, q⟩ :: cs) p ++ [⟨kind, type, p, q⟩] := by
  rw [(hcs.construct hpq).enclosing_eq_nil (.inl (Nat.le_refl p)),
    enclosing_construct (Nat.lt_succ_self p) hpq, hcs.enclosing_eq_nil (.inl (Nat.le_refl _))]
  rfl

/-- The op that closes a construct leaves this construct and no other. -/
theorem moves_close (hpq : p < q) (hcs : Spans (p + 1) q cs) :
    Op.close.Moves (⟨kind, type, p, q⟩ :: cs) (q + 1) q := by
  refine ⟨⟨kind, type, p, q⟩, rfl, ?_⟩
  rw [(hcs.construct hpq).enclosing_eq_nil (.inr (Nat.le_refl _)),
    enclosing_construct hpq (Nat.le_refl q), hcs.enclosing_eq_nil (.inr (Nat.le_refl q))]
  rfl

/-- In a construct, all is well if it is so at the op that opens it and in its body. -/
theorem moves_construct (hpq : p < q) (hcs : Spans (p + 1) q cs) (hlo : p ≤ pc) (hhi : pc < q + 1)
    (hopen : pc = p → o.Moves (⟨kind, type, p, q⟩ :: cs) (q + 1) pc)
    (hbody : p < pc → pc < q → o.Moves cs q pc) (hclose : pc = q → o = .close) :
    o.Moves (⟨kind, type, p, q⟩ :: cs) (q + 1) pc := by
  rcases Nat.eq_or_lt_of_le hlo with heq | hlo
  · exact hopen heq.symm
  rcases Nat.eq_or_lt_of_le (Nat.le_of_lt_succ hhi) with rfl | hhi
  · obtain rfl := hclose rfl
    exact moves_close hpq hcs
  · exact (hbody hlo hhi).widen [⟨kind, type, p, q⟩] (p + 1) hlo hhi (Nat.le_succ q)
      fun _ hlo hhi => enclosing_construct hlo hhi

end Construct

/-- An op in a first stretch moves as it does when a second stretch follows, which none of its
positions lie in. -/
theorem moves_append_left {p q r s pc : Nat} {cs ds : List Site} {o : Op} (h : o.Moves cs q pc)
    (hds : Spans r s ds) (hlo : p ≤ pc) (hhi : pc < q) (hqr : q ≤ r) (hrs : r ≤ s) :
    o.Moves (cs ++ ds) s pc :=
  h.widen [] p hlo hhi (by omega) fun k _ hk => by
    rw [enclosing_append, hds.enclosing_eq_nil (.inl (by omega)), List.append_nil, List.nil_append]

/-- An op in a second stretch moves as it does when a first stretch is in front of it. -/
theorem moves_append_right {p q r s pc : Nat} {cs ds : List Site} {o : Op} (h : o.Moves ds s pc)
    (hcs : Spans p q cs) (hlo : r ≤ pc) (hhi : pc < s) (hqr : q ≤ r) :
    o.Moves (cs ++ ds) s pc :=
  h.widen [] r hlo hhi (Nat.le_refl s) fun k hk _ => by
    rw [enclosing_append, hcs.enclosing_eq_nil (.inr (by omega))]

/-- Each op goes into, out of or along the constructs around it as it should. -/
theorem Bracketed.moves {ops : Array Op} {lo hi : Nat} {cs : List Site}
    (h : Bracketed ops lo hi cs) {pc : Nat} {o : Op} (hlo : lo ≤ pc) (hhi : pc < hi)
    (hop : ops[pc]? = some o) : o.Moves cs hi pc := by
  -- an op that stands at a known position is the op that was laid out there
  have hthe : ∀ {k : Nat} {o' : Op}, ops[k]? = some o' → pc = k → o = o' := by
    rintro k o' hk rfl
    exact Option.some.inj (hop.symm.trans hk)
  induction h with
  | nil => omega
  | @instr p i hinstr =>
      obtain rfl : pc = p := by omega
      obtain rfl := hthe hinstr rfl
      exact rfl
  | @append p q r cs ds h h' ih ih' =>
      by_cases hpc : pc < q
      · exact moves_append_left (ih hlo hpc) h'.spans hlo hpc (Nat.le_refl q) h'.le
      · exact moves_append_right (ih' (by omega) hhi) h.spans (by omega) hhi (Nat.le_refl q)
  | @block p q type cs hopen h hclose ih =>
      refine moves_construct h.le h.spans hlo hhi ?_ ih (hthe hclose)
      rintro rfl
      obtain rfl := hthe hopen rfl
      exact ⟨type, rfl, enclosing_open h.le h.spans⟩
  | @loop p q type cs hopen h hclose ih =>
      refine moves_construct h.le h.spans hlo hhi ?_ ih (hthe hclose)
      rintro rfl
      obtain rfl := hthe hopen rfl
      exact ⟨type, q, enclosing_open h.le h.spans⟩
  | @ifElse p q r type cs ds hopen h hskip h' hclose ih ih' =>
      have hle := h.le
      have hle' := h'.le
      have hbodies : Spans (p + 1) q (cs ++ ds) := h.spans.append h'.spans (by omega) (by omega)
      -- the op between the two bodies stands in neither of them
      have hbetween : ∀ {k : Nat}, r ≤ k → k ≤ r + 1 ∨ q ≤ k → enclosing (cs ++ ds) k = [] := by
        intro k hr hk
        rw [enclosing_append, h.spans.enclosing_eq_nil (.inr hr), h'.spans.enclosing_eq_nil hk]
        rfl
      refine moves_construct (by omega) hbodies hlo hhi ?_ ?_ (hthe hclose)
      · rintro rfl
        obtain rfl := hthe hopen rfl
        refine ⟨type, rfl, by omega, by omega, enclosing_open (by omega) hbodies, ?_⟩
        rw [(hbodies.construct (by omega)).enclosing_eq_nil (.inl (Nat.le_refl pc)),
          enclosing_construct (by omega) hle', hbetween (Nat.le_succ r) (.inl (Nat.le_refl _))]
        rfl
      · intro hlo hhi
        rcases Nat.lt_trichotomy pc r with hpc | rfl | hpc
        · exact moves_append_left (ih hlo hpc) h'.spans hlo hpc (Nat.le_succ r) hle'
        · obtain rfl := hthe hskip rfl
          refine ⟨by omega, Nat.le_refl q, ?_⟩
          rw [hbetween (by omega) (.inr (Nat.le_refl q)),
            hbetween (Nat.le_refl pc) (.inl (Nat.le_succ pc))]
        · exact moves_append_right (ih' hpc hhi) h.spans hpc hhi (Nat.le_succ r)

/-! ## Where constructs end

At the op that closes a construct this construct is the innermost one around, so the topmost label
is its own.
-/

/-- The constructs around the ends of a construct: those around the construct itself are left where
a branch to it goes on, and it is the innermost one at the op that closes it. -/
structure Nested (cs : List Site) : Prop where
  cont : ∀ {pc : Nat} {outer inner : List Site} {c : Site},
    enclosing cs pc = outer ++ c :: inner → enclosing cs c.cont = outer
  last : ∀ {c : Site}, c ∈ cs → ∃ outer, enclosing cs c.stop = outer ++ [c]

namespace Nested

/-- Without constructs there is nothing to be nested wrongly. -/
theorem nil : Nested [] where
  cont h := by simp [enclosing] at h
  last := nofun

/-- What encloses a position is one of the constructs. -/
theorem mem_of_enclosing {cs outer inner : List Site} {c : Site} {pc : Nat}
    (h : enclosing cs pc = outer ++ c :: inner) : c ∈ cs := by
  have hc : c ∈ enclosing cs pc := by simp [h]
  exact List.mem_of_mem_filter hc

/-- Constructs of two stretches, one behind the other, do not enclose the same positions, so that
they are nested together if they are each. -/
theorem append {p q r s : Nat} {cs ds : List Site} (hcs : Nested cs) (hds : Nested ds)
    (hleft : Spans p q cs) (hright : Spans r s ds) (hqr : q ≤ r) : Nested (cs ++ ds) where
  cont := by
    intro pc outer inner c h
    rw [enclosing_append] at h ⊢
    -- only one of the two has constructs around `pc`, and a branch does not leave it
    rcases Nat.lt_or_ge pc q with hpc | hpc
    · rw [hright.enclosing_eq_nil (.inl (by omega)), List.append_nil] at h
      have hcont := hleft.cont (mem_of_enclosing h)
      rw [hright.enclosing_eq_nil (.inl (by omega)), List.append_nil, hcs.cont h]
    · rw [hleft.enclosing_eq_nil (.inr hpc), List.nil_append] at h
      have hcont := hright.cont (mem_of_enclosing h)
      rw [hleft.enclosing_eq_nil (.inr (by omega)), List.nil_append, hds.cont h]
  last := by
    intro c hc
    rw [enclosing_append]
    rcases List.mem_append.mp hc with hc | hc
    · have hspan := hleft c hc
      rw [hright.enclosing_eq_nil (.inl (by omega)), List.append_nil]
      exact hcs.last hc
    · have hspan := hright c hc
      rw [hleft.enclosing_eq_nil (.inr (by omega)), List.nil_append]
      exact hds.last hc

/-- A construct around nested ones is nested with them: it encloses each position that one of them
does, and comes first. -/
theorem construct {p q : Nat} {kind : Construct} {type : BlockType} {cs : List Site}
    (hcs : Nested cs) (hspans : Spans (p + 1) q cs) (hpq : p < q) :
    Nested (⟨kind, type, p, q⟩ :: cs) where
  cont := by
    intro pc outer inner c h
    have hall : Spans p (q + 1) (⟨kind, type, p, q⟩ :: cs) := hspans.construct hpq
    -- inside the new construct it comes first of all, outside nothing encloses the position
    by_cases hpc : p < pc ∧ pc ≤ q
    · rw [enclosing_construct hpc.1 hpc.2] at h
      cases outer with
      | nil =>
          obtain rfl := (List.cons.inj h).1
          refine hall.enclosing_eq_nil ?_
          unfold Site.cont
          split <;> simp
      | cons first outer =>
          obtain ⟨rfl, hinside⟩ := List.cons.inj h
          have hcont := hspans.cont (mem_of_enclosing hinside)
          rw [enclosing_construct (by omega) (by omega), hcs.cont hinside]
    · rw [hall.enclosing_eq_nil (by omega)] at h
      simp at h
  last := by
    intro c hc
    rcases List.mem_cons.mp hc with rfl | hc
    · exact ⟨[], by
        rw [enclosing_construct hpq (Nat.le_refl q), hspans.enclosing_eq_nil (.inr (Nat.le_refl q))]
        rfl⟩
    · have hspan := hspans c hc
      obtain ⟨outer, houter⟩ := hcs.last hc
      exact ⟨⟨kind, type, p, q⟩ :: outer, by
        rw [enclosing_construct (by omega) (by omega), houter, List.cons_append]⟩

end Nested

/-- The constructs of bracketed code are nested, by the shape of the code. -/
theorem Bracketed.nested {ops : Array Op} {lo hi : Nat} {cs : List Site}
    (h : Bracketed ops lo hi cs) : Nested cs := by
  induction h with
  | nil => exact .nil
  | instr _ => exact .nil
  | append h h' ih ih' => exact ih.append ih' h.spans h'.spans (Nat.le_refl _)
  | block _ h _ ih => exact ih.construct h.spans h.le
  | loop _ h _ ih => exact ih.construct h.spans h.le
  | ifElse _ h _ h' _ ih ih' =>
      have hle := h.le
      have hle' := h'.le
      exact (ih.append ih' h.spans h'.spans (Nat.le_succ _)).construct
        (h.spans.append h'.spans (by omega) (by omega)) (by omega)

/-! ## Depth

Constructs around a position are nested in each other, so there are no more of them than the tree is
deep.
-/

/-- Of two pieces of code one behind the other, at most one has constructs around a position. -/
theorem length_enclosing_append_le {p q r s : Nat} {cs ds : List Site} (hcs : Spans p q cs)
    (hds : Spans r s ds) (hqr : q ≤ r) (pc : Nat) :
    (enclosing (cs ++ ds) pc).length ≤
      max (enclosing cs pc).length (enclosing ds pc).length := by
  rw [enclosing_append, List.length_append]
  rcases Nat.lt_or_ge pc q with hpc | hpc
  · rw [hds.enclosing_eq_nil (.inl (by omega))]
    simp
  · rw [hcs.enclosing_eq_nil (.inr hpc)]
    simp

/-- One more construct encloses a position at most once more. -/
theorem length_enclosing_cons_le (c : Site) (cs : List Site) (pc : Nat) :
    (enclosing (c :: cs) pc).length ≤ (enclosing cs pc).length + 1 := by
  unfold enclosing
  rw [List.filter_cons]
  split <;> simp

mutual

/-- No position in an instruction is enclosed more often than the instruction is nested deep. -/
theorem Instruction.length_enclosing_le {ops : Array Op} (i : Instruction) {p : Nat}
    (h : StandAt ops p (Instruction.layout p i)) (pc : Nat) :
    (enclosing (Instruction.sites p i) pc).length ≤ Instruction.nesting i := by
  -- one more level for each construct; of the two bodies of an `if` only one can be around the
  -- position
  cases i with
  | block type body =>
      obtain ⟨-, hbody, -⟩ := standAt_block.mp h
      rw [Instruction.sites, Instruction.nesting]
      exact Nat.le_trans (length_enclosing_cons_le ..)
        (Nat.succ_le_succ (Expr.length_enclosing_le body hbody pc))
  | loop type body =>
      obtain ⟨-, hbody, -⟩ := standAt_loop.mp h
      rw [Instruction.sites, Instruction.nesting]
      exact Nat.le_trans (length_enclosing_cons_le ..)
        (Nat.succ_le_succ (Expr.length_enclosing_le body hbody pc))
  | ifElse type thenBody elseBody =>
      obtain ⟨-, hthen, -, helse, -⟩ := standAt_ifElse.mp h
      have hboth := length_enclosing_append_le (Expr.bracketed thenBody hthen).spans
        (Expr.bracketed elseBody helse).spans (Nat.le_succ _) pc
      have hthen := Expr.length_enclosing_le thenBody hthen pc
      have helse := Expr.length_enclosing_le elseBody helse pc
      rw [Instruction.sites, Instruction.nesting]
      refine Nat.le_trans (length_enclosing_cons_le ..) (Nat.succ_le_succ ?_)
      omega
  | _ => exact Nat.zero_le _

/-- No position has more constructs around it than the body has levels. -/
theorem Expr.length_enclosing_le {ops : Array Op} (is : List Instruction) {p : Nat}
    (h : StandAt ops p (Expr.layout p is)) (pc : Nat) :
    (enclosing (Expr.sites p is) pc).length ≤ Expr.nesting is := by
  cases is with
  | nil => exact Nat.zero_le _
  | cons i is =>
      obtain ⟨hfirst, hrest⟩ := standAt_cons.mp h
      have hboth := length_enclosing_append_le (Instruction.bracketed i hfirst).spans
        (Expr.bracketed is hrest).spans (Nat.le_refl _) pc
      have hfirst := Instruction.length_enclosing_le i hfirst pc
      have hrest := Expr.length_enclosing_le is hrest pc
      rw [Expr.sites, Expr.nesting]
      omega

end

/-! ## Sequences and their constructs

A sequence at a position brings its constructs with it. This is how typing, which goes along
sequences, meets positions.
-/

/-- A sequence stands at position `p` of the code, and its constructs are among `cs`. -/
structure Expr.Stands (ops : Array Op) (cs : List Site) (p : Nat) (is : List Instruction) :
    Prop where
  standAt : StandAt ops p (Expr.layout p is)
  sites : Expr.sites p is ⊆ cs

namespace Expr.Stands

variable {ops : Array Op} {cs : List Site} {p : Nat} {i : Instruction} {is : List Instruction}

/-- An empty sequence stands everywhere. -/
theorem nil : Expr.Stands ops cs p [] :=
  ⟨trivial, List.nil_subset cs⟩

/-- The first instruction of a sequence stands where the sequence does. -/
theorem head (h : Expr.Stands ops cs p (i :: is)) : StandAt ops p (Instruction.layout p i) :=
  (standAt_cons.mp h.standAt).1

/-- Its constructs are among those of the sequence. -/
theorem head_sites (h : Expr.Stands ops cs p (i :: is)) : Instruction.sites p i ⊆ cs := by
  have hsites := h.sites
  rw [Expr.sites] at hsites
  exact (List.append_subset.mp hsites).1

/-- What follows stands behind the ops of the first instruction. -/
theorem tail (h : Expr.Stands ops cs p (i :: is)) :
    Expr.Stands ops cs (p + Instruction.opCount i) is := by
  have hsites := h.sites
  rw [Expr.sites] at hsites
  exact ⟨(standAt_cons.mp h.standAt).2, (List.append_subset.mp hsites).2⟩

/-- Inside a `block` stands its body, one position further on, and the block is among the
constructs. -/
theorem block {type : BlockType} {body : List Instruction}
    (h : Expr.Stands ops cs p (.block type body :: is)) :
    ⟨.block, type, p, p + 1 + Expr.opCount body⟩ ∈ cs ∧ Expr.Stands ops cs (p + 1) body := by
  have hsites := h.head_sites
  rw [Instruction.sites] at hsites
  obtain ⟨hmem, hbody⟩ := List.cons_subset.mp hsites
  exact ⟨hmem, (standAt_block.mp h.head).2.1, hbody⟩

/-- Inside a `loop` stands its body, one position further on. -/
theorem loop {type : BlockType} {body : List Instruction}
    (h : Expr.Stands ops cs p (.loop type body :: is)) :
    ⟨.loop, type, p, p + 1 + Expr.opCount body⟩ ∈ cs ∧ Expr.Stands ops cs (p + 1) body := by
  have hsites := h.head_sites
  rw [Instruction.sites] at hsites
  obtain ⟨hmem, hbody⟩ := List.cons_subset.mp hsites
  exact ⟨hmem, (standAt_loop.mp h.head).2.1, hbody⟩

/-- Inside an `if` stand both bodies, the second one behind the op that skips it. -/
theorem ifElse {type : BlockType} {thenBody elseBody : List Instruction}
    (h : Expr.Stands ops cs p (.ifElse type thenBody elseBody :: is)) :
    ⟨.ifElse, type, p, p + 1 + Expr.opCount thenBody + 1 + Expr.opCount elseBody⟩ ∈ cs ∧
      Expr.Stands ops cs (p + 1) thenBody ∧
      Expr.Stands ops cs (p + 1 + Expr.opCount thenBody + 1) elseBody := by
  have hsites := h.head_sites
  rw [Instruction.sites] at hsites
  obtain ⟨hmem, hbodies⟩ := List.cons_subset.mp hsites
  obtain ⟨hthen, helse⟩ := List.append_subset.mp hbodies
  obtain ⟨-, hthenStand, -, helseStand, -⟩ := standAt_ifElse.mp h.head
  exact ⟨hmem, ⟨hthenStand, hthen⟩, ⟨helseStand, helse⟩⟩

end Expr.Stands

/-- In the code of a body stands the body. -/
theorem stands_compile (locals : List ValueType) (body : Expr) :
    Expr.Stands (Code.compile locals body).ops (Expr.sites 0 body) 0 body :=
  ⟨standAt_compile locals body, List.Subset.refl _⟩

end WebAssembly
