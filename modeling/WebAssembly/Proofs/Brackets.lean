import Mathlib.Algebra.Ring.Int.Defs
import WebAssembly.Proofs.Nesting

/-!
# Flat code and the tree that it was laid out from

Flat code refers to the ends of its constructs by position, and a wrong position would lead into
the middle of another construct. Here the ops alone say which one closes which: it is the first one
behind which no more constructs are open than were in front of the op that opens (`Matching`). The
positions in laid out code are those (`WellBracketed`), they move with the code (`Expr.flatten_eq`),
and they are not even needed to read the tree back (`Expr.read_layout`). What is not there any
more is the type of a loop, and of a block's or an `if`'s type all but the number of results.
-/

namespace WebAssembly

/-! ## Matching ops

Which op closes which is a matter of counting: going forwards from an op that opens a construct, the
count of open ones first comes back to where it was at the op that closes it.
-/

/-- What an op adds to the number of open constructs. -/
def Op.weight : Op → Int
  | .block _ _ => 1
  | .loop => 1
  | .ifElse _ _ _ => 1
  | .skip _ => 0
  | .close => -1
  | .instr _ => 0

/-- Number of constructs that are open in front of position `n`. -/
def openAt (ops : Array Op) (n : Nat) : Int :=
  ((ops.toList.take n).map Op.weight).sum

/-- The op at `q` closes the construct that the one at `p` opens: up to it the construct is open,
and behind it nothing is open that was not so in front of the construct. -/
structure Matching (ops : Array Op) (p q : Nat) : Prop where
  lt : p < q
  close : ops[q]? = some .close
  inside : ∀ r, p < r → r ≤ q → openAt ops p < openAt ops r
  behind : openAt ops (q + 1) = openAt ops p

/-- A construct takes up the ops from `p` to `q`: by the position that the op at `p` refers to, or,
for a loop, which refers to none, by the op that closes it. -/
inductive Spanned (ops : Array Op) (p q : Nat) : Prop
  | block {arity : Nat} : ops[p]? = some (.block arity q) → Spanned ops p q
  | loop : ops[p]? = some .loop → Matching ops p q → Spanned ops p q
  | ifElse {arity r : Nat} : ops[p]? = some (.ifElse arity r q) → Spanned ops p q

/-- An instruction that holds no instructions. -/
def Instruction.Bodiless : Instruction → Prop
  | .block _ _ => False
  | .loop _ _ => False
  | .ifElse _ _ _ => False
  | _ => True

/-- Every op that opens or closes a construct, or stands between the bodies of an `if`, has its
counterparts, and refers to just their positions. -/
structure WellBracketed (ops : Array Op) : Prop where
  block : ∀ {p q arity : Nat}, ops[p]? = some (.block arity q) → Matching ops p q
  loop : ∀ {p : Nat}, ops[p]? = some .loop → ∃ q, Matching ops p q
  /-- Between the bodies of an `if` no construct in it is open. -/
  ifElse : ∀ {p q r arity : Nat}, ops[p]? = some (.ifElse arity r q) →
    p < r ∧ r < q ∧ ops[r]? = some (.skip q) ∧ openAt ops r = openAt ops p + 1 ∧ Matching ops p q
  skip : ∀ {q r : Nat}, ops[r]? = some (.skip q) →
    ∃ p arity : Nat, ops[p]? = some (.ifElse arity r q)
  close : ∀ {q : Nat}, ops[q]? = some .close → ∃ p, Spanned ops p q
  instr : ∀ {p : Nat} {i : Instruction}, ops[p]? = some (.instr i) → i.Bodiless
  /-- Of two constructs, the one that is opened later lies behind the other or inside it. -/
  apart : ∀ {p q p' q' : Nat}, Spanned ops p q → Spanned ops p' q' → p < p' → q < p' ∨ q' < q

section Matching

variable {ops : Array Op} {p q r : Nat}

/-- An op changes the number of open constructs by its weight. -/
theorem openAt_succ {n : Nat} {o : Op} (h : ops[n]? = some o) :
    openAt ops (n + 1) = openAt ops n + o.weight := by
  simp [openAt, List.take_add_one, h]

/-- Matching pairs do not cross. -/
theorem Matching.apart {p' q' : Nat} (h : Matching ops p q) (h' : Matching ops p' q')
    (hlt : p < p') : q < p' ∨ q' < q := by
  rcases Nat.lt_or_ge q p' with hbehind | hinside
  · exact .inl hbehind
  · right
    have hin := h.inside p' hlt hinside
    have hout := h.behind
    by_contra hcross
    rcases Nat.eq_or_lt_of_le (Nat.not_lt.mp hcross) with rfl | hlater
    · -- one op would close both, but then as many are open in front of either
      have hout' := h'.behind
      omega
    · -- behind `q` the inner construct would be open and the outer one not
      have hin' := h'.inside (q + 1) (by omega) hlater
      omega

/-- The ops from `lo` up to `hi` close what they open and nothing else. -/
structure Balanced (ops : Array Op) (lo hi : Nat) : Prop where
  le : lo ≤ hi
  settled : openAt ops hi = openAt ops lo
  above : ∀ r, lo ≤ r → r ≤ hi → openAt ops lo ≤ openAt ops r

namespace Balanced

/-- No ops are balanced. -/
theorem refl (n : Nat) : Balanced ops n n where
  le := Nat.le_refl n
  settled := rfl
  above r hlo hhi := by
    obtain rfl : r = n := by omega
    exact Int.le_refl _

/-- Balanced stretches of ops one behind the other make a balanced one. -/
theorem trans (h : Balanced ops p q) (h' : Balanced ops q r) : Balanced ops p r where
  le := Nat.le_trans h.le h'.le
  settled := h'.settled.trans h.settled
  above k hlo hhi := by
    have hsettled := h.settled
    rcases Nat.le_total k q with hk | hk
    · exact h.above k hlo hk
    · have habove := h'.above k hk hhi
      omega

/-- An op that opens and closes nothing is balanced by itself. -/
theorem step {n : Nat} {o : Op} (hop : ops[n]? = some o) (ho : o.weight = 0) :
    Balanced ops n (n + 1) where
  le := Nat.le_succ n
  settled := by rw [openAt_succ hop, ho, Int.add_zero]
  above k hlo hhi := by
    have hnext := openAt_succ hop
    obtain rfl | rfl : k = n ∨ k = n + 1 := by omega
    · exact Int.le_refl _
    · omega

variable {o : Op} (h : Balanced ops (p + 1) q) (hopen : ops[p]? = some o) (ho : o.weight = 1)
  (hclose : ops[q]? = some .close)
include h hopen ho hclose

/-- Between an op that opens and the `close` behind a balanced stretch, nothing closes too early. -/
theorem matching : Matching ops p q where
  lt := h.le
  close := hclose
  inside r hlo hhi := by
    have habove := h.above r hlo hhi
    have hin := openAt_succ hopen
    omega
  behind := by
    have hin := openAt_succ hopen
    have hout : openAt ops (q + 1) = openAt ops q + -1 := openAt_succ hclose
    have hsettled := h.settled
    omega

/-- A construct is balanced as a whole. -/
theorem construct : Balanced ops p (q + 1) where
  le := by
    have hle := h.le
    omega
  settled := (h.matching hopen ho hclose).behind
  above r hlo hhi := by
    have hmatch := h.matching hopen ho hclose
    obtain rfl | rfl | ⟨hlt, hin⟩ : r = p ∨ r = q + 1 ∨ (p < r ∧ r ≤ q) := by omega
    · exact Int.le_refl _
    · exact Int.le_of_eq hmatch.behind.symm
    · exact Int.le_of_lt (hmatch.inside r hlt hin)

end Balanced

end Matching

/-! ## Laid out code is bracketed

By induction on the tree. A block of ops with its own constructs closed can stand anywhere without
changing what matches around it.
-/

/-- The op at `pc` has its counterparts where it says. -/
def Op.Placed (ops : Array Op) (pc : Nat) : Op → Prop
  | .block _ stop => Matching ops pc stop
  | .loop => ∃ stop, Matching ops pc stop
  | .ifElse _ otherwise stop =>
    pc < otherwise ∧ otherwise < stop ∧ ops[otherwise]? = some (.skip stop) ∧
      openAt ops otherwise = openAt ops pc + 1 ∧ Matching ops pc stop
  | .skip stop => ∃ p arity : Nat, ops[p]? = some (.ifElse arity pc stop)
  | .close => ∃ p, Spanned ops p pc
  | .instr _ => True

namespace Bracketed

variable {ops : Array Op} {lo hi : Nat} {cs : List Site}

/-- A bracketed stretch of code is balanced, by its shape. -/
theorem balanced (h : Bracketed ops lo hi cs) : Balanced ops lo hi := by
  induction h with
  | nil => exact .refl _
  | instr hop => exact .step hop rfl
  | append _ _ ih ih' => exact ih.trans ih'
  | block hopen _ hclose ih => exact ih.construct hopen rfl hclose
  | loop hopen _ hclose ih => exact ih.construct hopen rfl hclose
  | ifElse hopen _ hskip _ hclose ih ih' =>
      exact (ih.trans ((Balanced.step hskip rfl).trans ih')).construct hopen rfl hclose

/-- By induction on the brackets. The statement about an op does not depend on the piece of code
that it is looked at in, so what holds in the bodies needs no widening. -/
theorem placed (h : Bracketed ops lo hi cs) {pc : Nat} {o : Op} (hlo : lo ≤ pc) (hhi : pc < hi)
    (hop : ops[pc]? = some o) : o.Placed ops pc := by
  have hthe : ∀ {k : Nat} {o' : Op}, ops[k]? = some o' → pc = k → o = o' := by
    rintro k o' hk rfl
    exact Option.some.inj (hop.symm.trans hk)
  induction h with
  | nil => omega
  | @instr p i hinstr =>
      obtain rfl := hthe hinstr (by omega)
      exact trivial
  | @append p q r cs ds h h' ih ih' =>
      rcases Nat.lt_or_ge pc q with hpc | hpc
      · exact ih hlo hpc
      · exact ih' hpc hhi
  | @block p q type cs hopen h hclose ih =>
      have hmatch := h.balanced.matching hopen rfl hclose
      obtain rfl | rfl | ⟨hlt, hin⟩ : pc = p ∨ pc = q ∨ (p < pc ∧ pc < q) := by omega
      · obtain rfl := hthe hopen rfl
        exact hmatch
      · obtain rfl := hthe hclose rfl
        exact ⟨p, .block hopen⟩
      · exact ih hlt hin
  | @loop p q type cs hopen h hclose ih =>
      have hmatch := h.balanced.matching hopen rfl hclose
      obtain rfl | rfl | ⟨hlt, hin⟩ : pc = p ∨ pc = q ∨ (p < pc ∧ pc < q) := by omega
      · obtain rfl := hthe hopen rfl
        exact ⟨q, hmatch⟩
      · obtain rfl := hthe hclose rfl
        exact ⟨p, .loop hopen hmatch⟩
      · exact ih hlt hin
  | @ifElse p q r type cs ds hopen h hskip h' hclose ih ih' =>
      have hbodies := h.balanced.trans ((Balanced.step hskip rfl).trans h'.balanced)
      have hmatch := hbodies.matching hopen rfl hclose
      have hle := h.le
      have hle' := h'.le
      obtain rfl | rfl | rfl | ⟨hlt, hfirst⟩ | ⟨hsecond, hin⟩ :
          pc = p ∨ pc = q ∨ pc = r ∨ (p < pc ∧ pc < r) ∨ (r < pc ∧ pc < q) := by omega
      · obtain rfl := hthe hopen rfl
        -- in front of the op between the bodies, the first body has closed what it opened
        have hbetween := h.balanced.settled.trans (openAt_succ hopen)
        exact ⟨hle, hle', hskip, hbetween, hmatch⟩
      · obtain rfl := hthe hclose rfl
        exact ⟨p, .ifElse hopen⟩
      · obtain rfl := hthe hskip rfl
        exact ⟨p, type.arity, hopen⟩
      · exact ih hlt hfirst
      · exact ih' hsecond hin

end Bracketed

mutual

/-- What the ops hold as instructions has no bodies: constructs are taken apart into ops of their
own. -/
theorem Instruction.bodiless_of_mem_layout (i : Instruction) {p : Nat} {j : Instruction}
    (h : .instr j ∈ Instruction.layout p i) : j.Bodiless := by
  cases i with
  | block type body =>
      simp only [Instruction.layout, List.mem_cons, List.mem_append, reduceCtorEq, false_or,
        List.not_mem_nil, or_false] at h
      exact Expr.bodiless_of_mem_layout body h
  | loop type body =>
      simp only [Instruction.layout, List.mem_cons, List.mem_append, reduceCtorEq, false_or,
        List.not_mem_nil, or_false] at h
      exact Expr.bodiless_of_mem_layout body h
  | ifElse type thenBody elseBody =>
      simp only [Instruction.layout, List.mem_cons, List.mem_append, reduceCtorEq, false_or,
        List.not_mem_nil, or_false] at h
      rcases h with h | h
      · exact Expr.bodiless_of_mem_layout thenBody h
      · exact Expr.bodiless_of_mem_layout elseBody h
  | _ =>
      obtain rfl := Op.instr.inj (List.mem_singleton.mp h)
      trivial

/-- No construct is left in an op. -/
theorem Expr.bodiless_of_mem_layout (is : List Instruction) {p : Nat} {j : Instruction}
    (h : .instr j ∈ Expr.layout p is) : j.Bodiless := by
  cases is with
  | nil => simp [Expr.layout] at h
  | cons i is =>
      rw [Expr.layout, List.mem_append] at h
      rcases h with h | h
      · exact Instruction.bodiless_of_mem_layout i h
      · exact Expr.bodiless_of_mem_layout is h

end

/-- The ops of code are the block of its body that starts at position 0. -/
theorem toList_ops_compile (locals : List ValueType) (body : Expr) :
    (Code.compile locals body).ops.toList = Expr.layout 0 body := by
  rw [Code.compile, Expr.toList_flatten]
  rfl

/-- Every op that opens a construct names the position at which that construct is closed. -/
theorem wellBracketed_compile (locals : List ValueType) (body : Expr) :
    WellBracketed (Code.compile locals body).ops := by
  have hplaced : ∀ {pc : Nat} {o : Op}, (Code.compile locals body).ops[pc]? = some o →
      o.Placed (Code.compile locals body).ops pc := fun hop =>
    (bracketed_compile locals body).placed (Nat.zero_le _) (Array.getElem?_eq_some_iff.mp hop).1 hop
  have hmatch : ∀ {p q : Nat}, Spanned (Code.compile locals body).ops p q →
      Matching (Code.compile locals body).ops p q := by
    -- each op that opens a construct belongs to a construct of the body, which tells where it is
    -- closed
    intro p q hspan
    rcases hspan with hop | ⟨-, hmatch⟩ | hop
    · exact hplaced hop
    · exact hmatch
    · exact (hplaced hop).2.2.2.2
  refine ⟨hplaced, hplaced, hplaced, hplaced, hplaced, fun {p i} hop => ?_, fun hspan hspan' =>
    (hmatch hspan).apart (hmatch hspan')⟩
  rw [← Array.getElem?_toList, toList_ops_compile] at hop
  exact Expr.bodiless_of_mem_layout body (List.mem_of_getElem? hop)

/-! ## Order and place of instructions

The ops that are not brackets are the instructions of the tree from left to right, and moving code
moves all positions in it by the same amount.
-/

/-- The instruction in an op. -/
def Op.instr? : Op → Option Instruction
  | .instr i => some i
  | _ => none

mutual

/-- The instructions without a body, in the order in which they are written. -/
def Instruction.leaves : Instruction → List Instruction
  | .block _ body => Expr.leaves body
  | .loop _ body => Expr.leaves body
  | .ifElse _ thenBody elseBody => Expr.leaves thenBody ++ Expr.leaves elseBody
  | i => [i]

/-- The instructions without a body in a sequence, in the order in which they are written. -/
def Expr.leaves : List Instruction → List Instruction
  | [] => []
  | i :: is => Instruction.leaves i ++ Expr.leaves is

end

mutual

/-- The instructions among the ops are the leaves of the tree, in their order. Nothing is lost and
nothing is doubled. -/
theorem Instruction.filterMap_layout (i : Instruction) (p : Nat) :
    (Instruction.layout p i).filterMap Op.instr? = Instruction.leaves i := by
  cases i with
  | block type body =>
      simp [Instruction.layout, Instruction.leaves, List.filterMap_cons, Op.instr?,
        Expr.filterMap_layout body]
  | loop type body =>
      simp [Instruction.layout, Instruction.leaves, List.filterMap_cons, Op.instr?,
        Expr.filterMap_layout body]
  | ifElse type thenBody elseBody =>
      simp [Instruction.layout, Instruction.leaves, List.filterMap_cons, Op.instr?,
        Expr.filterMap_layout thenBody, Expr.filterMap_layout elseBody]
  | _ => rfl

/-- The same of a sequence. -/
theorem Expr.filterMap_layout (is : List Instruction) (p : Nat) :
    (Expr.layout p is).filterMap Op.instr? = Expr.leaves is := by
  cases is with
  | nil => rfl
  | cons i is =>
      simp [Expr.layout, Expr.leaves, Instruction.filterMap_layout i, Expr.filterMap_layout is]

end

/-- An op that refers to positions `n` further on. -/
def Op.shift (n : Nat) : Op → Op
  | .block arity stop => .block arity (stop + n)
  | .ifElse arity otherwise stop => .ifElse arity (otherwise + n) (stop + n)
  | .skip stop => .skip (stop + n)
  | o => o

mutual

/-- Starting further on moves all positions in a block by the same distance and changes nothing
else. -/
theorem Instruction.layout_add (i : Instruction) (p n : Nat) :
    Instruction.layout (p + n) i = (Instruction.layout p i).map (Op.shift n) := by
  cases i with
  | block type body =>
      have hbody := Expr.layout_add body (p + 1) n
      rw [Nat.add_right_comm] at hbody
      simp [Instruction.layout, Op.shift, hbody]
      omega
  | loop type body =>
      have hbody := Expr.layout_add body (p + 1) n
      rw [Nat.add_right_comm] at hbody
      simp [Instruction.layout, Op.shift, hbody]
  | ifElse type thenBody elseBody =>
      have hthen := Expr.layout_add thenBody (p + 1) n
      have helse := Expr.layout_add elseBody (p + 1 + Expr.opCount thenBody + 1) n
      rw [Nat.add_right_comm] at hthen
      rw [show p + 1 + Expr.opCount thenBody + 1 + n = p + n + 1 + Expr.opCount thenBody + 1 by
        omega] at helse
      simp [Instruction.layout, Op.shift, hthen, helse]
      omega
  | _ => rfl

/-- All positions in a block of ops move with it. -/
theorem Expr.layout_add (is : List Instruction) (p n : Nat) :
    Expr.layout (p + n) is = (Expr.layout p is).map (Op.shift n) := by
  cases is with
  | nil => rfl
  | cons i is =>
      have hrest := Expr.layout_add is (p + Instruction.opCount i) n
      rw [Nat.add_right_comm] at hrest
      simp [Expr.layout, Instruction.layout_add i, hrest]

end

/-- Laying a body out behind other ops is laying it out alone and moving it there. The ops in front
stay as they are. -/
theorem Expr.flatten_eq (body : Expr) (before : Array Op) :
    Expr.flatten body before = before ++ (Expr.flatten body #[]).map (Op.shift before.size) := by
  have hshift := Expr.layout_add body 0 before.size
  rw [Nat.zero_add] at hshift
  apply Array.toList_inj.mp
  simp [Expr.toList_flatten, hshift]

/-! ## Reading the tree back

A reader that keeps a stack of open constructs gets the tree back from the ops. It never looks at a
position, so the positions say nothing that the order of the ops does not.
-/

/-- What is left of an instruction in flat code. -/
inductive Shape where
  | instr (i : Instruction)
  | block (arity : Nat) (body : List Shape)
  | loop (body : List Shape)
  | ifElse (arity : Nat) (thenBody elseBody : List Shape)

mutual

/-- The shape of an instruction: of the type of a block or `if` the number of results, and nothing
of the type of a loop. -/
def Instruction.shape : Instruction → Shape
  | .block type body => .block type.arity (Expr.shapes body)
  | .loop _ body => .loop (Expr.shapes body)
  | .ifElse type thenBody elseBody =>
    .ifElse type.arity (Expr.shapes thenBody) (Expr.shapes elseBody)
  | i => .instr i

/-- The shapes of the instructions of a sequence. -/
def Expr.shapes : List Instruction → List Shape
  | [] => []
  | i :: is => Instruction.shape i :: Expr.shapes is

end

namespace Shape

/-- A construct that has been opened and not been closed, with the shapes in front of it. -/
inductive Pending where
  | block (front : List Shape) (arity : Nat)
  | loop (front : List Shape)
  | ifThen (front : List Shape) (arity : Nat)
  | ifElse (front : List Shape) (arity : Nat) (thenBody : List Shape)

/-- Reads ops as shapes. `around` are the constructs that are open, the innermost one first, and
`front` are the shapes read in the innermost one. -/
def read : (around : List Pending) → (front : List Shape) → List Op → Option (List Shape)
  | [], front, [] => some front
  | around, front, .instr i :: ops => read around (front ++ [.instr i]) ops
  | around, front, .block arity _ :: ops => read (.block front arity :: around) [] ops
  | around, front, .loop :: ops => read (.loop front :: around) [] ops
  | around, front, .ifElse arity _ _ :: ops => read (.ifThen front arity :: around) [] ops
  | .ifThen front arity :: around, body, .skip _ :: ops =>
    read (.ifElse front arity body :: around) [] ops
  | .block front arity :: around, body, .close :: ops =>
    read around (front ++ [.block arity body]) ops
  | .loop front :: around, body, .close :: ops => read around (front ++ [.loop body]) ops
  | .ifElse front arity thenBody :: around, body, .close :: ops =>
    read around (front ++ [.ifElse arity thenBody body]) ops
  | _, _, _ => none

end Shape

mutual

/-- Reading the ops of an instruction back gives its shape, whatever was read before and whatever
follows. -/
theorem Instruction.read_layout (i : Instruction) (p : Nat) (around : List Shape.Pending)
    (front : List Shape) (rest : List Op) :
    Shape.read around front (Instruction.layout p i ++ rest) =
      Shape.read around (front ++ [Instruction.shape i]) rest := by
  cases i with
  | block type body =>
      simp [Instruction.layout, Instruction.shape, Shape.read, Expr.read_layout body]
  | loop type body =>
      simp [Instruction.layout, Instruction.shape, Shape.read, Expr.read_layout body]
  | ifElse type thenBody elseBody =>
      simp [Instruction.layout, Instruction.shape, Shape.read, Expr.read_layout thenBody,
        Expr.read_layout elseBody]
  | _ => simp [Instruction.layout, Instruction.shape, Shape.read]

/-- A sequence is read off its block of ops, whatever is open around it and whatever follows. -/
theorem Expr.read_layout (is : List Instruction) (p : Nat) (around : List Shape.Pending)
    (front : List Shape) (rest : List Op) :
    Shape.read around front (Expr.layout p is ++ rest) =
      Shape.read around (front ++ Expr.shapes is) rest := by
  cases is with
  | nil => simp [Expr.layout, Expr.shapes]
  | cons i is =>
      simp [Expr.layout, Expr.shapes, Instruction.read_layout i, Expr.read_layout is]

end

/-- The law of laid out code.

* Its ops are properly bracketed, and refer to the positions of their counterparts.
* The instructions without a body stand in it in the order of the tree.
* Behind other ops, which stay as they are, a body is laid out as it is alone, with all positions
  moved by the number of these ops.
* The tree can be read off it, but for the types of constructs: of those of blocks and `if`s the
  number of results is left, and nothing of those of loops. -/
theorem Code.compile_layout (locals : List ValueType) (body : Expr) :
    WellBracketed (Code.compile locals body).ops ∧
    (Code.compile locals body).ops.toList.filterMap Op.instr? = Expr.leaves body ∧
    (∀ before : Array Op, Expr.flatten body before =
      before ++ (Code.compile locals body).ops.map (Op.shift before.size)) ∧
    Shape.read [] [] (Code.compile locals body).ops.toList = some (Expr.shapes body) := by
  refine ⟨wellBracketed_compile locals body, ?_, Expr.flatten_eq body, ?_⟩
  · rw [toList_ops_compile, Expr.filterMap_layout]
  · have hread := Expr.read_layout body 0 [] [] []
    rw [List.append_nil] at hread
    rw [toList_ops_compile, hread, Shape.read, List.nil_append]

example : (Code.compile [] [.block (.value .i32) [.plain (.const (.i32 1)),
    .ifElse .empty [.nop] [], .loop .empty []]]).ops =
    #[.block 1 8, .instr (.plain (.const (.i32 1))), .ifElse 0 4 5, .instr .nop, .skip 5, .close,
      .loop, .close, .close] :=
  rfl

end WebAssembly
