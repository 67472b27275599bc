import Mathlib.Algebra.Group.Int.Defs
import WebAssembly.Proofs.Machine.Plain

/-!
# Integer operators and integers

A word stands for an integer in two ways, with a sign or without. What an operator does is said here
in these integers and in single bits, never in operations on words: `integer_operators` goes through
all operators of a type. It speaks of whole instructions (`Numeric.Outcome`), so that it also tells
which operand is which.
-/

namespace WebAssembly

/-! ## Outcomes of numeric operators

An instruction is judged on stacks: what it makes of its operands, whatever lies under them. For a
given instruction and operands there is one outcome.
-/

/-- What a numeric operator leaves behind where `stack` lay under its operands. -/
def Numeric.leave (frame : Frame) (s : Store) (stack : Stack Value) :
    Except Trap Value → EStateM.Result RuntimeError Machine Frame
  | .ok v => .ok frame ⟨s, stack.push v⟩
  | .error trap => .error (.trap trap) ⟨s, stack⟩

/-- What becomes of a numeric operator with the given operands on top of the stack, the last one
topmost: it takes them off, and puts a value on or traps. Nothing else changes. -/
def Numeric.Outcome (op : Numeric) (operands : List Value) (outcome : Except Trap Value) : Prop :=
  ∀ (frame : Frame) (s : Store) (stack : Stack Value),
    Exec.plain frame (.numeric op) ⟨s, stack.pushAll operands⟩ = leave frame s stack outcome

namespace Stack

variable {α : Type}

theorem pushAll_nil (s : Stack α) : s.pushAll [] = s :=
  eq_of_toList_eq rfl

theorem pushAll_cons (s : Stack α) (a : α) (as : List α) :
    s.pushAll (a :: as) = (s.push a).pushAll as :=
  eq_of_toList_eq (by simp)

end Stack

/-- An integer value has one pattern of bits. -/
theorem Value.int_inj {t : IntType} {a b : BitVec t.width} :
    Value.int t a = Value.int t b ↔ a = b := by
  cases t
  · exact ⟨Value.i32.inj, congrArg _⟩
  · exact ⟨Value.i64.inj, congrArg _⟩

namespace OnStack

theorem popInt_push (t : IntType) (b : BitVec t.width) (stack : Stack Value) :
    popInt t (stack.push (.int t b)) = .ok b stack := by
  cases t <;> rfl

theorem popFloat_push (t : FloatType) (b : t.Bits) (stack : Stack Value) :
    popFloat t (stack.push (.float t b)) = .ok b stack := by
  cases t <;> rfl

end OnStack

namespace Numeric

variable {op : Numeric} {operands : List Value} {o o' : Except Trap Value}

/-- There is one outcome only. -/
theorem Outcome.unique (h : op.Outcome operands o) (h' : op.Outcome operands o') : o = o' := by
  have hsame := (h ⟨{}, #[]⟩ {} .empty).symm.trans (h' ⟨{}, #[]⟩ {} .empty)
  cases o <;> cases o' <;> simp_all [leave, Stack.push_inj]

/-- What an instruction does to its operands is one outcome, so two descriptions of it are the
same. -/
theorem Outcome.iff (h : op.Outcome operands o) : op.Outcome operands o' ↔ o' = o :=
  ⟨fun h' => h'.unique h, fun h' => h' ▸ h⟩

section Integer

variable {t : IntType} {x : Except Trap (BitVec t.width)}

/-- An instruction gives a result exactly when the computation behind it does. -/
theorem Outcome.gives_iff (h : op.Outcome operands (x.map (.int t))) {r : BitVec t.width} :
    op.Outcome operands (.ok (.int t r)) ↔ x = .ok r := by
  rw [h.iff]
  cases x <;> simp [Except.map, Value.int_inj, eq_comm]

/-- An instruction traps exactly when the computation behind it does. -/
theorem Outcome.traps_iff (h : op.Outcome operands (x.map (.int t))) {trap : Trap} :
    op.Outcome operands (.error trap) ↔ x = .error trap := by
  rw [h.iff]
  cases x <;> simp [Except.map, eq_comm]

end Integer

/-- To know the outcome it is enough to look at the stack. -/
theorem outcome_of_onStack (h : ∀ stack : Stack Value, OnStack.numeric op (stack.pushAll operands) =
    (OnStack.orTrap o >>= OnStack.push) stack) : op.Outcome operands o := by
  intro frame s stack
  have hop := h stack
  cases o with
  | ok v => exact bind_of_ok (Exec.onStack_of_ok hop)
  | error trap => exact bind_of_error (Exec.onStack_of_error hop)

theorem outcome_of_one {a : Value} (h : ∀ stack : Stack Value, OnStack.numeric op (stack.push a) =
    (OnStack.orTrap o >>= OnStack.push) stack) : op.Outcome [a] o := by
  apply outcome_of_onStack
  intro stack
  rw [Stack.pushAll_cons, Stack.pushAll_nil, h]

/-- Of two operands the second is on top of the stack. -/
theorem outcome_of_two {a b : Value} (h : ∀ stack : Stack Value,
    OnStack.numeric op ((stack.push a).push b) = (OnStack.orTrap o >>= OnStack.push) stack) :
    op.Outcome [a, b] o := by
  apply outcome_of_onStack
  intro stack
  rw [Stack.pushAll_cons, Stack.pushAll_cons, Stack.pushAll_nil, h]

/-- A binary instruction on integers is its computation on the bits. -/
theorem outcome_intBinary (t : IntType) (op : IntBinary) (x y : BitVec t.width) :
    (intBinary t op).Outcome [.int t x, .int t y] ((op.eval x y).map (.int t)) := by
  apply outcome_of_two
  intro stack
  rw [OnStack.numeric, bind_of_ok (OnStack.popInt_push t y _),
    bind_of_ok (OnStack.popInt_push t x _)]
  cases op.eval x y <;> rfl

/-- A comparison gives one or zero, always as a number of 32 bits. -/
theorem outcome_intCompare (t : IntType) (op : IntCompare) (x y : BitVec t.width) :
    (intCompare t op).Outcome [.int t x, .int t y] (.ok (.i32 (if op.eval x y then 1 else 0))) := by
  apply outcome_of_two
  intro stack
  rw [OnStack.numeric, bind_of_ok (OnStack.popInt_push t y _),
    bind_of_ok (OnStack.popInt_push t x _)]
  rfl

theorem outcome_intUnary (t : IntType) (op : IntUnary) (x : BitVec t.width) :
    (intUnary t op).Outcome [.int t x] (.ok (.int t (op.eval x))) := by
  apply outcome_of_one
  intro stack
  rw [OnStack.numeric, bind_of_ok (OnStack.popInt_push t x _)]
  rfl

theorem outcome_eqz (t : IntType) (x : BitVec t.width) :
    (eqz t).Outcome [.int t x] (.ok (.i32 (if x = 0 then 1 else 0))) := by
  apply outcome_of_one
  intro stack
  rw [OnStack.numeric, bind_of_ok (OnStack.popInt_push t x _), OnStack.pushBool]
  simp only [beq_iff_eq]
  rfl

end Numeric

/-! ## Words and integers

A word is a number with a sign and one without, and single bits.
-/

namespace Integer

variable {w : Nat}

/-- A word that reads as `n`, cut down to its width, is the remainder of `n`. -/
theorem toNat_eq_emod {r : BitVec w} {n : Int} (h : r.toInt = n.bmod (2 ^ w)) :
    (r.toNat : Int) = n % 2 ^ w := by
  have hr : r = BitVec.ofInt w n := BitVec.eq_of_toInt_eq (by rw [h, BitVec.toInt_ofInt])
  have hnonneg : 0 ≤ n % 2 ^ w := Int.emod_nonneg n (Int.ne_of_gt (Int.pow_pos (by decide)))
  rw [hr, BitVec.toNat_ofInt]
  push_cast
  exact Int.toNat_of_nonneg hnonneg

/-- The two readings of a word have the same remainder modulo a divisor of the number of words. -/
theorem toInt_emod_of_dvd {n : Nat} (h : n ∣ 2 ^ w) (y : BitVec w) :
    y.toInt % n = ((y.toNat % n : Nat) : Int) := by
  obtain ⟨k, hk⟩ := h
  rw [BitVec.toInt_eq_toNat_cond]
  split
  · rfl
  · rw [hk]
    push_cast
    rw [Int.sub_mul_emod_self_left]

/-! ### Shifts

The count is taken from the second operand in two steps, narrowed to 32 bits and then reduced. Both
widths divide `2 ^ 32`, so narrowing does not show.
-/

/-- A shift loses nothing by reading only 32 bits of its count, since these tell the count modulo
the width. -/
theorem shiftCount_eq (hw : w ∣ 2 ^ 32) (y : BitVec w) : shiftCount y = y.toNat % w := by
  rw [shiftCount, BitVec.toNat_setWidth, Nat.mod_mod_of_dvd _ hw]

/-- Bits shifted out above are lost. -/
theorem toNat_shl (x y : BitVec w) :
    (shl x y).toNat = x.toNat * 2 ^ shiftCount y % 2 ^ w := by
  rw [shl, BitVec.toNat_shiftLeft, Nat.shiftLeft_eq]

theorem toNat_shrU (x y : BitVec w) : (shrU x y).toNat = x.toNat / 2 ^ shiftCount y := by
  rw [shrU, BitVec.toNat_ushiftRight, Nat.shiftRight_eq_div_pow]

/-- The signed shift to the right divides and rounds down, also below zero. -/
theorem toInt_shrS (x y : BitVec w) : (shrS x y).toInt = x.toInt / 2 ^ shiftCount y := by
  rw [shrS, BitVec.toInt_sshiftRight, Int.shiftRight_eq_div_pow]
  push_cast
  rfl

/-- Moving on by `k` places among `w`, from the last one to the first. -/
theorem add_mod_eq {i k : Nat} (hi : i < w) (hk : k < w) :
    (i + k) % w = if i + k < w then i + k else i + k - w := by
  split
  · next hin => exact Nat.mod_eq_of_lt hin
  · next hout => rw [Nat.mod_eq_sub_mod (by omega), Nat.mod_eq_of_lt (by omega)]

/-- A rotation to the left moves each bit up and loses none. -/
theorem getLsbD_rotl (x y : BitVec w) {i : Nat} (hi : i < w) :
    (rotl x y).getLsbD ((i + y.toNat % w) % w) = x.getLsbD i := by
  have hk : y.toNat % w < w := Nat.mod_lt _ (by omega)
  rw [rotl, BitVec.getLsbD_rotateLeft, Nat.mod_mod, Bool.cond_decide, add_mod_eq hi hk]
  generalize y.toNat % w = k at hk
  by_cases hin : i + k < w
  · rw [if_pos hin, if_neg (by omega), Nat.add_sub_cancel]
    simp [hin]
  · -- the bit comes in again from below
    rw [if_neg hin, if_pos (by omega)]
    congr 1
    omega

/-- A rotation to the right moves each bit down and loses none. -/
theorem getLsbD_rotr (x y : BitVec w) {i : Nat} (hi : i < w) :
    (rotr x y).getLsbD i = x.getLsbD ((i + y.toNat % w) % w) := by
  have hk : y.toNat % w < w := Nat.mod_lt _ (by omega)
  rw [rotr, BitVec.getLsbD_rotateRight, Nat.mod_mod, Bool.cond_decide, add_mod_eq hi hk]
  generalize y.toNat % w = k at hk
  by_cases hin : i + k < w
  · rw [if_pos hin, if_pos (by omega), Nat.add_comm]
  · -- the bit comes in again from above
    rw [if_neg hin, if_neg (by omega), decide_eq_true hi, Bool.true_and]
    congr 1
    omega

theorem rotr_rotl (x y : BitVec w) : rotr (rotl x y) y = x := by
  apply BitVec.eq_of_getLsbD_eq
  intro i hi
  rw [getLsbD_rotr _ _ hi, getLsbD_rotl _ _ hi]

/-! ### Counts

Zeros in front, zeros behind and bits that are set. The first is a logarithm, the second a power of
two that divides, the third a count of places.
-/

/-- The zeros above a number are the places above its highest bit. -/
theorem toNat_clz (x : BitVec w) :
    (clz x).toNat = if x.toNat = 0 then w else w - 1 - Nat.log2 x.toNat := by
  have hw : w < 2 ^ w := Nat.lt_two_pow_self
  rw [clz, BitVec.toNat_ofNat, Nat.mod_eq_of_lt (by split <;> omega)]
  simp only [BitVec.toNat_eq, BitVec.toNat_ofNat, Nat.zero_mod]

theorem trailingZeros_zero (fuel : Nat) : trailingZeros fuel 0 = fuel := by
  induction fuel with
  | zero => rfl
  | succ fuel ih => simp [trailingZeros, ih]

/-- The zeros below a number are the greatest power of two that divides it. -/
theorem trailingZeros_of_lt {fuel n : Nat} (hn : n ≠ 0) (hlt : n < 2 ^ fuel) :
    trailingZeros fuel n < fuel ∧ 2 ^ trailingZeros fuel n ∣ n ∧
      ¬ 2 ^ (trailingZeros fuel n + 1) ∣ n := by
  -- an even number has one zero more than its half
  induction fuel generalizing n with
  | zero => omega
  | succ fuel ih =>
      rw [trailingZeros]
      split
      · next hodd =>
          refine ⟨Nat.succ_pos fuel, Nat.one_dvd n, ?_⟩
          rw [Nat.zero_add, Nat.pow_one]
          omega
      · next heven =>
          obtain ⟨m, rfl⟩ : ∃ m, n = 2 * m := ⟨n / 2, by omega⟩
          have hhalf : 2 * m / 2 = m := by omega
          rw [Nat.pow_succ] at hlt
          obtain ⟨hless, hdvd, hnot⟩ := @ih m (by omega) (by omega)
          rw [hhalf, Nat.pow_succ', Nat.pow_succ' (n := _ + 1), Nat.mul_dvd_mul_iff_left (by omega),
            Nat.mul_dvd_mul_iff_left (by omega)]
          exact ⟨by omega, hdvd, hnot⟩

theorem toNat_ctz (x : BitVec w) : (ctz x).toNat = trailingZeros w x.toNat := by
  have hw : w < 2 ^ w := Nat.lt_two_pow_self
  have hle : trailingZeros w x.toNat ≤ w := by
    by_cases hx : x.toNat = 0
    · simp only [hx, trailingZeros_zero, Nat.le_refl]
    · exact Nat.le_of_lt (trailingZeros_of_lt hx x.isLt).1
  rw [ctz, BitVec.toNat_ofNat, Nat.mod_eq_of_lt (by omega)]

/-- Counting by halving counts the bits that are set. -/
theorem ones_eq_countP (count n : Nat) : ones count n = (List.range count).countP n.testBit := by
  induction count generalizing n with
  | zero => rfl
  | succ count ih =>
      rw [ones, ih, List.range_succ_eq_map, List.countP_cons, List.countP_map, Nat.add_comm]
      congr 1
      · exact List.countP_congr fun i _ => by simp [Nat.testBit_succ]
      · rcases Nat.mod_two_eq_zero_or_one n with h | h <;> simp [Nat.testBit_zero, h]

theorem toNat_popcnt (x : BitVec w) : (popcnt x).toNat = (List.range w).countP x.getLsbD := by
  have hw : w < 2 ^ w := Nat.lt_two_pow_self
  have hle : (List.range w).countP x.toNat.testBit ≤ w := by
    simpa using List.countP_le_length (p := x.toNat.testBit) (l := List.range w)
  rw [popcnt, BitVec.toNat_ofNat, ones_eq_countP, Nat.mod_eq_of_lt (by omega)]
  rfl

end Integer

/-! ## The operators of a type

The statements, grouped as the instructions are. They mention integers and bits only.
-/

/-- An operator of two integers, of which `x` was pushed first, gives `r`. -/
def IntBinary.Gives (t : IntType) (op : IntBinary) (x y r : BitVec t.width) : Prop :=
  (Numeric.intBinary t op).Outcome [.int t x, .int t y] (.ok (.int t r))

/-- An operator of two integers, of which `x` was pushed first, traps. -/
def IntBinary.Traps (t : IntType) (op : IntBinary) (x y : BitVec t.width) (trap : Trap) : Prop :=
  (Numeric.intBinary t op).Outcome [.int t x, .int t y] (.error trap)

/-- An operator of one integer gives `r`. -/
def IntUnary.Gives (t : IntType) (op : IntUnary) (x r : BitVec t.width) : Prop :=
  (Numeric.intUnary t op).Outcome [.int t x] (.ok (.int t r))

/-- A comparison of two integers, of which `x` was pushed first, gives one if `holds` and zero if
not. -/
def IntCompare.Tells (t : IntType) (op : IntCompare) (x y : BitVec t.width) (holds : Prop) : Prop :=
  ∃ r : BitVec 32, (Numeric.intCompare t op).Outcome [.int t x, .int t y] (.ok (.i32 r)) ∧
    (holds → r.toNat = 1) ∧ (¬ holds → r.toNat = 0)

namespace Integer

variable {t : IntType} {x y r : BitVec t.width}

/-- Sums, differences and products are taken modulo the number of words; quotients and remainders
exist but for a zero divisor and the one quotient that is too large. Quotients of integers with a
sign are rounded toward zero. -/
structure Arithmetic (t : IntType) (x y : BitVec t.width) : Prop where
  add : ∃ r, IntBinary.Gives t .add x y r ∧ (r.toNat : Int) = (x.toInt + y.toInt) % 2 ^ t.width
  sub : ∃ r, IntBinary.Gives t .sub x y r ∧ (r.toNat : Int) = (x.toInt - y.toInt) % 2 ^ t.width
  mul : ∃ r, IntBinary.Gives t .mul x y r ∧ (r.toNat : Int) = x.toInt * y.toInt % 2 ^ t.width
  divS_traps : ∀ trap, IntBinary.Traps t (.div .signed) x y trap ↔
    trap = .divisionByZero ∧ y.toInt = 0 ∨
      trap = .integerOverflow ∧ x.toInt = -2 ^ (t.width - 1) ∧ y.toInt = -1
  divS : y.toInt ≠ 0 → ¬ (x.toInt = -2 ^ (t.width - 1) ∧ y.toInt = -1) →
    ∃ r, IntBinary.Gives t (.div .signed) x y r ∧ r.toInt = x.toInt.tdiv y.toInt
  divU_traps : ∀ trap, IntBinary.Traps t (.div .unsigned) x y trap ↔
    trap = .divisionByZero ∧ y.toNat = 0
  divU : y.toNat ≠ 0 →
    ∃ r, IntBinary.Gives t (.div .unsigned) x y r ∧ r.toNat = x.toNat / y.toNat
  remS_traps : ∀ trap, IntBinary.Traps t (.rem .signed) x y trap ↔
    trap = .divisionByZero ∧ y.toInt = 0
  remS : y.toInt ≠ 0 → ∃ r, IntBinary.Gives t (.rem .signed) x y r ∧
    r.toInt = x.toInt - y.toInt * x.toInt.tdiv y.toInt
  remU_traps : ∀ trap, IntBinary.Traps t (.rem .unsigned) x y trap ↔
    trap = .divisionByZero ∧ y.toNat = 0
  remU : y.toNat ≠ 0 →
    ∃ r, IntBinary.Gives t (.rem .unsigned) x y r ∧ r.toNat = x.toNat % y.toNat

/-- The operators that act bit by bit. -/
structure Bitwise (t : IntType) (x y : BitVec t.width) : Prop where
  and : ∃ r, IntBinary.Gives t .and x y r ∧ ∀ i, r.getLsbD i = (x.getLsbD i && y.getLsbD i)
  or : ∃ r, IntBinary.Gives t .or x y r ∧ ∀ i, r.getLsbD i = (x.getLsbD i || y.getLsbD i)
  xor : ∃ r, IntBinary.Gives t .xor x y r ∧ ∀ i, r.getLsbD i = (x.getLsbD i ^^ y.getLsbD i)

/-- How far a shift or a rotation by `y` goes. -/
def places (t : IntType) (y : BitVec t.width) : Nat :=
  (y.toInt % t.width).toNat

/-- Shifts multiply and divide by a power of two, with a sign rounding down, and rotations move each
bit by some places; the count counts only modulo the width. -/
structure Shifts (t : IntType) (x y : BitVec t.width) : Prop where
  shl : ∃ r, IntBinary.Gives t .shl x y r ∧ r.toNat = x.toNat * 2 ^ places t y % 2 ^ t.width
  shrS : ∃ r, IntBinary.Gives t (.shr .signed) x y r ∧ r.toInt = x.toInt / 2 ^ places t y
  shrU : ∃ r, IntBinary.Gives t (.shr .unsigned) x y r ∧ r.toNat = x.toNat / 2 ^ places t y
  rotl : ∃ r, IntBinary.Gives t .rotl x y r ∧
    ∀ i < t.width, r.getLsbD ((i + places t y) % t.width) = x.getLsbD i
  rotr : ∃ r, IntBinary.Gives t .rotr x y r ∧
    ∀ i < t.width, r.getLsbD i = x.getLsbD ((i + places t y) % t.width)
  rotr_undoes_rotl : ∀ r, IntBinary.Gives t .rotl x y r → IntBinary.Gives t .rotr r y x
  periodic : ∀ op ∈ [IntBinary.shl, .shr .signed, .shr .unsigned, .rotl, .rotr],
    ∀ y' : BitVec t.width, y'.toInt % t.width = y.toInt % t.width →
      ∀ r, IntBinary.Gives t op x y' r ↔ IntBinary.Gives t op x y r

/-- Counts of bits. With a one among the bits, the zeros above the highest one are told by the
powers of two on either side of the number, and those below the lowest one by the powers that divide
it. -/
structure Counts (t : IntType) (x : BitVec t.width) : Prop where
  clz : ∃ r, IntUnary.Gives t .clz x r ∧ (x.toNat = 0 → r.toNat = t.width) ∧
    (x.toNat ≠ 0 → r.toNat < t.width ∧ 2 ^ (t.width - 1 - r.toNat) ≤ x.toNat ∧
      x.toNat < 2 ^ (t.width - r.toNat))
  ctz : ∃ r, IntUnary.Gives t .ctz x r ∧ (x.toNat = 0 → r.toNat = t.width) ∧
    (x.toNat ≠ 0 → 2 ^ r.toNat ∣ x.toNat ∧ ¬ 2 ^ (r.toNat + 1) ∣ x.toNat)
  popcnt : ∃ r, IntUnary.Gives t .popcnt x r ∧ (x.toNat = 0 → r.toNat = 0) ∧
    r.toNat = (List.range t.width).countP x.getLsbD

/-- Comparisons compare the integers that the words stand for, with a sign or without. -/
structure Comparisons (t : IntType) (x y : BitVec t.width) : Prop where
  eqz : ∃ r : BitVec 32, (Numeric.eqz t).Outcome [.int t x] (.ok (.i32 r)) ∧
    (x.toInt = 0 → r.toNat = 1) ∧ (x.toInt ≠ 0 → r.toNat = 0)
  eq : IntCompare.Tells t .eq x y (x.toInt = y.toInt)
  ne : IntCompare.Tells t .ne x y (x.toInt ≠ y.toInt)
  ltS : IntCompare.Tells t (.lt .signed) x y (x.toInt < y.toInt)
  ltU : IntCompare.Tells t (.lt .unsigned) x y (x.toNat < y.toNat)
  gtS : IntCompare.Tells t (.gt .signed) x y (y.toInt < x.toInt)
  gtU : IntCompare.Tells t (.gt .unsigned) x y (y.toNat < x.toNat)
  leS : IntCompare.Tells t (.le .signed) x y (x.toInt ≤ y.toInt)
  leU : IntCompare.Tells t (.le .unsigned) x y (x.toNat ≤ y.toNat)
  geS : IntCompare.Tells t (.ge .signed) x y (y.toInt ≤ x.toInt)
  geU : IntCompare.Tells t (.ge .unsigned) x y (y.toNat ≤ x.toNat)

/-- An `i64` can be cut down to 32 bits, and an `i32` be extended with a sign or without. -/
structure Widths : Prop where
  wrap : ∀ a : BitVec 64, ∃ r : BitVec 32,
    (Numeric.conversion .wrap).Outcome [.i64 a] (.ok (.i32 r)) ∧ r.toNat = a.toNat % 2 ^ 32
  extendS : ∀ a : BitVec 32, ∃ r : BitVec 64,
    (Numeric.conversion (.extend .signed)).Outcome [.i32 a] (.ok (.i64 r)) ∧ r.toInt = a.toInt
  extendU : ∀ a : BitVec 32, ∃ r : BitVec 64,
    (Numeric.conversion (.extend .unsigned)).Outcome [.i32 a] (.ok (.i64 r)) ∧ r.toNat = a.toNat

end Integer

/-! ## What the operators compute

Each group is proved from the facts about words above, one field for each operator.
-/

theorem IntType.width_pos (t : IntType) : 0 < t.width := by
  cases t <;> decide

/-- Narrowing a count to 32 bits does not change it modulo the width. -/
theorem IntType.width_dvd (t : IntType) : t.width ∣ 2 ^ 32 := by
  cases t
  · exact ⟨2 ^ 27, rfl⟩
  · exact ⟨2 ^ 26, rfl⟩

theorem IntType.width_dvd_words (t : IntType) : t.width ∣ 2 ^ t.width :=
  Nat.dvd_trans t.width_dvd (Nat.pow_dvd_pow 2 (by cases t <;> decide))

theorem IntBinary.gives_iff {t : IntType} {op : IntBinary} {x y r : BitVec t.width} :
    IntBinary.Gives t op x y r ↔ op.eval x y = .ok r :=
  (Numeric.outcome_intBinary t op x y).gives_iff

theorem IntBinary.traps_iff {t : IntType} {op : IntBinary} {x y : BitVec t.width} {trap : Trap} :
    IntBinary.Traps t op x y trap ↔ op.eval x y = .error trap :=
  (Numeric.outcome_intBinary t op x y).traps_iff

namespace Integer

theorem eq_zero_iff_toInt {w : Nat} {y : BitVec w} : y = 0 ↔ y.toInt = 0 := by
  rw [← BitVec.toInt_inj]
  exact Iff.of_eq (congrArg (y.toInt = ·) BitVec.toInt_zero)

theorem eq_zero_iff_toNat {w : Nat} {y : BitVec w} : y = 0 ↔ y.toNat = 0 := by
  rw [BitVec.toNat_eq]
  exact Iff.of_eq (congrArg (y.toNat = ·) (Nat.zero_mod _))

variable {t : IntType} (x y : BitVec t.width)

/-- The one number whose negation does not fit. -/
theorem eq_intMin_iff : x = BitVec.intMin t.width ↔ x.toInt = -2 ^ (t.width - 1) := by
  rw [← BitVec.toInt_inj, BitVec.toInt_intMin_of_pos t.width_pos]

theorem eq_neg_one_iff : y = -1 ↔ y.toInt = -1 := by
  have hone : (-1 : BitVec t.width).toInt = -1 := by
    rw [show (-1 : BitVec t.width) = BitVec.allOnes _ from BitVec.neg_one_eq_allOnes,
      BitVec.toInt_allOnes, if_pos t.width_pos]
  rw [← BitVec.toInt_inj, hone]

/-- The count is read modulo the width, with a sign or without. -/
theorem places_eq : places t y = y.toNat % t.width := by
  rw [places, toInt_emod_of_dvd t.width_dvd_words, Int.toNat_natCast]

/-- The count taken from the low 32 bits of the operand is the operand modulo the width. -/
theorem shiftCount_eq_places : shiftCount y = places t y := by
  rw [shiftCount_eq t.width_dvd, places_eq]

/-- A check in front of a result is all that can trap. -/
theorem check_eq_error_iff {α : Type} {bad : Prop} [Decidable bad] {cause trap : Trap} {a : α} :
    (if bad then .error cause else .ok a : Except Trap α) = .error trap ↔ trap = cause ∧ bad := by
  split
  · next hbad => simp [hbad, eq_comm]
  · next hgood => simp [hgood]

/-- Sums, differences and products are exact modulo a power of two. Division is exact, and traps for
zero and for the one quotient that does not fit. -/
theorem arithmetic : Arithmetic t x y where
  add := ⟨x + y, IntBinary.gives_iff.mpr rfl, toNat_eq_emod (BitVec.toInt_add x y)⟩
  sub := ⟨x - y, IntBinary.gives_iff.mpr rfl, toNat_eq_emod BitVec.toInt_sub⟩
  mul := ⟨x * y, IntBinary.gives_iff.mpr rfl, toNat_eq_emod (BitVec.toInt_mul x y)⟩
  divS_traps trap := by
    rw [IntBinary.traps_iff, IntBinary.eval, ← eq_intMin_iff, ← eq_neg_one_iff,
      ← eq_zero_iff_toInt]
    split
    · next hzero =>
        -- zero is not minus one, so that the other cause does not apply
        have hone : ¬ y = -1 := by
          rw [eq_neg_one_iff, eq_zero_iff_toInt.mp hzero]
          decide
        refine ⟨fun h => .inl ⟨(Except.error.inj h).symm, hzero⟩, ?_⟩
        rintro (⟨rfl, -⟩ | ⟨-, -, hone'⟩)
        · rfl
        · exact absurd hone' hone
    · next hzero =>
        rw [check_eq_error_iff]
        simp only [hzero, and_false, false_or]
  divS hzero hfits := by
    rw [← eq_intMin_iff, ← eq_neg_one_iff] at hfits
    refine ⟨x.sdiv y, IntBinary.gives_iff.mpr ?_, ?_⟩
    · rw [IntBinary.eval, if_neg (eq_zero_iff_toInt.not.mpr hzero), if_neg hfits]
    · exact BitVec.toInt_sdiv_of_ne_or_ne x y (not_and_or.mp hfits)
  divU_traps trap := by
    rw [IntBinary.traps_iff, IntBinary.eval, check_eq_error_iff, eq_zero_iff_toNat]
  divU hzero := by
    refine ⟨x.udiv y, IntBinary.gives_iff.mpr ?_, BitVec.toNat_udiv⟩
    rw [IntBinary.eval, if_neg (eq_zero_iff_toNat.not.mpr hzero)]
  remS_traps trap := by
    rw [IntBinary.traps_iff, IntBinary.eval, check_eq_error_iff, eq_zero_iff_toInt]
  remS hzero := by
    refine ⟨x.srem y, IntBinary.gives_iff.mpr ?_, ?_⟩
    · rw [IntBinary.eval, if_neg (eq_zero_iff_toInt.not.mpr hzero)]
    · rw [BitVec.toInt_srem, Int.tmod_def]
  remU_traps trap := by
    rw [IntBinary.traps_iff, IntBinary.eval, check_eq_error_iff, eq_zero_iff_toNat]
  remU hzero := by
    refine ⟨x.umod y, IntBinary.gives_iff.mpr ?_, BitVec.toNat_umod⟩
    rw [IntBinary.eval, if_neg (eq_zero_iff_toNat.not.mpr hzero)]

theorem bitwise : Bitwise t x y where
  and := ⟨x &&& y, IntBinary.gives_iff.mpr rfl, fun _ => BitVec.getLsbD_and⟩
  or := ⟨x ||| y, IntBinary.gives_iff.mpr rfl, fun _ => BitVec.getLsbD_or⟩
  xor := ⟨x ^^^ y, IntBinary.gives_iff.mpr rfl, fun _ => BitVec.getLsbD_xor⟩

/-- Shifts and rotations go by the count modulo the width. -/
theorem shifts : Shifts t x y where
  shl := ⟨_, IntBinary.gives_iff.mpr rfl, by rw [toNat_shl, shiftCount_eq_places]⟩
  shrS := ⟨_, IntBinary.gives_iff.mpr rfl, by rw [toInt_shrS, shiftCount_eq_places]⟩
  shrU := ⟨_, IntBinary.gives_iff.mpr rfl, by rw [toNat_shrU, shiftCount_eq_places]⟩
  rotl := ⟨_, IntBinary.gives_iff.mpr rfl, fun i hi => by rw [places_eq, getLsbD_rotl x y hi]⟩
  rotr := ⟨_, IntBinary.gives_iff.mpr rfl, fun i hi => by rw [places_eq, getLsbD_rotr x y hi]⟩
  rotr_undoes_rotl r hr := by
    obtain rfl : Integer.rotl x y = r := Except.ok.inj (IntBinary.gives_iff.mp hr)
    exact IntBinary.gives_iff.mpr (congrArg Except.ok (rotr_rotl x y))
  periodic op hop y' hcount r := by
    have hplaces : places t y' = places t y := by
      rw [places, places, hcount]
    rw [IntBinary.gives_iff, IntBinary.gives_iff]
    simp only [List.mem_cons, List.not_mem_nil, or_false] at hop
    -- each of the five looks at its second operand through the count alone
    rcases hop with rfl | rfl | rfl | rfl | rfl <;>
      simp only [IntBinary.eval, Integer.shl, Integer.shrS, Integer.shrU, Integer.rotl,
        Integer.rotr, shiftCount_eq_places, ← places_eq, hplaces]

/-- The three counts, with zero as their common special case. -/
theorem counts : Counts t x where
  clz := by
    refine ⟨Integer.clz x, Numeric.outcome_intUnary t .clz x, fun hx => ?_, fun hx => ?_⟩
    · rw [toNat_clz, if_pos hx]
    · -- the highest bit is the place of the logarithm
      have hlog : Nat.log2 x.toNat < t.width := (Nat.log2_lt hx).mpr x.isLt
      rw [toNat_clz, if_neg hx,
        show t.width - 1 - (t.width - 1 - Nat.log2 x.toNat) = Nat.log2 x.toNat by omega,
        show t.width - (t.width - 1 - Nat.log2 x.toNat) = Nat.log2 x.toNat + 1 by omega]
      exact ⟨by omega, Nat.log2_self_le hx, Nat.lt_log2_self⟩
  ctz := by
    refine ⟨Integer.ctz x, Numeric.outcome_intUnary t .ctz x, fun hx => ?_, fun hx => ?_⟩
    · rw [toNat_ctz, hx, trailingZeros_zero]
    · rw [toNat_ctz]
      exact (trailingZeros_of_lt hx x.isLt).2
  popcnt := by
    refine ⟨Integer.popcnt x, Numeric.outcome_intUnary t .popcnt x, fun hx => ?_, toNat_popcnt x⟩
    rw [toNat_popcnt, List.countP_eq_zero]
    intro i _
    simp [eq_zero_iff_toNat.mpr hx]

/-- A comparison that agrees with a relation tells whether it holds. -/
theorem tells_of_iff {op : IntCompare} {holds : Prop} (h : op.eval x y = true ↔ holds) :
    IntCompare.Tells t op x y holds := by
  refine ⟨_, Numeric.outcome_intCompare t op x y, fun hholds => ?_, fun hnot => ?_⟩
  · rw [if_pos (h.mpr hholds)]
    rfl
  · rw [if_neg (h.not.mpr hnot)]
    rfl

/-- Comparisons tell the order of the integers meant, with a sign or without one. -/
theorem comparisons : Comparisons t x y where
  eqz := by
    refine ⟨_, Numeric.outcome_eqz t x, fun hx => ?_, fun hx => ?_⟩
    · rw [if_pos (eq_zero_iff_toInt.mpr hx)]
      rfl
    · rw [if_neg (eq_zero_iff_toInt.not.mpr hx)]
      rfl
  eq := tells_of_iff x y (beq_iff_eq.trans BitVec.toInt_inj.symm)
  ne := tells_of_iff x y (bne_iff_ne.trans BitVec.toInt_inj.not.symm)
  ltS := tells_of_iff x y BitVec.slt_iff_toInt_lt
  ltU := tells_of_iff x y BitVec.ult_iff_toNat_lt
  gtS := tells_of_iff x y BitVec.slt_iff_toInt_lt
  gtU := tells_of_iff x y BitVec.ult_iff_toNat_lt
  leS := tells_of_iff x y BitVec.sle_iff_toInt_le
  leU := tells_of_iff x y BitVec.ule_iff_toNat_le
  geS := tells_of_iff x y BitVec.sle_iff_toInt_le
  geU := tells_of_iff x y BitVec.ule_iff_toNat_le

/-- Wrapping keeps the low half, and both extensions keep the number. -/
theorem widths : Widths where
  wrap a := ⟨a.setWidth 32, Numeric.outcome_of_one fun _ => rfl, BitVec.toNat_setWidth 32 a⟩
  extendS a := by
    refine ⟨BitVec.ofInt 64 a.toInt, Numeric.outcome_of_one fun _ => rfl, ?_⟩
    have hlo := BitVec.le_toInt a
    have hhi := BitVec.toInt_lt (x := a)
    rw [BitVec.toInt_ofInt, Int.bmod_eq_of_le] <;> omega
  extendU a := by
    refine ⟨BitVec.ofInt 64 a.toNat, Numeric.outcome_of_one fun _ => rfl, ?_⟩
    have hhi := a.isLt
    rw [BitVec.ofInt_natCast, BitVec.toNat_ofNat, Nat.mod_eq_of_lt]
    omega

end Integer

/-- The operators of an integer type agree with integers, on all operands: arithmetic, bits, shifts
and rotations, counts, comparisons, and the conversions between the two types. -/
theorem integer_operators (t : IntType) (x y : BitVec t.width) :
    Integer.Arithmetic t x y ∧ Integer.Bitwise t x y ∧ Integer.Shifts t x y ∧
      Integer.Counts t x ∧ Integer.Comparisons t x y ∧ Integer.Widths :=
  ⟨Integer.arithmetic x y, Integer.bitwise x y, Integer.shifts x y, Integer.counts x,
    Integer.comparisons x y, Integer.widths⟩

end WebAssembly
