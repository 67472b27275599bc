import WebAssembly.Float.Basic

/-!
# Float arithmetic

Every operation computes the exact number from the data of its operands and rounds once, to nearest
with ties to even. Quotients and square roots have no finite exact form; they are cut off after more
bits than any result keeps, and an odd last bit records that something was cut off, which is all
that rounding needs to know (`FloatType.round`).
-/

namespace WebAssembly

namespace FloatType

/-! ## Rounding -/

/-- The quotient of `m` by `2 ^ k`, rounded to nearest, a half going to the even neighbour. -/
def shiftRound (m k : Nat) : Nat :=
  let q := m >>> k
  let r := m % (1 <<< k)
  let half := 1 <<< k
  if 2 * r < half then q
  else if half < 2 * r then q + 1
  else if q % 2 = 0 then q else q + 1

/-- Rounds the exact number `± m * 2 ^ e`. The unit of the result is the unit of the smallest
numbers, or larger where `m` has more bits than a significand holds. Adding the significand to the
shifted unit lets a carry out of the significand run into the exponent field; what runs into the
field of the infinities is infinite. -/
def round (t : FloatType) (negative : Bool) (m : Nat) (e : Int) : t.Bits :=
  if m = 0 then t.ofMagnitude negative 0
  else
    let unit := max (e + (Nat.log2 m : Nat) - (t.fractionBits : Nat)) t.minExponent
    let significand :=
      if unit ≤ e then m <<< (e - unit).toNat else shiftRound m (unit - e).toNat
    let magnitude := ((unit - t.minExponent).toNat <<< t.fractionBits) + significand
    t.ofMagnitude negative (min magnitude t.infinityMagnitude)

/-- The infinity of the given sign. -/
def infinity (t : FloatType) (negative : Bool) : t.Bits :=
  t.ofMagnitude negative t.infinityMagnitude

/-- The zero of the given sign. -/
def zero (t : FloatType) (negative : Bool) : t.Bits :=
  t.ofMagnitude negative 0

/-- An integer, rounded where a significand cannot hold it. -/
def ofInt (t : FloatType) (n : Int) : t.Bits :=
  t.round (decide (n < 0)) n.natAbs 0

/-! ## Sums and products -/

/-- The integer `± m`. -/
def signed (negative : Bool) (m : Nat) : Int :=
  if negative then -(m : Int) else m

/-- Sum. An exact zero is negative only if both operands are. -/
def add (t : FloatType) (a b : t.Bits) : t.Bits :=
  match t.datum a, t.datum b with
  | .nan, _ => t.canonicalNaN
  | _, .nan => t.canonicalNaN
  | .infinite s, .infinite s' => if s = s' then t.infinity s else t.canonicalNaN
  | .infinite s, .finite .. => t.infinity s
  | .finite .., .infinite s => t.infinity s
  | .finite s m e, .finite s' m' e' =>
    let low := min e e'
    let sum := signed s (m <<< (e - low).toNat) + signed s' (m' <<< (e' - low).toNat)
    if sum = 0 then t.zero (s && s') else t.round (decide (sum < 0)) sum.natAbs low

/-- Difference. -/
def sub (t : FloatType) (a b : t.Bits) : t.Bits :=
  t.add a (t.neg b)

/-- Product. -/
def mul (t : FloatType) (a b : t.Bits) : t.Bits :=
  match t.datum a, t.datum b with
  | .nan, _ => t.canonicalNaN
  | _, .nan => t.canonicalNaN
  | .infinite s, .infinite s' => t.infinity (s != s')
  | .infinite s, .finite s' m _ => if m = 0 then t.canonicalNaN else t.infinity (s != s')
  | .finite s m _, .infinite s' => if m = 0 then t.canonicalNaN else t.infinity (s != s')
  | .finite s m e, .finite s' m' e' => t.round (s != s') (m * m') (e + e')

/-! ## Quotients and roots -/

/-- Appends a last bit that is one iff `cut` holds. -/
def sticky (m : Nat) (cut : Bool) : Nat :=
  2 * m + cut.toNat

/-- Quotient. -/
def div (t : FloatType) (a b : t.Bits) : t.Bits :=
  match t.datum a, t.datum b with
  | .nan, _ => t.canonicalNaN
  | _, .nan => t.canonicalNaN
  | .infinite _, .infinite _ => t.canonicalNaN
  | .infinite s, .finite s' .. => t.infinity (s != s')
  | .finite s .., .infinite s' => t.zero (s != s')
  | .finite s m e, .finite s' m' e' =>
    if m' = 0 then
      if m = 0 then t.canonicalNaN else t.infinity (s != s')
    else
      let extra := t.fractionBits + 3 + Nat.log2 m'
      let scaled := m <<< extra
      t.round (s != s') (sticky (scaled / m') (scaled % m' != 0)) (e - e' - (extra : Nat) - 1)

/-- The largest number below `root + 2 ^ bits` whose square is at most `n`, provided that the square
of `root` is. -/
def squareRoot (n : Nat) : (bits root : Nat) → Nat
  | 0, root => root
  | bits + 1, root =>
    let next := root + 1 <<< bits
    squareRoot n bits (if next * next ≤ n then next else root)

/-- Square root. The significand is scaled by an even power of two, so that the exponent halves. -/
def sqrt (t : FloatType) (a : t.Bits) : t.Bits :=
  match t.datum a with
  | .nan => t.canonicalNaN
  | .infinite s => if s then t.canonicalNaN else t.infinity false
  | .finite s m e =>
    if m = 0 then t.zero s
    else if s then t.canonicalNaN
    else
      let odd := (e % 2).toNat
      let extra := t.fractionBits + 3
      let scaled := m <<< (2 * extra + odd)
      let root := squareRoot scaled (Nat.log2 scaled / 2 + 1) 0
      t.round false (sticky root (root * root != scaled)) ((e - odd) / 2 - (extra : Nat) - 1)

/-! ## Rounding to integers -/

/-- How a number with a fraction becomes an integer. -/
inductive Direction where
  | up | down | towardZero | nearest
deriving DecidableEq

/-- The integer magnitude that stands for `m / 2 ^ k` under the given sign. -/
def roundMagnitude (d : Direction) (negative : Bool) (m k : Nat) : Nat :=
  let q := m >>> k
  let up := if m % (1 <<< k) = 0 then q else q + 1
  match d with
  | .up => if negative then q else up
  | .down => if negative then up else q
  | .towardZero => q
  | .nearest => shiftRound m k

/-- Rounds to an integer. The sign stays, also that of a zero. -/
def roundToInt (t : FloatType) (d : Direction) (a : t.Bits) : t.Bits :=
  match t.datum a with
  | .nan => t.canonicalNaN
  | .infinite _ => a
  | .finite s m e =>
    if 0 ≤ e then a else t.round s (roundMagnitude d s m (-e).toNat) 0

/-! ## Order -/

/-- How two numbers compare; nothing compares with a NaN. -/
def compare? (t : FloatType) (a b : t.Bits) : Option Ordering :=
  match t.datum a, t.datum b with
  | .nan, _ => none
  | _, .nan => none
  | .infinite s, .infinite s' => some (compare s' s)
  | .infinite s, .finite .. => some (if s then .lt else .gt)
  | .finite .., .infinite s => some (if s then .gt else .lt)
  | .finite s m e, .finite s' m' e' =>
    let low := min e e'
    some (compare (signed s (m <<< (e - low).toNat)) (signed s' (m' <<< (e' - low).toNat)))

/-- Equality of numbers: the zeros are equal and a NaN equals nothing. -/
def eq (t : FloatType) (a b : t.Bits) : Bool :=
  t.compare? a b == some .eq

/-- The lesser. A NaN operand gives the canonical NaN, and of two zeros a negative one is taken. -/
def min (t : FloatType) (a b : t.Bits) : t.Bits :=
  match t.compare? a b with
  | none => t.canonicalNaN
  | some .lt => a
  | some .eq => if t.sign a then a else b
  | some .gt => b

/-- The greater. A NaN operand gives the canonical NaN, and of two zeros a positive one is taken. -/
def max (t : FloatType) (a b : t.Bits) : t.Bits :=
  match t.compare? a b with
  | none => t.canonicalNaN
  | some .lt => b
  | some .eq => if t.sign a then b else a
  | some .gt => a

/-! ## Between float types and integers -/

/-- The same number in another float type, rounded where it does not fit. -/
def convert (source target : FloatType) (a : source.Bits) : target.Bits :=
  match source.datum a with
  | .nan => target.canonicalNaN
  | .infinite s => target.infinity s
  | .finite s m e => target.round s m e

/-- The same number as an `f64`, which has room for every `f32`. -/
def widen : (t : FloatType) → t.Bits → FloatType.f64.Bits
  | .f32, a => convert .f32 .f64 a
  | .f64, a => a

/-- A finite number without its fraction. -/
def truncate (negative : Bool) (m : Nat) (e : Int) : Int :=
  signed negative (if 0 ≤ e then m <<< e.toNat else m >>> (-e).toNat)

end FloatType

end WebAssembly
