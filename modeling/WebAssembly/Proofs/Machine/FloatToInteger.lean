import Mathlib.Algebra.Order.Field.Power
import Mathlib.Data.Rat.Floor
import Mathlib.Tactic.FieldSimp
import Mathlib.Tactic.Positivity
import Mathlib.Tactic.Ring
import WebAssembly.Proofs.Floats
import WebAssembly.Proofs.Machine.Integers

/-!
# Floats that become integers

A float denotes no number, an infinity or a rational, which is read off its fields as the standard
for floats defines them (`FloatType.reading`). What the machine does to a float on its way to an
integer is said in terms of this rational alone: making it an `f64` does not change it
(`FloatType.reading_widen`), rounding drops its fraction (`FloatType.reading_roundToInt`),
comparisons order it (`FloatType.lt_eval_iff`, `FloatType.ge_eval_iff`), and the cast behind the
range test is exact (`FloatType.saturate_of_inRange`). So truncation is exact where it does not
trap, and it traps just where there is no integer of the type that is the rational without its
fraction (`FloatType.toInteger_eq`).
-/

namespace WebAssembly

/-! ## What a float denotes

The reading is defined from the fields of a pattern by the formula of the standard. The machine
works with a magnitude and an exponent; that these denote the same is shown here.
-/

/-- What a bit pattern denotes. -/
inductive Reading where
  | nan
  | infinite (negative : Bool)
  | number (q : ℚ)

namespace FloatType

/-- What the exponent field of the number one holds. -/
def bias (t : FloatType) : Int :=
  2 ^ (t.exponentBits - 1) - 1

/-- What the bits denote: the highest one is the sign, then come the exponent and the fraction. All
ones in the exponent stand for an infinity or, with a fraction, for no number. Otherwise the
fraction stands behind a one, or behind a zero if the exponent is the least. -/
def reading (t : FloatType) (b : t.Bits) : Reading :=
  let fraction : ℚ := (b.toNat % 2 ^ t.fractionBits : Nat) / 2 ^ t.fractionBits
  let exponent : Nat := b.toNat / 2 ^ t.fractionBits % 2 ^ t.exponentBits
  if exponent = 2 ^ t.exponentBits - 1 then
    if fraction = 0 then .infinite b.msb else .nan
  else
    .number ((if b.msb then -1 else 1) *
      if exponent = 0 then fraction * 2 ^ (1 - t.bias)
      else (1 + fraction) * 2 ^ ((exponent : Int) - t.bias))

end FloatType

/-- What a datum stands for. -/
def Datum.reading : Datum → Reading
  | .nan => .nan
  | .infinite negative => .infinite negative
  | .finite negative m e => .number ((if negative then -1 else 1) * (m * 2 ^ e))

namespace FloatType

variable {t : FloatType}

/-- The least exponent is that of the unit in the last place of the smallest numbers. -/
theorem minExponent_eq (t : FloatType) : t.minExponent = 1 - t.bias - t.fractionBits := by
  cases t <;> rfl

theorem sign_eq_msb (b : t.Bits) : t.sign b = b.msb := by
  rw [sign, BitVec.msb_eq_getLsbD_last]
  rfl

/-- The datum of a pattern says what the pattern denotes. -/
theorem reading_eq (b : t.Bits) : t.reading b = (t.datum b).reading := by
  have hpow : (2 : ℚ) ^ t.fractionBits ≠ 0 := by positivity
  have hscale : ∀ e : Int, (2 : ℚ) ^ (e - t.fractionBits) = 2 ^ e / 2 ^ t.fractionBits := by
    intro e
    rw [zpow_sub₀ (by norm_num), zpow_natCast]
  have hexp : b.toNat / 2 ^ t.fractionBits % 2 ^ t.exponentBits = t.exponentField b := by
    rw [exponentField, Nat.shiftRight_eq_div_pow, Nat.one_shiftLeft]
  have hfrac : b.toNat % 2 ^ t.fractionBits = t.fractionField b := by
    rw [fractionField, Nat.one_shiftLeft]
  have hzero : ((t.fractionField b : ℚ) / 2 ^ t.fractionBits = 0) ↔ t.fractionField b = 0 := by
    rw [div_eq_zero_iff, or_iff_left hpow, Nat.cast_eq_zero]
  simp only [reading, datum, hexp, hfrac, ← maxField_eq, ← sign_eq_msb, hzero]
  by_cases hmax : t.exponentField b = t.maxField
  · rw [if_pos hmax, if_pos hmax]
    split <;> rfl
  · rw [if_neg hmax, if_neg hmax]
    by_cases he : t.exponentField b = 0
    · -- no leading one: the fraction counts units of the least exponent
      rw [if_pos he, if_pos he, Datum.reading, minExponent_eq, hscale]
      congr 2
      ring
    · have hunit : t.minExponent + (t.exponentField b - 1 : Nat) =
          (t.exponentField b : Int) - t.bias - t.fractionBits := by
        rw [minExponent_eq]
        omega
      rw [if_neg he, if_neg he, Datum.reading, hunit, hscale, Nat.one_shiftLeft]
      congr 2
      push_cast
      field_simp

end FloatType

/-! ## Rounding toward zero

Of a number in units of a power of two, by shifting.
-/

/-- A rational without its fraction. -/
def towardZero (q : ℚ) : Int :=
  if 0 ≤ q then ⌊q⌋ else ⌈q⌉

theorem towardZero_of_nonneg {q : ℚ} (h : 0 ≤ q) : towardZero q = ⌊q⌋ :=
  if_pos h

/-- Dropping the fraction does not look at the sign. -/
theorem towardZero_neg (q : ℚ) : towardZero (-q) = -towardZero q := by
  unfold towardZero
  rcases lt_trichotomy q 0 with hq | rfl | hq
  · rw [if_pos (by linarith), if_neg (by linarith), Int.floor_neg]
  · simp
  · rw [if_neg (by linarith), if_pos (by linarith), Int.ceil_neg]

/-- Rounding down a number scaled by a power of two is a shift, to either side. -/
theorem floor_scaled (m : Nat) (e : Int) :
    ⌊(m : ℚ) * 2 ^ e⌋ = ((if 0 ≤ e then m <<< e.toNat else m >>> (-e).toNat : Nat) : Int) := by
  split
  · next he =>
      obtain ⟨n, rfl⟩ := Int.eq_ofNat_of_zero_le he
      rw [Int.toNat_natCast, Nat.shiftLeft_eq, zpow_natCast]
      exact_mod_cast Int.floor_natCast (R := ℚ) (m * 2 ^ n)
  · next he =>
      obtain ⟨n, hn⟩ := Int.eq_ofNat_of_zero_le (show 0 ≤ -e by omega)
      obtain rfl : e = -(n : Int) := by omega
      rw [neg_neg, Int.toNat_natCast, Nat.shiftRight_eq_div_pow, zpow_neg, zpow_natCast,
        ← div_eq_mul_inv]
      exact_mod_cast Rat.floor_natCast_div_natCast m (2 ^ n)

/-- Shifting a magnitude truncates the number it stands for. -/
theorem FloatType.truncate_eq (negative : Bool) (m : Nat) (e : Int) :
    FloatType.truncate negative m e = towardZero ((if negative then -1 else 1) * (m * 2 ^ e)) := by
  have hnonneg : (0 : ℚ) ≤ m * 2 ^ e := by positivity
  have hfloor := floor_scaled m e
  cases negative with
  | false =>
      simp [FloatType.truncate, FloatType.signed, towardZero_of_nonneg hnonneg, hfloor]
  | true =>
      simp [FloatType.truncate, FloatType.signed, towardZero_neg, towardZero_of_nonneg hnonneg,
        hfloor]

/-! ## Numbers that a float type can hold

A significand that fits is not rounded, so building a float from it is exact. This gives widening,
and the result of dropping a fraction.
-/

namespace FloatType

variable {t : FloatType}

/-- The sign stands above the magnitude in the bits. -/
theorem toNat_ofMagnitude (negative : Bool) {m : Nat} (hm : m < 2 ^ (t.width - 1)) :
    (t.ofMagnitude negative m).toNat = (if negative then 2 ^ (t.width - 1) else 0) + m := by
  rw [ofMagnitude, BitVec.toNat_ofNat, Nat.one_shiftLeft, Nat.mod_eq_of_lt]
  have hwidth : 2 ^ t.width = 2 * 2 ^ (t.width - 1) := by cases t <;> rfl
  rw [hwidth]
  split <;> omega

/-- The fields of a pattern that was put together from them. -/
theorem datum_ofMagnitude (negative : Bool) {field fraction : Nat} (hfield : field + 1 < t.maxField)
    (hfraction : fraction < 2 ^ t.fractionBits) :
    t.datum (t.ofMagnitude negative ((field + 1) * 2 ^ t.fractionBits + fraction)) =
      .finite negative (2 ^ t.fractionBits + fraction) (t.minExponent + field) := by
  -- the magnitude stays clear of the sign bit, so that the three fields can be read off again
  have hsmall : (field + 1) * 2 ^ t.fractionBits + fraction < 2 ^ (t.width - 1) := by
    cases t <;> simp only [maxField, fractionBits, width] at * <;> omega
  have hbits := toNat_ofMagnitude negative hsmall
  have hsign : t.sign
      (t.ofMagnitude negative ((field + 1) * 2 ^ t.fractionBits + fraction)) = negative := by
    rw [sign, hbits, Nat.testBit_eq_decide_div_mod_eq]
    cases t <;> cases negative <;> simp [maxField, fractionBits, width] at * <;> omega
  have hexponent : t.exponentField
      (t.ofMagnitude negative ((field + 1) * 2 ^ t.fractionBits + fraction)) = field + 1 := by
    rw [exponentField, hbits, Nat.shiftRight_eq_div_pow, Nat.one_shiftLeft]
    cases t <;> cases negative <;> simp [maxField, fractionBits, exponentBits, width] at * <;> omega
  have hrest : t.fractionField
      (t.ofMagnitude negative ((field + 1) * 2 ^ t.fractionBits + fraction)) = fraction := by
    rw [fractionField, hbits, Nat.one_shiftLeft]
    cases t <;> cases negative <;> simp [maxField, fractionBits, width] at * <;> omega
  rw [datum, hsign, hexponent, hrest, if_neg (by omega), if_neg (by omega), Nat.one_shiftLeft,
    Nat.add_sub_cancel]

/-- A number that fits the significand and the exponents is not changed by rounding. -/
theorem datum_round (negative : Bool) {m : Nat} {e : Int} (hm : m ≠ 0)
    (hbits : Nat.log2 m ≤ t.fractionBits)
    (hlo : t.minExponent ≤ e + Nat.log2 m - t.fractionBits)
    (hhi : e + Nat.log2 m - t.fractionBits - t.minExponent + 1 < t.maxField) :
    t.datum (t.round negative m e) =
      .finite negative (m * 2 ^ (t.fractionBits - Nat.log2 m))
        (e + Nat.log2 m - t.fractionBits) := by
  obtain ⟨field, hfield⟩ :=
    Int.eq_ofNat_of_zero_le (show 0 ≤ e + Nat.log2 m - t.fractionBits - t.minExponent by omega)
  -- the highest bit of the significand gets the place of the leading one
  obtain ⟨hleast, hmost⟩ := scaled_bounds hm hbits
  obtain ⟨fraction, hfraction⟩ := Nat.exists_eq_add_of_le hleast
  have hmagnitude : field * 2 ^ t.fractionBits + (2 ^ t.fractionBits + fraction) =
      (field + 1) * 2 ^ t.fractionBits + fraction := by
    rw [Nat.add_mul, Nat.one_mul, Nat.add_assoc]
  have hfinite : (field + 1) * 2 ^ t.fractionBits + fraction ≤ t.infinityMagnitude := by
    have hle : (field + 2) * 2 ^ t.fractionBits ≤ t.maxField * 2 ^ t.fractionBits :=
      Nat.mul_le_mul_right _ (by omega)
    rw [infinityMagnitude, Nat.shiftLeft_eq]
    rw [Nat.add_mul] at hle ⊢
    omega
  have hround : t.round negative m e =
      t.ofMagnitude negative ((field + 1) * 2 ^ t.fractionBits + fraction) := by
    rw [round, if_neg hm]
    simp only [max_eq_left hlo, hfield]
    rw [if_pos (by omega), show (e - (e + Nat.log2 m - t.fractionBits)).toNat =
      t.fractionBits - Nat.log2 m by omega, Nat.shiftLeft_eq, Nat.shiftLeft_eq, hfraction]
    rw [Int.toNat_natCast, hmagnitude, min_eq_left hfinite]
  rw [hround, datum_ofMagnitude negative (by omega) (by omega), hfraction]
  congr 1
  omega

/-- A finite float is a number of at most one bit more than its fraction, times a power of two in
the range of its exponents. -/
theorem datum_bounds {b : t.Bits} {negative : Bool} {m : Nat} {e : Int}
    (h : t.datum b = .finite negative m e) :
    m < 2 ^ (t.fractionBits + 1) ∧ t.minExponent ≤ e ∧ e + 2 ≤ t.minExponent + t.maxField := by
  obtain ⟨-, -, hexponent, hlt, hlead⟩ := finiteFields_of_datum h
  have hmax : 2 ≤ t.maxField := by cases t <;> decide
  omega

/-- Rounding does not change a number whose significand and exponent fit, whichever way they do. -/
theorem reading_round (negative : Bool) {m : Nat} {e : Int} (hm : m < 2 ^ (t.fractionBits + 1))
    (hlo : t.minExponent + t.fractionBits ≤ e) (hhi : e - t.minExponent + 1 < t.maxField) :
    t.reading (t.round negative m e) = .number ((if negative then -1 else 1) * (m * 2 ^ e)) := by
  rw [reading_eq]
  by_cases hzero : m = 0
  · have hround : t.datum (t.round negative 0 e) = .finite negative 0 t.minExponent := by
      rw [round, if_pos rfl]
      cases t <;> cases negative <;> rfl
    simp [hzero, hround, Datum.reading]
  · have hlog : Nat.log2 m < t.fractionBits + 1 := (Nat.log2_lt hzero).mpr hm
    have hexponent : ((t.fractionBits - Nat.log2 m : Nat) : Int) +
        (e + Nat.log2 m - t.fractionBits) = e := by
      omega
    rw [datum_round negative hzero (by omega) (by omega) (by omega), Datum.reading, Nat.cast_mul,
      Nat.cast_pow, mul_assoc, Nat.cast_ofNat, ← zpow_natCast, ← zpow_add₀ (by norm_num),
      hexponent]

theorem reading_canonicalNaN (t : FloatType) : t.reading t.canonicalNaN = .nan := by
  rw [reading_eq]
  cases t <;> rfl

/-- Every `f32` is the same number as an `f64`. -/
theorem reading_promote (a : FloatType.f32.Bits) :
    FloatType.f64.reading (convert .f32 .f64 a) = FloatType.f32.reading a := by
  rw [reading_eq a, convert]
  cases hdatum : FloatType.f32.datum a with
  | nan => exact FloatType.f64.reading_canonicalNaN
  | infinite negative =>
      rw [reading_eq]
      cases negative <;> rfl
  | finite negative m e =>
      obtain ⟨hm, hlo, hhi⟩ := datum_bounds hdatum
      simp only [fractionBits, minExponent, maxField] at hm hlo hhi
      -- the wider format has room for every exponent and fraction of the narrower one
      apply reading_round
      · simp only [fractionBits]
        omega
      · simp only [fractionBits, minExponent]
        omega
      · simp only [minExponent, maxField]
        omega

/-- As an `f64` a float denotes what it denoted before. -/
theorem reading_widen (t : FloatType) (a : t.Bits) :
    FloatType.f64.reading (t.widen a) = t.reading a := by
  cases t with
  | f32 => exact reading_promote a
  | f64 => rfl

end FloatType

/-! ## Dropping the fraction

A float without its fraction is a float again: what is left has no more bits than it had before.
-/

/-- What is left of a reading without the fraction. -/
def Reading.whole : Reading → Reading
  | .nan => .nan
  | .infinite negative => .infinite negative
  | .number q => .number (towardZero q)

namespace FloatType

/-- Only finite patterns denote numbers. -/
theorem datum_of_number {t : FloatType} {a : t.Bits} {q : ℚ} (h : t.reading a = .number q) :
    ∃ negative m e, t.datum a = .finite negative m e ∧
      q = (if negative then -1 else 1) * (m * 2 ^ e) := by
  rw [reading_eq] at h
  cases hdatum : t.datum a with
  | nan =>
      rw [hdatum] at h
      cases h
  | infinite negative =>
      rw [hdatum] at h
      cases h
  | finite negative m e =>
      rw [hdatum] at h
      exact ⟨negative, m, e, rfl, (Reading.number.inj h).symm⟩

/-- Only a NaN denotes no number. -/
theorem isNaN_iff {t : FloatType} (a : t.Bits) : t.isNaN a = true ↔ t.reading a = .nan := by
  rw [reading_eq, isNaN, datum]
  by_cases hmax : t.exponentField a = t.maxField
  · by_cases hzero : t.fractionField a = 0
    · simp [hmax, hzero, Datum.reading]
    · simp [hmax, hzero, Datum.reading]
  · simp only [hmax, if_false]
    split <;> simp [hmax, Datum.reading]

/-- A sign and a magnitude make up an integer. -/
theorem signed_eq (negative : Bool) (m : Nat) :
    (signed negative m : ℚ) = (if negative then -1 else 1) * m := by
  cases negative <;> simp [signed]

/-- Rounding toward zero drops the fraction. A number without one is kept as it is, and what is left
of any other one has few enough bits to be exact. -/
theorem reading_roundToInt (t : FloatType) (a : t.Bits) :
    t.reading (t.roundToInt .towardZero a) = (t.reading a).whole := by
  rw [reading_eq a, roundToInt]
  cases hdatum : t.datum a with
  | nan => exact t.reading_canonicalNaN
  | infinite negative => exact (reading_eq a).trans (congrArg Datum.reading hdatum)
  | finite negative m e =>
      have hwhole : (Datum.finite negative m e).reading.whole =
          .number (truncate negative m e : Int) := by
        rw [Datum.reading, Reading.whole, truncate_eq]
      rw [hwhole, truncate, signed_eq]
      dsimp only
      -- from exponent zero on there is no fraction to drop
      by_cases he : 0 ≤ e
      · obtain ⟨n, rfl⟩ := Int.eq_ofNat_of_zero_le he
        rw [if_pos he, if_pos he, reading_eq, hdatum, Datum.reading, Int.toNat_natCast,
          Nat.shiftLeft_eq, zpow_natCast]
        push_cast
        rfl
      · obtain ⟨hm, -, -⟩ := datum_bounds hdatum
        have hsmall : m >>> (-e).toNat < 2 ^ (t.fractionBits + 1) :=
          Nat.lt_of_le_of_lt (Nat.shiftRight_le m _) hm
        have hround := reading_round (e := 0) negative hsmall (by cases t <;> decide)
          (by cases t <;> decide)
        rw [zpow_zero, mul_one] at hround
        rw [if_neg he, if_neg he]
        exact hround

end FloatType

/-! ## Comparing

Magnitudes are brought to the smaller of two exponents and compared as integers, which is comparing
the rationals.
-/

/-- It is less than the bound. -/
def Reading.Below (bound : ℚ) : Reading → Prop
  | .nan => False
  | .infinite negative => negative = true
  | .number q => q < bound

/-- It is at least the bound. -/
def Reading.AtLeast (bound : ℚ) : Reading → Prop
  | .nan => False
  | .infinite negative => negative = false
  | .number q => bound ≤ q

namespace FloatType

variable {t : FloatType} {a b : t.Bits} {q bound : ℚ}

/-- A number as a multiple of a unit below its own. -/
theorem signed_shiftLeft (negative : Bool) (m : Nat) {e low : Int} (h : low ≤ e) :
    (signed negative (m <<< (e - low).toNat) : ℚ) * 2 ^ low =
      (if negative then -1 else 1) * (m * 2 ^ e) := by
  obtain ⟨n, hn⟩ := Int.eq_ofNat_of_zero_le (show 0 ≤ e - low by omega)
  have he : e = n + low := by omega
  rw [signed_eq, hn, Int.toNat_natCast, Nat.shiftLeft_eq, he, zpow_add₀ (by norm_num),
    zpow_natCast]
  push_cast
  ring

/-- Numbers are compared as the rationals they denote: counted in the smaller of their units, both
are integers. -/
theorem compare_of_numbers (ha : t.reading a = .number q) (hb : t.reading b = .number bound) :
    t.compare? a b = some (compare q bound) := by
  obtain ⟨negative, m, e, hdatum, rfl⟩ := datum_of_number ha
  obtain ⟨negative', m', e', hdatum', rfl⟩ := datum_of_number hb
  -- both numbers are whole in units of the smaller exponent
  have hunit : (0 : ℚ) < 2 ^ (Min.min e e') := by positivity
  rw [compare?, hdatum, hdatum', ← signed_shiftLeft negative m (Int.min_le_left e e'),
    ← signed_shiftLeft negative' m' (Int.min_le_right e e')]
  dsimp only
  generalize signed negative (m <<< (e - Min.min e e').toNat) = x
  generalize signed negative' (m' <<< (e' - Min.min e e').toNat) = y
  rcases lt_trichotomy x y with hlt | rfl | hgt
  · have hlt' : (x : ℚ) * 2 ^ (Min.min e e') < y * 2 ^ (Min.min e e') :=
      mul_lt_mul_of_pos_right (by exact_mod_cast hlt) hunit
    rw [compare_lt_iff_lt.mpr hlt, compare_lt_iff_lt.mpr hlt']
  · rw [compare_eq_iff_eq.mpr rfl, compare_eq_iff_eq.mpr rfl]
  · have hgt' : (y : ℚ) * 2 ^ (Min.min e e') < x * 2 ^ (Min.min e e') :=
      mul_lt_mul_of_pos_right (by exact_mod_cast hgt) hunit
    rw [compare_gt_iff_gt.mpr hgt, compare_gt_iff_gt.mpr hgt']

/-- Nothing compares with a NaN. -/
theorem compare_of_nan (ha : t.reading a = .nan) : t.compare? a b = none := by
  rw [reading_eq] at ha
  cases hdatum : t.datum a <;> rw [hdatum] at ha <;> cases ha
  rw [compare?, hdatum]

/-- An infinity lies beyond all numbers on its side. -/
theorem compare_of_infinite {negative : Bool} (ha : t.reading a = .infinite negative)
    (hb : t.reading b = .number bound) :
    t.compare? a b = some (if negative then .lt else .gt) := by
  obtain ⟨negative', m', e', hdatum', -⟩ := datum_of_number hb
  rw [reading_eq] at ha
  cases hdatum : t.datum a <;> rw [hdatum] at ha <;> cases ha
  rw [compare?, hdatum, hdatum']

/-- The test whether a float is less than a number. -/
theorem lt_eval_iff (hb : t.reading b = .number bound) :
    FloatCompare.lt.eval t a b = true ↔ (t.reading a).Below bound := by
  rw [FloatCompare.eval]
  cases ha : t.reading a with
  | nan => simp [Reading.Below, compare_of_nan ha]
  | infinite negative => cases negative <;> simp [Reading.Below, compare_of_infinite ha hb]
  | number q => simp [Reading.Below, compare_of_numbers ha hb, compare_lt_iff_lt]

/-- The test whether a float is at least a number. -/
theorem ge_eval_iff (hb : t.reading b = .number bound) :
    FloatCompare.ge.eval t a b = true ↔ (t.reading a).AtLeast bound := by
  rw [FloatCompare.eval]
  cases ha : t.reading a with
  | nan => simp [Reading.AtLeast, compare_of_nan ha]
  | infinite negative => cases negative <;> simp [Reading.AtLeast, compare_of_infinite ha hb]
  | number q =>
      simp only [Reading.AtLeast, compare_of_numbers ha hb, Bool.or_eq_true, beq_iff_eq,
        Option.some.injEq, compare_gt_iff_gt, compare_eq_iff_eq]
      rw [le_iff_lt_or_eq, eq_comm (a := q)]

end FloatType

/-! ## Truncation

The range test of the machine compares floats with two powers of two. That it is a test of the
integer without its fraction takes a look at both ends of the range.
-/

/-- The least integer of `w` bits. -/
def Sign.least (w : Nat) : Sign → Int
  | .signed => -2 ^ (w - 1)
  | .unsigned => 0

/-- The greatest integer of `w` bits. -/
def Sign.greatest (w : Nat) : Sign → Int
  | .signed => 2 ^ (w - 1) - 1
  | .unsigned => 2 ^ w - 1

/-- Number of bits that a positive integer of `w` bits can use. -/
def Sign.bits (w : Nat) : Sign → Nat
  | .signed => w - 1
  | .unsigned => w

/-- It is one of the integers of `w` bits. -/
def Sign.InRange (sign : Sign) (w : Nat) (n : Int) : Prop :=
  sign.least w ≤ n ∧ n ≤ sign.greatest w

instance (sign : Sign) (w : Nat) (n : Int) : Decidable (sign.InRange w n) :=
  inferInstanceAs (Decidable (_ ∧ _))

/-- The limits of a type are its least and its greatest number. -/
theorem Sign.limit_eq (sign : Sign) (w : Nat) :
    sign.limit w true = sign.least w ∧ sign.limit w false = sign.greatest w := by
  cases sign with
  | signed =>
      constructor <;> simp [Sign.limit, Sign.least, Sign.greatest, Nat.one_shiftLeft]
  | unsigned =>
      constructor <;> simp [Sign.limit, Sign.least, Sign.greatest, Nat.one_shiftLeft]

/-- A number in range is left alone by the cast. -/
theorem Sign.clamp_of_inRange {sign : Sign} {w : Nat} {n : Int} (h : sign.InRange w n) :
    sign.clamp w n = n := by
  obtain ⟨hlimit, hlimit'⟩ := sign.limit_eq w
  rw [Sign.clamp, hlimit, hlimit', min_eq_left h.2, max_eq_right h.1]

namespace Reading

/-- What truncation makes of a reading. -/
def toInteger (sign : Sign) (w : Nat) : Reading → Except Trap (BitVec w)
  | .nan => .error .invalidConversion
  | .infinite _ => .error .integerOverflow
  | .number q =>
    if sign.InRange w (towardZero q) then .ok (BitVec.ofInt w (towardZero q))
    else .error .integerOverflow

variable {sign : Sign} {w : Nat} {r : Reading}

/-- Only a NaN is refused as invalid. -/
theorem toInteger_eq_invalid_iff : r.toInteger sign w = .error .invalidConversion ↔ r = .nan := by
  cases r with
  | nan => simp [toInteger]
  | infinite negative => simp [toInteger]
  | number q =>
      simp only [toInteger, reduceCtorEq, iff_false]
      split <;> simp

/-- Only what is out of range, an infinity included, is refused as an overflow. -/
theorem toInteger_eq_overflow_iff : r.toInteger sign w = .error .integerOverflow ↔
    (∃ negative, r = .infinite negative) ∨
      ∃ q, r = .number q ∧ ¬ sign.InRange w (towardZero q) := by
  cases r with
  | nan => simp [toInteger]
  | infinite negative => simp [toInteger]
  | number q =>
      simp only [toInteger, reduceCtorEq, exists_false, false_or, number.injEq, exists_eq_left']
      split <;> simp [*]

/-- A result is the number without its fraction. -/
theorem toInteger_eq_ok_iff {b : BitVec w} : r.toInteger sign w = .ok b ↔
    ∃ q, r = .number q ∧ sign.InRange w (towardZero q) ∧ b = BitVec.ofInt w (towardZero q) := by
  cases r with
  | nan => simp [toInteger]
  | infinite negative => simp [toInteger]
  | number q =>
      simp only [toInteger, number.injEq, exists_eq_left']
      split <;> simp [*, eq_comm]

end Reading

theorem towardZero_intCast (n : Int) : towardZero n = n := by
  rw [towardZero, Int.floor_intCast, Int.ceil_intCast, ite_self]

/-- The cast of an integer that is in range is that integer. -/
theorem FloatType.saturate_of_inRange {t : FloatType} {sign : Sign} {w : Nat} {a : t.Bits} {n : Int}
    (ha : t.reading a = .number n) (hn : sign.InRange w n) :
    t.saturate sign w a = BitVec.ofInt w n := by
  obtain ⟨negative, m, e, hdatum, hvalue⟩ := datum_of_number ha
  have htruncate : FloatType.truncate negative m e = n := by
    rw [FloatType.truncate_eq, ← hvalue, towardZero_intCast]
  rw [FloatType.saturate, hdatum]
  dsimp only
  rw [htruncate, Sign.clamp_of_inRange hn]

/-- A float whose fields make up an integer denotes it. -/
theorem FloatType.reading_of_datum {t : FloatType} {b : t.Bits} {negative : Bool} {m : Nat}
    {e n : Int} (h : t.datum b = .finite negative m e)
    (hn : (if negative then -1 else 1) * ((m : ℚ) * 2 ^ e) = n) : t.reading b = .number n := by
  rw [FloatType.reading_eq, h, Datum.reading, hn]

/-- The least float that is accepted is the least integer of the type. -/
theorem IntType.reading_leastFloat (target : IntType) (sign : Sign) :
    FloatType.f64.reading (target.leastFloat sign) = .number (sign.least target.width : Int) := by
  have hzero : FloatType.f64.datum (FloatType.f64.zero false) = .finite false 0 (-1074) := rfl
  cases sign with
  | signed =>
      cases target with
      | i32 =>
          have hdatum : FloatType.f64.datum (leastFloat .i32 .signed) =
            .finite true (2 ^ 52) (-21) := rfl
          exact FloatType.reading_of_datum hdatum (by norm_num [Sign.least, IntType.width])
      | i64 =>
          have hdatum : FloatType.f64.datum (leastFloat .i64 .signed) =
            .finite true (2 ^ 52) 11 := rfl
          exact FloatType.reading_of_datum hdatum (by norm_num [Sign.least, IntType.width])
  | unsigned =>
      cases target with
      | i32 => exact FloatType.reading_of_datum hzero (by norm_num [Sign.least])
      | i64 => exact FloatType.reading_of_datum hzero (by norm_num [Sign.least])

/-- The float from which on is refused is one more than the greatest integer of the type, also where
that integer is not a float itself. -/
theorem IntType.reading_floatBound (target : IntType) (sign : Sign) :
    FloatType.f64.reading (target.floatBound sign) =
      .number (sign.greatest target.width + 1 : Int) := by
  -- each bound is the leading one of a significand, moved to its place
  have hdatum : FloatType.f64.datum (target.floatBound sign) = .finite false (2 ^ 52)
      ((sign.bits target.width : Int) - 52) := by
    cases target <;> cases sign <;> rfl
  refine FloatType.reading_of_datum hdatum ?_
  cases target <;> cases sign <;>
    norm_num [Sign.bits, Sign.greatest, IntType.width]

section Within

variable (target : IntType) (sign : Sign) {x : FloatType.f64.Bits}

/-- A NaN is refused before anything is compared. -/
theorem truncateWithin_of_nan (h : FloatType.f64.reading x = .nan) :
    truncateWithin (target.leastFloat sign) (target.floatBound sign) x =
      .error .invalidConversion :=
  if_pos ((FloatType.isNaN_iff x).mpr h)

/-- What is no NaN is refused if it is less than the least float or reaches the bound, once its
fraction is dropped. -/
theorem truncateWithin_of_not_nan (h : FloatType.f64.reading x ≠ .nan)
    (out : Prop) [Decidable out]
    (hout : out ↔ (FloatType.f64.reading x).whole.Below (sign.least target.width : Int) ∨
      (FloatType.f64.reading x).whole.AtLeast (sign.greatest target.width + 1 : Int)) :
    truncateWithin (target.leastFloat sign) (target.floatBound sign) x =
      if out then .error .integerOverflow
      else .ok (FloatType.f64.roundToInt .towardZero x) := by
  have hnan : ¬ FloatType.f64.isNaN x = true := fun hx => h ((FloatType.isNaN_iff x).mp hx)
  rw [truncateWithin, if_neg hnan]
  dsimp only
  simp only [Bool.or_eq_true, FloatType.lt_eval_iff (target.reading_leastFloat sign),
    FloatType.ge_eval_iff (target.reading_floatBound sign), FloatType.reading_roundToInt, ← hout]

end Within

/-- Truncation of a float is truncation of what it denotes. -/
theorem FloatType.toInteger_eq (t : FloatType) (sign : Sign) (target : IntType) (a : t.Bits) :
    t.toInteger sign target a = (t.reading a).toInteger sign target.width := by
  have hread := FloatType.reading_widen t a
  have hwhole := FloatType.f64.reading_roundToInt (t.widen a)
  rw [FloatType.toInteger]
  cases hreading : t.reading a with
  | nan =>
      rw [truncateWithin_of_nan target sign (hread.trans hreading)]
      rfl
  | infinite negative =>
      rw [hreading] at hread
      -- every infinity lies beyond one of the ends
      rw [truncateWithin_of_not_nan target sign (by rw [hread]; exact Reading.noConfusion) True
        (by rw [hread]; cases negative <;> simp [Reading.whole, Reading.Below, Reading.AtLeast])]
      rfl
  | number q =>
      rw [hreading] at hread
      rw [hread] at hwhole
      rw [truncateWithin_of_not_nan target sign (by rw [hread]; exact Reading.noConfusion)
        (¬ sign.InRange target.width (towardZero q)) (by
          rw [hread, Sign.InRange, Reading.whole, Reading.Below, Reading.AtLeast, Int.cast_lt,
            Int.cast_le]
          omega)]
      by_cases hrange : sign.InRange target.width (towardZero q)
      · rw [if_neg (not_not.mpr hrange), Reading.toInteger, if_pos hrange]
        exact congrArg Except.ok (FloatType.saturate_of_inRange hwhole hrange)
      · rw [if_pos hrange, Reading.toInteger, if_neg hrange]
        rfl

/-- Just below zero nothing is left without the fraction. -/
theorem towardZero_eq_zero {q : ℚ} (hlo : -1 < q) (hhi : q < 0) : towardZero q = 0 := by
  rw [towardZero, if_neg (by linarith), Int.ceil_eq_zero_iff]
  exact ⟨hlo, by linarith⟩

namespace Numeric

/-- The instruction does with the bits what truncation does with the number they stand for, as
computed by widening, dropping the fraction and comparing with the two limits. -/
theorem outcome_truncate (target : IntType) (source : FloatType) (sign : Sign) (a : source.Bits) :
    (conversion (.truncate target source sign)).Outcome [.float source a]
      (((source.reading a).toInteger sign target.width).map (.int target)) := by
  apply outcome_of_one
  intro stack
  rw [OnStack.numeric, OnStack.conversion, bind_of_ok (OnStack.popFloat_push source a _),
    FloatType.toInteger_eq]
  cases (source.reading a).toInteger sign target.width <;> rfl

end Numeric

/-! ## The law of truncation -/

/-- Truncation of a float to an integer, with a sign or without.

* It traps for an invalid conversion just if the float denotes no number, and for an overflow just
  if it denotes an infinity or a rational that is, without its fraction, out of range.
* Otherwise it gives just that integer.
* Hence a rational between minus one and zero gives zero if there is no sign.
* The result depends on nothing but what the float denotes, and every `f32` denotes the same as
  some `f64`, which promotion finds. -/
theorem truncation_exact (target : IntType) (source : FloatType) (sign : Sign) (a : source.Bits) :
    let truncation := (Numeric.conversion (.truncate target source sign)).Outcome [.float source a]
    (truncation (.error .invalidConversion) ↔ source.reading a = .nan) ∧
    (truncation (.error .integerOverflow) ↔ (∃ negative, source.reading a = .infinite negative) ∨
      ∃ q, source.reading a = .number q ∧ ¬ sign.InRange target.width (towardZero q)) ∧
    (∀ r, truncation (.ok (.int target r)) ↔ ∃ q, source.reading a = .number q ∧
      sign.InRange target.width (towardZero q) ∧ r = BitVec.ofInt target.width (towardZero q)) ∧
    (∀ q, source.reading a = .number q → -1 < q → q < 0 → sign = .unsigned →
      truncation (.ok (.int target 0))) ∧
    (∀ (source' : FloatType) (a' : source'.Bits), source'.reading a' = source.reading a →
      ∀ outcome, (Numeric.conversion (.truncate target source' sign)).Outcome [.float source' a']
        outcome ↔ truncation outcome) ∧
    ∀ b : FloatType.f32.Bits, ∃ b' : FloatType.f64.Bits,
      (Numeric.conversion .promote).Outcome [.f32 b] (.ok (.f64 b')) ∧
        FloatType.f64.reading b' = FloatType.f32.reading b := by
  have honly := Numeric.outcome_truncate target source sign a
  have hok : ∀ r, (Numeric.conversion (.truncate target source sign)).Outcome [.float source a]
      (.ok (.int target r)) ↔ ∃ q, source.reading a = .number q ∧
        sign.InRange target.width (towardZero q) ∧
          r = BitVec.ofInt target.width (towardZero q) := fun r => by
    rw [honly.gives_iff, Reading.toInteger_eq_ok_iff]
  refine ⟨?_, ?_, hok, fun q hq hlo hhi hsign => ?_, fun source' a' hsame outcome => ?_,
    fun b => ⟨FloatType.convert .f32 .f64 b, Numeric.outcome_of_one fun _ => rfl,
      FloatType.reading_promote b⟩⟩
  · rw [honly.traps_iff, Reading.toInteger_eq_invalid_iff]
  · rw [honly.traps_iff, Reading.toInteger_eq_overflow_iff]
  · -- zero is in range without a sign, whatever the width
    have hrange : Sign.InRange .unsigned target.width 0 := by cases target <;> decide
    refine (hok 0).mpr ⟨q, hq, ?_, ?_⟩
    · rwa [towardZero_eq_zero hlo hhi, hsign]
    · rw [towardZero_eq_zero hlo hhi]
      rfl
  · rw [honly.iff, (Numeric.outcome_truncate target source' sign a').iff, hsame]

end WebAssembly
