import Mathlib.Algebra.Group.Nat.Defs
import WebAssembly.Float.Basic

/-!
# Float patterns and their fields

A pattern is its sign, its exponent field and its fraction field (`eq_of_fields`), and what it
denotes tells the fields of all patterns but NaNs (`finiteFields_of_datum`, `eq_of_datum`).
`scaled_bounds` is the place of the leading one, which rounding and hexadecimal text both give to
the highest bit of a significand.
-/

namespace WebAssembly.FloatType

variable {t : FloatType} {b b' : t.Bits}

theorem maxField_eq (t : FloatType) : t.maxField = 2 ^ t.exponentBits - 1 := by
  cases t <;> rfl

theorem fractionField_lt (b : t.Bits) : t.fractionField b < 2 ^ t.fractionBits := by
  rw [fractionField, Nat.one_shiftLeft]
  exact Nat.mod_lt _ (Nat.two_pow_pos _)

/-- The field of the exponent cannot exceed all ones. -/
theorem exponentField_le (b : t.Bits) : t.exponentField b ≤ t.maxField := by
  rw [exponentField, Nat.one_shiftLeft, maxField_eq]
  exact Nat.le_sub_one_of_lt (Nat.mod_lt _ (Nat.two_pow_pos _))

/-- Sign, exponent and fraction make up all of a pattern. -/
theorem eq_of_fields (hsign : t.sign b = t.sign b')
    (hexponent : t.exponentField b = t.exponentField b')
    (hfraction : t.fractionField b = t.fractionField b') : b = b' := by
  apply BitVec.eq_of_toNat_eq
  have hlt := b.isLt
  have hlt' := b'.isLt
  cases t <;>
    simp only [sign, exponentField, fractionField, width, fractionBits, exponentBits,
      Nat.testBit_eq_decide_div_mod_eq, Nat.shiftRight_eq_div_pow, Nat.one_shiftLeft, Nat.reducePow,
      Nat.reduceSub, decide_eq_decide] at * <;>
    omega

/-- The fields of a pattern that denotes `± m * 2 ^ e`. Only numbers in units of the least exponent
have no leading one. -/
structure FiniteFields (t : FloatType) (b : t.Bits) (negative : Bool) (m : Nat) (e : Int) :
    Prop where
  sign : t.sign b = negative
  fraction : t.fractionField b = m % 2 ^ t.fractionBits
  exponent_lt : t.exponentField b < t.maxField
  significand_lt : m < 2 ^ (t.fractionBits + 1)
  leading :
    m < 2 ^ t.fractionBits ∧ e = t.minExponent ∧ t.exponentField b = 0 ∨
      2 ^ t.fractionBits ≤ m ∧ e = t.minExponent + (t.exponentField b - 1 : Nat) ∧
        t.exponentField b ≠ 0

/-- The two shapes of a finite number, with the leading one and without it, told apart by the
exponent field. -/
theorem finiteFields_of_datum {negative : Bool} {m : Nat} {e : Int}
    (h : t.datum b = .finite negative m e) : FiniteFields t b negative m e := by
  have hf := t.fractionField_lt b
  have he := t.exponentField_le b
  have hdouble : 2 ^ (t.fractionBits + 1) = 2 ^ t.fractionBits + 2 ^ t.fractionBits := by
    rw [Nat.pow_succ, Nat.mul_two]
  simp only [datum, Nat.one_shiftLeft] at h
  split at h
  case isTrue => split at h <;> cases h
  case isFalse hmax =>
    split at h <;> cases h
    case isTrue hzero =>
      exact ⟨rfl, (Nat.mod_eq_of_lt hf).symm, by omega, by omega, .inl ⟨hf, rfl, hzero⟩⟩
    case isFalse hzero =>
      refine ⟨rfl, ?_, by omega, by omega, .inr ⟨Nat.le_add_right _ _, rfl, hzero⟩⟩
      rw [Nat.add_mod_left, Nat.mod_eq_of_lt hf]

theorem fields_of_infinite {negative : Bool} (h : t.datum b = .infinite negative) :
    t.sign b = negative ∧ t.exponentField b = t.maxField ∧ t.fractionField b = 0 := by
  simp only [datum] at h
  split at h <;> split at h <;> cases h
  exact ⟨rfl, ‹_›, ‹_›⟩

theorem exponentField_of_nan (h : t.datum b = .nan) : t.exponentField b = t.maxField := by
  simp only [datum] at h
  split at h
  · assumption
  · split at h <;> cases h

/-- Patterns that are no NaNs denote different things. -/
theorem eq_of_datum (hnumber : t.datum b ≠ .nan) (h : t.datum b = t.datum b') : b = b' := by
  cases hd : t.datum b with
  | nan => exact absurd hd hnumber
  | infinite negative =>
    obtain ⟨hs, he, hf⟩ := fields_of_infinite hd
    obtain ⟨hs', he', hf'⟩ := fields_of_infinite (h ▸ hd)
    exact eq_of_fields (hs.trans hs'.symm) (he.trans he'.symm) (hf.trans hf'.symm)
  | finite negative m e =>
    obtain ⟨hs, hf, -, -, hlead⟩ := finiteFields_of_datum hd
    obtain ⟨hs', hf', -, -, hlead'⟩ := finiteFields_of_datum (h ▸ hd)
    exact eq_of_fields (hs.trans hs'.symm) (by omega) (hf.trans hf'.symm)

/-- A significand moved up until its highest bit has place `k`. -/
theorem scaled_bounds {m k : Nat} (hm : m ≠ 0) (hplace : m.log2 ≤ k) :
    2 ^ k ≤ m * 2 ^ (k - m.log2) ∧ m * 2 ^ (k - m.log2) < 2 * 2 ^ k := by
  have hscale : 2 ^ m.log2 * 2 ^ (k - m.log2) = 2 ^ k := by
    rw [← Nat.pow_add, Nat.add_sub_cancel' hplace]
  constructor
  · calc 2 ^ k = 2 ^ m.log2 * 2 ^ (k - m.log2) := hscale.symm
      _ ≤ m * 2 ^ (k - m.log2) := Nat.mul_le_mul_right _ (Nat.log2_self_le hm)
  · calc m * 2 ^ (k - m.log2) < 2 ^ (m.log2 + 1) * 2 ^ (k - m.log2) :=
        Nat.mul_lt_mul_of_pos_right Nat.lt_log2_self (Nat.two_pow_pos _)
      _ = 2 * 2 ^ k := by rw [Nat.pow_succ', Nat.mul_assoc, hscale]

end WebAssembly.FloatType
