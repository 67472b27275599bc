import WebAssembly.Float.Text
import WebAssembly.Proofs.Floats
import WebAssembly.Proofs.Text.Numbers

/-!
# Hexadecimal texts of floats

Floats can be written in hexadecimal so that the text tells the bits, those of a NaN included:
`FloatPrinter.lawful_hexadecimal`. Sign, fraction and exponent are read off the text one after the
other; what is left out of a fraction are zeros at its end, of which the width of the type tells how
many there were. The highest bit of a significand stands at the place that the exponent names, so
that equal exponents and equal fractions leave one significand only (`FloatType.finite_inj`).
-/

namespace WebAssembly

namespace Text

/-! ## Hexadecimal digits

Fixed and free numbers of digits, and fractions with zeros dropped at the end.
-/

theorem hexDigit_mem {n : Nat} (h : n < 16) : hexDigit n ∈ "0123456789abcdef".toList := by
  revert n
  decide

/-- The sixteen digits are different characters. -/
theorem hexDigit_inj {m n : Nat} (hm : m < 16) (hn : n < 16) (h : hexDigit m = hexDigit n) :
    m = n := by
  have hall : ∀ m < 16, ∀ n < 16, hexDigit m = hexDigit n → m = n := by decide
  exact hall m hm n hn h

/-- Digits are digits, so neither a point nor a `p` is among them. -/
theorem mem_of_mem_hexDigits {count n : Nat} {c : Char} (h : c ∈ hexDigits count n) :
    c ∈ "0123456789abcdef".toList := by
  induction count generalizing n with
  | zero => simp [hexDigits] at h
  | succ count ih =>
    rcases List.mem_append.mp h with h | h
    · exact ih h
    · rw [List.mem_singleton.mp h]
      exact hexDigit_mem (Nat.mod_lt _ (by decide))

/-- A character that is no hexadecimal digit is not among the digits of a number. -/
theorem ne_of_mem_hexDigits {count n : Nat} {c d : Char} (h : c ∈ hexDigits count n)
    (hd : "0123456789abcdef".toList.contains d = false) : c ≠ d := by
  rintro rfl
  rw [List.contains_iff_mem.mpr (mem_of_mem_hexDigits h)] at hd
  exact absurd hd (by decide)

@[simp] theorem length_hexDigits (count n : Nat) : (hexDigits count n).length = count := by
  induction count generalizing n with
  | zero => rfl
  | succ count ih => simp [hexDigits, ih]

/-- So many last digits tell a number up to that power of sixteen. -/
theorem hexDigits_inj {count m n : Nat} (h : hexDigits count m = hexDigits count n) :
    m % 16 ^ count = n % 16 ^ count := by
  induction count generalizing m n with
  | zero => simp [Nat.mod_one]
  | succ count ih =>
    obtain ⟨hfront, hlast⟩ := List.append_inj' h rfl
    have hdigit : m % 16 = n % 16 :=
      hexDigit_inj (Nat.mod_lt _ (by decide)) (Nat.mod_lt _ (by decide))
        (List.singleton_inj.mp hlast)
    rw [Nat.pow_succ, Nat.mul_comm, Nat.mod_mul, Nat.mod_mul, ih hfront, hdigit]

/-- Numbers in hexadecimal are read back. -/
theorem hex_inj {m n : Nat} (h : hex m = hex n) : m = n := by
  have h := String.ofList_inj.mp h
  have hcount : n.log2 / 4 + 1 = m.log2 / 4 + 1 := by simpa using congrArg List.length h.symm
  rw [hcount] at h
  have hbound (k : Nat) : k < 16 ^ (k.log2 / 4 + 1) := by
    calc k < 2 ^ (k.log2 + 1) := Nat.lt_log2_self
      _ ≤ 2 ^ (4 * (k.log2 / 4 + 1)) := Nat.pow_le_pow_right (by decide) (by omega)
      _ = 16 ^ (k.log2 / 4 + 1) := by rw [Nat.pow_mul]
  rw [← Nat.mod_eq_of_lt (hbound m), hexDigits_inj h, Nat.mod_eq_of_lt (hcount ▸ hbound n)]

end Text

/-! ## Float texts

The kind of float shows in the first three characters. Within a kind the parts of the text are told
apart one after the other.
-/

namespace FloatType

open Text

variable {t : FloatType} {b b' : t.Bits}

theorem isWord_exponentText (e : Int) : IsWord (exponentText e) := by
  have hsign : IsWord (if e < 0 then "-" else "+") := by split <;> decide
  exact isWord_append.mpr ⟨hsign, isWord_decimal _⟩

/-- An exponent always has a sign, and is read back from behind it. -/
theorem exponentText_inj {e e' : Int} (h : exponentText e = exponentText e') : e = e' := by
  have h := congrArg String.toList h
  by_cases he : e < 0 <;> by_cases he' : e' < 0 <;>
    simp only [exponentText, he, he', if_true, if_false, String.toList_append] at h
  · have := decimal_inj.mp (String.toList_inj.mp (List.append_cancel_left h))
    omega
  · simp at h
  · simp at h
  · have := decimal_inj.mp (String.toList_inj.mp (List.append_cancel_left h))
    omega

/-- Dropped zeros can be put back. -/
theorem dropTrailingZeros_append (ds : List Char) :
    ∃ k, ds = dropTrailingZeros ds ++ List.replicate k '0' := by
  refine ⟨(ds.reverse.takeWhile (· == '0')).length, ?_⟩
  have hzeros : (ds.reverse.takeWhile (· == '0')).reverse =
      List.replicate (ds.reverse.takeWhile (· == '0')).length '0' := by
    refine List.eq_replicate_iff.mpr ⟨List.length_reverse, fun c hc => ?_⟩
    simpa using List.all_eq_true.mp List.all_takeWhile c (List.mem_reverse.mp hc)
  rw [← hzeros, dropTrailingZeros, ← List.reverse_append, List.takeWhile_append_dropWhile,
    List.reverse_reverse]

/-- Among as many digits, those in front of the zeros at the end tell all. -/
theorem dropTrailingZeros_inj {ds ds' : List Char} (hlength : ds.length = ds'.length)
    (h : dropTrailingZeros ds = dropTrailingZeros ds') : ds = ds' := by
  obtain ⟨k, hk⟩ := dropTrailingZeros_append ds
  obtain ⟨k', hk'⟩ := dropTrailingZeros_append ds'
  rw [h] at hk
  have hcount : k = k' := by
    have hl := congrArg List.length hk
    have hl' := congrArg List.length hk'
    simp only [List.length_append, List.length_replicate] at hl hl'
    omega
  rw [hk, hcount]
  exact hk'.symm

theorem mem_of_mem_dropTrailingZeros {ds : List Char} {c : Char} (h : c ∈ dropTrailingZeros ds) :
    c ∈ ds := by
  obtain ⟨k, hk⟩ := dropTrailingZeros_append ds
  rw [hk]
  exact List.mem_append_left _ h

/-- The fraction of a significand whose highest bit is moved to the place of the leading one. -/
def scaledFraction (t : FloatType) (m : Nat) : Nat :=
  m * 2 ^ (t.fractionBits - m.log2) % 2 ^ t.fractionBits

/-- The digits of a fraction, filled up to whole digits. -/
def fractionDigits (t : FloatType) (m : Nat) : List Char :=
  hexDigits ((t.fractionBits + 3) / 4)
    (t.scaledFraction m * 2 ^ (4 * ((t.fractionBits + 3) / 4) - t.fractionBits))

theorem fractionText_eq (m : Nat) : t.fractionText m =
    if (dropTrailingZeros (t.fractionDigits m)).isEmpty then ""
    else "." ++ String.ofList (dropTrailingZeros (t.fractionDigits m)) := by
  simp only [fractionText, fractionDigits, scaledFraction, Nat.shiftLeft_eq, Nat.one_mul]
  rfl

/-- A fraction is written with a point and hexadecimal digits. -/
theorem ne_of_mem_fractionText {m : Nat} {c d : Char} (h : c ∈ (t.fractionText m).toList)
    (hd : ('.' :: "0123456789abcdef".toList).contains d = false) : c ≠ d := by
  rw [fractionText_eq] at h
  simp only [List.contains_cons, Bool.or_eq_false_iff, beq_eq_false_iff_ne] at hd
  split at h
  · simp at h
  · simp only [String.toList_append, String.toList_ofList, List.mem_append] at h
    rcases h with h | h
    · rw [show c = '.' by simpa using h]
      exact hd.1.symm
    · exact ne_of_mem_hexDigits (mem_of_mem_dropTrailingZeros h) hd.2

theorem scaledFraction_lt (m : Nat) : t.scaledFraction m < 2 ^ t.fractionBits :=
  Nat.mod_lt _ (Nat.two_pow_pos _)

/-- Zeros at the end of a fraction are dropped, and since its width is known it is read back all the
same. -/
theorem fractionText_inj {m m' : Nat} (h : t.fractionText m = t.fractionText m') :
    t.scaledFraction m = t.scaledFraction m' := by
  have hdigits : dropTrailingZeros (t.fractionDigits m) =
      dropTrailingZeros (t.fractionDigits m') := by
    rw [fractionText_eq, fractionText_eq] at h
    split at h <;> split at h
    · simp_all
    · simpa using congrArg String.toList h
    · simpa using congrArg String.toList h
    · exact String.ofList_inj.mp ((String.append_right_inj ".").mp h)
  have hall : t.fractionDigits m = t.fractionDigits m' :=
    dropTrailingZeros_inj (by simp [fractionDigits]) hdigits
  -- the filled fraction fits in its digits
  have hlt := t.scaledFraction_lt (m := m)
  have hlt' := t.scaledFraction_lt (m := m')
  have hmod := hexDigits_inj hall
  cases t <;> simp only [fractionBits] at hmod hlt hlt' <;> omega

/-- Significands with their highest bit at one place are told by their fractions. -/
theorem scaledFraction_inj {m m' : Nat} (hm : m ≠ 0) (hm' : m' ≠ 0)
    (hle : m.log2 ≤ t.fractionBits) (hlog : m.log2 = m'.log2)
    (h : t.scaledFraction m = t.scaledFraction m') : m = m' := by
  -- with the leading one in its place, a significand is that one and its fraction
  have hlead {n : Nat} (hn : n ≠ 0) (hplace : n.log2 = m.log2) :
      n * 2 ^ (t.fractionBits - m.log2) = 2 ^ t.fractionBits + t.scaledFraction n := by
    obtain ⟨hlo, hhi⟩ := scaled_bounds hn (hplace ▸ hle)
    rw [← hplace, scaledFraction, Nat.mod_eq_sub_mod hlo, Nat.mod_eq_of_lt (by omega)]
    omega
  have heq := (hlead hm rfl).trans ((congrArg _ h).trans (hlead hm' hlog.symm).symm)
  exact Nat.eq_of_mul_eq_mul_right (Nat.two_pow_pos _) heq

/-- The text of a pattern behind its sign. -/
def unsignedText (t : FloatType) (fraction : Nat) : Datum → String
  | .nan =>
    if fraction = 1 <<< (t.fractionBits - 1) then "nan" else "nan:0x" ++ Text.hex fraction
  | .infinite _ => "inf"
  | .finite _ m e =>
    if m = 0 then "0x0p+0"
    else "0x1" ++ t.fractionText m ++ "p" ++ exponentText (e + (Nat.log2 m : Nat))

/-- A float is written as a sign and what the rest of its bits say. -/
theorem numberText_eq (b : t.Bits) : t.numberText b =
    (if t.sign b then "-" else "") ++ t.unsignedText (t.fractionField b) (t.datum b) := by
  rw [numberText]
  cases t.datum b <;> rfl

/-- What the first three characters of a text behind the sign are. -/
def lead : Datum → List Char
  | .nan => ['n', 'a', 'n']
  | .infinite _ => ['i', 'n', 'f']
  | .finite _ m _ => if m = 0 then ['0', 'x', '0'] else ['0', 'x', '1']

/-- Three characters tell a NaN, an infinity, zero and other numbers apart. -/
theorem take_unsignedText (fraction : Nat) (d : Datum) :
    (t.unsignedText fraction d).toList.take 3 = lead d := by
  cases d with
  | nan =>
    simp only [unsignedText, lead]
    split <;> simp
  | infinite => simp [unsignedText, lead]
  | finite negative m e =>
    simp only [unsignedText, lead]
    split <;> simp

/-- The first three characters tell NaNs, infinities, zeros and other numbers apart. -/
theorem cases_of_lead {d d' : Datum} (h : lead d = lead d') :
    d = .nan ∧ d' = .nan ∨ (∃ n n', d = .infinite n ∧ d' = .infinite n') ∨
      ∃ n n' m m' e e', d = .finite n m e ∧ d' = .finite n' m' e' ∧ (m = 0 ↔ m' = 0) := by
  rcases d with _ | n | ⟨n, m, e⟩ <;> rcases d' with _ | n' | ⟨n', m', e'⟩ <;>
    simp only [lead] at h <;> grind

/-- A float is one word. -/
theorem isWord_unsignedText (fraction : Nat) (d : Datum) : IsWord (t.unsignedText fraction d) := by
  cases d with
  | nan =>
    simp only [unsignedText]
    split
    · decide
    · refine isWord_append.mpr ⟨by decide, isWord_ofList.mpr fun c hc => ?_⟩
      exact ⟨ne_of_mem_hexDigits hc (by decide), ne_of_mem_hexDigits hc (by decide)⟩
  | infinite => exact (by decide : IsWord "inf")
  | finite negative m e =>
    simp only [unsignedText]
    split
    · decide
    · have hfraction : IsWord (t.fractionText m) := isWord_iff.mpr fun c hc =>
        ⟨ne_of_mem_fractionText hc (by decide), ne_of_mem_fractionText hc (by decide)⟩
      simp only [isWord_append]
      exact ⟨⟨⟨by decide, hfraction⟩, by decide⟩, isWord_exponentText _⟩

/-- A number is told by the text of its fraction and exponent. -/
theorem finite_inj {negative negative' : Bool} {m m' : Nat} {e e' : Int}
    (hm : m ≠ 0) (hm' : m' ≠ 0)
    (hb : t.datum b = .finite negative m e) (hb' : t.datum b' = .finite negative' m' e')
    (h : "0x1" ++ t.fractionText m ++ "p" ++ exponentText (e + (Nat.log2 m : Nat)) =
      "0x1" ++ t.fractionText m' ++ "p" ++ exponentText (e' + (Nat.log2 m' : Nat))) :
    m = m' ∧ e = e' := by
  -- the first `p` stands between fraction and exponent
  obtain ⟨hfraction, hexponent⟩ : t.fractionText m = t.fractionText m' ∧
      exponentText (e + (Nat.log2 m : Nat)) = exponentText (e' + (Nat.log2 m' : Nat)) := by
    have h := congrArg String.toList h
    simp only [String.toList_append, List.append_assoc] at h
    obtain ⟨hf, he⟩ := append_inj_of_stop (· = 'p')
      (fun c hc => ne_of_mem_fractionText hc (by decide))
      (fun c hc => ne_of_mem_fractionText hc (by decide)) (by simp) (by simp)
      (List.append_cancel_left h)
    exact ⟨String.toList_inj.mp hf, String.toList_inj.mp (List.append_cancel_left he)⟩
  have hplace := exponentText_inj hexponent
  obtain ⟨-, -, -, hlt, hlead⟩ := finiteFields_of_datum hb
  obtain ⟨-, -, -, hlt', hlead'⟩ := finiteFields_of_datum hb'
  have hlog := (Nat.log2_lt hm).mpr hlt
  have hlog' := (Nat.log2_lt hm').mpr hlt'
  -- a higher exponent goes with a leading one, so the highest bit would stand higher
  have hsame : m.log2 = m'.log2 := by
    have hone := Nat.le_log2 hm (k := t.fractionBits)
    have hone' := Nat.le_log2 hm' (k := t.fractionBits)
    omega
  exact ⟨scaledFraction_inj hm hm' (by omega) hsame (fractionText_inj hfraction), by omega⟩

theorem isWord_numberText (b : t.Bits) : IsWord (t.numberText b) := by
  rw [numberText_eq]
  exact isWord_append.mpr ⟨isWord_sign _, isWord_unsignedText _ _⟩

/-- No text behind a sign begins with a minus. -/
theorem head_unsignedText (fraction : Nat) (d : Datum) :
    ∀ c ∈ (t.unsignedText fraction d).toList.head?, c ≠ '-' := by
  have hhead : (t.unsignedText fraction d).toList.head? = (lead d).head? := by
    rw [← take_unsignedText (t := t) fraction d, List.head?_take, if_neg (by decide)]
  rw [hhead]
  cases d with
  | nan => simp [lead]
  | infinite => simp [lead]
  | finite negative m e => by_cases hm : m = 0 <;> simp [lead, hm]

/-- NaNs of one sign are told by their fractions. -/
theorem nan_inj {fraction fraction' : Nat}
    (h : t.unsignedText fraction .nan = t.unsignedText fraction' .nan) : fraction = fraction' := by
  simp only [unsignedText] at h
  split at h <;> split at h
  · simp_all
  · simpa using congrArg String.toList h
  · simpa using congrArg String.toList h
  · exact hex_inj ((String.append_right_inj _).mp h)

/-- The text of a float tells its bits. -/
theorem numberText_inj (h : t.numberText b = t.numberText b') : b = b' := by
  rw [numberText_eq, numberText_eq] at h
  obtain ⟨hsign, htext⟩ := sign_append_inj (head_unsignedText _ _) (head_unsignedText _ _) h
  have hsign : t.sign b = t.sign b' := Bool.eq_iff_iff.mpr hsign
  have hlead : lead (t.datum b) = lead (t.datum b') := by
    rw [← take_unsignedText (t := t) (t.fractionField b), htext, take_unsignedText]
  -- by what the first characters say: a NaN by its payload, an infinity by its sign, a number by
  -- its parts
  rcases cases_of_lead hlead with
    ⟨hb, hb'⟩ | ⟨n, n', hb, hb'⟩ | ⟨n, n', m, m', e, e', hb, hb', hzero⟩
  · rw [hb, hb'] at htext
    exact eq_of_fields hsign ((exponentField_of_nan hb).trans (exponentField_of_nan hb').symm)
      (nan_inj htext)
  · have hn : n = n' := by rw [← (fields_of_infinite hb).1, hsign, (fields_of_infinite hb').1]
    exact eq_of_datum (by simp [hb]) (by rw [hb, hb', hn])
  · obtain ⟨hn, -, -, -, hone⟩ := finiteFields_of_datum hb
    obtain ⟨hn', -, -, -, hone'⟩ := finiteFields_of_datum hb'
    have hpos : 0 < 2 ^ t.fractionBits := Nat.two_pow_pos _
    have hparts : m = m' ∧ e = e' := by
      by_cases hm : m = 0
      · omega
      · have hm' : m' ≠ 0 := fun h0 => hm (hzero.mpr h0)
        rw [hb, hb', unsignedText, unsignedText, if_neg hm, if_neg hm'] at htext
        exact finite_inj hm hm' hb hb' htext
    exact eq_of_datum (by simp [hb]) (by rw [hb, hb', ← hn, ← hn', hsign, hparts.1, hparts.2])

end FloatType

/-- The hexadecimal printer obeys the law, so all that is said of lawful printers is said of it. -/
theorem FloatPrinter.lawful_hexadecimal : @FloatPrinter.Lawful FloatPrinter.hexadecimal where
  isWord _ b := FloatType.isWord_numberText b
  inj _ _ _ h := FloatType.numberText_inj h

end WebAssembly
