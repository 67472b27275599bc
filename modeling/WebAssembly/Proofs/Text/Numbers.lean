import WebAssembly.Value

/-!
# Numbers and their texts

The text of a number stands between blanks and line feeds, so it must hold neither, and it must
tell its number. Integers are written in decimal. How floats are written is left open: all that is
asked of a printer is that it has these two properties, bit by bit (`FloatPrinter.Lawful`). Main
results: `Value.isWord_numberText` and `Value.eq_of_numberText`.

A text is taken apart at the first character that cannot belong to its first part:
`append_inj_of_stop`. That lemma splits lines, words and indentation.
-/

namespace WebAssembly

namespace Text

/-! ## Words

A word has no blank and no line feed in it. Where a text goes on with something that cannot belong
to its first part, the part can be split off.
-/

/-- No blank and no line feed. -/
def IsWord (s : String) : Prop :=
  s.toList.all (fun c => c != ' ' && c != '\n') = true

instance (s : String) : Decidable (IsWord s) :=
  inferInstanceAs (Decidable (_ = true))

theorem isWord_iff {s : String} : IsWord s ↔ ∀ c ∈ s.toList, c ≠ ' ' ∧ c ≠ '\n' := by
  simp [IsWord]

theorem isWord_ofList {cs : List Char} :
    IsWord (.ofList cs) ↔ ∀ c ∈ cs, c ≠ ' ' ∧ c ≠ '\n' := by
  rw [isWord_iff, String.toList_ofList]

@[simp] theorem isWord_append {s t : String} : IsWord (s ++ t) ↔ IsWord s ∧ IsWord t := by
  simp [IsWord]

/-- Two texts that are equal are equal in front of the first character at which their first parts
must end, and behind it. -/
theorem append_inj_of_stop {α : Type} (stop : α → Prop) {w w' r r' : List α}
    (hw : ∀ c ∈ w, ¬ stop c) (hw' : ∀ c ∈ w', ¬ stop c)
    (hr : ∀ c ∈ r.head?, stop c) (hr' : ∀ c ∈ r'.head?, stop c)
    (h : w ++ r = w' ++ r') : w = w' ∧ r = r' := by
  induction w generalizing w' with
  | nil =>
    cases w' with
    | nil => exact ⟨rfl, h⟩
    | cons d w' =>
      -- the first character of `r` would belong to a first part
      simp only [List.nil_append, List.cons_append] at h
      exact absurd (hr d (by simp [h])) (hw' d (by simp))
  | cons c w ih =>
    cases w' with
    | nil =>
      simp only [List.nil_append, List.cons_append] at h
      exact absurd (hr' c (by simp [← h])) (hw c (by simp))
    | cons d w' =>
      obtain ⟨rfl, htail⟩ : c = d ∧ w ++ r = w' ++ r' := by simpa using h
      obtain ⟨rfl, hrest⟩ :=
        ih (fun x hx => hw x (by simp [hx])) (fun x hx => hw' x (by simp [hx])) htail
      exact ⟨rfl, hrest⟩

/-! ## Decimal numbers -/

/-- A number in decimal is digits and nothing else. -/
theorem isDigit_of_mem_decimal {n : Nat} {c : Char} (h : c ∈ (toString n).toList) :
    c.isDigit = true := by
  rw [Nat.toString_eq_ofList_toDigits, String.toList_ofList] at h
  exact Nat.isDigit_of_mem_toDigits (by decide) (by decide) h

/-- A character that is no digit stands in no decimal text. -/
theorem ne_of_mem_decimal {n : Nat} {c d : Char} (h : c ∈ (toString n).toList)
    (hd : d.isDigit = false) : c ≠ d := by
  rintro rfl
  rw [isDigit_of_mem_decimal h] at hd
  exact absurd hd (by decide)

theorem isWord_decimal (n : Nat) : IsWord (toString n) :=
  isWord_iff.mpr fun _ hc => ⟨ne_of_mem_decimal hc rfl, ne_of_mem_decimal hc rfl⟩

/-- Decimals are read back. -/
theorem decimal_inj {m n : Nat} : toString m = toString n ↔ m = n := by
  refine ⟨fun h => ?_, congrArg _⟩
  rw [Nat.toString_eq_ofList_toDigits, Nat.toString_eq_ofList_toDigits, String.ofList_inj] at h
  calc m = Nat.ofDigitChars 10 (Nat.toDigits 10 m) 0 := Nat.ofDigitChars_ten_toDigits.symm
    _ = Nat.ofDigitChars 10 (Nat.toDigits 10 n) 0 := by rw [h]
    _ = n := Nat.ofDigitChars_ten_toDigits

/-- A minus sign in front of the text of a negative integer and nothing in front of others. -/
theorem integer_eq (z : Int) :
    toString z = (if z < 0 then "-" else "") ++ toString z.natAbs := by
  rw [Int.toString_eq_repr, Int.repr_eq_if, Nat.toString_eq_repr]
  split
  · rw [if_neg (by omega), String.empty_append, show z.toNat = z.natAbs by omega]
  · rw [if_pos (by omega), show (-z).toNat = z.natAbs by omega]

/-- A sign that is written only in front of negatives can be told from the text behind it, if that
cannot begin with one. -/
theorem sign_append_inj {p q : Prop} [Decidable p] [Decidable q] {s t : String}
    (hs : ∀ c ∈ s.toList.head?, c ≠ '-') (ht : ∀ c ∈ t.toList.head?, c ≠ '-')
    (h : (if p then "-" else "") ++ s = (if q then "-" else "") ++ t) : (p ↔ q) ∧ s = t := by
  have h := congrArg String.toList h
  by_cases hp : p <;> by_cases hq : q <;>
    simp only [hp, hq, if_true, if_false, String.toList_append] at h
  · exact ⟨by simp [hp, hq], String.toList_inj.mp (List.append_cancel_left h)⟩
  · exact absurd rfl (ht '-' (by simp [← show _ = t.toList from h]))
  · exact absurd rfl (hs '-' (by simp [show s.toList = _ from h]))
  · exact ⟨by simp [hp, hq], String.toList_inj.mp h⟩

theorem isWord_sign (p : Prop) [Decidable p] : IsWord (if p then "-" else "") := by
  split <;> decide

theorem isWord_integer (z : Int) : IsWord (toString z) := by
  rw [integer_eq]
  exact isWord_append.mpr ⟨isWord_sign _, isWord_decimal _⟩

/-- A minus sign is no digit, so signed decimals are read back too. -/
theorem integer_inj {y z : Int} : toString y = toString z ↔ y = z := by
  refine ⟨fun h => ?_, congrArg _⟩
  rw [integer_eq y, integer_eq z] at h
  have hhead (n : Nat) : ∀ c ∈ (toString n).toList.head?, c ≠ '-' := fun c hc =>
    ne_of_mem_decimal (List.mem_of_mem_head? hc) rfl
  obtain ⟨hsign, habs⟩ := sign_append_inj (hhead _) (hhead _) h
  have := decimal_inj.mp habs
  omega

end Text

/-! ## Floats

The law of a printer, which is all that later modules know about how floats are written.
-/

/-- What a printer of floats must do for texts of values to be read back: it writes words, and
different patterns of one type differently. -/
structure FloatPrinter.Lawful [FloatPrinter] : Prop where
  isWord : ∀ (t : FloatType) (b : t.Bits), Text.IsWord (FloatPrinter.text t b)
  inj : ∀ (t : FloatType) (b b' : t.Bits), FloatPrinter.text t b = FloatPrinter.text t b' → b = b'

/-! ## Values -/

variable [FloatPrinter] (hp : FloatPrinter.Lawful)
include hp

theorem Value.isWord_numberText (v : Value) : Text.IsWord v.numberText := by
  cases v with
  | i32 b => exact Text.isWord_integer _
  | i64 b => exact Text.isWord_integer _
  | f32 b => exact hp.isWord .f32 b
  | f64 b => exact hp.isWord .f64 b

/-- Among values of one type the number alone tells the value, bit by bit. -/
theorem Value.eq_of_numberText {v w : Value} (htype : v.type = w.type)
    (h : v.numberText = w.numberText) : v = w := by
  cases v <;> cases w <;> simp only [Value.type, reduceCtorEq] at htype
  · exact congrArg Value.i32 (BitVec.eq_of_toInt_eq (Text.integer_inj.mp h))
  · exact congrArg Value.i64 (BitVec.eq_of_toInt_eq (Text.integer_inj.mp h))
  · exact congrArg Value.f32 (hp.inj .f32 _ _ h)
  · exact congrArg Value.f64 (hp.inj .f64 _ _ h)

end WebAssembly
