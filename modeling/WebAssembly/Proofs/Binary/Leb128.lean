import Mathlib.Data.Nat.Bitwise
import WebAssembly.Proofs.Binary.Reading

/-!
# Values of LEB128 numbers

The bytes of a number are digits to the base 128, lowest first. `Leb128.value` is the number they
make, `Leb128.signedValue` the one they make if the last digit counts negatively from 64 on. The
readers give these numbers modulo the size of their word, however many digits there are.
`Leb128.unsigned` and `Leb128.signed` write a number with as few digits as possible.
-/

namespace WebAssembly

namespace Leb128

/-- Bytes of which the last one, and no other, has its high bit clear. -/
inductive Terminated : List UInt8 → Prop
  | last {b : UInt8} : b &&& 0x80 = 0 → Terminated [b]
  | more {b : UInt8} {bs : List UInt8} : b &&& 0x80 ≠ 0 → Terminated bs → Terminated (b :: bs)

/-- The digit in a byte. -/
def digit (b : UInt8) : Nat :=
  b.toNat % 128

/-- The number that the digits make. -/
def value : List UInt8 → Nat
  | [] => 0
  | b :: bs => digit b + 128 * value bs

/-- The number that the digits make if the last one is taken between -64 and 63. -/
def signedValue : List UInt8 → Int
  | [] => 0
  | [b] => if digit b < 64 then digit b else digit b - 128
  | b :: bs => digit b + 128 * signedValue bs

/-- The bytes are a form of an unsigned number. -/
def Unsigned (n : UInt32) (bs : List UInt8) : Prop :=
  Terminated bs ∧ UInt32.ofNat (value bs) = n

/-- The bytes are a form of a signed number of some width. -/
def Signed {w : Nat} (v : BitVec w) (bs : List UInt8) : Prop :=
  Terminated bs ∧ BitVec.ofInt w (signedValue bs) = v

/-! ## Reading

The reader shifts each group of seven bits into a word of 64 and stops shifting once the word is
full. The word is the value modulo its size, by induction on the bytes; the sign is filled in from
where the reader has stopped.
-/

theorem digit_lt (b : UInt8) : digit b < 128 :=
  Nat.mod_lt _ (by decide)

/-- One bit of a byte. -/
theorem and_two_pow_eq_zero_iff (n i : Nat) : n &&& 2 ^ i = 0 ↔ n / 2 ^ i % 2 = 0 := by
  rw [Nat.and_two_pow, Nat.testBit_eq_decide_div_mod_eq]
  by_cases h : n / 2 ^ i % 2 = 1
  · simp [h]
  · simp [h]
    omega

/-- The high bit tells whether there is a digit and no more. -/
theorem and_high_eq_zero_iff (b : UInt8) : b &&& 0x80 = 0 ↔ b.toNat < 128 := by
  have hbyte := b.toNat_lt
  rw [← UInt8.toNat_inj, UInt8.toNat_and]
  refine (and_two_pow_eq_zero_iff b.toNat 7).trans ?_
  omega

/-- The next bit tells whether the digit counts as negative at the end. -/
theorem and_sign_eq_zero_iff (b : UInt8) : b &&& 0x40 = 0 ↔ digit b < 64 := by
  rw [← UInt8.toNat_inj, UInt8.toNat_and, digit]
  refine (and_two_pow_eq_zero_iff b.toNat 6).trans ?_
  omega

/-- Seven bits of a byte are its digit. -/
theorem setWidth_digit (b : UInt8) :
    (b.toBitVec &&& 0x7f#8).setWidth 64 = BitVec.ofNat 64 (digit b) := by
  have hand : (b.toBitVec &&& 0x7f#8).toNat = digit b := by
    rw [BitVec.toNat_and]
    exact Nat.and_two_pow_sub_one_eq_mod b.toNat 7
  rw [← hand, BitVec.ofNat_toNat]

/-- One more digit in front: the others move up by seven bits. -/
theorem ofNat_digit_add (b : UInt8) (n filled : Nat) :
    BitVec.ofNat 64 (digit b + 128 * n) <<< filled =
      BitVec.ofNat 64 (digit b) <<< filled ||| BitVec.ofNat 64 n <<< (filled + 7) := by
  have hor : digit b + 128 * n = digit b ||| n * 2 ^ 7 := by
    rw [Nat.or_comm, ← Nat.shiftLeft_eq, ← Nat.shiftLeft_add_eq_or_of_lt (digit_lt b),
      Nat.shiftLeft_eq]
    omega
  have hshift : BitVec.ofNat 64 (n * 2 ^ 7) = BitVec.ofNat 64 n <<< 7 := by
    rw [BitVec.ofNat_mul, BitVec.shiftLeft_eq_mul_twoPow]
    rfl
  rw [hor, BitVec.ofNat_or, hshift, BitVec.shiftLeft_or_distrib, ← BitVec.shiftLeft_add,
    Nat.add_comm 7 filled]

/-- A group is not put into a word that is full, where it would be shifted out in any case. -/
theorem put_group (word group : BitVec 64) (filled : Nat) :
    (if filled < 64 then word ||| group <<< filled else word) = word ||| group <<< filled := by
  split
  · rfl
  · next hfull => rw [BitVec.shiftLeft_eq_zero (Nat.le_of_not_lt hfull), BitVec.or_zero]

/-- The groups of seven bits are put together to the number they make. -/
theorem scan_append {bs : List UInt8} (h : Terminated bs) (rest : List UInt8) (word : BitVec 64)
    (filled : Nat) : ∃ last, bs.getLast? = some last ∧
      scan (bs ++ rest) word filled =
        some ⟨word ||| BitVec.ofNat 64 (value bs) <<< filled, filled + 7 * bs.length, last,
          rest⟩ := by
  induction h generalizing word filled with
  | @last b hb =>
      refine ⟨b, rfl, ?_⟩
      show scan (b :: rest) word filled = _
      rw [scan, put_group, if_pos hb, setWidth_digit]
      rfl
  | @more b bs hb hbs ih =>
      obtain ⟨last, hlast, hscan⟩ :=
        ih (word ||| BitVec.ofNat 64 (digit b) <<< filled) (filled + 7)
      -- The first group is in the word already, the others are put in above it.
      refine ⟨last, ?_, ?_⟩
      · rw [List.getLast?_cons, hlast]
        rfl
      · rw [List.cons_append, scan, put_group, if_neg hb, setWidth_digit, hscan, value,
          ofNat_digit_add, BitVec.or_assoc, List.length_cons]
        congr 2
        omega

/-- The weight of what follows the digits. -/
theorem weight_cons (b : UInt8) (bs : List UInt8) :
    2 ^ (7 * (b :: bs).length) = 128 * 2 ^ (7 * bs.length) := by
  rw [List.length_cons, Nat.mul_add, Nat.pow_add, Nat.mul_comm]

/-- Each byte adds seven bits. -/
theorem value_lt (bs : List UInt8) : value bs < 2 ^ (7 * bs.length) := by
  induction bs with
  | nil => exact Nat.one_pos
  | cons b bs ih =>
      have hdigit := digit_lt b
      rw [value, weight_cons]
      omega

theorem Terminated.ne_nil {bs : List UInt8} (h : Terminated bs) : bs ≠ [] := by
  rintro rfl
  cases h

/-- A digit in front of others counts as it is. -/
theorem signedValue_cons {bs : List UInt8} (h : bs ≠ []) (b : UInt8) :
    signedValue (b :: bs) = digit b + 128 * signedValue bs := by
  cases bs with
  | nil => exact absurd rfl h
  | cons => rfl

/-- The last digit counts 128 less if it is 64 or more. -/
theorem signedValue_eq {bs : List UInt8} (h : Terminated bs) {last : UInt8}
    (hlast : bs.getLast? = some last) :
    signedValue bs = value bs - (if digit last < 64 then 0 else 2 ^ (7 * bs.length) : Nat) := by
  induction h with
  | @last b _ =>
      obtain rfl : b = last := by simpa using hlast
      simp only [signedValue, value, List.length_singleton]
      split <;> omega
  | @more b bs hb hbs ih =>
      have hne := hbs.ne_nil
      have ih := ih (by rwa [List.getLast?_cons_of_ne_nil hne] at hlast)
      rw [signedValue_cons hne, ih, weight_cons, value]
      split <;> omega

/-- A word filled with ones from a position on is minus the power of two at it. -/
theorem allOnes_shiftLeft (n : Nat) :
    BitVec.allOnes 64 <<< n = BitVec.ofInt 64 (-(2 ^ n : Nat)) := by
  have hpow : BitVec.twoPow 64 n = BitVec.ofNat 64 (2 ^ n) := by
    apply BitVec.eq_of_toNat_eq
    rw [BitVec.toNat_twoPow, BitVec.toNat_ofNat]
  rw [BitVec.shiftLeft_eq_mul_twoPow, ← BitVec.neg_one_eq_allOnes, BitVec.ofInt_neg,
    BitVec.ofInt_natCast, BitVec.neg_mul, BitVec.one_mul, hpow]

/-- Copies of the sign above a number that leaves those bits free. -/
theorem or_allOnes_shiftLeft {n k : Nat} (h : n < 2 ^ k) :
    BitVec.ofNat 64 n ||| BitVec.allOnes 64 <<< k = BitVec.ofInt 64 (n - (2 ^ k : Nat)) := by
  have hdisjoint : BitVec.ofNat 64 n &&& BitVec.allOnes 64 <<< k = 0#64 := by
    -- The ones start at bit `k`, where the number has no bits any more.
    apply BitVec.eq_of_getLsbD_eq
    intro i _
    by_cases hik : i < k
    · simp [hik]
    · have hbit : n.testBit i = false :=
        Nat.testBit_lt_two_pow (Nat.lt_of_lt_of_le h (Nat.pow_le_pow_right (by decide) (by omega)))
      simp [BitVec.getLsbD_ofNat, hbit]
  rw [← BitVec.add_eq_or_of_and_eq_zero _ _ hdisjoint, allOnes_shiftLeft, ← BitVec.ofInt_natCast,
    ← BitVec.ofInt_add, Int.sub_eq_add_neg]

/-- With the word full there are no bits above it, which a sign could be copied to. -/
theorem Scan.signed_eq (s : Scan) : s.signed =
    if s.last &&& 0x40 = 0 then s.word else s.word ||| BitVec.allOnes 64 <<< s.filled := by
  rw [← put_group s.word, Scan.signed]
  by_cases hfull : s.filled < 64 <;> by_cases hsign : s.last &&& 0x40 = 0 <;> simp [hfull, hsign]

/-- What the readers are left with after the bytes of a number. -/
theorem signed_scan {bs : List UInt8} (h : Terminated bs) {last : UInt8}
    (hlast : bs.getLast? = some last) (rest : List UInt8) :
    Scan.signed ⟨BitVec.ofNat 64 (value bs), 7 * bs.length, last, rest⟩ =
      BitVec.ofInt 64 (signedValue bs) := by
  rw [Scan.signed_eq, signedValue_eq h hlast]
  by_cases hsign : digit last < 64
  · rw [if_pos ((and_sign_eq_zero_iff last).mpr hsign), if_pos hsign, Int.natCast_zero,
      Int.sub_zero, BitVec.ofInt_natCast]
  · rw [if_neg (mt (and_sign_eq_zero_iff last).mp hsign), if_neg hsign,
      or_allOnes_shiftLeft (value_lt bs)]

end Leb128

namespace Decoder

open Leb128

/-- The groups of a number, of which the word and the last byte are known. -/
theorem leb128_of_terminated {bs : List UInt8} (h : Terminated bs) (d : Nat) (rest : List UInt8)
    (pos : Nat) : ∃ last, bs.getLast? = some last ∧
      leb128 ⟨bs ++ rest, pos, d⟩ = .ok ⟨BitVec.ofNat 64 (value bs), 7 * bs.length, last, rest⟩
        ⟨rest, pos + bs.length, d⟩ := by
  obtain ⟨last, hlast, hscan⟩ := scan_append h rest 0#64 0
  refine ⟨last, hlast, ?_⟩
  rw [BitVec.zero_or, BitVec.shiftLeft_zero, Nat.zero_add] at hscan
  rw [leb128, hscan]
  show EStateM.Result.ok _ (Reader.advance _ (7 * bs.length / 7) rest) = _
  rw [Nat.mul_div_cancel_left _ (by decide)]
  rfl

/-- Numbers that are too large are cut to 64 bits and not refused. -/
theorem reads_u64 {bs : List UInt8} (h : Terminated bs) (d : Nat) :
    Reads u64 bs (BitVec.ofNat 64 (value bs)) d d := by
  intro rest pos
  obtain ⟨_, _, hread⟩ := leb128_of_terminated h d rest pos
  exact bind_of_ok hread

/-- A signed number is read from each of its forms. -/
theorem reads_s64 {bs : List UInt8} {v : BitVec 64} (h : Signed v bs) (d : Nat) :
    Reads s64 bs v d d := by
  intro rest pos
  obtain ⟨last, hlast, hread⟩ := leb128_of_terminated h.1 d rest pos
  rw [s64, bind_of_ok hread, signed_scan h.1 hlast, h.2]
  rfl

/-- A number of 32 bits is the low half of one of 64. -/
theorem reads_u32 {bs : List UInt8} {n : UInt32} (h : Unsigned n bs) (d : Nat) :
    Reads u32 bs n d d := by
  have hread := (reads_u64 h.1 d).map fun word => UInt32.ofBitVec (word.setWidth 32)
  rwa [BitVec.setWidth_ofNat_of_le (by decide), show UInt32.ofBitVec _ = n from h.2] at hread

/-- The low half of a number modulo `2 ^ 64` is the number modulo `2 ^ 32`. -/
theorem setWidth_ofInt (i : Int) : (BitVec.ofInt 64 i).setWidth 32 = BitVec.ofInt 32 i := by
  apply BitVec.eq_of_toNat_eq
  rw [BitVec.toNat_setWidth, BitVec.toNat_ofInt, BitVec.toNat_ofInt]
  omega

theorem reads_s32 {bs : List UInt8} {v : BitVec 32} (h : Signed v bs) (d : Nat) :
    Reads s32 bs v d d := by
  have hread := (reads_s64 ⟨h.1, rfl⟩ d).map fun word => word.setWidth 32
  rwa [setWidth_ofInt, h.2] at hread

end Decoder

/-! ## Writing

The shortest form ends as soon as what is left is one digit, which for signed numbers has to show
the sign as well.
-/

namespace Leb128

/-- The shortest form of a number: the low digit, and the others behind it if there are any. -/
def unsigned (n : Nat) : List UInt8 :=
  if n < 128 then [UInt8.ofNat n]
  else UInt8.ofNat (n % 128 + 128) :: unsigned (n / 128)

/-- The shortest form of a number with a sign: it ends as soon as what is left fits in one digit
between -64 and 63. -/
def signed (i : Int) : List UInt8 :=
  if -64 ≤ i ∧ i < 64 then [UInt8.ofNat (i % 128).toNat]
  else UInt8.ofNat ((i % 128).toNat + 128) :: signed (i / 128)
termination_by i.natAbs

theorem terminated_last {n : Nat} (h : n < 128) : Terminated [UInt8.ofNat n] := by
  refine .last ((and_high_eq_zero_iff _).mpr ?_)
  rw [UInt8.toNat_ofNat']
  omega

theorem terminated_more {n : Nat} (h : n < 128) {bs : List UInt8} (hbs : Terminated bs) :
    Terminated (UInt8.ofNat (n + 128) :: bs) := by
  refine .more (mt (and_high_eq_zero_iff _).mp ?_) hbs
  rw [UInt8.toNat_ofNat']
  omega

/-- The high bit is not part of the digit. -/
theorem digit_ofNat {n : Nat} (h : n < 128) :
    digit (UInt8.ofNat n) = n ∧ digit (UInt8.ofNat (n + 128)) = n := by
  rw [digit, digit, UInt8.toNat_ofNat', UInt8.toNat_ofNat']
  omega

/-- Written numbers end where they should. -/
theorem terminated_unsigned (n : Nat) : Terminated (unsigned n) := by
  fun_induction unsigned n with
  | case1 n h => exact terminated_last h
  | case2 n h ih => exact terminated_more (Nat.mod_lt n (by decide)) ih

/-- A written number has its value. -/
theorem value_unsigned (n : Nat) : value (unsigned n) = n := by
  fun_induction unsigned n with
  | case1 n h => rw [value, value, (digit_ofNat h).1, Nat.mul_zero, Nat.add_zero]
  | case2 n h ih =>
      rw [value, ih, (digit_ofNat (Nat.mod_lt n (by decide))).2]
      omega

theorem unsigned_ofNat (n : Nat) : Unsigned (UInt32.ofNat n) (unsigned n) :=
  ⟨terminated_unsigned n, by rw [value_unsigned]⟩

theorem unsigned_toNat (n : UInt32) : Unsigned n (unsigned n.toNat) := by
  have h := unsigned_ofNat n.toNat
  rwa [UInt32.ofNat_toNat] at h

theorem terminated_signed (i : Int) : Terminated (signed i) := by
  fun_induction signed i with
  | case1 i h => exact terminated_last (by omega)
  | case2 i h ih => exact terminated_more (by omega) ih

/-- A written signed number has its value, with its sign in the last byte. -/
theorem signedValue_signed (i : Int) : signedValue (signed i) = i := by
  fun_induction signed i with
  | case1 i h =>
      rw [signedValue, (digit_ofNat (by omega)).1]
      split <;> omega
  | case2 i h ih =>
      rw [signedValue_cons (terminated_signed (i / 128)).ne_nil, ih, (digit_ofNat (by omega)).2]
      omega

theorem signed_toInt {w : Nat} (v : BitVec w) : Signed v (signed v.toInt) :=
  ⟨terminated_signed v.toInt, by rw [signedValue_signed, BitVec.ofInt_toInt]⟩

end Leb128

end WebAssembly
