import Mathlib.Data.List.Induction
import Mathlib.Tactic.Ring
import WebAssembly.Proofs.Binary.Leb128

/-!
# Numbers of any length

The four readers of numbers have one law. A number goes up to the first byte without its high bit,
however far that is, and stands for the sum of its digits, each with the weight of its place; read
with a sign, the weight of the place behind it is taken off if the sign bit is set. The readers give
this modulo the size of their word (`Decoder.leb128_law`). The regimes of a reader that fills a word
from below, with a last group that fits only in part and groups that do not fit at all, do not show
in it.
-/

namespace WebAssembly

namespace Leb128

/-- The sum of the digits, each with the weight of its place. -/
def digitSum (bs : List UInt8) : Nat :=
  (bs.mapIdx fun i b => b.toNat % 128 * 2 ^ (7 * i)).sum

/-- The sum of the digits of a number that ends in `last`, less the weight of the next place if the
sign bit of `last` is set. -/
def signedSum (init : List UInt8) (last : UInt8) : Int :=
  digitSum (init ++ [last]) - if last &&& 0x40 = 0 then 0 else 2 ^ (7 * (init.length + 1))

/-- A number that ends in `last`, with `n + 1` more digits, all of them as in `fill`. -/
def lengthened (init : List UInt8) (last fill : UInt8) (n : Nat) : List UInt8 :=
  (init ++ [last ||| 0x80]) ++ (List.replicate n (fill ||| 0x80) ++ [fill])

/-! ## Sums

The values that readers give by recursion, as sums over places with a correction for the sign.
-/

/-- Bytes further on weigh more, by seven bits for each byte in front. -/
theorem value_append (xs ys : List UInt8) :
    value (xs ++ ys) = value xs + 2 ^ (7 * xs.length) * value ys := by
  induction xs with
  | nil => simp [value]
  | cons x xs ih =>
      rw [List.cons_append, value, ih, value, weight_cons, Nat.mul_add, Nat.mul_assoc,
        Nat.add_assoc]

/-- From the back: the last digit has the highest weight. -/
theorem digitSum_eq_value (bs : List UInt8) : digitSum bs = value bs := by
  induction bs using List.reverseRecOn with
  | nil => rfl
  | append_singleton bs b ih =>
      have hlast : value [b] = b.toNat % 128 := by
        rw [value, value, Nat.mul_zero, Nat.add_zero, digit]
      rw [digitSum, List.mapIdx_concat, List.sum_append, List.sum_singleton, value_append, hlast,
        Nat.mul_comm (2 ^ _), ← ih, digitSum]

/-- The last byte is the first one without the high bit. -/
theorem terminated_concat {init : List UInt8} {last : UInt8} (hinit : ∀ b ∈ init, b &&& 0x80 ≠ 0)
    (hlast : last &&& 0x80 = 0) : Terminated (init ++ [last]) := by
  induction init with
  | nil => exact .last hlast
  | cons b init ih =>
      obtain ⟨hb, hinit⟩ := List.forall_mem_cons.mp hinit
      exact .more hb (ih hinit)

/-- The sign is that of the last byte, and all the others are plain digits. -/
theorem signedSum_eq_signedValue {init : List UInt8} {last : UInt8}
    (hinit : ∀ b ∈ init, b &&& 0x80 ≠ 0) (hlast : last &&& 0x80 = 0) :
    signedSum init last = signedValue (init ++ [last]) := by
  rw [signedValue_eq (terminated_concat hinit hlast) List.getLast?_concat, signedSum,
    digitSum_eq_value, List.length_append, List.length_singleton]
  by_cases hsign : last &&& 0x40 = 0
  · rw [if_pos hsign, if_pos ((and_sign_eq_zero_iff last).mp hsign)]
    rfl
  · rw [if_neg hsign, if_neg (mt (and_sign_eq_zero_iff last).mpr hsign)]
    norm_cast

/-! ## More digits than needed

Fill digits behind the last one add nothing: zeros, or for a negative number digits with all bits
set.
-/

/-- With its high bit set a last digit is one that others follow, and it is the same digit. -/
theorem or_high {b : UInt8} (h : b &&& 0x80 = 0) :
    (b ||| 0x80) &&& 0x80 ≠ 0 ∧ digit (b ||| 0x80) = digit b := by
  have hlt : b.toNat < 2 ^ 7 := (and_high_eq_zero_iff b).mp h
  have hor : (b ||| 0x80).toNat = b.toNat + 128 := by
    rw [UInt8.toNat_or, Nat.or_comm, Nat.add_comm]
    exact (Nat.two_pow_add_eq_or_of_lt hlt 1).symm
  rw [Ne, and_high_eq_zero_iff, digit, digit, hor]
  omega

/-- The sign comes from the last byte, so digits in front add to the value. -/
theorem signedValue_append (xs : List UInt8) {ys : List UInt8} (hys : ys ≠ []) :
    signedValue (xs ++ ys) = value xs + 2 ^ (7 * xs.length) * signedValue ys := by
  induction xs with
  | nil => simp [value]
  | cons x xs ih =>
      have hne : xs ++ ys ≠ [] := List.append_ne_nil_of_right_ne_nil xs hys
      have hweight := congrArg (Nat.cast : Nat → Int) (weight_cons x xs)
      push_cast at hweight
      rw [List.cons_append, signedValue_cons hne, ih, value, hweight]
      push_cast
      ring

/-- Digits that repeat the sign stand for `0` or `-1`. -/
theorem signedValue_replicate (n : Nat) :
    signedValue (List.replicate n (0x00 ||| 0x80) ++ [0x00]) = 0 ∧
      signedValue (List.replicate n (0x7f ||| 0x80) ++ [0x7f]) = -1 := by
  induction n with
  | zero => exact ⟨rfl, rfl⟩
  | succ n ih =>
      have hne : ∀ fill : UInt8, List.replicate n (fill ||| 0x80) ++ [fill] ≠ [] := by simp
      rw [List.replicate_succ, List.replicate_succ, List.cons_append, List.cons_append,
        signedValue_cons (hne _), signedValue_cons (hne _), ih.1, ih.2]
      exact ⟨rfl, rfl⟩

theorem value_replicate_zero (n : Nat) :
    value (List.replicate n (0x00 ||| 0x80) ++ [0x00]) = 0 := by
  induction n with
  | zero => rfl
  | succ n ih =>
      rw [List.replicate_succ, List.cons_append, value, ih]
      rfl

section Lengthened

variable {init : List UInt8} {last fill : UInt8}

/-- A number made longer by fill bytes still ends with its last byte. -/
theorem terminated_lengthened (hinit : ∀ b ∈ init, b &&& 0x80 ≠ 0) (hlast : last &&& 0x80 = 0)
    (hfill : fill &&& 0x80 = 0) (n : Nat) : Terminated (lengthened init last fill n) := by
  rw [lengthened, ← List.append_assoc]
  refine terminated_concat (fun b hb => ?_) hfill
  rcases List.mem_append.mp hb with hb | hb
  · rcases List.mem_append.mp hb with hb | hb
    · exact hinit b hb
    · rw [List.mem_singleton.mp hb]
      exact (or_high hlast).1
  · rw [List.eq_of_mem_replicate hb]
    exact (or_high hfill).1

/-- That others follow a digit does not change what it counts. -/
theorem value_concat_or_high (init : List UInt8) (hlast : last &&& 0x80 = 0) :
    value (init ++ [last ||| 0x80]) = value (init ++ [last]) := by
  have hdigit : value [last ||| 0x80] = value [last] := by
    rw [value, value, (or_high hlast).2]
    rfl
  rw [value_append, value_append, hdigit]

theorem value_lengthened (init : List UInt8) (hlast : last &&& 0x80 = 0) (n : Nat) :
    value (lengthened init last 0x00 n) = digitSum (init ++ [last]) := by
  rw [lengthened, value_append, value_replicate_zero, value_concat_or_high init hlast,
    digitSum_eq_value, Nat.mul_zero, Nat.add_zero]

/-- More copies of the sign take off what the sign bit took off before. -/
theorem signedValue_lengthened (init : List UInt8) (hlast : last &&& 0x80 = 0) (n : Nat) :
    signedValue (lengthened init last (if last &&& 0x40 = 0 then 0x00 else 0x7f) n) =
      signedSum init last := by
  have hne : ∀ fill : UInt8, List.replicate n (fill ||| 0x80) ++ [fill] ≠ [] := by simp
  rw [lengthened, signedValue_append _ (hne _), value_concat_or_high init hlast, signedSum,
    digitSum_eq_value, List.length_append, List.length_singleton]
  split
  · rw [(signedValue_replicate n).1]
    ring
  · rw [(signedValue_replicate n).2]
    ring

end Lengthened

/-- Bytes that all have their high bit set do not end a number. -/
theorem scan_of_forall {bytes : List UInt8} (h : ∀ b ∈ bytes, b &&& 0x80 ≠ 0) (word : BitVec 64)
    (filled : Nat) : scan bytes word filled = none := by
  induction bytes generalizing word filled with
  | nil => rfl
  | cons b bytes ih =>
      obtain ⟨hb, hbytes⟩ := List.forall_mem_cons.mp h
      rw [scan, if_neg hb]
      exact ih hbytes _ _

end Leb128

namespace Decoder

open Leb128

/-- Both readers of unsigned numbers take these bytes, and no more, for `n` modulo the size of their
word. -/
def ReadUnsigned (bs : List UInt8) (n : Nat) : Prop :=
  ∀ d, Reads u64 bs (BitVec.ofNat 64 n) d d ∧ Reads u32 bs (UInt32.ofNat n) d d

/-- Both readers of signed numbers take these bytes, and no more, for `i` modulo the size of their
word. -/
def ReadSigned (bs : List UInt8) (i : Int) : Prop :=
  ∀ d, Reads s64 bs (BitVec.ofInt 64 i) d d ∧ Reads s32 bs (BitVec.ofInt 32 i) d d

theorem readUnsigned_value {bs : List UInt8} (h : Terminated bs) : ReadUnsigned bs (value bs) :=
  fun d => ⟨reads_u64 h d, reads_u32 ⟨h, rfl⟩ d⟩

theorem readSigned_signedValue {bs : List UInt8} (h : Terminated bs) :
    ReadSigned bs (signedValue bs) :=
  fun d => ⟨reads_s64 ⟨h, rfl⟩ d, reads_s32 ⟨h, rfl⟩ d⟩

/-- The canonical forms hold every number of a word. -/
theorem reads_canonical (d : Nat) :
    (∀ v : BitVec 64, Reads u64 (unsigned v.toNat) v d d ∧ Reads s64 (signed v.toInt) v d d) ∧
      (∀ n : UInt32, Reads u32 (unsigned n.toNat) n d d) ∧
        ∀ v : BitVec 32, Reads s32 (signed v.toInt) v d d := by
  refine ⟨fun v => ⟨?_, reads_s64 (signed_toInt v) d⟩, fun n => reads_u32 (unsigned_toNat n) d,
    fun v => reads_s32 (signed_toInt v) d⟩
  have hread := reads_u64 (terminated_unsigned v.toNat) d
  rwa [value_unsigned, BitVec.ofNat_toNat, BitVec.setWidth_eq] at hread

/-- Without a last byte the input runs out, and all of it has been taken. -/
theorem leb128_of_forall {unread : List UInt8} (h : ∀ b ∈ unread, b &&& 0x80 ≠ 0) (pos d : Nat) :
    leb128 ⟨unread, pos, d⟩ = .error .unexpectedEof ⟨[], pos + unread.length, d⟩ := by
  rw [leb128, scan_of_forall h]
  rfl

/-- The law of the four readers of numbers, wherever they start to read.

* Bytes up to the first one without its high bit are taken as a whole and nothing else is, and they
  give the sum of their digits, with the sign taken off if a sign is read, modulo the size of the
  word. With any number of further digits that repeat the sign they give the same.
* If there is no such byte, the input has ended, and all of it has been taken.
* The shortest forms of all numbers of a word are read back as these numbers. -/
theorem leb128_law :
    (∀ (init : List UInt8) (last : UInt8), (∀ b ∈ init, b &&& 0x80 ≠ 0) → last &&& 0x80 = 0 →
      ReadUnsigned (init ++ [last]) (digitSum (init ++ [last])) ∧
      ReadSigned (init ++ [last]) (signedSum init last) ∧
      ∀ n, ReadUnsigned (lengthened init last 0x00 n) (digitSum (init ++ [last])) ∧
        ReadSigned (lengthened init last (if last &&& 0x40 = 0 then 0x00 else 0x7f) n)
          (signedSum init last)) ∧
    (∀ (unread : List UInt8) (pos d : Nat), (∀ b ∈ unread, b &&& 0x80 ≠ 0) →
      u64 ⟨unread, pos, d⟩ = .error .unexpectedEof ⟨[], pos + unread.length, d⟩ ∧
      s64 ⟨unread, pos, d⟩ = .error .unexpectedEof ⟨[], pos + unread.length, d⟩ ∧
      u32 ⟨unread, pos, d⟩ = .error .unexpectedEof ⟨[], pos + unread.length, d⟩ ∧
      s32 ⟨unread, pos, d⟩ = .error .unexpectedEof ⟨[], pos + unread.length, d⟩) ∧
    ∀ d, (∀ v : BitVec 64, Reads u64 (unsigned v.toNat) v d d ∧ Reads s64 (signed v.toInt) v d d) ∧
      (∀ n : UInt32, Reads u32 (unsigned n.toNat) n d d) ∧
        ∀ v : BitVec 32, Reads s32 (signed v.toInt) v d d := by
  refine ⟨?_, ?_, reads_canonical⟩
  · intro init last hinit hlast
    have hbs := terminated_concat hinit hlast
    refine ⟨?_, ?_, fun n => ⟨?_, ?_⟩⟩
    · rw [digitSum_eq_value]
      exact readUnsigned_value hbs
    · rw [signedSum_eq_signedValue hinit hlast]
      exact readSigned_signedValue hbs
    · rw [← value_lengthened init hlast n]
      exact readUnsigned_value (terminated_lengthened hinit hlast (by decide) n)
    · rw [← signedValue_lengthened init hlast n]
      refine readSigned_signedValue (terminated_lengthened hinit hlast ?_ n)
      split <;> decide
  · intro unread pos d h
    have hleb := leb128_of_forall h pos d
    have hu64 := bind_of_error (f := fun s => pure s.word) hleb
    have hs64 := bind_of_error (f := fun s => pure s.signed) hleb
    exact ⟨hu64, hs64, bind_of_error hu64, bind_of_error hs64⟩

/-- Ten digits, of which the last one fits into a word of 64 bits with one bit only. As a signed
number they are the least one, and so they are with a further digit. -/
theorem leb128_law_tenDigits :
    (∀ b ∈ List.replicate 9 (0x80 : UInt8), b &&& 0x80 ≠ 0) ∧ (0x7f : UInt8) &&& 0x80 = 0 ∧
      Reads u64 (List.replicate 9 0x80 ++ [0x7f]) (BitVec.ofNat 64 (2 ^ 63)) 0 0 ∧
      Reads s64 (List.replicate 9 0x80 ++ [0x7f]) (BitVec.intMin 64) 0 0 ∧
      Reads s64 (List.replicate 9 0x80 ++ [0xff] ++ [0x7f]) (BitVec.intMin 64) 0 0 := by
  have hinit : ∀ b ∈ List.replicate 9 (0x80 : UInt8), b &&& 0x80 ≠ 0 := by
    intro b hb
    rw [List.eq_of_mem_replicate hb]
    decide
  have hlast : (0x7f : UInt8) &&& 0x80 = 0 := by decide
  obtain ⟨hunsigned, hsigned, hlong⟩ := leb128_law.1 _ _ hinit hlast
  have hsum : BitVec.ofNat 64 (digitSum (List.replicate 9 0x80 ++ [0x7f])) =
      BitVec.ofNat 64 (2 ^ 63) := by
    decide
  have hsignedSum : BitVec.ofInt 64 (signedSum (List.replicate 9 0x80) 0x7f) =
      BitVec.intMin 64 := by
    decide
  exact ⟨hinit, hlast, hsum ▸ (hunsigned 0).1, hsignedSum ▸ (hsigned 0).1,
    hsignedSum ▸ ((hlong 0).2 0).1⟩

end Decoder

end WebAssembly
