import WebAssembly.Proofs.Binary.Leb128

/-!
# Floats, vectors and names as bytes

What the readers of the parts of which entries are made take for a float, a vector, a byte string
or a name. `encodeVec` and `encodeName` write them.
-/

namespace WebAssembly

open Leb128

/-! ## Vectors

The count in front may be written with more digits than it needs, so it is a parameter of these
statements.
-/

/-- The number of the parts, and the parts one behind the other. -/
def encodeVec (parts : List (List UInt8)) : List UInt8 :=
  unsigned parts.length ++ parts.flatten

/-- The number of the bytes, and the bytes. -/
def encodeBytes (bs : List UInt8) : List UInt8 :=
  unsigned bs.length ++ bs

/-- The UTF-8 bytes of a text. -/
def utf8 (s : String) : List UInt8 :=
  s.toByteArray.data.toList

/-- A name: the number of its bytes in UTF-8, and the bytes. -/
def encodeName (s : String) : List UInt8 :=
  encodeBytes (utf8 s)

namespace Decoder

variable {α : Type} {d : Nat}

/-- A vector is read from its count and its items, however the count is written. -/
theorem reads_vec {item : Decoder α} {as : List α} {n : UInt32} {count : List UInt8}
    {parts : List (List UInt8)} (hcount : Unsigned n count) (hn : n.toNat = as.length)
    (h : List.Forall₂ (fun a bs => Reads item bs a d d) as parts) :
    Reads (vec item) (count ++ parts.flatten) as d d := by
  have hitems : Reads (replicate n.toNat item) parts.flatten as d d := by
    rw [hn]
    exact reads_replicate h
  exact (reads_u32 hcount d).bind hitems

/-- A bounded vector is read in the same way while it keeps to its bound. -/
theorem reads_boundedVec {item : Decoder α} {as : List α} {n : UInt32} {count : List UInt8}
    {parts : List (List UInt8)} {bound : Bound} (hcount : Unsigned n count)
    (hn : n.toNat = as.length) (hbound : as.length ≤ bound.limit)
    (h : List.Forall₂ (fun a bs => Reads item bs a d d) as parts) :
    Reads (boundedVec bound item) (count ++ parts.flatten) as d d := by
  -- The check of the bound is passed and takes no bytes.
  have hitems : Reads (do
      if bound.limit < n.toNat then throw (.limitExceeded bound)
      replicate n.toNat item : Decoder (List α)) parts.flatten as d d := by
    rw [hn, if_neg (Nat.not_lt.mpr hbound)]
    exact reads_replicate h
  exact (reads_u32 hcount d).bind hitems

/-- Items that are each written in one way. -/
theorem forall₂_map {item : Decoder α} {as : List α} {encode : α → List UInt8}
    (h : ∀ a ∈ as, Reads item (encode a) a d d) :
    List.Forall₂ (fun a bs => Reads item bs a d d) as (as.map encode) := by
  rw [List.forall₂_map_right_iff, List.forall₂_same]
  exact h

/-- The vector of entries, each of which is written in some way. -/
theorem reads_encodeVec {item : Decoder α} {as : List α} {parts : List (List UInt8)}
    (hlength : as.length < 2 ^ 32) (h : List.Forall₂ (fun a bs => Reads item bs a d d) as parts) :
    Reads (vec item) (encodeVec parts) as d d := by
  refine reads_vec (unsigned_ofNat parts.length) ?_ h
  rw [← h.length_eq, UInt32.toNat_ofNat_of_lt' hlength]

/-- A byte string is read back if its length fits into the count before it. -/
theorem reads_byteString {bs : List UInt8} (hlength : bs.length < 2 ^ 32) (d : Nat) :
    Reads byteString (encodeBytes bs) bs d d := by
  have hbytes : Reads (bytes (UInt32.ofNat bs.length).toNat) bs bs d d := by
    rw [UInt32.toNat_ofNat_of_lt' hlength]
    exact reads_bytes bs d
  exact (reads_u32 (unsigned_ofNat bs.length) d).bind hbytes

/-! ## Names and types

A name is the bytes of its text in UTF-8, and is refused if they are no such bytes.
-/

/-- The bytes of a text decode to the text. -/
theorem fromUTF8?_utf8 (s : String) : String.fromUTF8? (utf8 s).toByteArray = some s := by
  have hbytes : (utf8 s).toByteArray = s.toByteArray := by
    rw [ByteArray.ext_iff, List.data_toByteArray, utf8, Array.toArray_toList]
  rw [hbytes, String.fromUTF8?, dif_pos s.isValidUTF8]
  rfl

/-- Every name is read back, as long as its bytes can be counted. -/
theorem reads_name {s : String} (hlength : (utf8 s).length < 2 ^ 32) (d : Nat) :
    Reads name (encodeName s) s d d := by
  refine (reads_byteString hlength d).bind_nil ?_
  rw [fromUTF8?_utf8]
  exact .pure s d

theorem reads_valueType (t : ValueType) (d : Nat) : Reads valueType [t.code] t d d := by
  cases t <;> exact fun _ _ => rfl

/-! ## Floats -/

theorem length_littleEndianBytes (count n : Nat) : (littleEndianBytes count n).length = count := by
  induction count generalizing n with
  | zero => rfl
  | succ count ih => rw [littleEndianBytes, List.length_cons, ih]

/-- Bytes make the number they were taken from, up to the bits for which there was no room. -/
theorem littleEndian_littleEndianBytes (count n : Nat) :
    littleEndian (littleEndianBytes count n) = n % 256 ^ count := by
  induction count generalizing n with
  | zero => rw [littleEndianBytes, littleEndian, Nat.pow_zero, Nat.mod_one]
  | succ count ih =>
      rw [littleEndianBytes, littleEndian, ih, UInt8.toNat_ofNat', Nat.pow_succ 256,
        Nat.mul_comm _ 256, Nat.mod_mul]

theorem reads_byteList (bs : List UInt8) (d : Nat) :
    Reads (replicate bs.length byte) bs bs d d := by
  have h := reads_replicate (forall₂_map fun b (_ : b ∈ bs) => reads_byte b d)
  rwa [← List.flatMap_def, List.flatMap_singleton'] at h

/-- A float is read back bit by bit, a NaN with its payload. -/
theorem reads_float (t : FloatType) (v : t.Bits) (d : Nat) :
    Reads (float t) (littleEndianBytes (t.width / 8) v.toNat) v d d := by
  have hread := reads_byteList (littleEndianBytes (t.width / 8) v.toNat) d
  rw [length_littleEndianBytes] at hread
  have hwidth : 256 ^ (t.width / 8) = 2 ^ t.width := by cases t <;> rfl
  have hfloat := hread.map t.ofLittleEndian
  rwa [FloatType.ofLittleEndian, littleEndian_littleEndianBytes, hwidth, Nat.mod_eq_of_lt v.isLt,
    BitVec.ofNat_toNat, BitVec.setWidth_eq] at hfloat

end Decoder

end WebAssembly
