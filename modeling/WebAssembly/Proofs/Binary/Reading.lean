import WebAssembly.Binary.Module
import WebAssembly.Proofs.Fallible

/-!
# What decoders read

`Decoder.Reads` says that a decoder takes given bytes for a given value: whatever follows them, it
reads these bytes and stops behind them. A decoder that is made of others then reads what they read,
one after the other, so a format is followed part by part.
-/

namespace WebAssembly.Decoder

variable {α β : Type}

/-- Wherever the bytes `bs` stand and whatever follows them, `x` reads them, and no more, as `a`.
The number of open constructs goes from `d` to `d'`. -/
def Reads (x : Decoder α) (bs : List UInt8) (a : α) (d d' : Nat) : Prop :=
  ∀ (rest : List UInt8) (pos : Nat),
    x ⟨bs ++ rest, pos, d⟩ = .ok a ⟨rest, pos + bs.length, d'⟩

variable {x : Decoder α} {bs bs' : List UInt8} {a : α} {b : β} {d d' d'' : Nat}

namespace Reads

theorem pure (a : α) (d : Nat) : Reads (pure a) [] a d d :=
  fun _ _ => rfl

/-- The bytes of two decoders in sequence are those of the one and then those of the other. -/
theorem bind {f : α → Decoder β} (hx : Reads x bs a d d') (hf : Reads (f a) bs' b d' d'') :
    Reads (x >>= f) (bs ++ bs') b d d'' := by
  intro rest pos
  rw [List.append_assoc, bind_of_ok (hx (bs' ++ rest) pos), hf rest (pos + bs.length),
    List.length_append, Nat.add_assoc]

/-- What follows takes no more bytes. -/
theorem bind_nil {f : α → Decoder β} (hx : Reads x bs a d d') (hf : Reads (f a) [] b d' d'') :
    Reads (x >>= f) bs b d d'' := by
  have h := hx.bind hf
  rwa [List.append_nil] at h

theorem map (hx : Reads x bs a d d') (g : α → β) :
    Reads (x >>= fun a => Pure.pure (g a)) bs (g a) d d' :=
  hx.bind_nil (.pure (g a) d')

end Reads

/-! ## Bytes -/

theorem reads_byte (b : UInt8) (d : Nat) : Reads byte [b] b d d :=
  fun _ _ => rfl

/-- An expected byte is read whatever is said of it in an error. -/
theorem reads_expect {allowed : List UInt8} {b : UInt8} (h : allowed.contains b) (context : String)
    (d : Nat) : Reads (expect allowed context) [b] b d d := by
  have hcheck : Reads (if allowed.contains b then Pure.pure b
      else throw (.unexpectedByte b allowed context) : Decoder UInt8) [] b d d := by
    rw [if_pos h]
    exact .pure b d
  exact (reads_byte b d).bind hcheck

/-- Splitting undoes appending. -/
theorem splitExact?_append (xs ys : List α) : splitExact? xs.length (xs ++ ys) = some (xs, ys) := by
  induction xs with
  | nil => rfl
  | cons x xs ih =>
      show (splitExact? xs.length (xs ++ ys)).map _ = _
      rw [ih]
      rfl

theorem reads_bytes (bs : List UInt8) (d : Nat) : Reads (bytes bs.length) bs bs d d := by
  intro rest pos
  rw [bytes, splitExact?_append]
  rfl

theorem reads_literal (context : String) (bs : List UInt8) (d : Nat) :
    Reads (literal context bs) bs () d d := by
  induction bs with
  | nil => exact .pure () d
  | cons b bs ih =>
      have hb : [b].contains b = true := by simp
      exact (reads_expect hb context d).bind ih

/-! ## Repetition -/

/-- The items are read in turn and collected in reverse, so the accumulator comes first. -/
theorem reads_repeated {item : Decoder α} {as : List α} {parts : List (List UInt8)}
    (h : List.Forall₂ (fun a bs => Reads item bs a d d) as parts) (acc : List α) :
    Reads (repeated item as.length acc) parts.flatten (acc.reverse ++ as) d d := by
  induction h generalizing acc with
  | nil =>
      rw [List.append_nil]
      exact .pure acc.reverse d
  | @cons a bs as parts ha _ ih =>
      have hrest := ih (a :: acc)
      rw [List.reverse_cons, List.append_assoc] at hrest
      exact ha.bind hrest

/-- Items that stand one behind the other. -/
theorem reads_replicate {item : Decoder α} {as : List α} {parts : List (List UInt8)}
    (h : List.Forall₂ (fun a bs => Reads item bs a d d) as parts) :
    Reads (replicate as.length item) parts.flatten as d d :=
  reads_repeated h []

/-! ## Nesting -/

/-- A construct is entered without reading anything, while there is room for one more. -/
theorem reads_enter (h : d < Bound.nesting.limit) : Reads enter [] () d (d + 1) := by
  intro rest pos
  rw [enter, if_neg (Nat.not_le.mpr h)]
  rfl

theorem reads_leave (d : Nat) : Reads leave [] () (d + 1) d :=
  fun _ _ => rfl

end WebAssembly.Decoder
