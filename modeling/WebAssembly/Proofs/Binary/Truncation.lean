import Mathlib
import WebAssembly.Proofs.Binary.Assembly

/-!
# Input that is cut short

A file that has been read to its end is a preamble and sections. Wherever such a file is cut, apart
from the places between two of these, reading runs out of input, and that is the error: each decoder
reads in order, so nothing else can have been found wrong before. For this no decoder may fail with
the error for sections that do not belong together, which is about a file as a whole.
-/

namespace WebAssembly

/-- A section is cut short anywhere before its end. -/
theorem Section.Spelled.cutShort {s : Section} {bs : List UInt8} (h : s.Spelled bs) :
    Decoder.CutShort Decoder.sectionEntry bs 0 := by
  obtain ⟨r, hread, hrest⟩ := h
  obtain ⟨bs', hsplit, _, hcut⟩ := (Decoder.inOrder_sectionEntry 0).ok hread
  rw [hrest, List.append_nil] at hsplit
  exact hsplit ▸ hcut

/-- Whether sections belong together is asked once all of them are read. -/
theorem isMismatch_of_sectionsOf {bytes : List UInt8} {e : DecodeError}
    (h : sectionsOf bytes = .error e) : e.isMismatch = false := by
  induction bytes using Decoder.sections_induction with
  | nil => cases h
  | spelled s bs rest hs ih =>
      rw [sectionsOf_of_spelled hs] at h
      cases hrest : sectionsOf rest with
      | ok ss =>
          rw [hrest] at h
          cases h
      | error e' =>
          rw [hrest] at h
          cases h
          exact ih hrest
  | error e' unread hne he herror =>
      obtain ⟨r, hr⟩ := herror 0
      rw [sectionsOf_of_error hne hr] at h
      cases h
      exact he

/-- Sections that are cut short inside one of them. By induction on the sections: the cut is in the
first of them or behind it. -/
theorem sectionsOf_take {ss : List Section} {parts : List (List UInt8)}
    (h : List.Forall₂ Section.Spelled ss parts) {n : Nat} (hn : n < parts.flatten.length)
    (hinside : ∀ k ≤ parts.length, n ≠ (parts.take k).flatten.length) :
    sectionsOf (parts.flatten.take n) = .error .unexpectedEof := by
  induction h generalizing n with
  | nil => exact absurd hn (Nat.not_lt_zero n)
  | @cons s bs ss parts hs _ ih =>
      rw [List.flatten_cons] at hn ⊢
      rw [List.length_append] at hn
      -- the cut lies in the first section, or behind it in the others
      by_cases hfirst : n < bs.length
      · have hzero : n ≠ 0 := hinside 0 (Nat.zero_le _)
        have hlength : (bs.take n).length = n := List.length_take_of_le (Nat.le_of_lt hfirst)
        have hne : bs.take n ≠ bs := by
          intro heq
          rw [heq] at hlength
          omega
        have hcut : bs.take n ≠ [] := by
          intro heq
          rw [heq, List.length_nil] at hlength
          omega
        obtain ⟨r, hr⟩ := hs.cutShort (bs.take n) (List.take_prefix n bs) hne 0
        rw [List.take_append_of_le_length (Nat.le_of_lt hfirst)]
        exact sectionsOf_of_error hcut hr
      · have hrest := ih (n := n - bs.length) (by omega) (by
          intro k hk heq
          refine hinside (k + 1) (Nat.succ_le_succ hk) ?_
          rw [List.take_succ_cons, List.flatten_cons, List.length_append]
          omega)
        rw [List.take_append, List.take_of_length_le (Nat.not_lt.mp hfirst),
          sectionsOf_of_spelled hs, hrest]
        rfl

namespace Decoder

/-- A literal that was read stood at the front of the input. -/
theorem eq_append_of_literal {context : String} {bs : List UInt8} {r r' : Reader}
    (h : literal context bs r = .ok () r') : r.unread = bs ++ r'.unread := by
  induction bs generalizing r with
  | nil =>
      cases h
      rfl
  | cons b bs ih =>
      obtain ⟨b', r₁, hexpect, h⟩ := bind_eq_ok_iff.mp h
      obtain ⟨b'', r₂, hbyte, hcheck⟩ := bind_eq_ok_iff.mp hexpect
      obtain ⟨unread, pos, d⟩ := r
      cases unread with
      | nil => cases hbyte
      | cons c rest =>
          cases hbyte
          split at hcheck
          · next hallowed =>
              cases hcheck
              have hb : b' = b := by simpa using hallowed
              have hrest : rest = bs ++ r'.unread := ih h
              show b' :: rest = b :: bs ++ r'.unread
              rw [hb, hrest]
              rfl
          · cases hcheck

theorem eq_append_of_preamble {bytes : List UInt8} {r : Reader}
    (h : preamble (.ofBytes bytes) = .ok () r) : bytes = Module.preamble ++ r.unread := by
  obtain ⟨_, r₁, hmark, hversion⟩ := bind_eq_ok_iff.mp h
  have hfirst : bytes = [0x00, 0x61, 0x73, 0x6d] ++ r₁.unread := eq_append_of_literal hmark
  rw [hfirst, eq_append_of_literal hversion]
  rfl

end Decoder

namespace Module

/-- A file that is read to its end, also if its sections do not belong together, is a preamble and
sections. -/
theorem exists_parts {bytes : List UInt8}
    (h : (∃ m, Module.parse bytes = .ok m) ∨
      ∃ funcs bodies, Module.parse bytes = .error (.funcCodeMismatch funcs bodies)) :
    ∃ ss parts, bytes = preamble ++ parts.flatten ∧ List.Forall₂ Section.Spelled ss parts := by
  -- only the last check can have failed, and it comes after all sections are read
  have hfailed : ∀ e, e.isMismatch = false → Module.parse bytes ≠ .error e := by
    rintro e he heq
    rcases h with ⟨m, hm⟩ | ⟨funcs, bodies, hmismatch⟩
    · rw [heq] at hm
      cases hm
    · rw [heq] at hmismatch
      cases hmismatch
      cases he
  cases hread : Decoder.preamble (.ofBytes bytes) with
  | error e r =>
      have hparse : Module.parse bytes = .error e := by
        rw [Module.parse, Decoder.moduleSections, bind_of_error hread]
      exact absurd hparse (hfailed e ((Decoder.inOrder_preamble 0).error hread).1)
  | ok u r =>
      have hbytes := Decoder.eq_append_of_preamble hread
      cases hsections : sectionsOf r.unread with
      | error e =>
          have hparse : Module.parse bytes = .error e := by
            rw [hbytes, parse_append, hsections]
            rfl
          exact absurd hparse (hfailed e (isMismatch_of_sectionsOf hsections))
      | ok ss =>
          obtain ⟨parts, hparts, hspelled⟩ := sectionsOf_eq_ok_iff.mp hsections
          exact ⟨ss, parts, by rw [hbytes, hparts], hspelled⟩

/-- A file cut within its preamble is out of input, whatever it should have been. -/
theorem parse_of_short {cut : List UInt8} (hpart : cut <+: preamble) (hne : cut ≠ preamble) :
    Module.parse cut = .error .unexpectedEof := by
  have hread : Decoder.preamble (.ofBytes (preamble ++ [])) = .ok () ⟨[], 8, 0⟩ :=
    Decoder.reads_preamble [] 0
  obtain ⟨bs, hsplit, _, hcut⟩ := (Decoder.inOrder_preamble 0).ok hread
  rw [List.append_nil, List.append_nil] at hsplit
  rw [← hsplit] at hcut
  obtain ⟨r, hr⟩ := hcut cut hpart hne 0
  have hstart : Decoder.preamble (.ofBytes cut) = .error .unexpectedEof r := hr
  rw [Module.parse, Decoder.moduleSections, bind_of_error hstart]

/-- Input that is cut short is reported as such. A file that is read to its end consists of a
preamble and sections, and if it is cut anywhere but behind the preamble and behind one of the
sections, the error is that the input has ended. -/
theorem parse_of_truncated {bytes : List UInt8}
    (h : (∃ m, Module.parse bytes = .ok m) ∨
      ∃ funcs bodies, Module.parse bytes = .error (.funcCodeMismatch funcs bodies)) :
    (∃ ss parts, bytes = preamble ++ parts.flatten ∧ List.Forall₂ Section.Spelled ss parts) ∧
      ∀ (ss : List Section) (parts : List (List UInt8)), bytes = preamble ++ parts.flatten →
        List.Forall₂ Section.Spelled ss parts → ∀ n < bytes.length,
          (∀ k ≤ parts.length, n ≠ 8 + (parts.take k).flatten.length) →
            Module.parse (bytes.take n) = .error .unexpectedEof := by
  refine ⟨exists_parts h, ?_⟩
  rintro ss parts rfl hparts n hn hinside
  have hlength : preamble.length = 8 := rfl
  rw [List.length_append, hlength] at hn
  -- the cut lies in the preamble, or inside of a section
  by_cases hstart : n < 8
  · have hshort : (preamble.take n).length = n :=
      List.length_take_of_le (Nat.le_of_lt (hlength ▸ hstart))
    rw [List.take_append_of_le_length (Nat.le_of_lt (hlength ▸ hstart))]
    refine parse_of_short (List.take_prefix n preamble) fun heq => ?_
    rw [heq, hlength] at hshort
    omega
  · rw [List.take_append, hlength, List.take_of_length_le (by omega), parse_append,
      sectionsOf_take hparts (by omega) (fun k hk heq => hinside k hk (by omega))]
    rfl

end Module

/-- The file is 33 bytes long. It can be cut behind the preamble and behind each of its sections. -/
theorem scrambled_truncated :
    (∃ m, Module.parse (Module.preamble ++ scrambledParts.flatten) = .ok m) ∧
      ∀ n < 33, n ∉ [8, 17, 20, 23, 27] →
        Module.parse ((Module.preamble ++ scrambledParts.flatten).take n) =
          .error .unexpectedEof := by
  have hparse : ∃ m, Module.parse (Module.preamble ++ scrambledParts.flatten) = .ok m := by
    rw [Module.parse_of_spelled scrambled_spelled]
    exact ⟨Module.assemble scrambledSections, by cbv⟩
  refine ⟨hparse, fun n hn hinside => ?_⟩
  refine (Module.parse_of_truncated (Or.inl hparse)).2 _ _ rfl scrambled_spelled n hn ?_
  have hends : ∀ k ≤ scrambledParts.length,
      8 + (scrambledParts.take k).flatten.length ∈ [8, 17, 20, 23, 27, 33] := by
    decide
  intro k hk heq
  have hend := hends k hk
  rw [← heq] at hend
  simp only [List.mem_cons, List.not_mem_nil, or_false] at hend hinside
  omega

end WebAssembly
