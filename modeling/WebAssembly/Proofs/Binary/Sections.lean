import WebAssembly.Proofs.Binary.Encoding
import WebAssembly.Proofs.Binary.Locality

/-!
# The sequence of sections

Bytes are a section if the decoder of sections takes all of them (`Section.Spelled`). Since sections
are read in order, what the bytes of a file are read as depends on each of its sections by itself:
`sectionsOf` gives the sections up to the end of input, or the error of the first one that cannot be
read, and it is followed through a file by three equations, for the end, for a section in front of
more bytes, and for bytes that do not start with one.
-/

namespace WebAssembly

variable {s s' : Section} {bs rest : List UInt8}

/-- The answer without the state that is left. -/
def outcome {ε σ α : Type} : EStateM.Result ε σ α → Except ε α
  | .ok a _ => .ok a
  | .error e _ => .error e

theorem outcome_eq_ok_iff {ε σ α : Type} {r : EStateM.Result ε σ α} {a : α} :
    outcome r = .ok a ↔ ∃ s, r = .ok a s := by
  cases r with
  | ok a' s => simp [outcome]
  | error e s => simp [outcome]

/-! ## Single sections

Bytes spell a section if the reader takes them all for it, whatever follows. By order of reading it
is enough to look at one case.
-/

/-- The bytes are a section: read by themselves they give `s`, and nothing of them is left. -/
def Section.Spelled (s : Section) (bs : List UInt8) : Prop :=
  ∃ r, Decoder.sectionEntry (.ofBytes bs) = .ok s r ∧ r.unread = []

namespace Decoder

/-- What is read from bytes by themselves is also read where others follow them. -/
theorem InOrder.reads_iff {α : Type} {x : Decoder α} {a : α} {d : Nat} (hx : InOrder x 0 d) :
    (∃ r, x (.ofBytes bs) = .ok a r ∧ r.unread = []) ↔ Reads x bs a 0 d := by
  constructor
  · rintro ⟨r, hread, hrest⟩
    obtain ⟨bs', hsplit, hreads, _⟩ := hx.ok hread
    rw [hrest, List.append_nil] at hsplit
    exact hsplit ▸ hreads
  · intro hreads
    have hread := hreads [] 0
    rw [List.append_nil] at hread
    exact ⟨_, hread, rfl⟩

/-- A section carries the id it was read for. -/
theorem id_of_sectionContents {id : UInt8} {size : Nat} {r r' : Reader}
    (h : sectionContents id size r = .ok s r') : s.id = id := by
  unfold sectionContents at h
  split at h
  case h_13 => cases h
  all_goals
    obtain ⟨_, _, _, h⟩ := bind_eq_ok_iff.mp h
    cases h
    rfl

end Decoder

namespace Section

theorem spelled_iff : s.Spelled bs ↔ Decoder.Reads Decoder.sectionEntry bs s 0 0 :=
  (Decoder.inOrder_sectionEntry 0).reads_iff

theorem Spelled.ne_nil (h : s.Spelled bs) : bs ≠ [] :=
  Decoder.needsInput_sectionEntry.ne_nil (spelled_iff.mp h)

/-- Bytes spell one section at most. -/
theorem Spelled.unique (h : s.Spelled bs) (h' : s'.Spelled bs) : s = s' := by
  obtain ⟨_, hread, _⟩ := h
  obtain ⟨_, hread', _⟩ := h'
  rw [hread] at hread'
  cases hread'
  rfl

/-- The first byte of a section gives its kind. -/
theorem Spelled.head? (h : s.Spelled bs) : bs.head? = some s.id := by
  obtain ⟨r, hread, _⟩ := h
  cases bs with
  | nil => cases hread
  | cons b bs =>
      obtain ⟨id, _, hbyte, hread⟩ := bind_eq_ok_iff.mp hread
      cases hbyte
      obtain ⟨_, _, _, hread⟩ := bind_eq_ok_iff.mp hread
      rw [Decoder.id_of_sectionContents hread]
      rfl

end Section

/-! ## Sections one after the other

The reader of sections is recursive with fuel. With the equations here the fuel is not seen any
more, and an induction principle goes through a file section by section.
-/

/-- What bytes are read as up to their end, section by section. -/
def sectionsOf (bytes : List UInt8) : Except DecodeError (List Section) :=
  outcome (Decoder.sections (.ofBytes bytes))

namespace Decoder

/-- A section in front is read, and the others after it. -/
theorem sectionsAux_of_spelled (h : s.Spelled bs) (fuel : Nat) (acc : List Section)
    (rest : List UInt8) (pos : Nat) :
    sectionsAux (fuel + 1) acc ⟨bs ++ rest, pos, 0⟩ =
      sectionsAux fuel (s :: acc) ⟨rest, pos + bs.length, 0⟩ := by
  have hread := Section.spelled_iff.mp h rest pos
  have hmore : hasMore ⟨bs ++ rest, pos, 0⟩ = .ok true ⟨bs ++ rest, pos, 0⟩ := by
    cases bs with
    | nil => exact absurd rfl h.ne_nil
    | cons b bs => rfl
  rw [sectionsAux, bind_of_ok hmore, if_pos rfl, bind_of_ok hread]

/-- The first section that cannot be read decides. -/
theorem sectionsAux_of_error {unread : List UInt8} {pos : Nat} {e : DecodeError} {r : Reader}
    (hne : unread ≠ []) (h : sectionEntry ⟨unread, pos, 0⟩ = .error e r) (fuel : Nat)
    (acc : List Section) : sectionsAux (fuel + 1) acc ⟨unread, pos, 0⟩ = .error e r := by
  have hmore : hasMore ⟨unread, pos, 0⟩ = .ok true ⟨unread, pos, 0⟩ := by
    cases unread with
    | nil => exact absurd rfl hne
    | cons b unread => rfl
  rw [sectionsAux, bind_of_ok hmore, if_pos rfl, bind_of_error h]

/-- Bytes either start with a section or cannot be read, wherever they stand. -/
theorem section_cases (unread : List UInt8) :
    (∃ s bs rest, Section.Spelled s bs ∧ unread = bs ++ rest) ∨
      ∃ e, e.isMismatch = false ∧ ∀ pos, ∃ r, sectionEntry ⟨unread, pos, 0⟩ = .error e r := by
  cases hread : sectionEntry ⟨unread, 0, 0⟩ with
  | ok s r =>
      obtain ⟨bs, hsplit, hreads, _⟩ := (inOrder_sectionEntry 0).ok hread
      exact Or.inl ⟨s, bs, r.unread, Section.spelled_iff.mpr hreads, hsplit⟩
  | error e r => exact Or.inr ⟨e, (inOrder_sectionEntry 0).error hread⟩

/-- Induction along the sections that bytes start with, up to the end of the bytes or to what is not
a section. -/
theorem sections_induction {motive : List UInt8 → Prop} (nil : motive [])
    (spelled : ∀ (s : Section) (bs rest : List UInt8), s.Spelled bs → motive rest →
      motive (bs ++ rest))
    (error : ∀ (e : DecodeError) (unread : List UInt8), unread ≠ [] → e.isMismatch = false →
      (∀ pos, ∃ r, sectionEntry ⟨unread, pos, 0⟩ = .error e r) → motive unread)
    (bytes : List UInt8) : motive bytes := by
  induction hn : bytes.length using Nat.strong_induction_on generalizing bytes with
  | _ n ih =>
      by_cases hne : bytes = []
      · rw [hne]
        exact nil
      · rcases section_cases bytes with ⟨s, bs, rest, hs, rfl⟩ | ⟨e, he, herror⟩
        · have hbs := List.length_pos_iff.mpr hs.ne_nil
          rw [List.length_append] at hn
          exact spelled s bs rest hs (ih rest.length (by omega) rest rfl)
        · exact error e bytes hne he herror

/-- As many rounds as there are bytes are enough, and neither more rounds nor the place where the
bytes stand make a difference. -/
theorem outcome_sectionsAux {unread : List UInt8} {fuel : Nat} (h : unread.length ≤ fuel)
    (acc : List Section) (pos : Nat) :
    outcome (sectionsAux fuel acc ⟨unread, pos, 0⟩) =
      (sectionsOf unread).map (acc.reverse ++ ·) := by
  show _ = (outcome (sectionsAux unread.length [] ⟨unread, 0, 0⟩)).map _
  -- one bound for both sides, so that the rest can be read with any other one
  suffices hboth : ∃ result : Except DecodeError (List Section), ∀ fuel acc pos,
      unread.length ≤ fuel →
        outcome (sectionsAux fuel acc ⟨unread, pos, 0⟩) = result.map (acc.reverse ++ ·) by
    obtain ⟨result, hresult⟩ := hboth
    rw [hresult fuel acc pos h, hresult unread.length [] 0 (Nat.le_refl _)]
    cases result <;> rfl
  clear h
  induction unread using sections_induction with
  | nil =>
      refine ⟨.ok [], fun fuel acc pos _ => ?_⟩
      cases fuel <;> exact congrArg Except.ok (List.append_nil _).symm
  | spelled s bs rest hs ih =>
      obtain ⟨result, hresult⟩ := ih
      refine ⟨result.map (s :: ·), fun fuel acc pos hfuel => ?_⟩
      have hbs := List.length_pos_iff.mpr hs.ne_nil
      rw [List.length_append] at hfuel
      obtain ⟨k, rfl⟩ : ∃ k, fuel = k + 1 := ⟨fuel - 1, by omega⟩
      rw [sectionsAux_of_spelled hs, hresult k (s :: acc) _ (by omega)]
      cases result with
      | error e => rfl
      | ok ss => simp [Except.map]
  | error e unread hne _ herror =>
      refine ⟨.error e, fun fuel acc pos hfuel => ?_⟩
      have hlength := List.length_pos_iff.mpr hne
      obtain ⟨k, rfl⟩ : ∃ k, fuel = k + 1 := ⟨fuel - 1, by omega⟩
      obtain ⟨r, hr⟩ := herror pos
      rw [sectionsAux_of_error hne hr]
      rfl

end Decoder

theorem sectionsOf_nil : sectionsOf [] = .ok [] :=
  rfl

/-- A section in front of more bytes. -/
theorem sectionsOf_of_spelled (h : s.Spelled bs) (rest : List UInt8) :
    sectionsOf (bs ++ rest) = (sectionsOf rest).map (s :: ·) := by
  have hlength := List.length_pos_iff.mpr h.ne_nil
  obtain ⟨k, hk⟩ : ∃ k, (bs ++ rest).length = k + 1 :=
    ⟨(bs ++ rest).length - 1, by rw [List.length_append]; omega⟩
  show outcome (Decoder.sectionsAux (bs ++ rest).length [] ⟨bs ++ rest, 0, 0⟩) = _
  rw [hk, Decoder.sectionsAux_of_spelled h, Decoder.outcome_sectionsAux]
  · rfl
  · rw [List.length_append] at hk
    omega

/-- Bytes that do not start with a section. -/
theorem sectionsOf_of_error {unread : List UInt8} {e : DecodeError} {r : Reader}
    (hne : unread ≠ []) (h : Decoder.sectionEntry (.ofBytes unread) = .error e r) :
    sectionsOf unread = .error e := by
  cases unread with
  | nil => exact absurd rfl hne
  | cons b unread =>
      show outcome (Decoder.sectionsAux (unread.length + 1) [] ⟨b :: unread, 0, 0⟩) = _
      rw [Decoder.sectionsAux_of_error hne h]
      rfl

/-- Sections in front are read whatever follows them. -/
theorem sectionsOf_append {ss : List Section} {parts : List (List UInt8)}
    (h : List.Forall₂ Section.Spelled ss parts) (rest : List UInt8) :
    sectionsOf (parts.flatten ++ rest) = (sectionsOf rest).map (ss ++ ·) := by
  induction h with
  | nil =>
      show sectionsOf rest = _
      cases sectionsOf rest <;> rfl
  | @cons s bs ss parts hs _ ih =>
      rw [List.flatten_cons, List.append_assoc, sectionsOf_of_spelled hs, ih]
      cases sectionsOf rest <;> rfl

/-- The loop over sections succeeds exactly on concatenations of sections. -/
theorem sectionsOf_eq_ok_iff {bytes : List UInt8} {ss : List Section} :
    sectionsOf bytes = .ok ss ↔
      ∃ parts, bytes = parts.flatten ∧ List.Forall₂ Section.Spelled ss parts := by
  constructor
  · intro h
    -- section by section, from the front
    induction bytes using Decoder.sections_induction generalizing ss with
    | nil =>
        cases h
        exact ⟨[], rfl, .nil⟩
    | spelled s bs rest hs ih =>
        rw [sectionsOf_of_spelled hs] at h
        cases hrest : sectionsOf rest with
        | error e =>
            rw [hrest] at h
            cases h
        | ok ss' =>
            rw [hrest] at h
            cases h
            obtain ⟨parts, rfl, hparts⟩ := ih hrest
            exact ⟨bs :: parts, rfl, .cons hs hparts⟩
    | error e unread hne _ herror =>
        obtain ⟨r, hr⟩ := herror 0
        rw [sectionsOf_of_error hne hr] at h
        cases h
  · rintro ⟨parts, rfl, hparts⟩
    have h := sectionsOf_append hparts []
    rw [List.append_nil, sectionsOf_nil] at h
    rw [h]
    exact congrArg Except.ok (List.append_nil ss)

/-! ## Modules

A preamble and then sections. What is read from a file is the module its sections make.
-/

theorem Decoder.reads_preamble : Reads preamble Module.preamble () 0 0 :=
  (reads_literal _ [0x00, 0x61, 0x73, 0x6d] 0).bind (reads_literal _ [0x01, 0x00, 0x00, 0x00] 0)

/-- Behind the preamble a file is its sections. -/
theorem Decoder.outcome_moduleSections (rest : List UInt8) :
    outcome (moduleSections (.ofBytes (Module.preamble ++ rest))) = sectionsOf rest := by
  have hread : preamble (.ofBytes (Module.preamble ++ rest)) = .ok () ⟨rest, 8, 0⟩ :=
    reads_preamble rest 0
  rw [moduleSections, bind_of_ok hread]
  show outcome (sectionsAux rest.length [] ⟨rest, 8, 0⟩) = _
  rw [outcome_sectionsAux (Nat.le_refl _)]
  cases sectionsOf rest <;> rfl

/-- Behind the preamble a module is what its sections make. -/
theorem Module.parse_append (rest : List UInt8) :
    Module.parse (preamble ++ rest) = sectionsOf rest >>= Module.ofSections := by
  rw [← Decoder.outcome_moduleSections, Module.parse]
  cases Decoder.moduleSections (.ofBytes (preamble ++ rest)) <;> rfl

end WebAssembly
