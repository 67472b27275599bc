import Mathlib
import WebAssembly.Proofs.Binary.Sections

/-!
# Decoding undoes encoding

Each reader takes what its part of a module is encoded as for that part, from types and entries up
to sections. Sections are then put together to a module: those of different kinds can be taken in
in either order (`Draft.add_comm`), so it does not matter where custom sections stand, and a section
without entries adds nothing to a draft that has none of its kind. `Module.parse_of_encodes` is the
result for whole modules.
-/

namespace WebAssembly

open Leb128

namespace Decoder

/-! ## Types and entries

Each reader is followed through what its part is written as. Side conditions are the bounds on
counts.
-/

theorem reads_index (i : UInt32) (d : Nat) : Reads u32 (unsigned i.toNat) i d d :=
  reads_u32 (unsigned_toNat i) d

theorem reads_indices {is : List UInt32} (hlength : is.length < 2 ^ 32) (d : Nat) :
    Reads (vec u32) (encodeVec (is.map fun i => unsigned i.toNat)) is d d :=
  reads_encodeVec hlength (forall₂_map fun i _ => reads_index i d)

theorem reads_exprClosed {e : Expr} (h : e.Bounded) : Reads expr e.encodeClosed e 0 0 :=
  reads_expr (Expr.written_encode e h.2) h.2 (by rw [Nat.zero_add]; exact h.1)

/-- A bounded list of types is read back, its count being small enough to be written. -/
theorem reads_valueTypes {bound : Bound} {ts : List ValueType} (hbound : ts.length ≤ bound.limit)
    (hlimit : bound.limit < 2 ^ 32) (d : Nat) :
    Reads (boundedVec bound valueType) (encodeVec (ts.map fun t => [t.code])) ts d d := by
  refine reads_boundedVec (unsigned_ofNat _) ?_ hbound (forall₂_map fun t _ => reads_valueType t d)
  rw [List.length_map]
  exact UInt32.toNat_ofNat_of_lt' (Nat.lt_of_le_of_lt hbound hlimit)

theorem reads_funcType {t : FuncType} (h : t.Bounded) (d : Nat) :
    Reads funcType t.encode t d d :=
  (reads_expect (by decide) _ d).bind ((reads_valueTypes h.1 (by decide) d).bind
    ((reads_valueTypes h.2 (by decide) d).map _))

/-- Limits are read back with and without a maximum. -/
theorem reads_limits (l : Limits) (d : Nat) : Reads limits l.encode l d d := by
  obtain ⟨min, max⟩ := l
  cases max with
  | none =>
      exact (reads_expect (by decide) _ d).bind ((reads_index min d).bind_nil (.pure _ d))
  | some max =>
      exact (reads_expect (by decide) _ d).bind
        ((reads_index min d).bind ((reads_index max d).map _))

theorem reads_tableType (t : TableType) (d : Nat) : Reads tableType t.encode t d d :=
  (reads_expect (by decide) _ d).bind ((reads_limits t.limits d).map _)

theorem reads_memoryType (t : MemoryType) (d : Nat) : Reads memoryType t.encode t d d :=
  (reads_limits t.limits d).map _

theorem reads_globalType (t : GlobalType) (d : Nat) : Reads globalType t.encode t d d := by
  obtain ⟨type, mutable⟩ := t
  refine (reads_valueType type d).bind ?_
  cases mutable with
  | false => exact (reads_expect rfl _ d).map _
  | true => exact (reads_expect rfl _ d).map _

/-- A description of an import is its kind and what belongs to that kind. -/
theorem reads_importDesc (desc : ImportDesc) (d : Nat) : Reads importDesc desc.encode desc d d := by
  cases desc with
  | func type => exact (reads_byte 0x00 d).bind ((reads_index type d).map _)
  | table type => exact (reads_byte 0x01 d).bind ((reads_tableType type d).map _)
  | memory type => exact (reads_byte 0x02 d).bind ((reads_memoryType type d).map _)
  | global type => exact (reads_byte 0x03 d).bind ((reads_globalType type d).map _)

theorem reads_importEntry {i : Import} (h : i.Bounded) (d : Nat) :
    Reads importEntry i.encode i d d :=
  (reads_name h.1 d).bind ((reads_name h.2 d).bind ((reads_importDesc i.desc d).map _))

theorem reads_exportDesc (desc : ExportDesc) (d : Nat) : Reads exportDesc desc.encode desc d d := by
  cases desc with
  | func index => exact (reads_byte 0x00 d).bind ((reads_index index d).map _)
  | table index => exact (reads_byte 0x01 d).bind ((reads_index index d).map _)
  | memory index => exact (reads_byte 0x02 d).bind ((reads_index index d).map _)
  | global index => exact (reads_byte 0x03 d).bind ((reads_index index d).map _)

theorem reads_exportEntry {e : Export} (h : NameFits e.name) (d : Nat) :
    Reads exportEntry e.encode e d d :=
  (reads_name h d).bind ((reads_exportDesc e.desc d).map _)

theorem reads_globalEntry {g : GlobalDef} (h : g.init.Bounded) :
    Reads globalEntry g.encode g 0 0 :=
  (reads_globalType g.type 0).bind ((reads_exprClosed h).map _)

theorem reads_elementSegment {s : ElementSegment} (h : s.Bounded) :
    Reads elementSegment s.encode s 0 0 :=
  (reads_index s.table 0).bind ((reads_exprClosed h.1).bind ((reads_indices h.2 0).map _))

theorem reads_dataSegment {s : DataSegment} (h : s.Bounded) :
    Reads dataSegment s.encode s 0 0 :=
  (reads_index s.memory 0).bind ((reads_exprClosed h.1).bind ((reads_byteString h.2 0).map _))

/-! ## Function bodies

Locals are written in groups of one type. Any division into groups is read back as the same list, an
empty group included.
-/

/-- Groups of locals, with `declared` locals before them, that stay within the bound. -/
theorem reads_localGroups (groups : List (Nat × ValueType)) (declared : Nat)
    (acc : List (List ValueType)) (h : declared + (declaredLocals groups).length ≤ 50000)
    (d : Nat) :
    Reads (localGroups groups.length declared acc) (groups.map encodeLocals).flatten
      (acc.reverse.flatten ++ declaredLocals groups) d d := by
  induction groups generalizing declared acc with
  | nil =>
      rw [declaredLocals, List.flatMap_nil, List.append_nil]
      exact .pure _ d
  | cons group groups ih =>
      obtain ⟨count, type⟩ := group
      have hsplit : declaredLocals ((count, type) :: groups) =
          List.replicate count type ++ declaredLocals groups := List.flatMap_cons
      rw [hsplit, List.length_append, List.length_replicate] at h
      -- Counts are read modulo `2 ^ 32`, which changes nothing for one within the bound.
      have hlt : count < 2 ^ 32 := by omega
      have hcount : (UInt32.ofNat count).toNat = count := UInt32.toNat_ofNat_of_lt' hlt
      have hrest := ih (declared + count) (List.replicate count type :: acc) (by omega)
      rw [List.reverse_cons, List.flatten_append, List.flatten_singleton, List.append_assoc,
        ← hsplit] at hrest
      rw [List.length_cons, localGroups, List.map_cons, List.flatten_cons, encodeLocals,
        List.append_assoc]
      refine (reads_u32 (unsigned_ofNat count) d).bind ((reads_valueType type d).bind ?_)
      rw [hcount]
      dsimp only
      rw [if_neg (by show ¬ 50000 < _; omega)]
      exact hrest

/-- A body is read back from any grouping of its locals into runs of one type. -/
theorem reads_bodyEntry {body : Body} {bs : List UInt8} (h : body.Encodes bs)
    (hbody : body.Bounded) : Reads bodyEntry bs body 0 0 := by
  obtain ⟨groups, hlength, hdeclared, rfl⟩ := h
  -- the locals are counted from zero on, within their bound at each group
  have hgroups : Reads (localGroups (UInt32.ofNat groups.length).toNat 0 [])
      (groups.map encodeLocals).flatten body.locals 0 0 := by
    rw [UInt32.toNat_ofNat_of_lt' hlength, ← hdeclared]
    exact reads_localGroups groups 0 [] (by rw [hdeclared, Nat.zero_add]; exact hbody.1) 0
  have hcount : Reads u32 (unsigned (groups.map encodeLocals).length)
      (UInt32.ofNat groups.length) 0 0 := by
    rw [List.length_map]
    exact reads_u32 (unsigned_ofNat groups.length) 0
  rw [encodeBytes, encodeVec, List.append_assoc]
  exact (reads_u32 (unsigned_ofNat _) 0).bind
    (hcount.bind (hgroups.bind ((reads_exprClosed hbody.2).map _)))

end Decoder

/-! ## Sections

The contents of a section determine the section, given its id.
-/

/-- A section of a module that keeps to its bounds. -/
def Section.Bounded : Section → Prop
  | .custom c => ∀ c' ∈ c, c'.Bounded
  | .types ts => FitsVec FuncType.Bounded ts
  | .imports is => FitsVec Import.Bounded is
  | .funcs ts => ts.length < 2 ^ 32
  | .tables ts => ts.length < 2 ^ 32
  | .memories ts => ts.length < 2 ^ 32
  | .globals gs => FitsVec (fun g : GlobalDef => g.init.Bounded) gs
  | .exports es => FitsVec (fun e : Export => NameFits e.name) es
  | .start _ => True
  | .elements ss => FitsVec ElementSegment.Bounded ss
  | .code bodies => FitsVec Body.Bounded bodies
  | .data ss => FitsVec DataSegment.Bounded ss

namespace Decoder

/-- A vector that fits is read back if its items are. -/
theorem reads_fitsVec {α : Type} {item : Decoder α} {encode : α → List UInt8} {p : α → Prop}
    {as : List α} {d : Nat} (h : FitsVec p as) (hitem : ∀ a, p a → Reads item (encode a) a d d) :
    Reads (vec item) (encodeVec (as.map encode)) as d d :=
  reads_encodeVec h.1 (forall₂_map fun a ha => hitem a (h.2 a ha))

/-- The name is read from the contents by themselves, and what is left of them are the bytes. -/
theorem reads_customSection {c : Custom} (h : c.Bounded) (d : Nat) :
    Reads (customSection (encodeName c.name ++ c.bytes).length) (encodeName c.name ++ c.bytes)
      (some c) d d := by
  have hname : NameFits c.name := by
    rw [Custom.Bounded, List.length_append, encodeName, encodeBytes, List.length_append] at h
    unfold NameFits
    omega
  have hread : name (.ofBytes (encodeName c.name ++ c.bytes)) =
      .ok c.name ⟨c.bytes, 0 + (encodeName c.name).length, 0⟩ := reads_name hname 0 c.bytes 0
  refine (reads_bytes _ d).bind_nil ?_
  rw [hread]
  exact .pure _ d

/-- The contents of a section, behind its size. Only a custom section is delimited by it. -/
theorem reads_sectionContents {s : Section} {contents : List UInt8} (h : s.Contents contents)
    (hs : s.Bounded) :
    Reads (sectionContents s.id (UInt32.ofNat contents.length).toNat) contents s 0 0 := by
  cases s with
  | custom c =>
      cases c with
      | none => cases h
      | some c =>
          obtain rfl : contents = _ := h
          have hc := hs c rfl
          rw [UInt32.toNat_ofNat_of_lt' hc]
          exact (reads_customSection hc 0).map _
  | types ts =>
      obtain rfl : contents = _ := h
      exact (reads_fitsVec hs fun t ht => reads_funcType ht 0).map _
  | imports is =>
      obtain rfl : contents = _ := h
      exact (reads_fitsVec hs fun i hi => reads_importEntry hi 0).map _
  | funcs ts =>
      obtain rfl : contents = _ := h
      exact (reads_indices hs 0).map _
  | tables ts =>
      obtain rfl : contents = _ := h
      exact (reads_encodeVec hs (forall₂_map fun t _ => reads_tableType t 0)).map _
  | memories ts =>
      obtain rfl : contents = _ := h
      exact (reads_encodeVec hs (forall₂_map fun t _ => reads_memoryType t 0)).map _
  | globals gs =>
      obtain rfl : contents = _ := h
      exact (reads_fitsVec hs fun g hg => reads_globalEntry hg).map _
  | exports es =>
      obtain rfl : contents = _ := h
      exact (reads_fitsVec hs fun e he => reads_exportEntry he 0).map _
  | start f =>
      obtain rfl : contents = _ := h
      exact (reads_index f 0).map _
  | elements ss =>
      obtain rfl : contents = _ := h
      exact (reads_fitsVec hs fun s hs => reads_elementSegment hs).map _
  | code bodies =>
      obtain ⟨parts, hparts, rfl⟩ := h
      have hentries : List.Forall₂ (fun body bs => Reads bodyEntry bs body 0 0) bodies parts := by
        refine List.forall₂_iff_get.mpr ⟨hparts.length_eq, fun i hi hi' => ?_⟩
        exact reads_bodyEntry (hparts.get hi hi') (hs.2 (bodies.get ⟨i, hi⟩) (List.get_mem _ _))
      exact (reads_encodeVec hs.1 hentries).map _
  | data ss =>
      obtain rfl : contents = _ := h
      exact (reads_fitsVec hs fun s hs => reads_dataSegment hs).map _

/-- A section is read back from its id, its size and its contents. -/
theorem reads_sectionEntry {s : Section} {bs : List UInt8} (h : s.Encodes bs) (hs : s.Bounded) :
    Reads sectionEntry bs s 0 0 := by
  obtain ⟨contents, hcontents, rfl⟩ := h
  exact (reads_byte s.id 0).bind
    ((reads_u32 (unsigned_ofNat contents.length) 0).bind (reads_sectionContents hcontents hs))

/-- Encodings of sections are read by themselves. -/
theorem spelled_of_encodes {ss : List Section} {parts : List (List UInt8)}
    (h : List.Forall₂ Section.Encodes ss parts) (hss : ∀ s ∈ ss, s.Bounded) :
    List.Forall₂ Section.Spelled ss parts := by
  induction h with
  | nil => exact .nil
  | @cons s bs ss parts hs _ ih =>
      obtain ⟨hbounded, hss⟩ := List.forall_mem_cons.mp hss
      exact .cons (Section.spelled_iff.mpr (reads_sectionEntry hs hbounded)) (ih hss)

/-- The preamble and sections that keep to their bounds. -/
theorem moduleSections_of_encodes {ss : List Section} {parts : List (List UInt8)}
    (h : List.Forall₂ Section.Encodes ss parts) (hss : ∀ s ∈ ss, s.Bounded) :
    ∃ r, moduleSections (.ofBytes (Module.preamble ++ parts.flatten)) = .ok ss r := by
  refine outcome_eq_ok_iff.mp ?_
  rw [outcome_moduleSections]
  exact sectionsOf_eq_ok_iff.mpr ⟨parts, rfl, spelled_of_encodes h hss⟩

end Decoder

/-! ## Putting sections together

Taking the sections of a module one by one into a draft that lacks them gives the module back, and
custom sections can be moved past all others.
-/

namespace Draft

/-- Sections of different kinds can be taken in in either order. -/
theorem add_comm (d : Draft) {s t : Section} (h : s.id ≠ t.id) :
    (d.add s).add t = (d.add t).add s := by
  cases s <;> cases t <;> (try exact absurd rfl h) <;> rfl

/-- A section can be put in later, past sections with other ids. -/
theorem foldl_add_comm (d : Draft) {s : Section} {sections : List Section}
    (h : ∀ t ∈ sections, s.id ≠ t.id) :
    sections.foldl add (d.add s) = (sections.foldl add d).add s := by
  induction sections generalizing d with
  | nil => rfl
  | cons t sections ih =>
      obtain ⟨ht, hsections⟩ := List.forall_mem_cons.mp h
      rw [List.foldl_cons, d.add_comm ht, ih (d.add t) hsections, List.foldl_cons]

/-- Custom sections are collected in the order in which they come. -/
theorem foldl_customs (d : Draft) (customs : List Custom) :
    (customs.map fun c => Section.custom (some c)).foldl add d =
      { d with module := { d.module with customs := d.module.customs ++ customs } } := by
  induction customs generalizing d with
  | nil => rw [List.append_nil]; rfl
  | cons c customs ih =>
      rw [List.map_cons, List.foldl_cons, ih]
      show _ = { d with
        module := { d.module with customs := d.module.customs ++ ([c] ++ customs) } }
      rw [← List.append_assoc]
      rfl

/-- A draft to which none of the empty sections among the given ones adds anything. -/
def Lacks (d : Draft) (sections : List Section) : Prop :=
  ∀ s ∈ sections, s.IsEmpty → d.add s = d

/-- Adding a section leaves out those with other ids as before. -/
theorem Lacks.add {d : Draft} {s : Section} {sections : List Section} (h : d.Lacks sections)
    (hids : ∀ t ∈ sections, s.id ≠ t.id) : (d.add s).Lacks sections := by
  intro t ht hempty
  rw [d.add_comm (hids t ht), h t ht hempty]

/-- However sections are arranged, they make what they make in their order with the custom ones
behind them. -/
theorem foldl_of_arranged {sections ss : List Section} {customs : List Custom}
    (h : Section.Arranged sections customs ss) {d : Draft} (hlacks : d.Lacks sections)
    (hids : sections.Pairwise fun s t => s.id ≠ t.id) (hcustom : ∀ s ∈ sections, 0 ≠ s.id) :
    ss.foldl add d =
      (customs.map fun c => Section.custom (some c)).foldl add (sections.foldl add d) := by
  induction h generalizing d with
  | nil => rfl
  | @custom sections ss customs c _ ih =>
      -- It is taken in first here and may as well be taken in behind the others.
      have hc : ∀ t ∈ sections, (Section.custom (some c)).id ≠ t.id := hcustom
      rw [List.foldl_cons, ih (hlacks.add hc) hids hcustom, foldl_add_comm d hc]
      rfl
  | @keep sections ss customs s _ ih =>
      obtain ⟨hs, hids⟩ := List.pairwise_cons.mp hids
      obtain ⟨_, hcustom⟩ := List.forall_mem_cons.mp hcustom
      have hrest : d.Lacks sections := fun t ht => hlacks t (List.mem_cons_of_mem s ht)
      exact ih (hrest.add hs) hids hcustom
  | @skip sections ss customs s hempty _ ih =>
      obtain ⟨_, hids⟩ := List.pairwise_cons.mp hids
      obtain ⟨_, hcustom⟩ := List.forall_mem_cons.mp hcustom
      have hrest : d.Lacks sections := fun t ht => hlacks t (List.mem_cons_of_mem s ht)
      rw [List.foldl_cons, hlacks s (List.mem_cons_self ..) hempty]
      exact ih hrest hids hcustom

theorem lacks_empty (sections : List Section) : ({} : Draft).Lacks sections := by
  intro s _ hempty
  cases s with
  | custom c => cases hempty
  | start f => cases hempty
  | _ =>
      cases hempty
      rfl

end Draft

namespace Module

variable {m : Module}

/-- Sections come in the order of their kinds, and only the start can be missing. -/
theorem sublist_id_sections (m : Module) :
    (m.sections.map Section.id).Sublist [1, 2, 3, 4, 5, 6, 7, 8, 9, 10, 11] := by
  rw [sections]
  cases m.start with
  | none =>
      show [1, 2, 3, 4, 5, 6, 7, 9, 10, 11].Sublist [1, 2, 3, 4, 5, 6, 7, 8, 9, 10, 11]
      decide
  | some f => exact .refl _

/-- Of each known section there is at most one. -/
theorem pairwise_id_sections (m : Module) : m.sections.Pairwise fun s t => s.id ≠ t.id := by
  rw [← List.pairwise_map]
  exact List.Pairwise.sublist m.sublist_id_sections (by decide)

/-- Custom sections are none of the module's own. -/
theorem zero_ne_id {s : Section} (h : s ∈ m.sections) : 0 ≠ s.id := by
  intro hzero
  have hmem : 0 ∈ m.sections.map Section.id := List.mem_map.mpr ⟨s, h, hzero.symm⟩
  exact absurd (m.sublist_id_sections.subset hmem) (by decide)

/-- The sections of a module put together again are the module, but for its functions: their types
and bodies are still apart. -/
theorem foldl_sections (m : Module) : m.sections.foldl Draft.add {} =
    ⟨{ m with funcs := [], customs := [] }, m.funcs.map (·.type),
      m.funcs.map fun f => ⟨f.locals, f.body⟩⟩ := by
  obtain ⟨_, _, _, _, _, _, _, start, _, _, _⟩ := m
  cases start <;> rfl

/-- The sections of a module make it again. -/
theorem ofSections_of_arranged {ss : List Section} (h : Section.Arranged m.sections m.customs ss) :
    Module.ofSections ss = .ok m := by
  have hfold := Draft.foldl_of_arranged h (Draft.lacks_empty m.sections) m.pairwise_id_sections
    fun s hs => zero_ne_id hs
  rw [foldl_sections, Draft.foldl_customs] at hfold
  rw [Module.ofSections, hfold, Draft.finish, if_pos (by simp)]
  simp

/-- The bounds on a module are those on its sections. -/
theorem bounded_of_mem_sections (hm : m.Bounded) {s : Section} (h : s ∈ m.sections) :
    s.Bounded := by
  have hfuncs : m.funcs.length < 2 ^ 32 := hm.funcs.1
  -- a function is split into the type of one section and the body of another
  have hcode : FitsVec Body.Bounded (m.funcs.map fun f => ⟨f.locals, f.body⟩) := by
    refine ⟨by rwa [List.length_map], fun body hbody => ?_⟩
    obtain ⟨f, hf, rfl⟩ := List.mem_map.mp hbody
    exact hm.funcs.2 f hf
  simp only [sections, List.mem_append, List.mem_cons, List.mem_map, List.not_mem_nil,
    or_false] at h
  rcases h with (rfl | rfl | rfl | rfl | rfl | rfl | rfl) | ⟨f, _, rfl⟩ | rfl | rfl | rfl
  · exact hm.types
  · exact hm.imports
  · show (m.funcs.map (·.type)).length < 2 ^ 32
    rwa [List.length_map]
  · exact hm.tables
  · exact hm.memories
  · exact hm.globals
  · exact hm.exports
  · trivial
  · exact hm.elements
  · exact hcode
  · exact hm.data

end Module

/-- Custom sections may be put anywhere without breaking a bound. -/
theorem Section.Arranged.bounded {sections ss : List Section} {customs : List Custom}
    (h : Section.Arranged sections customs ss) (hsections : ∀ s ∈ sections, s.Bounded)
    (hcustoms : ∀ c ∈ customs, c.Bounded) : ∀ s ∈ ss, s.Bounded := by
  induction h with
  | nil => nofun
  | custom c _ ih =>
      obtain ⟨hc, hcustoms⟩ := List.forall_mem_cons.mp hcustoms
      refine List.forall_mem_cons.mpr ⟨?_, ih hsections hcustoms⟩
      rintro c' ⟨⟩
      exact hc
  | keep s _ ih =>
      obtain ⟨hs, hsections⟩ := List.forall_mem_cons.mp hsections
      exact List.forall_mem_cons.mpr ⟨hs, ih hsections hcustoms⟩
  | skip _ _ ih => exact ih (List.forall_mem_cons.mp hsections).2 hcustoms

/-- However the sections of a module are arranged, they keep to its bounds. -/
theorem Module.Bounded.of_arranged {m : Module} {ss : List Section} (hm : m.Bounded)
    (h : Section.Arranged m.sections m.customs ss) : ∀ s ∈ ss, s.Bounded :=
  h.bounded (fun _ hs => Module.bounded_of_mem_sections hm hs) hm.customs

/-! ## Every module has an encoding

Encodings are a relation, which could be empty. It is not, for any module within the bounds.
-/

/-- Each local can be a group of its own. -/
theorem Body.exists_encodes {body : Body} (h : body.Bounded) : ∃ bs, body.Encodes bs := by
  refine ⟨_, body.locals.map fun t => (1, t), ?_, ?_, rfl⟩
  · rw [List.length_map]
    exact Nat.lt_of_le_of_lt h.1 (by decide)
  · rw [declaredLocals, List.flatMap_map]
    exact List.flatMap_singleton' body.locals

/-- Every section within the bounds has an encoding. -/
theorem Section.exists_encodes {s : Section} (hs : s.Bounded) (hcustom : s ≠ .custom none) :
    ∃ bs, s.Encodes bs := by
  have hcontents : ∃ contents, s.Contents contents := by
    cases s with
    | custom c =>
        cases c with
        | none => exact absurd rfl hcustom
        | some c => exact ⟨_, rfl⟩
    | code bodies =>
        obtain ⟨parts, hparts⟩ := exists_forall₂ fun body hbody =>
          Body.exists_encodes (hs.2 body hbody)
        exact ⟨_, parts, hparts, rfl⟩
    | _ => exact ⟨_, rfl⟩
  obtain ⟨contents, h⟩ := hcontents
  exact ⟨_, contents, h, rfl⟩

/-- All sections, behind the custom ones. -/
theorem Section.arranged_append (sections : List Section) (customs : List Custom) :
    Arranged sections customs (customs.map (fun c => Section.custom (some c)) ++ sections) := by
  induction customs with
  | nil =>
      induction sections with
      | nil => exact .nil
      | cons s sections ih => exact .keep s ih
  | cons c customs ih => exact .custom c ih

namespace Module

variable {m : Module}

/-- Every module within the bounds has an encoding, so what is said of encodings is about
something. -/
theorem exists_encodes (hm : m.Bounded) : ∃ bs, m.Encodes bs := by
  have harranged := Section.arranged_append m.sections m.customs
  have hbounded := hm.of_arranged harranged
  have hnamed : ∀ s ∈ m.customs.map (fun c => Section.custom (some c)) ++ m.sections,
      s ≠ .custom none := by
    rintro s hs rfl
    rcases List.mem_append.mp hs with hs | hs
    · obtain ⟨c, _, hc⟩ := List.mem_map.mp hs
      cases hc
    · exact zero_ne_id hs rfl
  obtain ⟨parts, hparts⟩ := exists_forall₂ fun s hs =>
    Section.exists_encodes (hbounded s hs) (hnamed s hs)
  exact ⟨_, _, parts, harranged, hparts, rfl⟩

/-- A module that keeps to the bounds has encodings, and from each of them it is decoded as it
was. -/
theorem parse_of_encodes (hm : m.Bounded) :
    (∃ bs, m.Encodes bs) ∧ ∀ bs, m.Encodes bs → Module.parse bs = .ok m := by
  refine ⟨exists_encodes hm, ?_⟩
  rintro _ ⟨ss, parts, harranged, hparts, rfl⟩
  obtain ⟨r, hsections⟩ := Decoder.moduleSections_of_encodes hparts (hm.of_arranged harranged)
  rw [Module.parse, hsections]
  exact ofSections_of_arranged harranged

end Module

/-! A module with nested constructs, floats, two groups of locals, a name outside ASCII and a custom
section between the others. -/

/-- The code of its function: a branch table in a block, an `if` with both bodies, a loop. -/
def sampleCode : Expr :=
  [.block (.value .i32) [.plain (.const (.i32 (-200))), .plain (.localGet 0), .brTable [0, 300] 1],
    .ifElse .empty [.nop] [.ret],
    .loop .empty [.plain (.load (.byte .i64 .signed) ⟨0, 128⟩), .plain .drop],
    .plain (.numeric (.conversion (.convert .f64 .i64 .unsigned)))]

/-- The module. -/
def sample : Module where
  types := [⟨[.i32], [.f64]⟩]
  imports := [⟨"é", "m", .memory ⟨⟨1, some 2⟩⟩⟩]
  funcs := [⟨0, [.i64, .i64, .f32], sampleCode⟩]
  globals := [⟨⟨.f32, true⟩, [.plain (.const (.f32 0x7fa00001))]⟩]
  exports := [⟨"f", .func 0⟩]
  data := [⟨0, [.plain (.const (.i32 64))], [1, 2]⟩]
  customs := [⟨"note", [0xff]⟩]

/-- Its bytes, section by section. Sections without entries are left out. -/
def sampleParts : List (List UInt8) :=
  [[0x01, 0x06, 0x01, 0x60, 0x01, 0x7f, 0x01, 0x7c],
    [0x02, 0x0a, 0x01, 0x02, 0xc3, 0xa9, 0x01, 0x6d, 0x02, 0x01, 0x01, 0x02],
    [0x03, 0x02, 0x01, 0x00],
    [0x00, 0x06, 0x04, 0x6e, 0x6f, 0x74, 0x65, 0xff],
    [0x06, 0x09, 0x01, 0x7d, 0x01, 0x43, 0x01, 0x00, 0xa0, 0x7f, 0x0b],
    [0x07, 0x05, 0x01, 0x01, 0x66, 0x00, 0x00],
    [0x0a, 0x25, 0x01, 0x23, 0x02, 0x02, 0x7e, 0x01, 0x7d,
      0x02, 0x7f, 0x41, 0xb8, 0x7e, 0x20, 0x00, 0x0e, 0x02, 0x00, 0xac, 0x02, 0x01, 0x0b,
      0x04, 0x40, 0x01, 0x05, 0x0f, 0x0b,
      0x03, 0x40, 0x30, 0x00, 0x80, 0x01, 0x1a, 0x0b, 0xba, 0x0b],
    [0x0b, 0x09, 0x01, 0x00, 0x41, 0xc0, 0x00, 0x0b, 0x02, 0x01, 0x02]]

theorem sample_bounded : sample.Bounded where
  types := ⟨by decide, by simp [sample, FuncType.Bounded]⟩
  imports := ⟨by decide, by
    simp only [sample, List.mem_singleton, forall_eq, Import.Bounded, NameFits]
    constructor <;> decide +kernel⟩
  funcs := ⟨by decide, by
    simp only [sample, List.mem_singleton, forall_eq]
    exact ⟨by decide, by decide, by decide⟩⟩
  tables := by decide
  memories := by decide
  globals := ⟨by decide, by
    simp only [sample, List.mem_singleton, forall_eq]
    exact ⟨by decide, by decide⟩⟩
  exports := ⟨by decide, by
    simp only [sample, List.mem_singleton, forall_eq, NameFits]
    decide +kernel⟩
  elements := ⟨by decide, nofun⟩
  data := ⟨by decide, by
    simp only [sample, List.mem_singleton, forall_eq]
    exact ⟨⟨by decide, by decide⟩, by decide⟩⟩
  customs := by
    simp only [sample, List.mem_singleton, forall_eq, Custom.Bounded]
    cbv

theorem sample_encodes : sample.Encodes (Module.preamble ++ sampleParts.flatten) := by
  have hbody : Body.Encodes ⟨[.i64, .i64, .f32], sampleCode⟩ (encodeBytes
      (encodeVec ([(2, .i64), (1, .f32)].map encodeLocals) ++ sampleCode.encodeClosed)) :=
    ⟨_, by decide, rfl, rfl⟩
  -- Tables, memories and elements are left out.
  have harranged := Section.Arranged.keep (.types sample.types) (.keep (.imports sample.imports)
    (.keep (.funcs [0]) (.custom ⟨"note", [0xff]⟩ (.skip (s := .tables []) rfl
      (.skip (s := .memories []) rfl (.keep (.globals sample.globals)
        (.keep (.exports sample.exports) (.skip (s := .elements []) rfl
          (.keep (.code [⟨[.i64, .i64, .f32], sampleCode⟩])
            (.keep (.data sample.data) .nil))))))))))
  refine ⟨_, sampleParts, harranged, ?_, rfl⟩
  exact .cons ⟨_, rfl, by cbv⟩ (.cons ⟨_, rfl, by cbv⟩ (.cons ⟨_, rfl, by cbv⟩
    (.cons ⟨_, rfl, by cbv⟩ (.cons ⟨_, rfl, by cbv⟩ (.cons ⟨_, rfl, by cbv⟩
      (.cons ⟨_, ⟨_, .cons hbody .nil, rfl⟩, by cbv⟩ (.cons ⟨_, rfl, by cbv⟩ .nil)))))))

namespace Module

/-- Its encoding is decoded to it. -/
theorem parse_sample : sample.Bounded ∧ sample.Encodes (preamble ++ sampleParts.flatten) ∧
    Module.parse (preamble ++ sampleParts.flatten) = .ok sample :=
  ⟨sample_bounded, sample_encodes, (parse_of_encodes sample_bounded).2 _ sample_encodes⟩

end Module

end WebAssembly
