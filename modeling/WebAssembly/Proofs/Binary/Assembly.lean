import Mathlib
import WebAssembly.Proofs.Binary.RoundTrip

/-!
# What a sequence of sections makes

A module is put together from the last section of each kind and all custom sections
(`Module.assemble`, `Module.ofSections_eq`). So it is the order of sections of one kind that matters
and no other, and custom sections change nothing but themselves. Sizes that are not used can be any
numbers: with another one in its place the same bytes are read (`Decoder.ReadsAlike`), whatever
follows them and whether or not they can be read at all.
-/

namespace WebAssembly

/-! ## The last section of each kind

A draft is a record in which each kind of section overwrites a field of its own, so folding over
sections leaves the last one of each kind.
-/

namespace Section

/-- The custom section, if its name can be read. -/
def custom? : Section → Option Custom
  | .custom c => c
  | _ => none

/-- The types in a section of types. -/
def types? : Section → Option (List FuncType)
  | .types ts => some ts
  | _ => none

/-- The imports in a section of imports. -/
def imports? : Section → Option (List Import)
  | .imports is => some is
  | _ => none

/-- The indices of types in a section of functions. -/
def funcs? : Section → Option (List UInt32)
  | .funcs ts => some ts
  | _ => none

/-- The types in a section of tables. -/
def tables? : Section → Option (List TableType)
  | .tables ts => some ts
  | _ => none

/-- The types in a section of memories. -/
def memories? : Section → Option (List MemoryType)
  | .memories ts => some ts
  | _ => none

/-- The globals in a section of globals. -/
def globals? : Section → Option (List GlobalDef)
  | .globals gs => some gs
  | _ => none

/-- The exports in a section of exports. -/
def exports? : Section → Option (List Export)
  | .exports es => some es
  | _ => none

/-- The function in a start section. -/
def start? : Section → Option UInt32
  | .start f => some f
  | _ => none

/-- The segments in a section of elements. -/
def elements? : Section → Option (List ElementSegment)
  | .elements ss => some ss
  | _ => none

/-- The bodies in a section of code. -/
def code? : Section → Option (List Body)
  | .code bodies => some bodies
  | _ => none

/-- The segments in a section of data. -/
def data? : Section → Option (List DataSegment)
  | .data ss => some ss
  | _ => none

/-- The contents of the last section of a kind. -/
def last {α : Type} (pick : Section → Option α) (ss : List Section) : Option α :=
  (ss.filterMap pick).getLast?

/-- The indices of types in the last section of functions. -/
def lastFuncs (ss : List Section) : List UInt32 :=
  (last funcs? ss).getD []

/-- The bodies in the last section of code. -/
def lastBodies (ss : List Section) : List Body :=
  (last code? ss).getD []

end Section

open Section in
/-- The module that has the contents of the last section of each kind, and all custom sections. Its
functions are pairs of a type and a body that have one place in their sections. -/
def Module.assemble (ss : List Section) : Module where
  types := (last types? ss).getD []
  imports := (last imports? ss).getD []
  funcs := List.zipWith (fun type (body : Body) => ⟨type, body.locals, body.code⟩)
    (lastFuncs ss) (lastBodies ss)
  tables := (last tables? ss).getD []
  memories := (last memories? ss).getD []
  globals := (last globals? ss).getD []
  exports := (last exports? ss).getD []
  start := last start? ss
  elements := (last elements? ss).getD []
  data := (last data? ss).getD []
  customs := ss.filterMap custom?

namespace Draft

/-- A component that every section of one kind replaces is that of the last one. -/
theorem foldl_last {α : Type} (get : Draft → α) (pick : Section → Option α)
    (h : ∀ d s, get (d.add s) = (pick s).getD (get d)) (ss : List Section) (d : Draft) :
    get (ss.foldl add d) = (Section.last pick ss).getD (get d) := by
  induction ss generalizing d with
  | nil => rfl
  | cons s ss ih =>
      rw [List.foldl_cons, ih, h]
      unfold Section.last
      cases hs : pick s with
      | none => rw [List.filterMap_cons_none hs, Option.getD_none]
      | some a =>
          rw [List.filterMap_cons_some hs, List.getLast?_cons, Option.getD_some, Option.getD_some]

/-- The last start section decides. -/
theorem foldl_start (ss : List Section) (d : Draft) :
    (ss.foldl add d).module.start = (Section.last Section.start? ss).or d.module.start := by
  have h := foldl_last (fun d => d.module.start) (fun s => s.start?.map some)
    (by intro d s; cases s <;> rfl) ss d
  have hmap : Section.last (fun s => s.start?.map some) ss =
      (Section.last Section.start? ss).map some := by
    unfold Section.last
    rw [← List.map_filterMap, List.getLast?_map]
  rw [h, hmap]
  cases Section.last Section.start? ss <;> rfl

/-- Custom sections are all kept, in their order. -/
theorem foldl_custom (ss : List Section) (d : Draft) :
    (ss.foldl add d).module.customs = d.module.customs ++ ss.filterMap Section.custom? := by
  induction ss generalizing d with
  | nil => exact (List.append_nil _).symm
  | cons s ss ih =>
      have hadd : (d.add s).module.customs = d.module.customs ++ s.custom?.toList := by
        cases s with
        | custom c => rfl
        | _ => exact (List.append_nil _).symm
      rw [List.foldl_cons, ih, hadd]
      cases hs : s.custom? with
      | none => rw [List.filterMap_cons_none hs, Option.toList_none, List.append_nil]
      | some c =>
          rw [List.filterMap_cons_some hs, Option.toList_some, List.append_assoc,
            List.singleton_append]

end Draft

/-- What sections are put together to. -/
theorem Module.ofSections_eq (ss : List Section) :
    Module.ofSections ss =
      if (Section.lastFuncs ss).length = (Section.lastBodies ss).length then .ok (assemble ss)
      else .error (.funcCodeMismatch (Section.lastFuncs ss).length
        (Section.lastBodies ss).length) := by
  -- each field is overwritten by the sections that carry it, so the last one is left
  have hlast : ∀ {α : Type} (get : Draft → List α) (pick : Section → Option (List α)),
      get {} = [] → (∀ d s, get (d.add s) = (pick s).getD (get d)) →
        get (ss.foldl Draft.add {}) = (Section.last pick ss).getD [] := by
    intro α get pick hempty hadd
    rw [Draft.foldl_last get pick hadd, hempty]
  have htypes := hlast (·.module.types) Section.types? rfl (by intro d s; cases s <;> rfl)
  have himports := hlast (·.module.imports) Section.imports? rfl (by intro d s; cases s <;> rfl)
  have htables := hlast (·.module.tables) Section.tables? rfl (by intro d s; cases s <;> rfl)
  have hmemories := hlast (·.module.memories) Section.memories? rfl (by intro d s; cases s <;> rfl)
  have hglobals := hlast (·.module.globals) Section.globals? rfl (by intro d s; cases s <;> rfl)
  have hexports := hlast (·.module.exports) Section.exports? rfl (by intro d s; cases s <;> rfl)
  have helements := hlast (·.module.elements) Section.elements? rfl (by intro d s; cases s <;> rfl)
  have hdata := hlast (·.module.data) Section.data? rfl (by intro d s; cases s <;> rfl)
  have hfuncs : (ss.foldl Draft.add {}).funcTypes = Section.lastFuncs ss :=
    hlast (·.funcTypes) Section.funcs? rfl (by intro d s; cases s <;> rfl)
  have hbodies : (ss.foldl Draft.add {}).bodies = Section.lastBodies ss :=
    hlast (·.bodies) Section.code? rfl (by intro d s; cases s <;> rfl)
  have hstart : (ss.foldl Draft.add {}).module.start = Section.last Section.start? ss := by
    rw [Draft.foldl_start]
    exact Option.or_none
  have hcustoms : (ss.foldl Draft.add {}).module.customs = ss.filterMap Section.custom? :=
    Draft.foldl_custom ss {}
  unfold ofSections Draft.finish assemble
  rw [hfuncs, hbodies]
  dsimp only
  rw [htypes, himports, htables, hmemories, hglobals, hexports, hstart, helements, hdata, hcustoms]

/-! ## The order of sections

Sections of different kinds commute. A list with the same sections of each kind in the same order is
reached by such exchanges.
-/

/-- Sections make the same draft in any order that keeps the order of those of one kind. The first
of the one sequence is found in the other behind sections of other kinds only, and so may be taken
in before these. -/
theorem Draft.foldl_of_filter {ss ss' : List Section}
    (h : ∀ id, ss'.filter (·.id = id) = ss.filter (·.id = id)) (d : Draft) :
    ss'.foldl add d = ss.foldl add d := by
  induction ss generalizing ss' d with
  | nil =>
      obtain rfl : ss' = [] := by
        refine List.eq_nil_iff_forall_not_mem.mpr fun s hs => ?_
        have hmem : s ∈ ss'.filter (·.id = s.id) := List.mem_filter.mpr ⟨hs, by simp⟩
        rw [h s.id] at hmem
        cases hmem
      rfl
  | cons s ss ih =>
      have hfirst : ss'.filter (·.id = s.id) = s :: ss.filter (·.id = s.id) := by
        rw [h s.id, List.filter_cons_of_pos (by simp)]
      obtain ⟨pre, post, rfl, hpre, _, _⟩ := List.filter_eq_cons_iff.mp hfirst
      have hpre : ∀ t ∈ pre, s.id ≠ t.id := by
        intro t ht heq
        exact hpre t ht (by simp [heq])
      -- taking `s` out of both leaves lists that agree on each id again
      have hrest : ∀ id, (pre ++ post).filter (·.id = id) = ss.filter (·.id = id) := by
        intro id
        have hid := h id
        rw [List.filter_append] at hid ⊢
        by_cases hs : s.id = id
        · have hnone : pre.filter (·.id = id) = [] :=
            List.filter_eq_nil_iff.mpr fun t ht => by simp [← hs, (hpre t ht).symm]
          rw [List.filter_cons_of_pos (by simp [hs]), List.filter_cons_of_pos (by simp [hs]),
            hnone, List.nil_append] at hid
          rw [hnone, List.nil_append]
          exact (List.cons.inj hid).2
        · rwa [List.filter_cons_of_neg (by simp [hs]), List.filter_cons_of_neg (by simp [hs])]
            at hid
      rw [List.foldl_append, List.foldl_cons, ← foldl_add_comm d hpre, ← List.foldl_append,
        ih hrest, List.foldl_cons]

/-- Only the order among sections of one kind matters. -/
theorem Module.ofSections_of_filter {ss ss' : List Section}
    (h : ∀ id, ss'.filter (·.id = id) = ss.filter (·.id = id)) :
    Module.ofSections ss' = Module.ofSections ss := by
  unfold ofSections
  rw [Draft.foldl_of_filter h]

/-- The module without its custom sections. -/
def Module.withoutCustoms (m : Module) : Module :=
  { m with customs := [] }

/-- One more custom section changes nothing but the custom sections. -/
theorem Module.ofSections_insert (front back : List Section) (c : Option Custom) :
    (Module.ofSections (front ++ .custom c :: back)).map withoutCustoms =
      (Module.ofSections (front ++ back)).map withoutCustoms := by
  have hlast : ∀ {α : Type} (pick : Section → Option α), pick (.custom c) = none →
      Section.last pick (front ++ .custom c :: back) = Section.last pick (front ++ back) := by
    intro α pick hpick
    unfold Section.last
    rw [List.filterMap_append, List.filterMap_append, List.filterMap_cons_none hpick]
  have hassemble : (assemble (front ++ .custom c :: back)).withoutCustoms =
      (assemble (front ++ back)).withoutCustoms := by
    simp only [assemble, withoutCustoms, Section.lastFuncs, Section.lastBodies,
      hlast Section.types? rfl, hlast Section.imports? rfl, hlast Section.funcs? rfl,
      hlast Section.tables? rfl, hlast Section.memories? rfl, hlast Section.globals? rfl,
      hlast Section.exports? rfl, hlast Section.start? rfl, hlast Section.elements? rfl,
      hlast Section.code? rfl, hlast Section.data? rfl]
  rw [ofSections_eq, ofSections_eq]
  unfold Section.lastFuncs Section.lastBodies
  rw [hlast Section.funcs? rfl, hlast Section.code? rfl]
  split
  · exact congrArg Except.ok hassemble
  · rfl

/-! ## Sizes that are not used

A size is read and then not looked at, except that of a custom section. Readers that do not look at
a number cannot tell two of them apart.
-/

namespace Decoder

open Leb128

variable {α β : Type} {x : Decoder α}

/-- Two answers that differ at most in the place that has been reached. -/
def Alike : EStateM.Result DecodeError Reader α → EStateM.Result DecodeError Reader α → Prop
  | .ok a r, .ok a' r' => a = a' ∧ r.unread = r'.unread ∧ r.depth = r'.depth
  | .error e _, .error e' _ => e = e'
  | _, _ => False

/-- For `x` it makes no difference which of the two inputs it is given. -/
def ReadsAlike (x : Decoder α) (u u' : List UInt8) : Prop :=
  ∀ pos pos', Alike (x ⟨u, pos, 0⟩) (x ⟨u', pos', 0⟩)

/-- A decoder in order does not depend on its position in the file. -/
theorem InOrder.alike {d d' : Nat} (h : InOrder x d d') (u : List UInt8) (pos pos' : Nat) :
    Alike (x ⟨u, pos, d⟩) (x ⟨u, pos', d⟩) := by
  cases hread : x ⟨u, pos, d⟩ with
  | ok a r =>
      obtain ⟨rest, _, _⟩ := r
      obtain ⟨bs, rfl, hreads, _⟩ := h.ok hread
      rw [hreads] at hread ⊢
      cases hread
      exact ⟨rfl, rfl, rfl⟩
  | error e r =>
      obtain ⟨r', herror⟩ := (h.error hread).2 pos'
      rw [herror]
      exact rfl

/-- What stands in front of the difference is read first. -/
theorem ReadsAlike.skip {y : Decoder β} {f : β → Decoder α} {bs u u' : List UInt8} {b : β}
    (hy : Reads y bs b 0 0) (h : ReadsAlike (f b) u u') :
    ReadsAlike (y >>= f) (bs ++ u) (bs ++ u') := by
  intro pos pos'
  rw [bind_of_ok (hy u pos), bind_of_ok (hy u' pos')]
  exact h _ _

/-- What comes behind the difference is read as usual. -/
theorem ReadsAlike.bind {f : α → Decoder β} {u u' : List UInt8} (h : ReadsAlike x u u')
    (hf : ∀ a d, InOrder (f a) d d) : ReadsAlike (x >>= f) u u' := by
  intro pos pos'
  have hfirst := h pos pos'
  cases hread : x ⟨u, pos, 0⟩ with
  | ok a r =>
      cases hread' : x ⟨u', pos', 0⟩ with
      | ok a' r' =>
          rw [hread, hread'] at hfirst
          obtain ⟨rest, p, k⟩ := r
          obtain ⟨rest', p', k'⟩ := r'
          obtain ⟨rfl, hrest, hk⟩ := hfirst
          obtain rfl : rest = rest' := hrest
          obtain rfl : k = k' := hk
          rw [bind_of_ok hread, bind_of_ok hread']
          exact (hf a k).alike rest p p'
      | error e r' =>
          rw [hread, hread'] at hfirst
          exact hfirst.elim
  | error e r =>
      cases hread' : x ⟨u', pos', 0⟩ with
      | ok a' r' =>
          rw [hread, hread'] at hfirst
          exact hfirst.elim
      | error e' r' =>
          rw [hread, hread'] at hfirst
          rw [bind_of_error hread, bind_of_error hread']
          exact hfirst

/-- A number that is read and not used. -/
theorem readsAlike_number {f : UInt32 → Decoder α} {size size' : List UInt8}
    (hsize : Terminated size) (hsize' : Terminated size') (hf : ∀ n n', f n = f n')
    (h : ∀ n, InOrder (f n) 0 0) (tail : List UInt8) :
    ReadsAlike (u32 >>= f) (size ++ tail) (size' ++ tail) := by
  intro pos pos'
  have hread := reads_u32 ⟨hsize, rfl⟩ 0 tail pos
  have hread' := reads_u32 ⟨hsize', rfl⟩ 0 tail pos'
  rw [bind_of_ok hread, bind_of_ok hread',
    hf (UInt32.ofNat (value size')) (UInt32.ofNat (value size))]
  exact (h _).alike tail _ _

/-- Items in front of one in which the difference is. -/
theorem readsAlike_repeated {item : Decoder α} (hitem : ∀ d, InOrder item d d)
    {u u' : List UInt8} (h : ReadsAlike item u u') {as : List α} {parts : List (List UInt8)}
    (hparts : List.Forall₂ (fun a bs => Reads item bs a 0 0) as parts) {n : Nat}
    (hn : as.length < n) (acc : List α) :
    ReadsAlike (repeated item n acc) (parts.flatten ++ u) (parts.flatten ++ u') := by
  induction hparts generalizing n acc with
  | nil =>
      obtain ⟨k, rfl⟩ : ∃ k, n = k + 1 := ⟨n - 1, by rw [List.length_nil] at hn; omega⟩
      exact h.bind fun a d => inOrder_repeated (hitem d) k (a :: acc)
  | @cons a bs as parts ha _ ih =>
      rw [List.length_cons] at hn
      obtain ⟨k, rfl⟩ : ∃ k, n = k + 1 := ⟨n - 1, by omega⟩
      rw [List.flatten_cons, List.append_assoc, List.append_assoc]
      exact .skip ha (ih (by omega) (a :: acc))

/-- The size of a section counts only if that is a custom one. -/
theorem readsAlike_sectionSize {id : UInt8} (hid : id ≠ 0) {size size' : List UInt8}
    (hsize : Terminated size) (hsize' : Terminated size') (tail : List UInt8) :
    ReadsAlike sectionEntry (id :: (size ++ tail)) (id :: (size' ++ tail)) := by
  have hcontents : ∀ n n' : UInt32, sectionContents id n.toNat = sectionContents id n'.toNat := by
    intro n n'
    unfold sectionContents
    split
    case h_1 => exact absurd rfl hid
    all_goals rfl
  exact .skip (reads_byte id 0) (readsAlike_number hsize hsize' hcontents
    (fun n => inOrder_sectionContents id n.toNat 0) tail)

/-- The size in front of a body is read and not used. -/
theorem readsAlike_bodySize {size size' : List UInt8} (hsize : Terminated size)
    (hsize' : Terminated size') (tail : List UInt8) :
    ReadsAlike bodyEntry (size ++ tail) (size' ++ tail) :=
  readsAlike_number hsize hsize' (fun _ _ => rfl) (fun _ => (inOrder_u32 0).bind fun groups =>
    (inOrder_localGroups groups.toNat 0 [] 0).bind fun _ => (inOrder_expr 0).map _) tail

/-- A section of code, with the difference in one of its bodies. -/
theorem readsAlike_code {size count u u' : List UInt8} {n : UInt32} {bodies : List Body}
    {parts : List (List UInt8)} (hsize : Terminated size) (hcount : Unsigned n count)
    (hparts : List.Forall₂ (fun body bs => Reads bodyEntry bs body 0 0) bodies parts)
    (hn : bodies.length < n.toNat) (h : ReadsAlike bodyEntry u u') :
    ReadsAlike sectionEntry (10 :: (size ++ (count ++ (parts.flatten ++ u))))
      (10 :: (size ++ (count ++ (parts.flatten ++ u')))) := by
  have hvec : ReadsAlike (vec bodyEntry) (count ++ (parts.flatten ++ u))
      (count ++ (parts.flatten ++ u')) :=
    .skip (reads_u32 hcount 0) (readsAlike_repeated inOrder_bodyEntry h hparts hn [])
  exact .skip (reads_byte 10 0) (.skip (reads_u32 ⟨hsize, rfl⟩ 0) (hvec.bind fun _ d => .pure _ d))

end Decoder

/-- Bytes whose first section is read alike make the same sections. -/
theorem sectionsOf_of_readsAlike {u u' : List UInt8}
    (h : Decoder.ReadsAlike Decoder.sectionEntry u u') (hu : u ≠ []) (hu' : u' ≠ []) :
    sectionsOf u = sectionsOf u' := by
  have halike := h 0 0
  rcases Decoder.section_cases u with ⟨s, bs, rest, hs, rfl⟩ | ⟨e, _, herror⟩
  · rcases Decoder.section_cases u' with ⟨s', bs', rest', hs', rfl⟩ | ⟨e', _, herror'⟩
    · rw [Section.spelled_iff.mp hs, Section.spelled_iff.mp hs'] at halike
      obtain ⟨rfl, hrest, _⟩ := halike
      obtain rfl : rest = rest' := hrest
      rw [sectionsOf_of_spelled hs, sectionsOf_of_spelled hs']
    · obtain ⟨r', hr'⟩ := herror' 0
      rw [Section.spelled_iff.mp hs, hr'] at halike
      exact halike.elim
  · obtain ⟨r, hr⟩ := herror 0
    rw [sectionsOf_of_error hu hr]
    rcases Decoder.section_cases u' with ⟨s', bs', rest', hs', rfl⟩ | ⟨e', _, herror'⟩
    · rw [hr, Section.spelled_iff.mp hs'] at halike
      exact halike.elim
    · obtain ⟨r', hr'⟩ := herror' 0
      rw [hr, hr'] at halike
      rw [sectionsOf_of_error hu' hr', show e = e' from halike]

/-! ## Modules

What this means for files, where a section is known by its bytes.
-/

/-- The bytes are a function body: read by themselves they give `body`, and nothing of them is
left. -/
def Body.Spelled (body : Body) (bs : List UInt8) : Prop :=
  ∃ r, Decoder.bodyEntry (.ofBytes bs) = .ok body r ∧ r.unread = []

namespace Module

open Leb128

/-- The sections of a file are those of its parts. -/
theorem parse_of_spelled {ss : List Section} {parts : List (List UInt8)}
    (h : List.Forall₂ Section.Spelled ss parts) :
    Module.parse (preamble ++ parts.flatten) = Module.ofSections ss := by
  rw [parse_append, sectionsOf_eq_ok_iff.mpr ⟨parts, rfl, h⟩]
  rfl

/-- Files with the same sections in front, behind which the same sections are read. -/
theorem parse_of_sectionsOf {ss : List Section} {front : List (List UInt8)}
    (hfront : List.Forall₂ Section.Spelled ss front) {u u' : List UInt8}
    (h : sectionsOf u = sectionsOf u') :
    Module.parse (preamble ++ (front.flatten ++ u)) =
      Module.parse (preamble ++ (front.flatten ++ u')) := by
  rw [parse_append, parse_append, sectionsOf_append hfront, sectionsOf_append hfront, h]

/-- Parts with one first byte are sections of one kind. -/
theorem filter_spelled {ss : List Section} {parts : List (List UInt8)}
    (h : List.Forall₂ Section.Spelled ss parts) (id : UInt8) :
    List.Forall₂ Section.Spelled (ss.filter (·.id = id)) (parts.filter (·.head? = some id)) := by
  refine List.rel_filter ?_ h
  intro s bs hs
  simp [hs.head?]

theorem spelled_unique {ss ss' : List Section} {parts : List (List UInt8)}
    (h : List.Forall₂ Section.Spelled ss parts) (h' : List.Forall₂ Section.Spelled ss' parts) :
    ss = ss' :=
  List.left_unique_forall₂' (fun _ _ _ hs hs' => hs.unique hs') h h'

/-- Sections may change places as long as those of one kind keep their order. -/
theorem parse_of_perm {ss : List Section} {parts parts' : List (List UInt8)}
    (h : List.Forall₂ Section.Spelled ss parts) (hperm : parts'.Perm parts)
    (horder : ∀ id : UInt8, parts'.filter (·.head? = some id) = parts.filter (·.head? = some id)) :
    Module.parse (preamble ++ parts'.flatten) = Module.parse (preamble ++ parts.flatten) := by
  have hsections : ∀ bs ∈ parts', ∃ s : Section, s.Spelled bs := by
    intro bs hbs
    obtain ⟨s, _, hs⟩ := exists_of_mem_right h (hperm.mem_iff.mp hbs)
    exact ⟨s, hs⟩
  obtain ⟨ss', hss'⟩ := exists_forall₂ hsections
  have h' : List.Forall₂ Section.Spelled ss' parts' := .flip hss'
  rw [parse_of_spelled h, parse_of_spelled h']
  refine ofSections_of_filter fun id => ?_
  have hfilter' := filter_spelled h' id
  rw [horder id] at hfilter'
  exact spelled_unique hfilter' (filter_spelled h id)

/-- A custom section can be put in anywhere without changing anything else. -/
theorem parse_insert {ss : List Section} {front : List (List UInt8)} {c : Option Custom}
    {bs : List UInt8} (hfront : List.Forall₂ Section.Spelled ss front)
    (hbs : Section.Spelled (.custom c) bs) (tail : List UInt8) :
    (Module.parse (preamble ++ (front.flatten ++ (bs ++ tail)))).map withoutCustoms =
      (Module.parse (preamble ++ (front.flatten ++ tail))).map withoutCustoms := by
  rw [parse_append, parse_append, sectionsOf_append hfront, sectionsOf_append hfront,
    sectionsOf_of_spelled hbs]
  cases sectionsOf tail with
  | error e => rfl
  | ok back => exact ofSections_insert ss back c

/-- The algebra of sections. Behind the preamble,

* the loop over sections succeeds exactly on a concatenation of sections;
* these make the module whose components are the contents of the last section of each kind, unless
  the last sections of functions and of code are of different lengths, which is then the error;
* they make the same in any order that keeps the order of those of one kind;
* a custom section that is put between them changes the custom sections at most;
* another size of a section that is not a custom one changes nothing;
* another size of a function body changes nothing.

In the last three what follows the place of the change is arbitrary, and need not be sections. -/
theorem section_algebra :
    (∀ (rest : List UInt8) (ss : List Section),
      (∃ r, Decoder.moduleSections (.ofBytes (preamble ++ rest)) = .ok ss r) ↔
        ∃ parts, rest = parts.flatten ∧ List.Forall₂ Section.Spelled ss parts) ∧
    (∀ (ss : List Section) (parts : List (List UInt8)), List.Forall₂ Section.Spelled ss parts →
      Module.parse (preamble ++ parts.flatten) =
        if (Section.lastFuncs ss).length = (Section.lastBodies ss).length then .ok (assemble ss)
        else .error (.funcCodeMismatch (Section.lastFuncs ss).length
          (Section.lastBodies ss).length)) ∧
    (∀ (ss : List Section) (parts parts' : List (List UInt8)),
      List.Forall₂ Section.Spelled ss parts → parts'.Perm parts →
      (∀ id : UInt8, parts'.filter (·.head? = some id) = parts.filter (·.head? = some id)) →
        Module.parse (preamble ++ parts'.flatten) = Module.parse (preamble ++ parts.flatten)) ∧
    (∀ (ss : List Section) (front : List (List UInt8)), List.Forall₂ Section.Spelled ss front →
      (∀ (c : Option Custom) (bs tail : List UInt8), Section.Spelled (.custom c) bs →
        (Module.parse (preamble ++ (front.flatten ++ (bs ++ tail)))).map withoutCustoms =
          (Module.parse (preamble ++ (front.flatten ++ tail))).map withoutCustoms) ∧
      (∀ (id : UInt8) (size size' tail : List UInt8), id ≠ 0 → Terminated size →
        Terminated size' →
        Module.parse (preamble ++ (front.flatten ++ id :: (size ++ tail))) =
          Module.parse (preamble ++ (front.flatten ++ id :: (size' ++ tail)))) ∧
      ∀ (size count : List UInt8) (n : UInt32) (bodies : List Body) (parts : List (List UInt8))
        (bodySize bodySize' tail : List UInt8), Terminated size → Unsigned n count →
        List.Forall₂ Body.Spelled bodies parts → bodies.length < n.toNat →
        Terminated bodySize → Terminated bodySize' →
        Module.parse (preamble ++ (front.flatten ++
            10 :: (size ++ (count ++ (parts.flatten ++ (bodySize ++ tail)))))) =
          Module.parse (preamble ++ (front.flatten ++
            10 :: (size ++ (count ++ (parts.flatten ++ (bodySize' ++ tail))))))) := by
  refine ⟨?_, ?_, ?_, ?_⟩
  · intro rest ss
    rw [← outcome_eq_ok_iff, Decoder.outcome_moduleSections, sectionsOf_eq_ok_iff]
  · intro ss parts h
    rw [parse_of_spelled h, ofSections_eq]
  · intro ss parts parts' h hperm horder
    exact parse_of_perm h hperm horder
  · intro ss front hfront
    refine ⟨?_, ?_, ?_⟩
    · intro c bs tail hbs
      exact parse_insert hfront hbs tail
    · intro id size size' tail hid hsize hsize'
      have halike := Decoder.readsAlike_sectionSize hid hsize hsize' tail
      exact parse_of_sectionsOf hfront
        (sectionsOf_of_readsAlike halike (List.cons_ne_nil _ _) (List.cons_ne_nil _ _))
    · intro size count n bodies parts bodySize bodySize' tail hsize hcount hparts hn hbody hbody'
      have hreads : List.Forall₂ (fun body bs => Decoder.Reads Decoder.bodyEntry bs body 0 0) bodies
          parts :=
        hparts.imp fun _ _ hspelled => (Decoder.inOrder_bodyEntry 0).reads_iff.mp hspelled
      have halike := Decoder.readsAlike_code hsize hcount hreads hn
        (Decoder.readsAlike_bodySize hbody hbody' tail)
      exact parse_of_sectionsOf hfront
        (sectionsOf_of_readsAlike halike (List.cons_ne_nil _ _) (List.cons_ne_nil _ _))

end Module

/-! A module with two sections of types, with its code in front of everything, and with a custom
section whose name has more bytes than the section. The sizes of the code and of its one body are
wrong, and the first is written with more bytes than it needs. -/

/-- Its sections as bytes. -/
def scrambledParts : List (List UInt8) :=
  [[0x0a, 0x85, 0x80, 0x00, 0x01, 0x7f, 0x00, 0x01, 0x0b],
    [0x01, 0x01, 0x00],
    [0x00, 0x01, 0x7f],
    [0x03, 0x02, 0x01, 0x00],
    [0x01, 0x04, 0x01, 0x60, 0x00, 0x00]]

/-- Its sections. -/
def scrambledSections : List Section :=
  [.code [⟨[], [.nop]⟩], .types [], .custom none, .funcs [0], .types [⟨[], []⟩]]

theorem scrambled_spelled : List.Forall₂ Section.Spelled scrambledSections scrambledParts :=
  .cons ⟨⟨[], 9, 0⟩, by cbv, rfl⟩ (.cons ⟨⟨[], 3, 0⟩, by cbv, rfl⟩ (.cons ⟨⟨[], 3, 0⟩, by cbv, rfl⟩
    (.cons ⟨⟨[], 4, 0⟩, by cbv, rfl⟩ (.cons ⟨⟨[], 6, 0⟩, by cbv, rfl⟩ .nil))))

/-- The same sections in the usual order. -/
def orderedParts : List (List UInt8) :=
  [[0x01, 0x01, 0x00],
    [0x01, 0x04, 0x01, 0x60, 0x00, 0x00],
    [0x03, 0x02, 0x01, 0x00],
    [0x0a, 0x85, 0x80, 0x00, 0x01, 0x7f, 0x00, 0x01, 0x0b],
    [0x00, 0x01, 0x7f]]

/-- The second section of types counts. Nothing changes in the usual order, nor with a right size of
the body. -/
theorem scrambled_section_algebra :
    List.Forall₂ Section.Spelled scrambledSections scrambledParts ∧
      orderedParts.Perm scrambledParts ∧
      Module.parse (Module.preamble ++ scrambledParts.flatten) =
        .ok { types := [⟨[], []⟩], funcs := [⟨0, [], [.nop]⟩] } ∧
      Module.parse (Module.preamble ++ orderedParts.flatten) =
        Module.parse (Module.preamble ++ scrambledParts.flatten) ∧
      ∀ tail, Module.parse (Module.preamble ++
          (0x0a :: ([0x85, 0x80, 0x00] ++ ([0x01] ++ ([0x7f] ++ tail))))) =
        Module.parse (Module.preamble ++
          (0x0a :: ([0x85, 0x80, 0x00] ++ ([0x01] ++ ([0x03] ++ tail))))) := by
  obtain ⟨_, hmakes, horder, hchange⟩ := Module.section_algebra
  have hperm : orderedParts.Perm scrambledParts := by
    decide
  have hkinds : ∀ id : UInt8, orderedParts.filter (·.head? = some id) =
      scrambledParts.filter (·.head? = some id) := by
    decide +kernel
  obtain ⟨_, _, hbody⟩ := hchange [] [] .nil
  refine ⟨scrambled_spelled, hperm, (hmakes _ _ scrambled_spelled).trans (by cbv),
    horder _ _ _ scrambled_spelled hperm hkinds, fun tail => ?_⟩
  exact hbody [0x85, 0x80, 0x00] [0x01] 1 [] [] [0x7f] [0x03] tail
    (.more (by decide) (.more (by decide) (.last (by decide)))) ⟨.last (by decide), rfl⟩ .nil
    (by decide) (.last (by decide)) (.last (by decide))

end WebAssembly
