import WebAssembly.Proofs.Lifetimes

/-!
# The effect of instantiation

What a store is like after a module has been instantiated, in closed form and whatever the store was
like before. The instances that the module adds stand behind those that were there, its own instance
maps indices to imports and then to what is new, and on top of that lie the segments: where several
of them reach, the last one counts (`Store.withSegments`). That segments are written one after the
other comes to the same (`SegmentWrite.applyAll_eq`).
-/

namespace WebAssembly

/-! ## Writing one thing over another

Overwriting part of an array, given pointwise: what is written where it reaches, the old entry
elsewhere.
-/

section Overlay

variable {α : Type}

/-- What entries `ys` that stand from `start` on have at a position. -/
def entryFrom (start : Nat) (ys : List α) (i : Nat) : Option α :=
  if start ≤ i then ys[i - start]? else none

/-- The array with something else at some positions. -/
def overlay (put : Nat → Option α) (xs : Array α) : Array α :=
  xs.mapIdx fun i old => (put i).getD old

theorem overlay_none (xs : Array α) : overlay (fun _ => none) xs = xs := by
  ext <;> simp [overlay]

/-- What lies on top is seen first. -/
theorem overlay_overlay (put put' : Nat → Option α) (xs : Array α) :
    overlay put (overlay put' xs) = overlay (fun i => (put i).or (put' i)) xs := by
  simp [overlay, Function.comp_def]

/-- The first of the entries stands at the start, the others behind it. -/
theorem entryFrom_cons (start : Nat) (y : α) (ys : List α) (i : Nat) :
    entryFrom start (y :: ys) i = if start = i then some y else entryFrom (start + 1) ys i := by
  unfold entryFrom
  rcases Nat.lt_trichotomy start i with hlt | rfl | hgt
  · have hnext : i - start = i - (start + 1) + 1 := by omega
    rw [if_pos (Nat.le_of_lt hlt), if_neg (Nat.ne_of_lt hlt), if_pos (Nat.succ_le_of_lt hlt), hnext,
      List.getElem?_cons_succ]
  · simp
  · rw [if_neg (by omega), if_neg (by omega), if_neg (by omega)]

/-- Writing entries over an array replaces the ones they cover, as far as the array goes. -/
theorem getElem?_overwrite (xs : Array α) (start : Nat) (ys : List α) (i : Nat) :
    (overwrite xs start ys)[i]? = xs[i]?.map fun old => (entryFrom start ys i).getD old := by
  induction ys generalizing xs start with
  | nil => simp [overwrite, entryFrom]
  | cons y ys ih =>
      rw [overwrite, ih, Array.getElem?_setIfInBounds]
      simp only [entryFrom_cons]
      by_cases hi : start = i
      · subst hi
        -- what follows stands behind this place
        have hbehind : entryFrom (start + 1) ys start = none := if_neg (by omega)
        by_cases hsize : start < xs.size
        · simp [hsize, hbehind]
        · simp [hsize]
      · simp [hi]

theorem overwrite_eq_overlay (xs : Array α) (start : Nat) (ys : List α) :
    overwrite xs start ys = overlay (entryFrom start ys) xs := by
  apply Array.ext_getElem?
  intro i
  rw [getElem?_overwrite, overlay, Array.getElem?_mapIdx]

theorem mapIdx_of_same {xs : Array α} {g : Nat → α → α} (h : ∀ i x, g i x = x) :
    xs.mapIdx g = xs := by
  ext i <;> simp [h]

/-- A change of one entry as a change of all of which only one counts. -/
theorem modify_eq_mapIdx {xs : Array α} {addr : Nat} {f : α → α} {g : Nat → α → α}
    (hhere : ∀ x, g addr x = f x) (hthere : ∀ i x, i ≠ addr → g i x = x) :
    xs.modify addr f = xs.mapIdx g := by
  apply Array.ext_getElem?
  intro i
  rw [Array.getElem?_modify, Array.getElem?_mapIdx]
  by_cases hi : addr = i
  · rw [if_pos hi, ← hi, funext hhere]
  · rw [if_neg hi, funext fun x => hthere i x (Ne.symm hi)]
    simp

end Overlay

/-! ## Segments that overlap

Writing segments one after the other leaves at each place the last entry that reaches it. The closed
form has no order of writing in it except that.
-/

namespace SegmentWrite

/-- What a segment puts into a slot of a table. -/
def slot? (addr i : Nat) : SegmentWrite → Option (Option Nat)
  | .table addr' offset funcs => if addr' = addr then entryFrom offset (funcs.map some) i else none
  | .memory _ _ _ => none

/-- What a segment puts into a byte of a memory. -/
def byte? (addr i : Nat) : SegmentWrite → Option UInt8
  | .table _ _ _ => none
  | .memory addr' offset bytes => if addr' = addr then entryFrom offset bytes i else none

end SegmentWrite

/-- What the last of the segments that put something somewhere puts there. -/
def lastOf {α : Type} (put : SegmentWrite → Option α) (ws : List SegmentWrite) : Option α :=
  ws.reverse.findSome? put

/-- Of several writes to a place the last one is seen. -/
theorem lastOf_cons {α : Type} (put : SegmentWrite → Option α) (w : SegmentWrite)
    (ws : List SegmentWrite) : lastOf put (w :: ws) = (lastOf put ws).or (put w) := by
  simp [lastOf, List.findSome?_append]

/-- The table at an address with segments over it. -/
def Table.withSegments (ws : List SegmentWrite) (addr : Nat) (t : Table) : Table :=
  { t with slots := overlay (fun i => lastOf (·.slot? addr i) ws) t.slots }

/-- The memory at an address with segments over it. -/
def Memory.withSegments (ws : List SegmentWrite) (addr : Nat) (memory : Memory) : Memory :=
  { memory with bytes := overlay (fun i => lastOf (·.byte? addr i) ws) memory.bytes }

/-- The store with segments over its tables and memories. -/
def Store.withSegments (ws : List SegmentWrite) (s : Store) : Store :=
  { s with
    tables := s.tables.mapIdx (Table.withSegments ws)
    memories := s.memories.mapIdx (Memory.withSegments ws) }

theorem Table.withSegments_nil (addr : Nat) (t : Table) : t.withSegments [] addr = t := by
  show { t with slots := overlay (fun _ => none) t.slots } = t
  rw [overlay_none]

theorem Memory.withSegments_nil (addr : Nat) (memory : Memory) :
    memory.withSegments [] addr = memory := by
  show { memory with bytes := overlay (fun _ => none) memory.bytes } = memory
  rw [overlay_none]

/-- A first segment is written, and the others over it. -/
theorem Table.withSegments_cons (w : SegmentWrite) (ws : List SegmentWrite) :
    Table.withSegments (w :: ws) = fun addr t =>
      Table.withSegments ws addr { t with slots := overlay (w.slot? addr ·) t.slots } := by
  funext addr t
  simp only [withSegments, overlay_overlay, lastOf_cons]

theorem Memory.withSegments_cons (w : SegmentWrite) (ws : List SegmentWrite) :
    Memory.withSegments (w :: ws) = fun addr memory =>
      Memory.withSegments ws addr
        { memory with bytes := overlay (w.byte? addr ·) memory.bytes } := by
  funext addr memory
  simp only [withSegments, overlay_overlay, lastOf_cons]

namespace SegmentWrite

/-- One segment lies over the table or memory that it is written to, and over nothing else. -/
theorem apply_eq (w : SegmentWrite) (s : Store) :
    w.apply s = { s with
      tables := s.tables.mapIdx fun addr t =>
        { t with slots := overlay (w.slot? addr ·) t.slots }
      memories := s.memories.mapIdx fun addr memory =>
        { memory with bytes := overlay (w.byte? addr ·) memory.bytes } } := by
  -- a segment for a table changes no memory, and one for a memory no table
  cases w with
  | table addr offset funcs =>
      have htables : s.tables.modify addr (·.write offset funcs) =
          s.tables.mapIdx fun addr' t => { t with
            slots := overlay ((SegmentWrite.table addr offset funcs).slot? addr' ·) t.slots } := by
        refine modify_eq_mapIdx (fun t => ?_) fun addr' t hne => ?_
        · simp only [slot?, if_pos, Table.write, overwrite_eq_overlay]
        · simp only [slot?, if_neg (Ne.symm hne), overlay_none]
      have hmemories : s.memories.mapIdx (fun addr' memory => { memory with
          bytes := overlay ((SegmentWrite.table addr offset funcs).byte? addr' ·) memory.bytes }) =
            s.memories :=
        mapIdx_of_same fun _ memory => by simp only [byte?, overlay_none]
      rw [hmemories, ← htables]
      rfl
  | memory addr offset bytes =>
      have hmemories : s.memories.modify addr (·.write offset bytes) =
          s.memories.mapIdx fun addr' memory => { memory with
            bytes := overlay ((SegmentWrite.memory addr offset bytes).byte? addr' ·)
              memory.bytes } := by
        refine modify_eq_mapIdx (fun memory => ?_) fun addr' memory hne => ?_
        · simp only [byte?, if_pos, Memory.write, overwrite_eq_overlay]
        · simp only [byte?, if_neg (Ne.symm hne), overlay_none]
      have htables : s.tables.mapIdx (fun addr' t => { t with
          slots := overlay ((SegmentWrite.memory addr offset bytes).slot? addr' ·) t.slots }) =
            s.tables :=
        mapIdx_of_same fun _ t => by simp only [slot?, overlay_none]
      rw [htables, ← hmemories]
      rfl

/-- Writing segments one after the other leaves what the last of them puts where they overlap. -/
theorem applyAll_eq (ws : List SegmentWrite) (s : Store) : applyAll ws s = s.withSegments ws := by
  induction ws generalizing s with
  | nil =>
      rw [Store.withSegments, mapIdx_of_same Table.withSegments_nil,
        mapIdx_of_same Memory.withSegments_nil]
      rfl
  | cons w ws ih =>
      show applyAll ws (w.apply s) = _
      rw [ih, apply_eq]
      simp only [Store.withSegments, Array.mapIdx_mapIdx, Function.comp_def,
        Table.withSegments_cons, Memory.withSegments_cons]

end SegmentWrite

/-! ## The instance of a module

Indices come first from imports, then from new instances; names come from exports, each of which has
one meaning.
-/

/-- What the instance of a module is like that has been linked to `imports` in the store `s`. Its
indices of each kind stand for the imports of that kind, in order, and then for the next free
addresses, one for each entry of the module. Its exports are what these indices stand for, and under
a name is the one export of this name. -/
structure Module.Binds (m : Module) (s : Store) (imports : List ExternVal) (inst : ModuleInstance) :
    Prop where
  types : inst.types = m.types.toArray
  funcs : inst.funcs.toList =
    imports.filterMap ExternVal.func? ++ List.range' s.funcs.size m.funcs.length
  tables : inst.tables.toList =
    imports.filterMap ExternVal.table? ++ List.range' s.tables.size m.tables.length
  memories : inst.memories.toList =
    imports.filterMap ExternVal.memory? ++ List.range' s.memories.size m.memories.length
  globals : inst.globals.toList =
    imports.filterMap ExternVal.global? ++ List.range' s.globals.size m.globals.length
  exports : inst.Offers m.exports inst.exports
  export_iff : ∀ name v, inst.export? name = some v ↔
    ∃ e ∈ m.exports, e.name = name ∧ inst.resolve e.desc = .ok v ∧
      ∀ e' ∈ m.exports, e'.name = name → e' = e

theorem Module.filterMap_global?_addresses {a : Additions} {s : Store} :
    (a.addresses s).filterMap ExternVal.global? = List.range' s.globals.size a.globals.length := by
  simp [Additions.addresses, List.filterMap_append, List.filterMap_map, Function.comp_def,
    ExternVal.global?]

/-- Exports with different names are found by their names. -/
theorem ModuleInstance.Offers.export?_eq_some_iff {inst : ModuleInstance} {exports : List Export}
    (h : inst.Offers exports inst.exports) (hnodup : (exports.map Export.name).Nodup)
    (name : String) (v : ExternVal) :
    inst.export? name = some v ↔ ∃ e ∈ exports, e.name = name ∧ inst.resolve e.desc = .ok v ∧
      ∀ e' ∈ exports, e'.name = name → e' = e := by
  -- names of exports are different, so the first one found is the only one
  have hunique : ∀ e ∈ exports, ∀ e' ∈ exports, e'.name = e.name → e' = e :=
    fun e he e' he' hname => List.inj_on_of_nodup_map hnodup he' he hname
  unfold export?
  constructor
  · intro hfound
    obtain ⟨r, hr, rfl⟩ := Option.map_eq_some_iff.mp hfound
    obtain ⟨e, he, hname, hresolve⟩ := exists_of_mem_right h (List.mem_of_find?_eq_some hr)
    have hsame : r.1 = name := by simpa using List.find?_some hr
    have hename : e.name = name := hname.symm.trans hsame
    refine ⟨e, he, hename, hresolve, fun e' he' hname' => ?_⟩
    exact hunique e he e' he' (hname'.trans hename.symm)
  · rintro ⟨e, he, rfl, hresolve, honly⟩
    obtain ⟨r, hr, hname, _⟩ := exists_of_mem_right h.flip he
    cases hfound : inst.exports.find? fun r => r.1 = e.name with
    | none =>
        have hno := List.find?_eq_none.mp hfound r hr
        simp [hname] at hno
    | some r' =>
        obtain ⟨e', he', hname', hresolve'⟩ :=
          exists_of_mem_right h (List.mem_of_find?_eq_some hfound)
        have hsame : r'.1 = e.name := by simpa using List.find?_some hfound
        obtain rfl := honly e' he' (hname'.symm.trans hsame)
        rw [hresolve] at hresolve'
        rw [Option.map_some, Except.ok.inj hresolve']

section

variable {m : Module} {s : Store} {imports : List ExternVal} {stack : Stack Value}

/-- The instance holds what it imports and then what it adds, and offers what the module exports. -/
theorem Module.Makes.binds {sig : Signature} {funcTypes : List FuncType} {a : Additions}
    {exports : List (String × ExternVal)} (ha : m.Makes s imports a) (hm : m.Valid sig funcTypes)
    (hexports : (m.instanceWith s imports a []).Offers m.exports exports) :
    m.Binds s imports (m.instanceWith s imports a exports) := by
  -- what an index stands for does not depend on the exports
  have hoffers : (m.instanceWith s imports a exports).Offers m.exports exports := by
    refine hexports.imp fun e r hr => ⟨hr.1, ?_⟩
    rw [← hr.2]
    cases e.desc <;> rfl
  refine ⟨rfl, ?_, ?_, ?_, ?_, hoffers, hoffers.export?_eq_some_iff hm.exportNames⟩
  · show (imports ++ a.addresses s).filterMap ExternVal.func? = _
    rw [List.filterMap_append, filterMap_func?_addresses, ha.funcs.length_eq]
  · show (imports ++ a.addresses s).filterMap ExternVal.table? = _
    rw [List.filterMap_append, filterMap_table?_addresses, ha.tables.length_eq]
  · show (imports ++ a.addresses s).filterMap ExternVal.memory? = _
    rw [List.filterMap_append, filterMap_memory?_addresses, ha.memories.length_eq]
  · show (imports ++ a.addresses s).filterMap ExternVal.global? = _
    rw [List.filterMap_append, filterMap_global?_addresses, ha.globals.length_eq]

/-! ## The store afterwards

The closed form put together, and what it means for a start function: it runs in this store.
-/

/-- What there is after linking up to the start function. -/
theorem Exec.link_eq_ok {addr : Nat} {inst : ModuleInstance} {mach : Machine}
    (h : Exec.link m imports ⟨s, stack⟩ = .ok (addr, inst) mach) :
    ∃ a ws, addr = s.modules.size ∧ m.Makes s imports a ∧ m.Binds s imports inst ∧
      m.Writes s imports inst ws ∧ mach = ⟨(s.plus a inst).withSegments ws, stack⟩ := by
  -- of the stages of linking only the last leaves a result; the others have failed before
  cases hvalid : m.validate with
  | error e =>
      rw [link_of_invalid hvalid] at h
      cases h
  | ok sig =>
      cases hfault : s.importsFault imports sig.imports with
      | some e =>
          rw [link_of_valid hvalid, hfault] at h
          cases h
      | none =>
          by_cases hinit : m.Initialized s imports
          · obtain ⟨a, exports, ha, hexports, houtcome⟩ :=
              link_of_initialized hvalid hfault hinit stack
            cases hsegment : m.segmentsFault s imports with
            | some e =>
                rw [hsegment] at houtcome
                rw [houtcome] at h
                cases h
            | none =>
                rw [hsegment] at houtcome
                obtain ⟨ws, hwrites, _, hok, _⟩ := houtcome
                rw [hok] at h
                cases h
                obtain ⟨funcTypes, hm⟩ := Module.valid_of_validate hvalid
                refine ⟨a, ws, rfl, ha, ha.binds hm hexports, hwrites, ?_⟩
                rw [SegmentWrite.applyAll_eq]
                rfl
          · obtain ⟨e, _, herror⟩ := link_of_not_initialized hvalid hfault hinit stack
            rw [herror] at h
            cases h

/-- The exact effect of instantiation. Whatever the store `s` is, if a module without a start
function is instantiated in it, the result is the number of modules there were, and the machine is
the old one but for this: behind the instances of `s` stand one for each function, table, memory and
global of the module, and its instance; over that lie its segments, the last one on top. -/
theorem Run.instantiate_effect {fuel addr : Nat} {mach : Machine} (hstart : m.start = none)
    (h : Run.instantiate fuel m imports ⟨s, stack⟩ = some (.ok addr mach)) :
    ∃ a inst ws, addr = s.modules.size ∧ m.Makes s imports a ∧ m.Binds s imports inst ∧
      m.Writes s imports inst ws ∧ mach = ⟨(s.plus a inst).withSegments ws, stack⟩ := by
  cases hlink : Exec.link m imports ⟨s, stack⟩ with
  | error e mach' =>
      rw [instantiate_of_error hlink] at h
      cases h
  | ok linked mach' =>
      obtain ⟨addr', inst⟩ := linked
      rw [instantiate_of_no_start hlink hstart] at h
      cases h
      obtain ⟨a, ws, hend⟩ := Exec.link_eq_ok hlink
      exact ⟨a, inst, ws, hend⟩

end

/-- A module with a table of its own, in which two segments overlap, the second one from an imported
offset on. Its data segment lies in a memory that it imports. -/
def overlapping : Module where
  types := [⟨[], []⟩]
  imports := [⟨"env", "run", .func 0⟩, ⟨"env", "bytes", .memory ⟨⟨0, none⟩⟩⟩,
    ⟨"env", "offset", .global ⟨.i32, false⟩⟩]
  funcs := [⟨0, [], []⟩]
  tables := [⟨⟨3, some 5⟩⟩]
  globals := [⟨⟨.i32, false⟩, [.plain (.globalGet 0)]⟩]
  exports := [⟨"own", .func 1⟩, ⟨"imported", .func 0⟩, ⟨"slots", .table 0⟩]
  elements := [⟨0, [.plain (.const (.i32 0))], [1, 1]⟩, ⟨0, [.plain (.globalGet 0)], [0]⟩]
  data := [⟨0, [.plain (.const (.i32 2))], [7, 8]⟩]

/-- A store with a host function, a memory of four bytes and a global. -/
def fourBytes : Store where
  funcs := #[.host ⟨[], []⟩ fun _ _ => .ok []]
  memories := #[⟨#[1, 2, 3, 4], none⟩]
  globals := #[⟨⟨.i32, false⟩, .i32 1⟩]

/-- The store with the module in it. In the slot where its segments overlap is what the second one
puts there. -/
def fourBytesLinked : Store where
  funcs := #[.host ⟨[], []⟩ fun _ _ => .ok [], .defined ⟨[], []⟩ 0 (Code.compile [] [])]
  tables := #[⟨#[some 1, some 0, none], some 5⟩]
  memories := #[⟨#[1, 2, 7, 8], none⟩]
  globals := #[⟨⟨.i32, false⟩, .i32 1⟩, ⟨⟨.i32, false⟩, .i32 1⟩]
  modules := #[⟨#[⟨[], []⟩], #[0, 1], #[0], #[0], #[0, 1],
    [("own", .func 1), ("imported", .func 0), ("slots", .table 0)]⟩]

/-- Slots and bytes come from segments where these reach, and otherwise from the new table and the
old memory. -/
theorem overlapping_effect :
    Run.instantiate 0 overlapping [.func 0, .memory 0, .global 0] ⟨fourBytes, .empty⟩ =
        some (.ok 0 ⟨fourBytesLinked, .empty⟩) ∧
      ∃ a inst ws, overlapping.Makes fourBytes [.func 0, .memory 0, .global 0] a ∧
        overlapping.Binds fourBytes [.func 0, .memory 0, .global 0] inst ∧
        overlapping.Writes fourBytes [.func 0, .memory 0, .global 0] inst ws ∧
        (⟨fourBytesLinked, .empty⟩ : Machine) =
          ⟨(fourBytes.plus a inst).withSegments ws, .empty⟩ := by
  have hrun : Run.instantiate 0 overlapping [.func 0, .memory 0, .global 0]
      ⟨fourBytes, .empty⟩ = some (.ok 0 ⟨fourBytesLinked, .empty⟩) := by
    cbv
  obtain ⟨a, inst, ws, _, heffect⟩ := Run.instantiate_effect rfl hrun
  exact ⟨hrun, a, inst, ws, heffect⟩

end WebAssembly
