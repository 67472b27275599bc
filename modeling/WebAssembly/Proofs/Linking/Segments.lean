import WebAssembly.Proofs.Linking.Typed

/-!
# Segments

Where the segments of a valid module go and when one of them does not fit. Placing the segments of a
module fails at the first one that reaches beyond its table or memory
(`Module.Makes.checks_placeElement`, `Module.Makes.checks_placeData`); where globals need not hold
values of their types, an offset may also turn out not to be a number of the right type. Segments
that have been placed can be written one after the other, since writing changes no sizes, and a well
typed store stays so.
-/

namespace WebAssembly

variable {m : Module} {sig : Signature} {funcTypes : List FuncType} {s : Store}
variable {imports : List ExternVal} {a : Additions}

/-! ## Sizes

What a segment is checked against. The size of an imported table or memory is what it is at the
moment, that of a new one is the size it declares.
-/

namespace Module

/-- The sizes of the tables behind the indices of a module when it is linked: those that are
imported as they are in the store, and its own ones as declared. -/
def tableSizes (m : Module) (s : Store) (imports : List ExternVal) : List Nat :=
  ((imports.filterMap ExternVal.table?).filterMap fun addr => s.tables[addr]?.map Table.size) ++
    m.tables.map fun t => t.limits.min.toNat

/-- The sizes in bytes of the memories behind the indices of a module when it is linked. -/
def memorySizes (m : Module) (s : Store) (imports : List ExternVal) : List Nat :=
  ((imports.filterMap ExternVal.memory?).filterMap fun addr => s.memories[addr]?.map Memory.size) ++
    m.memories.map fun t => t.limits.min.toNat * pageSize

end Module

/-- A segment of `count` entries from `offset` on does not fit into something of the given size. -/
def segmentFault (e : RuntimeError) (offset : Option Value) (size : Option Nat) (count : Nat) :
    Option RuntimeError := do
  let offset ← offset
  let size ← size
  if size < offset.toNat + count then some e else none

theorem segmentFault_some (e : RuntimeError) (v : Value) (size count : Nat) :
    segmentFault e (some v) (some size) count =
      if size < v.toNat + count then some e else none :=
  rfl

/-- A segment of `count` entries from `offset` on fits into something of the given size. -/
def SegmentFits (offset : Option Value) (size : Option Nat) (count : Nat) : Prop :=
  ∃ v n, offset = some v ∧ size = some n ∧ v.toNat + count ≤ n

/-- A segment fits if its end does, an empty one at the very end included. -/
theorem segmentFault_some_eq_none_iff {e : RuntimeError} {v : Value} {n count : Nat} :
    segmentFault e (some v) (some n) count = none ↔ SegmentFits (some v) (some n) count := by
  rw [segmentFault_some]
  constructor
  · intro h
    split at h
    · cases h
    · next hle => exact ⟨v, n, rfl, rfl, Nat.le_of_not_lt hle⟩
  · rintro ⟨v', n', hv, hn, hle⟩
    cases hv
    cases hn
    exact if_neg (Nat.not_lt.mpr hle)

namespace Module

/-- The fault of an element segment of a module that is linked. -/
def elementFault (m : Module) (s : Store) (imports : List ExternVal) (e : ElementSegment) :
    Option RuntimeError :=
  segmentFault .tableInitOutOfBounds (s.constantValue imports e.offset)
    (m.tableSizes s imports)[e.table.toNat]? e.funcs.length

/-- The fault of a data segment of a module that is linked. -/
def dataFault (m : Module) (s : Store) (imports : List ExternVal) (d : DataSegment) :
    Option RuntimeError :=
  segmentFault .memoryInitOutOfBounds (s.constantValue imports d.offset)
    (m.memorySizes s imports)[d.memory.toNat]? d.bytes.length

end Module

/-- Sizes of what is behind addresses: of what was there, and of what is new. -/
theorem forall₂_sizes {α : Type} {size : α → Nat} {old : List Nat} {xs : Array α} {ys : List α}
    {sizes : List Nat} (hold : ∀ addr ∈ old, ∃ x, xs[addr]? = some x)
    (hnew : List.Forall₂ (fun y n => size y = n) ys sizes) :
    List.Forall₂ (fun addr n => ∃ x, (xs ++ ys)[addr]? = some x ∧ size x = n)
      (old ++ List.range' xs.size ys.length)
      (old.filterMap (fun addr => xs[addr]?.map size) ++ sizes) := by
  refine List.rel_append ?_ (forall₂_fresh xs hnew)
  -- an old address is found in front of the new entries, whatever these are
  clear hnew
  induction old with
  | nil => exact .nil
  | cons addr old ih =>
      obtain ⟨⟨x, hx⟩, hold⟩ := List.forall_mem_cons.mp hold
      have hsize : xs[addr]?.map size = some (size x) := by
        rw [hx, Option.map_some]
      rw [List.filterMap_cons, hsize]
      exact .cons ⟨x, getElem?_appendList_left hx ys, rfl⟩ (ih hold)

/-- Behind an index is something of the size that is listed for it. -/
theorem exists_of_forall₂_sizes {α : Type} {size : α → Nat} {xs : Array α} {addrs sizes : List Nat}
    (h : List.Forall₂ (fun addr n => ∃ x, xs[addr]? = some x ∧ size x = n) addrs sizes)
    (space : Space) {i : UInt32} (hi : i.toNat < addrs.length) :
    ∃ addr x, atIndex addrs.toArray space i = .ok addr ∧ xs[addr]? = some x ∧
      sizes[i.toNat]? = some (size x) := by
  rw [h.length_eq] at hi
  have hn : sizes[i.toNat]? = some sizes[i.toNat] := List.getElem?_eq_getElem hi
  obtain ⟨addr, haddr, x, hx, hsize⟩ :=
    (matches_toArray_of_forall₂ h).exists_atIndex space (List.getElem?_toArray.trans hn)
  refine ⟨addr, x, haddr, hx, ?_⟩
  rw [hn, hsize]

namespace Module

theorem filterMap_table?_addresses :
    (a.addresses s).filterMap ExternVal.table? = List.range' s.tables.size a.tables.length := by
  simp [Additions.addresses, List.filterMap_append, List.filterMap_map, Function.comp_def,
    ExternVal.table?]

theorem filterMap_memory?_addresses :
    (a.addresses s).filterMap ExternVal.memory? =
      List.range' s.memories.size a.memories.length := by
  simp [Additions.addresses, List.filterMap_append, List.filterMap_map, Function.comp_def,
    ExternVal.memory?]

section

variable (h : m.Makes s imports a) (hm : m.Valid sig funcTypes)
variable (himports : List.Forall₂ s.Has imports sig.imports)
variable (exports : List (String × ExternVal))

include h hm himports

/-- Behind an index of the module's tables is a table of the size that is listed. -/
theorem Makes.exists_table {i : UInt32}
    (hi : i.toNat < (m.context sig.imports funcTypes).tables.size) :
    ∃ addr t, (m.instanceWith s imports a exports).table i = .ok addr ∧
      (m.storeWith s imports a exports).tables[addr]? = some t ∧
      (m.tableSizes s imports)[i.toNat]? = some t.size := by
  -- an imported table has the size it has now, a new one the size it declares
  have hold : ∀ addr ∈ imports.filterMap ExternVal.table?, ∃ t, s.tables[addr]? = some t := by
    intro addr haddr
    have htables := (Store.forall₂_kinds (fun _ _ => id) himports).2.1
    obtain ⟨_, _, t, ht⟩ := exists_of_mem_right htables.flip haddr
    exact ⟨t, ht⟩
  have hnew : List.Forall₂ (fun t n => Table.size t = n) a.tables
      (m.tables.map fun t => t.limits.min.toNat) := by
    refine List.forall₂_map_right_iff.mpr (List.Forall₂.imp ?_ (.flip h.tables_ofType))
    rintro _ t rfl
    exact Array.size_replicate
  have hsizes := forall₂_sizes hold hnew
  rw [← filterMap_table?_addresses, ← List.filterMap_append] at hsizes
  rw [← (h.fits hm himports exports exports).tables.size] at hi
  exact exists_of_forall₂_sizes hsizes .table hi

/-- Behind an index of the module's memories is a memory of the size that is listed. -/
theorem Makes.exists_memory {i : UInt32}
    (hi : i.toNat < (m.context sig.imports funcTypes).memories.size) :
    ∃ addr memory, (m.instanceWith s imports a exports).memory i = .ok addr ∧
      (m.storeWith s imports a exports).memories[addr]? = some memory ∧
      (m.memorySizes s imports)[i.toNat]? = some memory.size := by
  have hold : ∀ addr ∈ imports.filterMap ExternVal.memory?,
      ∃ memory, s.memories[addr]? = some memory := by
    intro addr haddr
    obtain ⟨_, _, memory, hmemory⟩ :=
      exists_of_mem_right (.flip (Store.forall₂_kinds (fun _ _ => id) himports).2.2.1) haddr
    exact ⟨memory, hmemory⟩
  have hnew : List.Forall₂ (fun memory n => Memory.size memory = n) a.memories
      (m.memories.map fun t => t.limits.min.toNat * pageSize) := by
    refine List.forall₂_map_right_iff.mpr (List.Forall₂.imp ?_ (.flip h.memories_ofType))
    intro memory t ht
    exact (Memory.eq_of_ofType ht).1
  have hsizes := forall₂_sizes hold hnew
  rw [← filterMap_memory?_addresses, ← List.filterMap_append] at hsizes
  rw [← (h.fits hm himports exports exports).memories.size] at hi
  exact exists_of_forall₂_sizes hsizes .memory hi

/-- Functions behind indices exist. -/
theorem Makes.exists_funcs {funcs : List UInt32}
    (hfuncs : ∀ f ∈ funcs, f.toNat < (m.context sig.imports funcTypes).funcs.size) :
    ∃ addrs, List.Forall₂ (fun f addr => (m.instanceWith s imports a exports).func f = .ok addr ∧
      addr < (m.storeWith s imports a exports).funcs.size) funcs addrs := by
  refine exists_forall₂ fun f hf => ?_
  have ht := Array.getElem?_eq_getElem (hfuncs f hf)
  obtain ⟨addr, haddr, inst, hinst, _⟩ :=
    (h.fits hm himports exports exports).funcs.exists_atIndex .func ht
  exact ⟨addr, haddr, (Array.getElem?_eq_some_iff.mp hinst).1⟩

end

/-! ## Placing

Finding where a segment goes writes nothing. It gives the first fault, or for each segment a write
that is ready.
-/

/-- Constant expressions keep their value when instances are added. -/
theorem constantValue_storeWith {e : Expr} {v : Value} (h : s.constantValue imports e = some v)
    (exports : List (String × ExternVal)) :
    (m.storeWith s imports a exports).constantValue (imports ++ a.addresses s) e = some v := by
  unfold Store.constantValue at h
  split at h
  · exact h
  · next i =>
      obtain ⟨addr, haddr, h⟩ := Option.bind_eq_some_iff.mp h
      obtain ⟨g, hg, h⟩ := Option.bind_eq_some_iff.mp h
      cases h
      have hindex :
          ((imports ++ a.addresses s).filterMap ExternVal.global?)[i.toNat]? = some addr := by
        obtain ⟨hi, _⟩ := List.getElem?_eq_some_iff.mp haddr
        rw [List.filterMap_append, List.getElem?_append_left hi, haddr]
      have hglobal : (m.storeWith s imports a exports).globals[addr]? = some g :=
        getElem?_appendList_left hg _
      simp only [Store.constantValue, hindex, hglobal, Option.bind_eq_bind, Option.bind_some,
        Option.pure_def]
  · cases h

end Module

/-- A segment that can be written: it lies inside, and its functions exist. -/
def SegmentWrite.Ready (s : Store) : SegmentWrite → Prop
  | .table addr offset funcs =>
    ∃ t, s.tables[addr]? = some t ∧ offset + funcs.length ≤ t.size ∧ ∀ f ∈ funcs, f < s.funcs.size
  | .memory addr offset bytes =>
    ∃ memory, s.memories[addr]? = some memory ∧ offset + bytes.length ≤ memory.size

theorem Value.exists_i32 {v : Value} (h : v.type = .i32) : ∃ b, v = .i32 b := by
  cases v with
  | i32 b => exact ⟨b, rfl⟩
  | _ => cases h

/-- What an element segment writes when a module is linked to `imports` in `s` and becomes `inst`:
the functions behind its indices, from its offset on, read as unsigned, into the table behind its
index. -/
def ElementSegment.Writes (e : ElementSegment) (s : Store) (imports : List ExternVal)
    (inst : ModuleInstance) (w : SegmentWrite) : Prop :=
  ∃ addr offset funcs, inst.table e.table = .ok addr ∧
    s.constantValue imports e.offset = some (.i32 offset) ∧
    List.Forall₂ (fun f addr => inst.func f = .ok addr) e.funcs funcs ∧
    w = .table addr offset.toNat funcs

/-- What a data segment writes: its bytes, from its offset on, into the memory behind its index. -/
def DataSegment.Writes (d : DataSegment) (s : Store) (imports : List ExternVal)
    (inst : ModuleInstance) (w : SegmentWrite) : Prop :=
  ∃ addr offset, inst.memory d.memory = .ok addr ∧
    s.constantValue imports d.offset = some (.i32 offset) ∧ w = .memory addr offset.toNat d.bytes

/-- What the segments of a module write, in order. -/
def Module.Writes (m : Module) (s : Store) (imports : List ExternVal) (inst : ModuleInstance)
    (ws : List SegmentWrite) : Prop :=
  ∃ elements data, ws = elements ++ data ∧
    List.Forall₂ (fun (e : ElementSegment) w => e.Writes s imports inst w) m.elements elements ∧
    List.Forall₂ (fun (d : DataSegment) w => d.Writes s imports inst w) m.data data

namespace Module

variable (h : m.Makes s imports a) (hm : m.Valid sig funcTypes)
variable (himports : List.Forall₂ s.Has imports sig.imports)
variable (exports : List (String × ExternVal)) (stack : Stack Value)

include hm himports

/-- An offset has a value, and the only thing wrong with it can be its type. -/
theorem exists_offset {e : Expr} (he : e.IsConstant m.importedGlobals .i32) :
    ∃ v, s.constantValue imports e = some v ∧
      Exec.offset (m.instanceWith s imports a exports) e ⟨m.storeWith s imports a exports, stack⟩ =
        if v.type = .i32 then .ok v.toNat ⟨m.storeWith s imports a exports, stack⟩
        else .error (.typeMismatch .i32 v.type) ⟨m.storeWith s imports a exports, stack⟩ := by
  obtain ⟨v, hv, _⟩ := exists_constantValue hm himports he
  refine ⟨v, hv, ?_⟩
  have hconstant : Exec.isolated (Exec.constant (m.instanceWith s imports a exports) e .i32)
      ⟨m.storeWith s imports a exports, stack⟩ =
        if v.type = .i32 then .ok v ⟨m.storeWith s imports a exports, stack⟩
        else .error (.typeMismatch .i32 v.type) ⟨m.storeWith s imports a exports, stack⟩ :=
    Exec.constant_outcome rfl (constantValue_storeWith hv exports) .i32
  by_cases htype : v.type = .i32
  · rw [if_pos htype] at hconstant ⊢
    exact bind_of_ok hconstant
  · rw [if_neg htype] at hconstant ⊢
    exact bind_of_error hconstant

/-- In a store whose globals hold values of their types every offset is a number. -/
theorem constantFault_offset (hs : s.GlobalsTyped) {e : Expr}
    (he : e.IsConstant m.importedGlobals .i32) :
    constantFault .i32 (s.constantValue imports e) = none := by
  obtain ⟨v, hv, hvtype⟩ := exists_constantValue hm himports he
  rw [hv]
  exact if_pos (hvtype hs)

include h

/-- No fault is found with an element segment exactly if it fits its table. -/
theorem Makes.elementFault_eq_none_iff {e : ElementSegment} (he : e ∈ m.elements) :
    m.elementFault s imports e = none ↔ SegmentFits (s.constantValue imports e.offset)
      (m.tableSizes s imports)[e.table.toNat]? e.funcs.length := by
  obtain ⟨htable, hoffset, _⟩ := hm.elements e he
  obtain ⟨v, hv, _⟩ := exists_constantValue hm himports hoffset
  obtain ⟨_, t, _, _, hsize⟩ := h.exists_table hm himports [] htable
  rw [elementFault, hv, hsize]
  exact segmentFault_some_eq_none_iff

theorem Makes.dataFault_eq_none_iff {d : DataSegment} (hd : d ∈ m.data) :
    m.dataFault s imports d = none ↔ SegmentFits (s.constantValue imports d.offset)
      (m.memorySizes s imports)[d.memory.toNat]? d.bytes.length := by
  obtain ⟨hmemory, hoffset⟩ := hm.data d hd
  obtain ⟨v, hv, _⟩ := exists_constantValue hm himports hoffset
  obtain ⟨_, memory, _, _, hsize⟩ := h.exists_memory hm himports [] hmemory
  rw [dataFault, hv, hsize]
  exact segmentFault_some_eq_none_iff

/-- Placing an element segment fails only if its offset is no number or the segment does not fit. -/
theorem Makes.checks_placeElement {e : ElementSegment} (he : e ∈ m.elements) :
    Checks ((constantFault .i32 (s.constantValue imports e.offset)).or (m.elementFault s imports e))
      (fun w => e.Writes s imports (m.instanceWith s imports a exports) w ∧
        w.Ready (m.storeWith s imports a exports)) ⟨m.storeWith s imports a exports, stack⟩
      (Exec.placeElement (m.instanceWith s imports a exports) e
        ⟨m.storeWith s imports a exports, stack⟩) := by
  obtain ⟨htable, hoffset, hfuncs⟩ := hm.elements e he
  obtain ⟨v, hv, hstart⟩ := exists_offset hm himports exports stack hoffset
  obtain ⟨addr, t, haddr, ht, hsize⟩ := h.exists_table hm himports exports htable
  obtain ⟨addrs, haddrs⟩ := h.exists_funcs hm himports exports hfuncs
  unfold elementFault Exec.placeElement
  rw [hv, hsize, segmentFault_some, constantFault]
  -- the offset is asked for first, then the table, then whether the functions fit
  by_cases htype : v.type = .i32
  · rw [if_pos htype] at hstart ⊢
    rw [Option.none_or, bind_of_ok hstart, bind_of_ok (Exec.ofExcept_of_ok haddr _),
      bind_of_ok (Exec.ask_of_ok (atAddress_eq_ok_iff.mpr ht))]
    by_cases hfit : t.size < v.toNat + e.funcs.length
    · rw [if_pos hfit, if_pos hfit]
      rfl
    · rw [if_neg hfit, if_neg hfit]
      have hmap : (e.funcs.mapM fun f =>
          Exec.ofExcept ((m.instanceWith s imports a exports).func f))
          ⟨m.storeWith s imports a exports, stack⟩ =
            .ok addrs ⟨m.storeWith s imports a exports, stack⟩ :=
        mapM_of_ok (haddrs.imp fun f addr hf => Exec.ofExcept_of_ok hf.1 _)
      obtain ⟨offset, rfl⟩ := Value.exists_i32 htype
      have hwrites : e.Writes s imports (m.instanceWith s imports a exports)
          (.table addr offset.toNat addrs) :=
        ⟨addr, offset, addrs, haddr, hv, haddrs.imp fun _ _ hf => hf.1, rfl⟩
      refine ⟨.table addr offset.toNat addrs, ⟨hwrites, t, ht, ?_, ?_⟩, bind_of_ok hmap⟩
      · rw [← haddrs.length_eq]
        exact Nat.le_of_not_lt hfit
      · intro f hf
        obtain ⟨_, _, _, hlt⟩ := exists_of_mem_right haddrs hf
        exact hlt
  · rw [if_neg htype] at hstart ⊢
    exact bind_of_error hstart

/-- Placing a data segment fails only if its offset is no number or the segment does not fit. -/
theorem Makes.checks_placeData {d : DataSegment} (hd : d ∈ m.data) :
    Checks ((constantFault .i32 (s.constantValue imports d.offset)).or (m.dataFault s imports d))
      (fun w => d.Writes s imports (m.instanceWith s imports a exports) w ∧
        w.Ready (m.storeWith s imports a exports)) ⟨m.storeWith s imports a exports, stack⟩
      (Exec.placeData (m.instanceWith s imports a exports) d
        ⟨m.storeWith s imports a exports, stack⟩) := by
  obtain ⟨hmemory, hoffset⟩ := hm.data d hd
  obtain ⟨v, hv, hstart⟩ := exists_offset hm himports exports stack hoffset
  obtain ⟨addr, memory, haddr, ht, hsize⟩ := h.exists_memory hm himports exports hmemory
  unfold dataFault Exec.placeData
  rw [hv, hsize, segmentFault_some, constantFault]
  by_cases htype : v.type = .i32
  · rw [if_pos htype] at hstart ⊢
    rw [Option.none_or, bind_of_ok hstart, bind_of_ok (Exec.ofExcept_of_ok haddr _),
      bind_of_ok (Exec.ask_of_ok (atAddress_eq_ok_iff.mpr ht))]
    by_cases hfit : memory.size < v.toNat + d.bytes.length
    · rw [if_pos hfit, if_pos hfit]
      rfl
    · rw [if_neg hfit, if_neg hfit]
      obtain ⟨offset, rfl⟩ := Value.exists_i32 htype
      exact ⟨.memory addr offset.toNat d.bytes,
        ⟨⟨addr, offset, haddr, hv, rfl⟩, memory, ht, Nat.le_of_not_lt hfit⟩, rfl⟩
  · rw [if_neg htype] at hstart ⊢
    exact bind_of_error hstart

end Module

/-! ## Writing

A write that is ready stays so while others are made, since none of them changes a size.
-/

/-- An entry of an array after some have been overwritten is an old or a new one. -/
theorem mem_of_getElem?_overwrite {α : Type} {xs : Array α} {start i : Nat} {ys : List α} {y : α}
    (h : (overwrite xs start ys)[i]? = some y) : xs[i]? = some y ∨ y ∈ ys := by
  induction ys generalizing xs start with
  | nil => exact Or.inl h
  | cons z ys ih =>
      rcases ih h with h | h
      · rw [Array.getElem?_setIfInBounds] at h
        split at h
        · split at h
          · cases h
            exact Or.inr List.mem_cons_self
          · cases h
        · exact Or.inl h
      · exact Or.inr (List.mem_cons_of_mem z h)

/-- Writing functions of the store into a table leaves the table within it. -/
theorem Table.Within.write {t : Table} (h : t.Within s) {funcs : List Nat}
    (hfuncs : ∀ f ∈ funcs, f < s.funcs.size) (start : Nat) : (t.write start funcs).Within s := by
  intro i f hslot
  rcases mem_of_getElem?_overwrite hslot with hold | hnew
  · exact h i f hold
  · obtain ⟨f', hf', heq⟩ := List.mem_map.mp hnew
    cases heq
    exact hfuncs f hf'

namespace SegmentWrite

/-- The store after a segment has been written. -/
def apply : SegmentWrite → Store → Store
  | .table addr offset funcs, s => s.modifyTable addr (·.write offset funcs)
  | .memory addr offset bytes, s => s.modifyMemory addr (·.write offset bytes)

theorem extends_apply (w : SegmentWrite) (s : Store) : s.Extends (w.apply s) := by
  cases w with
  | table addr offset funcs =>
      exact Store.extends_modifyTable fun t _ => t.evolves_write offset funcs
  | memory addr offset bytes =>
      exact (Store.keeps_modifyMemory fun memory _ => memory.evolves_write offset bytes).extends

/-- A segment that has been placed can be written for as long as the store lives. -/
theorem Ready.extends {w : SegmentWrite} {s s' : Store} (h : w.Ready s) (hs : s.Extends s') :
    w.Ready s' := by
  cases w with
  | table addr offset funcs =>
      obtain ⟨t, ht, hsize, hfuncs⟩ := h
      obtain ⟨t', ht', hevolves⟩ := hs.tables addr t ht
      refine ⟨t', ht', Nat.le_trans hsize hevolves.size, fun f hf => ?_⟩
      obtain ⟨_, hfunc, _⟩ := hs.funcs f _ (Array.getElem?_eq_getElem (hfuncs f hf))
      exact (Array.getElem?_eq_some_iff.mp hfunc).1
  | memory addr offset bytes =>
      obtain ⟨memory, hmemory, hsize⟩ := h
      obtain ⟨memory', hmemory', hevolves⟩ := hs.memories addr memory hmemory
      exact ⟨memory', hmemory', Nat.le_trans hsize hevolves.size⟩

theorem Ready.wellTyped_apply {w : SegmentWrite} (h : w.Ready s) (hs : s.WellTyped) :
    (w.apply s).WellTyped := by
  cases w with
  | table addr offset funcs =>
      obtain ⟨_, _, _, hfuncs⟩ := h
      exact hs.modifyTable (fun t _ => t.evolves_write offset funcs)
        fun t _ hwithin => hwithin.write hfuncs offset
  | memory addr offset bytes =>
      exact hs.keeps (Store.keeps_modifyMemory fun memory _ => memory.evolves_write offset bytes)

/-- A segment that was checked is written in full. -/
theorem Ready.writeSegment_eq {w : SegmentWrite} (h : w.Ready s) (stack : Stack Value) :
    Exec.writeSegment w ⟨s, stack⟩ = .ok () ⟨w.apply s, stack⟩ := by
  cases w with
  | table addr offset funcs =>
      obtain ⟨t, ht, hsize, _⟩ := h
      have htable : s.table addr = .ok t := atAddress_eq_ok_iff.mpr ht
      have hinside : Exec.ask (fun s => (s.table addr).map (·.inBounds offset funcs.length))
          ⟨s, stack⟩ = .ok true ⟨s, stack⟩ := by
        refine Exec.ask_of_ok ?_
        rw [htable]
        exact congrArg Except.ok (decide_eq_true hsize)
      exact bind_of_ok hinside
  | memory addr offset bytes =>
      obtain ⟨memory, hm, hsize⟩ := h
      have hmemory : s.memory addr = .ok memory := atAddress_eq_ok_iff.mpr hm
      have hinside : Exec.ask (fun s => (s.memory addr).map (·.inBounds offset bytes.length))
          ⟨s, stack⟩ = .ok true ⟨s, stack⟩ := by
        refine Exec.ask_of_ok ?_
        rw [hmemory]
        exact congrArg Except.ok (decide_eq_true hsize)
      exact bind_of_ok hinside

/-- The store after segments have been written one after the other. -/
def applyAll (ws : List SegmentWrite) (s : Store) : Store :=
  ws.foldl (fun s w => w.apply s) s

theorem extends_applyAll (ws : List SegmentWrite) (s : Store) : s.Extends (applyAll ws s) := by
  induction ws generalizing s with
  | nil => exact .refl s
  | cons w ws ih => exact (w.extends_apply s).trans (ih (w.apply s))

/-- Writing one segment leaves the places of those behind it as they are. -/
theorem ready_apply {w : SegmentWrite} {ws : List SegmentWrite} (h : ∀ w' ∈ ws, w'.Ready s) :
    ∀ w' ∈ ws, w'.Ready (w.apply s) :=
  fun w' hw' => (h w' hw').extends (w.extends_apply s)

/-- Writing segments that are ready keeps the store well typed, in whatever order. -/
theorem wellTyped_applyAll {ws : List SegmentWrite} (h : ∀ w ∈ ws, w.Ready s)
    (hs : s.WellTyped) : (applyAll ws s).WellTyped := by
  induction ws generalizing s with
  | nil => exact hs
  | cons w ws ih =>
      obtain ⟨hw, hws⟩ := List.forall_mem_cons.mp h
      exact ih (ready_apply hws) (hw.wellTyped_apply hs)

/-- Segments that have been placed can be written one after the other. -/
theorem forM_writeSegment {ws : List SegmentWrite} (stack : Stack Value)
    (h : ∀ w ∈ ws, w.Ready s) :
    ws.forM Exec.writeSegment ⟨s, stack⟩ = .ok () ⟨applyAll ws s, stack⟩ := by
  induction ws generalizing s with
  | nil => rfl
  | cons w ws ih =>
      obtain ⟨hw, hws⟩ := List.forall_mem_cons.mp h
      exact (bind_of_ok (hw.writeSegment_eq stack)).trans (ih (ready_apply hws))

end SegmentWrite

namespace Module

/-- The fault of the segments of a module that is linked to anything of the declared types. -/
def segmentsFault (m : Module) (s : Store) (imports : List ExternVal) : Option RuntimeError :=
  (m.elements.findSome? fun e =>
      (constantFault .i32 (s.constantValue imports e.offset)).or (m.elementFault s imports e)).or
    (m.data.findSome? fun d =>
      (constantFault .i32 (s.constantValue imports d.offset)).or (m.dataFault s imports d))

theorem findSome?_or_eq {α ε : Type} {xs : List α} {f g : α → Option ε}
    (h : ∀ x ∈ xs, f x = none) : (xs.findSome? fun x => (f x).or (g x)) = xs.findSome? g := by
  induction xs with
  | nil => rfl
  | cons x xs ih =>
      obtain ⟨hx, hxs⟩ := List.forall_mem_cons.mp h
      rw [List.findSome?_cons, List.findSome?_cons, hx, Option.none_or, ih hxs]

/-- In a store whose globals hold values of their types a segment fails only if it does not fit. -/
theorem Valid.segmentsFault_eq (hm : m.Valid sig funcTypes) (hs : s.WellTyped)
    (himports : List.Forall₂ s.Has imports sig.imports) :
    m.segmentsFault s imports = (m.elements.findSome? (m.elementFault s imports)).or
      (m.data.findSome? (m.dataFault s imports)) := by
  have helements : ∀ e ∈ m.elements, constantFault .i32 (s.constantValue imports e.offset) = none :=
    fun e he => constantFault_offset hm himports hs.globals (hm.elements e he).2.1
  have hdata : ∀ d ∈ m.data, constantFault .i32 (s.constantValue imports d.offset) = none :=
    fun d hd => constantFault_offset hm himports hs.globals (hm.data d hd).2
  rw [segmentsFault, findSome?_or_eq helements, findSome?_or_eq hdata]

/-- The segments of a module are all written unless one of them has a fault, and then none is. -/
theorem Makes.writeSegments_outcome (h : m.Makes s imports a) (hm : m.Valid sig funcTypes)
    (himports : List.Forall₂ s.Has imports sig.imports) (exports : List (String × ExternVal))
    (stack : Stack Value) :
    match m.segmentsFault s imports with
    | some e =>
      Exec.writeSegments m (m.instanceWith s imports a exports)
        ⟨m.storeWith s imports a exports, stack⟩ = .error e ⟨m.storeWith s imports a exports, stack⟩
    | none =>
      ∃ ws, m.Writes s imports (m.instanceWith s imports a exports) ws ∧
        (∀ w ∈ ws, w.Ready (m.storeWith s imports a exports)) ∧
        Exec.writeSegments m (m.instanceWith s imports a exports)
          ⟨m.storeWith s imports a exports, stack⟩ =
            .ok () ⟨SegmentWrite.applyAll ws (m.storeWith s imports a exports), stack⟩ := by
  have helements := checks_mapM fun e he =>
    h.checks_placeElement hm himports exports stack (e := e) he
  have hdata := checks_mapM fun d hd =>
    h.checks_placeData hm himports exports stack (d := d) hd
  unfold segmentsFault
  cases helement : m.elements.findSome? fun e =>
      (constantFault .i32 (s.constantValue imports e.offset)).or (m.elementFault s imports e) with
  | some e =>
      rw [helement] at helements
      exact bind_of_error helements
  | none =>
      rw [helement] at helements
      obtain ⟨ws, hws, helements⟩ := helements
      rw [Option.none_or]
      cases hdatum : m.data.findSome? fun d =>
          (constantFault .i32 (s.constantValue imports d.offset)).or (m.dataFault s imports d) with
      | some e =>
          rw [hdatum] at hdata
          exact (bind_of_ok helements).trans (bind_of_error hdata)
      | none =>
          rw [hdatum] at hdata
          obtain ⟨ws', hws', hdata⟩ := hdata
          have hwrites : m.Writes s imports (m.instanceWith s imports a exports) (ws ++ ws') :=
            ⟨ws, ws', rfl, hws.imp fun _ _ hw => hw.1, hws'.imp fun _ _ hw => hw.1⟩
          -- all segments are checked before the first is written, so being ready lasts
          have hready : ∀ w ∈ ws ++ ws', w.Ready (m.storeWith s imports a exports) := by
            refine List.forall_mem_append.mpr ⟨fun w hw => ?_, fun w hw => ?_⟩
            · obtain ⟨_, _, _, hready⟩ := exists_of_mem_right hws hw
              exact hready
            · obtain ⟨_, _, _, hready⟩ := exists_of_mem_right hws' hw
              exact hready
          exact ⟨ws ++ ws', hwrites, hready, (bind_of_ok helements).trans ((bind_of_ok hdata).trans
            (SegmentWrite.forM_writeSegment stack hready))⟩

end Module

end WebAssembly
