import Mathlib
import WebAssembly.Proofs.Linking.Failure

/-!
# Lifetimes of instances

What becomes of an instance over the whole life of its store. The surroundings are trusted with less
here than in `Store.Step`: they may put any address into a table, also one at which there is no
function. Code that runs into such a slot fails, and nothing else comes of it.

`Store.Coherent` is what holds of every store that comes about in this way: globals hold values of
their types, sizes stay within what can be counted, and a function of a module belongs to a module
instance that lists it. The last point is not obvious. Functions are added before the instance of
their module is, and linking may fail later; but what fails before the instance is added fails
before the functions are (`Exec.link_coherent`).
-/

namespace WebAssembly

/-! ## What lasts in a single instance

Limits on sizes, which growth respects, and types of globals, which assignment respects.
-/

/-- However it is declared, a table has room for no more than the slots that can be addressed. -/
theorem Table.capacity_le (t : Table) : t.capacity ≤ maxSlots := by
  unfold Table.capacity
  split
  · next max _ =>
      have hmax := max.toNat_lt
      unfold maxSlots
      omega
  · exact Nat.le_refl _

/-- However it is declared, a memory has room for no more than 65536 pages. -/
theorem Memory.capacity_le (m : Memory) : m.capacity ≤ maxPages := by
  unfold Memory.capacity
  split
  · exact Nat.min_le_right _ _
  · exact Nat.le_refl _

theorem Table.Evolves.size_le {t t' : Table} (h : t.Evolves t') (ht : t.size ≤ maxSlots) :
    t'.size ≤ maxSlots := by
  rcases h.room with heq | hroom
  · rwa [heq]
  · exact Nat.le_trans hroom t.capacity_le

theorem Memory.Evolves.pages_le {m m' : Memory} (h : m.Evolves m') (hm : m.pages ≤ maxPages) :
    m'.pages ≤ maxPages := by
  rcases h.room with heq | hroom
  · rwa [Memory.pages, heq]
  · exact Nat.le_trans hroom m.capacity_le

theorem Global.Evolves.typed {g g' : Global} (h : g.Evolves g')
    (hg : g.value.type = g.type.type) : g'.value.type = g'.type.type := by
  rcases h with rfl | ⟨_, htype, hvalue⟩
  · exact hg
  · rw [hvalue, htype]

/-- A global that cannot be assigned keeps its value. -/
theorem Global.Evolves.value_eq {g g' : Global} (h : g.Evolves g') (hg : g.type.mutable = false) :
    g'.value = g.value := by
  rcases h with rfl | ⟨hmutable, _, _⟩
  · rfl
  · rw [hg] at hmutable
    cases hmutable

/-- What stands at an old place comes from what stood there. -/
theorem Lasts.of_lt {α : Type} {related : α → α → Prop} {xs ys : Array α}
    (h : Lasts related xs ys) {i : Nat} {y : α} (hi : i < xs.size) (hy : ys[i]? = some y) :
    ∃ x, xs[i]? = some x ∧ related x y := by
  have hx := Array.getElem?_eq_getElem hi
  obtain ⟨y', hy', hxy⟩ := h i _ hx
  rw [hy] at hy'
  cases hy'
  exact ⟨_, hx, hxy⟩

theorem lt_size_of_getElem? {α : Type} {xs : Array α} {i : Nat} {x : α} (h : xs[i]? = some x) :
    i < xs.size :=
  (Array.getElem?_eq_some_iff.mp h).1

/-! ## Coherent stores

The invariant of a history, and how it is kept when instances are added or changed. One lemma covers
all changes; what it asks for is about new instances only.
-/

/-- There is a module instance at address `module`, and the function at `addr` is among its own. -/
def Store.Owns (s : Store) (module addr : Nat) : Prop :=
  ∃ inst, s.modules[module]? = some inst ∧ addr ∈ inst.funcs

/-- What holds of every store that comes about, whatever its surroundings put into tables. -/
structure Store.Coherent (s : Store) : Prop where
  globals : s.GlobalsTyped
  tables : ∀ (addr : Nat) (t : Table), s.tables[addr]? = some t → t.size ≤ maxSlots
  memories : ∀ (addr : Nat) (m : Memory), s.memories[addr]? = some m → m.pages ≤ maxPages
  owners : ∀ (addr : Nat) (type : FuncType) (module : Nat) (code : Code),
    s.funcs[addr]? = some (.defined type module code) → s.Owns module addr

/-- A module that owns a function goes on owning it. -/
theorem Store.Owns.extends {s s' : Store} {module addr : Nat} (h : s.Owns module addr)
    (hs : s.Extends s') : s'.Owns module addr := by
  obtain ⟨inst, hinst, haddr⟩ := h
  obtain ⟨_, hinst', rfl⟩ := hs.modules module inst hinst
  exact ⟨inst, hinst', haddr⟩

namespace Store.Coherent

variable {s s' : Store}

theorem empty : ({} : Store).Coherent :=
  ⟨nofun, nofun, nofun, nofun⟩

/-- A store that grows stays coherent if what is new in it is as it should be. -/
theorem grow (h : s.Coherent) (hs : s.Extends s')
    (hglobals : ∀ (addr : Nat) (g : Global), s'.globals[addr]? = some g →
      addr < s.globals.size ∨ g.value.type = g.type.type)
    (htables : ∀ (addr : Nat) (t : Table), s'.tables[addr]? = some t →
      addr < s.tables.size ∨ t.size ≤ maxSlots)
    (hmemories : ∀ (addr : Nat) (m : Memory), s'.memories[addr]? = some m →
      addr < s.memories.size ∨ m.pages ≤ maxPages)
    (howners : ∀ (addr : Nat) (type : FuncType) (module : Nat) (code : Code),
      s'.funcs[addr]? = some (.defined type module code) →
        addr < s.funcs.size ∨ s'.Owns module addr) :
    s'.Coherent where
  globals := by
    intro addr g hg
    -- what was there has evolved, what is new is as it should be by assumption
    rcases hglobals addr g hg with hold | hnew
    · obtain ⟨g₀, hg₀, hevolves⟩ := hs.globals.of_lt hold hg
      exact hevolves.typed (h.globals addr g₀ hg₀)
    · exact hnew
  tables := by
    intro addr t ht
    rcases htables addr t ht with hold | hnew
    · obtain ⟨t₀, ht₀, hevolves⟩ := hs.tables.of_lt hold ht
      exact hevolves.size_le (h.tables addr t₀ ht₀)
    · exact hnew
  memories := by
    intro addr m hm
    rcases hmemories addr m hm with hold | hnew
    · obtain ⟨m₀, hm₀, hevolves⟩ := hs.memories.of_lt hold hm
      exact hevolves.pages_le (h.memories addr m₀ hm₀)
    · exact hnew
  owners := by
    intro addr type module code hf
    rcases howners addr type module code hf with hold | hnew
    · obtain ⟨_, hf₀, rfl⟩ := hs.funcs.of_lt hold hf
      exact (h.owners addr type module code hf₀).extends hs
    · exact hnew

/-- Nothing is new where no arena has more entries than before. -/
theorem of_size_eq (h : s.Coherent) (hs : s.Extends s')
    (hglobals : s'.globals.size = s.globals.size)
    (htables : s'.tables.size = s.tables.size) (hmemories : s'.memories.size = s.memories.size)
    (hfuncs : s'.funcs.size = s.funcs.size) : s'.Coherent :=
  h.grow hs (fun _ _ hg => Or.inl (hglobals ▸ lt_size_of_getElem? hg))
    (fun _ _ ht => Or.inl (htables ▸ lt_size_of_getElem? ht))
    (fun _ _ hm => Or.inl (hmemories ▸ lt_size_of_getElem? hm))
    (fun _ _ _ _ hf => Or.inl (hfuncs ▸ lt_size_of_getElem? hf))

theorem keeps (h : s.Coherent) (hs : s.Keeps s') : s'.Coherent :=
  h.of_size_eq hs.extends hs.globals_size (congrArg Array.size hs.tables) hs.memories_size
    (congrArg Array.size hs.funcs)

/-- A table may be changed as tables evolve. -/
theorem modifyTable (h : s.Coherent) {addr : Nat} {f : Table → Table}
    (hf : ∀ t : Table, s.tables[addr]? = some t → t.Evolves (f t)) :
    (s.modifyTable addr f).Coherent :=
  h.of_size_eq (extends_modifyTable hf) rfl Array.size_modify rfl rfl

theorem addHostFunc (h : s.Coherent) (type : FuncType) (run : HostFunc) :
    (s.addFunc (.host type run)).2.Coherent := by
  refine h.grow (extends_addFunc s _) (fun _ _ hg => Or.inl (lt_size_of_getElem? hg))
    (fun _ _ ht => Or.inl (lt_size_of_getElem? ht))
    (fun _ _ hm => Or.inl (lt_size_of_getElem? hm)) ?_
  intro addr type' module code hf
  rcases eq_of_getElem?_push hf with hold | hnew
  · exact Or.inl (lt_size_of_getElem? hold)
  · cases hnew

theorem addTable (h : s.Coherent) {t : Table} (ht : t.size ≤ maxSlots) :
    (s.addTable t).2.Coherent := by
  refine h.grow (extends_addTable s t) (fun _ _ hg => Or.inl (lt_size_of_getElem? hg)) ?_
    (fun _ _ hm => Or.inl (lt_size_of_getElem? hm))
    (fun _ _ _ _ hf => Or.inl (lt_size_of_getElem? hf))
  intro addr t' ht'
  rcases eq_of_getElem?_push ht' with hold | rfl
  · exact Or.inl (lt_size_of_getElem? hold)
  · exact Or.inr ht

/-- A memory may be added if it is within the limit on pages. -/
theorem addMemory (h : s.Coherent) {m : Memory} (hm : m.pages ≤ maxPages) :
    (s.addMemory m).2.Coherent := by
  refine h.grow (extends_addMemory s m) (fun _ _ hg => Or.inl (lt_size_of_getElem? hg))
    (fun _ _ ht => Or.inl (lt_size_of_getElem? ht)) ?_
    (fun _ _ _ _ hf => Or.inl (lt_size_of_getElem? hf))
  intro addr m' hm'
  rcases eq_of_getElem?_push hm' with hold | rfl
  · exact Or.inl (lt_size_of_getElem? hold)
  · exact Or.inr hm

theorem addGlobal (h : s.Coherent) {g : Global} (hg : g.value.type = g.type.type) :
    (s.addGlobal g).2.Coherent := by
  refine h.grow (extends_addGlobal s g) ?_ (fun _ _ ht => Or.inl (lt_size_of_getElem? ht))
    (fun _ _ hm => Or.inl (lt_size_of_getElem? hm))
    (fun _ _ _ _ hf => Or.inl (lt_size_of_getElem? hf))
  intro addr g' hg'
  rcases eq_of_getElem?_push hg' with hold | rfl
  · exact Or.inl (lt_size_of_getElem? hold)
  · exact Or.inr hg

end Store.Coherent

/-! ## Linking

The functions of a module are owned by the instance that is added with them. A failure before that
has added neither.
-/

section Linking

variable {m : Module} {s : Store} {imports : List ExternVal} {a : Additions}

theorem Table.size_ofType_le (t : TableType) : (Table.ofType t).size ≤ maxSlots := by
  have hmin := t.limits.min.toNat_lt
  show (Array.replicate t.limits.min.toNat none).size ≤ maxSlots
  rw [Array.size_replicate]
  unfold maxSlots
  omega

theorem Memory.pages_le_of_ofType {t : MemoryType} {memory : Memory}
    (h : Memory.ofType t = .ok memory) : memory.pages ≤ maxPages := by
  rw [Memory.pages_of_ofType h]
  exact (Memory.eq_of_ofType h).2.2

theorem Module.filterMap_func?_addresses :
    (a.addresses s).filterMap ExternVal.func? = List.range' s.funcs.size a.funcs.length := by
  simp [Additions.addresses, List.filterMap_append, List.filterMap_map, Function.comp_def,
    ExternVal.func?]

/-- The functions of a module are listed by the instance that is added behind them. -/
theorem Module.Makes.owns (h : m.Makes s imports a) (exports : List (String × ExternVal))
    {addr module : Nat} {type : FuncType} {code : Code}
    (hf : (m.storeWith s imports a exports).funcs[addr]? = some (.defined type module code))
    (haddr : s.funcs.size ≤ addr) : (m.storeWith s imports a exports).Owns module addr := by
  have hf : (s.funcs ++ a.funcs)[addr]? = some (.defined type module code) := hf
  have hlt := lt_size_of_getElem? hf
  rw [← Array.length_toList, Array.toList_appendList, List.length_append,
    Array.length_toList] at hlt
  -- an address beyond the old functions is that of a new one, which names this module
  have hmem : FuncInstance.defined type module code ∈ a.funcs := by
    rcases mem_of_getElem?_appendList hf with hold | hnew
    · exact absurd (lt_size_of_getElem? hold) (Nat.not_lt.mpr haddr)
    · exact hnew
  obtain ⟨_, _, _, _, heq⟩ := exists_of_mem_right h.funcs hmem
  cases heq
  refine ⟨m.instanceWith s imports a exports, Array.getElem?_push_size, ?_⟩
  show addr ∈ ((imports ++ a.addresses s).filterMap ExternVal.func?).toArray
  rw [List.mem_toArray, List.filterMap_append, filterMap_func?_addresses, List.mem_append,
    List.mem_range'_1]
  exact Or.inr ⟨haddr, hlt⟩

/-- What a module adds is within the limits and owned by it. -/
theorem Module.Makes.coherent (h : m.Makes s imports a) (hs : s.Coherent)
    (exports : List (String × ExternVal)) : (m.storeWith s imports a exports).Coherent := by
  refine hs.grow (s.extends_plus a _) ?_ ?_ ?_ ?_
  · intro addr g hg
    exact (mem_of_getElem?_appendList hg).imp lt_size_of_getElem? h.type_value
  · intro addr t ht
    refine (mem_of_getElem?_appendList ht).imp lt_size_of_getElem? fun hmem => ?_
    obtain ⟨type, _, rfl⟩ := exists_of_mem_right h.tables_ofType hmem
    exact Table.size_ofType_le type
  · intro addr memory hmemory
    refine (mem_of_getElem?_appendList hmemory).imp lt_size_of_getElem? fun hmem => ?_
    obtain ⟨type, _, htype⟩ := exists_of_mem_right h.memories_ofType hmem
    exact Memory.pages_le_of_ofType htype
  · intro addr type module code hf
    exact (Nat.lt_or_ge addr s.funcs.size).imp_right fun haddr => h.owns exports hf haddr

/-- Segments change no size. -/
theorem SegmentWrite.coherent_applyAll (ws : List SegmentWrite) (hs : s.Coherent) :
    (SegmentWrite.applyAll ws s).Coherent := by
  induction ws generalizing s with
  | nil => exact hs
  | cons w ws ih =>
      refine ih ?_
      cases w with
      | table addr offset funcs => exact hs.modifyTable fun t _ => t.evolves_write offset funcs
      | memory addr offset bytes =>
          exact hs.keeps <|
            Store.keeps_modifyMemory fun memory _ => memory.evolves_write offset bytes

/-- Linking keeps a store coherent, whether it succeeds or not. The first values of globals are of
their types, so that nothing fails between adding functions and adding the instance that lists
them. -/
theorem Exec.link_coherent (hs : s.Coherent) (m : Module) (imports : List ExternVal)
    (stack : Stack Value) :
    s.Extends (final (link m imports ⟨s, stack⟩)).store ∧
      (final (link m imports ⟨s, stack⟩)).store.Coherent := by
  rcases link_cases hs.globals m imports stack with
    ⟨e, herror⟩ | ⟨sig, _, a, exports, _, _, _, ha, _, hend⟩
  · rw [herror]
    exact ⟨.refl s, hs⟩
  · have hextends : s.Extends (m.storeWith s imports a exports) := s.extends_plus a _
    have hcoherent := ha.coherent hs exports
    rcases hend with ⟨e, herror⟩ | ⟨ws, hok⟩
    · rw [herror]
      exact ⟨hextends, hcoherent⟩
    · rw [hok]
      exact ⟨hextends.trans (SegmentWrite.extends_applyAll ws _),
        SegmentWrite.coherent_applyAll ws hcoherent⟩

/-- Instantiation keeps a store coherent, however it ends. -/
theorem Run.instantiate_coherent (hs : s.Coherent) {fuel : Nat} {stack : Stack Value}
    {r : EStateM.Result RuntimeError Machine Nat}
    (h : instantiate fuel m imports ⟨s, stack⟩ = some r) :
    s.Extends (final r).store ∧ (final r).store.Coherent := by
  have hlink := Exec.link_coherent hs m imports stack
  rcases instantiate_cases h with ⟨e, mach, herror, rfl⟩ | ⟨_, _, linked, hok, _, hkeeps, _⟩
  · rw [herror] at hlink
    exact hlink
  · rw [hok] at hlink
    exact ⟨hlink.1.trans hkeeps.extends, hlink.2.keeps hkeeps⟩

end Linking

/-! ## Histories

From one step to any number of steps, and from coherence to what it says of each kind of instance.
-/

/-- What the surroundings of a store can do with it if they need not know which functions exist. -/
inductive Store.Change (s : Store) : Store → Prop
  | step {s' : Store} : s.Step s' → Change s s'
  /-- A slot is emptied or gets any address. -/
  | tableSet {addr i : Nat} {f : Option Nat} {s' : Store} :
      s.tableSet addr i f = .ok ((), s') → Change s s'
  /-- Slots one behind the other get any addresses. -/
  | tableWrite {addr start : Nat} {funcs : List Nat} {s' : Store} :
      s.tableWrite addr start funcs = .ok ((), s') → Change s s'

/-- What can become of a store. -/
def Store.History : Store → Store → Prop :=
  Relation.ReflTransGen Store.Change

/-- A store that comes about from the empty one. -/
def Store.Arises (s : Store) : Prop :=
  ({} : Store).History s

namespace Store

variable {s s' : Store}

/-- A table that has been looked up is replaced. -/
theorem replaceTable_coherent (hs : s.Coherent) {addr : Nat} {t t' : Table}
    (ht : s.table addr = .ok t) (h : t.Evolves t') :
    s.Extends (s.modifyTable addr fun _ => t') ∧ (s.modifyTable addr fun _ => t').Coherent := by
  have hevolves : ∀ t₀, s.tables[addr]? = some t₀ → t₀.Evolves t' := forall_of_atAddress ht h
  exact ⟨extends_modifyTable hevolves, hs.modifyTable hevolves⟩

theorem Keeps.coherent (h : s.Keeps s') (hs : s.Coherent) : s.Extends s' ∧ s'.Coherent :=
  ⟨h.extends, hs.keeps h⟩

/-- One access from outside keeps what is there and leaves the store coherent. -/
theorem Step.coherent (h : s.Step s') (hs : s.Coherent) : s.Extends s' ∧ s'.Coherent := by
  -- nothing is asked of the functions a table is set to: being owned does not depend on tables
  cases h with
  | newHostFunc type run => exact ⟨extends_addFunc s _, hs.addHostFunc type run⟩
  | newTable type => exact ⟨extends_addTable s _, hs.addTable (Table.size_ofType_le type)⟩
  | newMemory h =>
      obtain ⟨memory, hmemory, rfl⟩ := newMemory_eq_ok h
      exact ⟨extends_addMemory s memory, hs.addMemory (Memory.pages_le_of_ofType hmemory)⟩
  | newGlobal h =>
      obtain ⟨g, hg, rfl⟩ := newGlobal_eq_ok h
      exact ⟨extends_addGlobal s g, hs.addGlobal hg⟩
  | tableGrow h =>
      obtain ⟨t, t', ht, hgrow, rfl⟩ := tableGrow_eq_ok h
      exact replaceTable_coherent hs ht (Table.evolves_of_grow hgrow)
  | memoryGrow h => exact (keeps_of_memoryGrow h).coherent hs
  | memoryWrite h => exact (keeps_of_memoryWrite h).coherent hs
  | globalSet h => exact (keeps_of_globalSet h).coherent hs
  | tableSet _ h =>
      obtain ⟨t, t', ht, hset, rfl⟩ := tableSet_eq_ok h
      exact replaceTable_coherent hs ht (Table.evolves_of_set hset)
  | instantiate h => exact Run.instantiate_coherent hs h
  | invoke h => exact (Run.Steady.invoke _ _ _ _ _ h).coherent hs

/-- Every change keeps what is in a coherent store, and keeps it coherent. -/
theorem Change.coherent (h : s.Change s') (hs : s.Coherent) : s.Extends s' ∧ s'.Coherent := by
  cases h with
  | step h => exact h.coherent hs
  | tableSet h =>
      obtain ⟨t, t', ht, hset, rfl⟩ := tableSet_eq_ok h
      exact replaceTable_coherent hs ht (Table.evolves_of_set hset)
  | tableWrite h =>
      obtain ⟨t, t', ht, hwrite, rfl⟩ := tableWrite_eq_ok h
      exact replaceTable_coherent hs ht (Table.evolves_of_write hwrite)

/-- So does any sequence of them. -/
theorem History.coherent (h : s.History s') (hs : s.Coherent) : s.Extends s' ∧ s'.Coherent := by
  induction h with
  | refl => exact ⟨.refl s, hs⟩
  | tail _ hchange ih =>
      have hlast := hchange.coherent ih.2
      exact ⟨ih.1.trans hlast.1, hlast.2⟩

theorem Arises.coherent (h : s.Arises) : s.Coherent :=
  (History.coherent h .empty).2

/-- The life of a store. Whatever happens to it after some moment, functions and module instances
stay as they are and where they are; a global keeps its type, and its value unless it is mutable;
tables and memories keep their bounds and do not shrink. And at every moment globals hold values of
their types and functions of modules belong to a module instance that lists them. -/
theorem Arises.instances_last (hs : s.Arises) (h : s.History s') :
    (∀ (addr : Nat) (f : FuncInstance), s.funcs[addr]? = some f → s'.funcs[addr]? = some f) ∧
      (∀ (addr : Nat) (inst : ModuleInstance),
        s.modules[addr]? = some inst → s'.modules[addr]? = some inst) ∧
      (∀ (addr : Nat) (g : Global), s.globals[addr]? = some g →
        ∃ g', s'.globals[addr]? = some g' ∧ g'.type = g.type ∧
          (g.type.mutable = false → g'.value = g.value)) ∧
      (∀ (addr : Nat) (t : Table), s.tables[addr]? = some t →
        ∃ t', s'.tables[addr]? = some t' ∧ t'.max = t.max ∧ t.size ≤ t'.size) ∧
      (∀ (addr : Nat) (m : Memory), s.memories[addr]? = some m →
        ∃ m', s'.memories[addr]? = some m' ∧ m'.max = m.max ∧ m.size ≤ m'.size) ∧
      (∀ (addr : Nat) (g : Global), s'.globals[addr]? = some g → g.value.type = g.type.type) ∧
      ∀ (addr : Nat) (type : FuncType) (module : Nat) (code : Code),
        s'.funcs[addr]? = some (.defined type module code) →
          ∃ inst, s'.modules[module]? = some inst ∧ addr ∈ inst.funcs := by
  obtain ⟨hextends, hcoherent⟩ := h.coherent hs.coherent
  refine ⟨?_, ?_, ?_, ?_, ?_, hcoherent.globals, hcoherent.owners⟩
  · intro addr f hf
    obtain ⟨_, hf', rfl⟩ := hextends.funcs addr f hf
    exact hf'
  · intro addr inst hinst
    obtain ⟨_, hinst', rfl⟩ := hextends.modules addr inst hinst
    exact hinst'
  · intro addr g hg
    obtain ⟨g', hg', hevolves⟩ := hextends.globals addr g hg
    exact ⟨g', hg', hevolves.type_eq, hevolves.value_eq⟩
  · intro addr t ht
    obtain ⟨t', ht', hevolves⟩ := hextends.tables addr t ht
    exact ⟨t', ht', hevolves.max, hevolves.size⟩
  · intro addr m hm
    obtain ⟨m', hm', hevolves⟩ := hextends.memories addr m hm
    exact ⟨m', hm', hevolves.max, hevolves.size⟩

/-- What a store becomes when a module is linked, whatever comes of that. -/
def linked (s : Store) (m : Module) (imports : List ExternVal) : Store :=
  ((Run.instantiate 0 m imports ⟨s, .empty⟩).map fun r => (final r).store).getD s

theorem history_linked (s : Store) (m : Module) (imports : List ExternVal) :
    s.History (s.linked m imports) := by
  unfold linked
  cases h : Run.instantiate 0 m imports ⟨s, .empty⟩ with
  | none => exact .refl
  | some r => exact .single (.step (.instantiate h))

end Store

/-- A store with a table that has one slot, which is empty. -/
def oneSlot : Store :=
  ({} : Store).linked emptySlot []

/-- The same after `slotFiller` could not be linked to it, and the slot got an address at which
there is no function. -/
def wildSlot : Store :=
  (oneSlot.linked slotFiller [.table 0]).modifyTable 0 fun _ => ⟨#[some 99], none⟩

theorem history_wildSlot : oneSlot.History wildSlot := by
  have hset : (oneSlot.linked slotFiller [.table 0]).tableSet 0 0 (some 99) =
      .ok ((), wildSlot) := by
    cbv
  exact (oneSlot.history_linked slotFiller [.table 0]).tail (.tableSet hset)

/-- The table has outlasted all that. The function which the failed module left behind is listed by
the instance that it left behind too. -/
theorem wildSlot_instances_last :
    oneSlot.Arises ∧ oneSlot.History wildSlot ∧
      (∃ t, wildSlot.tables[0]? = some t ∧ t.max = none ∧ 1 ≤ t.size) ∧
      wildSlot.funcs[0]? = some (.defined ⟨[], []⟩ 1 ⟨[], #[]⟩) ∧
      ∃ inst, wildSlot.modules[1]? = some inst ∧ 0 ∈ inst.funcs := by
  have hs : oneSlot.Arises := Store.history_linked {} emptySlot []
  have htable : oneSlot.tables[0]? = some ⟨#[none], none⟩ := by
    cbv
  have hfunc : wildSlot.funcs[0]? = some (.defined ⟨[], []⟩ 1 ⟨[], #[]⟩) := by
    cbv
  obtain ⟨_, _, _, htables, _, _, howners⟩ := hs.instances_last history_wildSlot
  exact ⟨hs, history_wildSlot, htables 0 _ htable, hfunc, howners 0 _ 1 _ hfunc⟩

end WebAssembly
