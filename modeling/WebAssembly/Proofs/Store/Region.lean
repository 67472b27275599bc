import WebAssembly.Proofs.Store.Evolution

/-!
# Regions of a store

What a function can get at. A function of a module refers to the instance of its module, a module
instance to the addresses behind its indices, and a table to the functions in its slots. A region is
closed if nothing in it refers to anything outside; `Store.Reaches` is the least closed region
around a function (`Store.closed_reaches`, `Store.Reaches.mem_of_closed`). Two relations between
stores go with a region: they agree on it, or one comes from the other by changes inside it.
-/

namespace WebAssembly

/-! ## Places

An address together with its kind. References between instances are relations between places.
-/

/-- The address of an instance, of whatever kind. -/
inductive Place where
  | func (addr : Nat)
  | table (addr : Nat)
  | memory (addr : Nat)
  | global (addr : Nat)
  | module (addr : Nat)
deriving DecidableEq

/-- A set of places. -/
abbrev Region : Type := Place → Prop

/-- All that is behind the indices of a module instance is in the region. -/
structure ModuleInstance.Within (inst : ModuleInstance) (R : Region) : Prop where
  funcs : ∀ addr ∈ inst.funcs, R (.func addr)
  tables : ∀ addr ∈ inst.tables, R (.table addr)
  memories : ∀ addr ∈ inst.memories, R (.memory addr)
  globals : ∀ addr ∈ inst.globals, R (.global addr)

/-- A function that is found in a table is in one of its slots. -/
theorem Table.mem_slots_of_get {t : Table} {i func : Nat} (h : t.get i = .ok func) :
    some func ∈ t.slots := by
  rw [Table.get] at h
  split at h
  · cases h
  · cases h
  · next hslot =>
      cases h
      exact Array.mem_of_getElem? hslot

namespace Store

variable {s s' s'' : Store} {R : Region} {f : Nat}

/-- Nothing in the region refers to anything outside. -/
structure Closed (s : Store) (R : Region) : Prop where
  module : ∀ (addr m : Nat) (type : FuncType) (code : Code), R (.func addr) →
    s.funcs[addr]? = some (.defined type m code) → R (.module m)
  inst : ∀ (addr : Nat) (inst : ModuleInstance), R (.module addr) →
    s.modules[addr]? = some inst → inst.Within R
  slot : ∀ (addr func : Nat) (t : Table), R (.table addr) →
    s.tables[addr]? = some t → some func ∈ t.slots → R (.func func)

/-- The places that the function at address `f` can get at. -/
inductive Reaches (s : Store) (f : Nat) : Region
  | self : Reaches s f (.func f)
  | module {addr m : Nat} {type : FuncType} {code : Code} : Reaches s f (.func addr) →
      s.funcs[addr]? = some (.defined type m code) → Reaches s f (.module m)
  | func {m addr : Nat} {inst : ModuleInstance} : Reaches s f (.module m) →
      s.modules[m]? = some inst → addr ∈ inst.funcs → Reaches s f (.func addr)
  | table {m addr : Nat} {inst : ModuleInstance} : Reaches s f (.module m) →
      s.modules[m]? = some inst → addr ∈ inst.tables → Reaches s f (.table addr)
  | memory {m addr : Nat} {inst : ModuleInstance} : Reaches s f (.module m) →
      s.modules[m]? = some inst → addr ∈ inst.memories → Reaches s f (.memory addr)
  | global {m addr : Nat} {inst : ModuleInstance} : Reaches s f (.module m) →
      s.modules[m]? = some inst → addr ∈ inst.globals → Reaches s f (.global addr)
  | slot {addr func : Nat} {t : Table} : Reaches s f (.table addr) →
      s.tables[addr]? = some t → some func ∈ t.slots → Reaches s f (.func func)

/-- What a function can get at refers to nothing that it cannot get at. This is what each rule of
`Reaches` says. -/
theorem closed_reaches (s : Store) (f : Nat) : s.Closed (s.Reaches f) where
  module _ _ _ _ hreach hfunc := hreach.module hfunc
  inst _ _ hreach hinst :=
    { funcs := fun _ => hreach.func hinst
      tables := fun _ => hreach.table hinst
      memories := fun _ => hreach.memory hinst
      globals := fun _ => hreach.global hinst }
  slot _ _ _ hreach ht := hreach.slot ht

/-- A closed region around a function has all that the function can get at. -/
theorem Reaches.mem_of_closed {p : Place} (h : s.Reaches f p) (hclosed : s.Closed R)
    (hf : R (.func f)) : R p := by
  induction h with
  | self => exact hf
  | module _ hfunc ih => exact hclosed.module _ _ _ _ ih hfunc
  | func _ hinst hmem ih => exact (hclosed.inst _ _ ih hinst).funcs _ hmem
  | table _ hinst hmem ih => exact (hclosed.inst _ _ ih hinst).tables _ hmem
  | memory _ hinst hmem ih => exact (hclosed.inst _ _ ih hinst).memories _ hmem
  | global _ hinst hmem ih => exact (hclosed.inst _ _ ih hinst).globals _ hmem
  | slot _ ht hmem ih => exact hclosed.slot _ _ _ ih ht hmem

/-! ## Stores that agree

At each place of the region both have the same instance. Of a host function it is asked that it
answers alike after what was recorded in each store.
-/

/-- A host function has the same answers in two stores from now on, whatever calls are made in both
of them. One that remembers nothing always does. -/
def AnswersAlike (s s' : Store) (run : HostFunc) : Prop :=
  ∀ (calls : List HostCall) (args : List Value),
    run (calls ++ s.hostCalls) args = run (calls ++ s'.hostCalls) args

/-- Two stores have the same at a place, or both have nothing there. -/
def SameAt (s s' : Store) : Place → Prop
  | .func addr => s.funcs[addr]? = s'.funcs[addr]? ∧
    ∀ type run, s.funcs[addr]? = some (.host type run) → AnswersAlike s s' run
  | .table addr => s.tables[addr]? = s'.tables[addr]?
  | .memory addr => s.memories[addr]? = s'.memories[addr]?
  | .global addr => s.globals[addr]? = s'.globals[addr]?
  | .module addr => s.modules[addr]? = s'.modules[addr]?

/-- Two stores have the same everywhere in the region. -/
def AgreeOn (R : Region) (s s' : Store) : Prop :=
  ∀ p, R p → s.SameAt s' p

/-- A store agrees with itself, and a host function has in it the answers that it has. -/
theorem AgreeOn.refl (R : Region) (s : Store) : AgreeOn R s s := by
  intro p _
  cases p with
  | func addr => exact ⟨rfl, fun _ _ _ _ _ => rfl⟩
  | _ => rfl

/-- Whether a region is closed is decided in the region, so that stores which agree on it say the
same. -/
theorem Closed.of_agreeOn (h : s.Closed R) (hagree : AgreeOn R s s') : s'.Closed R where
  module addr m type code hR hfunc :=
    h.module addr m type code hR ((hagree (.func addr) hR).1.trans hfunc)
  inst addr inst hR hinst := h.inst addr inst hR ((hagree (.module addr) hR).trans hinst)
  slot addr func t hR ht := h.slot addr func t hR ((hagree (.table addr) hR).trans ht)

/-! Look-ups have the same answer in both. -/

theorem atAddress_congr {α : Type} {xs ys : Array α} {addr : Nat} (h : xs[addr]? = ys[addr]?)
    (space : Space) : atAddress xs space addr = atAddress ys space addr := by
  rw [atAddress, atAddress, h]

theorem AgreeOn.func {addr : Nat} (h : AgreeOn R s s') (haddr : R (.func addr)) :
    s.func addr = s'.func addr :=
  atAddress_congr (h _ haddr).1 .func

/-- A host function in the region can be asked on both sides. -/
theorem AgreeOn.answersAlike {addr : Nat} {type : FuncType} {run : HostFunc} (h : AgreeOn R s s')
    (haddr : R (.func addr)) (hf : s.func addr = .ok (.host type run)) : AnswersAlike s s' run :=
  (h _ haddr).2 type run (atAddress_eq_ok_iff.mp hf)

theorem AgreeOn.table {addr : Nat} (h : AgreeOn R s s') (haddr : R (.table addr)) :
    s.table addr = s'.table addr :=
  atAddress_congr (h _ haddr) .table

theorem AgreeOn.memory {addr : Nat} (h : AgreeOn R s s') (haddr : R (.memory addr)) :
    s.memory addr = s'.memory addr :=
  atAddress_congr (h _ haddr) .memory

theorem AgreeOn.global {addr : Nat} (h : AgreeOn R s s') (haddr : R (.global addr)) :
    s.global addr = s'.global addr :=
  atAddress_congr (h _ haddr) .global

theorem AgreeOn.module {addr : Nat} (h : AgreeOn R s s') (haddr : R (.module addr)) :
    s.module addr = s'.module addr :=
  atAddress_congr (h _ haddr) .module

/-- Stores that agree on all that a function can get at in one of them let it get at the same. -/
theorem AgreeOn.reaches_iff (h : AgreeOn (s.Reaches f) s s') (p : Place) :
    s.Reaches f p ↔ s'.Reaches f p := by
  constructor
  · intro hp
    -- Each step starts at a place where the stores agree, so it can be made in the other one too.
    induction hp with
    | self => exact .self
    | @module addr _ _ _ hreach hfunc ih =>
        exact ih.module ((h (.func addr) hreach).1.symm.trans hfunc)
    | @func m _ _ hreach hinst hmem ih =>
        exact ih.func ((h (.module m) hreach).symm.trans hinst) hmem
    | @table m _ _ hreach hinst hmem ih =>
        exact ih.table ((h (.module m) hreach).symm.trans hinst) hmem
    | @memory m _ _ hreach hinst hmem ih =>
        exact ih.memory ((h (.module m) hreach).symm.trans hinst) hmem
    | @global m _ _ hreach hinst hmem ih =>
        exact ih.global ((h (.module m) hreach).symm.trans hinst) hmem
    | @slot addr _ _ hreach ht hmem ih =>
        exact ih.slot ((h (.table addr) hreach).symm.trans ht) hmem
  · intro hp
    exact hp.mem_of_closed ((closed_reaches s f).of_agreeOn h) .self

/-! ## Changes inside a region

Nothing outside is touched, and nothing is added or removed.
-/

/-- What code that is confined to the region can make of `s`: nothing is added or taken away,
functions, tables and module instances are left alone, and so is every memory and every global
outside. -/
structure ChangesWithin (R : Region) (s s' : Store) : Prop where
  funcs : s'.funcs = s.funcs
  tables : s'.tables = s.tables
  modules : s'.modules = s.modules
  memories_size : s'.memories.size = s.memories.size
  globals_size : s'.globals.size = s.globals.size
  memories : ∀ addr, ¬ R (.memory addr) → s'.memories[addr]? = s.memories[addr]?
  globals : ∀ addr, ¬ R (.global addr) → s'.globals[addr]? = s.globals[addr]?

theorem ChangesWithin.refl (R : Region) (s : Store) : ChangesWithin R s s :=
  ⟨rfl, rfl, rfl, rfl, rfl, fun _ _ => rfl, fun _ _ => rfl⟩

/-- Changes inside a region, one after the other. -/
theorem ChangesWithin.trans (h : ChangesWithin R s s') (h' : ChangesWithin R s' s'') :
    ChangesWithin R s s'' where
  funcs := h'.funcs.trans h.funcs
  tables := h'.tables.trans h.tables
  modules := h'.modules.trans h.modules
  memories_size := h'.memories_size.trans h.memories_size
  globals_size := h'.globals_size.trans h.globals_size
  memories addr haddr := (h'.memories addr haddr).trans (h.memories addr haddr)
  globals addr haddr := (h'.globals addr haddr).trans (h.globals addr haddr)

/-- What refers to what does not change. -/
theorem Closed.of_changesWithin (h : s.Closed R) (hchanges : ChangesWithin R s s') :
    s'.Closed R where
  module := by
    rw [hchanges.funcs]
    exact h.module
  inst := by
    rw [hchanges.modules]
    exact h.inst
  slot := by
    rw [hchanges.tables]
    exact h.slot

/-- The other entries stay as they are when one is changed. -/
theorem getElem?_modify_of_ne {α : Type} {xs : Array α} {i j : Nat} (h : i ≠ j) (f : α → α) :
    (xs.modify i f)[j]? = xs[j]? := by
  rw [Array.getElem?_modify, if_neg h]

/-- A change of a memory in the region. -/
theorem changesWithin_modifyMemory (s : Store) {addr : Nat} (haddr : R (.memory addr))
    (f : Memory → Memory) : ChangesWithin R s (s.modifyMemory addr f) :=
  { ChangesWithin.refl R s with
    memories_size := Array.size_modify
    memories := fun other hother =>
      getElem?_modify_of_ne (fun heq : addr = other => hother (heq ▸ haddr)) f }

/-- A change of a global in the region. -/
theorem changesWithin_modifyGlobal (s : Store) {addr : Nat} (haddr : R (.global addr))
    (f : Global → Global) : ChangesWithin R s (s.modifyGlobal addr f) :=
  { ChangesWithin.refl R s with
    globals_size := Array.size_modify
    globals := fun other hother =>
      getElem?_modify_of_ne (fun heq : addr = other => hother (heq ▸ haddr)) f }

/-- The same change of a memory keeps stores in agreement, wherever the memory is. -/
theorem AgreeOn.modifyMemory (h : AgreeOn R s s') (addr : Nat) (f : Memory → Memory) :
    AgreeOn R (s.modifyMemory addr f) (s'.modifyMemory addr f) := by
  intro p hp
  have hsame := h p hp
  cases p with
  | memory addr' =>
      show (s.memories.modify addr f)[addr']? = (s'.memories.modify addr f)[addr']?
      rw [Array.getElem?_modify, Array.getElem?_modify, show s.memories[addr']? = _ from hsame]
  | _ => exact hsame

/-- The same change of a global keeps stores in agreement. -/
theorem AgreeOn.modifyGlobal (h : AgreeOn R s s') (addr : Nat) (f : Global → Global) :
    AgreeOn R (s.modifyGlobal addr f) (s'.modifyGlobal addr f) := by
  intro p hp
  have hsame := h p hp
  cases p with
  | global addr' =>
      show (s.globals.modify addr f)[addr']? = (s'.globals.modify addr f)[addr']?
      rw [Array.getElem?_modify, Array.getElem?_modify, show s.globals[addr']? = _ from hsame]
  | _ => exact hsame

/-- One more call that is made on both sides is one of those that were allowed for. -/
theorem AnswersAlike.recordCall {run : HostFunc} (h : AnswersAlike s s' run) (call : HostCall) :
    AnswersAlike (s.recordCall call) (s'.recordCall call) run := by
  intro calls args
  have hlater := h (calls ++ [call]) args
  rwa [List.append_assoc, List.append_assoc] at hlater

/-- The same call on both sides keeps stores in agreement. -/
theorem AgreeOn.recordCall (h : AgreeOn R s s') (call : HostCall) :
    AgreeOn R (s.recordCall call) (s'.recordCall call) := by
  intro p hp
  have hsame := h p hp
  cases p with
  | func addr => exact ⟨hsame.1, fun type run hf => (hsame.2 type run hf).recordCall call⟩
  | _ => exact hsame

end Store

end WebAssembly
