import Mathlib
import WebAssembly.Proofs.Lifetimes

/-!
# Signatures stay true

The signature of a module is found by looking at the module alone. Once the module is linked its
exports are instances in a store, whose types change: the lower bound of a table or a memory is its
size at the moment. They change in one direction only, down in the order of subtypes
(`Store.Coherent.externType_lasts`), and so what the signature says of imports and exports holds
from the moment of linking on, whatever happens to the store.
-/

namespace WebAssembly

/-! ## The order of types

Limits are ordered by what they promise and what they allow. The order is reflexive and transitive,
so that promises can be kept over many steps.
-/

/-- Limits are below others if they promise at least as much and may grow at most as far. -/
theorem Limits.isSubtypeOf_iff {given expected : Limits} :
    given.isSubtypeOf expected = true ↔ expected.min ≤ given.min ∧
      ∀ bound, expected.max = some bound → ∃ bound', given.max = some bound' ∧ bound' ≤ bound := by
  unfold Limits.isSubtypeOf
  rw [Bool.and_eq_true, decide_eq_true_iff]
  refine and_congr_right fun _ => ?_
  split
  · next hmax => simp [hmax]
  · next hgiven hmax => simp [hgiven, hmax]
  · next hgiven hmax => simp [hgiven, hmax]

theorem Limits.isSubtypeOf_refl (l : Limits) : l.isSubtypeOf l = true :=
  isSubtypeOf_iff.mpr ⟨UInt32.le_refl _, fun bound hbound => ⟨bound, hbound, UInt32.le_refl _⟩⟩

theorem Limits.isSubtypeOf_trans {l l' l'' : Limits} (h : l.isSubtypeOf l' = true)
    (h' : l'.isSubtypeOf l'' = true) : l.isSubtypeOf l'' = true := by
  rw [isSubtypeOf_iff] at h h' ⊢
  refine ⟨UInt32.le_trans h'.1 h.1, fun bound hbound => ?_⟩
  obtain ⟨bound', hbound', hle'⟩ := h'.2 bound hbound
  obtain ⟨bound'', hbound'', hle⟩ := h.2 bound' hbound'
  exact ⟨bound'', hbound'', UInt32.le_trans hle hle'⟩

namespace ExternType

theorem isSubtypeOf_refl : ∀ t : ExternType, t.isSubtypeOf t = true
  | .func _ => decide_eq_true rfl
  | .table t => t.limits.isSubtypeOf_refl
  | .memory t => t.limits.isSubtypeOf_refl
  | .global _ => decide_eq_true rfl

/-- Only types of one kind are comparable, which leaves four of the cases. -/
theorem isSubtypeOf_trans : ∀ {t t' t'' : ExternType}, t.isSubtypeOf t' = true →
    t'.isSubtypeOf t'' = true → t.isSubtypeOf t'' = true
  | .func _, .func _, .func _, h, h' =>
      decide_eq_true ((of_decide_eq_true h).trans (of_decide_eq_true h'))
  | .table _, .table _, .table _, h, h' => Limits.isSubtypeOf_trans h h'
  | .memory _, .memory _, .memory _, h, h' => Limits.isSubtypeOf_trans h h'
  | .global _, .global _, .global _, h, h' =>
      decide_eq_true ((of_decide_eq_true h).trans (of_decide_eq_true h'))

end ExternType

/-! ## Types of instances over time

The type of a table or a memory names its present size, and so it changes. It changes to a subtype,
since sizes only grow and maxima stay.
-/

/-- Sizes are counted in 32 bits. A larger size gives a type further down as long as the count does
not wrap around. -/
theorem Limits.isSubtypeOf_of_size {size size' : Nat} {max : Option UInt32} (h : size ≤ size')
    (hsize' : size' ≤ maxSlots) :
    Limits.isSubtypeOf ⟨UInt32.ofNat size', max⟩ ⟨UInt32.ofNat size, max⟩ = true := by
  refine isSubtypeOf_iff.mpr ⟨?_, fun bound hbound => ⟨bound, hbound, UInt32.le_refl _⟩⟩
  have hcount : ∀ n ≤ maxSlots, (UInt32.ofNat n).toNat = n := by
    intro n hn
    have hlt : n < UInt32.size := Nat.lt_of_le_of_lt hn (by decide)
    exact UInt32.toNat_ofNat_of_lt' hlt
  rw [UInt32.le_iff_toNat_le, hcount size (Nat.le_trans h hsize'), hcount size' hsize']
  exact h

/-- A table that has grown is of a subtype of what it was. -/
theorem Table.Evolves.type_isSubtypeOf {t t' : Table} (h : t.Evolves t')
    (hsize : t'.size ≤ maxSlots) : t'.type.limits.isSubtypeOf t.type.limits = true := by
  unfold Table.type
  rw [h.max]
  exact Limits.isSubtypeOf_of_size h.size hsize

theorem Memory.Evolves.type_isSubtypeOf {m m' : Memory} (h : m.Evolves m')
    (hpages : m'.pages ≤ maxPages) : m'.type.limits.isSubtypeOf m.type.limits = true := by
  have hle : m.pages ≤ m'.pages := Nat.div_le_div_right h.size
  unfold Memory.type
  rw [h.max]
  exact Limits.isSubtypeOf_of_size hle (Nat.le_trans hpages (by decide))

namespace Store

variable {s s' : Store}

/-- The type that an instance has later is a subtype of the one that it has now. -/
theorem Coherent.externType_lasts (hs' : s'.Coherent) (h : s.Extends s') {v : ExternVal}
    {t : ExternType} (ht : s.externType v = .ok t) :
    ∃ t', s'.externType v = .ok t' ∧ t'.isSubtypeOf t = true := by
  -- functions and globals keep their types; tables and memories only grow
  cases v with
  | func addr =>
      obtain ⟨f, hf, rfl⟩ := map_atAddress_eq_ok_iff.mp ht
      obtain ⟨_, hf', rfl⟩ := h.funcs addr f hf
      exact ⟨_, map_atAddress_eq_ok_iff.mpr ⟨f, hf', rfl⟩, ExternType.isSubtypeOf_refl _⟩
  | table addr =>
      obtain ⟨table, htable, rfl⟩ := map_atAddress_eq_ok_iff.mp ht
      obtain ⟨table', htable', hevolves⟩ := h.tables addr table htable
      exact ⟨_, map_atAddress_eq_ok_iff.mpr ⟨table', htable', rfl⟩,
        hevolves.type_isSubtypeOf (hs'.tables addr table' htable')⟩
  | memory addr =>
      obtain ⟨memory, hmemory, rfl⟩ := map_atAddress_eq_ok_iff.mp ht
      obtain ⟨memory', hmemory', hevolves⟩ := h.memories addr memory hmemory
      exact ⟨_, map_atAddress_eq_ok_iff.mpr ⟨memory', hmemory', rfl⟩,
        hevolves.type_isSubtypeOf (hs'.memories addr memory' hmemory')⟩
  | global addr =>
      obtain ⟨g, hg, rfl⟩ := map_atAddress_eq_ok_iff.mp ht
      obtain ⟨g', hg', hevolves⟩ := h.globals addr g hg
      refine ⟨_, map_atAddress_eq_ok_iff.mpr ⟨g', hg', rfl⟩, ?_⟩
      rw [hevolves.type_eq]
      exact ExternType.isSubtypeOf_refl _

/-- The store has an instance whose type fits where `t` is declared. -/
def Provides (s : Store) (v : ExternVal) (t : ExternType) : Prop :=
  ∃ type, s.externType v = .ok type ∧ type.isSubtypeOf t = true

theorem Provides.has {v : ExternVal} {t : ExternType} (h : s.Provides v t) : s.Has v t := by
  obtain ⟨type, htype, hsub⟩ := h
  exact (has_of_externType htype).of_isSubtypeOf hsub

theorem provides_of_externType {v : ExternVal} {t : ExternType} (h : s.externType v = .ok t) :
    s.Provides v t :=
  ⟨t, h, ExternType.isSubtypeOf_refl t⟩

/-- What fits once fits for good. -/
theorem Provides.lasts {v : ExternVal} {t : ExternType} (h : s.Provides v t) (hs : s.Extends s')
    (hs' : s'.Coherent) : s'.Provides v t := by
  obtain ⟨type, htype, hsub⟩ := h
  obtain ⟨type', htype', hsub'⟩ := hs'.externType_lasts hs htype
  exact ⟨type', htype', ExternType.isSubtypeOf_trans hsub' hsub⟩

/-- The check on imports accepts exactly what provides them. -/
theorem checkImports_eq_ok_iff {given : List ExternVal} {expected : List ExternType} :
    s.checkImports given expected = .ok () ↔ List.Forall₂ s.Provides given expected := by
  have hnone : s.importsFault given expected = none ↔ List.Forall₂ s.Provides given expected :=
    importsFault_eq_none_iff
  rw [checkImports_eq, ← hnone]
  cases s.importsFault given expected with
  | none => exact ⟨fun _ => rfl, fun _ => rfl⟩
  | some e => exact ⟨nofun, nofun⟩

end Store

/-! ## Linking

What a module is given at linking provides its imports, and what it exports provides its signature.
-/

section Linking

variable {m : Module} {sig : Signature} {s : Store} {imports : List ExternVal} {a : Additions}

/-- The exports of a module that has been allocated fit its signature. An export may be one of the
imports, which have subtypes of the declared types, or new, with the type that was declared. -/
theorem Module.Makes.provides_exports {funcTypes : List FuncType} (h : m.Makes s imports a)
    (hm : m.Valid sig funcTypes) {exports : List (String × ExternVal)}
    (hstore : (m.storeWith s imports a exports).Coherent)
    (himports : List.Forall₂ s.Provides imports sig.imports)
    (hoffers : (m.instanceWith s imports a []).Offers m.exports exports) :
    List.Forall₂ (fun e t => (m.storeWith s imports a exports).Provides e.2 t) exports
      sig.exports := by
  -- everything an export can name is provided, imports as before and new instances as declared
  have hscope : List.Forall₂ (m.storeWith s imports a exports).Provides
      (imports ++ a.addresses s) (sig.imports ++ m.declared funcTypes) := by
    refine List.rel_append (himports.imp fun v t hvt => ?_) ?_
    · exact hvt.lasts (s.extends_plus a _) hstore
    · exact (h.externType_addresses hm _).imp fun _ _ => Store.provides_of_externType
  obtain ⟨hfuncs, htables, hmemories, hglobals⟩ := Store.forall₂_kinds (fun _ _ => (·.has)) hscope
  refine forall₂_of_common hoffers hm.exports ?_
  rintro e ⟨_, v⟩ t ⟨_, hv⟩ ht
  have hresolve : ∃ v', (m.instanceWith s imports a []).resolve e.desc = .ok v' ∧
      (m.storeWith s imports a exports).Provides v' t :=
    ModuleInstance.exists_resolve (matches_toArray_of_forall₂ hfuncs)
      (matches_toArray_of_forall₂ htables) (matches_toArray_of_forall₂ hmemories)
      (matches_toArray_of_forall₂ hglobals) ht
  obtain ⟨v', hv', hprovides⟩ := hresolve
  rw [hv] at hv'
  cases hv'
  exact hprovides

/-- What a module has when it has been linked: its instance is in the store, stands behind the names
that the module declares, and fits the signature together with the imports. -/
theorem Run.instantiate_provides (hs : s.Coherent) {fuel addr : Nat} {stack : Stack Value}
    {mach : Machine} (h : instantiate fuel m imports ⟨s, stack⟩ = some (.ok addr mach)) :
    ∃ sig inst, m.validate = .ok sig ∧ inst.Offers m.exports inst.exports ∧
      mach.store.modules[addr]? = some inst ∧
      List.Forall₂ (fun e t => mach.store.Provides e.2 t) inst.exports sig.exports ∧
      List.Forall₂ mach.store.Provides imports sig.imports := by
  obtain ⟨hextends, hcoherent⟩ := instantiate_coherent hs h
  have hextends : s.Extends mach.store := hextends
  have hcoherent : mach.store.Coherent := hcoherent
  rcases instantiate_cases h with ⟨_, _, _, heq⟩ | ⟨addr', inst', linked, hlink, _, hkeeps, hend⟩
  · cases heq
  have haddr : addr' = addr := by
    rcases hend with ⟨_, heq⟩ | ⟨_, _, heq, _⟩ <;> cases heq
    rfl
  subst haddr
  have hkeeps : linked.store.Keeps mach.store := hkeeps
  rcases Exec.link_cases hs.globals m imports stack with
    ⟨e, herror⟩ | ⟨sig, _, a, exports, hvalid, hm, hfault, ha, hoffers, ⟨e, herror⟩ | ⟨ws, hok⟩⟩
  · rw [herror] at hlink
    cases hlink
  · rw [herror] at hlink
    cases hlink
  · rw [hok] at hlink
    cases hlink
    have himports : List.Forall₂ s.Provides imports sig.imports :=
      Store.importsFault_eq_none_iff.mp hfault
    have hexports := ha.provides_exports hm (ha.coherent hs exports) himports hoffers
    -- from the moment at which the module was allocated the store has only been extended
    have hlater : (m.storeWith s imports a exports).Extends mach.store :=
      (SegmentWrite.extends_applyAll ws _).trans hkeeps.extends
    obtain ⟨_, hinst, rfl⟩ := hlater.modules s.modules.size _ Array.getElem?_push_size
    exact ⟨sig, _, hvalid, hoffers, hinst,
      hexports.imp fun _ _ he => he.lasts hlater hcoherent,
      himports.imp fun _ _ hi => hi.lasts hextends hcoherent⟩

end Linking

/-! ## Histories

Both are kept by every step, so they hold at any later time.
-/

/-- The signature of a module stays true. From the moment at which the module has been linked, and
whatever happens to the store then, its instance stays where it is, each of its exports is an
instance whose type at the moment fits the type that the signature has for the export, and each of
its imports still fits the type that it was declared with. More generally, what is accepted as the
imports of a module at one moment is accepted at every later one. -/
theorem Store.Arises.signature_lasts {s : Store} (hs : s.Arises) :
    (∀ (m : Module) (imports : List ExternVal) (fuel addr : Nat) (stack : Stack Value)
      (mach : Machine), Run.instantiate fuel m imports ⟨s, stack⟩ = some (.ok addr mach) →
        ∃ sig inst, m.validate = .ok sig ∧ inst.Offers m.exports inst.exports ∧
          ∀ s', mach.store.History s' →
            s'.modules[addr]? = some inst ∧
            List.Forall₂ (fun e t => s'.Provides e.2 t) inst.exports sig.exports ∧
            List.Forall₂ s'.Provides imports sig.imports) ∧
      ∀ s', s.History s' → ∀ (given : List ExternVal) (expected : List ExternType),
        s.checkImports given expected = .ok () → s'.checkImports given expected = .ok () := by
  constructor
  · intro m imports fuel addr stack mach h
    obtain ⟨sig, inst, hvalid, hoffers, hinst, hexports, himports⟩ :=
      Run.instantiate_provides hs.coherent h
    have hmach : mach.store.Coherent := (Run.instantiate_coherent hs.coherent h).2
    refine ⟨sig, inst, hvalid, hoffers, fun s' hs' => ?_⟩
    obtain ⟨hextends, hcoherent⟩ := hs'.coherent hmach
    obtain ⟨_, hinst', rfl⟩ := hextends.modules addr inst hinst
    exact ⟨hinst', hexports.imp fun _ _ he => he.lasts hextends hcoherent,
      himports.imp fun _ _ hi => hi.lasts hextends hcoherent⟩
  · intro s' hs' given expected h
    obtain ⟨hextends, hcoherent⟩ := hs'.coherent hs.coherent
    rw [checkImports_eq_ok_iff] at h ⊢
    exact h.imp fun _ _ hg => hg.lasts hextends hcoherent

/-- A module that gives its import on under another name. -/
def relay : Module where
  imports := [⟨"env", "slots", .table ⟨⟨0, none⟩⟩⟩]
  exports := [⟨"relayed", .table 0⟩]

/-- The store `oneSlot` after `relay` has been linked to its table, and the table has grown by two
slots. -/
def relayedSlots : Store :=
  (oneSlot.linked relay [.table 0]).modifyTable 0 fun _ => ⟨#[none, none, none], none⟩

/-- The table has more slots than at the time of linking, when it had more than `relay` declares.
It fits the declaration all the same. -/
theorem relay_signature_lasts :
    oneSlot.Arises ∧ ∃ mach, Run.instantiate 0 relay [.table 0] ⟨oneSlot, .empty⟩ =
        some (.ok 1 mach) ∧
      mach.store.History relayedSlots ∧
      relayedSlots.externType (.table 0) = .ok (.table ⟨⟨3, none⟩⟩) ∧
      ∃ sig inst, relay.validate = .ok sig ∧ relayedSlots.modules[1]? = some inst ∧
        List.Forall₂ (fun e t => relayedSlots.Provides e.2 t) inst.exports sig.exports := by
  have hs : oneSlot.Arises := Store.history_linked {} emptySlot []
  have hrun : Run.instantiate 0 relay [.table 0] ⟨oneSlot, .empty⟩ =
      some (.ok 1 ⟨oneSlot.linked relay [.table 0], .empty⟩) := by
    cbv
  have hgrow : (oneSlot.linked relay [.table 0]).tableGrow 0 2 = .ok (1, relayedSlots) := by
    cbv
  have hhistory : (oneSlot.linked relay [.table 0]).History relayedSlots :=
    .single (.step (.tableGrow hgrow))
  obtain ⟨sig, inst, hvalid, _, hlasts⟩ := hs.signature_lasts.1 _ _ _ _ _ _ hrun
  obtain ⟨hinst, hexports, _⟩ := hlasts relayedSlots hhistory
  exact ⟨hs, _, hrun, hhistory, by cbv, sig, inst, hvalid, hinst, hexports⟩

end WebAssembly
