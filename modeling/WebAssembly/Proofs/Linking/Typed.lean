import WebAssembly.Proofs.Linking.Allocation

/-!
# Allocation of valid modules

A valid module that is linked to imports of the declared types can be allocated, whatever is in the
store. Its instance bears out the context that its code was checked in, and so the store stays well
typed (`Module.Valid.exists_allocation`).
-/

namespace WebAssembly

variable {m : Module} {sig : Signature} {funcTypes : List FuncType} {s : Store}
variable {imports : List ExternVal} {a : Additions}

/-! ## What is behind fresh addresses

The instances that a module adds have the types it declares them with, at the addresses they get.
-/

/-- Behind the addresses that new entries of an arena get are the new entries. -/
theorem forall₂_fresh {α β : Type} {related : α → β → Prop} {ys : List α} {zs : List β}
    (xs : Array α) (h : List.Forall₂ related ys zs) :
    List.Forall₂ (fun addr z => ∃ y, (xs ++ ys)[addr]? = some y ∧ related y z)
      (List.range' xs.size ys.length) zs := by
  induction h generalizing xs with
  | nil => exact .nil
  | @cons y _ ys _ hy _ ih =>
      have hfirst : (xs.push y)[xs.size]? = some y := Array.getElem?_push_size
      rw [List.length_cons, List.range'_succ, Array.appendList_cons]
      refine .cons ⟨y, getElem?_appendList_left hfirst ys, hy⟩ ?_
      have hrest := ih (xs.push y)
      rwa [Array.size_push] at hrest

theorem mem_of_getElem?_appendList {α : Type} {xs : Array α} {ys : List α} {i : Nat} {y : α}
    (h : (xs ++ ys)[i]? = some y) : xs[i]? = some y ∨ y ∈ ys := by
  rw [← Array.getElem?_toList, Array.toList_appendList] at h
  rcases Nat.lt_or_ge i xs.toList.length with hi | hi
  · rw [List.getElem?_append_left hi, Array.getElem?_toList] at h
    exact Or.inl h
  · rw [List.getElem?_append_right hi] at h
    exact Or.inr (List.mem_of_getElem? h)

/-- New entries of an arena have their types, at the addresses that they get. -/
theorem Store.externType_fresh {α β : Type} {related : α → β → Prop} {ys : List α} {zs : List β}
    {s' : Store} {kind : Nat → ExternVal} {type : β → ExternType} (xs : Array α)
    (h : List.Forall₂ related ys zs)
    (htype : ∀ addr y z, (xs ++ ys)[addr]? = some y → related y z →
      s'.externType (kind addr) = .ok (type z)) :
    List.Forall₂ (fun v t => s'.externType v = .ok t) ((List.range' xs.size ys.length).map kind)
      (zs.map type) := by
  rw [List.forall₂_map_left_iff, List.forall₂_map_right_iff]
  refine (forall₂_fresh xs h).imp ?_
  rintro addr z ⟨y, hy, hyz⟩
  exact htype addr y z hy hyz

/-- A store goes on with what a module adds to it. -/
theorem Store.extends_plus (s : Store) (a : Additions) (inst : ModuleInstance) :
    s.Extends (s.plus a inst) where
  funcs := .append (fun _ => rfl) _ _
  tables := .append Table.Evolves.refl _ _
  memories := .append Memory.Evolves.refl _ _
  globals := .append Global.Evolves.refl _ _
  modules := .push (fun _ => rfl) _ _

/-- A new table has the type that it was declared with. -/
theorem Table.type_ofType (t : TableType) : (Table.ofType t).type = t := by
  simp [Table.ofType, Table.type, Table.size]

/-- A new memory is as large and as bounded as it was declared. -/
theorem Memory.eq_of_ofType {t : MemoryType} {memory : Memory} (h : Memory.ofType t = .ok memory) :
    memory.size = t.limits.min.toNat * pageSize ∧ memory.max = t.limits.max ∧
      t.limits.min.toNat ≤ maxPages := by
  unfold Memory.ofType at h
  split at h
  · cases h
  · next hmin =>
      cases h
      exact ⟨Array.size_replicate, rfl, Nat.le_of_not_lt hmin⟩

theorem Memory.pages_of_ofType {t : MemoryType} {memory : Memory}
    (h : Memory.ofType t = .ok memory) : memory.pages = t.limits.min.toNat := by
  rw [Memory.pages, (Memory.eq_of_ofType h).1]
  exact Nat.mul_div_cancel _ (by decide)

/-- A new memory has the type that it was declared with. -/
theorem Memory.type_of_ofType {t : MemoryType} {memory : Memory}
    (h : Memory.ofType t = .ok memory) : memory.type = t := by
  rw [Memory.type, Memory.pages_of_ofType h, (Memory.eq_of_ofType h).2.1, UInt32.ofNat_toNat]

namespace Module

/-! ## Instances of a valid module

The module instance bears out the context of validation, imports by what they were checked to be and
the rest by declaration. This is what the code of the module needs.
-/

/-- A new function is the layout of a body that is typed in the context of its module. -/
theorem Makes.typed (h : m.Makes s imports a) (hm : m.Valid sig funcTypes) :
    List.Forall₂ (fun inst t => ∃ f : Func,
      inst = .defined t s.modules.size (Code.compile f.locals f.body) ∧
        (m.context sig.imports funcTypes).BodyHasType t f.locals f.body) a.funcs funcTypes := by
  refine forall₂_of_common h.funcs hm.funcs ?_
  rintro f _ t ⟨t', ht', rfl⟩ ⟨ht, hbody⟩
  rw [ht'] at ht
  cases ht
  exact ⟨f, rfl, hbody⟩

/-- Behind the fresh addresses is what the module declares. -/
theorem Makes.externType_addresses (h : m.Makes s imports a) (hm : m.Valid sig funcTypes)
    (inst : ModuleInstance) :
    List.Forall₂ (fun v t => (s.plus a inst).externType v = .ok t) (a.addresses s)
      (m.declared funcTypes) := by
  refine List.rel_append (List.rel_append (List.rel_append ?_ ?_) ?_) ?_
  · refine Store.externType_fresh s.funcs (h.typed hm) ?_
    rintro addr _ t hf ⟨f, rfl, _⟩
    exact map_atAddress_eq_ok_iff.mpr ⟨_, hf, rfl⟩
  · refine Store.externType_fresh s.tables (.flip h.tables_ofType) ?_
    rintro addr table t htable rfl
    exact map_atAddress_eq_ok_iff.mpr ⟨_, htable, congrArg _ (Table.type_ofType t)⟩
  · refine Store.externType_fresh s.memories (.flip h.memories_ofType) ?_
    intro addr memory t hmemory ht
    exact map_atAddress_eq_ok_iff.mpr ⟨_, hmemory, congrArg _ (Memory.type_of_ofType ht)⟩
  · refine Store.externType_fresh s.globals (.flip h.globals) ?_
    rintro addr g d hg ⟨htype, _⟩
    exact map_atAddress_eq_ok_iff.mpr ⟨_, hg, congrArg _ htype⟩

/-- The instance of a valid module bears out the context that its code was checked in. -/
theorem Makes.fits (h : m.Makes s imports a) (hm : m.Valid sig funcTypes)
    (himports : List.Forall₂ s.Has imports sig.imports)
    (exports exports' : List (String × ExternVal)) :
    (m.instanceWith s imports a exports).Fits (m.storeWith s imports a exports')
      (m.context sig.imports funcTypes) := by
  refine ModuleInstance.fits_ofExterns m.types exports (List.rel_append (himports.imp ?_) ?_)
  · intro v t hvt
    exact hvt.extends (s.extends_plus a _)
  · exact (h.externType_addresses hm _).imp fun _ _ => Store.has_of_externType

/-- The instances a valid module adds are well typed, its code by validation. -/
theorem Makes.wellTyped (h : m.Makes s imports a) (hm : m.Valid sig funcTypes) (hs : s.WellTyped)
    (himports : List.Forall₂ s.Has imports sig.imports) (exports : List (String × ExternVal)) :
    (m.storeWith s imports a exports).WellTyped := by
  refine hs.grow (s.extends_plus a _) ?_ ?_ ?_
  · intro addr g hg
    exact (mem_of_getElem?_appendList hg).imp_right h.type_value
  · intro addr t ht
    refine (mem_of_getElem?_appendList ht).imp_right fun hmem => ?_
    obtain ⟨type, _, rfl⟩ := exists_of_mem_right h.tables_ofType hmem
    exact Table.within_ofType type _
  · intro addr type module code hcode
    refine (mem_of_getElem?_appendList hcode).imp_right fun hmem => ?_
    obtain ⟨type', _, f, heq, hbody⟩ := exists_of_mem_right (.flip (h.typed hm)) hmem
    cases heq
    exact ⟨_, _, f.body, Array.getElem?_push_size, h.fits hm himports exports exports, rfl, hbody⟩

/-! ## Constant expressions and exports

What validation has found constant has a value, and what it has found exported can be resolved.
-/

/-- A constant expression has a value. In a store whose globals hold values of their types it is of
the type of the expression. -/
theorem exists_constantValue (hm : m.Valid sig funcTypes)
    (himports : List.Forall₂ s.Has imports sig.imports) {e : Expr} {t : ValueType}
    (he : e.IsConstant m.importedGlobals t) :
    ∃ v, s.constantValue imports e = some v ∧ (s.GlobalsTyped → v.type = t) := by
  cases he with
  | const v => exact ⟨v, rfl, fun _ => rfl⟩
  | @globalGet i type hi _ =>
      -- only imported globals can be read, and these are in the store before anything is added
      have htype : (Context.ofExterns m.types sig.imports).globals[i.toNat]? = some type := by
        rw [← hi, (imported_eq hm.imports).2.2]
        exact List.getElem?_toArray
      obtain ⟨addr, haddr, g, hg, rfl⟩ :=
        (ModuleInstance.fits_ofExterns m.types [] himports).globals.exists_of_getElem? htype
      have hindex : (imports.filterMap ExternVal.global?)[i.toNat]? = some addr := by
        rw [← haddr]
        exact List.getElem?_toArray.symm
      refine ⟨g.value, ?_, fun hs => hs addr g hg⟩
      simp only [Store.constantValue, hindex, hg, Option.bind_eq_bind, Option.bind_some,
        Option.pure_def]

end Module

/-- An export stands for something that is related to its type, if what is behind the indices of
each kind is related to the types that the context has for them. -/
theorem ModuleInstance.exists_resolve {related : ExternVal → ExternType → Prop}
    {inst : ModuleInstance} {ctx : Context}
    (hfuncs : Matches (fun addr t => related (.func addr) (.func t)) inst.funcs ctx.funcs)
    (htables : Matches (fun addr t => related (.table addr) (.table t)) inst.tables ctx.tables)
    (hmemories : Matches (fun addr t => related (.memory addr) (.memory t)) inst.memories
      ctx.memories)
    (hglobals : Matches (fun addr t => related (.global addr) (.global t)) inst.globals ctx.globals)
    {d : ExportDesc} {t : ExternType} (ht : ctx.exportType d = .ok t) :
    ∃ v, inst.resolve d = .ok v ∧ related v t := by
  unfold Context.exportType at ht
  -- the four kinds of export, each found under its index
  split at ht
  · next i =>
      obtain ⟨type, htype, ht⟩ := except_bind_eq_ok_iff.mp ht
      cases ht
      obtain ⟨addr, hindex, hrel⟩ := hfuncs.exists_atIndex .func (Context.funcType_eq_ok htype)
      exact ⟨.func addr, congrArg (Except.map ExternVal.func) hindex, hrel⟩
  · next i =>
      split at ht
      · next type htype =>
          cases ht
          obtain ⟨addr, hindex, hrel⟩ := htables.exists_atIndex .table htype
          exact ⟨.table addr, congrArg (Except.map ExternVal.table) hindex, hrel⟩
      · cases ht
  · next i =>
      split at ht
      · next type htype =>
          cases ht
          obtain ⟨addr, hindex, hrel⟩ := hmemories.exists_atIndex .memory htype
          exact ⟨.memory addr, congrArg (Except.map ExternVal.memory) hindex, hrel⟩
      · cases ht
  · next i =>
      split at ht
      · next type htype =>
          cases ht
          obtain ⟨addr, hindex, hrel⟩ := hglobals.exists_atIndex .global htype
          exact ⟨.global addr, congrArg (Except.map ExternVal.global) hindex, hrel⟩
      · cases ht

/-- An export stands for something of its type. -/
theorem ModuleInstance.Fits.exists_resolve {inst : ModuleInstance} {ctx : Context}
    (h : inst.Fits s ctx) {d : ExportDesc} {t : ExternType} (ht : ctx.exportType d = .ok t) :
    ∃ v, inst.resolve d = .ok v ∧ s.Has v t :=
  ModuleInstance.exists_resolve h.funcs h.tables h.memories h.globals ht

namespace Module

/-- Every global of the module has a first value, and that is of its type. -/
def Initialized (m : Module) (s : Store) (imports : List ExternVal) : Prop :=
  ∀ d ∈ m.globals, ∃ v, s.constantValue imports d.init = some v ∧ v.type = d.type.type

/-- The first values of the globals of a valid module, in a store whose globals hold values of
their types. -/
theorem Valid.initialized (hm : m.Valid sig funcTypes) (hs : s.GlobalsTyped)
    (himports : List.Forall₂ s.Has imports sig.imports) : m.Initialized s imports := by
  intro d hd
  obtain ⟨v, hv, hvtype⟩ := exists_constantValue hm himports (hm.globals d hd)
  exact ⟨v, hv, hvtype hs⟩

/-- The instances that a valid module adds. -/
theorem Valid.exists_makes (hm : m.Valid sig funcTypes) (hinit : m.Initialized s imports) :
    ∃ a, m.Makes s imports a := by
  have hfuncs : ∀ f ∈ m.funcs, ∃ inst, ∃ t, m.types.toArray[f.type.toNat]? = some t ∧
      inst = FuncInstance.defined t s.modules.size (Code.compile f.locals f.body) := by
    intro f hf
    obtain ⟨t, _, ht, _⟩ := exists_of_mem_right (.flip hm.funcs) hf
    exact ⟨_, t, ht, rfl⟩
  have hmemories : ∀ t ∈ m.memories, ∃ memory, Memory.AsDeclared memory t :=
    fun t ht => ⟨⟨_, _⟩, rfl, rfl, hm.memories t ht⟩
  have hglobals : ∀ d ∈ m.globals, ∃ g : Global, g.type = d.type ∧ g.value.type = d.type.type ∧
      s.constantValue imports d.init = some g.value := by
    intro d hd
    obtain ⟨v, hv, hvtype⟩ := hinit d hd
    exact ⟨⟨d.type, v⟩, rfl, hvtype, hv⟩
  -- one instance for each declaration, chosen one by one
  obtain ⟨funcs, hfuncs⟩ := exists_forall₂ hfuncs
  obtain ⟨memories, hmemories⟩ := exists_forall₂ hmemories
  obtain ⟨globals, hglobals⟩ := exists_forall₂ hglobals
  exact
    ⟨⟨funcs, m.tables.map Table.ofType, memories, globals⟩, {
      funcs := hfuncs
      tables := List.forall₂_map_right_iff.mpr (List.forall₂_same.mpr fun _ _ => ⟨rfl, rfl⟩)
      memories := hmemories
      globals := hglobals }⟩

/-- A valid module can be allocated. -/
theorem Valid.exists_allocation (hm : m.Valid sig funcTypes) (hinit : m.Initialized s imports)
    (himports : List.Forall₂ s.Has imports sig.imports) :
    ∃ a exports, m.Makes s imports a ∧
      (m.instanceWith s imports a []).Offers m.exports exports ∧
      (∀ stack, Exec.allocate m imports ⟨s, stack⟩ =
        .ok (s.modules.size, m.instanceWith s imports a exports)
          ⟨m.storeWith s imports a exports, stack⟩) := by
  obtain ⟨a, ha⟩ := hm.exists_makes hinit
  have hexports : ∀ e ∈ m.exports, ∃ r : String × ExternVal,
      r.1 = e.name ∧ (m.instanceWith s imports a []).resolve e.desc = .ok r.2 := by
    intro e he
    obtain ⟨t, _, ht⟩ := exists_of_mem_right (.flip hm.exports) he
    obtain ⟨v, hv, _⟩ := (ha.fits hm himports [] []).exists_resolve ht
    exact ⟨(e.name, v), rfl, hv⟩
  obtain ⟨exports, hexports⟩ := exists_forall₂ hexports
  exact ⟨a, exports, ha, hexports, fun stack => Exec.allocate_eq stack ha hexports⟩

end Module

end WebAssembly
