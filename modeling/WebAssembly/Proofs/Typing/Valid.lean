import Mathlib.Data.List.Forall2
import WebAssembly.Proofs.Fallible
import WebAssembly.Proofs.Typing.Decision
import WebAssembly.Typing.Module

/-!
# What validation guarantees

`Module.validate` is a chain of checks. `Module.Valid` says what a module that passed all of them is
like, in terms of its parts and of the typing rules: which context its code is typed in, what its
constant expressions are, and which indices its segments, start function and exports use. All later
reasoning about linking rests on these facts and not on the checks.
-/

namespace WebAssembly

/-! ## Lists that belong together

Lists of declarations and lists of types, related entry by entry.
-/

theorem filterMap_eq_of_forall₂ {α β γ : Type} {related : α → β → Prop} {f : α → Option γ}
    {g : β → Option γ} {xs : List α} {ys : List β} (h : List.Forall₂ related xs ys)
    (heq : ∀ x y, related x y → f x = g y) : xs.filterMap f = ys.filterMap g := by
  induction h with
  | nil => rfl
  | cons hxy _ ih => rw [List.filterMap_cons, List.filterMap_cons, heq _ _ hxy, ih]

/-- Two lists that go along with a third go along with each other. -/
theorem forall₂_of_common {α β γ : Type} {r : α → β → Prop} {r' : α → γ → Prop}
    {r'' : β → γ → Prop} {xs : List α} {ys : List β} {zs : List γ} (hy : List.Forall₂ r xs ys)
    (hz : List.Forall₂ r' xs zs) (h : ∀ x y z, r x y → r' x z → r'' y z) :
    List.Forall₂ r'' ys zs := by
  induction hy generalizing zs with
  | nil =>
      cases hz
      exact .nil
  | cons hxy _ ih =>
      cases hz with
      | cons hxz hrest => exact .cons (h _ _ _ hxy hxz) (ih hrest)

/-! ## Index spaces

The types behind indices are those of imports and then those declared, kind by kind.
-/

namespace ExternType

/-- The type of a function. -/
def func? : ExternType → Option FuncType
  | .func t => some t
  | _ => none

/-- The type of a table. -/
def table? : ExternType → Option TableType
  | .table t => some t
  | _ => none

/-- The type of a memory. -/
def memory? : ExternType → Option MemoryType
  | .memory t => some t
  | _ => none

/-- The type of a global. -/
def global? : ExternType → Option GlobalType
  | .global t => some t
  | _ => none

end ExternType

/-- The context in which the index space of each kind lists the types of that kind among `ts`. -/
def Context.ofExterns (types : List FuncType) (ts : List ExternType) : Context where
  types := types.toArray
  funcs := (ts.filterMap ExternType.func?).toArray
  tables := (ts.filterMap ExternType.table?).toArray
  memories := (ts.filterMap ExternType.memory?).toArray
  globals := (ts.filterMap ExternType.global?).toArray

/-- The types of what a module declares itself, its functions having types `funcTypes`. -/
def Module.declared (m : Module) (funcTypes : List FuncType) : List ExternType :=
  funcTypes.map .func ++ m.tables.map .table ++ m.memories.map .memory ++
    m.globals.map fun g => .global g.type

/-- Imports come before what the module declares itself. -/
def Module.context (m : Module) (imports : List ExternType) (funcTypes : List FuncType) : Context :=
  .ofExterns m.types (imports ++ m.declared funcTypes)

namespace Module

variable {m : Module} {imports : List ExternType} {funcTypes : List FuncType}

theorem filterMap_func?_declared :
    (m.declared funcTypes).filterMap ExternType.func? = funcTypes := by
  simp [declared, List.filterMap_append, List.filterMap_map, Function.comp_def, ExternType.func?]

theorem filterMap_table?_declared :
    (m.declared funcTypes).filterMap ExternType.table? = m.tables := by
  simp [declared, List.filterMap_append, List.filterMap_map, Function.comp_def, ExternType.table?]

theorem filterMap_memory?_declared :
    (m.declared funcTypes).filterMap ExternType.memory? = m.memories := by
  simp [declared, List.filterMap_append, List.filterMap_map, Function.comp_def, ExternType.memory?]

theorem filterMap_global?_declared :
    (m.declared funcTypes).filterMap ExternType.global? = m.globals.map GlobalDef.type := by
  simp [declared, List.filterMap_append, List.filterMap_map, Function.comp_def, ExternType.global?]

/-- An import is typed by its declaration, kind by kind. -/
theorem importType_cases {types : Array FuncType} {i : Import} {t : ExternType}
    (h : importType types i = .ok t) :
    (∃ index type, i.desc = .func index ∧ t = .func type) ∨
      (∃ type, i.desc = .table type ∧ t = .table type) ∨
      (∃ type, i.desc = .memory type ∧ t = .memory type) ∨
      (∃ type, i.desc = .global type ∧ t = .global type) := by
  unfold importType at h
  split at h
  · next index hdesc =>
      obtain ⟨type, _, h⟩ := except_bind_eq_ok_iff.mp h
      exact Or.inl ⟨index, type, hdesc, (Except.ok.inj h).symm⟩
  · next type hdesc =>
      obtain ⟨_, _, h⟩ := except_bind_eq_ok_iff.mp h
      exact Or.inr (Or.inl ⟨type, hdesc, (Except.ok.inj h).symm⟩)
  · next type hdesc =>
      obtain ⟨_, _, h⟩ := except_bind_eq_ok_iff.mp h
      exact Or.inr (Or.inr (Or.inl ⟨type, hdesc, (Except.ok.inj h).symm⟩))
  · next type hdesc => exact Or.inr (Or.inr (Or.inr ⟨type, hdesc, (Except.ok.inj h).symm⟩))

theorem typeAt_eq_ok {types : Array FuncType} {i : UInt32} {t : FuncType}
    (h : typeAt types i = .ok t) : types[i.toNat]? = some t := by
  unfold typeAt at h
  split at h
  · next t' ht =>
      cases h
      exact ht
  · cases h

section

variable (h : List.Forall₂ (fun i t => importType m.types.toArray i = .ok t) m.imports imports)

include h

/-- The types of imports, kind by kind, are as declared. -/
theorem imported_eq :
    m.importedTables = imports.filterMap ExternType.table? ∧
      m.importedMemories = imports.filterMap ExternType.memory? ∧
      m.importedGlobals = imports.filterMap ExternType.global? := by
  refine ⟨?_, ?_, ?_⟩ <;>
  · refine filterMap_eq_of_forall₂ h fun i t hi => ?_
    rcases importType_cases hi with ⟨_, _, hdesc, rfl⟩ | ⟨_, hdesc, rfl⟩ | ⟨_, hdesc, rfl⟩ |
      ⟨_, hdesc, rfl⟩ <;> rw [hdesc] <;> rfl

/-- The context that validation checks code in. -/
theorem context_eq :
    m.context imports funcTypes =
      { types := m.types.toArray
        funcs := (externFuncs imports ++ funcTypes).toArray
        tables := (m.importedTables ++ m.tables).toArray
        memories := (m.importedMemories ++ m.memories).toArray
        globals := (m.importedGlobals ++ m.globals.map GlobalDef.type).toArray } := by
  obtain ⟨htables, hmemories, hglobals⟩ := imported_eq h
  unfold context Context.ofExterns
  simp only [htables, hmemories, hglobals, List.filterMap_append, filterMap_func?_declared,
    filterMap_table?_declared, filterMap_memory?_declared, filterMap_global?_declared]
  rfl

end

end Module

/-! ## Constant expressions

Literals, and imported globals. Globals of the module itself are not in scope.
-/

/-- A constant expression of the given type, where `globals` are those that are imported: one
constant, or one imported global that cannot change. -/
inductive Expr.IsConstant (globals : List GlobalType) : Expr → ValueType → Prop
  | const (v : Value) : IsConstant globals [.plain (.const v)] v.type
  | globalGet {i : UInt32} {g : GlobalType} :
      globals[i.toNat]? = some g → g.mutable = false →
      IsConstant globals [.plain (.globalGet i)] g.type

namespace Context

variable {ctx : Context} {globals : List GlobalType}

/-- An expression with a constant type is a literal or an imported global. -/
theorem isConstant_of_constantType {e : Expr} {t : ValueType}
    (h : constantType globals e = .ok t) : e.IsConstant globals t := by
  unfold constantType at h
  split at h
  · cases h
  · cases h
    exact .const _
  · split at h
    · cases h
    · next i g hg =>
        split at h
        · cases h
        · next hmutable =>
            cases h
            exact .globalGet hg (Bool.eq_false_iff.mpr hmutable)
  · cases h

theorem isConstant_of_checkConstant {e : Expr} {t : ValueType}
    (h : checkConstant globals e t = .ok ()) : e.IsConstant globals t := by
  obtain ⟨t', ht', h⟩ := except_bind_eq_ok_iff.mp h
  split at h
  · next heq =>
      subst heq
      exact isConstant_of_constantType ht'
  · cases h

/-! ## Segments, start function and exports -/

/-- An index into a space of the given size, and a constant offset. -/
theorem checkElement_eq_ok {e : ElementSegment} (h : ctx.checkElement globals e = .ok ()) :
    e.table.toNat < ctx.tables.size ∧ e.offset.IsConstant globals .i32 ∧
      ∀ f ∈ e.funcs, f.toNat < ctx.funcs.size := by
  unfold checkElement at h
  split at h
  · cases h
  · next htable =>
      obtain ⟨_, hoffset, h⟩ := except_bind_eq_ok_iff.mp h
      refine ⟨Nat.lt_of_not_le htable, isConstant_of_checkConstant hoffset, fun f hf => ?_⟩
      have hfunc := forM_eq_ok_iff.mp h f hf
      split at hfunc
      · cases hfunc
      · next hlt => exact Nat.lt_of_not_le hlt

theorem checkData_eq_ok {d : DataSegment} (h : ctx.checkData globals d = .ok ()) :
    d.memory.toNat < ctx.memories.size ∧ d.offset.IsConstant globals .i32 := by
  unfold checkData at h
  split at h
  · cases h
  · next hmemory => exact ⟨Nat.lt_of_not_le hmemory, isConstant_of_checkConstant h⟩

theorem funcType_eq_ok {i : UInt32} {t : FuncType} (h : ctx.funcType i = .ok t) :
    ctx.funcs[i.toNat]? = some t := by
  unfold funcType at h
  split at h
  · next t' ht =>
      cases h
      exact ht
  · cases h

/-- A start function takes nothing and gives nothing. -/
theorem checkStart_eq_ok {i : UInt32} (h : ctx.checkStart (some i) = .ok ()) :
    ctx.funcs[i.toNat]? = some ⟨[], []⟩ := by
  obtain ⟨⟨params, results⟩, ht, h⟩ := except_bind_eq_ok_iff.mp h
  split at h
  · next hempty =>
      rw [Bool.and_eq_true, List.isEmpty_iff, List.isEmpty_iff] at hempty
      obtain ⟨rfl, rfl⟩ := hempty
      exact funcType_eq_ok ht
  · cases h

/-- Every export has the type that is listed for it. -/
theorem exportTypes_eq_ok {exports : List Export} {seen : List String} {acc ts : List ExternType}
    (h : ctx.exportTypes exports seen acc = .ok ts) :
    ∃ ts', ts = acc.reverse ++ ts' ∧
      List.Forall₂ (fun (e : Export) t => ctx.exportType e.desc = .ok t) exports ts' ∧
      (exports.map Export.name).Nodup ∧ ∀ e ∈ exports, e.name ∉ seen := by
  -- the names seen so far grow with each export, so a later one differs from all before it
  induction exports generalizing seen acc with
  | nil =>
      cases h
      exact ⟨[], (List.append_nil _).symm, .nil, .nil, nofun⟩
  | cons e exports ih =>
      unfold exportTypes at h
      split at h
      · cases h
      · next hseen =>
          obtain ⟨t, ht, h⟩ := except_bind_eq_ok_iff.mp h
          obtain ⟨ts', rfl, hts', hnodup, hnew⟩ := ih h
          refine ⟨t :: ts', ?_, .cons ht hts', ?_, ?_⟩
          · rw [List.reverse_cons, List.append_assoc, List.singleton_append]
          · -- a name that comes later has not been seen up to here
            refine List.nodup_cons.mpr ⟨fun hmem => ?_, hnodup⟩
            obtain ⟨e', he', hname⟩ := List.mem_map.mp hmem
            exact hnew e' he' (hname ▸ List.mem_cons_self)
          · refine List.forall_mem_cons.mpr ⟨by simpa using hseen, fun e' he' hmem => ?_⟩
            exact hnew e' he' (List.mem_cons_of_mem e.name hmem)

end Context

/-- A memory that was accepted can be made. -/
theorem MemoryType.min_le_of_validate {t : MemoryType} (h : t.validate = .ok ()) :
    t.limits.min.toNat ≤ maxPages := by
  obtain ⟨_, _, h⟩ := except_bind_eq_ok_iff.mp h
  split at h
  · cases h
  · next hle =>
      rw [Bool.or_eq_true, not_or, decide_eq_true_eq] at hle
      exact Nat.le_of_not_lt hle.1

/-! ## Modules

The checks in their order, each of which gives a field of `Module.Valid`.
-/

/-- A module whose imports have types `sig.imports`, whose exports have types `sig.exports` and
whose functions have types `funcTypes`. -/
structure Module.Valid (m : Module) (sig : Signature) (funcTypes : List FuncType) : Prop where
  imports : List.Forall₂ (fun i t => importType m.types.toArray i = .ok t) m.imports sig.imports
  funcs : List.Forall₂ (fun (f : Func) t => m.types.toArray[f.type.toNat]? = some t ∧
    (m.context sig.imports funcTypes).BodyHasType t f.locals f.body) m.funcs funcTypes
  memories : ∀ t ∈ m.memories, t.limits.min.toNat ≤ maxPages
  globals : ∀ g ∈ m.globals, g.init.IsConstant m.importedGlobals g.type.type
  elements : ∀ e ∈ m.elements, e.table.toNat < (m.context sig.imports funcTypes).tables.size ∧
    e.offset.IsConstant m.importedGlobals .i32 ∧
    ∀ f ∈ e.funcs, f.toNat < (m.context sig.imports funcTypes).funcs.size
  data : ∀ d ∈ m.data, d.memory.toNat < (m.context sig.imports funcTypes).memories.size ∧
    d.offset.IsConstant m.importedGlobals .i32
  start : ∀ i, m.start = some i →
    (m.context sig.imports funcTypes).funcs[i.toNat]? = some ⟨[], []⟩
  exports : List.Forall₂ (fun (e : Export) t =>
    (m.context sig.imports funcTypes).exportType e.desc = .ok t) m.exports sig.exports
  exportNames : (m.exports.map Export.name).Nodup

/-- What validation has checked, as a property of the module that linking can use. -/
theorem Module.valid_of_validate {m : Module} {sig : Signature} (h : m.validate = .ok sig) :
    ∃ funcTypes, m.Valid sig funcTypes := by
  unfold validate at h
  obtain ⟨_, _, h⟩ := except_bind_eq_ok_iff.mp h
  obtain ⟨imports, himports, h⟩ := except_bind_eq_ok_iff.mp h
  obtain ⟨funcTypes, hfuncTypes, h⟩ := except_bind_eq_ok_iff.mp h
  obtain ⟨_, _, h⟩ := except_bind_eq_ok_iff.mp h
  obtain ⟨_, hmemories, h⟩ := except_bind_eq_ok_iff.mp h
  rw [mapM_eq_ok_iff] at himports hfuncTypes
  -- from here on the checks are made in the context of the whole module
  rw [← context_eq himports] at h
  dsimp only at h
  split at h
  · cases h
  split at h
  · cases h
  obtain ⟨_, hglobals, h⟩ := except_bind_eq_ok_iff.mp h
  obtain ⟨_, hbodies, h⟩ := except_bind_eq_ok_iff.mp h
  obtain ⟨_, helements, h⟩ := except_bind_eq_ok_iff.mp h
  obtain ⟨_, hdata, h⟩ := except_bind_eq_ok_iff.mp h
  obtain ⟨_, hstart, h⟩ := except_bind_eq_ok_iff.mp h
  obtain ⟨exports, hexports, h⟩ := except_bind_eq_ok_iff.mp h
  cases h
  have hfuncs : List.Forall₂ (fun (f : Func) t => m.types.toArray[f.type.toNat]? = some t ∧
      (m.context imports funcTypes).BodyHasType t f.locals f.body) m.funcs funcTypes := by
    refine ((List.forall₂_and_left _ _).mpr ⟨forM_eq_ok_iff.mp hbodies, hfuncTypes⟩).imp ?_
    rintro f t ⟨hbody, ht⟩
    rw [ht] at hbody
    exact ⟨typeAt_eq_ok ht, Context.bodyHasType_of_checkBody _ t f.locals f.body hbody⟩
  obtain ⟨ts, rfl, hts, hnodup, -⟩ := Context.exportTypes_eq_ok hexports
  exact
    ⟨funcTypes, {
      imports := himports
      funcs := hfuncs
      memories := fun t ht => MemoryType.min_le_of_validate (forM_eq_ok_iff.mp hmemories t ht)
      globals := fun g hg =>
        Context.isConstant_of_checkConstant (forM_eq_ok_iff.mp hglobals g hg)
      elements := fun e he => Context.checkElement_eq_ok (forM_eq_ok_iff.mp helements e he)
      data := fun d hd => Context.checkData_eq_ok (forM_eq_ok_iff.mp hdata d hd)
      start := fun i hi => Context.checkStart_eq_ok (hi ▸ hstart)
      exports := hts
      exportNames := hnodup }⟩

end WebAssembly
