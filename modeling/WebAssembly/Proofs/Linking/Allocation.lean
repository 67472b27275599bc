import WebAssembly.Linking
import WebAssembly.Proofs.Machine.Operations
import WebAssembly.Proofs.Store.Typed
import WebAssembly.Proofs.Typing.Valid

/-!
# Allocation

What linking adds to a store. `Exec.allocate_eq` gives the store and the module instance that come
out, in closed form: the arenas are the old ones with the new instances behind them, and behind the
indices of the module are its imports and then the addresses that the new instances get. For a valid
module the result bears out the context that its code was checked in, and so the store stays well
typed.
-/

namespace WebAssembly

/-! ## Index spaces

A module instance holds an array of addresses for each kind of instance. Adding an external value
appends to one of them, so the order within a kind is that of adding.
-/

namespace ExternVal

/-- The address of a function. -/
def func? : ExternVal → Option Nat
  | .func a => some a
  | _ => none

/-- The address of a table. -/
def table? : ExternVal → Option Nat
  | .table a => some a
  | _ => none

/-- The address of a memory. -/
def memory? : ExternVal → Option Nat
  | .memory a => some a
  | _ => none

/-- The address of a global. -/
def global? : ExternVal → Option Nat
  | .global a => some a
  | _ => none

end ExternVal

namespace ModuleInstance

/-- The instance in which the indices of each kind stand for the addresses of that kind among
`vs`. -/
def ofExterns (types : List FuncType) (vs : List ExternVal) (exports : List (String × ExternVal)) :
    ModuleInstance where
  types := types.toArray
  funcs := (vs.filterMap ExternVal.func?).toArray
  tables := (vs.filterMap ExternVal.table?).toArray
  memories := (vs.filterMap ExternVal.memory?).toArray
  globals := (vs.filterMap ExternVal.global?).toArray
  exports := exports

variable (types : List FuncType) (vs : List ExternVal) (exports : List (String × ExternVal))

theorem add_ofExterns (v : ExternVal) :
    (ofExterns types vs exports).add v = ofExterns types (vs ++ [v]) exports := by
  cases v <;>
    simp [ofExterns, add, ExternVal.func?, ExternVal.table?, ExternVal.memory?, ExternVal.global?]

/-- Adding the imports one by one gives the instance of all of them. -/
theorem foldl_add_ofExterns (ws : List ExternVal) :
    ws.foldl add (ofExterns types vs exports) = ofExterns types (vs ++ ws) exports := by
  induction ws generalizing vs with
  | nil => rw [List.append_nil, List.foldl_nil]
  | cons w ws ih =>
      rw [List.foldl_cons, add_ofExterns, ih, List.append_assoc, List.singleton_append]

end ModuleInstance

theorem matches_toArray_of_forall₂ {α β : Type} {related : α → β → Prop} {xs : List α} {ys : List β}
    (h : List.Forall₂ related xs ys) : Matches related xs.toArray ys.toArray where
  size := h.length_eq
  entry := by
    intro i x y hx hy
    rw [List.getElem?_toArray] at hx hy
    obtain ⟨hi, rfl⟩ := List.getElem?_eq_some_iff.mp hx
    obtain ⟨hi', rfl⟩ := List.getElem?_eq_some_iff.mp hy
    exact h.get hi hi'

section Kinds

variable {s : Store} {related : ExternVal → ExternType → Prop}

/-- An instance has a type of its own kind. -/
theorem Store.Has.kinds : ∀ {v : ExternVal} {t : ExternType}, s.Has v t → related v t →
    Option.Rel (fun a t => related (.func a) (.func t)) v.func? t.func? ∧
      Option.Rel (fun a t => related (.table a) (.table t)) v.table? t.table? ∧
      Option.Rel (fun a t => related (.memory a) (.memory t)) v.memory? t.memory? ∧
      Option.Rel (fun a t => related (.global a) (.global t)) v.global? t.global?
  | .func _, .func _, _, h => ⟨.some h, .none, .none, .none⟩
  | .table _, .table _, _, h => ⟨.none, .some h, .none, .none⟩
  | .memory _, .memory _, _, h => ⟨.none, .none, .some h, .none⟩
  | .global _, .global _, _, h => ⟨.none, .none, .none, .some h⟩

/-- What relates instances to types they can be used at relates the instances of each kind to the
types of that kind. -/
theorem Store.forall₂_kinds (hhas : ∀ v t, related v t → s.Has v t) {vs : List ExternVal}
    {ts : List ExternType} (h : List.Forall₂ related vs ts) :
    List.Forall₂ (fun a t => related (.func a) (.func t))
        (vs.filterMap ExternVal.func?) (ts.filterMap ExternType.func?) ∧
      List.Forall₂ (fun a t => related (.table a) (.table t))
        (vs.filterMap ExternVal.table?) (ts.filterMap ExternType.table?) ∧
      List.Forall₂ (fun a t => related (.memory a) (.memory t))
        (vs.filterMap ExternVal.memory?) (ts.filterMap ExternType.memory?) ∧
      List.Forall₂ (fun a t => related (.global a) (.global t))
        (vs.filterMap ExternVal.global?) (ts.filterMap ExternType.global?) :=
  ⟨List.rel_filterMap (fun v t hvt => ((hhas v t hvt).kinds hvt).1) h,
    List.rel_filterMap (fun v t hvt => ((hhas v t hvt).kinds hvt).2.1) h,
    List.rel_filterMap (fun v t hvt => ((hhas v t hvt).kinds hvt).2.2.1) h,
    List.rel_filterMap (fun v t hvt => ((hhas v t hvt).kinds hvt).2.2.2) h⟩

end Kinds

/-- Instances of the types that a context lists bear it out. -/
theorem ModuleInstance.fits_ofExterns {s : Store} {vs : List ExternVal} {ts : List ExternType}
    (types : List FuncType) (exports : List (String × ExternVal)) (h : List.Forall₂ s.Has vs ts) :
    (ofExterns types vs exports).Fits s (.ofExterns types ts) where
  types := rfl
  funcs := matches_toArray_of_forall₂ (Store.forall₂_kinds (fun _ _ => id) h).1
  tables := matches_toArray_of_forall₂ (Store.forall₂_kinds (fun _ _ => id) h).2.1
  memories := matches_toArray_of_forall₂ (Store.forall₂_kinds (fun _ _ => id) h).2.2.1
  globals := matches_toArray_of_forall₂ (Store.forall₂_kinds (fun _ _ => id) h).2.2.2

/-! ## Constant expressions

One instruction, run on a stack of its own. Its value is known from the imports before anything is
added to the store.
-/

/-- The value of a constant expression in a scope where `vs` is behind the indices. -/
def Store.constantValue (s : Store) (vs : List ExternVal) : Expr → Option Value
  | [.plain (.const v)] => some v
  | [.plain (.globalGet i)] => do
    let addr ← (vs.filterMap ExternVal.global?)[i.toNat]?
    let g ← s.globals[addr]?
    return g.value
  | _ => none

/-- The fault of a constant that is not of type `t`. -/
def constantFault (t : ValueType) : Option Value → Option RuntimeError
  | some v => if v.type = t then none else some (.typeMismatch t v.type)
  | none => none

namespace Exec

variable {s : Store} {stack : Stack Value} {inst : ModuleInstance} {vs : List ExternVal}

/-- A constant expression of one instruction gives what the instruction pushes, if it is of the type
asked for. -/
theorem constant_of_push {op : Plain} {v : Value} {frame : Frame}
    (hop : plain ⟨inst, #[]⟩ op ⟨s, .empty⟩ = .ok frame ⟨s, .ofList [v]⟩) (t : ValueType) :
    isolated (constant inst [.plain op] t) ⟨s, stack⟩ =
      if v.type = t then .ok v ⟨s, stack⟩ else .error (.typeMismatch t v.type) ⟨s, stack⟩ := by
  have hseq : plainSequence ⟨inst, #[]⟩ [.plain op] ⟨s, .empty⟩ = .ok () ⟨s, .ofList [v]⟩ :=
    bind_of_ok hop
  have hpop : onStack OnStack.pop ⟨s, .ofList [v]⟩ = .ok v ⟨s, .ofList []⟩ := rfl
  have hconstant : constant inst [.plain op] t ⟨s, .empty⟩ =
      (if v.type = t then pure v else throw (.typeMismatch t v.type) : Exec Value)
        ⟨s, .ofList []⟩ :=
    (bind_of_ok hseq).trans (bind_of_ok hpop)
  by_cases ht : v.type = t
  · rw [if_pos ht] at hconstant ⊢
    exact isolated_of_ok hconstant stack
  · rw [if_neg ht] at hconstant ⊢
    exact isolated_of_error hconstant stack

/-- A constant expression evaluates to its value, which must have the type asked for, and changes
nothing. -/
theorem constant_outcome {e : Expr} {v : Value}
    (hglobals : inst.globals = (vs.filterMap ExternVal.global?).toArray)
    (h : s.constantValue vs e = some v) (t : ValueType) :
    isolated (constant inst e t) ⟨s, stack⟩ =
      if v.type = t then .ok v ⟨s, stack⟩ else .error (.typeMismatch t v.type) ⟨s, stack⟩ := by
  unfold Store.constantValue at h
  split at h
  · cases h
    exact constant_of_push rfl t
  · next i =>
      obtain ⟨addr, haddr, h⟩ := Option.bind_eq_some_iff.mp h
      obtain ⟨g, hg, h⟩ := Option.bind_eq_some_iff.mp h
      cases h
      -- an index of a constant names an imported global, found at the same place among the imports
      have hindex : inst.global i = .ok addr := by
        refine atIndex_eq_ok_iff.mpr ?_
        rw [hglobals, List.getElem?_toArray, haddr]
      have hget : globalGet ⟨inst, #[]⟩ i ⟨s, .empty⟩ = .ok () ⟨s, .ofList [g.value]⟩ :=
        (bind_of_ok (ofExcept_of_ok hindex _)).trans
          (bind_of_ok (ask_of_ok (atAddress_eq_ok_iff.mpr hg)))
      exact constant_of_push (bind_of_ok hget) t
  · cases h

theorem constant_eq {e : Expr} {t : ValueType} {v : Value}
    (hglobals : inst.globals = (vs.filterMap ExternVal.global?).toArray)
    (h : s.constantValue vs e = some v) (ht : v.type = t) :
    isolated (constant inst e t) ⟨s, stack⟩ = .ok v ⟨s, stack⟩ :=
  (constant_outcome hglobals h t).trans (if_pos ht)

end Exec

/-! ## Adding instances of one kind

By induction on the declarations: each gets the next free address, and the index space grows by it.
-/

/-- New instances of each kind. -/
structure Additions where
  funcs : List FuncInstance
  tables : List Table
  memories : List Memory
  globals : List Global

/-- The addresses that new instances get in a store. -/
def Additions.addresses (a : Additions) (s : Store) : List ExternVal :=
  (List.range' s.funcs.size a.funcs.length).map .func ++
    (List.range' s.tables.size a.tables.length).map .table ++
    (List.range' s.memories.size a.memories.length).map .memory ++
    (List.range' s.globals.size a.globals.length).map .global

/-- The store with new instances behind those that it has, and the instance of their module. -/
def Store.plus (s : Store) (a : Additions) (inst : ModuleInstance) : Store :=
  { s with
    funcs := s.funcs ++ a.funcs
    tables := s.tables ++ a.tables
    memories := s.memories ++ a.memories
    globals := s.globals ++ a.globals
    modules := s.modules.push inst }

/-- A table as it was declared: so many slots, all of them empty, and the bound. -/
structure Table.AsDeclared (table : Table) (t : TableType) : Prop where
  slots : table.slots = Array.replicate t.limits.min.toNat none
  max : table.max = t.limits.max

/-- A memory as it was declared: so many pages of 65536 bytes, all of them zero, and the bound. No
memory starts with more than 65536 pages. -/
structure Memory.AsDeclared (memory : Memory) (t : MemoryType) : Prop where
  bytes : memory.bytes = Array.replicate (t.limits.min.toNat * 65536) 0
  max : memory.max = t.limits.max
  pages : t.limits.min.toNat ≤ 65536

/-- The instances that a module adds to `s` when it is linked to `imports`. -/
structure Module.Makes (m : Module) (s : Store) (imports : List ExternVal) (a : Additions) :
    Prop where
  funcs : List.Forall₂ (fun (f : Func) inst => ∃ t, m.types.toArray[f.type.toNat]? = some t ∧
    inst = .defined t s.modules.size (Code.compile f.locals f.body)) m.funcs a.funcs
  tables : List.Forall₂ (fun t table => Table.AsDeclared table t) m.tables a.tables
  memories : List.Forall₂ (fun t memory => Memory.AsDeclared memory t) m.memories a.memories
  globals : List.Forall₂ (fun (d : GlobalDef) g => g.type = d.type ∧ g.value.type = d.type.type ∧
    s.constantValue imports d.init = some g.value) m.globals a.globals

/-- The instance of a module: its imports come before its own instances. -/
def Module.instanceWith (m : Module) (s : Store) (imports : List ExternVal) (a : Additions)
    (exports : List (String × ExternVal)) : ModuleInstance :=
  .ofExterns m.types (imports ++ a.addresses s) exports

/-- The store after a module has been allocated. -/
def Module.storeWith (m : Module) (s : Store) (imports : List ExternVal) (a : Additions)
    (exports : List (String × ExternVal)) : Store :=
  s.plus a (m.instanceWith s imports a exports)

/-- What the exports of a module stand for in an instance of it. -/
def ModuleInstance.Offers (inst : ModuleInstance) (exports : List Export)
    (resolved : List (String × ExternVal)) : Prop :=
  List.Forall₂ (fun (e : Export) (r : String × ExternVal) =>
    r.1 = e.name ∧ inst.resolve e.desc = .ok r.2) exports resolved

/-- A table as declared is the one that is made: so many empty slots. -/
theorem Table.asDeclared_iff {table : Table} {t : TableType} :
    table.AsDeclared t ↔ table = Table.ofType t := by
  constructor
  · rintro ⟨hslots, hmax⟩
    rw [Table.ofType, ← hslots, ← hmax]
  · rintro rfl
    exact ⟨rfl, rfl⟩

/-- A memory as declared is the one that is made: so many pages of zeros, within the limit on
pages. -/
theorem Memory.asDeclared_iff {memory : Memory} {t : MemoryType} :
    memory.AsDeclared t ↔ Memory.ofType t = .ok memory := by
  constructor
  · rintro ⟨hbytes, hmax, hpages⟩
    have hfits : ¬ maxPages < t.limits.min.toNat := Nat.not_lt.mpr hpages
    have hzeros : Array.replicate (t.limits.min.toNat * pageSize) 0 = memory.bytes := hbytes.symm
    rw [Memory.ofType, if_neg hfits, hzeros, ← hmax]
  · intro h
    unfold Memory.ofType at h
    split at h
    · cases h
    · next hpages =>
        cases h
        exact ⟨rfl, rfl, Nat.le_of_not_lt hpages⟩

theorem Module.Makes.tables_ofType {m : Module} {s : Store} {imports : List ExternVal}
    {a : Additions} (h : m.Makes s imports a) :
    List.Forall₂ (fun t table => table = Table.ofType t) m.tables a.tables :=
  h.tables.imp fun _ _ => Table.asDeclared_iff.mp

theorem Module.Makes.memories_ofType {m : Module} {s : Store} {imports : List ExternVal}
    {a : Additions} (h : m.Makes s imports a) :
    List.Forall₂ (fun t memory => Memory.ofType t = .ok memory) m.memories a.memories :=
  h.memories.imp fun _ _ => Memory.asDeclared_iff.mp

theorem Module.Makes.type_value {m : Module} {s : Store} {imports : List ExternVal} {a : Additions}
    (h : m.Makes s imports a) {g : Global} (hg : g ∈ a.globals) : g.value.type = g.type.type := by
  obtain ⟨d, _, htype, hvalue, _⟩ := exists_of_mem_right h.globals hg
  rw [hvalue, htype]

namespace Exec

variable {α β : Type} {types : List FuncType} {vs : List ExternVal}
variable {exports : List (String × ExternVal)} {s : Store} {stack : Stack Value}

/-- Adding instances one after the other to an arena: each one gets the next address. -/
theorem foldlM_add {step : ModuleInstance → α → Exec ModuleInstance} {related : α → β → Prop}
    (kind : Nat → ExternVal) (size : Store → Nat) (put : Store → List β → Store)
    (hnil : ∀ s, put s [] = s) (hcons : ∀ s y ys, put (put s [y]) ys = put s (y :: ys))
    (hsize : ∀ s y, size (put s [y]) = size s + 1)
    (hstep : ∀ x y, related x y → ∀ vs s, step (.ofExterns types vs exports) x ⟨s, stack⟩ =
      .ok ((ModuleInstance.ofExterns types vs exports).add (kind (size s))) ⟨put s [y], stack⟩)
    {xs : List α} {ys : List β} (h : List.Forall₂ related xs ys) :
    xs.foldlM step (.ofExterns types vs exports) ⟨s, stack⟩ =
      .ok (.ofExterns types (vs ++ (List.range' (size s) ys.length).map kind) exports)
        ⟨put s ys, stack⟩ := by
  -- each addition makes a new store and a new scope, so the induction is over all of them
  induction h generalizing vs s with
  | nil =>
      rw [hnil, List.length_nil, List.range'_zero, List.map_nil, List.append_nil]
      rfl
  | cons hx _ ih =>
      rw [List.foldlM_cons, bind_of_ok (hstep _ _ hx vs s), ModuleInstance.add_ofExterns, ih, hsize,
        hcons, List.length_cons, List.range'_succ, List.map_cons, List.append_assoc,
        List.singleton_append]

/-- The functions of a module are compiled and added in order, at the next addresses. -/
theorem addFuncs_eq {moduleAddr : Nat} {funcs : List Func} {fs : List FuncInstance}
    (h : List.Forall₂ (fun (f : Func) inst => ∃ t, types.toArray[f.type.toNat]? = some t ∧
      inst = .defined t moduleAddr (Code.compile f.locals f.body)) funcs fs) :
    addFuncs moduleAddr (.ofExterns types vs exports) funcs ⟨s, stack⟩ =
      .ok (.ofExterns types (vs ++ (List.range' s.funcs.size fs.length).map .func) exports)
        ⟨{ s with funcs := s.funcs ++ fs }, stack⟩ := by
  refine foldlM_add .func (·.funcs.size) (fun s fs => { s with funcs := s.funcs ++ fs })
    (by simp) (by simp) (by simp) ?_ h
  rintro f _ ⟨t, ht, rfl⟩ vs s
  have htype : (ModuleInstance.ofExterns types vs exports).type f.type = .ok t :=
    atIndex_eq_ok_iff.mpr ht
  exact bind_of_ok (ofExcept_of_ok htype _)

theorem addTables_eq {tables : List TableType} {ts : List Table}
    (h : List.Forall₂ (fun t table => table = Table.ofType t) tables ts) :
    addTables (.ofExterns types vs exports) tables ⟨s, stack⟩ =
      .ok (.ofExterns types (vs ++ (List.range' s.tables.size ts.length).map .table) exports)
        ⟨{ s with tables := s.tables ++ ts }, stack⟩ := by
  refine foldlM_add .table (·.tables.size) (fun s ts => { s with tables := s.tables ++ ts })
    (by simp) (by simp) (by simp) ?_ h
  rintro t _ rfl vs s
  rfl

theorem addMemories_eq {memories : List MemoryType} {ms : List Memory}
    (h : List.Forall₂ (fun t memory => Memory.ofType t = .ok memory) memories ms) :
    addMemories (.ofExterns types vs exports) memories ⟨s, stack⟩ =
      .ok (.ofExterns types (vs ++ (List.range' s.memories.size ms.length).map .memory) exports)
        ⟨{ s with memories := s.memories ++ ms }, stack⟩ := by
  refine foldlM_add .memory (·.memories.size) (fun s ms => { s with memories := s.memories ++ ms })
    (by simp) (by simp) (by simp) ?_ h
  intro t memory ht vs s
  exact bind_of_ok (ofExcept_of_ok ht _)

/-- The globals are added in order, each with the value computed for it. -/
theorem addGlobals_eq {globals : List (GlobalType × Value)} {gs : List Global}
    (h : List.Forall₂ (fun (p : GlobalType × Value) g => g.type = p.1 ∧ g.value = p.2 ∧
      p.2.type = p.1.type) globals gs) :
    addGlobals (.ofExterns types vs exports) globals ⟨s, stack⟩ =
      .ok (.ofExterns types (vs ++ (List.range' s.globals.size gs.length).map .global) exports)
        ⟨{ s with globals := s.globals ++ gs }, stack⟩ := by
  refine foldlM_add .global (·.globals.size) (fun s gs => { s with globals := s.globals ++ gs })
    (by simp) (by simp) (by simp) ?_ h
  rintro ⟨t, v⟩ ⟨_, _⟩ ⟨rfl, rfl, htype⟩ vs s
  exact bind_of_ok (ofExcept_of_ok (if_pos htype) _)

/-! ## Adding all instances

The four kinds one after the other, and then the module instance. None of the steps can fail for a
module that has been validated and whose globals have their values.
-/

/-- Initial values are computed before anything is added, from the imports alone. -/
theorem globalValues_eq {m : Module} {imports : List ExternVal} {a : Additions}
    (h : m.Makes s imports a) :
    globalValues m (.ofExterns m.types imports exports) ⟨s, stack⟩ =
      .ok (a.globals.map fun g => (g.type, g.value)) ⟨s, stack⟩ := by
  refine mapM_of_ok (List.forall₂_map_right_iff.mpr (h.globals.imp ?_))
  rintro d g ⟨htype, hvalue, hconstant⟩
  rw [htype]
  exact bind_of_ok (constant_eq rfl hconstant hvalue)

/-- Exports are resolved once everything they can name is there. -/
theorem resolveExports_eq {inst : ModuleInstance} {exports : List Export}
    {resolved : List (String × ExternVal)} (h : inst.Offers exports resolved) (m : Machine) :
    resolveExports inst exports m = .ok { inst with exports := resolved } m := by
  refine bind_of_ok (mapM_of_ok (h.imp ?_))
  rintro e ⟨_, v⟩ ⟨rfl, hv⟩
  exact bind_of_ok (ofExcept_of_ok hv _)

/-- Allocation adds the instances of a module and the instance of the module itself. -/
theorem allocate_eq {m : Module} {imports : List ExternVal} {a : Additions} (stack : Stack Value)
    (h : m.Makes s imports a)
    (hexports : (m.instanceWith s imports a []).Offers m.exports exports) :
    allocate m imports ⟨s, stack⟩ =
      .ok (s.modules.size, m.instanceWith s imports a exports)
        ⟨m.storeWith s imports a exports, stack⟩ := by
  have himports : imports.foldl ModuleInstance.add { types := m.types.toArray } =
      .ofExterns m.types imports [] :=
    ModuleInstance.foldl_add_ofExterns m.types [] [] imports
  have hsize : ask (fun s => .ok s.modules.size) ⟨s, stack⟩ = .ok s.modules.size ⟨s, stack⟩ := rfl
  have hglobals : List.Forall₂ (fun (p : GlobalType × Value) g => g.type = p.1 ∧ g.value = p.2 ∧
      p.2.type = p.1.type) (a.globals.map fun g => (g.type, g.value)) a.globals :=
    List.forall₂_map_left_iff.mpr
      (List.forall₂_same.mpr fun g hg => ⟨rfl, rfl, h.type_value hg⟩)
  -- the scope grows kind by kind, in the order of the addresses
  have hscope : imports ++ (List.range' s.funcs.size a.funcs.length).map ExternVal.func ++
      (List.range' s.tables.size a.tables.length).map ExternVal.table ++
      (List.range' s.memories.size a.memories.length).map ExternVal.memory ++
      (List.range' s.globals.size a.globals.length).map ExternVal.global =
      imports ++ a.addresses s := by
    simp only [Additions.addresses, List.append_assoc]
  unfold allocate
  rw [himports, bind_of_ok (globalValues_eq h), bind_of_ok hsize,
    bind_of_ok (addFuncs_eq h.funcs), bind_of_ok (addTables_eq h.tables_ofType),
    bind_of_ok (addMemories_eq h.memories_ofType), bind_of_ok (addGlobals_eq hglobals), hscope]
  exact bind_of_ok (resolveExports_eq hexports _)

end Exec

end WebAssembly
