import WebAssembly.Proofs.Store.Evolution
import WebAssembly.Proofs.Typing.Rules

/-!
# Well-typed stores

What a store must be like for code of valid modules to run on it without misusing it: globals hold
values of their types, tables hold functions that exist, and the functions of modules are typed in a
context that the addresses of their module instance bear out. Types of instances never change, so
what has once been borne out stays so while the store grows (`ModuleInstance.Fits.extends`).
-/

namespace WebAssembly

/-! ## Types of operands

Operand stacks are lists with the topmost value first, and types are listed with the topmost last.
Relating the two once spares reversing them everywhere.
-/

/-- Values on a stack, the topmost one first, have types `ts`, of which the topmost one is last. -/
def HaveTypes (vs : List Value) (ts : List ValueType) : Prop :=
  vs.map Value.type = ts.reverse

/-- A stack of the given types is as high as the list of types is long. -/
theorem HaveTypes.length {vs : List Value} {ts : List ValueType} (h : HaveTypes vs ts) :
    vs.length = ts.length := by
  rw [← List.length_map Value.type, h, List.length_reverse]

theorem haveTypes_nil_iff {vs : List Value} : HaveTypes vs [] ↔ vs = [] := by
  simp [HaveTypes]

theorem HaveTypes.nil : HaveTypes [] [] :=
  rfl

/-- Values on top of others have the types of both. The types of the top come last, since a stack
type is written from the bottom up. -/
theorem HaveTypes.append {top rest : List Value} {ts ts' : List ValueType}
    (htop : HaveTypes top ts') (hrest : HaveTypes rest ts) :
    HaveTypes (top ++ rest) (ts ++ ts') := by
  unfold HaveTypes at *
  rw [List.map_append, htop, hrest, List.reverse_append]

/-- Operands come apart where their types do. -/
theorem haveTypes_append_iff {vs : List Value} {ts ts' : List ValueType} :
    HaveTypes vs (ts ++ ts') ↔
      ∃ top rest, vs = top ++ rest ∧ HaveTypes top ts' ∧ HaveTypes rest ts := by
  constructor
  · intro h
    unfold HaveTypes at h
    rw [List.reverse_append] at h
    obtain ⟨top, rest, rfl, htop, hrest⟩ := List.map_eq_append_iff.mp h
    exact ⟨top, rest, rfl, htop, hrest⟩
  · rintro ⟨top, rest, rfl, htop, hrest⟩
    exact htop.append hrest

theorem haveTypes_singleton_iff {vs : List Value} {t : ValueType} :
    HaveTypes vs [t] ↔ ∃ v, vs = [v] ∧ v.type = t := by
  simp [HaveTypes, List.map_eq_singleton_iff]

theorem HaveTypes.single (v : Value) : HaveTypes [v] [v.type] :=
  rfl

/-- The topmost operand has the last type. -/
theorem haveTypes_concat_iff {vs : List Value} {ts : List ValueType} {t : ValueType} :
    HaveTypes vs (ts ++ [t]) ↔ ∃ v rest, vs = v :: rest ∧ v.type = t ∧ HaveTypes rest ts := by
  rw [haveTypes_append_iff]
  constructor
  · rintro ⟨top, rest, rfl, htop, hrest⟩
    obtain ⟨v, rfl, hv⟩ := haveTypes_singleton_iff.mp htop
    exact ⟨v, rest, rfl, hv, hrest⟩
  · rintro ⟨v, rest, rfl, hv, hrest⟩
    exact ⟨[v], rest, rfl, haveTypes_singleton_iff.mpr ⟨v, rfl, hv⟩, hrest⟩

/-- The two operands of a binary instruction, the right one on top. -/
theorem haveTypes_pair_iff {vs : List Value} {t t' : ValueType} :
    HaveTypes vs [t, t'] ↔ ∃ v v', vs = [v', v] ∧ v.type = t ∧ v'.type = t' := by
  rw [show [t, t'] = [t] ++ [t'] from rfl, haveTypes_concat_iff]
  constructor
  · rintro ⟨v', rest, rfl, hv', hrest⟩
    obtain ⟨v, rfl, hv⟩ := haveTypes_singleton_iff.mp hrest
    exact ⟨v, v', rfl, hv, hv'⟩
  · rintro ⟨v, v', rfl, hv, hv'⟩
    exact ⟨v', [v], rfl, hv', haveTypes_singleton_iff.mpr ⟨v, rfl, hv⟩⟩

/-- Values listed first to last, as arguments and results are. -/
theorem haveTypes_reverse_iff {vs : List Value} {ts : List ValueType} :
    HaveTypes vs.reverse ts ↔ vs.map Value.type = ts := by
  unfold HaveTypes
  rw [List.map_reverse, List.reverse_inj]

/-! ## Entries that belong together

Index spaces and contexts are arrays of the same length, related entry by entry.
-/

/-- Two arrays are equally long, and entries at the same place are related. -/
structure Matches {α β : Type} (related : α → β → Prop) (xs : Array α) (ys : Array β) : Prop where
  size : xs.size = ys.size
  entry : ∀ (i : Nat) (x : α) (y : β), xs[i]? = some x → ys[i]? = some y → related x y

namespace Matches

variable {α β : Type} {related related' : α → β → Prop} {xs : Array α} {ys : Array β}

/-- Where a type is declared there is an instance of it. -/
theorem exists_of_getElem? (h : Matches related xs ys) {i : Nat} {y : β} (hy : ys[i]? = some y) :
    ∃ x, xs[i]? = some x ∧ related x y := by
  obtain ⟨hi, _⟩ := Array.getElem?_eq_some_iff.mp hy
  rw [← h.size] at hi
  have hx : xs[i]? = some xs[i] := Array.getElem?_eq_getElem hi
  exact ⟨xs[i], hx, h.entry i _ y hx hy⟩

/-- Behind an index that has a type there is something of that type. -/
theorem exists_atIndex (h : Matches related xs ys) (space : Space) {i : UInt32} {y : β}
    (hy : ys[i.toNat]? = some y) : ∃ x, atIndex xs space i = .ok x ∧ related x y := by
  obtain ⟨x, hx, hxy⟩ := h.exists_of_getElem? hy
  exact ⟨x, atIndex_eq_ok_iff.mpr hx, hxy⟩

theorem mono (h : Matches related xs ys) (himp : ∀ x y, related x y → related' x y) :
    Matches related' xs ys :=
  ⟨h.size, fun i x y hx hy => himp x y (h.entry i x y hx hy)⟩

/-- An entry may be replaced by another one of its declared type. -/
theorem set (h : Matches related xs ys) {i : Nat} {x : α} {y : β} (hy : ys[i]? = some y)
    (hxy : related x y) : Matches related (xs.setIfInBounds i x) ys where
  size := by
    rw [Array.size_setIfInBounds, h.size]
  entry := by
    intro j x' y' hx' hy'
    rw [Array.getElem?_setIfInBounds] at hx'
    split at hx'
    · next heq =>
        subst heq
        rw [hy] at hy'
        cases hy'
        split at hx'
        · cases hx'
          exact hxy
        · cases hx'
    · exact h.entry j x' y' hx' hy'

end Matches

theorem Matches.of_map_eq {vs : List Value} {ts : List ValueType} (h : vs.map Value.type = ts) :
    Matches (fun v t => v.type = t) vs.toArray ts.toArray where
  size := by
    rw [List.size_toArray, List.size_toArray, ← h, List.length_map]
  entry := by
    intro i v t hv ht
    rw [List.getElem?_toArray] at hv ht
    rw [← h, List.getElem?_map, hv] at ht
    exact Option.some.inj ht

/-! ## Instances that bear out a context

A module instance fits a context if behind each index there is an instance of the type the context
gives it.
-/

/-- The store has, at an address, an instance that can be used as something of the given type. Its
size, which may change, does not matter here. -/
def Store.Has (s : Store) : ExternVal → ExternType → Prop
  | .func addr, .func t => ∃ f, s.funcs[addr]? = some f ∧ f.type = t
  | .table addr, .table _ => ∃ t, s.tables[addr]? = some t
  | .memory addr, .memory _ => ∃ m, s.memories[addr]? = some m
  | .global addr, .global t => ∃ g, s.globals[addr]? = some g ∧ g.type = t
  | _, _ => False

/-- What a store has it still has, at the same type, after it has grown. -/
theorem Store.Has.extends {s s' : Store} {v : ExternVal} {t : ExternType} (h : s.Has v t)
    (hs : s.Extends s') : s'.Has v t := by
  cases v with
  | func addr =>
      cases t with
      | func t =>
          obtain ⟨f, hf, ht⟩ := h
          obtain ⟨f', hf', rfl⟩ := hs.funcs addr f hf
          exact ⟨f, hf', ht⟩
      | _ => exact h.elim
  | table addr =>
      cases t with
      | table t =>
          obtain ⟨table, htable⟩ := h
          obtain ⟨table', htable', _⟩ := hs.tables addr table htable
          exact ⟨table', htable'⟩
      | _ => exact h.elim
  | memory addr =>
      cases t with
      | memory t =>
          obtain ⟨m, hm⟩ := h
          obtain ⟨m', hm', _⟩ := hs.memories addr m hm
          exact ⟨m', hm'⟩
      | _ => exact h.elim
  | global addr =>
      cases t with
      | global t =>
          obtain ⟨g, hg, ht⟩ := h
          obtain ⟨g', hg', hevolves⟩ := hs.globals addr g hg
          exact ⟨g', hg', hevolves.type_eq.trans ht⟩
      | _ => exact h.elim

/-- An instance has the type that it has now. -/
theorem Store.has_of_externType {s : Store} {v : ExternVal} {t : ExternType}
    (h : s.externType v = .ok t) : s.Has v t := by
  cases v with
  | func addr =>
      obtain ⟨f, hf, rfl⟩ := map_atAddress_eq_ok_iff.mp h
      exact ⟨f, hf, rfl⟩
  | table addr =>
      obtain ⟨table, htable, rfl⟩ := map_atAddress_eq_ok_iff.mp h
      exact ⟨table, htable⟩
  | memory addr =>
      obtain ⟨memory, hmemory, rfl⟩ := map_atAddress_eq_ok_iff.mp h
      exact ⟨memory, hmemory⟩
  | global addr =>
      obtain ⟨g, hg, rfl⟩ := map_atAddress_eq_ok_iff.mp h
      exact ⟨g, hg, rfl⟩

/-- Behind each index that code in `ctx` can use, the module instance has the address of something
of the declared type. -/
structure ModuleInstance.Fits (inst : ModuleInstance) (s : Store) (ctx : Context) : Prop where
  types : inst.types = ctx.types
  funcs : Matches (fun addr t => s.Has (.func addr) (.func t)) inst.funcs ctx.funcs
  tables : Matches (fun addr t => s.Has (.table addr) (.table t)) inst.tables ctx.tables
  memories : Matches (fun addr t => s.Has (.memory addr) (.memory t)) inst.memories ctx.memories
  globals : Matches (fun addr t => s.Has (.global addr) (.global t)) inst.globals ctx.globals

/-- A module instance goes on fitting its context as the store grows. -/
theorem ModuleInstance.Fits.extends {inst : ModuleInstance} {s s' : Store} {ctx : Context}
    (h : inst.Fits s ctx) (hs : s.Extends s') : inst.Fits s' ctx where
  types := h.types
  funcs := h.funcs.mono fun _ _ hhas => hhas.extends hs
  tables := h.tables.mono fun _ _ hhas => hhas.extends hs
  memories := h.memories.mono fun _ _ hhas => hhas.extends hs
  globals := h.globals.mono fun _ _ hhas => hhas.extends hs

/-! ## Stores

The invariant of a store, and how it is kept. One lemma covers all changes; what it asks for is
about new entries only.
-/

/-- A function of a module: its code is the layout of a body that is typed in a context which the
instance of its module bears out. -/
def Store.Implements (s : Store) (type : FuncType) (module : Nat) (code : Code) : Prop :=
  ∃ (inst : ModuleInstance) (ctx : Context) (body : Expr),
    s.modules[module]? = some inst ∧ inst.Fits s ctx ∧
      code = Code.compile code.locals body ∧ ctx.BodyHasType type code.locals body

theorem Store.Implements.extends {s s' : Store} {type : FuncType} {module : Nat} {code : Code}
    (h : s.Implements type module code) (hs : s.Extends s') : s'.Implements type module code := by
  obtain ⟨inst, ctx, body, hinst, hfits, hcode, hbody⟩ := h
  obtain ⟨inst', hinst', rfl⟩ := hs.modules module inst hinst
  exact ⟨inst, ctx, body, hinst', hfits.extends hs, hcode, hbody⟩

/-- Every slot of a table is empty or holds a function of the store. -/
def Table.Within (t : Table) (s : Store) : Prop :=
  ∀ (i f : Nat), t.slots[i]? = some (some f) → f < s.funcs.size

theorem Table.within_ofType (t : TableType) (s : Store) : (Table.ofType t).Within s := by
  intro i f hslot
  obtain ⟨_, hempty⟩ := Array.getElem?_eq_some_iff.mp hslot
  simp [Table.ofType] at hempty

/-- A slot may be set to a function of the store without the table leaving the store. -/
theorem Table.Within.set {t t' : Table} {s : Store} {i : Nat} {f : Option Nat} (h : t.Within s)
    (hset : t.set? i f = .ok t') (hf : ∀ func, f = some func → func < s.funcs.size) :
    t'.Within s := by
  unfold Table.set? at hset
  split at hset
  · cases hset
    intro j func hslot
    have hslot : (t.slots.setIfInBounds i f)[j]? = some (some func) := hslot
    -- the slot that was written holds `f`, the others what they held
    rw [Array.getElem?_setIfInBounds] at hslot
    split at hslot
    · split at hslot
      · exact hf func (Option.some.inj hslot)
      · cases hslot
    · exact h j func hslot
  · cases hset

/-- The new slots of a grown table are empty, so it refers to no more functions than before. -/
theorem Table.Within.grow {t t' : Table} {s : Store} {delta : UInt32} {size : Nat}
    (h : t.Within s) (hgrow : t.grow? delta = .ok (size, t')) : t'.Within s := by
  unfold Table.grow? at hgrow
  split at hgrow
  · cases hgrow
    intro i func hslot
    have hslot : (t.slots ++ Array.replicate delta.toNat none)[i]? = some (some func) := hslot
    rw [Array.getElem?_append] at hslot
    split at hslot
    · exact h i func hslot
    · obtain ⟨_, hempty⟩ := Array.getElem?_eq_some_iff.mp hslot
      simp at hempty
  · cases hgrow

/-- Every global holds a value of its type. -/
def Store.GlobalsTyped (s : Store) : Prop :=
  ∀ (addr : Nat) (g : Global), s.globals[addr]? = some g → g.value.type = g.type.type

/-- A store on which valid code runs without misusing it. -/
structure Store.WellTyped (s : Store) : Prop where
  globals : ∀ (addr : Nat) (g : Global), s.globals[addr]? = some g → g.value.type = g.type.type
  tables : ∀ (addr : Nat) (t : Table), s.tables[addr]? = some t → t.Within s
  funcs : ∀ (addr : Nat) (type : FuncType) (module : Nat) (code : Code),
    s.funcs[addr]? = some (.defined type module code) → s.Implements type module code

theorem eq_of_getElem?_push {α : Type} {xs : Array α} {x y : α} {i : Nat}
    (h : (xs.push x)[i]? = some y) : xs[i]? = some y ∨ y = x := by
  rw [Array.getElem?_push] at h
  split at h
  · exact Or.inr (Option.some.inj h).symm
  · exact Or.inl h

namespace Store.WellTyped

variable {s s' : Store}

theorem empty : ({} : Store).WellTyped :=
  ⟨nofun, nofun, nofun⟩

/-- A store that grows stays well typed if what is new in it is. -/
theorem grow (h : s.WellTyped) (hs : s.Extends s')
    (hglobals : ∀ (addr : Nat) (g : Global), s'.globals[addr]? = some g →
      s.globals[addr]? = some g ∨ g.value.type = g.type.type)
    (htables : ∀ (addr : Nat) (t : Table), s'.tables[addr]? = some t →
      s.tables[addr]? = some t ∨ t.Within s')
    (hfuncs : ∀ (addr : Nat) (type : FuncType) (module : Nat) (code : Code),
      s'.funcs[addr]? = some (.defined type module code) →
        s.funcs[addr]? = some (.defined type module code) ∨ s'.Implements type module code) :
    s'.WellTyped where
  globals := by
    intro addr g hg
    rcases hglobals addr g hg with hold | hnew
    · exact h.globals addr g hold
    · exact hnew
  tables := by
    intro addr t ht
    rcases htables addr t ht with hold | hnew
    · -- an old table refers to old functions, and they are still there
      intro i f hslot
      have hf := h.tables addr t hold i f hslot
      obtain ⟨y, hy, _⟩ := hs.funcs f _ (Array.getElem?_eq_getElem hf)
      exact (Array.getElem?_eq_some_iff.mp hy).1
    · exact hnew
  funcs := by
    intro addr type module code hcode
    rcases hfuncs addr type module code hcode with hold | hnew
    · exact (h.funcs addr type module code hold).extends hs
    · exact hnew

/-- A host function carries no code, so it has nothing to be checked against. -/
theorem addHostFunc (h : s.WellTyped) (type : FuncType) (run : HostFunc) :
    (s.addFunc (.host type run)).2.WellTyped := by
  refine h.grow (extends_addFunc s _) (fun _ _ hg => Or.inl hg) (fun _ _ ht => Or.inl ht) ?_
  intro addr type' module code hcode
  refine (eq_of_getElem?_push hcode).imp_right fun heq => ?_
  cases heq

theorem addTable (h : s.WellTyped) {t : Table} (ht : t.Within s) : (s.addTable t).2.WellTyped := by
  refine h.grow (extends_addTable s t) (fun _ _ hg => Or.inl hg) ?_
    (fun _ _ _ _ hcode => Or.inl hcode)
  intro addr t' ht'
  refine (eq_of_getElem?_push ht').imp_right fun heq => ?_
  subst heq
  exact ht

theorem addMemory (h : s.WellTyped) (m : Memory) : (s.addMemory m).2.WellTyped :=
  h.grow (extends_addMemory s m) (fun _ _ hg => Or.inl hg) (fun _ _ ht => Or.inl ht)
    (fun _ _ _ _ hcode => Or.inl hcode)

/-- A global may be added if its value has the type it declares. -/
theorem addGlobal (h : s.WellTyped) {g : Global} (hg : g.value.type = g.type.type) :
    (s.addGlobal g).2.WellTyped := by
  refine h.grow (extends_addGlobal s g) ?_ (fun _ _ ht => Or.inl ht)
    (fun _ _ _ _ hcode => Or.inl hcode)
  intro addr g' hg'
  refine (eq_of_getElem?_push hg').imp_right fun heq => ?_
  subst heq
  exact hg

/-- Changing a table keeps a store well typed as long as the table holds functions of the store. -/
theorem modifyTable (h : s.WellTyped) {addr : Nat} {f : Table → Table}
    (hevolves : ∀ t : Table, s.tables[addr]? = some t → t.Evolves (f t))
    (hwithin : ∀ t : Table, s.tables[addr]? = some t → t.Within s → (f t).Within s) :
    (s.modifyTable addr f).WellTyped := by
  refine h.grow (extends_modifyTable hevolves) (fun _ _ hg => Or.inl hg) ?_
    (fun _ _ _ _ hcode => Or.inl hcode)
  intro addr' t' ht'
  have ht : (s.tables.modify addr f)[addr']? = some t' := ht'
  rw [Array.getElem?_modify] at ht
  split at ht
  · next heq =>
      subst heq
      obtain ⟨t, hold, rfl⟩ := Option.map_eq_some_iff.mp ht
      exact Or.inr (hwithin t hold (h.tables _ t hold))
  · exact Or.inl ht

/-- Running code keeps a store well typed. -/
theorem keeps (h : s.WellTyped) (hs : s.Keeps s') : s'.WellTyped := by
  refine h.grow hs.extends ?_ ?_ ?_
  · intro addr g' hg'
    obtain ⟨haddr, _⟩ := Array.getElem?_eq_some_iff.mp hg'
    rw [hs.globals_size] at haddr
    obtain ⟨g'', hg'', hevolves⟩ := hs.globals addr _ (Array.getElem?_eq_getElem haddr)
    rw [hg'] at hg''
    cases hg''
    -- an immutable global is as it was, a mutable one has a new value of its own type
    rcases hevolves with rfl | ⟨_, htype, hvalue⟩
    · exact Or.inl (Array.getElem?_eq_getElem haddr)
    · exact Or.inr (hvalue.trans (congrArg GlobalType.type htype.symm))
  · intro addr t ht
    rw [hs.tables] at ht
    exact Or.inl ht
  · intro addr type module code hcode
    rw [hs.funcs] at hcode
    exact Or.inl hcode

end Store.WellTyped

/-! ## Stores with known bodies

Flat code does not show the body that it was compiled from. Proofs about runs fix a choice of bodies
for all functions of a store.
-/

/-- A function of a module, whose code is the layout of this body. -/
def Store.ImplementsBy (s : Store) (type : FuncType) (module : Nat) (code : Code) (body : Expr) :
    Prop :=
  ∃ (inst : ModuleInstance) (ctx : Context), s.modules[module]? = some inst ∧ inst.Fits s ctx ∧
    code = Code.compile code.locals body ∧ ctx.BodyHasType type code.locals body

/-- A well-typed store, in which every function of a module has the body that belongs to its
address. -/
structure Store.TypedFrom (s : Store) (bodies : Nat → Expr) : Prop extends s.WellTyped where
  bodies : ∀ (addr : Nat) (type : FuncType) (module : Nat) (code : Code),
    s.funcs[addr]? = some (.defined type module code) →
      s.ImplementsBy type module code (bodies addr)

/-- The bodies stay those of the code through whatever execution may do. -/
theorem Store.TypedFrom.keeps {s s' : Store} {bodies : Nat → Expr} (h : s.TypedFrom bodies)
    (hs : s.Keeps s') : s'.TypedFrom bodies where
  toWellTyped := h.toWellTyped.keeps hs
  bodies := by
    intro addr type module code hcode
    rw [hs.funcs] at hcode
    obtain ⟨inst, ctx, hinst, hfits, hbody⟩ := h.bodies addr type module code hcode
    obtain ⟨inst', hinst', rfl⟩ := hs.extends.modules module inst hinst
    exact ⟨inst, ctx, hinst', hfits.extends hs.extends, hbody⟩

/-- The bodies the code of a well-typed store was made from can be chosen once, for all its
addresses together. -/
theorem Store.WellTyped.exists_typedFrom {s : Store} (h : s.WellTyped) :
    ∃ bodies, s.TypedFrom bodies := by
  -- an address has one function, so one body does for all that is found there
  have hbody : ∀ addr : Nat, ∃ body, ∀ (type : FuncType) (module : Nat) (code : Code),
      s.funcs[addr]? = some (.defined type module code) →
        s.ImplementsBy type module code body := by
    intro addr
    by_cases hcode : ∃ type module code, s.funcs[addr]? = some (.defined type module code)
    · obtain ⟨type, module, code, hcode⟩ := hcode
      obtain ⟨inst, ctx, body, hbody⟩ := h.funcs addr type module code hcode
      refine ⟨body, fun type' module' code' hcode' => ?_⟩
      rw [hcode] at hcode'
      cases hcode'
      exact ⟨inst, ctx, hbody⟩
    · exact ⟨[], fun type module code h => absurd ⟨type, module, code, h⟩ hcode⟩
  obtain ⟨bodies, hbodies⟩ := Classical.skolem.mp hbody
  exact ⟨bodies, h, hbodies⟩

end WebAssembly
