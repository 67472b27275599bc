import WebAssembly.Store.Basic

/-!
# How a store changes

Two preorders on stores. `Store.Extends` is what any history does: instances are added, and those
that are there stay at their address with their type, while sizes only grow. `Store.Keeps` is what
running code does, which is much less: nothing is added, functions, tables and module instances are
left alone, memories keep or gain pages and change their bytes, and mutable globals are assigned
values of their type.
-/

namespace WebAssembly

/-! ## Single instances

What an instance may become: a table and a memory keep their maximum and do not shrink, an immutable
global does not change.
-/

/-- A table after some time: its bound is fixed, it has not shrunk, and if it has grown it keeps to
its bound. -/
structure Table.Evolves (t t' : Table) : Prop where
  max : t'.max = t.max
  size : t.size ≤ t'.size
  room : t'.size = t.size ∨ t'.size ≤ t.capacity

/-- A memory after some time: its bound is fixed, it has not shrunk, and if it has grown it keeps to
its bound. -/
structure Memory.Evolves (m m' : Memory) : Prop where
  max : m'.max = m.max
  size : m.size ≤ m'.size
  room : m'.size = m.size ∨ m'.pages ≤ m.capacity

/-- A global after some time: it is as it was, or it is mutable and has been assigned a value of its
type. -/
def Global.Evolves (g g' : Global) : Prop :=
  g' = g ∨ (g.type.mutable = true ∧ g'.type = g.type ∧ g'.value.type = g.type.type)

theorem Table.Evolves.refl (t : Table) : t.Evolves t :=
  ⟨rfl, Nat.le_refl _, Or.inl rfl⟩

/-- The bound of a table is fixed when it is made. -/
theorem Table.Evolves.capacity_eq {t t' : Table} (h : t.Evolves t') : t'.capacity = t.capacity := by
  rw [Table.capacity, Table.capacity, h.max]

/-- What becomes of a table over several steps. A step that has grown it keeps to the bound, which
is the same one all along. -/
theorem Table.Evolves.trans {t t' t'' : Table} (h : t.Evolves t') (h' : t'.Evolves t'') :
    t.Evolves t'' where
  max := h'.max.trans h.max
  size := Nat.le_trans h.size h'.size
  room := by
    rcases h'.room with heq | hroom
    · rw [heq]
      exact h.room
    · rw [h.capacity_eq] at hroom
      exact Or.inr hroom

theorem Memory.Evolves.refl (m : Memory) : m.Evolves m :=
  ⟨rfl, Nat.le_refl _, Or.inl rfl⟩

/-- The bound of a memory is fixed when it is made. -/
theorem Memory.Evolves.capacity_eq {m m' : Memory} (h : m.Evolves m') :
    m'.capacity = m.capacity := by
  rw [Memory.capacity, Memory.capacity, h.max]

/-- What becomes of a memory over several steps. -/
theorem Memory.Evolves.trans {m m' m'' : Memory} (h : m.Evolves m') (h' : m'.Evolves m'') :
    m.Evolves m'' where
  max := h'.max.trans h.max
  size := Nat.le_trans h.size h'.size
  room := by
    rcases h'.room with heq | hroom
    · rw [Memory.pages, heq]
      exact h.room
    · rw [h.capacity_eq] at hroom
      exact Or.inr hroom

theorem Global.Evolves.refl (g : Global) : g.Evolves g :=
  Or.inl rfl

/-- A global keeps its type, and with it whether it can be assigned. -/
theorem Global.Evolves.type_eq {g g' : Global} (h : g.Evolves g') : g'.type = g.type := by
  rcases h with rfl | ⟨_, htype, _⟩
  · rfl
  · exact htype

/-- What becomes of a global over several steps. One that cannot be assigned stays the same through
all of them. -/
theorem Global.Evolves.trans {g g' g'' : Global} (h : g.Evolves g') (h' : g'.Evolves g'') :
    g.Evolves g'' := by
  rcases h' with rfl | ⟨hmutable, htype, hvalue⟩
  · exact h
  · rw [h.type_eq] at hmutable htype hvalue
    exact Or.inr ⟨hmutable, htype, hvalue⟩

/-- Assigning succeeds only in ways a global may evolve. -/
theorem Global.evolves_of_set {g g' : Global} {v : Value} (h : g.set? v = .ok g') :
    g.Evolves g' := by
  unfold Global.set? at h
  split at h
  · next hmutable =>
      split at h
      · next htype =>
          cases h
          exact Or.inr ⟨hmutable, rfl, htype⟩
      · cases h
  · cases h

/-- A global is made only with a value of its type. -/
theorem Global.type_value_of_ofValue {t : GlobalType} {v : Value} {g : Global}
    (h : Global.ofValue t v = .ok g) : g.value.type = g.type.type := by
  unfold Global.ofValue at h
  split at h
  · next htype =>
      cases h
      exact htype
  · cases h

/-- Overwriting entries changes no size, also where there is not enough room for all of them. -/
theorem size_overwrite {α : Type} (xs : Array α) (start : Nat) (as : List α) :
    (overwrite xs start as).size = xs.size := by
  induction as generalizing xs start with
  | nil => rfl
  | cons a as ih => rw [overwrite, ih, Array.size_setIfInBounds]

/-- A memory that has only been written to. -/
theorem Memory.evolves_of_size_eq {m m' : Memory} (hmax : m'.max = m.max)
    (hsize : m'.size = m.size) : m.Evolves m' :=
  ⟨hmax, Nat.le_of_eq hsize.symm, Or.inl hsize⟩

/-- A table that has only been written to. -/
theorem Table.evolves_of_size_eq {t t' : Table} (hmax : t'.max = t.max)
    (hsize : t'.size = t.size) : t.Evolves t' :=
  ⟨hmax, Nat.le_of_eq hsize.symm, Or.inl hsize⟩

/-- Writing changes bytes and no more. -/
theorem Memory.evolves_write (m : Memory) (start : Nat) (bs : List UInt8) :
    m.Evolves (m.write start bs) :=
  evolves_of_size_eq rfl (size_overwrite m.bytes start bs)

/-- Growing adds whole pages. -/
theorem Memory.size_grow (m : Memory) (delta : UInt32) :
    (m.grow delta).size = m.size + delta.toNat * pageSize := by
  show (m.bytes ++ Array.replicate (delta.toNat * pageSize) 0).size = _
  rw [Array.size_append, Array.size_replicate]
  rfl

/-- Growing adds as many pages as asked for. The number of pages is rounded down, which does not
matter for a difference. -/
theorem Memory.pages_grow (m : Memory) (delta : UInt32) :
    (m.grow delta).pages = m.pages + delta.toNat := by
  rw [Memory.pages, Memory.size_grow, Nat.add_mul_div_right _ _ (by decide)]
  rfl

/-- Where there is room, growing keeps to the bound. -/
theorem Memory.evolves_grow {m : Memory} {delta : UInt32} (h : m.canGrow delta = true) :
    m.Evolves (m.grow delta) where
  max := rfl
  size := by
    rw [m.size_grow]
    exact Nat.le_add_right _ _
  room := by
    rw [m.pages_grow]
    exact Or.inr (of_decide_eq_true h)

theorem Table.evolves_write (t : Table) (start : Nat) (funcs : List Nat) :
    t.Evolves (t.write start funcs) :=
  evolves_of_size_eq rfl (size_overwrite t.slots start (funcs.map some))

/-- A slot that is set leaves size and bound alone. -/
theorem Table.evolves_of_set {t t' : Table} {i : Nat} {f : Option Nat} (h : t.set? i f = .ok t') :
    t.Evolves t' := by
  unfold Table.set? at h
  split at h
  · cases h
    exact evolves_of_size_eq rfl Array.size_setIfInBounds
  · cases h

/-- A table that can be grown stays within its bound. -/
theorem Table.evolves_of_grow {t t' : Table} {delta : UInt32} {size : Nat}
    (h : t.grow? delta = .ok (size, t')) : t.Evolves t' := by
  unfold Table.grow? at h
  split at h
  · next hroom =>
      cases h
      have hsize : Table.size ⟨t.slots ++ Array.replicate delta.toNat none, t.max⟩ =
          t.size + delta.toNat := by
        rw [Table.size, Array.size_append, Array.size_replicate]
        rfl
      exact ⟨rfl, hsize ▸ Nat.le_add_right _ _, Or.inr (hsize ▸ hroom)⟩
  · cases h

/-- Functions that are written into a table leave size and bound alone. -/
theorem Table.evolves_of_write {t t' : Table} {start : Nat} {funcs : List Nat}
    (h : t.write? start funcs = .ok t') : t.Evolves t' := by
  unfold Table.write? at h
  split at h
  · cases h
    exact t.evolves_write start funcs
  · cases h

/-- Bytes that are written into a memory leave size and bound alone. -/
theorem Memory.evolves_of_write {m m' : Memory} {start : Nat} {bs : List UInt8}
    (h : m.write? start bs = .ok m') : m.Evolves m' := by
  unfold Memory.write? at h
  split at h
  · cases h
    exact m.evolves_write start bs
  · cases h

/-- A memory that can be grown stays within its bound. -/
theorem Memory.evolves_of_grow {m m' : Memory} {delta : UInt32} {pages : Nat}
    (h : m.grow? delta = .ok (pages, m')) : m.Evolves m' := by
  unfold Memory.grow? at h
  split at h
  · next hroom =>
      cases h
      exact evolves_grow hroom
  · cases h

/-! ## Arenas

The instances of one kind, by address. Entries last in the sense of a relation between what was
there and what is there now.
-/

/-- What `related` relates each entry of an arena to stands at the same place in another. -/
def Lasts {α : Type} (related : α → α → Prop) (xs ys : Array α) : Prop :=
  ∀ (i : Nat) (x : α), xs[i]? = some x → ∃ y, ys[i]? = some y ∧ related x y

theorem Lasts.refl {α : Type} {related : α → α → Prop} (h : ∀ x, related x x) (xs : Array α) :
    Lasts related xs xs :=
  fun _ x hx => ⟨x, hx, h x⟩

/-- What lasts through two changes has come by both of them. -/
theorem Lasts.trans {α : Type} {related : α → α → Prop} {xs ys zs : Array α}
    (hxy : Lasts related xs ys) (hyz : Lasts related ys zs)
    (h : ∀ x y z, related x y → related y z → related x z) : Lasts related xs zs := by
  intro i x hx
  obtain ⟨y, hy, hxy⟩ := hxy i x hx
  obtain ⟨z, hz, hyz⟩ := hyz i y hy
  exact ⟨z, hz, h x y z hxy hyz⟩

/-- A new entry behind all others leaves these where they are. -/
theorem Lasts.push {α : Type} {related : α → α → Prop} (h : ∀ x, related x x) (xs : Array α)
    (a : α) : Lasts related xs (xs.push a) := by
  intro i x hx
  obtain ⟨hi, _⟩ := Array.getElem?_eq_some_iff.mp hx
  refine ⟨x, ?_, h x⟩
  rw [Array.getElem?_push_lt hi, ← hx, Array.getElem?_eq_getElem hi]

/-- Entries keep their positions if others are put behind them. -/
theorem getElem?_appendList_left {α : Type} {xs : Array α} {i : Nat} {x : α} (h : xs[i]? = some x)
    (ys : List α) : (xs ++ ys)[i]? = some x := by
  obtain ⟨hi, _⟩ := Array.getElem?_eq_some_iff.mp h
  rw [← Array.getElem?_toList, Array.toList_appendList, List.getElem?_append_left hi,
    Array.getElem?_toList, h]

/-- Several new entries behind all others leave these where they are. -/
theorem Lasts.append {α : Type} {related : α → α → Prop} (h : ∀ x, related x x) (xs : Array α)
    (ys : List α) : Lasts related xs (xs ++ ys) :=
  fun _ x hx => ⟨x, getElem?_appendList_left hx ys, h x⟩

/-- A change of one entry has to be allowed for this entry only. -/
theorem Lasts.modify {α : Type} {related : α → α → Prop} (h : ∀ x, related x x) {xs : Array α}
    {addr : Nat} {f : α → α} (hf : ∀ x, xs[addr]? = some x → related x (f x)) :
    Lasts related xs (xs.modify addr f) := by
  intro i x hx
  rw [Array.getElem?_modify, hx]
  split
  · next heq => exact ⟨f x, rfl, hf x (heq ▸ hx)⟩
  · exact ⟨x, rfl, h x⟩

/-! ## Stores

The two preorders, made of their arenas. Each is reflexive and transitive, so that steps can be
added up.
-/

namespace Store

/-- Everything that is in `s` is still there in `s'`, with its type. -/
structure Extends (s s' : Store) : Prop where
  funcs : Lasts Eq s.funcs s'.funcs
  tables : Lasts Table.Evolves s.tables s'.tables
  memories : Lasts Memory.Evolves s.memories s'.memories
  globals : Lasts Global.Evolves s.globals s'.globals
  modules : Lasts Eq s.modules s'.modules

/-- What code that runs can make of `s`. -/
structure Keeps (s s' : Store) : Prop where
  funcs : s'.funcs = s.funcs
  tables : s'.tables = s.tables
  memories : Lasts Memory.Evolves s.memories s'.memories
  memories_size : s'.memories.size = s.memories.size
  globals : Lasts Global.Evolves s.globals s'.globals
  globals_size : s'.globals.size = s.globals.size
  modules : s'.modules = s.modules
  hostCalls : s.hostCalls <:+ s'.hostCalls

theorem Extends.refl (s : Store) : s.Extends s where
  funcs := .refl (fun _ => rfl) _
  tables := .refl Table.Evolves.refl _
  memories := .refl Memory.Evolves.refl _
  globals := .refl Global.Evolves.refl _
  modules := .refl (fun _ => rfl) _

/-- A store that extends an extension of another one extends that one. -/
theorem Extends.trans {s s' s'' : Store} (h : s.Extends s') (h' : s'.Extends s'') :
    s.Extends s'' where
  funcs := h.funcs.trans h'.funcs fun _ _ _ => Eq.trans
  tables := h.tables.trans h'.tables fun _ _ _ => Table.Evolves.trans
  memories := h.memories.trans h'.memories fun _ _ _ => Memory.Evolves.trans
  globals := h.globals.trans h'.globals fun _ _ _ => Global.Evolves.trans
  modules := h.modules.trans h'.modules fun _ _ _ => Eq.trans

theorem Keeps.refl (s : Store) : s.Keeps s where
  funcs := rfl
  tables := rfl
  memories := .refl Memory.Evolves.refl _
  memories_size := rfl
  globals := .refl Global.Evolves.refl _
  globals_size := rfl
  modules := rfl
  hostCalls := List.suffix_refl _

/-- Running code twice leaves alone what each run leaves alone. -/
theorem Keeps.trans {s s' s'' : Store} (h : s.Keeps s') (h' : s'.Keeps s'') : s.Keeps s'' where
  funcs := h'.funcs.trans h.funcs
  tables := h'.tables.trans h.tables
  memories := h.memories.trans h'.memories fun _ _ _ => Memory.Evolves.trans
  memories_size := h'.memories_size.trans h.memories_size
  globals := h.globals.trans h'.globals fun _ _ _ => Global.Evolves.trans
  globals_size := h'.globals_size.trans h.globals_size
  modules := h'.modules.trans h.modules
  hostCalls := h.hostCalls.trans h'.hostCalls

/-- A store that running code has left extends the one before: nothing was added, and what can
change has evolved. -/
theorem Keeps.extends {s s' : Store} (h : s.Keeps s') : s.Extends s' where
  funcs := by
    rw [h.funcs]
    exact .refl (fun _ => rfl) _
  tables := by
    rw [h.tables]
    exact .refl Table.Evolves.refl _
  memories := h.memories
  globals := h.globals
  modules := by
    rw [h.modules]
    exact .refl (fun _ => rfl) _

/-! ## Single changes

Adding and replacing, the only two things that are ever done to a store.
-/

/-- Code may change a memory as memories evolve. -/
theorem keeps_modifyMemory {s : Store} {addr : Nat} {f : Memory → Memory}
    (hf : ∀ m : Memory, s.memories[addr]? = some m → m.Evolves (f m)) :
    s.Keeps (s.modifyMemory addr f) :=
  { Keeps.refl s with
    memories := .modify Memory.Evolves.refl hf
    memories_size := Array.size_modify }

/-- Code may change a global as globals evolve. -/
theorem keeps_modifyGlobal {s : Store} {addr : Nat} {f : Global → Global}
    (hf : ∀ g : Global, s.globals[addr]? = some g → g.Evolves (f g)) :
    s.Keeps (s.modifyGlobal addr f) :=
  { Keeps.refl s with
    globals := .modify Global.Evolves.refl hf
    globals_size := Array.size_modify }

/-- Recording a call touches no instance. The record only ever grows at its front. -/
theorem keeps_recordCall (s : Store) (call : HostCall) : s.Keeps (s.recordCall call) :=
  { Keeps.refl s with hostCalls := List.suffix_cons call s.hostCalls }

/-- The surroundings may change a table as tables evolve. -/
theorem extends_modifyTable {s : Store} {addr : Nat} {f : Table → Table}
    (hf : ∀ t : Table, s.tables[addr]? = some t → t.Evolves (f t)) :
    s.Extends (s.modifyTable addr f) :=
  { Extends.refl s with tables := .modify Table.Evolves.refl hf }

theorem extends_addFunc (s : Store) (f : FuncInstance) : s.Extends (s.addFunc f).2 :=
  { Extends.refl s with funcs := .push (fun _ => rfl) _ f }

theorem extends_addTable (s : Store) (t : Table) : s.Extends (s.addTable t).2 :=
  { Extends.refl s with tables := .push Table.Evolves.refl _ t }

theorem extends_addMemory (s : Store) (m : Memory) : s.Extends (s.addMemory m).2 :=
  { Extends.refl s with memories := .push Memory.Evolves.refl _ m }

theorem extends_addGlobal (s : Store) (g : Global) : s.Extends (s.addGlobal g).2 :=
  { Extends.refl s with globals := .push Global.Evolves.refl _ g }

end Store

/-! ## Looking up -/

/-- An address is good if there is an entry at it. -/
theorem atAddress_eq_ok_iff {α : Type} {xs : Array α} {space : Space} {addr : Nat} {x : α} :
    atAddress xs space addr = .ok x ↔ xs[addr]? = some x := by
  unfold atAddress
  cases xs[addr]? <;> simp

/-- What has been looked up is all that is at the address. -/
theorem forall_of_atAddress {α : Type} {p : α → Prop} {xs : Array α} {space : Space} {addr : Nat}
    {a : α} (h : atAddress xs space addr = .ok a) (ha : p a) : ∀ x, xs[addr]? = some x → p x := by
  intro x hx
  rw [atAddress_eq_ok_iff.mp h] at hx
  cases hx
  exact ha

/-- What is asked of the entry at an address is known if the entry is there. -/
theorem map_atAddress_eq_ok_iff {α β : Type} {xs : Array α} {space : Space} {addr : Nat} {f : α → β}
    {y : β} : (atAddress xs space addr).map f = .ok y ↔ ∃ x, xs[addr]? = some x ∧ f x = y := by
  unfold atAddress
  cases xs[addr]? <;> simp [Except.map]

/-- The only thing that can go wrong at an address is that nothing is there. -/
theorem map_atAddress_eq_error_iff {α β : Type} {xs : Array α} {space : Space} {addr : Nat}
    {f : α → β} {e : RuntimeError} :
    (atAddress xs space addr).map f = .error e ↔ xs[addr]? = none ∧ e = .invalidAddress space := by
  unfold atAddress
  cases xs[addr]? <;> simp [Except.map, eq_comm]

/-- An index is good if there is an entry at it. -/
theorem atIndex_eq_ok_iff {α : Type} {xs : Array α} {space : Space} {i : UInt32} {x : α} :
    atIndex xs space i = .ok x ↔ xs[i.toNat]? = some x := by
  unfold atIndex
  cases xs[i.toNat]? <;> simp

end WebAssembly
