import WebAssembly.Proofs.Fallible
import WebAssembly.Proofs.Store.Evolution
import WebAssembly.Store.Access

/-!
# What access from outside does

One lemma for each operation on a store by its surroundings, for the case that it succeeds. Adding
puts one instance behind the others. Growing, writing and assigning replace an instance by one that
it may evolve to; only for tables does that go beyond what running code can do.
-/

namespace WebAssembly.Store

variable {s s' : Store} {addr : Nat}

/-! ## Adding -/

/-- A new memory is one of its type, put behind all others. -/
theorem newMemory_eq_ok {type : MemoryType} (h : s.newMemory type = .ok (addr, s')) :
    ∃ m, Memory.ofType type = .ok m ∧ s' = (s.addMemory m).2 := by
  obtain ⟨m, hm, h⟩ := except_bind_eq_ok_iff.mp h
  cases h
  exact ⟨m, hm, rfl⟩

/-- A new global holds a value of its type. -/
theorem newGlobal_eq_ok {type : GlobalType} {v : Value} (h : s.newGlobal type v = .ok (addr, s')) :
    ∃ g, g.value.type = g.type.type ∧ s' = (s.addGlobal g).2 := by
  obtain ⟨g, hg, h⟩ := except_bind_eq_ok_iff.mp h
  cases h
  exact ⟨g, Global.type_value_of_ofValue hg, rfl⟩

/-! ## Tables -/

/-- Growing a table that is there, with room for it. -/
theorem tableGrow_eq_ok {delta : UInt32} {size : Nat}
    (h : s.tableGrow addr delta = .ok (size, s')) :
    ∃ t t', s.table addr = .ok t ∧ t.grow? delta = .ok (size, t') ∧
      s' = s.modifyTable addr fun _ => t' := by
  obtain ⟨t, ht, h⟩ := except_bind_eq_ok_iff.mp h
  obtain ⟨⟨_, t'⟩, hgrow, h⟩ := except_bind_eq_ok_iff.mp h
  cases h
  exact ⟨t, t', ht, hgrow, rfl⟩

/-- Setting a slot that is there. -/
theorem tableSet_eq_ok {i : Nat} {f : Option Nat} (h : s.tableSet addr i f = .ok ((), s')) :
    ∃ t t', s.table addr = .ok t ∧ t.set? i f = .ok t' ∧ s' = s.modifyTable addr fun _ => t' := by
  obtain ⟨t, ht, h⟩ := except_bind_eq_ok_iff.mp h
  obtain ⟨t', hset, h⟩ := except_bind_eq_ok_iff.mp h
  cases h
  exact ⟨t, t', ht, eq_ok_of_mapError hset, rfl⟩

/-- Writing into slots that are all there. -/
theorem tableWrite_eq_ok {start : Nat} {funcs : List Nat}
    (h : s.tableWrite addr start funcs = .ok ((), s')) :
    ∃ t t', s.table addr = .ok t ∧ t.write? start funcs = .ok t' ∧
      s' = s.modifyTable addr fun _ => t' := by
  obtain ⟨t, ht, h⟩ := except_bind_eq_ok_iff.mp h
  obtain ⟨t', hwrite, h⟩ := except_bind_eq_ok_iff.mp h
  cases h
  exact ⟨t, t', ht, eq_ok_of_mapError hwrite, rfl⟩

/-! ## Memories and globals -/

/-- The surroundings grow a memory just as code does, so that nothing else changes. -/
theorem keeps_of_memoryGrow {delta : UInt32} {pages : Nat}
    (h : s.memoryGrow addr delta = .ok (pages, s')) : s.Keeps s' := by
  obtain ⟨m, hm, h⟩ := except_bind_eq_ok_iff.mp h
  obtain ⟨⟨_, m'⟩, hgrow, h⟩ := except_bind_eq_ok_iff.mp h
  cases h
  exact keeps_modifyMemory (forall_of_atAddress hm (Memory.evolves_of_grow hgrow))

/-- The surroundings write into a memory just as code does. -/
theorem keeps_of_memoryWrite {start : Nat} {bytes : List UInt8}
    (h : s.memoryWrite addr start bytes = .ok ((), s')) : s.Keeps s' := by
  obtain ⟨m, hm, h⟩ := except_bind_eq_ok_iff.mp h
  obtain ⟨m', hwrite, h⟩ := except_bind_eq_ok_iff.mp h
  cases h
  have hevolves := Memory.evolves_of_write (eq_ok_of_mapError hwrite)
  exact keeps_modifyMemory (forall_of_atAddress hm hevolves)

/-- The surroundings assign a global just as code does: only if it can be assigned, and only a value
of its type. -/
theorem keeps_of_globalSet {v : Value} (h : s.globalSet addr v = .ok ((), s')) : s.Keeps s' := by
  obtain ⟨g, hg, h⟩ := except_bind_eq_ok_iff.mp h
  obtain ⟨g', hset, h⟩ := except_bind_eq_ok_iff.mp h
  cases h
  exact keeps_modifyGlobal (forall_of_atAddress hg (Global.evolves_of_set hset))

end WebAssembly.Store
