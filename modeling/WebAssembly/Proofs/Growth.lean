import WebAssembly.Proofs.Lifetimes
import WebAssembly.Proofs.Machine.Memory

/-!
# Growth of memories and tables

Memories and tables grow by one law (`Growable.Obeys`), in pages of zeros and in single empty slots.
It holds of an instance as it was declared and after whatever has been done to it since
(`growth_law`): its size and its bound are all that counts, the bound is fixed, and the
size changes by growth alone. What an instance does over time is given as a list of actions. Those
that fail leave it as it is.

Sizes are numbers here, and adding to them never wraps. `growWords?` is growth as it is done with
words of 32 and 64 bits, on an array that is resized; on every instance that there can be it is the
same.
-/

namespace WebAssembly

/-! ## The law

Stated once for anything that has a size and can be lengthened by filled entries. Both kinds of
instances are cases of it with values of their own.
-/

/-- Something that grows: what it holds, how many entries it gains at a time and which, how many
times that at most, and how growing is done. -/
structure Growable (α β : Type) where
  entries : α → Array β
  unit : Nat
  fill : β
  ceiling : Nat
  grow? : α → UInt32 → Except RuntimeError (Nat × α)
  tooBig : RuntimeError

/-- Memories gain pages of zeros. -/
def Memory.growable : Growable Memory UInt8 where
  entries := Memory.bytes
  unit := 65536
  fill := 0
  ceiling := 65536
  grow? := Memory.grow?
  tooBig := .memoryTooBig

/-- Tables gain empty slots. -/
def Table.growable : Growable Table (Option Nat) where
  entries := Table.slots
  unit := 1
  fill := none
  ceiling := 4294967295
  grow? := Table.grow?
  tooBig := .tableTooBig

/-- The most units that there can be under the given limits. -/
def Growable.room {α β : Type} (g : Growable α β) (limits : Limits) : Nat :=
  min ((limits.max.map UInt32.toNat).getD g.ceiling) g.ceiling

/-- `ys` is `xs` with `count` times `fill` behind it. -/
structure Lengthened {β : Type} (xs ys : Array β) (count : Nat) (fill : β) : Prop where
  size : ys.size = xs.size + count
  old : ∀ i < xs.size, ys[i]? = xs[i]?
  new : ∀ i, xs.size ≤ i → i < xs.size + count → ys[i]? = some fill

/-- What holds of `a`, declared with the given limits, if it has `n` units. -/
structure Growable.Obeys {α β : Type} (g : Growable α β) (limits : Limits) (a : α) (n : Nat) :
    Prop where
  size : (g.entries a).size = n * g.unit
  ceiling : n ≤ g.ceiling
  declared : ∀ max, limits.max = some max → limits.min ≤ max → n ≤ max.toNat
  grows : ∀ delta : UInt32, n + delta.toNat ≤ g.room limits →
    ∃ a', g.grow? a delta = .ok (n, a') ∧
      Lengthened (g.entries a) (g.entries a') (delta.toNat * g.unit) g.fill
  refuses : ∀ delta : UInt32, g.room limits < n + delta.toNat →
    g.grow? a delta = .error g.tooBig

/-- Appending filled entries lengthens an array by as many. -/
theorem lengthened_append {β : Type} (xs : Array β) (count : Nat) (fill : β) :
    Lengthened xs (xs ++ Array.replicate count fill) count fill where
  size := by rw [Array.size_append, Array.size_replicate]
  old i hi := Array.getElem?_append_left hi
  new i hi hi' := by
    rw [Array.getElem?_append_right hi, Array.getElem?_replicate, if_pos (by omega)]

/-- Growing by the law is adding entries if there is room. -/
theorem Growable.obeys_of {α β : Type} {g : Growable α β} {limits : Limits} {a : α} {n : Nat}
    (hsize : (g.entries a).size = n * g.unit) (hceiling : n ≤ g.ceiling)
    (hdeclared : ∀ max, limits.max = some max → limits.min ≤ max → n ≤ max.toNat)
    (grown : UInt32 → α)
    (hgrown : ∀ delta, g.entries (grown delta) =
      g.entries a ++ Array.replicate (delta.toNat * g.unit) g.fill)
    (hgrow : ∀ delta, g.grow? a delta =
      if n + delta.toNat ≤ g.room limits then .ok (n, grown delta) else .error g.tooBig) :
    g.Obeys limits a n where
  size := hsize
  ceiling := hceiling
  declared := hdeclared
  grows delta h := by
    refine ⟨grown delta, (hgrow delta).trans (if_pos h), ?_⟩
    rw [hgrown]
    exact lengthened_append _ _ _
  refuses delta h := (hgrow delta).trans (if_neg (Nat.not_le.mpr h))

/-! ## Words

Growth as it is done with words: sizes are kept in 32 bits, sums are made in 32 bits with a check or
in 64 without one, and the array is resized. That sums fit is what has to be shown.
-/

/-- The sum of two words, unless it is too large for one. -/
def checkedAdd (a b : UInt32) : Option UInt32 :=
  if a.toNat + b.toNat < 2 ^ 32 then some (a + b) else none

/-- The array with `n` entries: cut off there, or filled up to there. -/
def resize {β : Type} (xs : Array β) (n : Nat) (fill : β) : Array β :=
  if n ≤ xs.size then xs.take n else xs ++ Array.replicate (n - xs.size) fill

/-- Resizing to a larger size appends the difference. -/
theorem resize_size_add {β : Type} (xs : Array β) (count : Nat) (fill : β) :
    resize xs (xs.size + count) fill = xs ++ Array.replicate count fill := by
  unfold resize
  split
  · next hcut =>
      obtain rfl : count = 0 := by omega
      simp
  · rw [Nat.add_sub_cancel_left]

/-- A memory grown in words: the number of pages is cut off to 32 bits, and the sum must fit into
them. -/
def Memory.growWords? (m : Memory) (delta : UInt32) : Except RuntimeError (Nat × Memory) :=
  let old := UInt32.ofNat (m.size / pageSize)
  match checkedAdd old delta with
  | none => .error .memoryTooBig
  | some new =>
    if min (m.max.getD 65536) 65536 < new then .error .memoryTooBig
    else .ok (old.toNat, { m with bytes := resize m.bytes (new.toNat * pageSize) 0 })

/-- A table grown in words: the number of slots is cut off to 32 bits, and the sum is taken in
64. -/
def Table.growWords? (t : Table) (delta : UInt32) : Except RuntimeError (Nat × Table) :=
  let old := UInt32.ofNat t.slots.size
  let new := old.toUInt64 + delta.toUInt64
  if (t.max.map UInt32.toUInt64).getD 4294967295 < new then .error .tableTooBig
  else .ok (old.toNat, { t with slots := resize t.slots new.toNat none })

/-! ## Memories

The bound of a memory is its maximum or 65536 pages, whichever is less. No action but growth changes
its size, so whatever has been done to it the law holds with the bound it was declared with.
-/

/-- What holds of the result of something that may fail, and if it fails of what there was. -/
theorem of_getD {ε α : Type} {p : α → Prop} {x : Except ε α} {a : α} (ha : p a)
    (hx : ∀ a', x = .ok a' → p a') : p (x.toOption.getD a) := by
  cases x with
  | ok a' => exact hx a' rfl
  | error e => exact ha

namespace Memory

/-- What can be done to a memory. -/
inductive Action where
  | load (op : LoadOp) (start : Nat)
  | store (op : StoreOp) (start : Nat) (v : Value)
  | write (start : Nat) (bs : List UInt8)
  | grow (delta : UInt32)

/-- The memory after an action. -/
def after (m : Memory) : Action → Memory
  | .load _ _ => m
  | .store op start v => (m.write? start (op.encode v)).toOption.getD m
  | .write start bs => (m.write? start bs).toOption.getD m
  | .grow delta => ((m.grow? delta).map Prod.snd).toOption.getD m

/-- The memory after several actions. -/
def run (m : Memory) (actions : List Action) : Memory :=
  actions.foldl after m

/-- What becomes of a memory, whose size stays a whole number of pages. -/
structure Persists (m m' : Memory) : Prop extends m.Evolves m' where
  whole : pageSize ∣ m.size → pageSize ∣ m'.size

theorem Persists.refl (m : Memory) : m.Persists m where
  toEvolves := .refl m
  whole h := h

theorem Persists.trans {m m' m'' : Memory} (h : m.Persists m') (h' : m'.Persists m'') :
    m.Persists m'' where
  toEvolves := h.toEvolves.trans h'.toEvolves
  whole hm := h'.whole (h.whole hm)

/-- A write keeps the size of a memory and what it may grow to. -/
theorem persists_of_write {m m' : Memory} {start : Nat} {bs : List UInt8}
    (h : m.write? start bs = .ok m') : m.Persists m' where
  toEvolves := evolves_of_write h
  whole hm := by
    unfold write? at h
    split at h
    · cases h
      rwa [size_write]
    · cases h

theorem persists_of_grow {m m' : Memory} {delta : UInt32} {pages : Nat}
    (h : m.grow? delta = .ok (pages, m')) : m.Persists m' where
  toEvolves := evolves_of_grow h
  whole hm := by
    unfold grow? at h
    split at h
    · cases h
      rw [size_grow]
      exact Nat.dvd_add hm (Nat.dvd_mul_left _ _)
    · cases h

/-- No action of a memory makes it smaller or changes its maximum. -/
theorem persists_after (m : Memory) (action : Action) : m.Persists (m.after action) := by
  cases action with
  | load op start => exact .refl m
  | store op start v => exact of_getD (.refl m) fun _ => persists_of_write
  | write start bs => exact of_getD (.refl m) fun _ => persists_of_write
  | grow delta =>
      refine of_getD (.refl m) fun m' hgrow => ?_
      obtain ⟨⟨_, _⟩, hgrown, rfl⟩ := except_map_eq_ok_iff.mp hgrow
      exact persists_of_grow hgrown

/-- Nor does any sequence of actions. -/
theorem persists_run (m : Memory) (actions : List Action) : m.Persists (m.run actions) := by
  induction actions generalizing m with
  | nil => exact .refl m
  | cons action actions ih => exact (m.persists_after action).trans (ih (m.after action))

/-- The bound that counts is the one that was declared. -/
theorem capacity_eq_room {m : Memory} {limits : Limits} (h : m.max = limits.max) :
    m.capacity = growable.room limits := by
  rw [capacity, h, Growable.room]
  cases limits.max with
  | some max => rfl
  | none => exact (Nat.min_self maxPages).symm

/-- The bound computed in words is the capacity, since both of its parts are at most 65536. -/
theorem toNat_bound (m : Memory) : (min (m.max.getD 65536) 65536).toNat = m.capacity := by
  unfold capacity
  cases m.max with
  | some max => exact UInt32.toNat_min max 65536
  | none => rfl

/-- A memory of whole pages has so few of them that nothing wraps. -/
theorem growWords?_eq {m : Memory} (hwhole : pageSize ∣ m.size) (hpages : m.pages ≤ maxPages) :
    m.growWords? = m.grow? := by
  funext delta
  have hcapacity := m.capacity_le
  have hold : (UInt32.ofNat (m.size / pageSize)).toNat = m.pages :=
    UInt32.toNat_ofNat_of_lt' (Nat.lt_of_le_of_lt hpages (by decide))
  rw [growWords?, grow?, canGrow, checkedAdd, hold]
  by_cases hsum : m.pages + delta.toNat < 2 ^ 32
  · have hnew : (UInt32.ofNat (m.size / pageSize) + delta).toNat = m.pages + delta.toNat := by
      rw [UInt32.toNat_add, hold, Nat.mod_eq_of_lt hsum]
    have hexceeds : min (m.max.getD 65536) 65536 < UInt32.ofNat (m.size / pageSize) + delta ↔
        m.capacity < m.pages + delta.toNat := by
      rw [UInt32.lt_iff_toNat_lt, toNat_bound, hnew]
    rw [if_pos hsum]
    dsimp only
    by_cases hroom : m.pages + delta.toNat ≤ m.capacity
    · -- the size is that many pages, so that resizing only fills up
      have hsize : (m.pages + delta.toNat) * pageSize = m.bytes.size + delta.toNat * pageSize := by
        rw [Nat.add_mul, pages, Nat.div_mul_cancel hwhole]
        rfl
      rw [if_neg (hexceeds.not.mpr (Nat.not_lt.mpr hroom)), if_pos (decide_eq_true hroom), hnew,
        hsize, resize_size_add]
      rfl
    · rw [if_pos (hexceeds.mpr (Nat.lt_of_not_le hroom)), if_neg (by rwa [decide_eq_true_eq])]
  · -- a sum that does not fit is far beyond what a memory can have
    have hmax : maxPages = 65536 := rfl
    rw [if_neg hsum, if_neg]
    rw [decide_eq_true_eq]
    omega

/-- A memory obeys the law of growth whatever has been done to it. -/
theorem obeys_of_persists {t : MemoryType} {m₀ m : Memory} (h : Memory.ofType t = .ok m₀)
    (hm : m₀.Persists m) : growable.Obeys t.limits m m.pages := by
  obtain ⟨hsize, hmax, _⟩ := eq_of_ofType h
  have hroom : m.capacity = growable.room t.limits := capacity_eq_room (hm.max.trans hmax)
  refine Growable.obeys_of ?_ ?_ ?_ m.grow (fun _ => rfl) fun delta => ?_
  · exact (Nat.div_mul_cancel (hm.whole (hsize ▸ Nat.dvd_mul_left _ _))).symm
  · exact hm.pages_le (pages_le_of_ofType h)
  · intro max hlimit hmin
    -- it has never grown, or it has kept to the bound when it did
    rcases hm.room with hsame | hroom
    · rw [pages, hsame]
      show m₀.pages ≤ _
      rw [pages_of_ofType h]
      exact hmin
    · rw [capacity, hmax, hlimit] at hroom
      exact Nat.le_trans hroom (Nat.min_le_left _ _)
  · rw [← hroom]
    show m.grow? delta = if m.pages + delta.toNat ≤ m.capacity then .ok (m.pages, m.grow delta)
      else .error .memoryTooBig
    simp only [grow?, canGrow, decide_eq_true_eq]

end Memory

/-! ## Tables

A table is counted in slots. Its bound is its maximum, or all that can be counted with 32 bits.
-/

namespace Table

/-- What can be done to a table. -/
inductive Action where
  | set (i : Nat) (f : Option Nat)
  | write (start : Nat) (funcs : List Nat)
  | grow (delta : UInt32)

/-- The table after an action. -/
def after (t : Table) : Action → Table
  | .set i f => (t.set? i f).toOption.getD t
  | .write start funcs => (t.write? start funcs).toOption.getD t
  | .grow delta => ((t.grow? delta).map Prod.snd).toOption.getD t

/-- The table after several actions. -/
def run (t : Table) (actions : List Action) : Table :=
  actions.foldl after t

theorem evolves_after (t : Table) (action : Action) : t.Evolves (t.after action) := by
  cases action with
  | set i f => exact of_getD (.refl t) fun _ => evolves_of_set
  | write start funcs => exact of_getD (.refl t) fun _ => evolves_of_write
  | grow delta =>
      refine of_getD (.refl t) fun t' hgrow => ?_
      obtain ⟨⟨_, _⟩, hgrown, rfl⟩ := except_map_eq_ok_iff.mp hgrow
      exact evolves_of_grow hgrown

/-- A table keeps its maximum and never shrinks, over any sequence of actions. -/
theorem evolves_run (t : Table) (actions : List Action) : t.Evolves (t.run actions) := by
  induction actions generalizing t with
  | nil => exact .refl t
  | cons action actions ih => exact (t.evolves_after action).trans (ih (t.after action))

theorem capacity_eq_room {t : Table} {limits : Limits} (h : t.max = limits.max) :
    t.capacity = growable.room limits := by
  rw [capacity, h, Growable.room]
  cases limits.max with
  | some max => exact (Nat.min_eq_left (Nat.le_of_lt_succ max.toNat_lt)).symm
  | none => exact (Nat.min_self maxSlots).symm

theorem toNat_bound (t : Table) :
    ((t.max.map UInt32.toUInt64).getD 4294967295).toNat = t.capacity := by
  unfold capacity
  cases t.max with
  | some max => exact UInt32.toNat_toUInt64 max
  | none => rfl

/-- A table has so few slots that nothing wraps. -/
theorem growWords?_eq {t : Table} (hsize : t.size ≤ maxSlots) : t.growWords? = t.grow? := by
  funext delta
  have hmax : maxSlots = 4294967295 := rfl
  have hdelta := delta.toNat_lt
  have hold : (UInt32.ofNat t.slots.size).toNat = t.size :=
    UInt32.toNat_ofNat_of_lt' (Nat.lt_succ_of_le hsize)
  have hnew : ((UInt32.ofNat t.slots.size).toUInt64 + delta.toUInt64).toNat =
      t.size + delta.toNat := by
    rw [UInt64.toNat_add, UInt32.toNat_toUInt64, UInt32.toNat_toUInt64, hold,
      Nat.mod_eq_of_lt (by omega)]
  have hexceeds : (t.max.map UInt32.toUInt64).getD 4294967295 <
      (UInt32.ofNat t.slots.size).toUInt64 + delta.toUInt64 ↔
        t.capacity < t.size + delta.toNat := by
    rw [UInt64.lt_iff_toNat_lt, toNat_bound, hnew]
  rw [growWords?, grow?]
  by_cases hroom : t.size + delta.toNat ≤ t.capacity
  · rw [if_neg (hexceeds.not.mpr (Nat.not_lt.mpr hroom)), if_pos hroom, hnew, hold, size,
      resize_size_add]
  · rw [if_pos (hexceeds.mpr (Nat.lt_of_not_le hroom)), if_neg hroom]

/-- A table obeys the law of growth whatever has been done to it. -/
theorem obeys_of_evolves {type : TableType} {t : Table} (h : (ofType type).Evolves t) :
    growable.Obeys type.limits t t.size := by
  have hroom : t.capacity = growable.room type.limits := capacity_eq_room h.max
  refine Growable.obeys_of (Nat.mul_one t.size).symm (h.size_le (size_ofType_le type)) ?_
    (fun delta => { t with slots := t.slots ++ Array.replicate delta.toNat none })
    (fun delta => by rw [show growable.unit = 1 from rfl, Nat.mul_one]; rfl) fun delta => ?_
  · intro max hlimit hmin
    rcases h.room with hsame | hroom
    · rw [hsame, size, ofType, Array.size_replicate]
      exact hmin
    · rwa [capacity, ofType, hlimit] at hroom
  · rw [← hroom]
    rfl

end Table

/-! ## Instructions

What code sees of the law. Growth that is refused gives minus one, and this is never the size of a
memory.
-/

namespace Exec

variable {frame : Frame} {s : Store} {addr : Nat} {mem : Memory}

/-- When an instruction has taken its operands and succeeded or failed, the memory at the address is
`mem'`. -/
def LeavesMemory (frame : Frame) (s : Store) (addr : Nat) (op : Plain) (operands : List Value)
    (mem' : Memory) : Prop :=
  ∀ rest, (final (plain frame op ⟨s, .ofList (operands ++ rest)⟩)).store.memory addr = .ok mem'

section Known

variable (hframe : frame.module.memory 0 = .ok addr) (hmem : s.memory addr = .ok mem)
include hframe hmem

/-- Loads leave the memory alone. -/
theorem load_leavesMemory (op : LoadOp) (arg : MemArg) (base : BitVec 32) :
    LeavesMemory frame s addr (.load op arg) [.i32 base]
      (mem.after (.load op (Memory.address base arg))) := by
  intro rest
  by_cases h : Memory.address base arg + op.bytes ≤ mem.size
  · have hload := loads_of_le hframe hmem h rest
    rw [List.singleton_append, hload]
    exact hmem
  · have hload := loads_of_lt hframe hmem (Nat.not_le.mp h) rest
    rw [List.singleton_append, hload]
    exact hmem

/-- A store from code is the write of the same bytes, or a trap that writes none. -/
theorem store_leavesMemory {op : StoreOp} {v : Value} (hv : v.type = op.type) (arg : MemArg)
    (base : BitVec 32) :
    LeavesMemory frame s addr (.store op arg) [v, .i32 base]
      (mem.after (.store op (Memory.address base arg) v)) := by
  intro rest
  have hlength := op.length_encode v
  rw [Memory.after, Memory.write?, hlength]
  by_cases h : Memory.address base arg + op.bytes ≤ mem.size
  · have hstore := stores_of_le hframe hmem hv h rest
    rw [if_pos (Memory.inBounds_iff.mpr h), List.cons_append, List.singleton_append, hstore]
    exact Store.memory_modifyMemory hmem _
  · have hstore := stores_of_lt hframe hmem hv (Nat.not_le.mp h) rest
    rw [if_neg (Memory.inBounds_iff.not.mpr h), List.cons_append, List.singleton_append, hstore]
    exact hmem

/-- The instruction pushes the old size, or minus one where there is no room. -/
theorem memoryGrow_eq (delta : UInt32) (rest : List Value) :
    memoryGrow frame ⟨s, .ofList (.i32 delta.toBitVec :: rest)⟩ =
      if mem.canGrow delta then
        .ok () ⟨s.modifyMemory addr fun _ => mem.grow delta,
          .ofList (.i32 (BitVec.ofNat 32 mem.pages) :: rest)⟩
      else .ok () ⟨s, .ofList (.i32 (-1) :: rest)⟩ := by
  have hcount : UInt32.ofNat (@BitVec.toNat IntType.i32.width delta.toBitVec) = delta :=
    UInt32.ofNat_toNat
  rw [memoryGrow, bind_of_ok (memoryAddr_of_ok hframe hmem _), bind_of_ok (popInt_i32 _ _ _)]
  dsimp only
  rw [hcount, bind_of_ok (ask_of_ok (congrArg (Except.map _) hmem)),
    ← Store.modifyMemory_eq hmem (·.grow delta)]
  dsimp only
  split <;> rfl

theorem memoryGrow_of_ok {delta : UInt32} {old : Nat} {mem' : Memory}
    (h : mem.grow? delta = .ok (old, mem')) (rest : List Value) :
    plain frame .memoryGrow ⟨s, .ofList (.i32 delta.toBitVec :: rest)⟩ =
      .ok frame ⟨s.modifyMemory addr fun _ => mem',
        .ofList (.i32 (BitVec.ofNat 32 old) :: rest)⟩ := by
  have hgrow := memoryGrow_eq hframe hmem delta rest
  unfold Memory.grow? at h
  split at h
  · next hroom =>
      cases h
      rw [if_pos hroom] at hgrow
      exact bind_of_ok hgrow
  · cases h

/-- Growth that is refused is seen by code as minus one and changes nothing. -/
theorem memoryGrow_of_error {delta : UInt32} {e : RuntimeError}
    (h : mem.grow? delta = .error e) (rest : List Value) :
    plain frame .memoryGrow ⟨s, .ofList (.i32 delta.toBitVec :: rest)⟩ =
      .ok frame ⟨s, .ofList (.i32 (-1) :: rest)⟩ := by
  have hgrow := memoryGrow_eq hframe hmem delta rest
  unfold Memory.grow? at h
  split at h
  · cases h
  · next hroom =>
      rw [if_neg hroom] at hgrow
      exact bind_of_ok hgrow

end Known

end Exec

/-- Numbers of pages are read back from the stack, and none of them is `-1`. -/
theorem Memory.pages_ne_neg_one {m : Memory} (h : m.pages ≤ 65536) :
    (BitVec.ofNat 32 m.pages).toNat = m.pages ∧ BitVec.ofNat 32 m.pages ≠ -1 := by
  have htoNat : (BitVec.ofNat 32 m.pages).toNat = m.pages := by
    rw [BitVec.toNat_ofNat]
    omega
  refine ⟨htoNat, fun heq => ?_⟩
  rw [heq] at htoNat
  have hlarge : (-1 : BitVec 32).toNat = 4294967295 := rfl
  omega

/-! ## Whole lives

A life is a list of actions from the instance as it was declared. Since each action keeps what the
law needs, a list does.
-/

open Exec in
/-- The law of growth, over the whole life of a memory and of a table. Whatever has been done to an
instance since it was created with the limits it was declared with, it obeys the law, also if it is
grown in words, and from then on it does not shrink.

Loads and stores of running code are among the actions. The instruction that grows the memory does
what the law says: it puts the old number of pages on the stack if there is room, and otherwise
`-1`, which is never a number of pages. -/
theorem growth_law :
    (∀ (t : MemoryType) (m₀ : Memory), Memory.ofType t = .ok m₀ →
      ∀ actions : List Memory.Action,
      let m := m₀.run actions
      Memory.growable.Obeys t.limits m m.pages ∧ m.growWords? = m.grow? ∧
      (∀ more, m.size ≤ (m.run more).size) ∧
      (BitVec.ofNat 32 m.pages).toNat = m.pages ∧ BitVec.ofNat 32 m.pages ≠ -1 ∧
      ∀ (frame : Frame) (s : Store) (addr : Nat), frame.module.memory 0 = .ok addr →
        s.memory addr = .ok m →
        (∀ (op : LoadOp) (arg : MemArg) (base : BitVec 32),
          LeavesMemory frame s addr (.load op arg) [.i32 base]
            (m.after (.load op (base.toNat + arg.offset.toNat)))) ∧
        (∀ (op : StoreOp) (arg : MemArg) (base : BitVec 32) (v : Value), v.type = op.type →
          LeavesMemory frame s addr (.store op arg) [v, .i32 base]
            (m.after (.store op (base.toNat + arg.offset.toNat) v))) ∧
        ∀ (delta : UInt32) (rest : List Value),
          (∀ m', m.grow? delta = .ok (m.pages, m') →
            plain frame .memoryGrow ⟨s, .ofList (.i32 delta.toBitVec :: rest)⟩ =
              .ok frame ⟨s.modifyMemory addr fun _ => m',
                .ofList (.i32 (BitVec.ofNat 32 m.pages) :: rest)⟩) ∧
          (m.grow? delta = .error .memoryTooBig →
            plain frame .memoryGrow ⟨s, .ofList (.i32 delta.toBitVec :: rest)⟩ =
              .ok frame ⟨s, .ofList (.i32 (-1) :: rest)⟩)) ∧
    ∀ (type : TableType) (actions : List Table.Action),
      let t := (Table.ofType type).run actions
      Table.growable.Obeys type.limits t t.size ∧ t.growWords? = t.grow? ∧
      ∀ more, t.size ≤ (t.run more).size := by
  -- memories and tables are instances of one law, so both halves are proved from it
  refine ⟨fun t m₀ h actions => ?_, fun type actions => ?_⟩
  · have hobeys := Memory.obeys_of_persists h (m₀.persists_run actions)
    have hwords := Memory.growWords?_eq (Dvd.intro_left _ hobeys.size.symm) hobeys.ceiling
    obtain ⟨htoNat, hne⟩ := Memory.pages_ne_neg_one hobeys.ceiling
    refine ⟨hobeys, hwords, fun more => (Memory.persists_run _ more).size, htoNat, hne, ?_⟩
    intro frame s addr hframe hmem
    exact ⟨load_leavesMemory hframe hmem,
      fun op arg base v hv => store_leavesMemory hframe hmem hv arg base,
      fun delta rest => ⟨fun m' hgrow => memoryGrow_of_ok hframe hmem hgrow rest,
        fun hgrow => memoryGrow_of_error hframe hmem hgrow rest⟩⟩
  · have hobeys := Table.obeys_of_evolves ((Table.ofType type).evolves_run actions)
    exact ⟨hobeys, Table.growWords?_eq hobeys.ceiling, fun more => (Table.evolves_run _ more).size⟩

/-- A memory that starts with no pages and can have two of them. -/
def twoPages : MemoryType :=
  ⟨⟨0, some 2⟩⟩

/-- Such a memory after it was to grow too much, was written to without room, and has grown. -/
def grownOnce : Memory :=
  Memory.run ⟨#[], some 2⟩ [.grow 3, .write 0 [1], .grow 1]

/-- It has one page. There is room for another one but not for two. -/
theorem grownOnce_growth_law :
    Memory.ofType twoPages = .ok ⟨#[], some 2⟩ ∧ grownOnce.pages = 1 ∧
      (∃ m', grownOnce.grow? 1 = .ok (1, m') ∧
        Lengthened grownOnce.bytes m'.bytes 65536 0) ∧
      Exec.plain ⟨{ memories := #[0] }, #[]⟩ .memoryGrow
        ⟨{ memories := #[grownOnce] }, .ofList [.i32 2]⟩ =
        .ok ⟨{ memories := #[0] }, #[]⟩
          ⟨{ memories := #[grownOnce] }, .ofList [.i32 (-1)]⟩ := by
  have hnew : Memory.ofType twoPages = .ok ⟨#[], some 2⟩ := rfl
  have hpages : grownOnce.pages = 1 := Memory.pages_grow ⟨#[], some 2⟩ 1
  obtain ⟨hobeys, _, _, _, _, hcode⟩ :=
    growth_law.1 twoPages _ hnew [.grow 3, .write 0 [1], .grow 1]
  obtain ⟨_, _, hgrow⟩ := hcode ⟨{ memories := #[0] }, #[]⟩ { memories := #[grownOnce] } 0 rfl rfl
  have hroom : Memory.growable.room twoPages.limits = 2 := rfl
  have hobeys : Memory.growable.Obeys twoPages.limits grownOnce 1 := hpages ▸ hobeys
  obtain ⟨m', hgrown, hlong⟩ := hobeys.grows 1 (by rw [hroom]; decide)
  have hrefused := hobeys.refuses 2 (by rw [hroom]; decide)
  have hoperation : Memory.growable.grow? = Memory.grow? := rfl
  have hcount : (1 : UInt32).toNat * Memory.growable.unit = 65536 := rfl
  rw [hoperation] at hgrown hrefused
  rw [hcount] at hlong
  exact ⟨hnew, hpages, ⟨m', hgrown, hlong⟩, (hgrow 2 []).2 hrefused⟩

end WebAssembly
