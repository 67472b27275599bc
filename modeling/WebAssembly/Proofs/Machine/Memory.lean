import Mathlib.Algebra.BigOperators.Intervals
import WebAssembly.Proofs.Binary.Acceptance
import WebAssembly.Proofs.Linking.Effect

/-!
# Access to memory

Loads and stores in all their widths have one law (`Exec.memory_access`). It is said in terms of
single bytes: those that an access reaches make a number, the lowest of them first
(`Memory.number`), which a load extends to the width of its result (`LoadOp.extend`) and of which a
store writes the low bytes (`Memory.Stored`). That what is stored is loaded again, and that nothing
else changes, are facts about memories (`Memory.read_write`, `Memory.read_write_of_disjoint`).
-/

namespace WebAssembly

/-! ## Names of accesses

The texts of the instructions tell their widths and signs, so that the law can be read as one about
instructions by name.
-/

/-- The name of a load tells the type of its result and, if it reads fewer bytes than the result
has, their number of bits and how they are extended. -/
theorem LoadOp.text_eq (op : LoadOp) :
    op.text = op.type.text ++ ".load" ++
      if op.bytes = op.type.bytes then "" else toString (8 * op.bytes) ++ op.sign.suffix := by
  cases op with
  | full t => cases t <;> decide
  | byte t sign => cases t <;> cases sign <;> decide
  | half t sign => cases t <;> cases sign <;> decide
  | word sign => cases sign <;> decide

/-- The name of a store tells the type of its operand and, if it writes fewer bytes than the operand
has, their number of bits. -/
theorem StoreOp.text_eq (op : StoreOp) :
    op.text = op.type.text ++ ".store" ++
      if op.bytes = op.type.bytes then "" else toString (8 * op.bytes) := by
  cases op with
  | full t => cases t <;> decide
  | byte t => cases t <;> decide
  | half t => cases t <;> decide
  | word => decide

/-! ## Numbers and their bytes

Between a number and its digits to the base 256, lowest first.
-/

/-- The number that `count` bytes from `start` on make, the lowest first. -/
def Memory.number (m : Memory) (start count : Nat) : Nat :=
  ∑ k ∈ Finset.range count, (m.bytes[start + k]?.getD 0).toNat * 256 ^ k

/-- The value that a load makes of a number of as many bytes as it reads: the number, or, with a
sign, the one below zero that has the same bytes. -/
def LoadOp.extend (op : LoadOp) (n : Nat) : Value :=
  Value.ofBits op.type <| BitVec.ofInt op.type.width <|
    if op.sign = .signed ∧ 2 ^ (8 * op.bytes) ≤ 2 * n then (n : Int) - 2 ^ (8 * op.bytes) else n

/-- `m'` is `m` with the `count` low bytes of `n` from `start` on. -/
structure Memory.Stored (m m' : Memory) (start count n : Nat) : Prop where
  max : m'.max = m.max
  bytes : ∀ i, m'.bytes[i]? =
    if start ≤ i ∧ i < start + count then some (UInt8.ofNat (n / 256 ^ (i - start)))
    else m.bytes[i]?

/-- The number in some bytes, lowest byte first, as a sum over places. -/
theorem littleEndian_eq_sum (bs : List UInt8) :
    littleEndian bs = ∑ k ∈ Finset.range bs.length, (bs[k]?.getD 0).toNat * 256 ^ k := by
  induction bs with
  | nil => rfl
  | cons b bs ih =>
      rw [littleEndian, ih, List.length_cons, Finset.sum_range_succ', Finset.mul_sum, Nat.add_comm]
      -- all places move up by one behind a new lowest byte
      congr 1
      · refine Finset.sum_congr rfl fun k _ => ?_
        rw [List.getElem?_cons_succ, Nat.pow_succ, Nat.mul_left_comm, Nat.mul_comm 256]
      · exact (Nat.mul_one _).symm

/-- Each byte of a number is one of its digits to the base 256. -/
theorem getElem?_littleEndianBytes (count n k : Nat) :
    (littleEndianBytes count n)[k]? =
      if k < count then some (UInt8.ofNat (n / 256 ^ k)) else none := by
  induction count generalizing n k with
  | zero => rfl
  | succ count ih =>
      cases k with
      | zero => simp [littleEndianBytes]
      | succ k =>
          rw [littleEndianBytes, List.getElem?_cons_succ, ih, Nat.div_div_eq_div_mul,
            ← Nat.pow_succ']
          simp

/-- A load reads the bytes it takes as a number and extends it. -/
theorem LoadOp.value_eq_extend (op : LoadOp) {bs : List UInt8} (h : bs.length = op.bytes) :
    op.value bs = op.extend (littleEndian bs) := by
  have hlt := Decoder.littleEndian_lt bs
  rw [h, show 256 = 2 ^ 8 from rfl, ← Nat.pow_mul] at hlt
  -- the number is not cut off when it is taken as so many bits
  have hraw : (BitVec.ofNat (8 * op.bytes) (littleEndian bs)).toNat = littleEndian bs := by
    rw [BitVec.toNat_ofNat, Nat.mod_eq_of_lt hlt]
  refine congrArg (Value.ofBits op.type) ?_
  cases op.sign with
  | signed =>
      show BitVec.ofInt _ (BitVec.ofNat _ (littleEndian bs)).toInt = _
      rw [BitVec.toInt_eq_toNat_cond, hraw]
      congr 1
      split
      · rw [if_neg (by omega)]
      · rw [if_pos ⟨rfl, by omega⟩]
        norm_cast
  | unsigned =>
      rw [if_neg (fun h => nomatch h.1), BitVec.ofInt_natCast]
      apply BitVec.eq_of_toNat_eq
      show (BitVec.setWidth _ (BitVec.ofNat _ (littleEndian bs))).toNat = _
      rw [BitVec.toNat_setWidth, hraw, BitVec.toNat_ofNat]

theorem StoreOp.length_encode (op : StoreOp) (v : Value) : (op.encode v).length = op.bytes :=
  Decoder.length_littleEndianBytes op.bytes v.toNat

/-- A store narrower than its operand keeps the low bytes. -/
theorem StoreOp.littleEndian_encode (op : StoreOp) (v : Value) :
    littleEndian (op.encode v) = v.toNat % 2 ^ (8 * op.bytes) := by
  rw [encode, Decoder.littleEndian_littleEndianBytes, show 256 = 2 ^ 8 from rfl, ← Nat.pow_mul]

/-! ## Reading what was written

Facts about memories as arrays of bytes. A write reaches as many places as it has bytes.
-/

namespace Memory

variable {m : Memory} {start count : Nat} {bs : List UInt8}

theorem inBounds_iff : m.inBounds start count = true ↔ start + count ≤ m.size :=
  decide_eq_true_iff

/-- What is read is what stands in the memory, byte by byte. -/
theorem getElem?_read (m : Memory) (start count k : Nat) :
    (m.read start count)[k]? = if k < count then m.bytes[start + k]? else none := by
  rw [read, Array.getElem?_toList, Array.getElem?_extract]
  by_cases hk : k < count
  · rw [if_pos hk]
    split
    · rfl
    · exact (Array.getElem?_eq_none (by omega)).symm
  · rw [if_neg hk, if_neg (by omega)]

theorem length_read (h : start + count ≤ m.size) : (m.read start count).length = count := by
  rw [read, Array.length_toList, Array.size_extract, min_eq_left (b := m.bytes.size) h,
    Nat.add_sub_cancel_left]

/-- Bytes within the memory make up the number at that place. -/
theorem littleEndian_read (h : start + count ≤ m.size) :
    littleEndian (m.read start count) = m.number start count := by
  rw [littleEndian_eq_sum, length_read h]
  refine Finset.sum_congr rfl fun k hk => ?_
  rw [getElem?_read, if_pos (Finset.mem_range.mp hk)]

theorem size_write (m : Memory) (start : Nat) (bs : List UInt8) :
    (m.write start bs).size = m.size :=
  size_overwrite m.bytes start bs

/-- A write changes the bytes it covers and no others. Nothing is written beyond the end. -/
theorem getElem?_write (m : Memory) (start : Nat) (bs : List UInt8) (i : Nat) :
    (m.write start bs).bytes[i]? = m.bytes[i]?.map fun old => (entryFrom start bs i).getD old :=
  getElem?_overwrite m.bytes start bs i

/-- Reading back what was written gives it. -/
theorem read_write (h : start + bs.length ≤ m.size) :
    (m.write start bs).read start bs.length = bs := by
  apply List.ext_getElem?
  intro k
  rw [getElem?_read, getElem?_write]
  split
  · next hk =>
      have hentry : entryFrom start bs (start + k) = bs[k]? := by
        rw [entryFrom, if_pos (Nat.le_add_right start k), Nat.add_sub_cancel_left]
      have hplace : start + k < m.bytes.size := Nat.lt_of_lt_of_le (by omega) h
      rw [hentry, Array.getElem?_eq_getElem hplace, List.getElem?_eq_getElem hk]
      rfl
  · next hk => exact (List.getElem?_eq_none (Nat.not_lt.mp hk)).symm

/-- Reading elsewhere gives what was there before. -/
theorem read_write_of_disjoint {start' count' : Nat} (m : Memory)
    (h : start' + count' ≤ start ∨ start + bs.length ≤ start') :
    (m.write start bs).read start' count' = m.read start' count' := by
  apply List.ext_getElem?
  intro k
  rw [getElem?_read, getElem?_read, getElem?_write]
  split
  · have hentry : entryFrom start bs (start' + k) = none := by
      rw [entryFrom]
      split
      · exact List.getElem?_eq_none (by omega)
      · rfl
    rw [hentry]
    exact Option.map_id'
  · rfl

/-- A write of a number leaves its digits in their places and everything else alone. -/
theorem stored_write {n : Nat} (h : start + count ≤ m.size) :
    m.Stored (m.write start (littleEndianBytes count n)) start count n where
  max := rfl
  bytes i := by
    -- the bytes written are the digits at their distance from the start
    have hentry : entryFrom start (littleEndianBytes count n) i =
        if start ≤ i ∧ i < start + count then some (UInt8.ofNat (n / 256 ^ (i - start)))
        else none := by
      rw [entryFrom, getElem?_littleEndianBytes]
      by_cases hstart : start ≤ i
      · rw [if_pos hstart]
        exact if_congr (by omega) rfl rfl
      · rw [if_neg hstart, if_neg fun hreached => hstart hreached.1]
    rw [getElem?_write, hentry]
    split
    · next hreached =>
        have hplace : i < m.bytes.size := Nat.lt_of_lt_of_le hreached.2 h
        rw [Array.getElem?_eq_getElem hplace]
        rfl
    · exact Option.map_id'

end Memory

/-! ## Loads and stores

The two instructions on a machine, in closed form. The address is the sum of two numbers of 32 bits,
made in numbers without a bound.
-/

/-- Only the memory that is there counts. -/
theorem Store.modifyMemory_eq {s : Store} {addr : Nat} {mem : Memory}
    (hmem : s.memory addr = .ok mem) (f : Memory → Memory) :
    s.modifyMemory addr f = s.modifyMemory addr fun _ => f mem := by
  have hmem := atAddress_eq_ok_iff.mp hmem
  refine congrArg (fun memories => { s with memories := memories }) (Array.ext_getElem? fun i => ?_)
  rw [Array.getElem?_modify, Array.getElem?_modify]
  split
  · next haddr =>
      rw [← haddr, hmem]
      rfl
  · rfl

theorem Store.memory_modifyMemory {s : Store} {addr : Nat} {mem : Memory}
    (hmem : s.memory addr = .ok mem) (mem' : Memory) :
    (s.modifyMemory addr fun _ => mem').memory addr = .ok mem' := by
  refine atAddress_eq_ok_iff.mpr ?_
  rw [Store.modifyMemory, Array.getElem?_modify, if_pos rfl, atAddress_eq_ok_iff.mp hmem]
  rfl

namespace Exec

variable {frame : Frame} {s : Store} {addr : Nat} {mem : Memory}

/-- What becomes of a load whose base lies on top of the stack: it gives a value or traps, and
changes nothing else. -/
def Loads (frame : Frame) (s : Store) (op : LoadOp) (arg : MemArg) (base : BitVec 32) :
    Option Value → Prop
  | some v => ∀ rest, plain frame (.load op arg) ⟨s, .ofList (.i32 base :: rest)⟩ =
      .ok frame ⟨s, .ofList (v :: rest)⟩
  | none => ∀ rest, plain frame (.load op arg) ⟨s, .ofList (.i32 base :: rest)⟩ =
      .error (.trap .outOfBoundsMemoryAccess) ⟨s, .ofList rest⟩

/-- What becomes of a store whose operand and base lie on top of the stack: it leaves `s'` or traps,
and changes nothing else. -/
def Stores (frame : Frame) (s : Store) (op : StoreOp) (arg : MemArg) (base : BitVec 32)
    (v : Value) : Option Store → Prop
  | some s' => ∀ rest, plain frame (.store op arg) ⟨s, .ofList (v :: .i32 base :: rest)⟩ =
      .ok frame ⟨s', .ofList rest⟩
  | none => ∀ rest, plain frame (.store op arg) ⟨s, .ofList (v :: .i32 base :: rest)⟩ =
      .error (.trap .outOfBoundsMemoryAccess) ⟨s, .ofList rest⟩

theorem popInt_i32 (s : Store) (b : BitVec 32) (rest : List Value) :
    (liftM (OnStack.popInt .i32) : Exec _) ⟨s, .ofList (.i32 b :: rest)⟩ =
      .ok b ⟨s, .ofList rest⟩ :=
  rfl

section Known

variable (hframe : frame.module.memory 0 = .ok addr) (hmem : s.memory addr = .ok mem)
include hframe hmem

/-- A load as a whole: a value on the stack, or a trap that has taken the address off it. -/
theorem load_eq (op : LoadOp) (arg : MemArg) (base : BitVec 32) (rest : List Value) :
    load frame op arg ⟨s, .ofList (.i32 base :: rest)⟩ =
      if mem.inBounds (Memory.address base arg) op.bytes then
        .ok () ⟨s, .ofList (op.value (mem.read (Memory.address base arg) op.bytes) :: rest)⟩
      else .error (.trap .outOfBoundsMemoryAccess) ⟨s, .ofList rest⟩ := by
  have hask : (do
      let m ← s.memory addr
      (m.read? (Memory.address base arg) op.bytes).mapError .trap : Except RuntimeError _) =
      (mem.read? (Memory.address base arg) op.bytes).mapError .trap := by
    rw [hmem]
    rfl
  rw [load, bind_of_ok (memoryAddr_of_ok hframe hmem _), bind_of_ok (popInt_i32 _ _ _)]
  unfold Memory.read? at hask
  split
  · next hinside =>
      rw [if_pos hinside] at hask
      exact bind_of_ok (ask_of_ok hask)
  · next hoverrun =>
      rw [if_neg hoverrun] at hask
      exact bind_of_error (ask_of_error hask)

theorem loads_of_le {op : LoadOp} {arg : MemArg} {base : BitVec 32}
    (h : Memory.address base arg + op.bytes ≤ mem.size) :
    Loads frame s op arg base
      (some (op.extend (littleEndian (mem.read (Memory.address base arg) op.bytes)))) := by
  intro rest
  have hload := load_eq hframe hmem op arg base rest
  rw [if_pos (Memory.inBounds_iff.mpr h), op.value_eq_extend (Memory.length_read h)] at hload
  exact bind_of_ok hload

/-- A load that overruns the memory traps, by however little it does. -/
theorem loads_of_lt {op : LoadOp} {arg : MemArg} {base : BitVec 32}
    (h : mem.size < Memory.address base arg + op.bytes) : Loads frame s op arg base none := by
  intro rest
  have hload := load_eq hframe hmem op arg base rest
  rw [if_neg (Memory.inBounds_iff.not.mpr (Nat.not_le.mpr h))] at hload
  exact bind_of_error hload

/-- A store as a whole: bytes in memory, or a trap that has changed none. -/
theorem store_eq {op : StoreOp} {v : Value} (hv : v.type = op.type) (arg : MemArg)
    (base : BitVec 32) (rest : List Value) :
    store frame op arg ⟨s, .ofList (v :: .i32 base :: rest)⟩ =
      if mem.inBounds (Memory.address base arg) op.bytes then
        .ok () ⟨s.modifyMemory addr (·.write (Memory.address base arg) (op.encode v)),
          .ofList rest⟩
      else .error (.trap .outOfBoundsMemoryAccess) ⟨s, .ofList rest⟩ := by
  have hoperand : (liftM (OnStack.popType op.type) : Exec _)
      ⟨s, .ofList (v :: .i32 base :: rest)⟩ = .ok v ⟨s, .ofList (.i32 base :: rest)⟩ :=
    onStack_of_ok (OnStack.popType_cons hv _)
  rw [store, bind_of_ok (memoryAddr_of_ok hframe hmem _), bind_of_ok hoperand,
    bind_of_ok (popInt_i32 _ _ _), bind_of_ok (ask_of_ok (congrArg (Except.map _) hmem))]
  split <;> rfl

/-- A store that overruns the memory traps and writes no part of its value. -/
theorem stores_of_lt {op : StoreOp} {v : Value} (hv : v.type = op.type) {arg : MemArg}
    {base : BitVec 32} (h : mem.size < Memory.address base arg + op.bytes) :
    Stores frame s op arg base v none := by
  intro rest
  have hstore := store_eq hframe hmem hv arg base rest
  rw [if_neg (Memory.inBounds_iff.not.mpr (Nat.not_le.mpr h))] at hstore
  exact bind_of_error hstore

/-- A store within the memory writes the low bytes of its value. -/
theorem stores_of_le {op : StoreOp} {v : Value} (hv : v.type = op.type) {arg : MemArg}
    {base : BitVec 32} (h : Memory.address base arg + op.bytes ≤ mem.size) :
    Stores frame s op arg base v
      (some (s.modifyMemory addr fun _ => mem.write (Memory.address base arg) (op.encode v))) := by
  intro rest
  have hstore := store_eq hframe hmem hv arg base rest
  rw [if_pos (Memory.inBounds_iff.mpr h), Store.modifyMemory_eq hmem] at hstore
  exact bind_of_ok hstore

/-- A load of the same width from the place of a store. -/
theorem loads_of_same {op : StoreOp} {start : Nat} (h : start + op.bytes ≤ mem.size) (v : Value)
    {op' : LoadOp} {arg : MemArg} {base : BitVec 32}
    (hstart : Memory.address base arg = start) (hbytes : op'.bytes = op.bytes) :
    Loads frame (s.modifyMemory addr fun _ => mem.write start (op.encode v)) op' arg base
      (some (op'.extend (v.toNat % 2 ^ (8 * op.bytes)))) := by
  subst hstart
  have hmem' := Store.memory_modifyMemory hmem (mem.write (Memory.address base arg) (op.encode v))
  have hread := Memory.read_write (op.length_encode v ▸ h)
  rw [op.length_encode] at hread
  have hloads := loads_of_le hframe hmem' (by rw [Memory.size_write, hbytes]; exact h)
  rw [hbytes, hread, op.littleEndian_encode] at hloads
  exact hloads

/-- A load that reaches none of the bytes that were written. -/
theorem loads_of_disjoint {start : Nat} {bs : List UInt8} {op : LoadOp} {arg : MemArg}
    {base : BitVec 32} (h : Memory.address base arg + op.bytes ≤ start ∨
      start + bs.length ≤ Memory.address base arg) :
    ∃ outcome, Loads frame s op arg base outcome ∧
      Loads frame (s.modifyMemory addr fun _ => mem.write start bs) op arg base outcome := by
  have hmem' := Store.memory_modifyMemory hmem (mem.write start bs)
  by_cases hinside : Memory.address base arg + op.bytes ≤ mem.size
  · refine ⟨_, loads_of_le hframe hmem hinside, ?_⟩
    rw [← mem.read_write_of_disjoint h]
    exact loads_of_le hframe hmem' (by rwa [Memory.size_write])
  · have hoverrun := Nat.not_le.mp hinside
    exact ⟨none, loads_of_lt hframe hmem hoverrun,
      loads_of_lt hframe hmem' (by rwa [Memory.size_write])⟩

end Known

/-- The law of access to the memory that code uses. An access reaches as many bytes as its name
tells, from the sum of its base and its offset on, and this sum does not wrap around.

* If they do not all lie inside, the access traps and nothing changes.
* Otherwise a load gives the number that they make, extended as its name tells, and a store puts the
  low bytes of its operand in their place and changes no other byte.
* After a store, loads of the same width from the same place give the low bytes of the operand, and
  loads that reach none of the bytes do what they did before. -/
theorem memory_access (hframe : frame.module.memory 0 = .ok addr)
    (hmem : s.memory addr = .ok mem) :
    (∀ op : LoadOp, op.text = op.type.text ++ ".load" ++
      if op.bytes = op.type.bytes then "" else toString (8 * op.bytes) ++ op.sign.suffix) ∧
    (∀ op : StoreOp, op.text = op.type.text ++ ".store" ++
      if op.bytes = op.type.bytes then "" else toString (8 * op.bytes)) ∧
    (∀ (op : LoadOp) (arg : MemArg) (base : BitVec 32),
      let start := base.toNat + arg.offset.toNat
      Loads frame s op arg base
        (if start + op.bytes ≤ mem.size then some (op.extend (mem.number start op.bytes))
        else none)) ∧
    ∀ (op : StoreOp) (arg : MemArg) (base : BitVec 32) (v : Value), v.type = op.type →
      let start := base.toNat + arg.offset.toNat
      (mem.size < start + op.bytes → Stores frame s op arg base v none) ∧
      (start + op.bytes ≤ mem.size → ∃ mem', mem.Stored mem' start op.bytes v.toNat ∧
        let s' := s.modifyMemory addr fun _ => mem'
        Stores frame s op arg base v (some s') ∧ s'.memory addr = .ok mem' ∧
        ∀ (op' : LoadOp) (arg' : MemArg) (base' : BitVec 32),
          let start' := base'.toNat + arg'.offset.toNat
          (start' = start → op'.bytes = op.bytes →
            Loads frame s' op' arg' base' (some (op'.extend (v.toNat % 2 ^ (8 * op.bytes))))) ∧
          (start' + op'.bytes ≤ start ∨ start + op.bytes ≤ start' →
            ∃ outcome, Loads frame s op' arg' base' outcome ∧
              Loads frame s' op' arg' base' outcome)) := by
  refine ⟨LoadOp.text_eq, StoreOp.text_eq, fun op arg base => ?_, fun op arg base v hv => ?_⟩
  · dsimp only
    split
    · next hinside =>
        rw [← Memory.littleEndian_read hinside]
        exact loads_of_le hframe hmem hinside
    · next hoverrun => exact loads_of_lt hframe hmem (Nat.not_le.mp hoverrun)
  · -- the memory after the store is the witness, and all later loads are from it
    refine ⟨stores_of_lt hframe hmem hv, fun hinside => ?_⟩
    refine ⟨mem.write (Memory.address base arg) (op.encode v), Memory.stored_write hinside,
      stores_of_le hframe hmem hv hinside, Store.memory_modifyMemory hmem _,
      fun op' arg' base' => ⟨loads_of_same hframe hmem hinside v, fun hdisjoint => ?_⟩⟩
    exact loads_of_disjoint hframe hmem (by rwa [op.length_encode])

/-- A memory of six bytes. -/
def sixBytes : Memory :=
  ⟨#[0x01, 0x02, 0x03, 0x04, 0x05, 0xf6], none⟩

/-- A store with this memory alone. -/
def sixBytesStore : Store where
  memories := #[sixBytes]

/-- The scope of code that uses it. -/
def sixBytesFrame : Frame where
  module := { memories := #[0] }

/-- The last two bytes can be loaded, but not two from the last one on, and the largest base with
the largest offset does not wrap around to a place inside. When the low bytes of an operand have
been stored, a load from their place extends the sign of the upper one, and one from the byte behind
them still finds it. -/
theorem sixBytes_access :
    sixBytesFrame.module.memory 0 = .ok 0 ∧ sixBytesStore.memory 0 = .ok sixBytes ∧
      Loads sixBytesFrame sixBytesStore (.half .i32 .unsigned) ⟨0, 4⟩ 0 (some (.i32 0xf605)) ∧
      Loads sixBytesFrame sixBytesStore (.half .i32 .unsigned) ⟨0, 4⟩ 1 none ∧
      Loads sixBytesFrame sixBytesStore (.byte .i32 .unsigned) ⟨0, 0xffffffff⟩ 0xffffffff none ∧
      ∃ s', Stores sixBytesFrame sixBytesStore (.half .i64) ⟨0, 1⟩ 2 (.i64 0x12348765) (some s') ∧
        Loads sixBytesFrame s' (.half .i32 .signed) ⟨0, 0⟩ 3 (some (.i32 0xffff8765)) ∧
        ∃ outcome, Loads sixBytesFrame sixBytesStore (.byte .i64 .signed) ⟨0, 5⟩ 0 outcome ∧
          Loads sixBytesFrame s' (.byte .i64 .signed) ⟨0, 5⟩ 0 outcome := by
  have hframe : sixBytesFrame.module.memory 0 = .ok 0 := rfl
  have hmem : sixBytesStore.memory 0 = .ok sixBytes := rfl
  obtain ⟨_, _, hloads, hstores⟩ := memory_access hframe hmem
  obtain ⟨_, hinside⟩ := hstores (.half .i64) ⟨0, 1⟩ 2 (.i64 0x12348765) rfl
  obtain ⟨mem', _, hstored, _, hafter⟩ := hinside (by decide)
  refine ⟨hframe, hmem, hloads (.half .i32 .unsigned) ⟨0, 4⟩ 0,
    hloads (.half .i32 .unsigned) ⟨0, 4⟩ 1,
    hloads (.byte .i32 .unsigned) ⟨0, 0xffffffff⟩ 0xffffffff, _, hstored,
    (hafter (.half .i32 .signed) ⟨0, 0⟩ 3).1 rfl rfl,
    (hafter (.byte .i64 .signed) ⟨0, 5⟩ 0).2 (.inr (by decide))⟩

end Exec

end WebAssembly
