import WebAssembly.Proofs.Binary.Grammar
import WebAssembly.Proofs.Binary.Locality

/-!
# What decoders accept

`Decoder.Accepts` is the other half of `Decoder.Reads`: whatever a decoder takes for a value is a
form of that value. It goes from parts to what is made of them, so that it follows the format part
by part too. Together the two halves say that the reader of bodies accepts exactly the grammar of
`Expr.Written` within the bounds on nesting and on branch tables.
-/

namespace WebAssembly

namespace Decoder

variable {α β : Type} {d d' d'' : Nat}

/-- When `x` succeeds with `d` constructs open, what it has taken is a form of the value it gives,
and `d'` constructs are open. -/
def Accepts (x : Decoder α) (form : α → List UInt8 → Prop) (d d' : Nat) : Prop :=
  ∀ (unread : List UInt8) (pos : Nat) (a : α) (r : Reader), x ⟨unread, pos, d⟩ = .ok a r →
    ∃ bs rest, unread = bs ++ rest ∧ r = ⟨rest, pos + bs.length, d'⟩ ∧ form a bs

namespace Accepts

variable {x : Decoder α} {form : α → List UInt8 → Prop} {form' : β → List UInt8 → Prop}

theorem pure {a : α} (h : form a []) : Accepts (pure a) form d d := by
  intro unread pos a' r hread
  cases hread
  exact ⟨[], unread, rfl, rfl, h⟩

theorem throw (e : DecodeError) : Accepts (throw e) form d d' := by
  intro unread pos a r hread
  cases hread

/-- The forms of a sequence are the form of its first part followed by one of the rest. -/
theorem bind {f : α → Decoder β} (hx : Accepts x form d d')
    (hf : ∀ a bs, form a bs → Accepts (f a) (fun b rest => form' b (bs ++ rest)) d' d'') :
    Accepts (x >>= f) form' d d'' := by
  intro unread pos b r hread
  obtain ⟨a, r', hread, hnext⟩ := bind_eq_ok_iff.mp hread
  obtain ⟨bs, rest, rfl, rfl, hform⟩ := hx _ _ _ _ hread
  obtain ⟨bs', rest, rfl, rfl, hform'⟩ := hf a bs hform _ _ _ _ hnext
  refine ⟨bs ++ bs', rest, (List.append_assoc ..).symm, ?_, hform'⟩
  rw [List.length_append, Nat.add_assoc]

theorem map (hx : Accepts x form d d') {g : α → β} (hg : ∀ a bs, form a bs → form' (g a) bs) :
    Accepts (x >>= fun a => Pure.pure (g a)) form' d d' :=
  hx.bind fun a bs ha => .pure (by rw [List.append_nil]; exact hg a bs ha)

/-- What is accepted may be described more loosely. -/
theorem mono (hx : Accepts x form d d') {form' : α → List UInt8 → Prop}
    (h : ∀ a bs, form a bs → form' a bs) : Accepts x form' d d' := by
  intro unread pos a r hread
  obtain ⟨bs, rest, hsplit, hrest, hform⟩ := hx _ _ _ _ hread
  exact ⟨bs, rest, hsplit, hrest, h a bs hform⟩

end Accepts

/-! ## Bytes and numbers

A number is accepted in every form that has its value modulo the word, however long.
-/

theorem accepts_byte (d : Nat) : Accepts byte (fun b bs => bs = [b]) d d := by
  intro unread pos b r hread
  cases unread with
  | nil => cases hread
  | cons b rest =>
      cases hread
      exact ⟨[b], rest, rfl, rfl, rfl⟩

theorem accepts_reserved (context : String) (d : Nat) :
    Accepts (reserved context) (fun _ bs => bs = [0x00]) d d := by
  have hexpect : Accepts (expect [0x00] context) (fun _ bs => bs = [0x00]) d d := by
    refine (accepts_byte d).bind fun b bs hbs => ?_
    split
    · next hzero =>
        obtain rfl : b = 0x00 := by simpa using hzero
        exact .pure ((List.append_nil bs).trans hbs)
    · exact .throw _
  exact hexpect.map fun _ _ hbs => hbs

/-- Entering is accepted only where there is room, which bounds the nesting of what is read. -/
theorem accepts_enter (d : Nat) :
    Accepts enter (fun _ bs => bs = [] ∧ d < Bound.nesting.limit) d (d + 1) := by
  intro unread pos u r hread
  unfold enter at hread
  split at hread
  · cases hread
  · next hroom =>
      cases hread
      exact ⟨[], unread, rfl, rfl, rfl, Nat.not_le.mp hroom⟩

theorem accepts_leave (d : Nat) : Accepts leave (fun _ bs => bs = []) (d + 1) d := by
  intro unread pos u r hread
  cases hread
  exact ⟨[], unread, rfl, rfl, rfl⟩

open Leb128

/-- The groups of a number are those of bytes up to the first one without its high bit. -/
theorem accepts_leb128 (d : Nat) :
    Accepts leb128 (fun s bs => Terminated bs ∧ s.word = BitVec.ofNat 64 (value bs) ∧
      s.signed = BitVec.ofInt 64 (signedValue bs)) d d := by
  intro unread pos s r hread
  have hscan : ∃ s, scan unread 0#64 0 = some s := by
    unfold leb128 at hread
    split at hread
    · next s hs => exact ⟨s, hs⟩
    · cases hread
  obtain ⟨s', hs'⟩ := hscan
  obtain ⟨bs, hbs, rfl⟩ := exists_of_scan hs'
  obtain ⟨last, hlast, hleb⟩ := leb128_of_terminated hbs d s'.rest pos
  rw [hleb] at hread
  cases hread
  exact ⟨bs, s'.rest, rfl, rfl, hbs, rfl, signed_scan hbs hlast s'.rest⟩

/-- A number is accepted in each form that has its value, redundant ones included. -/
theorem accepts_u32 (d : Nat) : Accepts u32 Unsigned d d := by
  have hword : Accepts u64 (fun word bs => Terminated bs ∧ word = BitVec.ofNat 64 (value bs)) d d :=
    (accepts_leb128 d).map fun _ _ h => ⟨h.1, h.2.1⟩
  refine hword.map fun word bs h => ⟨h.1, ?_⟩
  rw [h.2, BitVec.setWidth_ofNat_of_le (by decide)]
  rfl

theorem accepts_s64 (d : Nat) : Accepts s64 Signed d d :=
  (accepts_leb128 d).map fun _ _ h => ⟨h.1, h.2.2.symm⟩

theorem accepts_s32 (d : Nat) : Accepts s32 Signed d d := by
  refine (accepts_s64 d).map fun word bs h => ⟨h.1, ?_⟩
  rw [← h.2, setWidth_ofInt]

/-! ## Repetition

Items in a row are accepted as forms in a row, counted by the number in front of them.
-/

/-- The items that were read are those behind the accumulator, with one form for each. -/
theorem accepts_repeated {item : Decoder α} {form : α → List UInt8 → Prop}
    (h : Accepts item form d d) (n : Nat) (acc : List α) :
    Accepts (repeated item n acc) (fun as bs => ∃ new parts, as = acc.reverse ++ new ∧
      new.length = n ∧ List.Forall₂ form new parts ∧ bs = parts.flatten) d d := by
  -- each item read goes to the front of the accumulator
  induction n generalizing acc with
  | zero => exact .pure ⟨[], [], (List.append_nil _).symm, rfl, .nil, rfl⟩
  | succ n ih =>
      refine h.bind fun a bs ha => (ih (a :: acc)).mono ?_
      rintro as _ ⟨new, parts, rfl, hlength, hparts, rfl⟩
      refine ⟨a :: new, bs :: parts, ?_, congrArg (· + 1) hlength, .cons ha hparts, rfl⟩
      rw [List.reverse_cons, List.append_assoc]
      rfl

theorem accepts_replicate {item : Decoder α} {form : α → List UInt8 → Prop}
    (h : Accepts item form d d) (n : Nat) :
    Accepts (replicate n item) (fun as bs => as.length = n ∧
      ∃ parts, List.Forall₂ form as parts ∧ bs = parts.flatten) d d := by
  refine (accepts_repeated h n []).mono ?_
  rintro as _ ⟨new, parts, rfl, hlength, hparts, rfl⟩
  exact ⟨hlength, parts, hparts, rfl⟩

/-- An accepted vector keeps to its bound. -/
theorem accepts_boundedVec {item : Decoder α} {form : α → List UInt8 → Prop} (bound : Bound)
    (h : Accepts item form d d) :
    Accepts (boundedVec bound item) (fun as bs => as.length ≤ bound.limit ∧
      ∃ n count parts, Unsigned n count ∧ n.toNat = as.length ∧ List.Forall₂ form as parts ∧
        bs = count ++ parts.flatten) d d := by
  refine (accepts_u32 d).bind fun n count hcount => ?_
  split
  · exact .throw _
  · next hbound =>
      refine (accepts_replicate h n.toNat).mono ?_
      rintro as _ ⟨hlength, parts, hparts, rfl⟩
      exact ⟨by omega, n, count, parts, hcount, hlength.symm, hparts, rfl⟩

/-! ## Floats -/

/-- A number of so many bytes is below the matching power of 256. -/
theorem littleEndian_lt (bs : List UInt8) : littleEndian bs < 256 ^ bs.length := by
  induction bs with
  | nil => exact Nat.one_pos
  | cons b bs ih =>
      have hbyte : b.toNat < 256 := b.toNat_lt
      rw [littleEndian, List.length_cons, Nat.pow_succ]
      omega

/-- Bytes are those of the number that they make. -/
theorem littleEndianBytes_littleEndian (bs : List UInt8) :
    littleEndianBytes bs.length (littleEndian bs) = bs := by
  induction bs with
  | nil => rfl
  | cons b bs ih =>
      have hbyte : b.toNat < 256 := b.toNat_lt
      have hlow : UInt8.ofNat (b.toNat + 256 * littleEndian bs) = b := by
        apply UInt8.toNat.inj
        rw [UInt8.toNat_ofNat']
        omega
      rw [littleEndian, List.length_cons, littleEndianBytes, hlow,
        show (b.toNat + 256 * littleEndian bs) / 256 = littleEndian bs by omega, ih]

theorem accepts_byteList (n d : Nat) :
    Accepts (replicate n byte) (fun as bs => as.length = n ∧ bs = as) d d := by
  refine (accepts_replicate (accepts_byte d) n).mono ?_
  rintro as _ ⟨hlength, parts, hparts, rfl⟩
  refine ⟨hlength, ?_⟩
  clear hlength
  induction hparts with
  | nil => rfl
  | cons hb _ ih => rw [List.flatten_cons, hb, ih]; rfl

/-- Each pattern of bits has one form. -/
theorem accepts_float (t : FloatType) (d : Nat) :
    Accepts (float t) (fun v bs => bs = littleEndianBytes (t.width / 8) v.toNat) d d := by
  refine (accepts_byteList (t.width / 8) d).map ?_
  rintro as bs ⟨hlength, rfl⟩
  have hwidth : 256 ^ (t.width / 8) = 2 ^ t.width := by cases t <;> rfl
  have hlt := littleEndian_lt bs
  rw [hlength, hwidth] at hlt
  rw [FloatType.ofLittleEndian, BitVec.toNat_ofNat, Nat.mod_eq_of_lt hlt, ← hlength,
    littleEndianBytes_littleEndian]

end Decoder

/-! ## Opcodes

Opcodes are looked up by subtraction in lists. An opcode that is found belongs to what is found for
it, which is read off the list as a whole.
-/

/-- A family of opcodes whose members are numbered in order has no other opcodes. -/
theorem opcode_of_family {α : Type} {first b : UInt8} {members : List α} {opcode : α → UInt8}
    {a : α} (htable : members.map opcode =
      (List.range members.length).map fun k => UInt8.ofNat (first.toNat + k))
    (h : family? first members b = some a) : opcode a = b := by
  obtain ⟨hlo, hhi⟩ := bounds_of_family h
  have hentry : members[b.toNat - first.toNat]? = some a := by
    rw [family?] at h
    split at h
    · exact h
    · cases h
  have hmap := congrArg (fun bs : List UInt8 => bs[b.toNat - first.toNat]?) htable
  simp only [List.getElem?_map, hentry, Option.map_some] at hmap
  rw [List.getElem?_range (by omega), Option.map_some] at hmap
  rw [Option.some.inj hmap, Nat.add_sub_cancel' hlo, UInt8.ofNat_toNat]

theorem LoadOp.opcode_of_ofOpcode? {b : UInt8} {op : LoadOp} (h : ofOpcode? b = some op) :
    op.opcode = b :=
  opcode_of_family (by decide) h

theorem StoreOp.opcode_of_ofOpcode? {b : UInt8} {op : StoreOp} (h : ofOpcode? b = some op) :
    op.opcode = b :=
  opcode_of_family (by decide) h

theorem Numeric.opcode_of_ofOpcode? {b : UInt8} {op : Numeric} (h : ofOpcode? b = some op) :
    op.opcode = b :=
  opcode_of_family (by decide +kernel) h

/-- No two bytes stand for one value type. -/
theorem ValueType.code_of_ofCode? {b : UInt8} {t : ValueType} (h : ofCode? b = some t) :
    t.code = b := by
  unfold ofCode? at h
  split at h
  · next hb => cases h; exact hb.symm
  split at h
  · next hb => cases h; exact hb.symm
  split at h
  · next hb => cases h; exact hb.symm
  split at h
  · next hb => cases h; exact hb.symm
  · cases h

namespace Decoder

variable {d : Nat}

/-! ## Instructions

An instruction is accepted with its immediates, and with bodies that are accepted one level further
in.
-/

/-- Offset and alignment are accepted in any form, since neither is checked here. -/
theorem accepts_memArg (d : Nat) : Accepts memArg MemArg.Written d d := by
  refine (accepts_u32 d).bind fun align bs halign => ?_
  refine (accepts_u32 d).map fun offset rest hoffset => ?_
  exact ⟨bs, rest, halign, hoffset, rfl⟩

theorem accepts_blockType (d : Nat) : Accepts blockType (fun type bs => bs = [type.code]) d d := by
  refine (accepts_byte d).bind fun b bs hbs => ?_
  subst hbs
  split
  · next hempty => exact .pure (by rw [hempty]; rfl)
  · split
    · next t ht => exact .pure (by rw [← ValueType.code_of_ofCode? ht]; rfl)
    · exact .throw _

/-- What is accepted as a plain instruction is its opcode with its immediates. -/
theorem accepts_plain (b : UInt8) (d : Nat) :
    Accepts (plain b) (fun op bs => op.Immediates b bs) d d := by
  unfold plain
  split
  · exact .pure .drop
  · exact .pure .select
  · exact (accepts_u32 d).map fun _ _ => .localGet
  · exact (accepts_u32 d).map fun _ _ => .localSet
  · exact (accepts_u32 d).map fun _ _ => .localTee
  · exact (accepts_u32 d).map fun _ _ => .globalGet
  · exact (accepts_u32 d).map fun _ _ => .globalSet
  · exact (accepts_reserved _ d).map fun _ _ hbs => hbs ▸ .memorySize
  · exact (accepts_reserved _ d).map fun _ _ hbs => hbs ▸ .memoryGrow
  · exact (accepts_s32 d).map fun _ _ => .i32
  · exact (accepts_s64 d).map fun _ _ => .i64
  · exact (accepts_float .f32 d).map fun v _ hbs => hbs ▸ .f32 v
  · exact (accepts_float .f64 d).map fun v _ hbs => hbs ▸ .f64 v
  · split
    · next op hop =>
        rw [← LoadOp.opcode_of_ofOpcode? hop]
        exact (accepts_memArg d).map fun _ _ => .load
    · next op hop _ =>
        rw [← StoreOp.opcode_of_ofOpcode? hop]
        exact (accepts_memArg d).map fun _ _ => .store
    · next op hop _ _ =>
        rw [← Numeric.opcode_of_ofOpcode? hop]
        exact .pure (.numeric op)
    · exact .throw _

/-- An instruction without a body is accepted as its immediates, a branch table within its bound. -/
theorem accepts_bodiless (b : UInt8) (d : Nat) :
    Accepts (bodiless b) (fun i bs => i.Immediates b bs ∧ i.tableWidth ≤ Bound.branchLabels.limit)
      d d := by
  unfold bodiless
  split
  · exact .pure ⟨.unreachable, Nat.zero_le _⟩
  · exact .pure ⟨.nop, Nat.zero_le _⟩
  · exact (accepts_u32 d).map fun _ _ h => ⟨.br h, Nat.zero_le _⟩
  · exact (accepts_u32 d).map fun _ _ h => ⟨.brIf h, Nat.zero_le _⟩
  · refine (accepts_boundedVec .branchLabels (accepts_u32 d)).bind ?_
    rintro labels _ ⟨hwidth, n, count, parts, hcount, hn, hparts, rfl⟩
    exact (accepts_u32 d).map fun _ _ h => ⟨.brTable hcount hn hparts h, hwidth⟩
  · exact .pure ⟨.ret, Nat.zero_le _⟩
  · exact (accepts_u32 d).map fun _ _ h => ⟨.call h, Nat.zero_le _⟩
  · refine (accepts_u32 d).bind fun type bs htype => (accepts_reserved _ d).map ?_
    rintro _ _ rfl
    exact ⟨.callIndirect htype, Nat.zero_le _⟩
  · exact (accepts_plain b d).map fun _ _ h => ⟨.plain h, Nat.zero_le _⟩

end Decoder

/-! ## Bodies

The converse of `Decoder.reads_expr`: what is read is written according to the grammar, and keeps to
the bounds.
-/

/-- The bytes make the instruction in front of any body. -/
def Instruction.Written (i : Instruction) (bs : List UInt8) : Prop :=
  ∀ is rest, Expr.Written is rest → Expr.Written (i :: is) (bs ++ rest)

namespace Decoder

variable {d fuel : Nat}

/-- Within the bounds on branch tables and, below `d` open constructs, on nesting. -/
def Within (d width nesting : Nat) : Prop :=
  width ≤ Bound.branchLabels.limit ∧ d + nesting ≤ Bound.nesting.limit

/-- A construct opens one more level. -/
theorem Within.inside {width nesting : Nat} (h : Within (d + 1) width nesting) :
    Within d width (nesting + 1) :=
  ⟨h.1, by have := h.2; omega⟩

/-- Two arms within the bounds are within them together. -/
theorem Within.max {width width' nesting nesting' : Nat} (h : Within d width nesting)
    (h' : Within d width' nesting') : Within d (max width width') (max nesting nesting') := by
  obtain ⟨hwidth, hnesting⟩ := h
  obtain ⟨hwidth', hnesting'⟩ := h'
  exact ⟨Nat.max_le.mpr ⟨hwidth, hwidth'⟩, by omega⟩

/-- The bytes of what is read of a sequence behind the instructions `acc`: a body that keeps to the
bounds, and the byte that ends it. -/
def SequenceForm (allowElse : Bool) (acc : List Instruction) (d : Nat)
    (r : List Instruction × UInt8) (bs : List UInt8) : Prop :=
  ∃ is form, r.1 = acc.reverse ++ is ∧ bs = form ++ [r.2] ∧ Expr.Written is form ∧
    (r.2 = endCode ∨ r.2 = elseCode ∧ allowElse = true) ∧
    Within d (Expr.tableWidth is) (Expr.nesting is)

/-- The bytes of one instruction that keeps to the bounds. -/
def InstructionForm (d : Nat) (i : Instruction) (bs : List UInt8) : Prop :=
  i.Written bs ∧ Within d i.tableWidth i.nesting

theorem nesting_of_immediates {i : Instruction} {b : UInt8} {bs : List UInt8}
    (h : i.Immediates b bs) : i.nesting = 0 := by
  cases h <;> rfl

/-- The bytes of a body that keeps to the bounds, and the `end` behind it. -/
def BodyForm (d : Nat) (body : Expr) (bs : List UInt8) : Prop :=
  ∃ form, bs = form ++ [endCode] ∧ Expr.Written body form ∧
    Within d (Expr.tableWidth body) (Expr.nesting body)

/-- Where only `end` may end a sequence, it is a body. -/
theorem SequenceForm.body {body : List Instruction} {t : UInt8} {bs : List UInt8}
    (h : SequenceForm false [] d (body, t) bs) : BodyForm d body bs := by
  obtain ⟨is, form, rfl, rfl, hwritten, hend, hwithin⟩ := h
  rcases hend with rfl | ⟨_, hfalse⟩
  · exact ⟨form, rfl, hwritten, hwithin⟩
  · cases hfalse

/-- One more instruction in front. -/
theorem SequenceForm.cons {allowElse : Bool} {acc : List Instruction} {i : Instruction}
    {r : List Instruction × UInt8} {bs rest : List UInt8} (hi : InstructionForm d i bs)
    (h : SequenceForm allowElse (i :: acc) d r rest) :
    SequenceForm allowElse acc d r (bs ++ rest) := by
  obtain ⟨hwritten, hwithin⟩ := hi
  obtain ⟨is, form, hr, rfl, hform, hend, hwithin'⟩ := h
  refine ⟨i :: is, bs ++ form, ?_, (List.append_assoc ..).symm, hwritten is form hform, hend,
    hwithin.max hwithin'⟩
  rw [hr, List.reverse_cons, List.append_assoc]
  rfl

/-- A construct with one body is accepted if its body is, one level further in. -/
theorem accepts_construct
    (h : d < Bound.nesting.limit →
      Accepts (sequenceAux fuel false []) (SequenceForm false [] (d + 1)) (d + 1) (d + 1))
    (construct : BlockType → Expr → Instruction) :
    Accepts (do
      let type ← blockType
      enter
      let (body, _) ← sequenceAux fuel false []
      leave
      return construct type body)
      (fun i bs => ∃ type body rest, i = construct type body ∧ bs = type.code :: rest ∧
        BodyForm (d + 1) body rest) d d := by
  refine (accepts_blockType d).bind fun type _ htype => (accepts_enter d).bind ?_
  rintro _ _ ⟨rfl, hroom⟩
  refine (h hroom).bind fun (body, t) bs hbody => (accepts_leave d).map ?_
  rintro _ _ rfl
  refine ⟨type, body, bs, rfl, ?_, hbody.body⟩
  rw [htype, List.append_nil]
  rfl

/-- An `if` ends with its first body, or with a second one behind an `else`. -/
theorem accepts_ifElse
    (h : ∀ allowElse, d < Bound.nesting.limit →
      Accepts (sequenceAux fuel allowElse []) (SequenceForm allowElse [] (d + 1)) (d + 1) (d + 1)) :
    Accepts (do
      let type ← blockType
      enter
      let (thenBody, terminator) ← sequenceAux fuel true []
      let elseBody ←
        if terminator = elseCode then do
          let (body, _) ← sequenceAux fuel false []
          pure body
        else pure []
      leave
      return .ifElse type thenBody elseBody)
      (fun i bs => InstructionForm d i (0x04 :: bs)) d d := by
  refine (accepts_blockType d).bind fun type _ htype => (accepts_enter d).bind ?_
  subst htype
  rintro _ _ ⟨rfl, hroom⟩
  refine (h true hroom).bind ?_
  rintro ⟨thenBody, t⟩ _ ⟨is, first, hthen, rfl, hfirst, hend, hwithin⟩
  obtain rfl : thenBody = is := hthen
  dsimp only
  -- the byte that ended the first arm decides: `else` brings a second one, and otherwise it is
  -- empty
  split
  · next helse =>
      subst helse
      refine (h false hroom).bind fun (elseBody, t') _ hbody => ?_
      obtain ⟨second, rfl, hsecond, hwithin'⟩ := hbody.body
      rw [pure_bind]
      refine (accepts_leave d).map ?_
      rintro _ _ rfl
      refine ⟨fun is rest hrest => ?_, (hwithin.max hwithin').inside⟩
      have hwritten : Expr.Written (.ifElse type thenBody elseBody :: is) _ :=
        .ifElse hfirst hsecond hrest
      simpa [elseCode, endCode] using hwritten
  · next hnot =>
      obtain rfl : t = endCode := hend.resolve_right fun helse => hnot helse.1
      rw [pure_bind]
      refine (accepts_leave d).map ?_
      rintro _ _ rfl
      have hempty : Within (d + 1) (Expr.tableWidth []) (Expr.nesting []) := ⟨Nat.zero_le _, hroom⟩
      refine ⟨fun is rest hrest => ?_, (hwithin.max hempty).inside⟩
      have hwritten : Expr.Written (.ifElse type thenBody [] :: is) _ := .ifThen hfirst hrest
      simpa [endCode] using hwritten

/-- By induction on the fuel, for instructions and sequences together. -/
theorem accepts_aux (fuel : Nat) :
    (∀ d, d ≤ Bound.nesting.limit → Accepts (instructionAux fuel) (InstructionForm d) d d) ∧
      ∀ allowElse acc d, d ≤ Bound.nesting.limit →
        Accepts (sequenceAux fuel allowElse acc) (SequenceForm allowElse acc d) d d := by
  -- by induction on the fuel that both readers share; `d` grows on the way in
  induction fuel with
  | zero =>
      constructor
      · intro d _
        rw [instructionAux]
        exact .throw _
      · intro allowElse acc d _
        rw [sequenceAux]
        exact .throw _
  | succ fuel ih =>
      obtain ⟨ihinstruction, ihsequence⟩ := ih
      constructor
      · intro d hd
        rw [instructionAux]
        refine (accepts_byte d).bind fun b _ hb => ?_
        subst hb
        split
        · refine (accepts_construct (ihsequence false [] (d + 1)) .block).mono ?_
          rintro _ _ ⟨type, body, _, rfl, rfl, form, rfl, hwritten, hwithin⟩
          exact ⟨fun is rest hrest => .block hwritten hrest, hwithin.inside⟩
        · refine (accepts_construct (ihsequence false [] (d + 1)) .loop).mono ?_
          rintro _ _ ⟨type, body, _, rfl, rfl, form, rfl, hwritten, hwithin⟩
          exact ⟨fun is rest hrest => .loop hwritten hrest, hwithin.inside⟩
        · exact accepts_ifElse fun allowElse => ihsequence allowElse [] (d + 1)
        · refine (accepts_bodiless b d).mono ?_
          rintro i bs ⟨himmediates, hwidth⟩
          refine ⟨fun is rest hrest => .bodiless himmediates hrest, hwidth, ?_⟩
          rw [nesting_of_immediates himmediates]
          exact hd
      · intro allowElse acc d hd unread pos r reader hread
        cases unread with
        | nil =>
            obtain ⟨_, herror⟩ := needsInput_sequenceAux (fuel + 1) allowElse acc pos d
            rw [herror] at hread
            cases hread
        | cons b rest =>
            -- the next byte ends the sequence or is the opcode of an instruction
            rw [sequenceAux_cons] at hread
            unfold sequenceAt at hread
            split at hread
            · next hend =>
                have hends := (reads_sequenceEnd hend d).map fun b => (acc.reverse, b)
                cases (hends rest pos).symm.trans hread
                refine ⟨[b], rest, rfl, rfl, [], [], (List.append_nil _).symm, rfl, .nil, ?_,
                  Nat.zero_le _, hd⟩
                simpa using hend
            · refine ((ihinstruction d hd).bind fun i bs hi => ?_) _ _ _ _ hread
              exact (ihsequence allowElse (i :: acc) d hd).mono fun r rest hrest => hrest.cons hi

/-- A body is accepted as a form of the grammar that keeps to the bounds. -/
theorem accepts_expr (hd : d ≤ Bound.nesting.limit) : Accepts expr (BodyForm d) d d := by
  have hbody : Accepts (fun r => sequenceAux (fuelFor r.unread.length) false [] r)
      (SequenceForm false [] d) d d := by
    intro unread pos r reader hread
    exact (accepts_aux (fuelFor unread.length)).2 false [] d hd unread pos r reader hread
  refine hbody.bind fun (body, t) bs h => .pure ?_
  rw [List.append_nil]
  exact h.body

end Decoder

namespace Decoder

end Decoder

end WebAssembly
