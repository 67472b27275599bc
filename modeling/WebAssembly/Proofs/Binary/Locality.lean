import WebAssembly.Binary.Module
import WebAssembly.Proofs.Binary.InOrder

/-!
# Every section is read in order

Instructions are read with fuel, and how much there is depends on the bytes left. The fuel does not
matter as long as it exceeds their number (`Decoder.agree_aux`), since at every unit of it a
byte is taken. So bodies are read in order (`Decoder.inOrder_expr`), and with them all entries and
sections.
-/

namespace WebAssembly.Decoder

variable {α β : Type} {d : Nat}

/-! ## Instructions

Both recursive readers are in order for every amount of fuel. A sequence looks at its next byte
without taking it, which is allowed.
-/

theorem inOrder_memArg (d : Nat) : InOrder memArg d d :=
  (inOrder_u32 d).bind fun _ => (inOrder_u32 d).map _

theorem inOrder_reserved (context : String) (d : Nat) : InOrder (reserved context) d d :=
  (inOrder_expect [0x00] context d).map _

theorem inOrder_blockType (d : Nat) : InOrder blockType d d := by
  refine (inOrder_byte d).bind fun b => ?_
  split
  · exact .pure _ d
  · split
    · exact .pure _ d
    · exact .throw rfl d d

/-- The immediates of a plain instruction are read from front to back. -/
theorem inOrder_plain (b : UInt8) (d : Nat) : InOrder (plain b) d d := by
  unfold plain
  split
  · exact .pure _ d
  · exact .pure _ d
  · exact (inOrder_u32 d).map _
  · exact (inOrder_u32 d).map _
  · exact (inOrder_u32 d).map _
  · exact (inOrder_u32 d).map _
  · exact (inOrder_u32 d).map _
  · exact (inOrder_reserved _ d).map _
  · exact (inOrder_reserved _ d).map _
  · exact (inOrder_s32 d).map _
  · exact (inOrder_s64 d).map _
  · exact (inOrder_float .f32 d).map _
  · exact (inOrder_float .f64 d).map _
  · split
    · exact (inOrder_memArg d).map _
    · exact (inOrder_memArg d).map _
    · exact .pure _ d
    · exact .throw rfl d d

/-- An instruction without a body is one opcode and its immediates, in order. -/
theorem inOrder_bodiless (b : UInt8) (d : Nat) : InOrder (bodiless b) d d := by
  unfold bodiless
  split
  · exact .pure _ d
  · exact .pure _ d
  · exact (inOrder_u32 d).map _
  · exact (inOrder_u32 d).map _
  · exact (inOrder_boundedVec .branchLabels (inOrder_u32 d)).bind fun _ => (inOrder_u32 d).map _
  · exact .pure _ d
  · exact (inOrder_u32 d).map _
  · exact (inOrder_u32 d).bind fun _ => (inOrder_reserved _ d).map _
  · exact (inOrder_plain b d).map _

/-- What is done about a sequence when its next byte is `b`. -/
def sequenceAt (fuel : Nat) (allowElse : Bool) (acc : List Instruction) (b : UInt8) :
    Decoder (List Instruction × UInt8) :=
  if b = endCode || (b = elseCode && allowElse) then do
    let terminator ← sequenceEnd allowElse
    return (acc.reverse, terminator)
  else do
    let i ← instructionAux fuel
    sequenceAux fuel allowElse (i :: acc)

/-- With input left, a sequence goes by its next byte, which is looked at before it is taken. -/
theorem sequenceAux_cons (fuel : Nat) (allowElse : Bool) (acc : List Instruction) (b : UInt8)
    (rest : List UInt8) (pos d : Nat) :
    sequenceAux (fuel + 1) allowElse acc ⟨b :: rest, pos, d⟩ =
      sequenceAt fuel allowElse acc b ⟨b :: rest, pos, d⟩ := by
  rw [sequenceAux]
  rfl

/-- Without input the fuel does not matter. -/
theorem instructionAux_nil (fuel pos d : Nat) :
    instructionAux fuel ⟨[], pos, d⟩ = .error .unexpectedEof ⟨[], pos, d⟩ := by
  cases fuel <;> (rw [instructionAux]; rfl)

theorem needsInput_instructionAux (fuel : Nat) : NeedsInput (instructionAux fuel) :=
  fun pos d => ⟨_, instructionAux_nil fuel pos d⟩

/-- A sequence needs the byte that ends it. -/
theorem needsInput_sequenceAux (fuel : Nat) (allowElse : Bool) (acc : List Instruction) :
    NeedsInput (sequenceAux fuel allowElse acc) := by
  intro pos d
  cases fuel <;> (rw [sequenceAux]; exact ⟨_, rfl⟩)

theorem needsInput_sequenceAt (fuel : Nat) (allowElse : Bool) (acc : List Instruction) (b : UInt8) :
    NeedsInput (sequenceAt fuel allowElse acc b) := by
  unfold sequenceAt
  split
  · exact (needsInput_byte.bind _).bind _
  · exact (needsInput_instructionAux fuel).bind _

/-- A construct with one body, which is read one level further in. -/
theorem inOrder_construct {fuel : Nat}
    (h : InOrder (sequenceAux fuel false []) (d + 1) (d + 1))
    (construct : BlockType → Expr → Instruction) :
    InOrder (do
      let type ← blockType
      enter
      let (body, _) ← sequenceAux fuel false []
      leave
      return construct type body) d d :=
  (inOrder_blockType d).bind fun _ => (inOrder_enter d).bind fun _ => h.bind fun _ =>
    (inOrder_leave d).map _

/-- By induction on the fuel, for instructions and sequences together. Inside a construct there is
one more level, which is left behind its bodies. -/
theorem inOrder_aux (fuel : Nat) :
    (∀ d, InOrder (instructionAux fuel) d d) ∧
      ∀ allowElse acc d, InOrder (sequenceAux fuel allowElse acc) d d := by
  -- both readers at once; a sequence is one look at the next byte and then in order
  induction fuel with
  | zero =>
      constructor
      · intro d
        rw [instructionAux]
        exact .throw rfl d d
      · intro allowElse acc d
        rw [sequenceAux]
        exact .throw rfl d d
  | succ fuel ih =>
      obtain ⟨ihinstruction, ihsequence⟩ := ih
      constructor
      · intro d
        rw [instructionAux]
        refine (inOrder_byte d).bind fun b => ?_
        split
        · exact inOrder_construct (ihsequence false [] (d + 1)) .block
        · exact inOrder_construct (ihsequence false [] (d + 1)) .loop
        · refine (inOrder_blockType d).bind fun _ => (inOrder_enter d).bind fun _ =>
            (ihsequence true [] (d + 1)).bind fun (thenBody, terminator) => ?_
          dsimp only
          split
          · exact (ihsequence false [] (d + 1)).bind fun _ => (InOrder.pure _ _).bind fun _ =>
              (inOrder_leave d).map _
          · exact (InOrder.pure _ _).bind fun _ => (inOrder_leave d).map _
        · exact inOrder_bodiless b d
      · intro allowElse acc d
        refine .of_head (needsInput_sequenceAux _ _ _)
          (fun b rest pos => sequenceAux_cons fuel allowElse acc b rest pos d) (fun b => ?_)
          (needsInput_sequenceAt fuel allowElse acc)
        unfold sequenceAt
        split
        · exact (inOrder_expect _ _ d).map _
        · exact (ihinstruction d).bind fun i => ihsequence allowElse (i :: acc) d

theorem inOrder_sequenceAux (fuel : Nat) (allowElse : Bool) (acc : List Instruction) (d : Nat) :
    InOrder (sequenceAux fuel allowElse acc) d d :=
  (inOrder_aux fuel).2 allowElse acc d

/-! ## Fuel

With fuel for more bytes than there are, more fuel changes nothing. The induction counts bytes
against fuel; an instruction takes at least one of each.
-/

/-- On fewer than `n` bytes both decoders do the same. -/
def Agree (n : Nat) (x y : Decoder α) : Prop :=
  ∀ r : Reader, r.unread.length < n → x r = y r

/-- When it succeeds, `x` has taken at least `k` bytes. -/
def Takes (k : Nat) (x : Decoder α) : Prop :=
  ∀ (r : Reader) (a : α) (r' : Reader), x r = .ok a r' → r'.unread.length + k ≤ r.unread.length

theorem Agree.refl (n : Nat) (x : Decoder α) : Agree n x x :=
  fun _ _ => rfl

/-- Two readers that agree on short inputs agree on longer ones behind a part that takes bytes, by
as many as it takes. -/
theorem Agree.bind {n k : Nat} {x y : Decoder α} {f g : α → Decoder β} (hx : Agree n x y)
    (htakes : Takes k x) (hf : ∀ a, Agree (n - k) (f a) (g a)) :
    Agree n (x >>= f) (y >>= g) := by
  intro r hr
  have hxr := hx r hr
  cases hread : x r with
  | error e r' =>
      rw [bind_of_error hread, bind_of_error (hxr ▸ hread)]
  | ok a r' =>
      have htaken := htakes r a r' hread
      rw [bind_of_ok hread, bind_of_ok (hxr ▸ hread), hf a r' (by omega)]

/-- A decoder in order does not give bytes back. -/
theorem takes_zero {x : Decoder α} (h : ∀ d, InOrder x d d) : Takes 0 x := by
  rintro ⟨unread, pos, d⟩ a r' hread
  obtain ⟨bs, rfl, _⟩ := (h d).ok hread
  show r'.unread.length + 0 ≤ (bs ++ r'.unread).length
  rw [List.length_append]
  omega

/-- A decoder that needs input takes a byte of it. -/
theorem takes_one {x : Decoder α} (h : ∀ d, InOrder x d d) (hneeds : NeedsInput x) : Takes 1 x := by
  rintro ⟨unread, pos, d⟩ a r' hread
  obtain ⟨bs, rfl, hreads, _⟩ := (h d).ok hread
  have hlength := List.length_pos_iff.mpr (hneeds.ne_nil hreads)
  show r'.unread.length + 1 ≤ (bs ++ r'.unread).length
  rw [List.length_append]
  omega

theorem takes_byte : Takes 1 byte :=
  takes_one inOrder_byte needsInput_byte

theorem takes_blockType : Takes 1 blockType :=
  takes_one inOrder_blockType (needsInput_byte.bind _)

theorem takes_enter : Takes 0 enter := by
  intro r u r' h
  unfold enter at h
  split at h
  · cases h
  · cases h
    exact Nat.le_refl _

/-- A construct takes its type before its body is read. -/
theorem agree_construct {fuel fuel' n : Nat}
    (h : Agree (n - 1 - 0) (sequenceAux fuel false []) (sequenceAux fuel' false []))
    (construct : BlockType → Expr → Instruction) :
    Agree n
      (do
        let type ← blockType
        enter
        let (body, _) ← sequenceAux fuel false []
        leave
        return construct type body)
      (do
        let type ← blockType
        enter
        let (body, _) ← sequenceAux fuel' false []
        leave
        return construct type body) :=
  (Agree.refl _ _).bind takes_blockType fun _ => (Agree.refl _ _).bind takes_enter fun _ =>
    h.bind (takes_zero (inOrder_sequenceAux fuel false [])) fun _ => .refl _ _

/-- Without input no instruction is read, with any fuel. -/
theorem agree_of_le_one {n : Nat} (hn : n ≤ 1) (fuel fuel' : Nat) :
    Agree n (instructionAux fuel) (instructionAux fuel') := by
  rintro ⟨unread, pos, d⟩ hr
  have hlength : unread.length < n := hr
  obtain rfl : unread = [] := List.eq_nil_of_length_eq_zero (by omega)
  rw [instructionAux_nil, instructionAux_nil]

/-- How much fuel there is makes no difference if there is more of it than bytes. By induction on
one of the two amounts; at every unit of fuel at least one byte is taken. -/
theorem agree_aux (fuel : Nat) :
    (∀ fuel' n, n ≤ fuel + 1 → n ≤ fuel' + 1 →
      Agree n (instructionAux fuel) (instructionAux fuel')) ∧
    ∀ fuel' n allowElse acc, n ≤ fuel → n ≤ fuel' →
      Agree n (sequenceAux fuel allowElse acc) (sequenceAux fuel' allowElse acc) := by
  induction fuel with
  | zero =>
      constructor
      · rintro fuel' n hn -
        exact agree_of_le_one hn 0 fuel'
      · rintro fuel' n allowElse acc hn - r hr
        omega
  | succ fuel ih =>
      obtain ⟨ihinstruction, ihsequence⟩ := ih
      constructor
      · rintro (_ | fuel') n hn hn'
        · exact agree_of_le_one hn' _ 0
        · -- the opcode and the type are taken before the bodies are read
          have hbody : ∀ allowElse, Agree (n - 1 - 1 - 0) (sequenceAux fuel allowElse [])
              (sequenceAux fuel' allowElse []) :=
            fun allowElse => ihsequence fuel' _ allowElse [] (by omega) (by omega)
          rw [instructionAux, instructionAux]
          refine (Agree.refl n byte).bind takes_byte fun b => ?_
          split
          · exact agree_construct (hbody false) .block
          · exact agree_construct (hbody false) .loop
          · refine (Agree.refl _ _).bind takes_blockType fun _ => (Agree.refl _ _).bind takes_enter
              fun _ => (hbody true).bind (takes_zero (inOrder_sequenceAux fuel true []))
                fun (thenBody, terminator) => ?_
            dsimp only
            split
            · exact (hbody false).bind (takes_zero (inOrder_sequenceAux fuel false []))
                fun _ => .refl _ _
            · exact .refl _ _
          · exact .refl _ _
      · rintro (_ | fuel') n allowElse acc hn hn'
        · intro r hr
          omega
        · rintro ⟨_ | ⟨b, rest⟩, pos, d⟩ hr
          · rw [sequenceAux, sequenceAux]
            rfl
          · rw [sequenceAux_cons, sequenceAux_cons]
            unfold sequenceAt
            split
            · rfl
            · exact (ihinstruction fuel' n (by omega) (by omega)).bind
                (takes_one (inOrder_aux fuel).1 (needsInput_instructionAux fuel))
                (fun i => ihsequence fuel' _ allowElse (i :: acc) (by omega) (by omega)) _ hr

/-- The fuel of a body is the length of its input, and more than enough fuel changes nothing, so a
body is read in order too. -/
theorem inOrder_expr (d : Nat) : InOrder expr d d := by
  have hbody : InOrder (fun r => sequenceAux (fuelFor r.unread.length) false [] r) d d := by
    refine .of_bounded (fun n => inOrder_sequenceAux (n + 1) false [] d) fun n r hn => ?_
    have hfuel : r.unread.length + 1 ≤ fuelFor r.unread.length := by
      unfold fuelFor
      omega
    exact (agree_aux _).2 (n + 1) _ false [] hfuel (Nat.succ_le_succ hn) r (Nat.lt_succ_self _)
  exact hbody.map _

/-! ## Entries

With bodies in order, everything that holds an expression is.
-/

theorem inOrder_funcType (d : Nat) : InOrder funcType d d :=
  (inOrder_expect _ _ d).bind fun _ =>
    (inOrder_boundedVec .params (inOrder_valueType d)).bind fun _ =>
      (inOrder_boundedVec .results (inOrder_valueType d)).map _

/-- The flag says whether a maximum follows. -/
theorem inOrder_limits (d : Nat) : InOrder limits d d := by
  refine (inOrder_expect _ _ d).bind fun flag => (inOrder_u32 d).bind fun min => ?_
  split
  · exact (inOrder_u32 d).map _
  · exact .pure _ d

theorem inOrder_tableType (d : Nat) : InOrder tableType d d :=
  (inOrder_expect _ _ d).bind fun _ => (inOrder_limits d).map _

theorem inOrder_memoryType (d : Nat) : InOrder memoryType d d :=
  (inOrder_limits d).map _

theorem inOrder_globalType (d : Nat) : InOrder globalType d d :=
  (inOrder_valueType d).bind fun _ => (inOrder_expect _ _ d).map _

theorem inOrder_importDesc (d : Nat) : InOrder importDesc d d := by
  refine (inOrder_byte d).bind fun b => ?_
  split
  · exact (inOrder_u32 d).map _
  · exact (inOrder_tableType d).map _
  · exact (inOrder_memoryType d).map _
  · exact (inOrder_globalType d).map _
  · exact .throw rfl d d

theorem inOrder_importEntry (d : Nat) : InOrder importEntry d d :=
  (inOrder_name d).bind fun _ => (inOrder_name d).bind fun _ => (inOrder_importDesc d).map _

theorem inOrder_exportDesc (d : Nat) : InOrder exportDesc d d := by
  refine (inOrder_byte d).bind fun b => ?_
  split
  · exact (inOrder_u32 d).map _
  · exact (inOrder_u32 d).map _
  · exact (inOrder_u32 d).map _
  · exact (inOrder_u32 d).map _
  · exact .throw rfl d d

theorem inOrder_exportEntry (d : Nat) : InOrder exportEntry d d :=
  (inOrder_name d).bind fun _ => (inOrder_exportDesc d).map _

theorem inOrder_globalEntry (d : Nat) : InOrder globalEntry d d :=
  (inOrder_globalType d).bind fun _ => (inOrder_expr d).map _

theorem inOrder_elementSegment (d : Nat) : InOrder elementSegment d d :=
  (inOrder_u32 d).bind fun _ => (inOrder_expr d).bind fun _ => (inOrder_vec (inOrder_u32 d)).map _

theorem inOrder_dataSegment (d : Nat) : InOrder dataSegment d d :=
  (inOrder_u32 d).bind fun _ => (inOrder_expr d).bind fun _ => (inOrder_byteString d).map _

/-- Groups are counted as they come, and too many locals are refused before the group is made. -/
theorem inOrder_localGroups (n declared : Nat) (acc : List (List ValueType)) (d : Nat) :
    InOrder (localGroups n declared acc) d d := by
  induction n generalizing declared acc with
  | zero => exact .pure _ d
  | succ n ih =>
      refine (inOrder_u32 d).bind fun count => (inOrder_valueType d).bind fun type => ?_
      dsimp only
      split
      · exact .throw rfl d d
      · exact ih _ _

theorem inOrder_bodyEntry (d : Nat) : InOrder bodyEntry d d :=
  (inOrder_u32 d).bind fun _ => (inOrder_u32 d).bind fun groups =>
    (inOrder_localGroups groups.toNat 0 [] d).bind fun _ => (inOrder_expr d).map _

/-! ## Sections

The contents of a section are read by its id, and the reader of contents does not look at the size
except to take that many bytes of a custom section.
-/

/-- The bytes of a custom section are taken first. Whether they hold a name does not change what is
taken. -/
theorem inOrder_customSection (size d : Nat) : InOrder (customSection size) d d := by
  refine (inOrder_bytes size d).bind fun contents => ?_
  split
  · exact .pure _ d
  · exact .pure _ d

/-- The contents of a section are read in order, with the size used by custom sections only. -/
theorem inOrder_sectionContents (id : UInt8) (size d : Nat) :
    InOrder (sectionContents id size) d d := by
  unfold sectionContents
  split
  · exact (inOrder_customSection size d).map _
  · exact (inOrder_vec (inOrder_funcType d)).map _
  · exact (inOrder_vec (inOrder_importEntry d)).map _
  · exact (inOrder_vec (inOrder_u32 d)).map _
  · exact (inOrder_vec (inOrder_tableType d)).map _
  · exact (inOrder_vec (inOrder_memoryType d)).map _
  · exact (inOrder_vec (inOrder_globalEntry d)).map _
  · exact (inOrder_vec (inOrder_exportEntry d)).map _
  · exact (inOrder_u32 d).map _
  · exact (inOrder_vec (inOrder_elementSegment d)).map _
  · exact (inOrder_vec (inOrder_bodyEntry d)).map _
  · exact (inOrder_vec (inOrder_dataSegment d)).map _
  · exact .throw rfl d d

/-- A section is read in order, so that what follows it has no part in it. -/
theorem inOrder_sectionEntry (d : Nat) : InOrder sectionEntry d d :=
  (inOrder_byte d).bind fun id => (inOrder_u32 d).bind fun size =>
    inOrder_sectionContents id size.toNat d

theorem needsInput_sectionEntry : NeedsInput sectionEntry :=
  needsInput_byte.bind _

theorem inOrder_literal (context : String) (bs : List UInt8) (d : Nat) :
    InOrder (literal context bs) d d := by
  induction bs with
  | nil => exact .pure () d
  | cons b bs ih => exact (inOrder_expect [b] context d).bind fun _ => ih

theorem inOrder_preamble (d : Nat) : InOrder preamble d d :=
  (inOrder_literal _ _ d).bind fun _ => inOrder_literal _ _ d

end WebAssembly.Decoder
