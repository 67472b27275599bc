import WebAssembly.Proofs.Binary.Locality

/-!
# Readers over many steps

A reader can be used on after a failure. Each operation moves it forwards through its bytes, or
leaves it where it is. When an operation succeeds, as many constructs are open as before; when it
fails inside of constructs, these stay open. `Decoder.Closes` says this of one decoder and goes from
parts to what is made of them. `Reader.Operation` lists the operations, and `Reader.after` runs any
sequence of them.
-/

namespace WebAssembly

/-- `r'` is further on in the same bytes. -/
def Reader.Precedes (r r' : Reader) : Prop :=
  ∃ taken, r.unread = taken ++ r'.unread ∧ r'.pos = r.pos + taken.length

theorem Reader.Precedes.refl (r : Reader) : r.Precedes r :=
  ⟨[], rfl, rfl⟩

/-- The bytes taken by two moves are those of the one and then those of the other. -/
theorem Reader.Precedes.trans {r r' r'' : Reader} (h : r.Precedes r') (h' : r'.Precedes r'') :
    r.Precedes r'' := by
  obtain ⟨taken, hunread, hpos⟩ := h
  obtain ⟨taken', hunread', hpos'⟩ := h'
  refine ⟨taken ++ taken', ?_, ?_⟩
  · rw [hunread, hunread', List.append_assoc]
  · rw [hpos', hpos, List.length_append, Nat.add_assoc]

/-- A reader never moves back. -/
theorem Reader.Precedes.le {r r' : Reader} (h : r.Precedes r') : r.pos ≤ r'.pos := by
  obtain ⟨taken, _, hpos⟩ := h
  omega

namespace Decoder

variable {α β : Type} {k : Nat}

/-- At the bound on nesting entering fails and moves nothing. -/
theorem enter_of_full {r : Reader} (h : Bound.nesting.limit ≤ r.depth) :
    enter r = .error (.limitExceeded .nesting) r :=
  if_pos h

theorem enter_of_room {r : Reader} (h : ¬ Bound.nesting.limit ≤ r.depth) :
    enter r = .ok () { r with depth := r.depth + 1 } :=
  if_neg h

/-- Of the constructs that are open, a decoder closes `k` when it succeeds, and none when it fails,
but it may leave more of them open then. -/
def Closes (k : Nat) (x : Decoder α) : Prop :=
  ∀ r : Reader, k ≤ r.depth → r.depth ≤ Bound.nesting.limit →
    Meets (fun _ r' => r.Precedes r' ∧ r'.depth + k = r.depth)
      (fun _ r' => r.Precedes r' ∧ r.depth ≤ r'.depth ∧ r'.depth ≤ Bound.nesting.limit) (x r)

namespace Closes

theorem pure (a : α) : Closes 0 (pure a) :=
  fun r _ _ => ⟨.refl r, rfl⟩

theorem throw (e : DecodeError) : Closes k (throw e : Decoder α) :=
  fun r _ hd => ⟨.refl r, Nat.le_refl _, hd⟩

/-- A decoder that closes nothing may come before one that closes `k` constructs. -/
theorem bind {x : Decoder α} {f : α → Decoder β} (hx : Closes 0 x) (hf : ∀ a, Closes k (f a)) :
    Closes k (x >>= f) := by
  intro r hk hd
  have h := hx r (Nat.zero_le _) hd
  cases hread : x r with
  | error e r' =>
      rw [hread] at h
      rw [bind_of_error hread]
      exact h
  | ok a r' =>
      rw [hread] at h
      obtain ⟨hbefore, hdepth⟩ := h
      rw [Nat.add_zero] at hdepth
      rw [bind_of_ok hread]
      -- the second decoder starts at the same depth, so what is assumed of the depth holds for it
      rw [← hdepth] at hk hd ⊢
      refine (hf a r' hk hd).mono ?_ ?_
      · rintro _ r'' ⟨hbefore', hdepth'⟩
        exact ⟨hbefore.trans hbefore', hdepth'⟩
      · rintro _ r'' ⟨hbefore', hdepth'⟩
        exact ⟨hbefore.trans hbefore', hdepth'⟩

theorem map {x : Decoder α} (hx : Closes 0 x) (g : α → β) :
    Closes 0 (x >>= fun a => Pure.pure (g a)) :=
  hx.bind fun a => .pure (g a)

/-- What is entered has to be left again. -/
theorem enter {x : Decoder α} (hx : Closes (k + 1) x) : Closes k (enter >>= fun _ => x) := by
  intro r hk hd
  by_cases hfull : Bound.nesting.limit ≤ r.depth
  · rw [bind_of_error (enter_of_full hfull)]
    exact ⟨.refl r, Nat.le_refl _, hd⟩
  · rw [bind_of_ok (enter_of_room hfull)]
    have hinside := hx { r with depth := r.depth + 1 } (Nat.succ_le_succ hk)
      (Nat.lt_of_not_le hfull)
    refine hinside.mono ?_ ?_
    · rintro _ r' ⟨hbefore, hdepth⟩
      exact ⟨hbefore, Nat.succ.inj hdepth⟩
    · rintro _ r' ⟨hbefore, hdepth, hlimit⟩
      exact ⟨hbefore, Nat.le_of_succ_le hdepth, hlimit⟩

theorem leave (a : α) : Closes 1 (leave >>= fun _ => Pure.pure a) :=
  fun r hk _ => ⟨.refl r, Nat.sub_add_cancel hk⟩

end Closes

/-! ## Bytes and numbers

None of these opens a construct. What has to be shown is how far the reader has moved when one of
them fails.
-/

theorem closes_peek : Closes 0 peek :=
  fun r _ _ => ⟨.refl r, rfl⟩

theorem closes_hasMore : Closes 0 hasMore :=
  fun r _ _ => ⟨.refl r, rfl⟩

theorem closes_remaining : Closes 0 remaining :=
  fun r _ _ => ⟨.refl r, rfl⟩

theorem closes_next : Closes 0 next := by
  rintro ⟨_ | ⟨b, rest⟩, pos, d⟩ _ _
  · exact ⟨.refl _, rfl⟩
  · exact ⟨⟨[b], rfl, rfl⟩, rfl⟩

theorem closes_byte : Closes 0 byte := by
  rintro ⟨_ | ⟨b, rest⟩, pos, d⟩ _ hd
  · exact ⟨.refl _, Nat.le_refl _, hd⟩
  · exact ⟨⟨[b], rfl, rfl⟩, rfl⟩

/-- An unexpected byte has been read when it is refused, and nothing is opened for it. -/
theorem closes_expect (allowed : List UInt8) (context : String) :
    Closes 0 (expect allowed context) := by
  refine .bind closes_byte fun b => ?_
  split
  · exact .pure b
  · exact .throw _

/-- Taking bytes takes all or none of them. -/
theorem closes_bytes (n : Nat) : Closes 0 (bytes n) := by
  intro r _ hd
  unfold bytes
  split
  · next taken rest hsplit =>
      obtain ⟨rfl, hunread⟩ := splitExact?_eq_some hsplit
      exact ⟨⟨taken, hunread, rfl⟩, rfl⟩
  · exact ⟨.refl r, Nat.le_refl _, hd⟩

theorem closes_skip (n : Nat) : Closes 0 (skip n) := by
  intro r _ hd
  unfold skip
  split
  · next taken rest hsplit =>
      obtain ⟨rfl, hunread⟩ := splitExact?_eq_some hsplit
      exact ⟨⟨taken, hunread, rfl⟩, rfl⟩
  · exact ⟨⟨r.unread, (List.append_nil _).symm, rfl⟩, Nat.le_refl _, hd⟩

/-- A number that does not end takes all bytes that are left. -/
theorem closes_leb128 : Closes 0 leb128 := by
  rintro ⟨unread, pos, d⟩ _ hd
  -- without a last byte the whole input has been taken when the number is refused
  cases hscan : Leb128.scan unread 0#64 0 with
  | some s =>
      obtain ⟨bs, hbs, rfl⟩ := exists_of_scan hscan
      obtain ⟨_, _, hread⟩ := leb128_of_terminated hbs d s.rest pos
      rw [hread]
      exact ⟨⟨bs, rfl, rfl⟩, rfl⟩
  | none =>
      have hread : leb128 ⟨unread, pos, d⟩ =
          .error .unexpectedEof ⟨[], pos + unread.length, d⟩ := by
        rw [leb128, hscan]
        rfl
      rw [hread]
      exact ⟨⟨unread, (List.append_nil _).symm, rfl⟩, Nat.le_refl _, hd⟩

theorem closes_u64 : Closes 0 u64 :=
  .map closes_leb128 _

theorem closes_s64 : Closes 0 s64 :=
  .map closes_leb128 _

theorem closes_u32 : Closes 0 u32 :=
  .map closes_u64 _

theorem closes_s32 : Closes 0 s32 :=
  .map closes_s64 _

/-! ## Vectors and names

Items are read with the depth they start from, so a vector of any length leaves it unchanged.
-/

theorem closes_repeated {item : Decoder α} (h : Closes 0 item) (n : Nat) (acc : List α) :
    Closes 0 (repeated item n acc) := by
  induction n generalizing acc with
  | zero => exact .pure _
  | succ n ih => exact h.bind fun a => ih (a :: acc)

theorem closes_vec {item : Decoder α} (h : Closes 0 item) : Closes 0 (vec item) :=
  .bind closes_u32 fun n => closes_repeated h n.toNat []

/-- A vector over its bound is refused once its count is read. -/
theorem closes_boundedVec {item : Decoder α} (bound : Bound) (h : Closes 0 item) :
    Closes 0 (boundedVec bound item) := by
  refine .bind closes_u32 fun n => ?_
  split
  · exact .throw _
  · exact closes_repeated h n.toNat []

theorem closes_float (t : FloatType) : Closes 0 (float t) :=
  (closes_repeated closes_byte (t.width / 8) []).map _

theorem closes_byteString : Closes 0 byteString :=
  .bind closes_u32 fun n => closes_bytes n.toNat

theorem closes_name : Closes 0 name := by
  refine .bind closes_byteString fun bs => ?_
  split
  · exact .pure _
  · exact .throw _

/-! ## Instructions -/

theorem closes_memArg : Closes 0 memArg :=
  .bind closes_u32 fun _ => .map closes_u32 _

theorem closes_reserved (context : String) : Closes 0 (reserved context) :=
  (closes_expect [0x00] context).map _

theorem closes_blockType : Closes 0 blockType := by
  refine .bind closes_byte fun b => ?_
  split
  · exact .pure _
  · split
    · exact .pure _
    · exact .throw _

/-- Immediates of plain instructions open no construct. -/
theorem closes_plain (b : UInt8) : Closes 0 (plain b) := by
  unfold plain
  split
  · exact .pure _
  · exact .pure _
  · exact .map closes_u32 _
  · exact .map closes_u32 _
  · exact .map closes_u32 _
  · exact .map closes_u32 _
  · exact .map closes_u32 _
  · exact (closes_reserved _).map _
  · exact (closes_reserved _).map _
  · exact .map closes_s32 _
  · exact .map closes_s64 _
  · exact (closes_float .f32).map _
  · exact (closes_float .f64).map _
  · split
    · exact .map closes_memArg _
    · exact .map closes_memArg _
    · exact .pure _
    · exact .throw _

theorem closes_bodiless (b : UInt8) : Closes 0 (bodiless b) := by
  unfold bodiless
  split
  · exact .pure _
  · exact .pure _
  · exact .map closes_u32 _
  · exact .map closes_u32 _
  · exact (closes_boundedVec .branchLabels closes_u32).bind fun _ => .map closes_u32 _
  · exact .pure _
  · exact .map closes_u32 _
  · exact .bind closes_u32 fun _ => (closes_reserved _).map _
  · exact (closes_plain b).map _

/-! ## Instructions with bodies

The two recursive readers are seen as one step each around readers for less fuel. What they keep,
they keep by induction on the fuel.
-/

/-- One instruction, with the given ways to leave a construct and to read a body. -/
def instructionBy (close : Decoder Unit) (sequence : Bool → Decoder (List Instruction × UInt8)) :
    Decoder Instruction := do
  let b ← byte
  match b with
  | 0x02 => do
    let type ← blockType
    enter
    let (body, _) ← sequence false
    close
    return .block type body
  | 0x03 => do
    let type ← blockType
    enter
    let (body, _) ← sequence false
    close
    return .loop type body
  | 0x04 => do
    let type ← blockType
    enter
    let (thenBody, terminator) ← sequence true
    let elseBody ←
      if terminator = elseCode then do
        let (body, _) ← sequence false
        pure body
      else pure []
    close
    return .ifElse type thenBody elseBody
  | _ => bodiless b

/-- Instructions up to the byte that ends them, with the given ways to read one and those behind. -/
def sequenceBy (instruction : Decoder Instruction)
    (sequence : List Instruction → Decoder (List Instruction × UInt8)) (allowElse : Bool)
    (acc : List Instruction) : Decoder (List Instruction × UInt8) := do
  match ← peek with
  | none => throw .unexpectedEof
  | some b =>
    if b = endCode || (b = elseCode && allowElse) then do
      let terminator ← sequenceEnd allowElse
      return (acc.reverse, terminator)
    else do
      let i ← instruction
      sequence (i :: acc)

/-- The reader of instructions as one step around a reader of sequences. -/
theorem instructionAux_succ (fuel : Nat) :
    instructionAux (fuel + 1) =
      instructionBy leave fun allowElse => sequenceAux fuel allowElse [] := by
  rw [instructionAux]
  rfl

/-- The reader of sequences as one step around the two readers. -/
theorem sequenceAux_succ (fuel : Nat) (allowElse : Bool) (acc : List Instruction) :
    sequenceAux (fuel + 1) allowElse acc =
      sequenceBy (instructionAux fuel) (sequenceAux fuel allowElse) allowElse acc := by
  rw [sequenceAux]
  rfl

/-- A construct whose body cannot be read stays open. -/
theorem closes_instructionBy {sequence : Bool → Decoder (List Instruction × UInt8)}
    (h : ∀ allowElse, Closes 0 (sequence allowElse)) : Closes 0 (instructionBy leave sequence) := by
  refine .bind closes_byte fun b => ?_
  split
  · exact .bind closes_blockType fun _ => .enter ((h false).bind fun _ => .leave _)
  · exact .bind closes_blockType fun _ => .enter ((h false).bind fun _ => .leave _)
  · refine .bind closes_blockType fun _ => .enter ((h true).bind fun (thenBody, terminator) => ?_)
    dsimp only
    split
    · exact (h false).bind fun _ => (Closes.pure _).bind fun _ => .leave _
    · exact (Closes.pure _).bind fun _ => .leave _
  · exact closes_bodiless b

/-- A sequence closes what its instructions do, which is nothing. -/
theorem closes_sequenceBy {instruction : Decoder Instruction}
    {sequence : List Instruction → Decoder (List Instruction × UInt8)} (hi : Closes 0 instruction)
    (h : ∀ acc, Closes 0 (sequence acc)) (allowElse : Bool) (acc : List Instruction) :
    Closes 0 (sequenceBy instruction sequence allowElse acc) := by
  refine .bind closes_peek fun next => ?_
  split
  · exact .throw _
  · split
    · exact (closes_expect _ _).map _
    · exact hi.bind fun i => h (i :: acc)

/-- By induction on the fuel, for instructions and sequences together. -/
theorem closes_aux (fuel : Nat) :
    Closes 0 (instructionAux fuel) ∧
      ∀ allowElse acc, Closes 0 (sequenceAux fuel allowElse acc) := by
  -- both readers at once, since each calls the other with one less unit of fuel
  induction fuel with
  | zero =>
      constructor
      · rw [instructionAux]
        exact .throw _
      · intro allowElse acc
        rw [sequenceAux]
        exact .throw _
  | succ fuel ih =>
      obtain ⟨ihinstruction, ihsequence⟩ := ih
      constructor
      · rw [instructionAux_succ]
        exact closes_instructionBy fun allowElse => ihsequence allowElse []
      · intro allowElse acc
        rw [sequenceAux_succ]
        exact closes_sequenceBy ihinstruction (ihsequence allowElse) allowElse acc

theorem closes_instruction : Closes 0 instruction :=
  fun r => (closes_aux (fuelFor r.unread.length)).1 r

/-- A body read to its end leaves as many constructs open as there were before. -/
theorem closes_expr : Closes 0 expr := by
  have hbody : Closes 0 fun r => sequenceAux (fuelFor r.unread.length) false [] r :=
    fun r => (closes_aux (fuelFor r.unread.length)).2 false [] r
  exact hbody.map _

/-! ## Leaving constructs

A reader could be written to check that there is a construct to leave. It would never find that
there is none, so such a check makes no difference, whatever it would do.
-/

/-- Leaves a construct. Where none is open, something else is done. -/
def leaveOr (otherwise : Decoder Unit) : Decoder Unit := fun r =>
  if r.depth = 0 then otherwise r else leave r

mutual

/-- `instructionAux` with something else done where no construct is open that could be left. -/
def guardedInstructionAux (otherwise : Decoder Unit) : (fuel : Nat) → Decoder Instruction
  | 0 => throw .unexpectedEof
  | fuel + 1 =>
    instructionBy (leaveOr otherwise) fun allowElse =>
      guardedSequenceAux otherwise fuel allowElse []

/-- `sequenceAux` with something else done where no construct is open that could be left. -/
def guardedSequenceAux (otherwise : Decoder Unit) : (fuel : Nat) → (allowElse : Bool) →
    (acc : List Instruction) → Decoder (List Instruction × UInt8)
  | 0, _, _ => throw .unexpectedEof
  | fuel + 1, allowElse, acc =>
    sequenceBy (guardedInstructionAux otherwise fuel)
      (fun acc => guardedSequenceAux otherwise fuel allowElse acc) allowElse acc

end

/-- `instruction` with something else done where no construct is open that could be left. -/
def guardedInstruction (otherwise : Decoder Unit) : Decoder Instruction :=
  fun r => guardedInstructionAux otherwise (fuelFor r.unread.length) r

/-- `expr` with something else done where no construct is open that could be left. -/
def guardedExpr (otherwise : Decoder Unit) : Decoder Expr := do
  let (body, _) ← (fun r => guardedSequenceAux otherwise (fuelFor r.unread.length) false [] r)
  return body

/-- With at least `k` constructs open, and not too many, both decoders do the same. -/
def Coincide (k : Nat) (x y : Decoder α) : Prop :=
  ∀ r : Reader, k ≤ r.depth → r.depth ≤ Bound.nesting.limit → x r = y r

namespace Coincide

variable {otherwise : Decoder Unit}

theorem refl (x : Decoder α) : Coincide k x x :=
  fun _ _ _ => rfl

/-- The second decoders may be looked at where the first one succeeds, with as many constructs
open. -/
theorem bind {x y : Decoder α} {f g : α → Decoder β} (hxy : Coincide 0 x y) (hy : Closes 0 y)
    (hfg : ∀ a, Coincide k (f a) (g a)) : Coincide k (x >>= f) (y >>= g) := by
  intro r hk hd
  have hsame := hxy r (Nat.zero_le _) hd
  have hcloses := hy r (Nat.zero_le _) hd
  cases hread : y r with
  | error e r' => rw [bind_of_error hread, bind_of_error (hsame.trans hread)]
  | ok a r' =>
      rw [hread] at hcloses
      have hdepth : r'.depth = r.depth := hcloses.2
      rw [bind_of_ok hread, bind_of_ok (hsame.trans hread)]
      exact hfg a r' (hdepth ▸ hk) (hdepth ▸ hd)

/-- Behind an entry one more construct is open, so one more may be left. -/
theorem enter {x y : Decoder α} (hxy : Coincide (k + 1) x y) :
    Coincide k (enter >>= fun _ => x) (enter >>= fun _ => y) := by
  intro r hk hd
  by_cases hfull : Bound.nesting.limit ≤ r.depth
  · rw [bind_of_error (enter_of_full hfull), bind_of_error (enter_of_full hfull)]
  · rw [bind_of_ok (enter_of_room hfull), bind_of_ok (enter_of_room hfull)]
    exact hxy _ (Nat.succ_le_succ hk) (Nat.lt_of_not_le hfull)

/-- With a construct open, what a guard would do without one does not matter. -/
theorem leave (f : Unit → Decoder α) :
    Coincide 1 (leaveOr otherwise >>= f) (leave >>= f) := by
  intro r hk _
  have hsame : leaveOr otherwise r = Decoder.leave r := if_neg (Nat.ne_of_gt hk)
  have hleave : Decoder.leave r = .ok () { r with depth := r.depth - 1 } := rfl
  rw [bind_of_ok (hsame.trans hleave), bind_of_ok hleave]

end Coincide

/-- What is left was entered by the same instruction, and the bodies in between leave the depth as
it was. -/
theorem coincide_instructionBy {otherwise : Decoder Unit}
    {sequence sequence' : Bool → Decoder (List Instruction × UInt8)}
    (h : ∀ allowElse, Coincide 0 (sequence allowElse) (sequence' allowElse))
    (hcloses : ∀ allowElse, Closes 0 (sequence' allowElse)) :
    Coincide 0 (instructionBy (leaveOr otherwise) sequence) (instructionBy leave sequence') := by
  refine (Coincide.refl _).bind closes_byte fun b => ?_
  split
  · exact (Coincide.refl _).bind closes_blockType fun _ =>
      .enter ((h false).bind (hcloses false) fun _ => .leave _)
  · exact (Coincide.refl _).bind closes_blockType fun _ =>
      .enter ((h false).bind (hcloses false) fun _ => .leave _)
  · refine (Coincide.refl _).bind closes_blockType fun _ =>
      .enter ((h true).bind (hcloses true) fun (thenBody, terminator) => ?_)
    -- a second arm is read only behind `else`; either way one construct is left
    dsimp only
    split
    · exact (h false).bind (hcloses false) fun _ =>
        (Coincide.refl _).bind (.pure _) fun _ => .leave _
    · exact (Coincide.refl _).bind (.pure _) fun _ => .leave _
  · exact .refl _

/-- A guarded sequence reads as the plain one if its instructions do. -/
theorem coincide_sequenceBy {instruction instruction' : Decoder Instruction}
    {sequence sequence' : List Instruction → Decoder (List Instruction × UInt8)}
    (hi : Coincide 0 instruction instruction') (hcloses : Closes 0 instruction')
    (h : ∀ acc, Coincide 0 (sequence acc) (sequence' acc)) (allowElse : Bool)
    (acc : List Instruction) :
    Coincide 0 (sequenceBy instruction sequence allowElse acc)
      (sequenceBy instruction' sequence' allowElse acc) := by
  refine (Coincide.refl _).bind closes_peek fun next => ?_
  split
  · exact .refl _
  · split
    · exact .refl _
    · exact hi.bind hcloses fun i => h (i :: acc)

/-- By induction on the fuel, for instructions and sequences together. -/
theorem coincide_aux (otherwise : Decoder Unit) (fuel : Nat) :
    Coincide 0 (guardedInstructionAux otherwise fuel) (instructionAux fuel) ∧
      ∀ allowElse acc, Coincide 0 (guardedSequenceAux otherwise fuel allowElse acc)
        (sequenceAux fuel allowElse acc) := by
  induction fuel with
  | zero =>
      constructor
      · rw [guardedInstructionAux, instructionAux]
        exact .refl _
      · intro allowElse acc
        rw [guardedSequenceAux, sequenceAux]
        exact .refl _
  | succ fuel ih =>
      obtain ⟨ihinstruction, ihsequence⟩ := ih
      obtain ⟨hinstruction, hsequence⟩ := closes_aux fuel
      constructor
      · rw [guardedInstructionAux, instructionAux_succ]
        exact coincide_instructionBy (fun allowElse => ihsequence allowElse [])
          fun allowElse => hsequence allowElse []
      · intro allowElse acc
        rw [guardedSequenceAux, sequenceAux_succ]
        exact coincide_sequenceBy ihinstruction hinstruction (ihsequence allowElse) allowElse acc

theorem coincide_instruction (otherwise : Decoder Unit) :
    Coincide 0 (guardedInstruction otherwise) instruction :=
  fun r => (coincide_aux otherwise (fuelFor r.unread.length)).1 r

/-- The guard on leaving is never used while a body is read. -/
theorem coincide_expr (otherwise : Decoder Unit) : Coincide 0 (guardedExpr otherwise) expr := by
  have hbody : Coincide 0
      (fun r => guardedSequenceAux otherwise (fuelFor r.unread.length) false [] r)
      (fun r => sequenceAux (fuelFor r.unread.length) false [] r) :=
    fun r => (coincide_aux otherwise (fuelFor r.unread.length)).2 false [] r
  exact hbody.bind (fun r => (closes_aux (fuelFor r.unread.length)).2 false [] r) fun _ => .refl _

theorem coincide_repeated {item item' : Decoder α} (h : Coincide 0 item item')
    (hitem : Closes 0 item') (n : Nat) (acc : List α) :
    Coincide 0 (repeated item n acc) (repeated item' n acc) := by
  induction n generalizing acc with
  | zero => exact .refl _
  | succ n ih => exact h.bind hitem fun a => ih (a :: acc)

/-! ## Progress

A reader of code that succeeds has moved on, so reading in a loop comes to an end.
-/

theorem needsInput_expr : NeedsInput expr := by
  have hbody : NeedsInput fun r => sequenceAux (fuelFor r.unread.length) false [] r :=
    fun pos d => needsInput_sequenceAux _ false [] pos d
  exact hbody.bind _

/-- An instruction takes at least its opcode. -/
theorem takes_instruction : Takes 1 instruction := by
  intro r
  have haux := inOrder_aux (fuelFor r.unread.length)
  exact takes_one haux.1 (needsInput_instructionAux _) r

theorem takes_expr : Takes 1 expr :=
  takes_one inOrder_expr needsInput_expr

end Decoder

/-- A reader that has taken bytes is further on. -/
theorem Reader.Precedes.lt {r r' : Reader} (h : r.Precedes r')
    (htaken : r'.unread.length + 1 ≤ r.unread.length) : r.pos < r'.pos := by
  obtain ⟨taken, hunread, hpos⟩ := h
  rw [hunread, List.length_append] at htaken
  omega

/-! ## Operations

What can be asked of a reader, as a type, so that all sequences of operations can be spoken of.
-/

namespace Reader

/-- The operations on a reader. An item of a vector may be made of several of them, where each may
depend on the values read before, and ends with the first of them that fails. -/
inductive Operation : Type → Type 1
  | peek : Operation (Option UInt8)
  | hasMore : Operation Bool
  | remaining : Operation Nat
  | next : Operation (Option UInt8)
  | byte : Operation UInt8
  | expect (allowed : List UInt8) (context : String) : Operation UInt8
  | skip (n : Nat) : Operation Unit
  | bytes (n : Nat) : Operation (List UInt8)
  | u64 : Operation (BitVec 64)
  | u32 : Operation UInt32
  | s64 : Operation (BitVec 64)
  | s32 : Operation (BitVec 32)
  | float (t : FloatType) : Operation t.Bits
  | byteString : Operation (List UInt8)
  | name : Operation String
  | vec {α : Type} (item : Operation α) : Operation (List α)
  | memArg : Operation MemArg
  | blockType : Operation BlockType
  | instruction : Operation Instruction
  | expr : Operation Expr
  | done {α : Type} (a : α) : Operation α
  | fail {α : Type} (e : DecodeError) : Operation α
  | andThen {α β : Type} (first : Operation α) (second : α → Operation β) : Operation β

namespace Operation

variable {α : Type}

/-- The decoder of an operation, with the given ones for instructions and bodies. -/
def runWith (instruction : Decoder Instruction) (expr : Decoder Expr) :
    {α : Type} → Operation α → Decoder α
  | _, .peek => Decoder.peek
  | _, .hasMore => Decoder.hasMore
  | _, .remaining => Decoder.remaining
  | _, .next => Decoder.next
  | _, .byte => Decoder.byte
  | _, .expect allowed context => Decoder.expect allowed context
  | _, .skip n => Decoder.skip n
  | _, .bytes n => Decoder.bytes n
  | _, .u64 => Decoder.u64
  | _, .u32 => Decoder.u32
  | _, .s64 => Decoder.s64
  | _, .s32 => Decoder.s32
  | _, .float t => Decoder.float t
  | _, .byteString => Decoder.byteString
  | _, .name => Decoder.name
  | _, .vec item => Decoder.vec (item.runWith instruction expr)
  | _, .memArg => Decoder.memArg
  | _, .blockType => Decoder.blockType
  | _, .instruction => instruction
  | _, .expr => expr
  | _, .done a => pure a
  | _, .fail e => throw e
  | _, .andThen first second => do
    let a ← first.runWith instruction expr
    (second a).runWith instruction expr

/-- The decoder of an operation. -/
def run (op : Operation α) : Decoder α :=
  op.runWith Decoder.instruction Decoder.expr

/-- The decoder of an operation, with something else done where no construct is open that could be
left. -/
def runGuarded (otherwise : Decoder Unit) (op : Operation α) : Decoder α :=
  op.runWith (Decoder.guardedInstruction otherwise) (Decoder.guardedExpr otherwise)

section

variable {instruction instruction' : Decoder Instruction} {expr expr' : Decoder Expr}

/-- Each operation of a reader closes what it opens, given that the two for code do. -/
theorem closes_runWith (hinstruction : Decoder.Closes 0 instruction)
    (hexpr : Decoder.Closes 0 expr) (op : Operation α) :
    Decoder.Closes 0 (op.runWith instruction expr) := by
  induction op with
  | peek => exact Decoder.closes_peek
  | hasMore => exact Decoder.closes_hasMore
  | remaining => exact Decoder.closes_remaining
  | next => exact Decoder.closes_next
  | byte => exact Decoder.closes_byte
  | expect allowed context => exact Decoder.closes_expect allowed context
  | skip n => exact Decoder.closes_skip n
  | bytes n => exact Decoder.closes_bytes n
  | u64 => exact Decoder.closes_u64
  | u32 => exact Decoder.closes_u32
  | s64 => exact Decoder.closes_s64
  | s32 => exact Decoder.closes_s32
  | float t => exact Decoder.closes_float t
  | byteString => exact Decoder.closes_byteString
  | name => exact Decoder.closes_name
  | vec item ih => exact Decoder.closes_vec ih
  | memArg => exact Decoder.closes_memArg
  | blockType => exact Decoder.closes_blockType
  | instruction => exact hinstruction
  | expr => exact hexpr
  | done a => exact .pure a
  | fail e => exact .throw e
  | andThen first second ih ih' => exact ih.bind ih'

/-- Operations differ only where the readers of instructions and bodies do. -/
theorem coincide_runWith (hinstruction : Decoder.Coincide 0 instruction instruction')
    (hexpr : Decoder.Coincide 0 expr expr') (hcloses : Decoder.Closes 0 instruction')
    (hcloses' : Decoder.Closes 0 expr') (op : Operation α) :
    Decoder.Coincide 0 (op.runWith instruction expr) (op.runWith instruction' expr') := by
  induction op with
  | vec item ih =>
      exact (Decoder.Coincide.refl _).bind Decoder.closes_u32 fun n =>
        Decoder.coincide_repeated ih (closes_runWith hcloses hcloses' item) n.toNat []
  | instruction => exact hinstruction
  | expr => exact hexpr
  | andThen first second ih ih' => exact ih.bind (closes_runWith hcloses hcloses' first) ih'
  | _ => exact .refl _

end

theorem closes_run (op : Operation α) : Decoder.Closes 0 op.run :=
  closes_runWith Decoder.closes_instruction Decoder.closes_expr op

/-- No operation ever leaves a construct it has not entered. -/
theorem coincide_run (otherwise : Decoder Unit) (op : Operation α) :
    Decoder.Coincide 0 (op.runGuarded otherwise) op.run :=
  coincide_runWith (Decoder.coincide_instruction otherwise) (Decoder.coincide_expr otherwise)
    Decoder.closes_instruction Decoder.closes_expr op

end Operation

/-! ## Sequences of operations

Failed operations included: the reader goes on from where the failure has left it.
-/

/-- A step: an operation after which reading goes on, whether it has failed or not. -/
abbrev Step : Type 1 :=
  (α : Type) × Operation α

/-- The reader after one step after the other. -/
def after (r : Reader) (steps : List Step) : Reader :=
  steps.foldl (fun r step => final (step.2.run r)) r

/-- The reader is at a place in `buffer`, or at its end, and no more constructs are open than
allowed. -/
structure Of (buffer : List UInt8) (r : Reader) : Prop where
  pos_le : r.pos ≤ buffer.length
  unread_eq : r.unread = buffer.drop r.pos
  depth_le : r.depth ≤ 1024

variable {buffer : List UInt8} {r r' : Reader}

theorem of_ofBytes (buffer : List UInt8) : Of buffer (ofBytes buffer) :=
  ⟨Nat.zero_le _, rfl, Nat.zero_le _⟩

/-- A reader further on in the buffer is one of the same buffer. -/
theorem Of.of_precedes (h : Of buffer r) (hprecedes : r.Precedes r') (hdepth : r'.depth ≤ 1024) :
    Of buffer r' := by
  obtain ⟨taken, hunread, hpos⟩ := hprecedes
  have hlength : taken.length + r'.unread.length = buffer.length - r.pos := by
    rw [← List.length_append, ← hunread, h.unread_eq, List.length_drop]
  refine ⟨?_, ?_, hdepth⟩
  · have := h.pos_le
    omega
  · rw [hpos, ← List.drop_drop, ← h.unread_eq, hunread, List.drop_left]

/-- What one operation does to a reader of `buffer`. -/
theorem Of.run {α : Type} (h : Of buffer r) (op : Operation α) :
    Meets (fun _ r' => Of buffer r' ∧ r.pos ≤ r'.pos ∧ r'.depth = r.depth)
      (fun _ r' => Of buffer r' ∧ r.pos ≤ r'.pos ∧ r.depth ≤ r'.depth) (op.run r) := by
  refine (op.closes_run r (Nat.zero_le _) h.depth_le).mono ?_ ?_
  · rintro _ r' ⟨hprecedes, hdepth⟩
    have hdepth : r'.depth = r.depth := hdepth
    exact ⟨h.of_precedes hprecedes (hdepth ▸ h.depth_le), hprecedes.le, hdepth⟩
  · rintro _ r' ⟨hprecedes, hdepth, hlimit⟩
    exact ⟨h.of_precedes hprecedes hlimit, hprecedes.le, hdepth⟩

/-- One step, failed or not, keeps the reader within its buffer and moves it forwards. -/
theorem Of.step (h : Of buffer r) (step : Step) :
    Of buffer (final (step.2.run r)) ∧ r.pos ≤ (final (step.2.run r)).pos ∧
      r.depth ≤ (final (step.2.run r)).depth := by
  have hrun := h.run step.2
  cases hresult : step.2.run r with
  | ok a r' =>
      rw [hresult] at hrun
      obtain ⟨hof, hpos, hdepth⟩ := hrun
      exact ⟨hof, hpos, Nat.le_of_eq hdepth.symm⟩
  | error e r' =>
      rw [hresult] at hrun
      exact hrun

/-- By induction on the steps. -/
theorem Of.after (h : Of buffer r) (steps : List Step) :
    Of buffer (r.after steps) ∧ r.pos ≤ (r.after steps).pos ∧
      r.depth ≤ (r.after steps).depth := by
  induction steps generalizing r with
  | nil => exact ⟨h, Nat.le_refl _, Nat.le_refl _⟩
  | cons step steps ih =>
      obtain ⟨hof, hpos, hdepth⟩ := h.step step
      obtain ⟨hof', hpos', hdepth'⟩ := ih hof
      exact ⟨hof', Nat.le_trans hpos hpos', Nat.le_trans hdepth hdepth'⟩

/-- A decoder that takes bytes when it succeeds moves the reader. -/
theorem Of.moves {α : Type} {x : Decoder α} (h : Of buffer r) (hcloses : Decoder.Closes 0 x)
    (htakes : Decoder.Takes 1 x) : Meets (fun _ r' => r.pos < r'.pos) (fun _ _ => True) (x r) := by
  have hmeets := hcloses r (Nat.zero_le _) h.depth_le
  cases hread : x r with
  | ok a r' =>
      rw [hread] at hmeets
      exact hmeets.1.lt (htakes r a r' hread)
  | error e r' => trivial

/-- After any sequence of operations on a reader of `buffer`, failed ones included, the reader is at
a place in `buffer`, so that what is left can be counted, and at most 1024 constructs are open. No
further sequence moves it back or closes constructs. An operation that succeeds leaves as many
constructs open as before, one that fails as many or more. It makes no difference what would be done
on leaving a construct with none open, as that never happens. An instruction or a body that is read
takes at least one byte. -/
theorem of_steps (buffer : List UInt8) (steps : List Step) :
    let r := (ofBytes buffer).after steps
    Of buffer r ∧ Decoder.remaining r = .ok (buffer.length - r.pos) r ∧
    (∀ more, Of buffer (r.after more) ∧ r.pos ≤ (r.after more).pos ∧
      r.depth ≤ (r.after more).depth) ∧
    (∀ (α : Type) (op : Operation α),
      Meets (fun _ r' => Of buffer r' ∧ r.pos ≤ r'.pos ∧ r'.depth = r.depth)
        (fun _ r' => Of buffer r' ∧ r.pos ≤ r'.pos ∧ r.depth ≤ r'.depth) (op.run r) ∧
      ∀ otherwise, op.runGuarded otherwise r = op.run r) ∧
    Meets (fun _ r' => r.pos < r'.pos) (fun _ _ => True) (Operation.instruction.run r) ∧
    Meets (fun _ r' => r.pos < r'.pos) (fun _ _ => True) (Operation.expr.run r) := by
  intro r
  have hof : Of buffer r := ((of_ofBytes buffer).after steps).1
  refine ⟨hof, ?_, hof.after, ?_, hof.moves Decoder.closes_instruction Decoder.takes_instruction,
    hof.moves Decoder.closes_expr Decoder.takes_expr⟩
  · rw [← List.length_drop, ← hof.unread_eq]
    rfl
  · intro α op
    exact ⟨hof.run op, fun otherwise => op.coincide_run otherwise r (Nat.zero_le _) hof.depth_le⟩

-- Two blocks are open when an opcode is refused. What is read next is read inside of them.
example : (ofBytes [0x02, 0x40, 0x02, 0x40, 0xff, 0x01, 0x0b]).after
    [⟨_, .instruction⟩, ⟨_, .expr⟩, ⟨_, .byte⟩] = ⟨[], 7, 2⟩ :=
  rfl

end Reader

end WebAssembly
