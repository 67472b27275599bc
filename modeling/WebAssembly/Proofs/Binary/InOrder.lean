import WebAssembly.Proofs.Binary.Vectors

/-!
# Reading in order

A decoder reads in order if it looks at its input byte by byte from the front: what it gives depends
only on the bytes that it takes, and if these are cut short it runs out of input, whatever else may
be wrong. Neither its value nor its error depends on where in a file the bytes stand. This is
`Decoder.InOrder`; it goes from parts to what is made of them, so it holds of every decoder that
does not ask how many bytes are left.
-/

namespace WebAssembly

/-- The error says that two sections do not belong together. No single decoder fails for that. -/
def DecodeError.isMismatch : DecodeError → Bool
  | .funcCodeMismatch _ _ => true
  | _ => false

namespace Decoder

variable {α β : Type} {x : Decoder α} {bs : List UInt8} {a : α} {d d' d'' : Nat}

/-- On a part of the bytes `bs` from their start, `x` runs out of input. -/
def CutShort (x : Decoder α) (bs : List UInt8) (d : Nat) : Prop :=
  ∀ cut, cut <+: bs → cut ≠ bs → ∀ pos, ∃ r, x ⟨cut, pos, d⟩ = .error .unexpectedEof r

/-- From `d` open constructs on, `x` looks at bytes one after the other, and has `d'` open
constructs when it succeeds. -/
structure InOrder (x : Decoder α) (d d' : Nat) : Prop where
  ok : ∀ {unread : List UInt8} {pos : Nat} {a : α} {r : Reader}, x ⟨unread, pos, d⟩ = .ok a r →
    ∃ bs, unread = bs ++ r.unread ∧ Reads x bs a d d' ∧ CutShort x bs d
  error : ∀ {unread : List UInt8} {pos : Nat} {e : DecodeError} {r : Reader},
    x ⟨unread, pos, d⟩ = .error e r →
      e.isMismatch = false ∧ ∀ pos', ∃ r', x ⟨unread, pos', d⟩ = .error e r'

/-! ## Putting decoders together

Being in order is kept by sequencing, by choice on a value that was read, and by looking at the next
byte. Nothing else is used by the decoders that have it.
-/

theorem CutShort.nil (x : Decoder α) (d : Nat) : CutShort x [] d :=
  fun _ hcut hne => absurd (List.prefix_nil.mp hcut) hne

/-- The bytes are cut short in those of the first decoder or in those of the second. -/
theorem CutShort.bind {f : α → Decoder β} {bs' : List UInt8} (hx : Reads x bs a d d')
    (hcut : CutShort x bs d) (hcut' : CutShort (f a) bs' d') :
    CutShort (x >>= f) (bs ++ bs') d := by
  intro cut hpart hne pos
  by_cases hfirst : bs <+: cut
  · obtain ⟨cut', rfl⟩ := hfirst
    have hsecond : cut' <+: bs' := (List.prefix_append_right_inj bs).mp hpart
    rw [bind_of_ok (hx cut' pos)]
    exact hcut' cut' hsecond (fun heq => hne (by rw [heq])) _
  · have hshort : cut <+: bs :=
      (List.prefix_or_prefix_of_prefix hpart (List.prefix_append bs bs')).resolve_right hfirst
    have hne' : cut ≠ bs := fun heq => hfirst (heq ▸ List.prefix_rfl)
    obtain ⟨r, herror⟩ := hcut cut hshort hne' pos
    exact ⟨r, bind_of_error herror⟩

namespace InOrder

/-- Nothing is read for a given value. -/
theorem pure (a : α) (d : Nat) : InOrder (pure a) d d where
  ok := by
    intro unread pos a' r h
    cases h
    exact ⟨[], rfl, .pure a d, .nil _ d⟩
  error := by
    intro unread pos e r h
    cases h

/-- A refusal needs no input and is the same at every position. -/
theorem throw {e : DecodeError} (he : e.isMismatch = false) (d d' : Nat) :
    InOrder (throw e : Decoder α) d d' where
  ok := by
    intro unread pos a r h
    cases h
  error := by
    intro unread pos e' r h
    cases h
    exact ⟨he, fun _ => ⟨_, rfl⟩⟩

/-- Decoders in order follow each other in order. A failure of the second comes after the bytes of
the first. -/
theorem bind {f : α → Decoder β} (hx : InOrder x d d') (hf : ∀ a, InOrder (f a) d' d'') :
    InOrder (x >>= f) d d'' where
  ok := by
    intro unread pos b r h
    obtain ⟨a, ⟨rest, _, _⟩, hread, hfollow⟩ := bind_eq_ok_iff.mp h
    obtain ⟨bs, rfl, hreads, hcut⟩ := hx.ok hread
    rw [hreads] at hread
    cases hread
    -- the second decoder starts where the first has stopped
    obtain ⟨bs', hrest, hreads', hcut'⟩ := (hf a).ok hfollow
    have hrest : rest = bs' ++ r.unread := hrest
    exact ⟨bs ++ bs', by rw [hrest, List.append_assoc], hreads.bind hreads',
      .bind hreads hcut hcut'⟩
  error := by
    intro unread pos e r h
    cases hread : x ⟨unread, pos, d⟩ with
    | error e' r' =>
        rw [bind_of_error hread] at h
        cases h
        obtain ⟨he, hplace⟩ := hx.error hread
        refine ⟨he, fun pos' => ?_⟩
        obtain ⟨r', herror⟩ := hplace pos'
        exact ⟨r', bind_of_error herror⟩
    | ok a r' =>
        obtain ⟨rest, _, _⟩ := r'
        obtain ⟨bs, rfl, hreads, _⟩ := hx.ok hread
        rw [hreads] at hread
        cases hread
        rw [bind_of_ok (hreads _ pos)] at h
        obtain ⟨he, hplace⟩ := (hf a).error h
        refine ⟨he, fun pos' => ?_⟩
        rw [bind_of_ok (hreads _ pos')]
        exact hplace _

theorem map (hx : InOrder x d d') (g : α → β) : InOrder (x >>= fun a => Pure.pure (g a)) d d' :=
  hx.bind fun a => .pure (g a) d'

/-- A decoder that is bounded by the length of its input, and with every larger bound does the
same. -/
theorem of_bounded {y : Nat → Decoder α} (hy : ∀ n, InOrder (y n) d d')
    (h : ∀ (n : Nat) (r : Reader), r.unread.length ≤ n → x r = y n r) : InOrder x d d' where
  ok := by
    intro unread pos a r hread
    have hread' := hread
    rw [h unread.length _ (Nat.le_refl _)] at hread'
    obtain ⟨bs, hsplit, _, hcut⟩ := (hy _).ok hread'
    refine ⟨bs, hsplit, fun rest pos' => ?_, fun cut hpart hne pos' => ?_⟩
    · -- one bound for the input that was read and for the other one
      have hlength : (bs ++ rest).length ≤ unread.length + (bs ++ rest).length :=
        Nat.le_add_left _ _
      rw [h (unread.length + (bs ++ rest).length) _ (Nat.le_add_right _ _)] at hread
      obtain ⟨bs', hsplit', hreads, _⟩ := (hy _).ok hread
      have heq : bs' = bs := List.append_cancel_right (hsplit'.symm.trans hsplit)
      rw [h _ _ hlength]
      exact heq ▸ hreads rest pos'
    · have hlength : cut.length ≤ unread.length := by
        rw [hsplit, List.length_append]
        exact Nat.le_trans hpart.length_le (Nat.le_add_right _ _)
      rw [h _ _ hlength]
      exact hcut cut hpart hne pos'
  error := by
    intro unread pos e r hread
    rw [h unread.length _ (Nat.le_refl _)] at hread
    obtain ⟨he, hplace⟩ := (hy _).error hread
    refine ⟨he, fun pos' => ?_⟩
    rw [h unread.length _ (Nat.le_refl _)]
    exact hplace pos'

end InOrder

/-! ## Decoders that need input

A decoder that fails without input takes at least a byte when it succeeds. Loops over such decoders
end.
-/

/-- Without input, `x` runs out of it. -/
def NeedsInput (x : Decoder α) : Prop :=
  ∀ pos d, ∃ r, x ⟨[], pos, d⟩ = .error .unexpectedEof r

theorem needsInput_byte : NeedsInput byte :=
  fun _ _ => ⟨_, rfl⟩

theorem NeedsInput.bind (hx : NeedsInput x) (f : α → Decoder β) : NeedsInput (x >>= f) := by
  intro pos d
  obtain ⟨r, herror⟩ := hx pos d
  exact ⟨r, bind_of_error herror⟩

/-- A decoder that needs input has taken some when it succeeds. -/
theorem NeedsInput.ne_nil (hx : NeedsInput x) (h : Reads x bs a d d') : bs ≠ [] := by
  rintro rfl
  obtain ⟨r, herror⟩ := hx 0 d
  have hread := h [] 0
  rw [List.append_nil, herror] at hread
  cases hread

/-- A decoder that goes by the next byte, which it leaves to be read again. -/
theorem InOrder.of_head {y : UInt8 → Decoder α} (hnil : NeedsInput x)
    (hcons : ∀ b rest pos, x ⟨b :: rest, pos, d⟩ = y b ⟨b :: rest, pos, d⟩)
    (hy : ∀ b, InOrder (y b) d d') (hneeds : ∀ b, NeedsInput (y b)) : InOrder x d d' where
  ok := by
    intro unread pos a r hread
    cases unread with
    | nil =>
        obtain ⟨r', herror⟩ := hnil pos d
        rw [herror] at hread
        cases hread
    | cons b rest =>
        rw [hcons] at hread
        obtain ⟨bs, hsplit, hreads, hcut⟩ := (hy b).ok hread
        -- at least the byte that was looked at is taken
        cases bs with
        | nil => exact absurd rfl ((hneeds b).ne_nil hreads)
        | cons b' bs =>
            obtain ⟨rfl, _⟩ := List.cons.inj hsplit
            refine ⟨b :: bs, hsplit, fun rest' pos' => ?_, fun cut hpart hne pos' => ?_⟩
            · rw [List.cons_append, hcons]
              exact hreads rest' pos'
            · cases cut with
              | nil => exact hnil pos' d
              | cons c cut =>
                  obtain ⟨rfl, _⟩ := List.cons_prefix_cons.mp hpart
                  rw [hcons]
                  exact hcut _ hpart hne pos'
  error := by
    intro unread pos e r hread
    cases unread with
    | nil =>
        obtain ⟨r', herror⟩ := hnil pos d
        rw [herror] at hread
        cases hread
        exact ⟨rfl, fun pos' => hnil pos' d⟩
    | cons b rest =>
        rw [hcons] at hread
        obtain ⟨he, hplace⟩ := (hy b).error hread
        refine ⟨he, fun pos' => ?_⟩
        rw [hcons]
        exact hplace pos'

/-! ## Bytes

The decoders at the bottom, shown to be in order by looking at their definitions.
-/

/-- A byte is the smallest input there is; its only part is the empty one. -/
theorem inOrder_byte (d : Nat) : InOrder byte d d where
  ok := by
    intro unread pos b r h
    cases unread with
    | nil => cases h
    | cons b rest =>
        cases h
        refine ⟨[b], rfl, reads_byte b d, fun cut hpart hne pos' => ?_⟩
        rcases List.prefix_cons_iff.mp hpart with rfl | ⟨_, rfl, htail⟩
        · exact needsInput_byte pos' d
        · exact absurd (by rw [List.prefix_nil.mp htail]) hne
  error := by
    intro unread pos e r h
    cases unread with
    | nil =>
        cases h
        exact ⟨rfl, fun pos' => needsInput_byte pos' d⟩
    | cons b rest => cases h

theorem inOrder_expect (allowed : List UInt8) (context : String) (d : Nat) :
    InOrder (expect allowed context) d d := by
  refine (inOrder_byte d).bind fun b => ?_
  split
  · exact .pure b d
  · exact .throw rfl d d

/-- A split gives as many as were asked for. -/
theorem splitExact?_eq_some {n : Nat} {xs taken rest : List α}
    (h : splitExact? n xs = some (taken, rest)) : taken.length = n ∧ xs = taken ++ rest := by
  induction n generalizing xs taken with
  | zero =>
      cases h
      exact ⟨rfl, rfl⟩
  | succ n ih =>
      cases xs with
      | nil => cases h
      | cons x xs =>
          obtain ⟨⟨taken', rest'⟩, hsplit, heq⟩ := Option.map_eq_some_iff.mp h
          cases heq
          obtain ⟨hlength, rfl⟩ := ih hsplit
          exact ⟨congrArg (· + 1) hlength, rfl⟩

theorem splitExact?_eq_none {n : Nat} {xs : List α} (h : xs.length < n) :
    splitExact? n xs = none := by
  cases hsplit : splitExact? n xs with
  | none => rfl
  | some p =>
      obtain ⟨hlength, rfl⟩ := splitExact?_eq_some hsplit
      rw [List.length_append] at h
      omega

/-- Bytes are taken all or none, so a shorter input gives none. -/
theorem inOrder_bytes (n d : Nat) : InOrder (bytes n) d d where
  ok := by
    intro unread pos taken r h
    unfold bytes at h
    split at h
    · next taken' rest hsplit =>
        cases h
        obtain ⟨rfl, hunread⟩ := splitExact?_eq_some hsplit
        refine ⟨taken, hunread, reads_bytes taken d, fun cut hpart hne pos' => ?_⟩
        have hlength : cut.length < taken.length :=
          Nat.lt_of_le_of_ne hpart.length_le fun heq => hne (hpart.eq_of_length heq)
        unfold bytes
        rw [splitExact?_eq_none hlength]
        exact ⟨_, rfl⟩
    · cases h
  error := by
    intro unread pos e r h
    unfold bytes at h
    split at h
    · cases h
    · next hsplit =>
        have hsplit : splitExact? n unread = none := hsplit
        cases h
        refine ⟨rfl, fun pos' => ?_⟩
        unfold bytes
        rw [hsplit]
        exact ⟨_, rfl⟩

/-! ## Nesting -/

/-- Entering depends on the depth alone. -/
theorem inOrder_enter (d : Nat) : InOrder enter d (d + 1) where
  ok := by
    intro unread pos u r h
    unfold enter at h
    split at h
    · cases h
    · next hroom =>
        cases h
        exact ⟨[], rfl, reads_enter (Nat.not_le.mp hroom), .nil _ d⟩
  error := by
    intro unread pos e r h
    unfold enter at h
    split at h
    · next hfull =>
        cases h
        refine ⟨rfl, fun pos' => ?_⟩
        unfold enter
        rw [if_pos hfull]
        exact ⟨_, rfl⟩
    · cases h

theorem inOrder_leave (d : Nat) : InOrder leave (d + 1) d where
  ok := by
    intro unread pos u r h
    cases h
    exact ⟨[], rfl, reads_leave d, .nil _ _⟩
  error := by
    intro unread pos e r h
    cases h

/-! ## Numbers

A number is cut short if its last byte is missing. The value does not matter for that, so all four
readers are covered by one lemma.
-/

open Leb128

/-- A completed scan has taken the bytes of one number, up to its last byte. -/
theorem exists_of_scan {bytes : List UInt8} {word : BitVec 64} {filled : Nat} {s : Scan}
    (h : scan bytes word filled = some s) : ∃ bs, Terminated bs ∧ bytes = bs ++ s.rest := by
  induction bytes generalizing word filled with
  | nil => cases h
  | cons b bytes ih =>
      rw [scan] at h
      split at h
      · next hlast =>
          cases h
          exact ⟨[b], .last hlast, rfl⟩
      · next hmore =>
          obtain ⟨bs, hbs, rfl⟩ := ih h
          exact ⟨b :: bs, .more hmore hbs, rfl⟩

/-- Without its last byte a number does not end. -/
theorem scan_of_cut {bs cut : List UInt8} (h : Terminated bs) (hpart : cut <+: bs)
    (hne : cut ≠ bs) (word : BitVec 64) (filled : Nat) : scan cut word filled = none := by
  induction h generalizing cut word filled with
  | @last b _ =>
      rcases List.prefix_cons_iff.mp hpart with rfl | ⟨_, rfl, htail⟩
      · rfl
      · exact absurd (by rw [List.prefix_nil.mp htail]) hne
  | @more b bs hb _ ih =>
      rcases List.prefix_cons_iff.mp hpart with rfl | ⟨cut', rfl, htail⟩
      · rfl
      · rw [scan, if_neg hb]
        exact ih htail (fun heq => hne (by rw [heq])) _ _

theorem leb128_of_scan {unread : List UInt8} (h : scan unread 0#64 0 = none) (pos d : Nat) :
    ∃ r, leb128 ⟨unread, pos, d⟩ = .error .unexpectedEof r := by
  unfold leb128
  rw [h]
  exact ⟨_, rfl⟩

/-- A function of the groups of a number that does not depend on what follows them. -/
theorem inOrder_leb128 {g : Scan → α}
    (hreads : ∀ bs, Terminated bs → ∃ a, Reads (leb128 >>= fun s => Pure.pure (g s)) bs a d d) :
    InOrder (leb128 >>= fun s => Pure.pure (g s)) d d where
  ok := by
    intro unread pos a r h
    obtain ⟨s, r', hscan, hvalue⟩ := bind_eq_ok_iff.mp h
    cases hvalue
    unfold leb128 at hscan
    split at hscan
    · next s' hs =>
        cases hscan
        obtain ⟨bs, hbs, hunread⟩ := exists_of_scan hs
        have hunread : unread = bs ++ s.rest := hunread
        obtain ⟨a', hread⟩ := hreads bs hbs
        -- the value was read from these bytes, so it is the one they always give
        have ha : g s = a' := by
          rw [hunread, hread] at h
          exact (EStateM.Result.ok.inj h).1.symm
        refine ⟨bs, hunread, ha ▸ hread, fun cut hpart hne pos' => ?_⟩
        obtain ⟨r, herror⟩ := leb128_of_scan (scan_of_cut hbs hpart hne _ _) pos' d
        exact ⟨r, bind_of_error herror⟩
    · cases hscan
  error := by
    intro unread pos e r h
    cases hscan : leb128 ⟨unread, pos, d⟩ with
    | ok s r' =>
        rw [bind_of_ok hscan] at h
        cases h
    | error e' r' =>
        rw [bind_of_error hscan] at h
        cases h
        unfold leb128 at hscan
        split at hscan
        · cases hscan
        · next hs =>
            have hs : scan unread 0#64 0 = none := hs
            cases hscan
            refine ⟨rfl, fun pos' => ?_⟩
            obtain ⟨r, herror⟩ := leb128_of_scan hs pos' d
            exact ⟨r, bind_of_error herror⟩

theorem inOrder_u64 (d : Nat) : InOrder u64 d d :=
  inOrder_leb128 fun _ hbs => ⟨_, reads_u64 hbs d⟩

theorem inOrder_s64 (d : Nat) : InOrder s64 d d :=
  inOrder_leb128 fun _ hbs => ⟨_, reads_s64 ⟨hbs, rfl⟩ d⟩

theorem inOrder_u32 (d : Nat) : InOrder u32 d d :=
  (inOrder_u64 d).map _

theorem inOrder_s32 (d : Nat) : InOrder s32 d d :=
  (inOrder_s64 d).map _

/-! ## Vectors and names -/

/-- Items in order make a sequence in order. -/
theorem inOrder_repeated {item : Decoder α} (h : InOrder item d d) (n : Nat) (acc : List α) :
    InOrder (repeated item n acc) d d := by
  induction n generalizing acc with
  | zero => exact .pure _ d
  | succ n ih => exact h.bind fun a => ih (a :: acc)

theorem inOrder_replicate {item : Decoder α} (h : InOrder item d d) (n : Nat) :
    InOrder (replicate n item) d d :=
  inOrder_repeated h n []

theorem inOrder_vec {item : Decoder α} (h : InOrder item d d) : InOrder (vec item) d d :=
  (inOrder_u32 d).bind fun n => inOrder_replicate h n.toNat

theorem inOrder_boundedVec {item : Decoder α} (bound : Bound) (h : InOrder item d d) :
    InOrder (boundedVec bound item) d d := by
  refine (inOrder_u32 d).bind fun n => ?_
  split
  · exact .throw rfl d d
  · exact inOrder_replicate h n.toNat

theorem inOrder_byteString (d : Nat) : InOrder byteString d d :=
  (inOrder_u32 d).bind fun n => inOrder_bytes n.toNat d

/-- A text is refused for its bytes only once all of them are there. -/
theorem inOrder_name (d : Nat) : InOrder name d d := by
  refine (inOrder_byteString d).bind fun bs => ?_
  split
  · exact .pure _ d
  · exact .throw rfl d d

theorem inOrder_valueType (d : Nat) : InOrder valueType d d := by
  refine (inOrder_byte d).bind fun b => ?_
  split
  · exact .pure _ d
  · exact .throw rfl d d

theorem inOrder_float (t : FloatType) (d : Nat) : InOrder (float t) d d :=
  (inOrder_replicate (inOrder_byte d) (t.width / 8)).map _

end Decoder

end WebAssembly
