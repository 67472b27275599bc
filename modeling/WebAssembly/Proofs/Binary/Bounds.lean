import Mathlib
import WebAssembly.Proofs.Binary.Acceptance
import WebAssembly.Proofs.Binary.Truncation

/-!
# Modules are no larger than their files

A file may claim any counts, but what is read from it stays within bounds: those that the decoder
checks, and one that it does not need to check, since there is at least a byte for every instruction
wherever it is nested (`Expr.nodes_le_length`). Both go from parts to what is made of them
(`Fits`), so they hold of every section, and a module has no expressions other than those of its
sections (`Module.bounded_of_parse`).
-/

namespace WebAssembly

/-! ## Expressions

Instructions are counted with all that is nested in them. Each has an opcode of its own.
-/

mutual

/-- Number of instructions in an instruction: itself, and those in its bodies. -/
def Instruction.nodes : Instruction → Nat
  | .block _ body => Expr.nodes body + 1
  | .loop _ body => Expr.nodes body + 1
  | .ifElse _ thenBody elseBody => Expr.nodes thenBody + Expr.nodes elseBody + 1
  | _ => 1

/-- Number of instructions in a sequence, at any depth. -/
def Expr.nodes : List Instruction → Nat
  | [] => 0
  | i :: is => Instruction.nodes i + Expr.nodes is

end

theorem Instruction.Immediates.nodes {i : Instruction} {b : UInt8} {bs : List UInt8}
    (h : i.Immediates b bs) : i.nodes = 1 := by
  cases h <;> rfl

/-- There is a byte for every instruction: its opcode. -/
theorem Expr.nodes_le_length {e : Expr} {bs : List UInt8} (h : Expr.Written e bs) :
    Expr.nodes e ≤ bs.length := by
  induction h with
  | nil => exact Nat.le_refl 0
  | bodiless hi _ ih =>
      simp only [Expr.nodes, hi.nodes, List.length_append, List.length_cons]
      omega
  | block _ _ ihbody ih =>
      simp only [Expr.nodes, Instruction.nodes, List.length_append, List.length_cons]
      omega
  | loop _ _ ihbody ih =>
      simp only [Expr.nodes, Instruction.nodes, List.length_append, List.length_cons]
      omega
  | ifThen _ _ ihbody ih =>
      simp only [Expr.nodes, Instruction.nodes, List.length_append, List.length_cons]
      omega
  | ifElse _ _ _ ihthen ihelse ih =>
      simp only [Expr.nodes, Instruction.nodes, List.length_append, List.length_cons]
      omega

/-- Expressions within the bounds, with no more than `n` instructions together. -/
def Fits (es : List Expr) (n : Nat) : Prop :=
  (∀ e ∈ es, Expr.Bounded e) ∧ (es.map Expr.nodes).sum ≤ n

namespace Fits

variable {es es' : List Expr} {n n' : Nat}

theorem nil (n : Nat) : Fits [] n :=
  ⟨nofun, Nat.zero_le n⟩

/-- What is read of two parts fits into the bytes of both. -/
theorem append (h : Fits es n) (h' : Fits es' n') : Fits (es ++ es') (n + n') := by
  refine ⟨fun e he => (List.mem_append.mp he).elim (h.1 e) (h'.1 e), ?_⟩
  rw [List.map_append, List.sum_append]
  exact Nat.add_le_add h.2 h'.2

theorem mono (h : Fits es n) (hn : n ≤ n') : Fits es n' :=
  ⟨h.1, Nat.le_trans h.2 hn⟩

theorem append_left {bs : List UInt8} (h : Fits es bs.length) (front : List UInt8) :
    Fits es (front ++ bs).length :=
  h.mono (by rw [List.length_append]; exact Nat.le_add_left _ _)

theorem append_right {bs : List UInt8} (h : Fits es bs.length) (back : List UInt8) :
    Fits es (bs ++ back).length :=
  h.mono (by rw [List.length_append]; exact Nat.le_add_right _ _)

/-- Each of the parts has the bytes for its own expression. -/
theorem map {α : Type} {expr : α → Expr} {as : List α} {parts : List (List UInt8)}
    (h : List.Forall₂ (fun a bs => Fits [expr a] bs.length) as parts) :
    Fits (as.map expr) parts.flatten.length := by
  induction h with
  | nil => exact .nil 0
  | cons ha _ ih =>
      rw [List.map_cons, List.flatten_cons, List.length_append]
      exact ha.append ih

/-- A vector has the bytes for the expressions of its entries, whatever count it starts with. -/
theorem vec {α : Type} {expr : α → Expr} {as : List α} {bs : List UInt8}
    (h : ∃ count parts, List.Forall₂ (fun a part => Fits [expr a] part.length) as parts ∧
      bs = count ++ parts.flatten) : Fits (as.map expr) bs.length := by
  obtain ⟨count, parts, hparts, rfl⟩ := h
  exact (map hparts).append_left count

end Fits

/-! ## Entries and sections

The bounds of a section are those of its entries, and its expressions share its bytes among them.
-/

/-- The expressions of a section. -/
def Section.exprs : Section → List Expr
  | .globals gs => gs.map (·.init)
  | .elements ss => ss.map (·.offset)
  | .code bodies => bodies.map (·.code)
  | .data ss => ss.map (·.offset)
  | _ => []

/-- The types and the locals of a section are within their bounds. -/
def Section.Limited : Section → Prop
  | .types ts => ∀ t ∈ ts, t.Bounded
  | .code bodies => ∀ body ∈ bodies, body.locals.length ≤ 50000
  | _ => True

namespace Decoder

variable {α : Type} {d d' : Nat}

/-- A decoder that reads in order, with nothing said about its results. -/
theorem InOrder.accepts {x : Decoder α} (h : InOrder x d d') :
    Accepts x (fun _ _ => True) d d' := by
  rintro unread pos a ⟨rest, _, _⟩ hread
  obtain ⟨bs, rfl, hreads, _⟩ := h.ok hread
  rw [hreads] at hread
  cases hread
  exact ⟨bs, rest, rfl, rfl, trivial⟩

/-- The items of a vector share its bytes behind the count. -/
theorem accepts_vec {item : Decoder α} {form : α → List UInt8 → Prop} (h : Accepts item form d d) :
    Accepts (vec item) (fun as bs => ∃ count parts, List.Forall₂ form as parts ∧
      bs = count ++ parts.flatten) d d := by
  refine (accepts_u32 d).bind fun n count _ => (accepts_replicate h n.toNat).mono ?_
  rintro as _ ⟨_, parts, hparts, rfl⟩
  exact ⟨count, parts, hparts, rfl⟩

theorem accepts_funcType (d : Nat) : Accepts funcType (fun t _ => t.Bounded) d d := by
  have htypes := (inOrder_valueType d).accepts
  refine (inOrder_expect _ _ d).accepts.bind fun _ _ _ => ?_
  refine (accepts_boundedVec .params htypes).bind fun params _ hparams => ?_
  exact (accepts_boundedVec .results htypes).map fun results _ hresults => ⟨hparams.1, hresults.1⟩

/-- Where no construct is open, a body has the bytes for its instructions. -/
theorem accepts_fittingExpr : Accepts expr (fun e bs => Fits [e] bs.length) 0 0 := by
  refine (accepts_expr (Nat.zero_le _)).mono ?_
  rintro body _ ⟨form, rfl, hwritten, hwidth, hnesting⟩
  have hnodes := Expr.nodes_le_length hwritten
  rw [Nat.zero_add] at hnesting
  refine Fits.append_right ⟨fun e he => ?_, ?_⟩ _
  · rw [List.mem_singleton.mp he]
    exact ⟨hnesting, hwidth⟩
  · rwa [List.map_singleton, List.sum_singleton]

theorem accepts_globalEntry :
    Accepts globalEntry (fun g bs => Fits [g.init] bs.length) 0 0 :=
  (inOrder_globalType 0).accepts.bind fun _ front _ =>
    accepts_fittingExpr.map fun _ _ hfits => hfits.append_left front

theorem accepts_elementSegment :
    Accepts elementSegment (fun s bs => Fits [s.offset] bs.length) 0 0 :=
  (inOrder_u32 0).accepts.bind fun _ front _ => accepts_fittingExpr.bind fun _ _ hfits =>
    (inOrder_vec (inOrder_u32 0)).accepts.map fun _ back _ =>
      (hfits.append_right back).append_left front

theorem accepts_dataSegment :
    Accepts dataSegment (fun s bs => Fits [s.offset] bs.length) 0 0 :=
  (inOrder_u32 0).accepts.bind fun _ front _ => accepts_fittingExpr.bind fun _ _ hfits =>
    (inOrder_byteString 0).accepts.map fun _ back _ =>
      (hfits.append_right back).append_left front

/-- The number of locals is checked with every group, before the next one is read. -/
theorem accepts_localGroups (n d : Nat) {declared : Nat} {acc : List (List ValueType)}
    (hdeclared : declared = acc.flatten.length) (hbound : declared ≤ 50000) :
    Accepts (localGroups n declared acc) (fun locals _ => locals.length ≤ 50000) d d := by
  induction n generalizing declared acc with
  | zero =>
      refine .pure ?_
      -- the groups are held backwards, which does not change how many locals they hold
      rw [List.length_flatten, List.map_reverse, List.sum_reverse, ← List.length_flatten,
        ← hdeclared]
      exact hbound
  | succ n ih =>
      refine (inOrder_u32 d).accepts.bind fun count _ _ => ?_
      refine (inOrder_valueType d).accepts.bind fun type _ _ => ?_
      dsimp only
      split
      · exact .throw _
      · next hroom =>
          refine ih ?_ (Nat.not_lt.mp hroom)
          rw [List.flatten_cons, List.length_append, List.length_replicate, hdeclared, Nat.add_comm]

/-- The locals of a body keep to their bound, and its code fits into the bytes of the body. -/
theorem accepts_bodyEntry : Accepts bodyEntry
    (fun body bs => body.locals.length ≤ 50000 ∧ Fits [body.code] bs.length) 0 0 := by
  refine (inOrder_u32 0).accepts.bind fun _ size _ => ?_
  refine (inOrder_u32 0).accepts.bind fun groups count _ => ?_
  have hgroups : Accepts (localGroups groups.toNat 0 [])
      (fun locals _ => locals.length ≤ 50000) 0 0 :=
    accepts_localGroups groups.toNat 0 rfl (Nat.zero_le _)
  refine hgroups.bind fun _ front hlocals => ?_
  exact accepts_fittingExpr.map fun _ _ hfits =>
    ⟨hlocals, ((hfits.append_left front).append_left count).append_left size⟩

/-- What a section brings keeps to the bounds and is no larger than the bytes of the section. -/
theorem accepts_sectionContents (id : UInt8) (size : Nat) :
    Accepts (sectionContents id size) (fun s bs => s.Limited ∧ Fits s.exprs bs.length) 0 0 := by
  unfold sectionContents
  split
  · exact (inOrder_customSection size 0).accepts.map fun _ _ _ => ⟨trivial, .nil _⟩
  · refine (accepts_vec (accepts_funcType 0)).map fun ts _ h => ⟨fun t ht => ?_, .nil _⟩
    obtain ⟨_, parts, hparts, _⟩ := h
    obtain ⟨_, _, hbounded⟩ := exists_of_mem_right hparts.flip ht
    exact hbounded
  · exact (inOrder_vec (inOrder_importEntry 0)).accepts.map fun _ _ _ => ⟨trivial, .nil _⟩
  · exact (inOrder_vec (inOrder_u32 0)).accepts.map fun _ _ _ => ⟨trivial, .nil _⟩
  · exact (inOrder_vec (inOrder_tableType 0)).accepts.map fun _ _ _ => ⟨trivial, .nil _⟩
  · exact (inOrder_vec (inOrder_memoryType 0)).accepts.map fun _ _ _ => ⟨trivial, .nil _⟩
  · exact (accepts_vec accepts_globalEntry).map fun _ _ h => ⟨trivial, .vec h⟩
  · exact (inOrder_vec (inOrder_exportEntry 0)).accepts.map fun _ _ _ => ⟨trivial, .nil _⟩
  · exact (inOrder_u32 0).accepts.map fun _ _ _ => ⟨trivial, .nil _⟩
  · exact (accepts_vec accepts_elementSegment).map fun _ _ h => ⟨trivial, .vec h⟩
  · refine (accepts_vec accepts_bodyEntry).map fun bodies _ h => ?_
    obtain ⟨count, parts, hparts, hsplit⟩ := h
    obtain ⟨hlocals, hfits⟩ := (List.forall₂_and_left _ _).mp hparts
    exact ⟨hlocals, .vec ⟨count, parts, hfits, hsplit⟩⟩
  · exact (accepts_vec accepts_dataSegment).map fun _ _ h => ⟨trivial, .vec h⟩
  · exact .throw _

end Decoder

/-- A section is within the bounds and has the bytes for its expressions. -/
theorem Section.Spelled.fits {s : Section} {bs : List UInt8} (h : s.Spelled bs) :
    s.Limited ∧ Fits s.exprs bs.length := by
  have haccepts : Decoder.Accepts Decoder.sectionEntry
      (fun s bs => s.Limited ∧ Fits s.exprs bs.length) 0 0 :=
    (Decoder.inOrder_byte 0).accepts.bind fun _ id _ =>
      (Decoder.inOrder_u32 0).accepts.bind fun _ size _ =>
        (Decoder.accepts_sectionContents _ _).mono fun _ _ hs =>
          ⟨hs.1, (hs.2.append_left size).append_left id⟩
  obtain ⟨⟨_, _, _⟩, hread, rfl⟩ := h
  obtain ⟨bs', rest, hsplit, hrest, hfits⟩ := haccepts _ _ _ _ hread
  cases hrest
  rw [hsplit, List.append_nil]
  exact hfits

/-! ## Modules

Putting sections together only ever drops expressions, namely those of a section that a later one
replaces.
-/

/-- The expressions of the sections read so far. -/
def Draft.exprs (d : Draft) : List Expr :=
  d.bodies.map (·.code) ++ d.module.globals.map (·.init) ++ d.module.elements.map (·.offset) ++
    d.module.data.map (·.offset)

/-- What has been read so far is within the bounds, and `n` bytes have room for its expressions. -/
structure Draft.Limited (d : Draft) (n : Nat) : Prop where
  types : ∀ t ∈ d.module.types, t.Bounded
  locals : ∀ body ∈ d.bodies, body.locals.length ≤ 50000
  exprs : Fits d.exprs n

/-- A section replaces the expressions of an earlier one of its kind and keeps all others. -/
theorem Draft.fits_add {d : Draft} {s : Section} {n k : Nat} (h : Fits d.exprs n)
    (hs : Fits s.exprs k) : Fits (d.add s).exprs (n + k) := by
  obtain ⟨hbounded, hsum⟩ := h
  obtain ⟨hbounded', hsum'⟩ := hs
  cases s with
  | globals _ | elements _ | code _ | data _ =>
      -- one of the four lists is replaced, and the instructions of the old one need no bytes now
      simp only [exprs, Section.exprs, List.map_append, List.sum_append,
        List.forall_mem_append] at hbounded hsum hbounded' hsum'
      simp only [Fits, exprs, add, List.map_append, List.sum_append, List.forall_mem_append]
      exact ⟨by tauto, by omega⟩
  | _ => exact ⟨hbounded, Nat.le_add_right_of_le hsum⟩

/-- One more section. -/
theorem Draft.Limited.add {d : Draft} {s : Section} {n k : Nat} (h : d.Limited n)
    (hs : s.Limited ∧ Fits s.exprs k) : (d.add s).Limited (n + k) := by
  refine ⟨?_, ?_, fits_add h.exprs hs.2⟩
  · cases s with
    | types ts => exact hs.1
    | _ => exact h.types
  · cases s with
    | code bodies => exact hs.1
    | _ => exact h.locals

/-- All sections of a file. -/
theorem Draft.Limited.foldl {ss : List Section} {parts : List (List UInt8)}
    (hparts : List.Forall₂ Section.Spelled ss parts) {d : Draft} {n : Nat} (h : d.Limited n) :
    (ss.foldl Draft.add d).Limited (n + parts.flatten.length) := by
  induction hparts generalizing d n with
  | nil => exact h
  | cons hs _ ih =>
      rw [List.flatten_cons, List.length_append, ← Nat.add_assoc]
      exact ih (h.add hs.fits)

/-- Bodies of functions, initialisers of globals and offsets of segments. -/
def Module.exprs (m : Module) : List Expr :=
  m.funcs.map (·.body) ++ m.globals.map (·.init) ++ m.elements.map (·.offset) ++
    m.data.map (·.offset)

/-- The body of a function, with its locals. -/
def Func.toBody (f : Func) : Body :=
  ⟨f.locals, f.body⟩

/-- Types and bodies are joined one to one, so that nothing of the bodies is lost. -/
theorem Draft.bodies_finish {d : Draft} {m : Module} (h : d.finish = .ok m) :
    m.types = d.module.types ∧ m.funcs.map Func.toBody = d.bodies ∧ m.exprs = d.exprs := by
  unfold finish at h
  split at h
  · next hlength =>
      cases h
      have hbodies : (List.zipWith (fun type (body : Body) => Func.mk type body.locals body.code)
          d.funcTypes d.bodies).map Func.toBody = d.bodies := by
        rw [List.map_zipWith, ← List.map_uncurry_zip_eq_zipWith]
        exact List.map_snd_zip hlength.ge
      have hcode := congrArg (List.map Body.code) hbodies
      rw [List.map_map] at hcode
      exact ⟨rfl, hbodies, congrArg (· ++ _ ++ _ ++ _) hcode⟩
  · cases h

/-- Whatever a file claims, the module it is read as is within the bounds: on the parameters and
results of function types, on the locals of functions, and, for each expression wherever it stands,
on the labels of branch tables and on the depth of nesting. Together the expressions have no more
instructions than the file has bytes. -/
theorem Module.bounded_of_parse {bytes : List UInt8} {m : Module}
    (h : Module.parse bytes = .ok m) :
    (∀ t ∈ m.types, t.params.length ≤ 1000 ∧ t.results.length ≤ 1000) ∧
      (∀ f ∈ m.funcs, f.locals.length ≤ 50000) ∧
      (∀ e ∈ m.exprs, Expr.tableWidth e ≤ 65536 ∧ Expr.nesting e ≤ 1024) ∧
      (m.exprs.map Expr.nodes).sum ≤ bytes.length := by
  obtain ⟨ss, parts, rfl, hparts⟩ := Module.exists_parts (.inl ⟨m, h⟩)
  rw [Module.parse_of_spelled hparts] at h
  obtain ⟨htypes, hbodies, hexprs⟩ := Draft.bodies_finish h
  -- the bounds go from section to section as the module is put together
  have hstart : Draft.Limited {} 0 := ⟨nofun, nofun, .nil 0⟩
  have hend := hstart.foldl hparts
  rw [Nat.zero_add] at hend
  refine ⟨fun t ht => hend.types t (htypes ▸ ht), fun f hf => ?_, fun e he => ?_, ?_⟩
  · have hbody := List.mem_map_of_mem (f := Func.toBody) hf
    rw [hbodies] at hbody
    exact hend.locals f.toBody hbody
  · have hbounded := hend.exprs.1 e (hexprs ▸ he)
    exact ⟨hbounded.2, hbounded.1⟩
  · rw [hexprs]
    exact (hend.exprs.append_left preamble).2

/-- A file with expressions of every kind. -/
def manyExprs : List UInt8 :=
  Module.preamble ++ [0x01, 0x05, 0x01, 0x60, 0x01, 0x7f, 0x00] ++ [0x03, 0x02, 0x01, 0x00] ++
    [0x06, 0x06, 0x01, 0x7f, 0x00, 0x41, 0x07, 0x0b] ++
    [0x09, 0x07, 0x01, 0x00, 0x41, 0x00, 0x0b, 0x01, 0x00] ++
    [0x0a, 0x13, 0x01, 0x11, 0x01, 0x02, 0x7f, 0x02, 0x40, 0x03, 0x40, 0x20, 0x00, 0x0e, 0x02,
      0x00, 0x01, 0x00, 0x0b, 0x0b, 0x0b] ++
    [0x0b, 0x06, 0x01, 0x00, 0x41, 0x01, 0x0b, 0x00]

/-- What is read from it. -/
def manyExprsModule : Module where
  types := [⟨[.i32], []⟩]
  funcs := [⟨0, [.i32, .i32],
    [.block .empty [.loop .empty [.plain (.localGet 0), .brTable [0, 1] 0]]]⟩]
  globals := [⟨⟨.i32, false⟩, [.plain (.const (.i32 7))]⟩]
  elements := [⟨0, [.plain (.const (.i32 0))], [0]⟩]
  data := [⟨0, [.plain (.const (.i32 1))], []⟩]

/-- Seven instructions in 65 bytes. -/
theorem manyExprs_bounded :
    Module.parse manyExprs = .ok manyExprsModule ∧
      (manyExprsModule.exprs.map Expr.nodes).sum = 7 ∧
      (∀ t ∈ manyExprsModule.types, t.params.length ≤ 1000 ∧ t.results.length ≤ 1000) ∧
      (∀ f ∈ manyExprsModule.funcs, f.locals.length ≤ 50000) ∧
      (∀ e ∈ manyExprsModule.exprs, Expr.tableWidth e ≤ 65536 ∧ Expr.nesting e ≤ 1024) ∧
      (manyExprsModule.exprs.map Expr.nodes).sum ≤ 65 := by
  have hparse : Module.parse manyExprs = .ok manyExprsModule := by
    cbv
  exact ⟨hparse, rfl, Module.bounded_of_parse hparse⟩

end WebAssembly
