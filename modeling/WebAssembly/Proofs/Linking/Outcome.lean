import WebAssembly.Proofs.Linking.Segments

/-!
# The outcome of linking

`Module.linkFault` says in one place why a module cannot be linked: it is not valid, it is given
imports that are too few, too many or of other types, or one of its segments does not fit. In a
well-typed store, linking fails exactly for the first of these reasons that applies, and is
otherwise done up to the start function (`Exec.link_outcome`). Whichever way it ends, the store
stays well typed.
-/

namespace WebAssembly

/-! ## Imports

The check on imports stops at the first import that is absent or of another type, so it gives the
first fault in their order.
-/

/-- What the address of an instance points into. -/
def ExternVal.space : ExternVal → Space
  | .func _ => .func
  | .table _ => .table
  | .memory _ => .memory
  | .global _ => .global

namespace Store

/-- The fault of something that is given where `expected` is declared: it does not exist, or the
type that it has now does not fit. -/
def importFault (s : Store) (given : ExternVal) (expected : ExternType) : Option RuntimeError :=
  match s.externType given with
  | .ok type => if type.isSubtypeOf expected then none else some (.externTypeMismatch expected type)
  | .error _ => some (.invalidAddress given.space)

/-- The fault of the imports that a module is given. -/
def importsFault (s : Store) (given : List ExternVal) (expected : List ExternType) :
    Option RuntimeError :=
  if given.length = expected.length then
    (given.zip expected).findSome? fun (g, e) => s.importFault g e
  else some (.importCountMismatch expected.length given.length)

end Store

/-- The first reason why a module cannot be linked. -/
def Module.linkFault (m : Module) (s : Store) (imports : List ExternVal) : Option RuntimeError :=
  match m.validate with
  | .error e => some (.invalidModule e)
  | .ok sig =>
    (s.importsFault imports sig.imports).or <|
      (m.elements.findSome? (m.elementFault s imports)).or <|
        m.data.findSome? (m.dataFault s imports)

/-- A module that can be linked: it is valid, it is given as many imports as it declares, each of
which exists and fits, and all its segments fit. -/
def Module.Linkable (m : Module) (s : Store) (imports : List ExternVal) : Prop :=
  ∃ sig, m.validate = .ok sig ∧
    List.Forall₂ (fun given expected => ∃ type, s.externType given = .ok type ∧
      type.isSubtypeOf expected = true) imports sig.imports ∧
    (∀ e ∈ m.elements, SegmentFits (s.constantValue imports e.offset)
      (m.tableSizes s imports)[e.table.toNat]? e.funcs.length) ∧
    ∀ d ∈ m.data, SegmentFits (s.constantValue imports d.offset)
      (m.memorySizes s imports)[d.memory.toNat]? d.bytes.length

/-- A check that fails iff there is a fault. -/
def raise {ε : Type} : Option ε → Except ε Unit
  | some e => .error e
  | none => .ok ()

/-- Checks in a row give the first fault there is. -/
theorem forM_raise {α ε : Type} {fault : α → Option ε} (xs : List α) :
    xs.forM (fun x => raise (fault x)) = raise (xs.findSome? fault) := by
  induction xs with
  | nil => rfl
  | cons x xs ih =>
      rw [List.forM, List.findSome?_cons]
      cases fault x with
      | some e => rfl
      | none => exact ih

namespace Store

variable {s : Store}

theorem externType_eq_error {v : ExternVal} {e : RuntimeError} (h : s.externType v = .error e) :
    e = .invalidAddress v.space := by
  cases v <;> exact (map_atAddress_eq_error_iff.mp h).2

/-- An instance can be used at every type that its own fits. -/
theorem Has.of_isSubtypeOf : ∀ {v : ExternVal} {t t' : ExternType}, s.Has v t →
    t.isSubtypeOf t' = true → s.Has v t'
  | .func _, .func _, .func _, h, hsub => of_decide_eq_true hsub ▸ h
  | .table _, .table _, .table _, h, _ => h
  | .memory _, .memory _, .memory _, h, _ => h
  | .global _, .global _, .global _, h, hsub => of_decide_eq_true hsub ▸ h

/-- An import is refused for being absent or for its type. -/
theorem checkImport_eq (given : ExternVal) (expected : ExternType) :
    s.checkImport given expected = raise (s.importFault given expected) := by
  unfold checkImport importFault
  cases htype : s.externType given with
  | ok type =>
      show (if type.isSubtypeOf expected then pure () else throw _) =
        raise (if type.isSubtypeOf expected then none else some _)
      split <;> rfl
  | error e =>
      rw [externType_eq_error htype]
      rfl

theorem checkImports_eq (given : List ExternVal) (expected : List ExternType) :
    s.checkImports given expected = raise (s.importsFault given expected) := by
  unfold checkImports importsFault
  split
  · rw [← forM_raise]
    exact congrArg _ (funext fun (g, e) => checkImport_eq g e)
  · rfl

theorem importFault_eq_none_iff {given : ExternVal} {expected : ExternType} :
    s.importFault given expected = none ↔
      ∃ type, s.externType given = .ok type ∧ type.isSubtypeOf expected = true := by
  unfold importFault
  cases s.externType given with
  | ok type => simp
  | error e => simp

/-- Imports are accepted if there are as many as expected and each is of a subtype of what is
expected. -/
theorem importsFault_eq_none_iff {given : List ExternVal} {expected : List ExternType} :
    s.importsFault given expected = none ↔
      List.Forall₂ (fun g e => ∃ type, s.externType g = .ok type ∧ type.isSubtypeOf e = true)
        given expected := by
  unfold importsFault
  rw [List.forall₂_iff_zip]
  split
  · next hlength =>
      rw [List.findSome?_eq_none_iff]
      constructor
      · intro h
        exact ⟨hlength, fun {g e} hmem => importFault_eq_none_iff.mp (h (g, e) hmem)⟩
      · rintro ⟨_, h⟩ ⟨g, e⟩ hmem
        exact importFault_eq_none_iff.mpr (h hmem)
  · next hlength => exact ⟨nofun, fun h => absurd h.1 hlength⟩

/-- Imports without a fault can be used at the declared types. -/
theorem has_of_importsFault {given : List ExternVal} {expected : List ExternType}
    (h : s.importsFault given expected = none) : List.Forall₂ s.Has given expected := by
  refine (importsFault_eq_none_iff.mp h).imp ?_
  rintro g e ⟨type, htype, hsub⟩
  exact (has_of_externType htype).of_isSubtypeOf hsub

end Store

/-! ## Linking

The faults come in stages: of the module, of its imports, of its segments. In a well-typed store
there is no other.
-/

variable {m : Module} {s : Store} {imports : List ExternVal}

/-- What linking up to the start function leaves in the store: what was there is still there, and
the store is well typed. -/
def Store.Grows (s s' : Store) : Prop :=
  s.Extends s' ∧ s'.WellTyped

/-- There is no reason against linking exactly where all conditions hold. -/
theorem Module.linkFault_eq_none_iff (hs : s.WellTyped) :
    m.linkFault s imports = none ↔ m.Linkable s imports := by
  unfold linkFault Linkable
  cases hvalid : m.validate with
  | error e => exact ⟨nofun, nofun⟩
  | ok sig =>
      dsimp only
      rw [Option.or_eq_none_iff, Option.or_eq_none_iff, List.findSome?_eq_none_iff,
        List.findSome?_eq_none_iff]
      constructor
      · rintro ⟨hfault, helements, hdata⟩
        obtain ⟨funcTypes, hm⟩ := valid_of_validate hvalid
        have himports := Store.has_of_importsFault hfault
        -- the sizes segments are checked against are those of the instances that would be made
        obtain ⟨a, ha⟩ := hm.exists_makes (hm.initialized hs.globals himports)
        exact ⟨sig, rfl, Store.importsFault_eq_none_iff.mp hfault,
          fun e he => (ha.elementFault_eq_none_iff hm himports he).mp (helements e he),
          fun d hd => (ha.dataFault_eq_none_iff hm himports hd).mp (hdata d hd)⟩
      · rintro ⟨sig', heq, hfault, helements, hdata⟩
        cases heq
        have hfault := Store.importsFault_eq_none_iff.mpr hfault
        obtain ⟨funcTypes, hm⟩ := valid_of_validate hvalid
        have himports := Store.has_of_importsFault hfault
        obtain ⟨a, ha⟩ := hm.exists_makes (hm.initialized hs.globals himports)
        exact ⟨hfault,
          fun e he => (ha.elementFault_eq_none_iff hm himports he).mpr (helements e he),
          fun d hd => (ha.dataFault_eq_none_iff hm himports hd).mpr (hdata d hd)⟩

namespace Exec

/-- A module that is not valid is refused. -/
theorem link_of_invalid {e : ValidationError} (h : m.validate = .error e) (mach : Machine) :
    link m imports mach = .error (.invalidModule e) mach := by
  unfold link
  rw [h]
  rfl

/-- A valid module is refused if its imports have a fault, and is else allocated and its segments
are written. -/
theorem link_of_valid {sig : Signature} (h : m.validate = .ok sig) (s : Store)
    (imports : List ExternVal) (stack : Stack Value) :
    link m imports ⟨s, stack⟩ =
      match s.importsFault imports sig.imports with
      | some e => .error e ⟨s, stack⟩
      | none =>
        (do
          let (addr, inst) ← allocate m imports
          writeSegments m inst
          return (addr, inst) : Exec (Nat × ModuleInstance)) ⟨s, stack⟩ := by
  have hlink : link m imports = do
      ask (·.checkImports imports sig.imports)
      let (addr, inst) ← allocate m imports
      writeSegments m inst
      return (addr, inst) := by
    unfold link
    rw [h]
    rfl
  have hcheck := Store.checkImports_eq (s := s) imports sig.imports
  rw [hlink]
  cases hfault : s.importsFault imports sig.imports with
  | some e =>
      rw [hfault] at hcheck
      exact bind_of_error (ask_of_error hcheck)
  | none =>
      rw [hfault] at hcheck
      exact bind_of_ok (ask_of_ok hcheck)

/-- A module that can be linked to `imports` but for its segments is allocated. Then the segments
are written unless they have a fault, and the start function exists and takes no arguments. -/
theorem link_of_initialized {sig : Signature} (hvalid : m.validate = .ok sig)
    (hfault : s.importsFault imports sig.imports = none) (hinit : m.Initialized s imports)
    (stack : Stack Value) :
    ∃ a exports, m.Makes s imports a ∧
      (m.instanceWith s imports a []).Offers m.exports exports ∧
      match m.segmentsFault s imports with
      | some e => link m imports ⟨s, stack⟩ = .error e ⟨m.storeWith s imports a exports, stack⟩
      | none =>
        ∃ ws, m.Writes s imports (m.instanceWith s imports a exports) ws ∧
          (∀ w ∈ ws, w.Ready (m.storeWith s imports a exports)) ∧
          link m imports ⟨s, stack⟩ = .ok (s.modules.size, m.instanceWith s imports a exports)
            ⟨SegmentWrite.applyAll ws (m.storeWith s imports a exports), stack⟩ ∧
          ∀ i, m.start = some i → ∃ func f, (m.instanceWith s imports a exports).func i = .ok func ∧
            (SegmentWrite.applyAll ws (m.storeWith s imports a exports)).funcs[func]? = some f ∧
            f.type = ⟨[], []⟩ := by
  obtain ⟨funcTypes, hm⟩ := Module.valid_of_validate hvalid
  have himports := Store.has_of_importsFault hfault
  obtain ⟨a, exports, ha, hoffers, halloc⟩ := hm.exists_allocation hinit himports
  have hlink := link_of_valid hvalid s imports stack
  rw [hfault] at hlink
  dsimp only at hlink
  rw [bind_of_ok (halloc stack)] at hlink
  have hsegments := ha.writeSegments_outcome hm himports exports stack
  refine ⟨a, exports, ha, hoffers, ?_⟩
  cases hsegment : m.segmentsFault s imports with
  | some e =>
      -- what has been allocated stays behind in the store
      rw [hsegment] at hsegments
      exact hlink.trans (bind_of_error hsegments)
  | none =>
      rw [hsegment] at hsegments
      obtain ⟨ws, hwrites, hready, hrun⟩ := hsegments
      refine ⟨ws, hwrites, hready, hlink.trans (bind_of_ok hrun), fun i hi => ?_⟩
      obtain ⟨func, hfunc, f, hf, htype⟩ :=
        (ha.fits hm himports exports exports).funcs.exists_atIndex .func (hm.start i hi)
      obtain ⟨_, hf', rfl⟩ := (SegmentWrite.extends_applyAll ws _).funcs func f hf
      exact ⟨func, f, hfunc, hf', htype⟩

/-- The three ways that linking takes in a store whose globals hold values of their types: it is
refused and adds nothing; or the module is allocated, and then its segments have a fault or are
written. -/
theorem link_cases (hs : s.GlobalsTyped) (m : Module) (imports : List ExternVal)
    (stack : Stack Value) :
    (∃ e, link m imports ⟨s, stack⟩ = .error e ⟨s, stack⟩) ∨
      ∃ sig funcTypes a exports, m.validate = .ok sig ∧ m.Valid sig funcTypes ∧
        s.importsFault imports sig.imports = none ∧ m.Makes s imports a ∧
        (m.instanceWith s imports a []).Offers m.exports exports ∧
        ((∃ e, link m imports ⟨s, stack⟩ = .error e ⟨m.storeWith s imports a exports, stack⟩) ∨
          ∃ ws, link m imports ⟨s, stack⟩ = .ok (s.modules.size, m.instanceWith s imports a exports)
            ⟨SegmentWrite.applyAll ws (m.storeWith s imports a exports), stack⟩) := by
  cases hvalid : m.validate with
  | error e => exact Or.inl ⟨_, link_of_invalid hvalid _⟩
  | ok sig =>
      cases hfault : s.importsFault imports sig.imports with
      | some e =>
          have hlink := link_of_valid hvalid s imports stack
          rw [hfault] at hlink
          exact Or.inl ⟨e, hlink⟩
      | none =>
          obtain ⟨funcTypes, hm⟩ := Module.valid_of_validate hvalid
          have hinit := hm.initialized hs (Store.has_of_importsFault hfault)
          obtain ⟨a, exports, ha, hoffers, houtcome⟩ :=
            link_of_initialized hvalid hfault hinit stack
          refine Or.inr ⟨sig, funcTypes, a, exports, rfl, hm, hfault, ha, hoffers, ?_⟩
          cases hsegment : m.segmentsFault s imports with
          | some e =>
              rw [hsegment] at houtcome
              exact Or.inl ⟨e, houtcome⟩
          | none =>
              rw [hsegment] at houtcome
              obtain ⟨ws, _, _, hok, _⟩ := houtcome
              exact Or.inr ⟨ws, hok⟩

/-- Linking fails for the first reason there is and else reaches the start function, which can be
called without arguments. -/
theorem link_outcome (hs : s.WellTyped) (m : Module) (imports : List ExternVal)
    (stack : Stack Value) :
    match m.linkFault s imports with
    | some e => ∃ s', link m imports ⟨s, stack⟩ = .error e ⟨s', stack⟩ ∧ s.Grows s'
    | none =>
      ∃ s' inst, link m imports ⟨s, stack⟩ = .ok (s.modules.size, inst) ⟨s', stack⟩ ∧ s.Grows s' ∧
        ∀ i, m.start = some i → ∃ func f, inst.func i = .ok func ∧ s'.funcs[func]? = some f ∧
          f.type = ⟨[], []⟩ := by
  unfold Module.linkFault
  -- the faults in the order in which they are looked for
  cases hvalid : m.validate with
  | error e => exact ⟨s, link_of_invalid hvalid _, .refl s, hs⟩
  | ok sig =>
      have hlink := link_of_valid hvalid s imports stack
      dsimp only
      cases hfault : s.importsFault imports sig.imports with
      | some e =>
          rw [hfault] at hlink
          exact ⟨s, hlink, .refl s, hs⟩
      | none =>
          obtain ⟨funcTypes, hm⟩ := Module.valid_of_validate hvalid
          have himports := Store.has_of_importsFault hfault
          obtain ⟨a, exports, ha, _, houtcome⟩ :=
            link_of_initialized hvalid hfault (hm.initialized hs.globals himports) stack
          have hwell := ha.wellTyped hm hs himports exports
          have hextends : s.Extends (m.storeWith s imports a exports) := s.extends_plus a _
          rw [hm.segmentsFault_eq hs himports] at houtcome
          rw [Option.none_or]
          cases hsegment : (m.elements.findSome? (m.elementFault s imports)).or
              (m.data.findSome? (m.dataFault s imports)) with
          | some e =>
              rw [hsegment] at houtcome
              exact ⟨_, houtcome, hextends, hwell⟩
          | none =>
              rw [hsegment] at houtcome
              obtain ⟨ws, _, hready, hok, hstart⟩ := houtcome
              exact ⟨_, _, hok, ⟨hextends.trans (SegmentWrite.extends_applyAll ws _),
                SegmentWrite.wellTyped_applyAll hready hwell⟩, hstart⟩

end Exec

end WebAssembly
