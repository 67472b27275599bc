import WebAssembly.Engine
import WebAssembly.Proofs.Histories

/-!
# Linking that fails

Linking is all or nothing for what is in a store already, whatever that store is like. A failure
before the start function leaves every instance as it was and where it was; new ones may stand
behind them (`Store.Gains`), and none do if the module or its imports were refused
(`Exec.link_meets`). The reason is that segments are written only once all of them have been placed,
and that one which has been placed can be written. An engine keeps its current module through every
failure, the start function's included, and with it the meaning of every exported name.
-/

namespace WebAssembly

/-! ## What a failure may leave behind

Instances that nothing refers to. Those that were there before are not only kept but left as they
were, which is more than a history promises.
-/

/-- `s'` has all that `s` has, unchanged and in the same places. What else it has stands behind. -/
structure Store.Gains (s s' : Store) : Prop where
  funcs : s.funcs.toList <+: s'.funcs.toList
  tables : s.tables.toList <+: s'.tables.toList
  memories : s.memories.toList <+: s'.memories.toList
  globals : s.globals.toList <+: s'.globals.toList
  modules : s.modules.toList <+: s'.modules.toList
  hostCalls : s'.hostCalls = s.hostCalls

theorem Store.Gains.refl (s : Store) : s.Gains s :=
  ⟨List.prefix_rfl, List.prefix_rfl, List.prefix_rfl, List.prefix_rfl, List.prefix_rfl, rfl⟩

/-- Adding instances leaves all others as they were and where they were. -/
theorem Store.gains_plus (s : Store) (a : Additions) (inst : ModuleInstance) :
    s.Gains (s.plus a inst) where
  funcs := ⟨a.funcs, (Array.toList_appendList ..).symm⟩
  tables := ⟨a.tables, (Array.toList_appendList ..).symm⟩
  memories := ⟨a.memories, (Array.toList_appendList ..).symm⟩
  globals := ⟨a.globals, (Array.toList_appendList ..).symm⟩
  modules := ⟨[inst], Array.toList_push.symm⟩
  hostCalls := rfl

theorem Store.Gains.modules_last {s s' : Store} (h : s.Gains s') :
    Lasts Eq s.modules s'.modules := by
  intro addr inst hinst
  obtain ⟨new, hnew⟩ := h.modules
  refine ⟨inst, ?_, rfl⟩
  have hlt : addr < s.modules.toList.length := (Array.getElem?_eq_some_iff.mp hinst).1
  rw [← Array.getElem?_toList, ← hnew, List.getElem?_append_left hlt, Array.getElem?_toList, hinst]

/-- The failures by which a module is refused before anything of it is added: it is not valid, or
what it is given does not exist or does not fit. -/
def RuntimeError.IsRefusal : RuntimeError → Prop
  | .invalidModule _ => True
  | .importCountMismatch _ _ => True
  | .invalidAddress _ => True
  | .externTypeMismatch _ _ => True
  | _ => False

theorem not_isRefusal_of_constantFault {t : ValueType} {v : Option Value} {e : RuntimeError}
    (h : constantFault t v = some e) : ¬ e.IsRefusal := by
  unfold constantFault at h
  split at h
  · split at h <;> simp_all [RuntimeError.IsRefusal, eq_comm]
  · simp at h

/-- A segment out of bounds is a trap, by which time the module has been accepted. -/
theorem not_isRefusal_of_segmentFault {e e' : RuntimeError} {offset : Option Value}
    {size : Option Nat} {count : Nat} (h : segmentFault e offset size count = some e')
    (he : ¬ e.IsRefusal) : ¬ e'.IsRefusal := by
  obtain ⟨v, _, h⟩ := Option.bind_eq_some_iff.mp h
  obtain ⟨n, _, h⟩ := Option.bind_eq_some_iff.mp h
  split at h
  · exact Option.some.inj h ▸ he
  · simp at h

/-- A fault of a segment is no refusal. -/
theorem Module.not_isRefusal_of_segmentsFault {m : Module} {s : Store} {imports : List ExternVal}
    {e : RuntimeError} (h : m.segmentsFault s imports = some e) : ¬ e.IsRefusal := by
  rcases Option.or_eq_some_iff.mp h with h | ⟨_, h⟩
  · obtain ⟨segment, _, h⟩ := List.exists_of_findSome?_eq_some h
    rcases Option.or_eq_some_iff.mp h with h | ⟨_, h⟩
    · exact not_isRefusal_of_constantFault h
    · exact not_isRefusal_of_segmentFault h id
  · obtain ⟨segment, _, h⟩ := List.exists_of_findSome?_eq_some h
    rcases Option.or_eq_some_iff.mp h with h | ⟨_, h⟩
    · exact not_isRefusal_of_constantFault h
    · exact not_isRefusal_of_segmentFault h id

/-! ## Linking in any store

Nothing is assumed of the store here, in particular not that globals hold values of their types. A
value of another type is one more way for linking to fail, as an initial value before anything is
added and as an offset before anything is written.
-/

/-- What is known once a module has been linked: all that was there is still there, the new instance
is at its address, and there is a start function if the module declares one. -/
structure Store.Linked (s : Store) (m : Module) (addr : Nat) (inst : ModuleInstance) (s' : Store) :
    Prop where
  old : s.Extends s'
  new : s'.modules[addr]? = some inst
  start : ∀ i, m.start = some i → ∃ func, inst.func i = .ok func

namespace Exec

variable {m : Module} {s : Store} {imports : List ExternVal}

/-- The first values of globals are computed one after the other, up to the first that is not of its
type, and nothing is added meanwhile. -/
theorem checks_globalValues {sig : Signature} {funcTypes : List FuncType}
    (hm : m.Valid sig funcTypes) (himports : List.Forall₂ s.Has imports sig.imports)
    (stack : Stack Value) :
    Checks (m.globals.findSome? fun d => constantFault d.type.type (s.constantValue imports d.init))
      (List.Forall₂ (fun _ p => p.2.type = p.1.type) m.globals) ⟨s, stack⟩
      (globalValues m (.ofExterns m.types imports []) ⟨s, stack⟩) := by
  refine checks_mapM fun d hd => ?_
  obtain ⟨v, hv, _⟩ := Module.exists_constantValue hm himports (hm.globals d hd)
  have hconstant : ∀ scope : ModuleInstance,
      scope.globals = (imports.filterMap ExternVal.global?).toArray →
      isolated (constant scope d.init d.type.type) ⟨s, stack⟩ =
        if v.type = d.type.type then .ok v ⟨s, stack⟩
        else .error (.typeMismatch d.type.type v.type) ⟨s, stack⟩ :=
    fun _ hscope => constant_outcome hscope hv d.type.type
  rw [hv, constantFault]
  -- the declared type was checked, but the value comes from the store and is checked again
  by_cases htype : v.type = d.type.type
  · simp only [if_pos htype] at hconstant ⊢
    exact ⟨(d.type, v), htype, bind_of_ok (hconstant _ rfl)⟩
  · simp only [if_neg htype] at hconstant ⊢
    exact bind_of_error (hconstant _ rfl)

/-- If some global has a first value that is not of its type, nothing has been added yet. -/
theorem link_of_not_initialized {sig : Signature} (hvalid : m.validate = .ok sig)
    (hfault : s.importsFault imports sig.imports = none) (hinit : ¬ m.Initialized s imports)
    (stack : Stack Value) :
    ∃ e, ¬ e.IsRefusal ∧ link m imports ⟨s, stack⟩ = .error e ⟨s, stack⟩ := by
  obtain ⟨funcTypes, hm⟩ := Module.valid_of_validate hvalid
  have himports := Store.has_of_importsFault hfault
  have hvalues := checks_globalValues hm himports stack
  have hscope : imports.foldl ModuleInstance.add { types := m.types.toArray } =
      .ofExterns m.types imports [] :=
    ModuleInstance.foldl_add_ofExterns m.types [] [] imports
  cases hfirst : m.globals.findSome? fun d =>
      constantFault d.type.type (s.constantValue imports d.init) with
  | some e =>
      obtain ⟨d, _, hd⟩ := List.exists_of_findSome?_eq_some hfirst
      refine ⟨e, not_isRefusal_of_constantFault hd, ?_⟩
      rw [hfirst] at hvalues
      rw [link_of_valid hvalid, hfault]
      refine bind_of_error ?_
      unfold allocate
      rw [hscope]
      exact bind_of_error hvalues
  | none =>
      refine absurd (fun d hd => ?_) hinit
      obtain ⟨v, hv, _⟩ := Module.exists_constantValue hm himports (hm.globals d hd)
      have hnone := List.findSome?_eq_none_iff.mp hfirst d hd
      rw [hv, constantFault] at hnone
      by_cases htype : v.type = d.type.type
      · exact ⟨v, hv, htype⟩
      · simp [htype] at hnone

/-- Linking in a store of which nothing is known. A failure leaves all instances alone, and adds
none if it is a refusal. -/
theorem link_meets (m : Module) (s : Store) (imports : List ExternVal) (stack : Stack Value) :
    Meets (fun r mach => s.Linked m r.1 r.2 mach.store)
      (fun e mach => s.Gains mach.store ∧ (e.IsRefusal → mach.store = s))
      (link m imports ⟨s, stack⟩) := by
  -- the stages of linking in turn; nothing is added up to allocation, and nothing written up to the
  -- last check
  cases hvalid : m.validate with
  | error e =>
      rw [link_of_invalid hvalid]
      exact ⟨.refl s, fun _ => rfl⟩
  | ok sig =>
      cases hfault : s.importsFault imports sig.imports with
      | some e =>
          rw [link_of_valid hvalid, hfault]
          exact ⟨.refl s, fun _ => rfl⟩
      | none =>
          by_cases hinit : m.Initialized s imports
          · obtain ⟨a, exports, _, _, houtcome⟩ := link_of_initialized hvalid hfault hinit stack
            cases hsegment : m.segmentsFault s imports with
            | some e =>
                rw [hsegment] at houtcome
                rw [houtcome]
                exact ⟨s.gains_plus a _, fun he =>
                  absurd he (Module.not_isRefusal_of_segmentsFault hsegment)⟩
            | none =>
                rw [hsegment] at houtcome
                obtain ⟨ws, _, _, hok, hstart⟩ := houtcome
                have hextends := SegmentWrite.extends_applyAll ws (m.storeWith s imports a exports)
                have hnew : (m.storeWith s imports a exports).modules[s.modules.size]? =
                    some (m.instanceWith s imports a exports) := Array.getElem?_push_size
                obtain ⟨_, hinst, rfl⟩ := hextends.modules _ _ hnew
                rw [hok]
                refine ⟨(s.extends_plus a _).trans hextends, hinst, fun i hi => ?_⟩
                obtain ⟨func, _, hfunc, _⟩ := hstart i hi
                exact ⟨func, hfunc⟩
          · obtain ⟨e, he, herror⟩ := link_of_not_initialized hvalid hfault hinit stack
            rw [herror]
            exact ⟨.refl s, fun hrefusal => absurd hrefusal he⟩

end Exec

/-! ## Instantiation

Behind linking only the start function can fail. What it has done by then is not undone.
-/

namespace Run

variable {fuel : Nat} {m : Module} {s : Store} {imports : List ExternVal} {stack : Stack Value}

/-- `e` comes from running the start function: the module has been linked, and `e` is what invoking
its start function ended with. -/
def StartFails (fuel : Nat) (m : Module) (imports : List ExternVal) (e : RuntimeError)
    (before after : Machine) : Prop :=
  ∃ addr inst linked i func, Exec.link m imports before = .ok (addr, inst) linked ∧
    m.start = some i ∧ inst.func i = .ok func ∧
    isolated (invoke fuel func []) linked = some (.error e after)

/-- Instantiation is linking and then, if there is a start function, invoking it. -/
theorem instantiate_cases {r : EStateM.Result RuntimeError Machine Nat}
    (h : instantiate fuel m imports ⟨s, stack⟩ = some r) :
    (∃ e mach, Exec.link m imports ⟨s, stack⟩ = .error e mach ∧ r = .error e mach) ∨
      ∃ addr inst linked, Exec.link m imports ⟨s, stack⟩ = .ok (addr, inst) linked ∧
        s.Linked m addr inst linked.store ∧ linked.store.Keeps (final r).store ∧
        ((∃ mach, r = .ok addr mach) ∨
          ∃ e mach, r = .error e mach ∧ StartFails fuel m imports e ⟨s, stack⟩ mach) := by
  have hlink := Exec.link_meets m s imports stack
  cases hresult : Exec.link m imports ⟨s, stack⟩ with
  | error e mach =>
      rw [instantiate_of_error hresult] at h
      exact Or.inl ⟨e, mach, rfl, (Option.some.inj h).symm⟩
  | ok linked mach =>
      obtain ⟨addr, inst⟩ := linked
      rw [hresult] at hlink
      refine Or.inr ⟨addr, inst, mach, rfl, hlink, ?_⟩
      -- with the module linked, only its start function can still fail
      cases hstart : m.start with
      | none =>
          rw [instantiate_of_no_start hresult hstart] at h
          cases h
          exact ⟨.refl _, Or.inl ⟨mach, rfl⟩⟩
      | some i =>
          obtain ⟨func, hfunc⟩ := hlink.start i hstart
          rw [instantiate_of_start hresult hstart hfunc] at h
          refine ⟨((Steady.isolated (.invoke fuel func [])).bind fun _ => .pure _) _ r h, ?_⟩
          rcases bind_eq_some_iff.mp h with ⟨e, mach', herror, rfl⟩ | ⟨_, mach', _, hr⟩
          · exact Or.inr ⟨e, mach', rfl, addr, inst, mach, i, func, hresult, hstart, hfunc, herror⟩
          · exact Or.inl ⟨mach', (Option.some.inj hr).symm⟩

/-- A failure either comes from the start function or leaves all instances alone. -/
theorem instantiate_of_failure {e : RuntimeError} {mach : Machine}
    (h : instantiate fuel m imports ⟨s, stack⟩ = some (.error e mach)) :
    StartFails fuel m imports e ⟨s, stack⟩ mach ∨
      (s.Gains mach.store ∧ (e.IsRefusal → mach.store = s)) := by
  rcases instantiate_cases h with ⟨e', mach', hlink, heq⟩ | ⟨_, _, _, _, _, _, hend⟩
  · cases heq
    have hmeets := Exec.link_meets m s imports stack
    rw [hlink] at hmeets
    exact Or.inr hmeets
  · rcases hend with ⟨_, heq⟩ | ⟨_, _, heq, hstart⟩
    · cases heq
    · cases heq
      exact Or.inl hstart

/-- Module instances stay where they are, however instantiation ends. -/
theorem instantiate_modules_last {r : EStateM.Result RuntimeError Machine Nat}
    (h : instantiate fuel m imports ⟨s, stack⟩ = some r) :
    Lasts Eq s.modules (final r).store.modules := by
  rcases instantiate_cases h with ⟨e, mach, hlink, rfl⟩ | ⟨_, _, linked, _, hlinked, hkeeps, _⟩
  · have hmeets := Exec.link_meets m s imports stack
    rw [hlink] at hmeets
    exact hmeets.1.modules_last
  · rw [hkeeps.modules]
    exact hlinked.old.modules

/-- What was instantiated is at the address that is given. -/
theorem exists_of_instantiate {addr : Nat} {mach : Machine}
    (h : instantiate fuel m imports ⟨s, stack⟩ = some (.ok addr mach)) :
    ∃ inst, mach.store.modules[addr]? = some inst := by
  rcases instantiate_cases h with ⟨_, _, _, heq⟩ | ⟨_, inst, _, _, hlinked, hkeeps, hend⟩
  · cases heq
  · rcases hend with ⟨_, heq⟩ | ⟨_, _, heq, _⟩
    · cases heq
      refine ⟨inst, ?_⟩
      rw [show mach.store.modules = _ from hkeeps.modules]
      exact hlinked.new
    · cases heq

end Run

/-- Module instances stay where they are, whatever happens to a store. -/
theorem Store.Step.modules_last {s s' : Store} (h : s.Step s') : Lasts Eq s.modules s'.modules := by
  have hsame : Lasts Eq s.modules s.modules := .refl (fun _ => rfl) _
  -- only instantiation touches the modules
  cases h with
  | newHostFunc type run => exact hsame
  | newTable type => exact hsame
  | newMemory h =>
      obtain ⟨_, _, rfl⟩ := newMemory_eq_ok h
      exact hsame
  | newGlobal h =>
      obtain ⟨_, _, rfl⟩ := newGlobal_eq_ok h
      exact hsame
  | tableGrow h =>
      obtain ⟨_, _, _, _, rfl⟩ := tableGrow_eq_ok h
      exact hsame
  | tableSet _ h =>
      obtain ⟨_, _, _, _, rfl⟩ := tableSet_eq_ok h
      exact hsame
  | memoryGrow h => exact (keeps_of_memoryGrow h).extends.modules
  | memoryWrite h => exact (keeps_of_memoryWrite h).extends.modules
  | globalSet h => exact (keeps_of_globalSet h).extends.modules
  | instantiate h => exact Run.instantiate_modules_last h
  | invoke h => exact (Run.Steady.invoke _ _ _ _ _ h).extends.modules

/-! ## Engines

An engine has a store and the address of its current module. Only an instantiation that succeeds
sets the address.
-/

/-- An engine that comes about: it starts with any store and no module, its surroundings use the
store, and modules are instantiated with whatever outcome. -/
inductive Engine.Reachable : Engine → Prop
  | new (s : Store) : Reachable ⟨s, none⟩
  | access {e : Engine} {s : Store} :
      Reachable e → e.store.Step s → Reachable { e with store := s }
  | instantiate {e e' : Engine} {fuel : Nat} {m : Module} {imports : List ExternVal}
      {answer : Except RuntimeError Nat} :
      Reachable e → e.instantiate fuel m imports = some (answer, e') → Reachable e'

namespace Engine

variable {e e' : Engine} {fuel : Nat} {m : Module} {imports : List ExternVal}

/-- How instantiation ends in an engine: it becomes the current module unless it fails. -/
theorem instantiate_eq_some {answer : Except RuntimeError Nat}
    (h : e.instantiate fuel m imports = some (answer, e')) :
    ∃ r, Run.instantiate fuel m imports ⟨e.store, .empty⟩ = some r ∧ e'.store = (final r).store ∧
      ((∃ addr mach, r = .ok addr mach ∧ answer = .ok addr ∧ e'.current = some addr) ∨
        ∃ err mach, r = .error err mach ∧ answer = .error err ∧ e'.current = e.current) := by
  unfold instantiate run at h
  cases hr : Run.instantiate fuel m imports ⟨e.store, .empty⟩ with
  | none => simp [hr] at h
  | some r =>
      cases r with
      | ok addr mach =>
          simp only [hr, Option.some.injEq, Prod.mk.injEq] at h
          obtain ⟨rfl, rfl⟩ := h
          exact ⟨_, rfl, rfl, Or.inl ⟨addr, mach, rfl, rfl, rfl⟩⟩
      | error err mach =>
          simp only [hr, Option.some.injEq, Prod.mk.injEq] at h
          obtain ⟨rfl, rfl⟩ := h
          exact ⟨_, rfl, rfl, Or.inr ⟨err, mach, rfl, rfl, rfl⟩⟩

/-- The store has the current module. -/
def HasCurrent (e : Engine) : Prop :=
  ∀ addr, e.current = some addr → ∃ inst, e.store.modules[addr]? = some inst

/-- The current module stays where it is while modules last. -/
theorem HasCurrent.of_last (h : e.HasCurrent) (hcurrent : e'.current = e.current)
    (hlast : Lasts Eq e.store.modules e'.store.modules) : e'.HasCurrent := by
  intro addr haddr
  rw [hcurrent] at haddr
  obtain ⟨inst, hinst⟩ := h addr haddr
  obtain ⟨inst', hinst', _⟩ := hlast addr inst hinst
  exact ⟨inst', hinst'⟩

/-- An engine's current module is one of its store, after whatever has been done to it. -/
theorem Reachable.hasCurrent (h : e.Reachable) : e.HasCurrent := by
  -- on the history of the engine
  induction h with
  | new s => intro addr haddr; cases haddr
  | access _ hstep ih => exact ih.of_last rfl hstep.modules_last
  | instantiate _ hrun ih =>
      obtain ⟨r, hr, hstore, hend⟩ := instantiate_eq_some hrun
      rcases hend with ⟨addr, mach, rfl, _, hcurrent⟩ | ⟨_, _, rfl, _, hcurrent⟩
      · intro addr' haddr'
        rw [hcurrent] at haddr'
        cases haddr'
        rw [hstore]
        exact Run.exists_of_instantiate hr
      · refine ih.of_last hcurrent ?_
        rw [hstore]
        exact Run.instantiate_modules_last hr

/-- An engine keeps its current module through a failure, and with it the meaning of all names. -/
theorem Reachable.instance?_of_failure (h : e.Reachable) {err : RuntimeError}
    (hrun : e.instantiate fuel m imports = some (.error err, e')) :
    e'.current = e.current ∧ e'.instance? = e.instance? := by
  obtain ⟨r, hr, hstore, hend⟩ := instantiate_eq_some hrun
  have hlast := Run.instantiate_modules_last hr
  rw [← hstore] at hlast
  have hcurrent : e'.current = e.current := by
    rcases hend with ⟨_, _, _, hanswer, _⟩ | ⟨_, _, _, _, hcurrent⟩
    · cases hanswer
    · exact hcurrent
  refine ⟨hcurrent, ?_⟩
  unfold instance?
  rw [hcurrent]
  cases haddr : e.current with
  | none => rfl
  | some addr =>
      obtain ⟨inst, hinst⟩ := h.hasCurrent addr haddr
      obtain ⟨_, hinst', rfl⟩ := hlast addr inst hinst
      rw [Option.bind_some, Option.bind_some, hinst, hinst']

end Engine

/-! ## All or nothing -/

/-- Failed instantiation is all or nothing. In any store, a failure that does not come from the
start function leaves every instance as it was and where it was, and adds none if the module or what
it is given was refused. An engine keeps its current module through every failure, and so every name
keeps its meaning. -/
theorem Module.instantiate_all_or_nothing (m : Module) (imports : List ExternVal) (fuel : Nat) :
    (∀ (s : Store) (stack : Stack Value) (e : RuntimeError) (mach : Machine),
      Run.instantiate fuel m imports ⟨s, stack⟩ = some (.error e mach) →
        Run.StartFails fuel m imports e ⟨s, stack⟩ mach ∨
          (s.Gains mach.store ∧ (e.IsRefusal → mach.store = s))) ∧
      ∀ (engine engine' : Engine) (e : RuntimeError), engine.Reachable →
        engine.instantiate fuel m imports = some (.error e, engine') →
          engine'.current = engine.current ∧
            ∀ name, engine'.export? name = engine.export? name := by
  constructor
  · intro s stack e mach h
    exact Run.instantiate_of_failure h
  · intro engine engine' e hreachable h
    obtain ⟨hcurrent, hinstance⟩ := hreachable.instance?_of_failure h
    refine ⟨hcurrent, fun name => ?_⟩
    rw [Engine.export?, Engine.export?, hinstance]

/-- A module that exports a table with one empty slot. -/
def emptySlot : Module where
  tables := [⟨⟨1, none⟩⟩]
  exports := [⟨"slots", .table 0⟩]

/-- A module that puts its function into the first slot of an imported table, and a byte into a
memory that has no room for it. -/
def slotFiller : Module where
  types := [⟨[], []⟩]
  imports := [⟨"env", "slots", .table ⟨⟨1, none⟩⟩⟩]
  funcs := [⟨0, [], []⟩]
  memories := [⟨⟨0, none⟩⟩]
  elements := [⟨0, [.plain (.const (.i32 0))], [0]⟩]
  data := [⟨0, [.plain (.const (.i32 0))], [1]⟩]

/-- The engine after `emptySlot` has been instantiated. -/
def emptySlotEngine : Engine :=
  ((({} : Engine).instantiate 0 emptySlot []).map (·.2)).getD {}

theorem reachable_emptySlotEngine : emptySlotEngine.Reachable := by
  unfold emptySlotEngine
  cases h : ({} : Engine).instantiate 0 emptySlot [] with
  | none => exact .new {}
  | some answer => exact .instantiate (.new {}) h

/-- The byte does not fit, so the slot that was to be filled first stays empty, and the table is
still found under its name. -/
theorem slotFiller_leaves_slot_empty :
    emptySlotEngine.store.tables.map Table.slots = #[#[none]] ∧
      ∃ engine, emptySlotEngine.instantiate 0 slotFiller [.table 0] =
        some (.error .memoryInitOutOfBounds, engine) ∧
        emptySlotEngine.store.Gains engine.store ∧ engine.export? "slots" = some (.table 0) := by
  have hfailure : (emptySlotEngine.instantiate 0 slotFiller [.table 0]).map (·.1) =
      some (.error .memoryInitOutOfBounds) := by
    cbv
  have hname : emptySlotEngine.export? "slots" = some (.table 0) := by
    cbv
  refine ⟨by cbv, ?_⟩
  obtain ⟨⟨_, engine⟩, hrun, rfl⟩ := Option.map_eq_some_iff.mp hfailure
  have h := Module.instantiate_all_or_nothing slotFiller [.table 0] 0
  obtain ⟨r, hr, hstore, hend⟩ := Engine.instantiate_eq_some hrun
  refine ⟨engine, hrun, ?_, ?_⟩
  · rcases hend with ⟨_, _, _, hanswer, _⟩ | ⟨err, mach, rfl, hanswer, _⟩
    · cases hanswer
    · rcases h.1 _ _ err mach hr with ⟨_, _, _, _, _, _, hstart, _⟩ | ⟨hgains, _⟩
      · cases hstart
      · rw [hstore]
        exact hgains
  · rw [(h.2 _ _ _ reachable_emptySlotEngine hrun).2, hname]

end WebAssembly
