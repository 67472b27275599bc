import WebAssembly.Proofs.Typing.Residue

/-!
# The checker decides the typing rules

Each instruction's check decides its typing rule, widened by the operands that pass by it.
Constructs are checked in settings of their own; from outside, a construct is a look-up that finds
its results if its bodies have the right types. So a body is accepted if and only if it has a type.
-/

namespace WebAssembly

/-- A rule with operands that pass by under those it takes. -/
def Widened (rule : List ValueType → List ValueType → Prop) (ts ts' : List ValueType) : Prop :=
  ∃ under taken given, ts = under ++ taken ∧ ts' = under ++ given ∧ rule taken given

theorem Widened.intro {rule : List ValueType → List ValueType → Prop}
    {taken given : List ValueType} (under : List ValueType) (h : rule taken given) :
    Widened rule (under ++ taken) (under ++ given) :=
  ⟨under, taken, given, rfl, rfl, h⟩

/-- A rule at fixed types, widened. -/
theorem widened_eq_iff {taken given ts ts' : List ValueType} :
    Widened (fun a b => a = taken ∧ b = given) ts ts' ↔
      ∃ under, ts = under ++ taken ∧ ts' = under ++ given := by
  constructor
  · rintro ⟨under, _, _, hts, hts', rfl, rfl⟩
    exact ⟨under, hts, hts'⟩
  · rintro ⟨under, rfl, rfl⟩
    exact .intro under ⟨rfl, rfl⟩

/-- Rules that hold at the same types are the same when widened. -/
theorem widened_congr {rule rule' : List ValueType → List ValueType → Prop}
    (h : ∀ taken given, rule taken given ↔ rule' taken given) (ts ts' : List ValueType) :
    Widened rule ts ts' ↔ Widened rule' ts ts' := by
  have : rule = rule' := funext fun taken => funext fun given => propext (h taken given)
  rw [this]

/-! ## Operands of `select`

Two operands of one type, of which both may be unknown. What is pushed is the one that is known.
-/

/-- Operands that may both be of one type pass for each other. -/
theorem Check.compatible_of_admits {first second : Operand} {t : ValueType}
    (hfirst : first.Admits t) (hsecond : second.Admits t) :
    Check.compatible first second = true := by
  cases second with
  | known s =>
      cases hsecond
      exact Check.compatible_known_iff.mpr hfirst
  | unknown => simp [Check.compatible]

/-- The operand that `select` leaves admits a type only if both operands it takes do. -/
theorem Operand.admits_of_select {first second : Operand} {t : ValueType}
    (hcompatible : Check.compatible first second = true)
    (h : (if second = .unknown then first else second).Admits t) :
    first.Admits t ∧ second.Admits t := by
  cases second with
  | known s =>
      cases h
      exact ⟨Check.compatible_known_iff.mp hcompatible, rfl⟩
  | unknown => exact ⟨h, trivial⟩

/-- The operand `select` leaves is the better known of its two, and admits what both admit. -/
theorem Operand.select_admits {first second : Operand} {t : ValueType}
    (hfirst : first.Admits t) (hsecond : second.Admits t) :
    (if second = .unknown then first else second).Admits t := by
  split
  · exact hfirst
  · exact hsecond

namespace Decides

variable {w : Setting}

/-! ## Taking and giving operands

The building blocks of rules: operands come off from the last to the first and go on from the first
to the last.
-/

/-- Pushing is decided by the types pushed, whatever is below. -/
theorem pushTypes (given : List ValueType) :
    Decides w (Check.pushTypes given) fun ts ts' => ts' = ts ++ given where
  sound := by
    intro r c h
    rw [Check.pushTypes_state] at h
    cases h
    refine ⟨r.pushTypes given, rfl, ?_⟩
    intro ts' hts'
    exact Residue.pushTypes_admits_iff.mp hts'
  complete := by
    rintro r ts _ hts rfl
    exact ⟨r.pushTypes given, Check.pushTypes_state w r given,
      Residue.pushTypes_admits_iff.mpr ⟨ts, hts, rfl⟩⟩

/-- Popping a type succeeds on exactly the stacks that may end in it. -/
theorem popType (t : ValueType) :
    Decides w (Check.popType t) fun ts ts' => ts = ts' ++ [t] where
  sound := by
    intro r c h
    obtain ⟨o, c', ho, hc⟩ := bind_eq_ok_iff.mp h
    cases hc
    obtain ⟨o', c'', hpop, hif⟩ := bind_eq_ok_iff.mp ho
    split at hif
    · next hcompatible =>
        cases hif
        obtain ⟨r', rfl, hback⟩ := Check.pop_sound hpop
        refine ⟨r', rfl, ?_⟩
        intro ts' hts'
        exact ⟨ts' ++ [t], hback ts' t hts' (Check.compatible_known_iff.mp hcompatible), rfl⟩
    · cases hif
  complete := by
    rintro r _ ts' hts rfl
    obtain ⟨o, r', hpop, hts', ho⟩ := Check.pop_complete hts
    refine ⟨r', ?_, hts'⟩
    have hoperand : Check.popOperand (.known t) (w.state r) = .ok o (w.state r') := by
      rw [Check.popOperand, bind_of_ok hpop, if_pos (Check.compatible_known_iff.mpr ho)]
      rfl
    rw [Check.popType, bind_of_ok hoperand]
    rfl

/-- Popping types from the last to the first succeeds on exactly the stacks that may end in them. -/
theorem popTypes (taken : List ValueType) :
    Decides w (Check.popTypes taken) fun ts ts' => ts = ts' ++ taken := by
  -- the last type is on top and comes off first
  induction taken using List.reverseRecOn with
  | nil =>
      refine nothing.congr ?_
      intro ts ts'
      rw [List.append_nil]
  | append_singleton taken t ih =>
      have hconcat : Check.popTypes (taken ++ [t]) =
          (Check.popType t >>= fun _ => Check.popTypes taken) := by
        simp [Check.popTypes]
      rw [hconcat]
      refine ((popType t).bind ih).congr ?_
      intro ts ts'
      constructor
      · rintro ⟨_, rfl, rfl⟩
        rw [List.append_assoc]
      · rintro rfl
        exact ⟨ts' ++ taken, by rw [List.append_assoc], rfl⟩

/-- Taking operands and leaving results is the rule of an instruction under any stack. -/
theorem apply (taken given : List ValueType) :
    Decides w (Check.apply taken given) (Widened fun a b => a = taken ∧ b = given) := by
  refine ((popTypes taken).bind (pushTypes given)).congr ?_
  intro ts ts'
  rw [widened_eq_iff]

/-! ## Plain instructions

Each check is a guard or a look-up in front of taking and giving operands, so each rule is put
together in the same way.
-/

theorem drop : Decides w (Check.pop >>= fun _ => pure ()) fun ts ts' => ∃ t, ts = ts' ++ [t] where
  sound := by
    intro r c h
    obtain ⟨o, c', hpop, hc⟩ := bind_eq_ok_iff.mp h
    cases hc
    obtain ⟨r', rfl, hback⟩ := Check.pop_sound hpop
    refine ⟨r', rfl, ?_⟩
    intro ts' hts'
    cases o with
    | known t => exact ⟨ts' ++ [t], hback ts' t hts' rfl, t, rfl⟩
    | unknown => exact ⟨ts' ++ [.i32], hback ts' .i32 hts' trivial, .i32, rfl⟩
  complete := by
    rintro r _ ts' hts ⟨t, rfl⟩
    obtain ⟨o, r', hpop, hts', _⟩ := Check.pop_complete hts
    exact ⟨r', by rw [bind_of_ok hpop]; rfl, hts'⟩

/-- Both values of `select` are of one type, which is chosen by what is wanted of its result. -/
theorem selectValues :
    Decides w
      (Check.pop >>= fun second => Check.popOperand second >>= fun first =>
        Check.push (if second = .unknown then first else second))
      fun ts ts' => ∃ under t, ts = under ++ [t] ++ [t] ∧ ts' = under ++ [t] where
  sound := by
    intro r c h
    obtain ⟨second, c₁, hsecond, h⟩ := bind_eq_ok_iff.mp h
    obtain ⟨first, c₂, hfirst, h⟩ := bind_eq_ok_iff.mp h
    obtain ⟨r₁, rfl, hback₁⟩ := Check.pop_sound hsecond
    obtain ⟨first', c₃, hpop, hif⟩ := bind_eq_ok_iff.mp hfirst
    split at hif
    · next hcompatible =>
        cases hif
        obtain ⟨r₂, rfl, hback₂⟩ := Check.pop_sound hpop
        rw [Check.push_state] at h
        cases h
        refine ⟨_, rfl, ?_⟩
        intro ts' hts'
        -- both operands may be unknown: only what is wanted of the result fixes their type
        obtain ⟨under, t, rfl, hunder, ht⟩ := Residue.exists_of_push_admits hts'
        obtain ⟨htfirst, htsecond⟩ := Operand.admits_of_select hcompatible ht
        have hts := hback₁ (under ++ [t]) t (hback₂ under t hunder htfirst) htsecond
        exact ⟨_, hts, under, t, rfl, rfl⟩
    · cases hif
  complete := by
    rintro r _ _ hts ⟨under, t, rfl, rfl⟩
    obtain ⟨second, r₁, hsecond, hts₁, htsecond⟩ := Check.pop_complete hts
    obtain ⟨first, r₂, hpop, hunder, htfirst⟩ := Check.pop_complete hts₁
    have hfirst : Check.popOperand second (w.state r₁) = .ok first (w.state r₂) := by
      rw [Check.popOperand, bind_of_ok hpop,
        if_pos (Check.compatible_of_admits htfirst htsecond)]
      rfl
    refine ⟨r₂.push (if second = .unknown then first else second), ?_, ?_⟩
    · rw [bind_of_ok hsecond, bind_of_ok hfirst, Check.push_state]
    · exact Residue.push_admits hunder (Operand.select_admits htfirst htsecond)

/-- A check behind a condition that does not depend on the operands. -/
theorem guarded {p : Prop} {x y : Check Unit} {S : List ValueType → List ValueType → Prop}
    (hpass : p → ∀ r, x (w.state r) = .ok () (w.state r))
    (hfail : ¬p → ∀ r, ∃ e, x (w.state r) = .error e (w.state r))
    (hy : Decides w y S) :
    Decides w (x >>= fun _ => y) fun ts ts' => p ∧ S ts ts' where
  sound := by
    intro r c h
    -- a check that fails refuses every stack, so nothing is left to decide
    by_cases hp : p
    · rw [bind_of_ok (hpass hp r)] at h
      obtain ⟨r', rfl, hback⟩ := hy.sound h
      refine ⟨r', rfl, ?_⟩
      intro ts' hts'
      obtain ⟨ts, hts, hS⟩ := hback ts' hts'
      exact ⟨ts, hts, hp, hS⟩
    · obtain ⟨e, he⟩ := hfail hp r
      rw [bind_of_error he] at h
      cases h
  complete := by
    rintro r ts ts' hts ⟨hp, hS⟩
    obtain ⟨r', hr', hts'⟩ := hy.complete hts hS
    exact ⟨r', by rw [bind_of_ok (hpass hp r), hr'], hts'⟩

/-- A check that always fails decides what never holds. -/
theorem refused {e : ValidationError} {S : List ValueType → List ValueType → Prop}
    (hS : ∀ ts ts', ¬S ts ts') : Decides w (throw e) S where
  sound := by
    intro r c h
    cases h
  complete := by
    intro r ts ts' _ h
    exact absurd h (hS ts ts')

variable (ctx : Context)

/-- There is a first entry unless there is none at all. -/
theorem isEmpty_iff_no_first {α : Type} {xs : Array α} :
    xs.isEmpty = true ↔ ¬∃ x, xs[0]? = some x := by
  simp [Array.getElem?_eq_some_iff]

/-- A check behind the question for a memory has the memory as a premise of its rule. -/
theorem withMemory {y : Check Unit} {S : List ValueType → List ValueType → Prop}
    (hy : Decides w y S) :
    Decides w (Check.requireMemory ctx >>= fun _ => y) fun ts ts' =>
      (∃ m, ctx.memories[0]? = some m) ∧ S ts ts' := by
  refine guarded ?_ ?_ hy
  · intro hm r
    rw [Check.requireMemory, if_neg (fun h => isEmpty_iff_no_first.mp h hm)]
    rfl
  · intro hm r
    rw [Check.requireMemory, if_pos (isEmpty_iff_no_first.mpr hm)]
    exact ⟨_, rfl⟩

theorem withTable {y : Check Unit} {S : List ValueType → List ValueType → Prop}
    (hy : Decides w y S) :
    Decides w (Check.requireTable ctx >>= fun _ => y) fun ts ts' =>
      (∃ t, ctx.tables[0]? = some t) ∧ S ts ts' := by
  refine guarded ?_ ?_ hy
  · intro ht r
    rw [Check.requireTable, if_neg (fun h => isEmpty_iff_no_first.mp h ht)]
    rfl
  · intro ht r
    rw [Check.requireTable, if_pos (isEmpty_iff_no_first.mpr ht)]
    exact ⟨_, rfl⟩

/-- The largest alignment allowed is the one of the bytes touched. -/
theorem withAlign {arg : MemArg} {bytes : Nat} (hbytes : bytes ≠ 0) {y : Check Unit}
    {S : List ValueType → List ValueType → Prop} (hy : Decides w y S) :
    Decides w (Check.requireAlign arg bytes >>= fun _ => y) fun ts ts' =>
      2 ^ arg.align.toNat ≤ bytes ∧ S ts ts' := by
  have hlog : naturalAlign bytes < arg.align.toNat ↔ ¬2 ^ arg.align.toNat ≤ bytes := by
    rw [naturalAlign, ← Nat.le_log2 hbytes, Nat.not_le]
  refine guarded ?_ ?_ hy
  · intro hle r
    rw [Check.requireAlign, if_neg (fun h => hlog.mp h hle)]
    rfl
  · intro hle r
    rw [Check.requireAlign, if_pos (hlog.mpr hle)]
    exact ⟨_, rfl⟩

/-- A check behind a look-up has what was found in its rule. -/
theorem withLocal {f : ValueType → Check Unit} {i : UInt32}
    {T : ValueType → List ValueType → List ValueType → Prop} (hf : ∀ t, Decides w (f t) (T t)) :
    Decides w (Check.localAt ctx i >>= f) fun ts ts' =>
      ∃ t, ctx.locals[i.toNat]? = some t ∧ T t ts ts' := by
  refine lookUp (e := .unknownLocal i) ?_ (fun t _ => hf t)
  intro r
  rw [Check.localAt]
  cases ctx.locals[i.toNat]? <;> rfl

theorem withGlobal {f : GlobalType → Check Unit} {i : UInt32}
    {T : GlobalType → List ValueType → List ValueType → Prop} (hf : ∀ g, Decides w (f g) (T g)) :
    Decides w (Check.globalAt ctx i >>= f) fun ts ts' =>
      ∃ g, ctx.globals[i.toNat]? = some g ∧ T g ts ts' := by
  refine lookUp (e := .unknownGlobal i) ?_ (fun g _ => hf g)
  intro r
  rw [Check.globalAt]
  cases ctx.globals[i.toNat]? <;> rfl

theorem withFunc {f : FuncType → Check Unit} {i : UInt32}
    {T : FuncType → List ValueType → List ValueType → Prop} (hf : ∀ t, Decides w (f t) (T t)) :
    Decides w (Check.funcAt ctx i >>= f) fun ts ts' =>
      ∃ t, ctx.funcs[i.toNat]? = some t ∧ T t ts ts' := by
  refine lookUp (e := .unknownFunc i) ?_ (fun t _ => hf t)
  intro r
  rw [Check.funcAt]
  cases ctx.funcs[i.toNat]? <;> rfl

theorem withType {f : FuncType → Check Unit} {i : UInt32}
    {T : FuncType → List ValueType → List ValueType → Prop} (hf : ∀ t, Decides w (f t) (T t)) :
    Decides w (Check.typeAt ctx i >>= f) fun ts ts' =>
      ∃ t, ctx.types[i.toNat]? = some t ∧ T t ts ts' := by
  refine lookUp (e := .unknownType i) ?_ (fun t _ => hf t)
  intro r
  rw [Check.typeAt]
  cases ctx.types[i.toNat]? <;> rfl

theorem get_state (w : Setting) (r : Residue) :
    (get : Check Checker) (w.state r) = .ok (w.state r) (w.state r) :=
  rfl

theorem frames_state (w : Setting) (r : Residue) :
    (w.state r).frames = w.frame r.dead :: w.outer :=
  rfl

/-- Labels are looked up in the setting, from the innermost out. -/
theorem withLabel {f : List ValueType → Check Unit} {label : UInt32}
    {T : List ValueType → List ValueType → List ValueType → Prop}
    (hf : ∀ ts, Decides w (f ts) (T ts)) :
    Decides w (Check.labelTypes label >>= f) fun ts ts' =>
      ∃ carried, w.labels[label.toNat]? = some carried ∧ T carried ts ts' := by
  refine lookUp (e := .unknownLabel label) ?_ (fun ts _ => hf ts)
  intro r
  have hlabels : w.labels[label.toNat]? =
      (w.frame r.dead :: w.outer)[label.toNat]?.map ControlFrame.labelTypes := by
    rw [← List.getElem?_map]
    rfl
  rw [hlabels, Check.labelTypes, bind_of_ok (get_state w r), frames_state]
  cases (w.frame r.dead :: w.outer)[label.toNat]? <;> rfl

/-- Only a mutable global may be set. -/
theorem assignable (g : GlobalType) (i : UInt32) :
    Decides w (if g.mutable then Check.popType g.type else throw (.immutableGlobal i))
      fun ts ts' => g.mutable = true ∧ ts = ts' ++ [g.type] := by
  cases hmutable : g.mutable with
  | true =>
      rw [if_pos rfl]
      exact (popType g.type).congr (by simp)
  | false =>
      rw [if_neg (by simp)]
      exact refused (by simp)

/-- One target of a `br_table` takes and gives what it carries. -/
theorem sameLength (carried default : List ValueType) :
    Decides w
      (if carried.length = default.length then Check.apply carried carried
        else throw .typeMismatch)
      fun ts ts' => carried.length = default.length ∧
        Widened (fun a b => a = carried ∧ b = carried) ts ts' := by
  by_cases hlength : carried.length = default.length
  · rw [if_pos hlength]
    exact (apply carried carried).congr (by simp [hlength])
  · rw [if_neg hlength]
    exact refused (by simp [hlength])

theorem bytes_load_ne_zero (op : LoadOp) : op.bytes ≠ 0 := by
  cases op with
  | full t => cases t <;> decide
  | _ => simp [LoadOp.bytes]

theorem bytes_store_ne_zero (op : StoreOp) : op.bytes ≠ 0 := by
  cases op with
  | full t => cases t <;> decide
  | _ => simp [StoreOp.bytes]

/-- The check of a plain instruction decides its typing rule. -/
theorem plain (op : Plain) : Decides w (Check.plain ctx op) (Widened (op.HasType ctx)) := by
  cases op with
  | drop =>
      refine drop.congr ?_
      intro ts ts'
      constructor
      · rintro ⟨t, rfl⟩
        exact ⟨ts', [t], [], rfl, by simp, .drop t⟩
      · rintro ⟨under, _, _, rfl, rfl, h⟩
        cases h with
        | drop t => exact ⟨t, by simp⟩
  | select =>
      refine ((popType .i32).bind selectValues).congr ?_
      intro ts ts'
      constructor
      · rintro ⟨_, rfl, under, t, rfl, rfl⟩
        exact ⟨under, [t, t, .i32], [t], by simp, rfl, .select t⟩
      · rintro ⟨under, _, _, rfl, rfl, h⟩
        cases h with
        | select t => exact ⟨under ++ [t] ++ [t], by simp, under, t, rfl, rfl⟩
  | localGet i =>
      refine (withLocal ctx fun t => pushTypes [t]).congr ?_
      intro ts ts'
      constructor
      · rintro ⟨t, ht, rfl⟩
        exact ⟨ts, [], [t], by simp, rfl, .localGet ht⟩
      · rintro ⟨under, _, _, rfl, rfl, h⟩
        cases h with
        | localGet ht => exact ⟨_, ht, by simp⟩
  | localSet i =>
      refine (withLocal ctx fun t => popType t).congr ?_
      intro ts ts'
      constructor
      · rintro ⟨t, ht, rfl⟩
        exact ⟨ts', [t], [], rfl, by simp, .localSet ht⟩
      · rintro ⟨under, _, _, rfl, rfl, h⟩
        cases h with
        | localSet ht => exact ⟨_, ht, by simp⟩
  | localTee i =>
      refine (withLocal ctx fun t => apply [t] [t]).congr ?_
      intro ts ts'
      constructor
      · rintro ⟨t, ht, under, _, _, rfl, rfl, rfl, rfl⟩
        exact .intro under (.localTee ht)
      · rintro ⟨under, _, _, rfl, rfl, h⟩
        cases h with
        | localTee ht => exact ⟨_, ht, .intro under ⟨rfl, rfl⟩⟩
  | globalGet i =>
      refine (withGlobal ctx fun g => pushTypes [g.type]).congr ?_
      intro ts ts'
      constructor
      · rintro ⟨g, hg, rfl⟩
        exact ⟨ts, [], [g.type], by simp, rfl, .globalGet hg⟩
      · rintro ⟨under, _, _, rfl, rfl, h⟩
        cases h with
        | globalGet hg => exact ⟨_, hg, by simp⟩
  | globalSet i =>
      refine (withGlobal ctx fun g => assignable g i).congr ?_
      intro ts ts'
      constructor
      · rintro ⟨g, hg, hmutable, rfl⟩
        exact ⟨ts', [g.type], [], rfl, by simp, .globalSet hg hmutable⟩
      · rintro ⟨under, _, _, rfl, rfl, h⟩
        cases h with
        | globalSet hg hmutable => exact ⟨_, hg, hmutable, by simp⟩
  | load op arg =>
      refine (withMemory ctx (withAlign (bytes_load_ne_zero op) (apply [.i32] [op.type]))).congr ?_
      intro ts ts'
      constructor
      · rintro ⟨⟨m, hm⟩, halign, under, _, _, rfl, rfl, rfl, rfl⟩
        exact .intro under (.load hm halign)
      · rintro ⟨under, _, _, rfl, rfl, h⟩
        cases h with
        | load hm halign => exact ⟨⟨_, hm⟩, halign, .intro under ⟨rfl, rfl⟩⟩
  | store op arg =>
      refine (withMemory ctx
        (withAlign (bytes_store_ne_zero op) (apply [.i32, op.type] []))).congr ?_
      intro ts ts'
      constructor
      · rintro ⟨⟨m, hm⟩, halign, under, _, _, rfl, rfl, rfl, rfl⟩
        exact .intro under (.store hm halign)
      · rintro ⟨under, _, _, rfl, rfl, h⟩
        cases h with
        | store hm halign => exact ⟨⟨_, hm⟩, halign, .intro under ⟨rfl, rfl⟩⟩
  | memorySize =>
      refine (withMemory ctx (pushTypes [.i32])).congr ?_
      intro ts ts'
      constructor
      · rintro ⟨⟨m, hm⟩, rfl⟩
        exact ⟨ts, [], [.i32], by simp, rfl, .memorySize hm⟩
      · rintro ⟨under, _, _, rfl, rfl, h⟩
        cases h with
        | memorySize hm => exact ⟨⟨_, hm⟩, by simp⟩
  | memoryGrow =>
      refine (withMemory ctx (apply [.i32] [.i32])).congr ?_
      intro ts ts'
      constructor
      · rintro ⟨⟨m, hm⟩, under, _, _, rfl, rfl, rfl, rfl⟩
        exact .intro under (.memoryGrow hm)
      · rintro ⟨under, _, _, rfl, rfl, h⟩
        cases h with
        | memoryGrow hm => exact ⟨⟨_, hm⟩, .intro under ⟨rfl, rfl⟩⟩
  | const v =>
      refine (pushTypes [v.type]).congr ?_
      intro ts ts'
      constructor
      · rintro rfl
        exact ⟨ts, [], [v.type], by simp, rfl, .const v⟩
      · rintro ⟨under, _, _, rfl, rfl, h⟩
        cases h with
        | const v => simp
  | numeric op =>
      refine (apply op.operands [op.result]).congr (widened_congr ?_)
      intro taken given
      rw [← Numeric.hasType_iff]
      constructor
      · exact .numeric
      · intro h
        cases h with
        | numeric h => exact h

/-! ## Branches

A branch that is always taken leaves the rest of its construct dead, and then any types will do for
what follows.
-/

/-- The targets of a `br_table` leave the stack as it is, and each carries what lies on top. -/
theorem tableTargets (default : List ValueType) (targets : List UInt32) :
    Decides w (targets.forM (Check.tableTarget default)) fun ts ts' =>
      ts = ts' ∧ ∀ target ∈ targets, ∃ carried, w.labels[target.toNat]? = some carried ∧
        carried.length = default.length ∧ ∃ under, ts = under ++ carried := by
  induction targets with
  | nil =>
      refine nothing.congr ?_
      intro ts ts'
      simp
  | cons target targets ih =>
      -- each target takes the operands and puts them back, so all are checked against the same
      -- stack
      have htarget : Decides w (Check.tableTarget default target) fun ts ts' =>
          ∃ carried, w.labels[target.toNat]? = some carried ∧
            carried.length = default.length ∧
              Widened (fun a b => a = carried ∧ b = carried) ts ts' :=
        withLabel fun carried => sameLength carried default
      refine (htarget.bind ih).congr ?_
      intro ts ts'
      constructor
      · rintro ⟨_, ⟨carried, hlabel, hlength, under, _, _, rfl, rfl, rfl, rfl⟩, rfl, hrest⟩
        refine ⟨rfl, ?_⟩
        intro t ht
        rcases List.mem_cons.mp ht with rfl | ht
        · exact ⟨_, hlabel, hlength, under, rfl⟩
        · exact hrest t ht
      · rintro ⟨rfl, hall⟩
        obtain ⟨carried, hlabel, hlength, under, rfl⟩ := hall target List.mem_cons_self
        refine ⟨_, ⟨carried, hlabel, hlength, .intro under ⟨rfl, rfl⟩⟩, rfl, ?_⟩
        intro t ht
        exact hall t (List.mem_cons_of_mem target ht)

/-- A check may be replaced by one that does the same in the setting. -/
theorem ofEq {x y : Check Unit} {S : List ValueType → List ValueType → Prop}
    (heq : ∀ r, x (w.state r) = y (w.state r)) (hy : Decides w y S) : Decides w x S where
  sound := by
    intro r c h
    rw [heq] at h
    exact hy.sound h
  complete := by
    intro r ts ts' hts hS
    rw [heq]
    exact hy.complete hts hS

/-- The outermost frame is the one of the function. -/
theorem outermost_labelTypes (w : Setting) (dead : Bool) :
    ∃ frame, (w.frame dead :: w.outer).getLast? = some frame ∧ frame.labelTypes = w.returns := by
  have hne : w.frame dead :: w.outer ≠ [] := by simp
  refine ⟨(w.frame dead :: w.outer).getLast hne, List.getLast?_eq_some_getLast hne, ?_⟩
  have hlabels : w.labels = (w.frame dead :: w.outer).map ControlFrame.labelTypes := rfl
  rw [Setting.returns, hlabels, List.getLastD_eq_getLast?, List.getLast?_map,
    List.getLast?_eq_some_getLast hne]
  rfl

/-- A return is decided by the results of the function, and anything may follow it. -/
theorem returning : Decides w (Check.instruction ctx .ret) fun ts _ =>
    ∃ under, ts = under ++ w.returns := by
  refine ofEq ?_ (((popTypes w.returns).bind markUnreachable).congr (by simp))
  intro r
  obtain ⟨frame, hframe, htypes⟩ := outermost_labelTypes w r.dead
  rw [Check.instruction, bind_of_ok (get_state w r), frames_state, hframe, ← htypes]

/-! ## Constructs

Bodies are decided in a setting of their own, with nothing on the stack and one more label.
-/

/-- A frame that closes has its results on top and nothing else of its own below them. -/
theorem popFrame_sound {r : Residue} {ts : List ValueType} {c : Checker}
    (h : Check.popFrame (w.state r) = .ok ts c) :
    ts = w.results ∧ c = ⟨.ofList w.below, w.outer⟩ ∧ r.Admits w.results := by
  change (Check.popTypes w.results >>= fun _ => (modify fun c => { c with frames := w.outer }) >>=
    fun _ => get >>= fun c : Checker => if c.operands.size = w.below.length then pure w.results
      else throw .typeMismatch : Check (List ValueType)) (w.state r) = .ok ts c at h
  obtain ⟨_, c', hpop, h⟩ := bind_eq_ok_iff.mp h
  obtain ⟨r', rfl, hback⟩ := (popTypes w.results).sound hpop
  change (if (r'.operands ++ w.below).length = w.below.length then pure w.results
    else throw .typeMismatch : Check (List ValueType))
      ⟨.ofList (r'.operands ++ w.below), w.outer⟩ = .ok ts c at h
  -- the check of the height is what rules out operands that are left over
  split at h
  · next hlength =>
      cases h
      have hnil : r'.operands = [] := by
        rw [List.length_append] at hlength
        exact List.length_eq_zero_iff.mp (by omega)
      obtain ⟨ts, hts, rfl⟩ := hback [] (by
        rw [Residue.Admits, hnil]
        exact Or.inr rfl)
      exact ⟨rfl, by rw [hnil]; rfl, hts⟩
  · cases h

/-- A frame with its results and nothing else on it closes. -/
theorem popFrame_complete {r : Residue} (h : r.Admits w.results) :
    Check.popFrame (w.state r) = .ok w.results ⟨.ofList w.below, w.outer⟩ := by
  show (Check.popTypes w.results >>= fun _ => (modify fun c => { c with frames := w.outer }) >>=
    fun _ => get >>= fun c : Checker => if c.operands.size = w.below.length then pure w.results
      else throw .typeMismatch : Check (List ValueType)) (w.state r) = _
  obtain ⟨r', hpop, hnil⟩ : ∃ r' : Residue,
      Check.popTypes w.results (w.state r) = .ok () (w.state r') ∧ r'.Admits [] :=
    (popTypes w.results).complete h rfl
  rw [bind_of_ok hpop]
  have hoperands : r'.operands = [] := by
    cases hr : r'.operands with
    | nil => rfl
    | cons o os =>
        rw [Residue.Admits, hr] at hnil
        exact hnil.elim
  show (if (r'.operands ++ w.below).length = w.below.length then pure w.results
    else throw .typeMismatch : Check (List ValueType))
      ⟨.ofList (r'.operands ++ w.below), w.outer⟩ = _
  rw [hoperands, if_pos (by simp)]
  rfl

/-- A construct whose body is decided by `S` leaves what was there before, and goes on with its
results if these are what the body makes of an empty stack. -/
theorem construct {kind : Construct} {results : List ValueType} {x : Check Unit}
    {f : List ValueType → Check Unit} {S T : List ValueType → List ValueType → Prop}
    (hx : ∀ r, Decides (w.inside r kind results) x S) (hf : Decides w (f results) T) :
    Decides w
      (Check.pushFrame kind results >>= fun _ => x >>= fun _ => Check.popFrame >>= f)
      fun ts ts' => S [] results ∧ T ts ts' where
  sound := by
    intro r c h
    change (x >>= fun _ => Check.popFrame >>= f) ((w.inside r kind results).state .start) = _ at h
    obtain ⟨_, c₁, hx₁, h⟩ := bind_eq_ok_iff.mp h
    obtain ⟨ts₂, c₂, hpop, h⟩ := bind_eq_ok_iff.mp h
    obtain ⟨r₁, rfl, hback₁⟩ := (hx r).sound hx₁
    obtain ⟨hts₂, rfl, hresults⟩ := popFrame_sound hpop
    change ts₂ = results at hts₂
    subst hts₂
    -- a body starts on an empty stack of its own, so its rule is applied to no operands
    obtain ⟨ts, hts, hS⟩ := hback₁ _ hresults
    rw [Residue.start_admits_iff.mp hts] at hS
    obtain ⟨r', rfl, hback⟩ := hf.sound (r := r) h
    refine ⟨r', rfl, ?_⟩
    intro ts' hts'
    obtain ⟨ts, hts, hT⟩ := hback ts' hts'
    exact ⟨ts, hts, hS, hT⟩
  complete := by
    rintro r ts ts' hts ⟨hS, hT⟩
    obtain ⟨r₁, hx₁, hresults⟩ := (hx r).complete (Residue.start_admits_iff.mpr rfl) hS
    obtain ⟨r', hf', hts'⟩ := hf.complete hts hT
    refine ⟨r', ?_, hts'⟩
    show (x >>= fun _ => Check.popFrame >>= f) ((w.inside r kind results).state .start) = _
    rw [bind_of_ok hx₁, bind_of_ok (popFrame_complete hresults)]
    exact hf'

/-- Code inside a construct, where the construct has a label of its own. -/
theorem inside {kind : Construct} {results : List ValueType} {x : Check Unit}
    {is : List Instruction}
    (hx : ∀ w, Decides w x (Expr.HasType ctx w.returns w.labels is)) (r : Residue) :
    Decides (w.inside r kind results) x
      (Expr.HasType ctx w.returns ((if kind = .loop then [] else results) :: w.labels) is) := by
  have h := hx (w.inside r kind results)
  rwa [Setting.returns_inside, Setting.labels_inside] at h

/-! ## Instructions and sequences

By recursion on the tree. Sequencing relations of types is sequencing checks.
-/

mutual

/-- The check of an instruction decides its typing rule. -/
theorem instruction (i : Instruction) (w : Setting) :
    Decides w (Check.instruction ctx i)
      (Widened (Instruction.HasType ctx w.returns w.labels i)) := by
  cases i with
  | unreachable =>
      refine markUnreachable.congr ?_
      intro ts ts'
      exact ⟨fun _ => .intro [] (.unreachable ts ts'), fun _ => trivial⟩
  | nop =>
      refine nothing.congr ?_
      intro ts ts'
      constructor
      · rintro rfl
        exact ⟨ts, [], [], by simp, by simp, .nop⟩
      · rintro ⟨under, _, _, rfl, rfl, h⟩
        cases h with
        | nop => rfl
  | block type body =>
      rw [Check.instruction]
      have hbody : ∀ r, Decides (w.inside r .block type.results) (Check.sequence ctx body)
          (Expr.HasType ctx w.returns (type.results :: w.labels) body) :=
        inside ctx (sequence body)
      refine (construct hbody (pushTypes type.results)).congr ?_
      intro ts ts'
      constructor
      · rintro ⟨h, rfl⟩
        exact ⟨ts, [], _, by simp, rfl, .block h⟩
      · rintro ⟨under, _, _, rfl, rfl, h⟩
        cases h with
        | block h => exact ⟨h, by simp⟩
  | loop type body =>
      rw [Check.instruction]
      have hbody : ∀ r, Decides (w.inside r .loop type.results) (Check.sequence ctx body)
          (Expr.HasType ctx w.returns ([] :: w.labels) body) :=
        inside ctx (sequence body)
      refine (construct hbody (pushTypes type.results)).congr ?_
      intro ts ts'
      constructor
      · rintro ⟨h, rfl⟩
        exact ⟨ts, [], _, by simp, rfl, .loop h⟩
      · rintro ⟨under, _, _, rfl, rfl, h⟩
        cases h with
        | loop h => exact ⟨h, by simp⟩
  | ifElse type thenBody elseBody =>
      rw [Check.instruction]
      have hthen : ∀ r, Decides (w.inside r .ifElse type.results) (Check.sequence ctx thenBody)
          (Expr.HasType ctx w.returns (type.results :: w.labels) thenBody) :=
        inside ctx (sequence thenBody)
      have helse : ∀ r, Decides (w.inside r .ifElse type.results) (Check.sequence ctx elseBody)
          (Expr.HasType ctx w.returns (type.results :: w.labels) elseBody) :=
        inside ctx (sequence elseBody)
      refine ((popType .i32).bind
        (construct hthen (construct helse (pushTypes type.results)))).congr ?_
      intro ts ts'
      constructor
      · rintro ⟨under, rfl, hthen, helse, rfl⟩
        exact .intro under (.ifElse hthen helse)
      · rintro ⟨under, _, _, rfl, rfl, h⟩
        cases h with
        | ifElse hthen helse => exact ⟨under, rfl, hthen, helse, rfl⟩
  | br label =>
      rw [Check.instruction]
      refine (withLabel fun carried => (popTypes carried).bind markUnreachable).congr ?_
      intro ts ts'
      constructor
      · rintro ⟨carried, hlabel, under, rfl, _⟩
        exact .intro [] (.br under ts' hlabel)
      · rintro ⟨under, _, _, rfl, rfl, h⟩
        cases h with
        | br under' given hlabel => exact ⟨_, hlabel, under ++ under', by simp, trivial⟩
  | brIf label =>
      rw [Check.instruction]
      refine ((popType .i32).bind (withLabel fun carried => apply carried carried)).congr ?_
      intro ts ts'
      constructor
      · rintro ⟨_, rfl, carried, hlabel, under, _, _, rfl, rfl, rfl, rfl⟩
        exact ⟨under, _, _, List.append_assoc .., rfl, .brIf hlabel⟩
      · rintro ⟨under, _, _, rfl, rfl, h⟩
        cases h with
        | brIf hlabel =>
            exact ⟨_, (List.append_assoc ..).symm, _, hlabel, .intro under ⟨rfl, rfl⟩⟩
  | brTable targets default =>
      rw [Check.instruction]
      refine ((popType .i32).bind (withLabel fun carried =>
        (tableTargets carried targets).bind ((popTypes carried).bind markUnreachable))).congr ?_
      intro ts ts'
      constructor
      · rintro ⟨_, rfl, carried, hdefault, _, ⟨rfl, htargets⟩, under, rfl, _⟩
        refine .intro [] (.brTable under ts' ?_ hdefault)
        intro target htarget
        -- the checker compares lengths only, but both lie on top of one stack
        obtain ⟨carried', hlabel, hlength, under', heq⟩ := htargets target htarget
        rw [hlabel, (List.append_inj' heq hlength.symm).2]
      · rintro ⟨under, _, _, rfl, rfl, h⟩
        cases h with
        | brTable under' given htargets hdefault =>
            refine ⟨under ++ under' ++ _, by simp, _, hdefault, _, ⟨rfl, ?_⟩, under ++ under', rfl,
              trivial⟩
            intro target htarget
            exact ⟨_, htargets target htarget, rfl, _, rfl⟩
  | ret =>
      refine (returning ctx).congr ?_
      intro ts ts'
      constructor
      · rintro ⟨under, rfl⟩
        exact .intro [] (.ret under ts')
      · rintro ⟨under, _, _, rfl, rfl, h⟩
        cases h with
        | ret under' given => exact ⟨under ++ under', by simp⟩
  | call i =>
      rw [Check.instruction]
      refine (withFunc ctx fun f => apply f.params f.results).congr ?_
      intro ts ts'
      constructor
      · rintro ⟨f, hf, under, _, _, rfl, rfl, rfl, rfl⟩
        exact .intro under (.call hf)
      · rintro ⟨under, _, _, rfl, rfl, h⟩
        cases h with
        | call hf => exact ⟨_, hf, .intro under ⟨rfl, rfl⟩⟩
  | callIndirect i =>
      rw [Check.instruction]
      refine (withTable ctx (withType ctx fun f =>
        (popType .i32).bind (apply f.params f.results))).congr ?_
      intro ts ts'
      constructor
      · rintro ⟨⟨table, htable⟩, f, hf, _, rfl, under, _, _, rfl, rfl, rfl, rfl⟩
        exact ⟨under, _, _, List.append_assoc .., rfl, .callIndirect htable hf⟩
      · rintro ⟨under, _, _, rfl, rfl, h⟩
        cases h with
        | callIndirect htable hf =>
            exact ⟨⟨_, htable⟩, _, hf, _, (List.append_assoc ..).symm, .intro under ⟨rfl, rfl⟩⟩
  | plain op =>
      rw [Check.instruction]
      refine (plain ctx op).congr (widened_congr ?_)
      intro taken given
      constructor
      · exact .plain
      · intro h
        cases h with
        | plain h => exact h

/-- The check of a sequence decides its typing rule. -/
theorem sequence (is : List Instruction) (w : Setting) :
    Decides w (Check.sequence ctx is) (Expr.HasType ctx w.returns w.labels is) := by
  cases is with
  | nil =>
      refine nothing.congr ?_
      intro ts ts'
      -- the rule of the head applies under part of the stack, which `under` names
      constructor
      · rintro rfl
        exact .nil ts
      · intro h
        cases h with
        | nil => rfl
  | cons i is =>
      rw [Check.sequence]
      refine ((instruction i w).bind (sequence is w)).congr ?_
      intro ts ts'
      constructor
      · rintro ⟨_, ⟨under, _, _, rfl, rfl, hi⟩, his⟩
        exact .cons under hi his
      · intro h
        cases h with
        | cons under hi his => exact ⟨_, .intro under hi, his⟩

end

end Decides

/-! ## Bodies

A function is one construct around its body, which is how checking starts and ends.
-/

/-- Where the check of a body starts: in the frame of the function. -/
def Setting.function (results : List ValueType) : Setting :=
  ⟨.func, results, [], []⟩

namespace Context

variable (ctx : Context) (type : FuncType) (locals : List ValueType) (code : Expr)

/-- Checking a body is checking its code inside one frame, that of the function. -/
theorem checkBody_eq :
    ctx.checkBody type locals code =
      match (Check.sequence (ctx.forBody type locals) code >>= fun _ => Check.popFrame)
        ((Setting.function type.results).state .start) with
      | .ok _ _ => .ok ()
      | .error e _ => .error e := by
  have hbody : Check.body { ctx with locals := (type.params ++ locals).toArray } type.results code
        ⟨.empty, []⟩ =
      (Check.sequence (ctx.forBody type locals) code >>= fun _ =>
        Check.popFrame >>= fun _ => pure ())
        ((Setting.function type.results).state .start) := rfl
  unfold checkBody
  dsimp only
  rw [hbody]
  cases hseq : Check.sequence (ctx.forBody type locals) code
      ((Setting.function type.results).state .start) with
  | error e c => rw [bind_of_error hseq, bind_of_error hseq]
  | ok a c =>
      rw [bind_of_ok hseq, bind_of_ok hseq]
      cases hpop : Check.popFrame c with
      | ok ts c' => rw [bind_of_ok hpop]; rfl
      | error e c' => rw [bind_of_error hpop]

/-- An accepted body has a type. -/
theorem bodyHasType_of_checkBody (h : ctx.checkBody type locals code = .ok ()) :
    ctx.BodyHasType type locals code := by
  rw [checkBody_eq] at h
  split at h
  · next ts c hrun =>
      obtain ⟨_, c', hseq, hpop⟩ := bind_eq_ok_iff.mp hrun
      obtain ⟨r, rfl, hback⟩ := (Decides.sequence _ code (.function type.results)).sound hseq
      obtain ⟨_, _, hresults⟩ := Decides.popFrame_sound hpop
      obtain ⟨start, hstart, htype⟩ := hback type.results hresults
      rwa [Residue.start_admits_iff.mp hstart] at htype
  · cases h

/-- A body that has a type is accepted. -/
theorem checkBody_of_bodyHasType (h : ctx.BodyHasType type locals code) :
    ctx.checkBody type locals code = .ok () := by
  obtain ⟨r, hseq, hresults⟩ :=
    (Decides.sequence _ code (.function type.results)).complete
      (Residue.start_admits_iff.mpr rfl) h
  rw [checkBody_eq, bind_of_ok hseq, Decides.popFrame_complete hresults]

/-- The checker accepts a body if and only if the body has a type. -/
theorem checkBody_eq_ok_iff :
    ctx.checkBody type locals code = .ok () ↔ ctx.BodyHasType type locals code :=
  ⟨bodyHasType_of_checkBody ctx type locals code, checkBody_of_bodyHasType ctx type locals code⟩

end Context

end WebAssembly
