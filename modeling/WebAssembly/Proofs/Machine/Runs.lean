import WebAssembly.Proofs.Machine.Operations
import WebAssembly.Proofs.Machine.Steady

/-!
# Runs

A run ends with a result within its bound or gives `none`. More fuel never changes a result that is
there. `Leads` says that executing `k` ops from some activations gives the same as going on from
what is reached then; it is how runs of flat code are put together from pieces. `Visits` gives the
activations and machines that a call goes through, for what holds all the way.
-/

namespace WebAssembly

variable {α β : Type}

/-! ## One run after another

A run has a result, has failed, or has run out of fuel. In a sequence the first part decides unless
it has a result.
-/

namespace Run

/-- A sequence that runs out of fuel in its first part has run out of fuel. -/
theorem bind_of_none {x : Run α} {f : α → Run β} {m : Machine} (h : x m = none) :
    (x >>= f) m = none := by
  show Run.bind x f m = none
  rw [Run.bind, h]

theorem bind_of_ok {x : Run α} {f : α → Run β} {m m' : Machine} {a : α}
    (h : x m = some (.ok a m')) : (x >>= f) m = f a m' := by
  show Run.bind x f m = f a m'
  rw [Run.bind, h]

theorem bind_of_error {x : Run α} {f : α → Run β} {m m' : Machine} {e : RuntimeError}
    (h : x m = some (.error e m')) : (x >>= f) m = some (.error e m') := by
  show Run.bind x f m = some (.error e m')
  rw [Run.bind, h]

theorem lift_of_ok {x : Exec α} {f : α → Run β} {m m' : Machine} {a : α} (h : x m = .ok a m') :
    ((liftM x : Run α) >>= f) m = f a m' :=
  bind_of_ok (congrArg some h)

theorem lift_of_error {x : Exec α} {f : α → Run β} {m m' : Machine} {e : RuntimeError}
    (h : x m = .error e m') : ((liftM x : Run α) >>= f) m = some (.error e m') :=
  bind_of_error (congrArg some h)

/-- Two runs after each other end iff both end. -/
theorem bind_eq_some_iff {x : Run α} {f : α → Run β} {m : Machine}
    {r : EStateM.Result RuntimeError Machine β} :
    (x >>= f) m = some r ↔
      (∃ e m', x m = some (.error e m') ∧ r = .error e m') ∨
        ∃ a m', x m = some (.ok a m') ∧ f a m' = some r := by
  -- the three ways in which the first part ends
  cases h : x m with
  | none =>
      rw [bind_of_none h]
      simp
  | some r' =>
      cases r' with
      | ok a m' =>
          rw [bind_of_ok h]
          constructor
          · exact fun hf => Or.inr ⟨a, m', rfl, hf⟩
          · rintro (⟨_, _, heq, _⟩ | ⟨_, _, heq, hf⟩)
            · cases heq
            · cases heq
              exact hf
      | error e m' =>
          rw [bind_of_error h]
          constructor
          · intro hr
            cases hr
            exact Or.inl ⟨e, m', rfl, rfl⟩
          · rintro (⟨_, _, heq, rfl⟩ | ⟨_, _, heq, _⟩)
            · cases heq
              rfl
            · cases heq

/-! ## What runs leave alone

Steadiness of single operations carried over to runs of any length.
-/

/-- A run keeps every store, however it ends. -/
def Steady (x : Run α) : Prop :=
  ∀ (m : Machine) (r : EStateM.Result RuntimeError Machine α), x m = some r →
    m.store.Keeps (final r).store

/-- Steadiness of a sequence is that of its parts. -/
theorem Steady.bind {x : Run α} {f : α → Run β} (hx : Steady x) (hf : ∀ a, Steady (f a)) :
    Steady (x >>= f) := by
  intro m r h
  rcases bind_eq_some_iff.mp h with ⟨e, m', hxm, rfl⟩ | ⟨a, m', hxm, hfa⟩
  · exact hx m _ hxm
  · exact (hx m _ hxm).trans (hf a m' r hfa)

theorem Steady.lift {x : Exec α} (hx : x.Steady) : Steady (liftM x : Run α) := by
  intro m r h
  cases h
  exact hx m

theorem Steady.pure (a : α) : Steady (pure a : Run α) := by
  intro m r h
  cases h
  exact .refl m.store

/-- Running on, for whatever fuel, does nothing to the store but what one operation after another
may do. -/
theorem Steady.finish (fuel : Nat) (acts : Stack Activation) : Steady (finish fuel acts) := by
  -- the activations differ from step to step, so the claim is about all of them
  induction fuel generalizing acts with
  | zero =>
      intro m r h
      rw [Run.finish] at h
      split at h
      · cases h
        exact .refl m.store
      · cases h
  | succ fuel ih =>
      intro m r h
      rw [Run.finish] at h
      cases hpop : acts.pop? with
      | none =>
          rw [hpop] at h
          cases h
          exact .refl m.store
      | some top =>
          obtain ⟨act, outer⟩ := top
          have hstep := Exec.Steady.advance act outer m
          rw [hpop] at h
          cases hadvance : Exec.advance act outer m with
          | ok acts' m' =>
              simp only [hadvance] at h hstep
              exact hstep.trans (ih acts' m' r h)
          | error e m' =>
              simp only [hadvance] at h hstep
              cases h
              exact hstep

theorem Steady.call (fuel addr : Nat) : Steady (call fuel addr) := by
  refine (Steady.lift (Exec.Steady.enter addr)).bind fun act => ?_
  cases act with
  | none => exact .pure ()
  | some act => exact .finish fuel _

/-- A call from outside changes the store no more than the code it runs. -/
theorem Steady.invoke (fuel addr : Nat) (args : List Value) : Steady (invoke fuel addr args) :=
  (Steady.lift (.ask _)).bind fun _ => (Steady.lift (.ofExcept _)).bind fun _ =>
    (Steady.lift (.onStack _)).bind fun _ => (Steady.lift (.onStack _)).bind fun _ =>
      (Steady.call fuel addr).bind fun _ => (Steady.lift (.onStack _)).bind fun _ =>
        (Steady.lift (.onStack _)).bind fun _ => .pure _

theorem Steady.isolated {x : Run α} (hx : Steady x) : Steady (isolated x) := by
  rintro ⟨store, stack⟩ r h
  unfold Run.isolated at h
  dsimp only at h
  split at h
  · cases h
  · next a m hrun =>
      cases h
      exact hx ⟨store, .empty⟩ (.ok a m) hrun
  · next e m hrun =>
      cases h
      exact hx ⟨store, .empty⟩ (.error e m) hrun

/-! ## Pieces of a run

A piece costs a number of ops. With that much more fuel the whole does what the rest does from where
the piece has led.
-/

/-- Goes on after an op. -/
def resume (fuel : Nat) :
    EStateM.Result RuntimeError Machine (Stack Activation) → Outcome Unit
  | .ok acts m => finish fuel acts m
  | .error e m => some (.error e m)

theorem finish_zero_push (act : Activation) (outer : Stack Activation) (m : Machine) :
    finish 0 (outer.push act) m = none := by
  show (if outer.size + 1 = 0 then some (.ok () m) else none : Outcome Unit) = none
  rw [if_neg (by omega)]

/-- A unit of fuel pays for one operation of the topmost activation. -/
theorem finish_succ_push (fuel : Nat) (act : Activation) (outer : Stack Activation) (m : Machine) :
    finish (fuel + 1) (outer.push act) m = resume fuel (Exec.advance act outer m) := by
  rw [finish, Stack.pop?_push]
  cases h : Exec.advance act outer m <;> simp only [h, resume]

theorem finish_empty (fuel : Nat) (m : Machine) :
    finish fuel Stack.empty m = some (.ok () m) := by
  cases fuel <;> rfl

/-- A result that is there stays with more fuel. -/
theorem finish_of_le {fuel fuel' : Nat} {acts : Stack Activation} {m : Machine}
    {r : EStateM.Result RuntimeError Machine Unit} (h : finish fuel acts m = some r)
    (hle : fuel ≤ fuel') : finish fuel' acts m = some r := by
  induction fuel generalizing fuel' acts m with
  | zero =>
      rw [finish] at h
      split at h
      · next hsize =>
          -- without fuel only an empty stack of activations has a result
          have hempty : acts = Stack.empty := by
            refine Stack.eq_of_toList_eq (List.length_eq_zero_iff.mp ?_)
            rw [← acts.size_eq, hsize]
          rw [hempty, finish_empty]
          exact h
      · cases h
  | succ fuel ih =>
      obtain ⟨fuel', rfl⟩ : ∃ n, fuel' = n + 1 := ⟨fuel' - 1, by omega⟩
      rw [finish] at h ⊢
      cases hpop : acts.pop? with
      | none => simpa [hpop] using h
      | some top =>
          obtain ⟨act, outer⟩ := top
          cases hadvance : Exec.advance act outer m with
          | ok acts' m' =>
              simp only [hpop, hadvance] at h ⊢
              exact ih h (by omega)
          | error e m' => simpa [hpop, hadvance] using h

/-- Less fuel does not get further. -/
theorem finish_eq_none_of_le {fuel fuel' : Nat} {acts : Stack Activation} {m : Machine}
    (h : finish fuel' acts m = none) (hle : fuel ≤ fuel') : finish fuel acts m = none := by
  cases hr : finish fuel acts m with
  | none => rfl
  | some r =>
      rw [finish_of_le hr hle] at h
      cases h

/-- Executing `k` ops leads from activations and a machine to `r`. -/
def Leads (k : Nat) (acts : Stack Activation) (m : Machine)
    (r : EStateM.Result RuntimeError Machine (Stack Activation)) : Prop :=
  ∀ fuel, finish (fuel + k) acts m = resume fuel r

theorem Leads.refl (acts : Stack Activation) (m : Machine) : Leads 0 acts m (.ok acts m) :=
  fun _ => rfl

theorem Leads.op (act : Activation) (outer : Stack Activation) (m : Machine) :
    Leads 1 (outer.push act) m (Exec.advance act outer m) :=
  fun fuel => finish_succ_push fuel act outer m

/-- Runs are put together by adding what they cost. -/
theorem Leads.trans {k k' : Nat} {acts acts' : Stack Activation} {m m' : Machine}
    {r : EStateM.Result RuntimeError Machine (Stack Activation)}
    (h : Leads k acts m (.ok acts' m')) (h' : Leads k' acts' m' r) : Leads (k' + k) acts m r := by
  intro fuel
  rw [← Nat.add_assoc, h (fuel + k')]
  exact h' fuel

/-- What cannot be finished from somewhere on the way cannot be finished. -/
theorem Leads.finish_eq_none {k fuel : Nat} {acts acts' : Stack Activation} {m m' : Machine}
    (h : Leads k acts m (.ok acts' m')) (hnone : finish fuel acts' m' = none) :
    finish (fuel + k) acts m = none :=
  (h fuel).trans hnone

/-! ## What a call goes through

The configurations of a call, as an inductive predicate. It has no fuel in it, so what is proved
along it holds for every bound.
-/

/-- The activations and the machine that a call starts with and those that each of its ops leaves. A
host function leaves no activation at all. -/
inductive Visits (addr : Nat) (m : Machine) : Stack Activation → Machine → Prop
  | host {m' : Machine} : Exec.enter addr m = .ok none m' → Visits addr m .empty m'
  | start {act : Activation} {m' : Machine} :
      Exec.enter addr m = .ok (some act) m' → Visits addr m (Stack.empty.push act) m'
  | op {act : Activation} {outer acts : Stack Activation} {m' m'' : Machine} :
      Visits addr m (outer.push act) m' → Exec.advance act outer m' = .ok acts m'' →
      Visits addr m acts m''

/-- Each configuration a call passes through has kept the store it started from. -/
theorem Visits.keeps {addr : Nat} {m m' : Machine} {acts : Stack Activation}
    (h : Visits addr m acts m') : m.store.Keeps m'.store := by
  induction h with
  | host henter =>
      have hkeeps := Exec.Steady.enter addr m
      rwa [henter] at hkeeps
  | start henter =>
      have hkeeps := Exec.Steady.enter addr m
      rwa [henter] at hkeeps
  | @op act outer acts m' m'' _ hadvance ih =>
      have hkeeps := Exec.Steady.advance act outer m'
      rw [hadvance] at hkeeps
      exact ih.trans hkeeps

end Run

end WebAssembly
