/-
# `CoLib.Config.FromString` — setting a configuration variable from its text

`ConfigVar::fromString` converts the text and calls `setValue`, which compares, calls
the listeners and assigns.  One handler around both catches whatever is a
`std::exception`, from the conversion or from a listener.

**Proved here.**  `setValue_run`: with nobody else at the variable, a call of
`setValue` is the steps of one thread of `CoLib.Config.Var`.  `fromString_ok` and
`fromString_error` say what is stored and who is told.  The result is `false` in
either case, because the `return true` is missing: it is the result of the
conversion exactly where the conversion fails (`fromString_meets_iff`).
-/
import CoLib.Config.Load
import CoLib.Config.Var

namespace CoLib.ConfigVar

open Lib Config

/-- What is thrown: something that `catch (std::exception&)` catches, or something else. -/
inductive Thrown where
  | stdException
  | other
  deriving DecidableEq

/-- A call of a listener: its key, and its arguments. -/
structure Notice (V : Type) where
  key : Nat
  oldValue : V
  newValue : V
  deriving DecidableEq

/-- What a call leaves behind: the variable, the calls of listeners in their order,
and the value returned or the exception. -/
structure Outcome (V R : Type) where
  var : ConfigVar V
  notices : List (Notice V)
  result : Except Thrown R

/-- What each listener throws when it is called with `(old_value, new_value)`. -/
abbrev Listeners (V : Type) := Nat → V → V → Option Thrown

variable {V : Type}

/-- `i.second(m_val, v)` for the listeners of `keys`. -/
def notifyAll (listeners : Listeners V) (v : V) : List Nat → ConfigVar V → Outcome V Unit
  | [], x => { var := x, notices := [], result := .ok () }
  | key :: keys, x =>
      let notice : Notice V := { key, oldValue := x.val, newValue := v }
      let x := { x with notified := Function.update x.notified key (some (x.val, v)) }
      match listeners key x.val v with
      | some e => { var := x, notices := [notice], result := .error e }
      | none =>
          let r := notifyAll listeners v keys x
          { r with notices := notice :: r.notices }

/-- `setValue(v)`. -/
def setValue [DecidableEq V] (listeners : Listeners V) (x : ConfigVar V) (v : V) :
    Outcome V Unit :=
  if v = x.val then { var := x, notices := [], result := .ok () }
  else
    let r := notifyAll listeners v x.cbs x
    match r.result with
    | .error _ => r
    | .ok () => { r with var := { r.var with val := v } }

/-- `fromString(val)`, with `FromStr()` as a parameter. -/
def fromString [DecidableEq V] (fromStr : Text → Except Thrown V) (listeners : Listeners V)
    (x : ConfigVar V) (val : Text) : Outcome V Bool :=
  let r : Outcome V Unit :=
    match fromStr val with
    | .error e => { var := x, notices := [], result := .error e }
    | .ok v => setValue listeners x v
  match r.result with
  | .error .other => { r with result := .error .other }
  | .error .stdException => { r with result := .ok false }
  | .ok () => { r with result := .ok false }

/-! ## The listeners -/

variable {listeners : Listeners V} {x : ConfigVar V} {v : V}

/-- The last arguments of the listeners, when those of `keys` have been called. -/
def told (old v : V) (keys : List Nat) (notified : Nat → Option (V × V)) : Nat → Option (V × V) :=
  keys.foldl (fun notified key => Function.update notified key (some (old, v))) notified

/-- Listeners that do not throw are called one after the other. -/
theorem notifyAll_quiet {keys : List Nat} (hquiet : ∀ key ∈ keys, listeners key x.val v = none) :
    notifyAll listeners v keys x =
      { var := { x with notified := told x.val v keys x.notified }
        notices := keys.map fun key => { key, oldValue := x.val, newValue := v }
        result := .ok () } := by
  induction keys generalizing x with
  | nil => rfl
  | cons key keys ih =>
      obtain ⟨hhead, hrest⟩ := List.forall_mem_cons.mp hquiet
      have hloop :=
        ih (x := { x with notified := Function.update x.notified key (some (x.val, v)) }) hrest
      simp only [notifyAll, hhead, hloop, List.map_cons]
      rfl

/-- `setValue` of a new value, if no listener throws. -/
theorem setValue_new [DecidableEq V] (hv : v ≠ x.val)
    (hquiet : ∀ key ∈ x.cbs, listeners key x.val v = none) :
    setValue listeners x v =
      { var := { x with val := v, notified := told x.val v x.cbs x.notified }
        notices := x.cbs.map fun key => { key, oldValue := x.val, newValue := v }
        result := .ok () } := by
  simp only [setValue, if_neg hv, notifyAll_quiet hquiet]

/-- `setValue` of the value that is there. -/
theorem setValue_same [DecidableEq V] (hv : v = x.val) :
    setValue listeners x v = { var := x, notices := [], result := .ok () } := by
  simp only [setValue, if_pos hv]

/-! ### One thread -/

namespace Setters

variable {T : Type} [DecidableEq T] {s : Setters V T} {t : T}

@[simp] theorem goto_goto (s : Setters V T) (t : T) (ph ph' : Phase V) :
    (s.goto t ph).goto t ph' = s.goto t ph' := by
  simp only [goto, Function.update_idem]

theorem goto_eq_self {ph : Phase V} (h : s.phase t = ph) : s.goto t ph = s := by
  rw [goto, ← h, Function.update_eq_self]

variable [DecidableEq V]

theorem step_compare (s : Setters V T) (t : T) (v : V) :
    step (s.goto t (.entered v)) (.compare t) =
      if v = s.val then some (s.goto t .outside)
      else some ({ s with readers := s.readers + 1 }.goto t (.notifying v s.cbs)) := by
  simp only [step, goto, Function.update_self, Function.update_idem]

theorem step_unlock (s : Setters V T) (t : T) (v : V) :
    step (s.goto t (.notifying v [])) (.unlock t) =
      some ({ s with readers := s.readers - 1 }.goto t (.released v)) := by
  simp only [step, goto, Function.update_self, Function.update_idem]

theorem step_assign (s : Setters V T) (t : T) (v : V) (hreaders : s.readers = 0) :
    step (s.goto t (.released v)) (.assign t) = some ({ s with val := v }.goto t .outside) := by
  simp only [step, goto, Function.update_self, Function.update_idem, if_pos hreaders]

/-- The steps of a thread that calls the listeners of `keys`. -/
def calls (t : T) (keys : List Nat) : List (SetAct V T) :=
  keys.map fun _ => .notify t false

/-- The steps of a thread that calls `setValue(v)` when the value is `old`. -/
def alone (t : T) (old v : V) (cbs : List Nat) : List (SetAct V T) :=
  .setValue t v :: .compare t ::
    if v = old then [] else calls t cbs ++ [SetAct.unlock t, SetAct.assign t]

/-- The loop, as steps. -/
theorem run_notify (t : T) (s : Setters V T) (rest : List (SetAct V T)) (keys : List Nat) :
    run step (s.goto t (.notifying v keys)) (calls t keys ++ rest) =
      run step
        ({ s with notified := told s.val v keys s.notified }.goto t (.notifying v [])) rest := by
  induction keys generalizing s with
  | nil => rfl
  | cons key keys ih =>
      let s₁ : Setters V T :=
        { s with notified := Function.update s.notified key (some (s.val, v)) }
      have hstep : step (s.goto t (.notifying v (key :: keys))) (.notify t false) =
          some (s₁.goto t (.notifying v keys)) := by
        simp only [step, goto, Function.update_self, Function.update_idem, Bool.false_eq_true,
          if_false, s₁]
      rw [calls, List.map_cons, List.cons_append, run, hstep]
      exact ih s₁

/-- **`setValue` as steps.**  Where no reader is at the variable and no listener throws,
a thread that runs by itself through `setValue` leaves what `setValue` leaves. -/
theorem setValue_run (hphase : s.phase t = .outside) (hreaders : s.readers = 0) (v : V)
    (hquiet : ∀ key ∈ s.cbs, listeners key s.val v = none) :
    run step s (alone t s.val v s.cbs) =
      some { s with toConfigVar := (ConfigVar.setValue listeners s.toConfigVar v).var } := by
  have henter : step s (.setValue t v) = some (s.goto t (.entered v)) := by
    simp only [step, hphase]
  by_cases hv : v = s.val
  · simp only [alone, if_pos hv, run, henter, step_compare, Option.bind_some,
      setValue_same hv, goto_eq_self hphase]
  · let s₁ : Setters V T := { s with readers := s.readers + 1 }
    let s₂ : Setters V T := { s with notified := told s.val v s.cbs s.notified }
    have hunlock : step ({ s₂ with readers := s.readers + 1 }.goto t (.notifying v []))
        (.unlock t) = some (s₂.goto t (.released v)) := step_unlock _ t v
    have hassign := step_assign s₂ t v hreaders
    have hloop : run step (s₁.goto t (.notifying v s.cbs))
        (calls t s.cbs ++ [SetAct.unlock t, SetAct.assign t]) =
          some ({ s₂ with val := v }.goto t .outside) := by
      refine (run_notify t s₁ [.unlock t, .assign t] s.cbs).trans ?_
      refine (congrArg (Option.bind · _) hunlock).trans ?_
      exact congrArg (Option.bind · _) hassign
    simp only [alone, if_neg hv, run, henter, step_compare,
      Option.bind_some, setValue_new hv hquiet]
    exact hloop.trans (congrArg some (goto_eq_self hphase))

end Setters

/-! ## `fromString` -/

section

variable [DecidableEq V] {fromStr : Text → Except Thrown V} {val : Text}

/-- A text that is converted: the call does what `setValue` does, and returns `false`. -/
theorem fromString_ok (hval : fromStr val = .ok v)
    (hquiet : ∀ key ∈ x.cbs, ∀ old new, listeners key old new = none) :
    fromString fromStr listeners x val =
      { setValue listeners x v with result := .ok false } := by
  have hdone : (setValue listeners x v).result = .ok () := by
    by_cases hv : v = x.val
    · rw [setValue_same hv]
    · rw [setValue_new hv fun key hkey => hquiet key hkey _ _]
  simp only [fromString, hval, hdone]

/-- A text that is not converted: nothing happens, and a `std::exception` is caught. -/
theorem fromString_error {e : Thrown} (hval : fromStr val = .error e) :
    fromString fromStr listeners x val =
      { var := x
        notices := []
        result := if e = .stdException then .ok false else .error e } := by
  simp only [fromString, hval]
  cases e <;> rfl

/-- What a call of `fromString(val)` has to do: its result is that of the conversion; it
stores what the text says, and tells every listener once if that is another value; and it
changes nothing and tells nobody if the conversion throws. -/
structure Meets (fromStr : Text → Except Thrown V) (x : ConfigVar V) (val : Text)
    (r : Outcome V Bool) : Prop where
  result : r.result = .ok true ↔ ∃ v, fromStr val = .ok v
  stored : ∀ v, fromStr val = .ok v → r.var.val = v
  notices : ∀ v, fromStr val = .ok v → r.notices =
    if v = x.val then [] else x.cbs.map fun key => { key, oldValue := x.val, newValue := v }
  failed : ∀ e, fromStr val = .error e → r.var.val = x.val ∧ r.notices = []

/-- **The result of `fromString`.**  With listeners that do not throw, the call does what
it has to exactly if the conversion fails. -/
theorem fromString_meets_iff (fromStr : Text → Except Thrown V) (listeners : Listeners V)
    (x : ConfigVar V) (val : Text)
    (hquiet : ∀ key ∈ x.cbs, ∀ old new, listeners key old new = none) :
    Meets fromStr x val (fromString fromStr listeners x val) ↔
      ∃ e, fromStr val = .error e := by
  cases hval : fromStr val with
  | ok v =>
      constructor
      · intro h
        have htrue := h.result.mpr ⟨v, hval⟩
        rw [fromString_ok hval hquiet] at htrue
        cases htrue
      · rintro ⟨e, he⟩
        cases he
  | error e =>
      refine ⟨fun _ => ⟨e, rfl⟩, fun _ => ?_⟩
      rw [fromString_error hval]
      constructor
      · refine ⟨fun htrue => ?_, fun ⟨v, hv⟩ => ?_⟩
        · cases e <;> cases htrue
        · rw [hval] at hv
          cases hv
      · intro v hv
        rw [hval] at hv
        cases hv
      · intro v hv
        rw [hval] at hv
        cases hv
      · exact fun _ _ => ⟨rfl, rfl⟩

/-- What is stored and who is told is right for every text. -/
theorem fromString_stores (fromStr : Text → Except Thrown V) (val : Text)
    (hquiet : ∀ key ∈ x.cbs, ∀ old new, listeners key old new = none) {v : V}
    (hval : fromStr val = .ok v) :
    (fromString fromStr listeners x val).var.val = v ∧
      (fromString fromStr listeners x val).notices =
        if v = x.val then []
        else x.cbs.map fun key => { key, oldValue := x.val, newValue := v } := by
  rw [fromString_ok hval hquiet]
  by_cases hv : v = x.val
  · rw [setValue_same hv, if_pos hv]
    exact ⟨hv.symm, rfl⟩
  · rw [setValue_new hv fun key hkey => hquiet key hkey _ _, if_neg hv]
    exact ⟨rfl, rfl⟩

end

/-- A conversion that knows the text `1`. -/
def one (val : Text) : Except Thrown Nat :=
  if val = ['1'] then .ok 1 else .error .stdException

/-- A variable with the value 0 and a listener. -/
def zero : ConfigVar Nat :=
  { val := 0, cbs := [1], funId := 1, readers := 0, notified := fun _ => none }

theorem fromString_one :
    ¬ Meets one zero ['1'] (fromString one (fun _ _ _ => none) zero ['1']) := by
  intro h
  exact absurd (h.result.mpr ⟨1, by decide⟩) (by decide)

theorem fromString_meets_two :
    Meets one zero ['2'] (fromString one (fun _ _ _ => none) zero ['2']) :=
  (fromString_meets_iff one (fun _ _ _ => none) zero ['2'] fun _ _ _ _ => rfl).mpr
    ⟨.stdException, by decide⟩

end CoLib.ConfigVar
