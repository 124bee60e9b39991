/-
# `CoLib.Lib.Run` — runs of transition systems

A component is a partial step function: `none` means that the step is not
possible (not enabled, or stopped by a fault).  Three views of its runs are
used.

* `runOut` feeds a list of requests to a component that answers each of them;
  `runOut_refines` turns a one-step simulation into one for whole runs.
* `Reach step G s₀` are the states reached from `s₀` by steps whose source
  state and action satisfy the guard `G`; `Reach.invariant` is the induction
  rule, and `run_reach` connects it with executing a list of actions.
* `Path step G s₀` are the same runs with their histories, for what a run says of
  the steps it has taken.

A component whose steps can fail an assertion returns an `Except`; `proceed`
are the steps after which it goes on.
-/
import Mathlib

namespace CoLib.Lib

variable {σ τ α β : Type*}

/-- Answer the requests in order. -/
def runOut (step : σ → α → Option (σ × β)) : σ → List α → Option (σ × List β)
  | s, [] => some (s, [])
  | s, a :: as => do
      let (s', b) ← step s a
      let (s'', bs) ← runOut step s' as
      some (s'', b :: bs)

/-- Answer the requests in order, by a total component. -/
def answers (spec : τ → α → τ × β) : τ → List α → τ × List β
  | t, [] => (t, [])
  | t, a :: as =>
      let (t', bs) := answers spec (spec t a).1 as
      (t', (spec t a).2 :: bs)

/-- If every admissible request keeps a component related to its specification
and gets the specified answer, then so does every sequence of requests. -/
theorem runOut_refines {step : σ → α → Option (σ × β)} {spec : τ → α → τ × β}
    {R : σ → τ → Prop} {P : α → Prop}
    (hstep : ∀ s t a, R s t → P a → ∃ s', step s a = some (s', (spec t a).2) ∧
      R s' (spec t a).1) :
    ∀ (as : List α) (s : σ) (t : τ), R s t → (∀ a ∈ as, P a) →
      ∃ s', runOut step s as = some (s', (answers spec t as).2) ∧ R s' (answers spec t as).1
  | [], s, t, hR, _ => ⟨s, rfl, hR⟩
  | a :: as, s, t, hR, hP => by
      obtain ⟨s₁, hs, hR₁⟩ := hstep s t a hR (hP a (by simp))
      obtain ⟨s', hs', hR'⟩ :=
        runOut_refines hstep as s₁ (spec t a).1 hR₁ fun a ha => hP a (by simp [ha])
      exact ⟨s', by simp [runOut, hs, hs', answers], hR'⟩

/-- A view of a component that goes along with each request goes along with all of them. -/
theorem answers_view {step : σ → α → σ × β} {spec : τ → α → τ × β} (view : σ → τ)
    (h : ∀ s a, spec (view s) a = (view (step s a).1, (step s a).2)) :
    ∀ (as : List α) (s : σ),
      answers spec (view s) as = (view (answers step s as).1, (answers step s as).2)
  | [], _ => rfl
  | a :: as, s => by simp [answers, h s a, answers_view view h as]

/-- Execute a list of actions. -/
def run (step : σ → α → Option σ) : σ → List α → Option σ
  | s, [] => some s
  | s, a :: as => (step s a).bind fun s' => run step s' as

/-- The states reached from `s₀` by steps that satisfy the guard `G`. -/
inductive Reach (step : σ → α → Option σ) (G : σ → α → Prop) (s₀ : σ) : σ → Prop
  | refl : Reach step G s₀ s₀
  | tail {s s' : σ} {a : α} :
      Reach step G s₀ s → G s a → step s a = some s' → Reach step G s₀ s'

namespace Reach

variable {step : σ → α → Option σ} {G : σ → α → Prop} {s₀ s : σ}

/-- What holds initially and is kept by every guarded step holds in every state
reached. -/
theorem invariant {I : σ → Prop} (h : Reach step G s₀ s) (hinit : I s₀)
    (hstep : ∀ s a s', I s → G s a → step s a = some s' → I s') : I s := by
  induction h with
  | refl => exact hinit
  | tail _ hG hs ih => exact hstep _ _ _ ih hG hs

/-- A weaker guard reaches more. -/
theorem mono {G' : σ → α → Prop} (h : Reach step G s₀ s) (hG : ∀ s a, G s a → G' s a) :
    Reach step G' s₀ s := by
  induction h with
  | refl => exact .refl
  | tail _ hg hs ih => exact .tail ih (hG _ _ hg) hs

theorem trans {s' : σ} (h : Reach step G s₀ s) (h' : Reach step G s s') :
    Reach step G s₀ s' := by
  induction h' with
  | refl => exact h
  | tail _ hG hs ih => exact .tail ih hG hs

end Reach

/-- A run with its history: the state in which each step was taken, and its action. -/
inductive Path (step : σ → α → Option σ) (G : σ → α → Prop) (s₀ : σ) : List (σ × α) → σ → Prop
  | nil : Path step G s₀ [] s₀
  | snoc {es : List (σ × α)} {s s' : σ} {a : α} :
      Path step G s₀ es s → G s a → step s a = some s' → Path step G s₀ (es ++ [(s, a)]) s'

namespace Path

variable {step : σ → α → Option σ} {G : σ → α → Prop} {s₀ s : σ} {es : List (σ × α)}

/-- What holds of the empty history and is kept by every guarded step holds of every
history and the state it leads to. -/
theorem invariant {I : List (σ × α) → σ → Prop} (h : Path step G s₀ es s) (hinit : I [] s₀)
    (hstep : ∀ es s a s', I es s → G s a → step s a = some s' → I (es ++ [(s, a)]) s') :
    I es s := by
  induction h with
  | nil => exact hinit
  | snoc _ hG hs ih => exact hstep _ _ _ _ ih hG hs

/-- A weaker guard has more histories. -/
theorem mono {G' : σ → α → Prop} (h : Path step G s₀ es s) (hG : ∀ s a, G s a → G' s a) :
    Path step G' s₀ es s := by
  induction h with
  | nil => exact .nil
  | snoc _ hg hs ih => exact .snoc ih (hG _ _ hg) hs

/-- Every step of a history meets the guard. -/
theorem guard_of_mem (h : Path step G s₀ es s) {e : σ × α} (he : e ∈ es) : G e.1 e.2 := by
  induction h with
  | nil => exact absurd he List.not_mem_nil
  | snoc _ hG _ ih =>
      rcases List.mem_append.mp he with he | he
      · exact ih he
      · obtain rfl := List.mem_singleton.mp he
        exact hG

theorem trans {s' : σ} {es' : List (σ × α)} (h : Path step G s₀ es s)
    (h' : Path step G s es' s') : Path step G s₀ (es ++ es') s' := by
  induction h' with
  | nil => rwa [List.append_nil]
  | snoc _ hG hs ih =>
      rw [← List.append_assoc]
      exact .snoc ih hG hs

end Path

/-- The steps that fail no assertion. -/
def proceed {ε : Type*} (step : σ → α → Option (Except ε σ)) (s : σ) (a : α) : Option σ :=
  match step s a with
  | some (.ok s') => some s'
  | _ => none

theorem proceed_eq_some {ε : Type*} {step : σ → α → Option (Except ε σ)} {s s' : σ} {a : α} :
    proceed step s a = some s' ↔ step s a = some (.ok s') := by
  rw [proceed]
  split
  · rename_i s'' h
    rw [h]
    simp
  · rename_i hne
    exact iff_of_false (by simp) (hne s')

/-- The assertion that a step fails. -/
def failure {ε : Type*} (step : σ → α → Option (Except ε σ)) (s : σ) (a : α) : Option ε :=
  match step s a with
  | some (.error e) => some e
  | _ => none

theorem failure_eq_some {ε : Type*} {step : σ → α → Option (Except ε σ)} {s : σ} {a : α} {e : ε} :
    failure step s a = some e ↔ step s a = some (.error e) := by
  rw [failure]
  split
  · rename_i e' h
    rw [h]
    simp
  · rename_i hne
    exact iff_of_false (by simp) (hne e)

/-- A computation that is sequenced and ends normally did so in both parts. -/
theorem bind_ok.{u, v} {ε : Type u} {α β : Type v} {x : Except ε α} {f : α → Except ε β}
    {b : β} (h : (x >>= f) = .ok b) : ∃ a, x = .ok a ∧ f a = .ok b := by
  cases x with
  | error e => exact absurd h (by simp [bind, Except.bind])
  | ok a => exact ⟨a, rfl, h⟩

/-- A result that is mapped was there before. -/
theorem map_ok {ε α β : Type*} {x : Except ε α} {f : α → β} {b : β} (h : x.map f = .ok b) :
    ∃ a, x = .ok a ∧ f a = b := by
  cases x with
  | error e => exact absurd h (by simp [Except.map])
  | ok a => exact ⟨a, rfl, Except.ok.inj h⟩

/-- An error that is mapped was there before. -/
theorem map_error {ε α β : Type*} {x : Except ε α} {f : α → β} {e : ε} (h : x.map f = .error e) :
    x = .error e := by
  cases x with
  | error e' => rw [Except.error.inj h]
  | ok a => exact absurd h (by simp [Except.map])

/-- A computation that is sequenced and fails did so in one of its parts. -/
theorem bind_error.{u, v} {ε : Type u} {α β : Type v} {x : Except ε α} {f : α → Except ε β}
    {e : ε} (h : (x >>= f) = .error e) : x = .error e ∨ ∃ a, x = .ok a ∧ f a = .error e := by
  cases x with
  | error e' =>
      obtain rfl : e' = e := Except.error.inj h
      exact .inl rfl
  | ok a => exact .inr ⟨a, rfl, h⟩

/-- The step, refused where the guard does not hold. -/
def guarded (step : σ → α → Option σ) (G : σ → α → Prop) [∀ s a, Decidable (G s a)]
    (s : σ) (a : α) : Option σ :=
  if G s a then step s a else none

/-- Executing actions under the guard reaches. -/
theorem run_reach {step : σ → α → Option σ} {G : σ → α → Prop} [∀ s a, Decidable (G s a)] :
    ∀ (as : List α) {s s' : σ}, run (guarded step G) s as = some s' → Reach step G s s'
  | [], s, s', h => by
      obtain rfl := Option.some.inj h
      exact .refl
  | a :: as, s, s', h => by
      obtain ⟨s₁, h₁, h₂⟩ := Option.bind_eq_some_iff.mp h
      rw [guarded] at h₁
      split at h₁
      · exact (Reach.tail .refl ‹_› h₁).trans (run_reach as h₂)
      · exact absurd h₁ (by simp)

/-- The states in which a list of actions is taken, with the actions. -/
def history (step : σ → α → Option σ) : σ → List α → List (σ × α)
  | _, [] => []
  | s, a :: as => (s, a) :: ((step s a).map fun s' => history step s' as).getD []

/-- Executing actions under the guard makes their history. -/
theorem run_history {step : σ → α → Option σ} {G : σ → α → Prop} [∀ s a, Decidable (G s a)] :
    ∀ (as : List α) {s s' : σ}, run (guarded step G) s as = some s' →
      Path step G s (history (guarded step G) s as) s'
  | [], s, s', h => by
      obtain rfl := Option.some.inj h
      exact .nil
  | a :: as, s, s', h => by
      obtain ⟨s₁, h₁, h₂⟩ := Option.bind_eq_some_iff.mp h
      rw [history, h₁, Option.map_some, Option.getD_some]
      rw [guarded] at h₁
      split at h₁
      · have hfirst : Path step G s [(s, a)] s₁ := .snoc .nil ‹_› h₁
        exact hfirst.trans (run_history as h₂)
      · exact absurd h₁ (by simp)

theorem history_actions {step : σ → α → Option σ} :
    ∀ (as : List α) {s s' : σ}, run step s as = some s' → (history step s as).map Prod.snd = as
  | [], _, _, _ => rfl
  | a :: as, s, s', h => by
      obtain ⟨s₁, h₁, h₂⟩ := Option.bind_eq_some_iff.mp h
      rw [history, h₁, Option.map_some, Option.getD_some, List.map_cons, history_actions as h₂]

/-- Executing actions under the guard makes a history of them. -/
theorem run_path {step : σ → α → Option σ} {G : σ → α → Prop} [∀ s a, Decidable (G s a)]
    (as : List α) {s s' : σ} (h : run (guarded step G) s as = some s') :
    ∃ es, Path step G s es s' ∧ es.map Prod.snd = as :=
  ⟨_, run_history as h, history_actions as h⟩

end CoLib.Lib
