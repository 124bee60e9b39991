/-
# `CoLib.Config.Var` — setting a configuration variable

`ConfigVar::setValue` compares and calls the listeners under the read lock,
releases it, and assigns under the write lock.  The read lock is shared: two
setters may be in the first section together, their notifications interleaved,
and between its two sections a setter holds nothing.

A listener is known by its key, and what matters of it is the arguments of its
last call.  A listener may throw; the exception leaves `setValue` and the
assignment does not take place.

**Proved here.**  `agree` is the condition that two setters that have notified
and not yet assigned carry the same value, and that no listener throws.
`notified_eq_val`: in runs that meet it, once all calls have returned the last
`new_value` of each listener is the value stored.
-/
import CoLib.Lib.Run
import Mathlib

namespace CoLib

open Lib

/-- `class ConfigVar<T>`: `m_val`, the keys of `m_cbs` in their order, the last
key given out, the holders of the read lock of `m_mutex`, and the arguments of
the last call of each listener. -/
structure ConfigVar (V : Type) where
  val : V
  cbs : List Nat
  funId : Nat
  readers : Nat
  notified : Nat → Option (V × V)

namespace ConfigVar

/-- Where a thread is in `setValue`. -/
inductive Phase (V : Type) where
  /-- Outside. -/
  | outside
  /-- About to take the read lock. -/
  | entered (v : V)
  /-- Holding it, with the listeners in `rest` left to call. -/
  | notifying (v : V) (rest : List Nat)
  /-- Between the two sections. -/
  | released (v : V)

/-- What a thread has told listeners and not yet stored. -/
def Phase.pending {V : Type} : Phase V → Option V
  | .notifying v _ => some v
  | .released v => some v
  | _ => none

/-- The listeners it has left to call. -/
def Phase.rest {V : Type} : Phase V → List Nat
  | .notifying _ rest => rest
  | _ => []

/-- A variable and the threads that use it. -/
structure Setters (V T : Type) extends ConfigVar V where
  phase : T → Phase V

/-- A step of a thread. -/
inductive SetAct (V T : Type) where
  | setValue (t : T) (v : V)
  | compare (t : T)
  | notify (t : T) (throws : Bool)
  | unlock (t : T)
  | assign (t : T)
  | addListener
  | delListener (key : Nat)
  | clearListener

namespace Setters

variable {V T : Type}

/-- A new variable. -/
def create (v : V) : Setters V T :=
  { val := v, cbs := [], funId := 0, readers := 0, notified := fun _ => none
    phase := fun _ => .outside }

/-- Thread `t` is in phase `ph` next. -/
def goto [DecidableEq T] (s : Setters V T) (t : T) (ph : Phase V) : Setters V T :=
  { s with phase := Function.update s.phase t ph }

/-- One step; `none` when the thread is not there or the lock is held. -/
def step [DecidableEq V] [DecidableEq T] (s : Setters V T) : SetAct V T → Option (Setters V T)
  | .setValue t v =>
      match s.phase t with
      | .outside => some (s.goto t (.entered v))
      | _ => none
  | .compare t =>
      match s.phase t with
      | .entered v =>
          if v = s.val then some (s.goto t .outside)
          else some ({ s with readers := s.readers + 1 }.goto t (.notifying v s.cbs))
      | _ => none
  | .notify t throws =>
      match s.phase t with
      | .notifying v (i :: rest) =>
          let s := { s with notified := Function.update s.notified i (some (s.val, v)) }
          if throws then some ({ s with readers := s.readers - 1 }.goto t .outside)
          else some (s.goto t (.notifying v rest))
      | _ => none
  | .unlock t =>
      match s.phase t with
      | .notifying v [] => some ({ s with readers := s.readers - 1 }.goto t (.released v))
      | _ => none
  | .assign t =>
      match s.phase t with
      | .released v => if s.readers = 0 then some ({ s with val := v }.goto t .outside) else none
      | _ => none
  | .addListener =>
      if s.readers = 0 then
        some { s with funId := s.funId + 1, cbs := s.cbs ++ [s.funId + 1] }
      else none
  | .delListener key =>
      if s.readers = 0 then some { s with cbs := s.cbs.erase key } else none
  | .clearListener =>
      if s.readers = 0 then some { s with cbs := [] } else none

/-! ## Setters that agree -/

/-- A setter that begins to notify finds no other value on its way to be stored,
and no listener throws. -/
def agree (s : Setters V T) : SetAct V T → Prop
  | .compare t =>
      match s.phase t with
      | .entered v => v = s.val ∨ ∀ u, ∀ w ∈ (s.phase u).pending, w = v
      | _ => True
  | .notify _ throws => throws = false
  | _ => True

/-- What holds between the steps of setters that agree: one value is on its way
to be stored at a time, and whoever was told another one than the stored one was
told that. -/
structure Mirrored (s : Setters V T) : Prop where
  same : ∀ t u, ∀ v ∈ (s.phase t).pending, ∀ w ∈ (s.phase u).pending, v = w
  told : ∀ l ∈ s.cbs, ∀ p ∈ s.notified l, p.2 = s.val ∨ ∃ t, p.2 ∈ (s.phase t).pending
  turn : ∀ t, ∀ v ∈ (s.phase t).pending, ∀ l ∈ s.cbs, l ∉ (s.phase t).rest →
    ∀ p ∈ s.notified l, p.2 = v
  known : ∀ l ∈ s.cbs, l ≤ s.funId
  resting : ∀ t, ∀ l ∈ (s.phase t).rest, l ≤ s.funId
  fresh : ∀ l, s.funId < l → s.notified l = none

variable {s s' : Setters V T}

theorem mirrored_create (v : V) : (create v : Setters V T).Mirrored where
  same := fun t u v hv => absurd hv (by simp [create, Phase.pending])
  told := fun l hl => absurd hl (by simp [create])
  turn := fun t v hv => absurd hv (by simp [create, Phase.pending])
  known := fun l hl => absurd hl (by simp [create])
  resting := fun t l hl => absurd hl (by simp [create, Phase.rest])
  fresh := fun _ _ => rfl

/-- The listeners change while nobody notifies. -/
theorem Mirrored.listeners {cbs : List Nat} {n : Nat} (h : s.Mirrored) (hn : s.funId ≤ n)
    (hcbs : ∀ l ∈ cbs, l ∈ s.cbs ∨ s.funId < l ∧ l ≤ n) :
    ({ s with cbs := cbs, funId := n } : Setters V T).Mirrored where
  same := h.same
  told := by
    intro l hl p hp
    rcases hcbs l hl with hl | ⟨hl, -⟩
    · exact h.told l hl p hp
    · exact absurd (h.fresh l hl ▸ hp) (by simp)
  turn := by
    intro t v hv l hl hrest p hp
    rcases hcbs l hl with hl | ⟨hl, -⟩
    · exact h.turn t v hv l hl hrest p hp
    · exact absurd (h.fresh l hl ▸ hp) (by simp)
  known := by
    intro l hl
    rcases hcbs l hl with hl | ⟨-, hl⟩
    · exact (h.known l hl).trans hn
    · exact hl
  resting := fun t l hl => (h.resting t l hl).trans hn
  fresh := fun l hl => h.fresh l (hn.trans_lt hl)

variable [DecidableEq T]

theorem goto_phase (s : Setters V T) (t u : T) (ph : Phase V) :
    (s.goto t ph).phase u = if u = t then ph else s.phase u :=
  Function.update_apply s.phase t ph u

/-- A thread that keeps what it has on its way, and what it has left to do. -/
theorem Mirrored.goto_same {t : T} {ph : Phase V} (h : s.Mirrored)
    (hp : ph.pending = (s.phase t).pending) (hr : ph.rest = (s.phase t).rest) :
    (s.goto t ph).Mirrored := by
  have hpending : ∀ u, ((s.goto t ph).phase u).pending = (s.phase u).pending := by
    intro u
    rw [goto_phase]
    split
    · rename_i hu
      rw [hp, hu]
    · rfl
  have hrest : ∀ u, ((s.goto t ph).phase u).rest = (s.phase u).rest := by
    intro u
    rw [goto_phase]
    split
    · rename_i hu
      rw [hr, hu]
    · rfl
  constructor
  · intro u w
    rw [hpending, hpending]
    exact h.same u w
  · intro l hl p hp
    obtain hval | ⟨u, hu⟩ := h.told l hl p hp
    · exact .inl hval
    · exact .inr ⟨u, by rwa [hpending]⟩
  · intro u
    rw [hpending, hrest]
    exact h.turn u
  · exact h.known
  · intro u
    rw [hrest]
    exact h.resting u
  · exact h.fresh

theorem Mirrored.begin {t : T} {v : V} (h : s.Mirrored) (hph : s.phase t = .entered v)
    (hv : ∀ u, ∀ w ∈ (s.phase u).pending, w = v) :
    ({ s with readers := s.readers + 1 }.goto t (.notifying v s.cbs)).Mirrored := by
  have hcases : ∀ u, ∀ w ∈ (({ s with readers := s.readers + 1 }.goto t
      (.notifying v s.cbs)).phase u).pending, w = v := by
    intro u w hw
    rw [goto_phase] at hw
    split at hw
    · exact (Option.some.inj hw).symm
    · exact hv u w hw
  constructor
  · intro u w x hx y hy
    rw [hcases u x hx, hcases w y hy]
  · intro l hl p hp
    obtain hval | ⟨u, hu⟩ := h.told l hl p hp
    · exact .inl hval
    · refine .inr ⟨u, ?_⟩
      rw [goto_phase, if_neg ?_]
      · exact hu
      · rintro rfl
        exact absurd hu (by simp [hph, Phase.pending])
  · intro u w hw l hl hrest p hp
    rw [goto_phase] at hw hrest
    split at hw
    · rename_i hu
      rw [if_pos hu] at hrest
      exact absurd hl hrest
    · rename_i hu
      rw [if_neg hu] at hrest
      exact h.turn u w hw l hl hrest p hp
  · exact h.known
  · intro u l hl
    rw [goto_phase] at hl
    split at hl
    · exact h.known l hl
    · exact h.resting u l hl
  · exact h.fresh

theorem Mirrored.notify {t : T} {v : V} {i : Nat} {rest : List Nat} (h : s.Mirrored)
    (hph : s.phase t = .notifying v (i :: rest)) :
    ({ s with notified := Function.update s.notified i (some (s.val, v)) }.goto t
      (.notifying v rest)).Mirrored := by
  have hpending : (s.phase t).pending = some v := by rw [hph]; rfl
  have hsame : ∀ u, (({ s with notified := Function.update s.notified i (some (s.val, v)) }.goto t
      (.notifying v rest)).phase u).pending = (s.phase u).pending := by
    intro u
    rw [goto_phase]
    split
    · rename_i hu
      rw [hu, hpending]
      rfl
    · rfl
  constructor
  · intro u w
    rw [hsame, hsame]
    exact h.same u w
  · intro l hl p hp
    by_cases hli : l = i
    · subst hli
      obtain rfl : (s.val, v) = p := by simpa [goto] using hp
      exact .inr ⟨t, by rw [hsame, hpending]; rfl⟩
    · have hp : p ∈ s.notified l := by simpa [goto, hli] using hp
      obtain hval | ⟨u, hu⟩ := h.told l hl p hp
      · exact .inl hval
      · exact .inr ⟨u, by rwa [hsame]⟩
  · intro u w hw l hl hrest p hp
    rw [hsame] at hw
    by_cases hli : l = i
    · subst hli
      obtain rfl : (s.val, v) = p := by simpa [goto] using hp
      exact h.same t u v hpending w hw
    · have hp : p ∈ s.notified l := by simpa [goto, hli] using hp
      refine h.turn u w hw l hl ?_ p hp
      rw [goto_phase] at hrest
      split at hrest
      · rename_i hu
        rw [hu, hph]
        simpa [Phase.rest, hli] using hrest
      · exact hrest
  · exact h.known
  · intro u l hl
    rw [goto_phase] at hl
    split at hl
    · exact h.resting t l (by rw [hph]; exact List.mem_cons_of_mem _ hl)
    · exact h.resting u l hl
  · intro l hl
    have hli : l ≠ i := by
      rintro rfl
      have hle := h.resting t l (by rw [hph]; exact List.mem_cons_self)
      exact absurd hl (not_lt.mpr hle)
    simpa [goto, hli] using h.fresh l hl

theorem Mirrored.assign {t : T} {v : V} (h : s.Mirrored) (hph : s.phase t = .released v) :
    ({ s with val := v }.goto t .outside).Mirrored := by
  have hpending : (s.phase t).pending = some v := by rw [hph]; rfl
  have hkeep : ∀ u, ∀ w ∈ (({ s with val := v }.goto t .outside).phase u).pending,
      w ∈ (s.phase u).pending ∧ ({ s with val := v }.goto t .outside).phase u = s.phase u := by
    intro u w hw
    by_cases hu : u = t
    · rw [goto_phase, if_pos hu] at hw
      exact absurd hw (by simp [Phase.pending])
    · rw [goto_phase, if_neg hu] at hw ⊢
      exact ⟨hw, rfl⟩
  constructor
  · intro u w x hx y hy
    exact h.same u w x (hkeep u x hx).1 y (hkeep w y hy).1
  · intro l hl p hp
    -- `t` has told everybody
    exact .inl (h.turn t v hpending l hl (by rw [hph]; exact List.not_mem_nil) p hp)
  · intro u w hw l hl hrest p hp
    obtain ⟨hw', hsame⟩ := hkeep u w hw
    rw [hsame] at hrest
    exact h.turn u w hw' l hl hrest p hp
  · exact h.known
  · intro u l hl
    rw [goto_phase] at hl
    split at hl
    · exact absurd hl List.not_mem_nil
    · exact h.resting u l hl
  · exact h.fresh

theorem Mirrored.step [DecidableEq V] {a : SetAct V T} (h : s.Mirrored) (ha : s.agree a)
    (hs : s.step a = some s') : s'.Mirrored := by
  cases a with
  | setValue t v =>
      simp only [Setters.step] at hs
      split at hs
      · rename_i hph
        obtain rfl := Option.some.inj hs
        exact h.goto_same (by rw [hph]; rfl) (by rw [hph]; rfl)
      · exact absurd hs (by simp)
  | compare t =>
      simp only [Setters.step] at hs
      split at hs
      · rename_i v hph
        split at hs
        · obtain rfl := Option.some.inj hs
          exact h.goto_same (by rw [hph]; rfl) (by rw [hph]; rfl)
        · rename_i hne
          obtain rfl := Option.some.inj hs
          simp only [agree, hph] at ha
          exact h.begin hph (ha.resolve_left hne)
      · exact absurd hs (by simp)
  | notify t throws =>
      simp only [Setters.step] at hs
      split at hs
      · rename_i v i rest hph
        obtain rfl : throws = false := ha
        obtain rfl := Option.some.inj hs
        exact h.notify hph
      · exact absurd hs (by simp)
  | unlock t =>
      simp only [Setters.step] at hs
      split at hs
      · rename_i v hph
        obtain rfl := Option.some.inj hs
        have h' : ({ s with readers := s.readers - 1 } : Setters V T).Mirrored :=
          ⟨h.same, h.told, h.turn, h.known, h.resting, h.fresh⟩
        exact h'.goto_same (by rw [hph]; rfl) (by rw [hph]; rfl)
      · exact absurd hs (by simp)
  | assign t =>
      simp only [Setters.step] at hs
      split at hs
      · rename_i v hph
        split at hs
        · obtain rfl := Option.some.inj hs
          exact h.assign hph
        · exact absurd hs (by simp)
      · exact absurd hs (by simp)
  | addListener =>
      simp only [Setters.step] at hs
      split at hs
      · obtain rfl := Option.some.inj hs
        refine h.listeners (Nat.le_succ _) ?_
        intro l hl
        rcases List.mem_append.mp hl with hl | hl
        · exact .inl hl
        · rw [List.mem_singleton.mp hl]
          exact .inr ⟨Nat.lt_succ_self _, le_refl _⟩
      · exact absurd hs (by simp)
  | delListener key =>
      simp only [Setters.step] at hs
      split at hs
      · obtain rfl := Option.some.inj hs
        exact h.listeners (le_refl _) fun l hl => .inl (List.mem_of_mem_erase hl)
      · exact absurd hs (by simp)
  | clearListener =>
      simp only [Setters.step] at hs
      split at hs
      · obtain rfl := Option.some.inj hs
        exact h.listeners (le_refl _) fun l hl => absurd hl List.not_mem_nil
      · exact absurd hs (by simp)

/-- **Mirrors agree with the variable.**  In every run of setters that agree,
once all calls have returned, the last `new_value` of each listener is the value
of the variable. -/
theorem notified_eq_val [DecidableEq V] {v₀ : V}
    (h : Reach Setters.step agree (create v₀ : Setters V T) s)
    (hdone : ∀ t, s.phase t = .outside) :
    ∀ l ∈ s.cbs, ∀ p, s.notified l = some p → p.2 = s.val := by
  intro l hl p hp
  have hm : s.Mirrored := h.invariant (mirrored_create v₀) fun _ _ _ hm ha hs => hm.step ha hs
  rcases hm.told l hl p hp with hval | ⟨t, ht⟩
  · exact hval
  · exact absurd ht (by simp [hdone t, Phase.pending])

/-- Two threads set a variable to different values: they notify in one order and
assign in the other. -/
def crossing : List (SetAct Nat Bool) :=
  [.addListener, .setValue false 1, .setValue true 2,
    .compare false, .notify false false, .unlock false,
    .compare true, .notify true false, .unlock true, .assign true, .assign false]

/-- The mirror is left with the value that was overwritten. -/
theorem setValue_crossing :
    ¬ ∀ s : Setters Nat Bool, Reach Setters.step (fun _ _ => True) (create 0) s →
      (∀ t, s.phase t = .outside) → ∀ l ∈ s.cbs, ∀ p, s.notified l = some p → p.2 = s.val := by
  intro h
  obtain ⟨s, hrun, hf, ht, hl, hp, hval⟩ : ∃ s,
      run (guarded Setters.step fun _ _ => True) (create 0 : Setters Nat Bool) crossing = some s ∧
      s.phase false = .outside ∧ s.phase true = .outside ∧ 1 ∈ s.cbs ∧
      s.notified 1 = some (0, 2) ∧ s.val = 1 :=
    ⟨_, rfl, rfl, rfl, by decide, rfl, rfl⟩
  have heq := h s (run_reach _ hrun) (Bool.forall_bool.mpr ⟨hf, ht⟩) 1 hl (0, 2) hp
  rw [hval] at heq
  exact absurd heq (by decide)

instance [DecidableEq V] [Fintype T] (s : Setters V T) (a : SetAct V T) : Decidable (s.agree a) :=
  match a with
  | .compare t =>
      match h : s.phase t with
      | .entered v =>
          decidable_of_iff (v = s.val ∨ ∀ u, ∀ w ∈ (s.phase u).pending, w = v)
            (by simp only [agree, h])
      | .outside => isTrue (by simp only [agree, h])
      | .notifying _ _ => isTrue (by simp only [agree, h])
      | .released _ => isTrue (by simp only [agree, h])
  | .notify _ throws => inferInstanceAs (Decidable (throws = false))
  | .setValue _ _ => isTrue trivial
  | .unlock _ => isTrue trivial
  | .assign _ => isTrue trivial
  | .addListener => isTrue trivial
  | .delListener _ => isTrue trivial
  | .clearListener => isTrue trivial

/-- The same calls, one after the other. -/
theorem notified_eq_val_inTurn :
    ∃ s, run (guarded Setters.step agree) (create 0 : Setters Nat Bool)
        [.addListener, .setValue false 1, .setValue true 2,
          .compare false, .notify false false, .unlock false, .assign false,
          .compare true, .notify true false, .unlock true, .assign true] = some s ∧
      s.notified 1 = some (1, 2) ∧ s.val = 2 := by
  obtain ⟨s, hrun, hf, ht, hl, hp⟩ : ∃ s,
      run (guarded Setters.step agree) (create 0 : Setters Nat Bool)
        [.addListener, .setValue false 1, .setValue true 2,
          .compare false, .notify false false, .unlock false, .assign false,
          .compare true, .notify true false, .unlock true, .assign true] = some s ∧
      s.phase false = .outside ∧ s.phase true = .outside ∧ 1 ∈ s.cbs ∧
      s.notified 1 = some (1, 2) := ⟨_, rfl, rfl, rfl, by decide, rfl⟩
  exact ⟨s, hrun, hp, (notified_eq_val (run_reach _ hrun) (Bool.forall_bool.mpr ⟨hf, ht⟩) 1 hl _
    hp).symm⟩

end Setters

end ConfigVar

end CoLib
