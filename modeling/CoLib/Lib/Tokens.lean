/-
# `CoLib.Lib.Tokens` — tokens at places

Some tokens have been issued, and each of them lies at one place at a time: a task
in a queue, with a thread, or in a list of what is done.  `place p` is the token at
`p`, if any.  A token is issued to an empty place, and moves to an empty place;
both keep that every token issued is at one place and at no other.
-/
import Mathlib

namespace CoLib.Lib

variable {P T : Type*}

/-- Every token issued is at exactly one place, and nothing else is at any. -/
structure Placed (place : P → Option T) (issued : T → Prop) : Prop where
  once : ∀ {p q t}, place p = some t → place q = some t → p = q
  issued : ∀ {t}, issued t ↔ ∃ p, place p = some t

namespace Placed

variable {place place' : P → Option T} {issued issued' : T → Prop} {p q : P} {t : T}

theorem empty : Placed (fun _ : P => (none : Option T)) fun _ => False where
  once   := fun h => absurd h (by simp)
  issued := by simp

/-- The same places and the same tokens. -/
theorem congr (h : Placed place issued) (hplace : ∀ p, place' p = place p)
    (hissued : ∀ t, issued' t ↔ issued t) : Placed place' issued' := by
  obtain rfl : place' = place := funext hplace
  exact ⟨h.once, (hissued _).trans h.issued⟩

variable [DecidableEq P]

/-- A new token at an empty place. -/
theorem issue (h : Placed place issued) (hp : place p = none) (ht : ¬ issued t) :
    Placed (Function.update place p (some t)) fun u => u = t ∨ issued u := by
  have hat : ∀ {q u}, Function.update place p (some t) q = some u ↔
      (q = p ∧ u = t) ∨ place q = some u := by
    intro q u
    by_cases hq : q = p
    · subst hq
      rw [Function.update_self, hp]
      simp [eq_comm]
    · rw [Function.update_of_ne hq]
      simp [hq]
  have hno : ∀ {q}, place q ≠ some t := fun hq => ht (h.issued.mpr ⟨_, hq⟩)
  constructor
  · intro q r u hq hr
    rcases hat.mp hq with ⟨rfl, rfl⟩ | hold
    · rcases hat.mp hr with ⟨rfl, -⟩ | hold
      · rfl
      · exact absurd hold hno
    · rcases hat.mp hr with ⟨rfl, rfl⟩ | hold'
      · exact absurd hold hno
      · exact h.once hold hold'
  · intro u
    simp only [hat, h.issued]
    constructor
    · rintro (rfl | ⟨q, hq⟩)
      · exact ⟨p, .inl ⟨rfl, rfl⟩⟩
      · exact ⟨q, .inr hq⟩
    · rintro ⟨q, ⟨-, rfl⟩ | hq⟩
      · exact .inl rfl
      · exact .inr ⟨q, hq⟩

/-- A token moves to an empty place. -/
theorem move (h : Placed place issued) (hp : place p = some t) (hq : place q = none) :
    Placed (Function.update (Function.update place p none) q (some t)) issued := by
  have hat : ∀ {r u}, Function.update (Function.update place p none) q (some t) r = some u ↔
      (r = q ∧ u = t) ∨ (u ≠ t ∧ place r = some u) := by
    intro r u
    by_cases hr : r = q
    · subst hr
      rw [Function.update_self, hq]
      simp [eq_comm]
    · rw [Function.update_of_ne hr]
      by_cases hrp : r = p
      · subst hrp
        rw [Function.update_self, hp]
        simp [hr, eq_comm]
      · rw [Function.update_of_ne hrp]
        refine ⟨fun hu => .inr ⟨?_, hu⟩, fun hu => (hu.resolve_left fun hu => hr hu.1).2⟩
        rintro rfl
        exact hrp (h.once hu hp)
  constructor
  · intro r r' u hr hr'
    rcases hat.mp hr with ⟨rfl, rfl⟩ | ⟨hne, hr⟩
    · rcases hat.mp hr' with ⟨rfl, -⟩ | ⟨hne, -⟩
      · rfl
      · exact absurd rfl hne
    · rcases hat.mp hr' with ⟨-, rfl⟩ | ⟨-, hr'⟩
      · exact absurd rfl hne
      · exact h.once hr hr'
  · intro u
    simp only [hat, h.issued]
    constructor
    · rintro ⟨r, hr⟩
      by_cases hu : u = t
      · exact ⟨q, .inl ⟨rfl, hu⟩⟩
      · exact ⟨r, .inr ⟨hu, hr⟩⟩
    · rintro ⟨r, ⟨-, rfl⟩ | ⟨-, hr⟩⟩
      · exact ⟨p, hp⟩
      · exact ⟨r, hr⟩

end Placed

end CoLib.Lib
