/-
# `CoLib.Lib.Measure` — steps that are paid for

A measure goes down by one with each step of a certain kind, and no other step changes it.
Along a run, what has been paid and what is left add up to what there was; if steps may cost
more, they are no more than what there was.
-/
import CoLib.Lib.Run

namespace CoLib.Lib

variable {σ α : Type*} {step : σ → α → Option σ} {G : σ → α → Prop} {s₀ s : σ}
  {es : List (σ × α)}

/-- An invariant of the steps, and what they pay. -/
theorem Path.paid {I : σ → Prop} {μ : σ → Nat} {pays : α → Bool} (h : Path step G s₀ es s)
    (hinit : I s₀)
    (hstep : ∀ s a s', I s → G s a → step s a = some s' → I s' ∧ (pays a).toNat + μ s' = μ s) :
    I s ∧ es.countP (fun e => pays e.2) + μ s = μ s₀ := by
  induction h with
  | nil => exact ⟨hinit, Nat.zero_add _⟩
  | @snoc es s s' a _ hG hs ih =>
      obtain ⟨hI, hpaid⟩ := ih
      obtain ⟨hI', hpay⟩ := hstep s a s' hI hG hs
      refine ⟨hI', ?_⟩
      rw [List.countP_append, List.countP_singleton]
      cases hpays : pays a with
      | true =>
          rw [hpays, Bool.toNat_true] at hpay
          simp only [if_true]
          omega
      | false =>
          rw [hpays, Bool.toNat_false] at hpay
          simp only [Bool.false_eq_true, if_false]
          omega

/-- An invariant of the steps, and a bound on those that cost something. -/
theorem Path.spent {I : σ → Prop} {μ : σ → Nat} {pays : α → Bool} (h : Path step G s₀ es s)
    (hinit : I s₀)
    (hstep : ∀ s a s', I s → G s a → step s a = some s' → I s' ∧ (pays a).toNat + μ s' ≤ μ s) :
    I s ∧ es.countP (fun e => pays e.2) + μ s ≤ μ s₀ := by
  induction h with
  | nil => exact ⟨hinit, (Nat.zero_add _).le⟩
  | @snoc es s s' a _ hG hs ih =>
      obtain ⟨hI, hspent⟩ := ih
      obtain ⟨hI', hcost⟩ := hstep s a s' hI hG hs
      refine ⟨hI', ?_⟩
      have hlast : (if pays a = true then 1 else 0) = (pays a).toNat := by cases pays a <;> rfl
      rw [List.countP_append, List.countP_singleton, hlast]
      omega

end CoLib.Lib
