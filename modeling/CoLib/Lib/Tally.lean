/-
# `CoLib.Lib.Tally` — sums over the elements of a list

`tally f xs` adds up `f` over a list, as one counts things that are spread over
a table of objects.  Assigning one object changes the tally by the difference
at that object.
-/
import Mathlib

namespace CoLib.Lib

variable {α : Type*}

/-- The sum of `f` over the elements. -/
def tally (f : α → Nat) (xs : List α) : Nat :=
  (xs.map f).sum

@[simp] theorem tally_nil (f : α → Nat) : tally f [] = 0 := rfl

@[simp] theorem tally_cons (f : α → Nat) (x : α) (xs : List α) :
    tally f (x :: xs) = f x + tally f xs := by
  simp [tally]

@[simp] theorem tally_append (f : α → Nat) (xs ys : List α) :
    tally f (xs ++ ys) = tally f xs + tally f ys := by
  simp [tally]

/-- What an assignment changes. -/
theorem tally_set {f : α → Nat} {xs : List α} {i : Nat} {x : α} (y : α) (h : xs[i]? = some x) :
    tally f (xs.set i y) + f x = tally f xs + f y := by
  induction xs generalizing i with
  | nil => exact absurd h (by simp)
  | cons z zs ih =>
      cases i with
      | zero =>
          obtain rfl : z = x := by simpa using h
          simp only [List.set_cons_zero, tally_cons]
          omega
      | succ i =>
          have := ih (i := i) (by simpa using h)
          simp only [List.set_cons_succ, tally_cons]
          omega

/-- An element counts no more than the whole. -/
theorem le_tally {f : α → Nat} {xs : List α} {i : Nat} {x : α} (h : xs[i]? = some x) :
    f x ≤ tally f xs := by
  obtain ⟨l, r, rfl, -⟩ := List.append_of_mem (List.mem_of_getElem? h)
  simp only [tally_append, tally_cons]
  omega

/-- Objects that count nothing can be added. -/
theorem tally_eq_zero {f : α → Nat} {xs : List α} (h : ∀ x ∈ xs, f x = 0) : tally f xs = 0 := by
  induction xs with
  | nil => rfl
  | cons z zs ih =>
      rw [tally_cons, h z List.mem_cons_self, ih fun x hx => h x (List.mem_cons_of_mem _ hx)]

/-- Adding up a predicate counts the elements that satisfy it. -/
theorem tally_toNat (p : α → Bool) (xs : List α) :
    tally (fun x => (p x).toNat) xs = xs.countP p := by
  induction xs with
  | nil => rfl
  | cons z zs ih =>
      rw [tally_cons, ih, List.countP_cons]
      cases p z <;> simp [Nat.add_comm]

end CoLib.Lib
