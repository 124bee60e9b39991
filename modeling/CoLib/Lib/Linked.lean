/-
# `CoLib.Lib.Linked` — singly linked cells, as a list

`Linked next xs` says that following `next` from the first cell of `xs` meets
exactly the cells of `xs`, in order, and stops after the last.  The two ways a
list is rearranged are appending a cell at the tail (`Linked.snoc`) and moving
the first cell to the tail (`Linked.rotate`); both are stated for any new
`next'` that agrees with the old one except where the pointers were written.
-/
import Mathlib

namespace CoLib.Lib

variable {ι : Type*}

/-- `next` leads through `xs` from its first cell to its last and stops there. -/
def Linked (next : ι → Option ι) : List ι → Prop
  | [] => True
  | x :: xs => next x = xs.head? ∧ Linked next xs

@[simp] theorem linked_nil (next : ι → Option ι) : Linked next [] := trivial

@[simp] theorem linked_cons {next : ι → Option ι} {x : ι} {xs : List ι} :
    Linked next (x :: xs) ↔ next x = xs.head? ∧ Linked next xs := Iff.rfl

/-- Only the pointers of the cells themselves matter. -/
theorem Linked.congr {next next' : ι → Option ι} {xs : List ι}
    (h : Linked next xs) (heq : ∀ p ∈ xs, next' p = next p) : Linked next' xs := by
  induction xs with
  | nil => trivial
  | cons x xs ih =>
      exact ⟨(heq x (by simp)).trans h.1, ih h.2 fun p hp => heq p (by simp [hp])⟩

theorem Linked.right {next : ι → Option ι} {xs ys : List ι}
    (h : Linked next (xs ++ ys)) : Linked next ys := by
  induction xs with
  | nil => exact h
  | cons _ _ ih => exact ih h.2

/-- The last cell `z` is made to point at a new cell `y`. -/
theorem Linked.snoc {next next' : ι → Option ι} {xs : List ι} {y z : ι}
    (h : Linked next xs) (nd : xs.Nodup) (hy : y ∉ xs) (hz : xs.getLast? = some z)
    (hframe : ∀ p ∈ xs, p ≠ z → next' p = next p)
    (hnext : next' z = some y) (hstop : next' y = none) : Linked next' (xs ++ [y]) := by
  induction xs with
  | nil => simp at hz
  | cons x xs ih =>
      cases xs with
      | nil =>
          obtain rfl : x = z := by simpa using hz
          exact ⟨hnext, hstop, trivial⟩
      | cons x' xs =>
          have hz' : (x' :: xs).getLast? = some z := by simpa using hz
          have hxz : x ≠ z := by
            rintro rfl
            exact (List.nodup_cons.mp nd).1 (List.mem_of_getLast? hz')
          have hx : next' x = next x := hframe x (by simp) hxz
          refine ⟨by rw [hx, h.1]; simp, ?_⟩
          exact ih h.2 (List.nodup_cons.mp nd).2 (fun hm => hy (by simp [hm])) hz'
            fun p hp => hframe p (by simp [hp])

/-- The first cell is cut off and hung behind the last cell `z`. -/
theorem Linked.rotate {next next' : ι → Option ι} {x z : ι} {xs : List ι}
    (h : Linked next (x :: xs)) (nd : (x :: xs).Nodup) (hz : xs.getLast? = some z)
    (hframe : ∀ p ∈ xs, p ≠ z → next' p = next p)
    (hnext : next' z = some x) (hstop : next' x = none) : Linked next' (xs ++ [x]) :=
  h.2.snoc (List.nodup_cons.mp nd).2 (List.nodup_cons.mp nd).1 hz hframe hnext hstop

end CoLib.Lib
