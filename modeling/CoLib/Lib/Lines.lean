/-
# `CoLib.Lib.Lines` — texts that are lines with a two-symbol line end

`lines` cuts a text at every line end, `unlines` puts the line ends back.  A
message is a head of non-empty lines, a blank line and a rest that is not looked
into: `head` and `rest` are what a reader finds who goes to the first blank line.

**Proved here.**  A line end that is written is a cut of its own whatever stands
around it (`lines_append`), so that the lines of a text are those of its parts;
and the rest that a reader finds is the one that was written exactly if no line
before it is empty (`rest_eq_iff`).
-/
import Mathlib

namespace CoLib.Lib.Lines

variable {α : Type}

/-! ## Putting together -/

/-- The text of some lines. -/
def unlines (c d : α) : List (List α) → List α
  | [] => []
  | [l] => l
  | l :: l' :: ls => l ++ c :: d :: unlines c d (l' :: ls)

theorem unlines_append (c d : α) : ∀ {xs ys : List (List α)}, xs ≠ [] → ys ≠ [] →
    unlines c d (xs ++ ys) = unlines c d xs ++ c :: d :: unlines c d ys
  | [], _, h, _ => absurd rfl h
  | [x], [], _, h => absurd rfl h
  | [x], y :: ys, _, _ => rfl
  | x :: x' :: xs, ys, _, hys => by
      have ih := unlines_append c d (List.cons_ne_nil x' xs) hys
      rw [List.cons_append] at ih
      rw [List.cons_append, List.cons_append, unlines, ih, unlines, List.append_assoc,
        List.cons_append, List.cons_append]

/-! ## Cutting -/

/-- A symbol before the first line. -/
def consHead (x : α) : List (List α) → List (List α)
  | [] => [[x]]
  | l :: ls => (x :: l) :: ls

theorem consHead_append (x : α) {ls : List (List α)} (h : ls ≠ []) (ls' : List (List α)) :
    consHead x (ls ++ ls') = consHead x ls ++ ls' := by
  cases ls with
  | nil => exact absurd rfl h
  | cons l ls => rfl

theorem consHead_ne_nil (x : α) (ls : List (List α)) : consHead x ls ≠ [] := by
  cases ls with
  | nil => exact List.cons_ne_nil _ _
  | cons l ls => exact List.cons_ne_nil _ _

theorem unlines_consHead (c d : α) (x : α) : ∀ {ls : List (List α)}, ls ≠ [] →
    unlines c d (consHead x ls) = x :: unlines c d ls
  | [], h => absurd rfl h
  | [_], _ => rfl
  | _ :: _ :: _, _ => rfl

variable [DecidableEq α] {c d : α}

/-- The lines of a text, between the line ends `c d`. -/
def lines (c d : α) : List α → List (List α)
  | [] => [[]]
  | [x] => [[x]]
  | x :: y :: text =>
      if x = c ∧ y = d then [] :: lines c d text else consHead x (lines c d (y :: text))

theorem lines_ne_nil : ∀ text : List α, lines c d text ≠ []
  | [] => List.cons_ne_nil _ _
  | [x] => List.cons_ne_nil _ _
  | x :: y :: text => by
      rw [lines]
      split
      · exact List.cons_ne_nil _ _
      · exact consHead_ne_nil _ _

theorem lines_lineEnd (text : List α) : lines c d (c :: d :: text) = [] :: lines c d text :=
  if_pos ⟨rfl, rfl⟩

theorem lines_symbol {x y : α} (h : ¬(x = c ∧ y = d)) (text : List α) :
    lines c d (x :: y :: text) = consHead x (lines c d (y :: text)) :=
  if_neg h

/-- A line end that is written is a cut of its own. -/
theorem lines_append (hcd : c ≠ d) (b : List α) : ∀ a : List α,
    lines c d (a ++ c :: d :: b) = lines c d a ++ lines c d b
  | [] => lines_lineEnd b
  | [x] => by
      -- the symbol before the line end is no line end with its first half
      rw [List.singleton_append, lines_symbol fun h => hcd h.2, lines_lineEnd]
      rfl
  | x :: y :: a => by
      show lines c d (x :: y :: (a ++ c :: d :: b)) = _
      by_cases h : x = c ∧ y = d
      · rw [h.1, h.2, lines_lineEnd, lines_lineEnd, lines_append hcd b a, List.cons_append]
      · have ih := lines_append hcd b (y :: a)
        rw [List.cons_append] at ih
        rw [lines_symbol h, lines_symbol h, ih, consHead_append x (lines_ne_nil _)]

/-- A text that does not begin with a line end begins with a line. -/
theorem lines_cons {x : α} (hx : x ≠ c) (text : List α) :
    ∃ l ls, lines c d (x :: text) = (x :: l) :: ls := by
  cases text with
  | nil => exact ⟨[], [], rfl⟩
  | cons y text =>
      rw [lines, if_neg fun h => hx h.1]
      cases lines c d (y :: text) with
      | nil => exact ⟨[], [], rfl⟩
      | cons l ls => exact ⟨l, ls, rfl⟩

/-- Nothing is lost by cutting. -/
theorem unlines_lines : ∀ text : List α, unlines c d (lines c d text) = text
  | [] => rfl
  | [x] => rfl
  | x :: y :: text => by
      rw [lines]
      split
      · rename_i h
        have hcut := unlines_append c d (List.cons_ne_nil ([] : List α) [])
          (lines_ne_nil (c := c) (d := d) text)
        rw [List.singleton_append] at hcut
        rw [hcut, unlines_lines text, h.1, h.2]
        rfl
      · rw [unlines_consHead c d x (lines_ne_nil _), unlines_lines (y :: text)]

/-! ## Messages -/

/-- The lines before the first blank line. -/
def head (c d : α) (text : List α) : List (List α) :=
  (lines c d text).takeWhile (· ≠ [])

/-- What follows the first blank line. -/
def rest (c d : α) (text : List α) : List α :=
  unlines c d ((lines c d text).drop ((head c d text).length + 1))

variable {text body : List α} {xs ls : List (List α)}

/-- The head is what was written before the blank line, if no line of it is empty. -/
theorem head_eq (h : lines c d text = xs ++ [] :: ls) (hxs : ∀ x ∈ xs, x ≠ []) :
    head c d text = xs := by
  rw [head, h, List.takeWhile_append_of_pos fun x hx => decide_eq_true (hxs x hx)]
  simp

theorem rest_eq (h : lines c d text = xs ++ [] :: ls) (hxs : ∀ x ∈ xs, x ≠ []) :
    rest c d text = unlines c d ls := by
  rw [rest, head_eq h hxs, h, ← List.singleton_append, ← List.append_assoc,
    List.drop_left' (by simp)]

/-- The rest is what was written after the blank line exactly if no line before it is
empty. -/
theorem rest_eq_iff (h : lines c d text = xs ++ [] :: lines c d body) :
    rest c d text = body ↔ ∀ x ∈ xs, x ≠ [] := by
  constructor
  · intro hrest x hx hnil
    subst hnil
    obtain ⟨ys, zs, rfl, hys⟩ := List.eq_append_cons_of_mem hx
    have hne : ∀ y ∈ ys, y ≠ [] := fun y hy hy' => hys (hy' ▸ hy)
    have hlong : rest c d text = unlines c d (zs ++ [[]]) ++ c :: d :: body := by
      have hcut : lines c d text = ys ++ [] :: (zs ++ [[]] ++ lines c d body) := by
        rw [h]
        simp
      rw [rest_eq hcut hne, unlines_append c d (by simp) (lines_ne_nil _), unlines_lines]
    have hlen := congrArg List.length (hlong.symm.trans hrest)
    rw [List.length_append, List.length_cons, List.length_cons] at hlen
    omega
  · intro hxs
    rw [rest_eq h hxs, unlines_lines]

end CoLib.Lib.Lines
