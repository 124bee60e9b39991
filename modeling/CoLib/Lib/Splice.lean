/-
# `CoLib.Lib.Splice` — overwriting a window of a list

`splice dst off src` is what `memcpy(dst + off, src, |src|)` leaves in `dst`.
The lemmas say how splices compose when a copy is cut in two, either along the
source (`splice_splice`) or along the destination (`splice_append_left`,
`splice_append_right`, `splice_across`), and what a window that starts before
the copy reads afterwards (`window_splice`).
-/
import Mathlib

namespace CoLib.Lib

variable {α : Type*}

/-- `dst` with `src` written over it from position `off` on. -/
def splice (dst : List α) (off : Nat) (src : List α) : List α :=
  dst.take off ++ src ++ dst.drop (off + src.length)

@[simp] theorem splice_nil (dst : List α) (off : Nat) : splice dst off [] = dst := by
  simp [splice]

theorem length_splice {dst : List α} {off : Nat} {src : List α}
    (h : off + src.length ≤ dst.length) : (splice dst off src).length = dst.length := by
  simp only [splice, List.length_append, List.length_take, List.length_drop]
  omega

/-- A copy cut along its source: the second half lands where the first ends. -/
theorem splice_splice {dst : List α} {off : Nat} (h : off ≤ dst.length) (a b : List α) :
    splice (splice dst off a) (off + a.length) b = splice dst off (a ++ b) := by
  have hlen : (dst.take off ++ a).length = off + a.length := by simp; omega
  have htake : (splice dst off a).take (off + a.length) = dst.take off ++ a :=
    List.take_left' hlen
  have hdrop : (splice dst off a).drop (off + a.length) = dst.drop (off + a.length) :=
    List.drop_left' hlen
  rw [splice, htake, ← List.drop_drop, hdrop, List.drop_drop]
  simp [splice, Nat.add_assoc]

/-- A copy that stays inside the first of two pieces. -/
theorem splice_append_left {xs ys : List α} {off : Nat} {src : List α}
    (h : off + src.length ≤ xs.length) :
    splice (xs ++ ys) off src = splice xs off src ++ ys := by
  simp only [splice, List.append_assoc]
  rw [List.take_append_of_le_length (by omega), List.drop_append_of_le_length h]

/-- A copy that stays inside the second of two pieces. -/
theorem splice_append_right (xs ys : List α) (off : Nat) (src : List α) :
    splice (xs ++ ys) (xs.length + off) src = xs ++ splice ys off src := by
  simp [splice, List.take_length_add_append, Nat.add_assoc, List.drop_length_add_append]

/-- A copy that fills the first piece up and goes on at the start of the second. -/
theorem splice_across {xs ys a b : List α} {off : Nat} (h : off + a.length = xs.length) :
    splice (xs ++ ys) off (a ++ b) = splice xs off a ++ splice ys 0 b := by
  have hle : off ≤ (xs ++ ys).length := by simp; omega
  rw [← splice_splice hle a b, splice_append_left h.le]
  have hlen : (splice xs off a).length = off + a.length := by rw [length_splice h.le, h]
  rw [← hlen]
  exact splice_append_right (splice xs off a) ys 0 b

/-- A window from `r` up to the end of a copy reads what stood there before the
copy and then the copied elements. -/
theorem window_splice {dst src : List α} {r n : Nat} (h : r + n + src.length ≤ dst.length) :
    ((splice dst (r + n) src).drop r).take (n + src.length)
      = (dst.drop r).take n ++ src := by
  have htake : dst.take (r + n) = dst.take r ++ (dst.drop r).take n := List.take_add
  have hr : (dst.take r).length = r := by simp; omega
  have hn : ((dst.drop r).take n ++ src).length = n + src.length := by simp; omega
  rw [splice, htake, List.append_assoc, List.append_assoc, List.drop_left' hr,
    ← List.append_assoc]
  exact List.take_left' hn

end CoLib.Lib
