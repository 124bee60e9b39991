/-
# `CoLib.Lib.Traverse` — a partial function along a list

`l.mapM f` is the list of the results of `f`, if there is one for each element.

**Proved here.**  The results stand side by side with the elements (`mapM_eq_some_iff`); two
partial functions one after the other, each along the whole list, are their composite along
the list (`mapM_bind_mapM`); a total function `g` is what `f` does to the list exactly if it is
what `f` does to each element (`mapM_eq_map_iff`).
-/
import Mathlib

namespace CoLib.Lib

variable {α β γ : Type*}

theorem mapM_cons_option (f : α → Option β) (x : α) (l : List α) :
    (x :: l).mapM f = (f x).bind fun y => (l.mapM f).map (y :: ·) := by
  rw [List.mapM_cons]
  cases f x with
  | none => rfl
  | some y => cases l.mapM f <;> rfl

theorem mapM_eq_some_iff {f : α → Option β} :
    ∀ {l : List α} {ys : List β}, l.mapM f = some ys ↔ List.Forall₂ (fun x y => f x = some y) l ys
  | [], ys => by
      rw [List.mapM_nil, List.forall₂_nil_left_iff, eq_comm]
      exact Option.some_inj
  | x :: l, ys => by
      rw [mapM_cons_option, Option.bind_eq_some_iff, List.forall₂_cons_left_iff]
      simp only [Option.map_eq_some_iff, mapM_eq_some_iff]
      constructor
      · rintro ⟨y, hy, zs, hzs, rfl⟩
        exact ⟨y, zs, hy, hzs, rfl⟩
      · rintro ⟨y, zs, hy, hzs, rfl⟩
        exact ⟨y, hy, zs, hzs, rfl⟩

theorem mapM_bind_mapM (f : α → Option β) (g : β → Option γ) : ∀ l : List α,
    ((l.mapM f).bind fun ys => ys.mapM g) = l.mapM fun x => (f x).bind g
  | [] => rfl
  | x :: l => by
      rw [mapM_cons_option, mapM_cons_option, ← mapM_bind_mapM f g l]
      cases f x with
      | none => rfl
      | some y =>
          cases l.mapM f with
          | none => cases hg : g y <;> simp [hg]
          | some ys => exact mapM_cons_option g y ys

theorem mapM_eq_map_iff {f : α → Option β} {g : α → β} {l : List α} :
    l.mapM f = some (l.map g) ↔ ∀ x ∈ l, f x = some (g x) := by
  rw [mapM_eq_some_iff, List.forall₂_map_right_iff, List.forall₂_same]

/-- Each result is one of an element. -/
theorem exists_of_mem_mapM {f : α → Option β} {l : List α} {ys : List β}
    (h : l.mapM f = some ys) {y : β} (hy : y ∈ ys) : ∃ x ∈ l, f x = some y := by
  obtain ⟨i, hi, rfl⟩ := List.getElem_of_mem hy
  have hall := mapM_eq_some_iff.mp h
  have hlen : i < l.length := hall.length_eq ▸ hi
  exact ⟨l[i], List.getElem_mem hlen, hall.get hlen hi⟩

end CoLib.Lib
