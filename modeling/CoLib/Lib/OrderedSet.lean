/-
# `CoLib.Lib.OrderedSet` — an ordered set as the list of its elements

`std::set` keeps its elements in the order of a comparator.  Here such a set is
the list of its elements in iteration order, an iterator is a position in that
list (the length of the list is `end()`), and the operations are the linear
forms of the tree's: they answer as the tree does on a list that is sorted.

The comparator may read a store that changes between two operations, as it does
for a set of pointers ordered by a field of what they point to.  The lemmas
therefore speak of a list that is strictly sorted by the current keys.
-/
import Mathlib

namespace CoLib.Lib.OrderedSet

variable {α κ : Type*}

/-- `lower_bound`: the first position whose element is not before the bound. -/
def lowerBound (before : α → Bool) (xs : List α) : Nat :=
  (xs.takeWhile before).length

/-- `find`: the position of an element equivalent to `x`, `none` for `end()`. -/
def find (lt : α → α → Bool) (x : α) (xs : List α) : Option Nat :=
  let it := lowerBound (lt · x) xs
  match xs[it]? with
  | some y => if lt x y then none else some it
  | none => none

/-- `insert`: the set and the position of `x`, or of the equivalent element that
kept `x` out. -/
def insert (lt : α → α → Bool) (x : α) (xs : List α) : List α × Nat :=
  let it := lowerBound (lt · x) xs
  match xs[it]? with
  | some y => if lt x y then (xs.take it ++ x :: xs.drop it, it) else (xs, it)
  | none => (xs.take it ++ x :: xs.drop it, it)

section Sorted

variable [LinearOrder κ]

/-- The elements are strictly increasing in their keys. -/
def SortedBy (key : α → κ) (xs : List α) : Prop :=
  xs.Pairwise fun a b => key a < key b

variable {key : α → κ} {lt : α → α → Bool} {x : α} {xs : List α}

theorem SortedBy.nodup (h : SortedBy key xs) : xs.Nodup :=
  h.imp fun hlt heq => absurd (heq ▸ hlt) (lt_irrefl _)

theorem SortedBy.sublist {ys : List α} (h : SortedBy key xs) (hs : ys.Sublist xs) :
    SortedBy key ys :=
  List.Pairwise.sublist hs h

theorem SortedBy.congr {key' : α → κ} (h : SortedBy key xs)
    (hk : ∀ y ∈ xs, key' y = key y) : SortedBy key' xs := by
  refine List.Pairwise.imp_of_mem ?_ h
  intro a b ha hb hab
  rw [hk a ha, hk b hb]
  exact hab

/-- `lower_bound` cuts a sorted list in the elements before the bound and the
others. -/
theorem lowerBound_cut {before : α → Bool} {k : κ} (hlt : ∀ y, before y = true ↔ key y < k)
    (h : SortedBy key xs) :
    ∃ l r, xs = l ++ r ∧ lowerBound before xs = l.length ∧ (∀ y ∈ l, key y < k) ∧
      ∀ y ∈ r, k ≤ key y := by
  refine ⟨xs.takeWhile before, xs.dropWhile before, (List.takeWhile_append_dropWhile).symm, rfl,
    fun y hy => (hlt y).mp (List.mem_takeWhile_imp hy), ?_⟩
  intro y hy
  obtain ⟨z, zs, hz⟩ : ∃ z zs, xs.dropWhile before = z :: zs := by
    cases hd : xs.dropWhile before with
    | nil => rw [hd] at hy; exact absurd hy List.not_mem_nil
    | cons z zs => exact ⟨z, zs, rfl⟩
  have hfirst : k ≤ key z := by
    have hnot : ¬ before z = true := by
      have hhead := List.head_dropWhile_not before (l := xs)
        (by rw [hz]; exact List.cons_ne_nil _ _)
      simp only [hz, List.head_cons] at hhead
      rw [hhead]
      exact Bool.false_ne_true
    exact not_lt.mp fun hzk => hnot ((hlt z).mpr hzk)
  have hsorted : SortedBy key (z :: zs) := hz ▸ h.sublist (List.dropWhile_sublist _)
  rw [hz] at hy
  rcases List.mem_cons.mp hy with rfl | hy
  · exact hfirst
  · exact hfirst.trans (List.rel_of_pairwise_cons hsorted hy).le

/-- `find` finds the element with the same key. -/
theorem find_of_key {y : α} (hlt : ∀ a b, lt a b = true ↔ key a < key b) (h : SortedBy key xs)
    (hy : y ∈ xs) (hk : key y = key x) :
    ∃ l r, xs = l ++ y :: r ∧ find lt x xs = some l.length := by
  obtain ⟨l, r, rfl, hit, hl, hr⟩ := lowerBound_cut (fun y => hlt y x) h
  have hyr : y ∈ r :=
    (List.mem_append.mp hy).resolve_left fun hyl => absurd hk (ne_of_lt (hl y hyl))
  obtain ⟨z, zs, rfl⟩ := List.exists_cons_of_ne_nil (List.ne_nil_of_mem hyr)
  have hzy : z = y := by
    rcases List.mem_cons.mp hyr with rfl | hmem
    · rfl
    · have hsorted : SortedBy key (z :: zs) := h.sublist (List.sublist_append_right l _)
      have hlt' : key z < key x := hk ▸ List.rel_of_pairwise_cons hsorted hmem
      exact absurd hlt' (not_lt.mpr (hr z List.mem_cons_self))
  subst hzy
  refine ⟨l, zs, rfl, ?_⟩
  have hself : ¬ lt x z = true := fun hxz => (ne_of_gt ((hlt x z).mp hxz)) hk
  simp [find, hit, hself]

/-- A member of a sorted list is found where it is. -/
theorem find_of_mem (hlt : ∀ a b, lt a b = true ↔ key a < key b) (h : SortedBy key xs)
    (hx : x ∈ xs) : ∃ l r, xs = l ++ x :: r ∧ find lt x xs = some l.length :=
  find_of_key hlt h hx rfl

/-- `find` finds nothing else. -/
theorem find_none (hlt : ∀ a b, lt a b = true ↔ key a < key b) (h : SortedBy key xs)
    (hx : ∀ y ∈ xs, key y ≠ key x) : find lt x xs = none := by
  obtain ⟨l, r, rfl, hit, -, hr⟩ := lowerBound_cut (fun y => hlt y x) h
  cases r with
  | nil =>
      rw [List.append_nil] at hit ⊢
      simp [find, hit]
  | cons y r =>
      have hxy : lt x y = true := (hlt x y).mpr
        (lt_of_le_of_ne (hr y List.mem_cons_self)
          (Ne.symm (hx y (List.mem_append_right _ List.mem_cons_self))))
      simp [find, hit, hxy]

/-- An element whose key is new goes between the smaller and the larger ones. -/
theorem insert_of_fresh (hlt : ∀ a b, lt a b = true ↔ key a < key b) (h : SortedBy key xs)
    (hx : ∀ y ∈ xs, key y ≠ key x) :
    ∃ l r, xs = l ++ r ∧ insert lt x xs = (l ++ x :: r, l.length) ∧
      SortedBy key (l ++ x :: r) := by
  obtain ⟨l, r, rfl, hit, hl, hr⟩ := lowerBound_cut (fun y => hlt y x) h
  have hr' : ∀ y ∈ r, key x < key y := fun y hy =>
    lt_of_le_of_ne (hr y hy) (Ne.symm (hx y (List.mem_append_right _ hy)))
  obtain ⟨hsl, hsr, hlr⟩ := List.pairwise_append.mp h
  refine ⟨l, r, rfl, ?_, List.pairwise_append.mpr ⟨hsl, List.pairwise_cons.mpr ⟨hr', hsr⟩, ?_⟩⟩
  · cases r with
    | nil =>
        rw [List.append_nil] at hit ⊢
        simp [insert, hit]
    | cons y r => simp [insert, hit, (hlt x y).mpr (hr' y List.mem_cons_self)]
  · intro a ha b hb
    rcases List.mem_cons.mp hb with rfl | hb
    · exact hl a ha
    · exact hlr a ha b hb

/-- Inserting keeps the set sorted, whether the key is new or not. -/
theorem sortedBy_insert (hlt : ∀ a b, lt a b = true ↔ key a < key b) (h : SortedBy key xs)
    (x : α) : SortedBy key (insert lt x xs).1 := by
  obtain ⟨l, r, rfl, hit, hl, hr⟩ := lowerBound_cut (fun y => hlt y x) h
  obtain ⟨hsl, hsr, hlr⟩ := List.pairwise_append.mp h
  cases r with
  | nil =>
      rw [List.append_nil] at hit ⊢
      have hins : (insert lt x l).1 = l ++ [x] := by simp [insert, hit]
      rw [hins]
      exact List.pairwise_append.mpr ⟨hsl, List.pairwise_singleton .., by simpa using hl⟩
  | cons y r =>
      simp only [insert, hit, List.getElem?_append_right le_rfl, Nat.sub_self,
        List.getElem?_cons_zero]
      split
      · rename_i hxy
        rw [List.take_left, List.drop_left]
        have hxy := (hlt x y).mp hxy
        refine List.pairwise_append.mpr ⟨hsl, List.pairwise_cons.mpr ⟨?_, hsr⟩, ?_⟩
        · intro z hz
          rcases List.mem_cons.mp hz with rfl | hz
          · exact hxy
          · exact hxy.trans (List.rel_of_pairwise_cons hsr hz)
        · intro a ha b hb
          rcases List.mem_cons.mp hb with rfl | hb
          · exact hl a ha
          · exact hlr a ha b hb
      · exact h

/-- The elements of a sorted list, inserted one after another, make that list. -/
theorem foldl_insert (hlt : ∀ a b, lt a b = true ↔ key a < key b) : ∀ (ys xs : List α),
    SortedBy key (xs ++ ys) → ys.foldl (fun xs y => (insert lt y xs).1) xs = xs ++ ys
  | [], xs, _ => (List.append_nil xs).symm
  | y :: ys, xs, h => by
      have hbelow : ∀ x ∈ xs, key x < key y := fun x hx =>
        (List.pairwise_append.mp h).2.2 x hx y List.mem_cons_self
      have hall : lowerBound (lt · y) xs = xs.length := by
        rw [lowerBound, List.takeWhile_eq_self_iff.mpr fun x hx => (hlt x y).mpr (hbelow x hx)]
      have hins : (insert lt y xs).1 = xs ++ [y] := by
        simp [insert, hall]
      rw [List.foldl_cons, hins, foldl_insert hlt ys, List.append_assoc]
      · rfl
      · rw [List.append_assoc]
        exact h

end Sorted

end CoLib.Lib.OrderedSet
