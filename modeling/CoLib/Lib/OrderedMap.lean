/-
# `CoLib.Lib.OrderedMap` — an ordered map as the list of its entries

`std::map` is an ordered set of entries whose comparator reads their keys only.
`operator[]` inserts an entry when no entry has the key, and what is assigned to
it changes an entry but not its key.  The key that stays is the first one that
was inserted: two keys may be equivalent without being equal.

`entryOf key xs k` is the map that a sorted list of entries stands for.  Each
operation is what it does to `entryOf`, and the list is determined by it
(`eq_of_entryOf`).
-/
import CoLib.Lib.OrderedSet

namespace CoLib.Lib.OrderedMap

open OrderedSet

variable {α κ : Type*}

/-- `m[key] = value`: `x` is the new entry for the key and `f` the assignment. -/
def assign (lt : α → α → Bool) (x : α) (f : α → α) (xs : List α) : List α :=
  let (xs, it) := insert lt x xs
  xs.modify it f

/-- `erase(key)`. -/
def erase (lt : α → α → Bool) (x : α) (xs : List α) : List α :=
  match find lt x xs with
  | some it => xs.eraseIdx it
  | none => xs

section Sorted

variable [LinearOrder κ] {key : α → κ} {lt : α → α → Bool} {x y : α} {xs ys l r : List α} {k : κ}
  {f : α → α}

/-- The entry with the key `k`. -/
def entryOf (key : α → κ) (xs : List α) (k : κ) : Option α :=
  xs.find? fun y => key y = k

theorem entryOf_eq_none : entryOf key xs k = none ↔ ∀ y ∈ xs, key y ≠ k := by
  rw [entryOf, List.find?_eq_none]
  simp only [decide_eq_true_eq, ne_eq]

theorem mem_of_entryOf (h : entryOf key xs k = some y) : y ∈ xs :=
  List.mem_of_find?_eq_some h

theorem key_of_entryOf (h : entryOf key xs k = some y) : key y = k := by
  have hfound := List.find?_some (p := fun y => decide (key y = k)) h
  exact of_decide_eq_true hfound

/-- Two entries of a sorted list with one key are one entry. -/
theorem eq_of_key (h : SortedBy key xs) : ∀ a ∈ xs, ∀ b ∈ xs, key a = key b → a = b := by
  have hpairs : xs.Pairwise fun a b => key a = key b → a = b :=
    h.imp fun hlt heq => absurd heq (ne_of_lt hlt)
  have hsymm : Std.Symm fun a b => key a = key b → a = b :=
    ⟨fun a b hab heq => (hab heq.symm).symm⟩
  intro a ha b hb
  exact hpairs.forall_of_forall (fun _ _ _ => rfl) ha hb

theorem entryOf_eq_some (h : SortedBy key xs) : entryOf key xs k = some y ↔ y ∈ xs ∧ key y = k := by
  constructor
  · exact fun hfind => ⟨mem_of_entryOf hfind, key_of_entryOf hfind⟩
  · rintro ⟨hmem, rfl⟩
    obtain ⟨z, hz⟩ : ∃ z, entryOf key xs (key y) = some z :=
      Option.ne_none_iff_exists'.mp fun hnone => entryOf_eq_none.mp hnone y hmem rfl
    rw [hz, eq_of_key h z (mem_of_entryOf hz) y hmem (key_of_entryOf hz)]

/-- The entries of two parts of a list. -/
theorem entryOf_append : entryOf key (l ++ r) k = (entryOf key l k).or (entryOf key r k) := by
  rw [entryOf, List.find?_append]
  rfl

theorem entryOf_cons : entryOf key (y :: r) k = if key y = k then some y else entryOf key r k := by
  rw [entryOf, List.find?_cons]
  by_cases hy : key y = k
  · simp [hy]
  · simp only [hy, decide_false, if_false]
    rfl

/-- A sorted list is determined by its entries. -/
theorem eq_of_entryOf (h : SortedBy key xs) (h' : SortedBy key ys)
    (heq : ∀ k, entryOf key xs k = entryOf key ys k) : xs = ys := by
  have hmem : ∀ y, y ∈ xs ↔ y ∈ ys := by
    intro y
    have hx := entryOf_eq_some (k := key y) (y := y) h
    have hy := entryOf_eq_some (k := key y) (y := y) h'
    rw [heq] at hx
    simpa using hx.symm.trans hy
  refine List.Perm.eq_of_pairwise (fun a b _ _ hab hba => ?_) h h'
    ((List.perm_ext_iff_of_nodup h.nodup h'.nodup).mpr hmem)
  exact absurd hba (not_lt_of_gt hab)

/-! ## Reading -/

/-- `find` and the entry at its position. -/
theorem find_getElem (hlt : ∀ a b, lt a b = true ↔ key a < key b) (h : SortedBy key xs) (x : α) :
    ((find lt x xs).bind fun it => xs[it]?) = entryOf key xs (key x) := by
  cases he : entryOf key xs (key x) with
  | none =>
      rw [find_none hlt h (entryOf_eq_none.mp he)]
      rfl
  | some y =>
      obtain ⟨hmem, hkey⟩ := (entryOf_eq_some h).mp he
      obtain ⟨l, r, rfl, hfind⟩ := find_of_key hlt h hmem hkey
      rw [hfind, Option.bind_some, List.getElem?_append_right le_rfl, Nat.sub_self,
        List.getElem?_cons_zero]

/-! ## Assigning -/

/-- An entry with the key is there: `operator[]` answers its position. -/
theorem insert_of_key (hlt : ∀ a b, lt a b = true ↔ key a < key b) (h : SortedBy key xs)
    (hy : y ∈ xs) (hk : key y = key x) :
    ∃ l r, xs = l ++ y :: r ∧ insert lt x xs = (xs, l.length) := by
  obtain ⟨l, r, hxs, hfind⟩ := find_of_key hlt h hy hk
  refine ⟨l, r, hxs, ?_⟩
  have hit : lowerBound (lt · x) xs = l.length := by
    simp only [find] at hfind
    split at hfind
    · split at hfind
      · cases hfind
      · exact Option.some.inj hfind
    · cases hfind
  have hself : ¬ lt x y = true := fun hxy => (ne_of_gt ((hlt x y).mp hxy)) hk
  have hget : xs[l.length]? = some y := by
    rw [hxs, List.getElem?_append_right le_rfl, Nat.sub_self, List.getElem?_cons_zero]
  simp only [OrderedSet.insert, hit, hget, hself, Bool.false_eq_true, if_false]

/-- What an assignment leaves: the entry for the key, old or new, changed by `f`, at its
place between the smaller and the larger ones. -/
theorem assign_split (hlt : ∀ a b, lt a b = true ↔ key a < key b) (h : SortedBy key xs) (x : α)
    (f : α → α) : ∃ l r mid, (mid = (entryOf key xs (key x)).toList) ∧ xs = l ++ mid ++ r ∧
      assign lt x f xs = l ++ f ((entryOf key xs (key x)).getD x) :: r ∧
      (∀ y ∈ l, key y < key x) ∧ ∀ y ∈ r, key x < key y := by
  have hmodify : ∀ (l r : List α) (z : α), (l ++ z :: r).modify l.length f = l ++ f z :: r := by
    intro l r z
    induction l with
    | nil => rfl
    | cons e l ih => rw [List.cons_append, List.length_cons, List.modify_succ_cons, ih]; rfl
  cases he : entryOf key xs (key x) with
  | none =>
      obtain ⟨l, r, hxs, hins, hsorted⟩ := insert_of_fresh hlt h (entryOf_eq_none.mp he)
      obtain ⟨-, hsr, hlr⟩ := List.pairwise_append.mp hsorted
      refine ⟨l, r, [], rfl, by simp [hxs], ?_, fun y hy => hlr y hy x List.mem_cons_self,
        (List.pairwise_cons.mp hsr).1⟩
      rw [assign, hins]
      exact hmodify l r x
  | some y =>
      obtain ⟨hmem, hkey⟩ := (entryOf_eq_some h).mp he
      obtain ⟨l, r, hxs, hins⟩ := insert_of_key hlt h hmem hkey
      rw [hxs] at h
      obtain ⟨-, hsr, hlr⟩ := List.pairwise_append.mp h
      rw [← hkey]
      refine ⟨l, r, [y], rfl, by simp [hxs], ?_, fun z hz => hlr z hz y List.mem_cons_self,
        (List.pairwise_cons.mp hsr).1⟩
      rw [assign, hins, hxs]
      exact hmodify l r y

/-- What the assignment does to the entry does not change its key. -/
theorem key_assigned (hf : ∀ y, key (f y) = key y) :
    key (f ((entryOf key xs (key x)).getD x)) = key x := by
  rw [hf]
  cases he : entryOf key xs (key x) with
  | none => rfl
  | some y => exact key_of_entryOf he

theorem sortedBy_assign (hlt : ∀ a b, lt a b = true ↔ key a < key b) (h : SortedBy key xs)
    (hf : ∀ y, key (f y) = key y) : SortedBy key (assign lt x f xs) := by
  obtain ⟨l, r, mid, -, hxs, hassign, hl, hr⟩ := assign_split hlt h x f
  have hmid : key (f ((entryOf key xs (key x)).getD x)) = key x := key_assigned hf
  rw [hxs, List.append_assoc] at h
  obtain ⟨hsl, hsr, -⟩ := List.pairwise_append.mp h
  rw [hassign]
  refine List.pairwise_append.mpr ⟨hsl, List.pairwise_cons.mpr ⟨fun y hy => ?_, ?_⟩, ?_⟩
  · rw [hmid]
    exact hr y hy
  · exact (List.pairwise_append.mp hsr).2.1
  · intro a ha b hb
    rcases List.mem_cons.mp hb with rfl | hb
    · rw [hmid]
      exact hl a ha
    · exact (hl a ha).trans (hr b hb)

/-- `m[key] = value` changes the entry of its key and no other. -/
theorem entryOf_assign [DecidableEq κ] (hlt : ∀ a b, lt a b = true ↔ key a < key b)
    (h : SortedBy key xs) (hf : ∀ y, key (f y) = key y) :
    entryOf key (assign lt x f xs) = Function.update (entryOf key xs) (key x)
      (some (f ((entryOf key xs (key x)).getD x))) := by
  obtain ⟨l, r, mid, hmid, hxs, hassign, hl, hr⟩ := assign_split hlt h x f
  have hkey : key (f ((entryOf key xs (key x)).getD x)) = key x := key_assigned hf
  have hnone : entryOf key l (key x) = none :=
    entryOf_eq_none.mpr fun y hy => ne_of_lt (hl y hy)
  funext k
  rcases eq_or_ne k (key x) with rfl | hk
  · rw [Function.update_self, hassign, entryOf_append, hnone, Option.none_or, entryOf_cons,
      if_pos hkey]
  · rw [Function.update_of_ne hk, hassign, entryOf_append, entryOf_cons,
      if_neg fun he => hk (he.symm.trans hkey)]
    have hmidk : entryOf key mid k = none := by
      refine entryOf_eq_none.mpr fun y hy he => hk ?_
      rw [hmid, Option.mem_toList] at hy
      exact he.symm.trans (key_of_entryOf hy)
    conv_rhs => rw [hxs, entryOf_append, entryOf_append, hmidk, Option.or_none]

/-! ## Erasing -/

theorem sortedBy_erase (h : SortedBy key xs) : SortedBy key (erase lt x xs) := by
  rw [erase]
  split
  · exact h.sublist (List.eraseIdx_sublist ..)
  · exact h

/-- `erase` removes the entry of its key and no other. -/
theorem entryOf_erase [DecidableEq κ] (hlt : ∀ a b, lt a b = true ↔ key a < key b)
    (h : SortedBy key xs) :
    entryOf key (erase lt x xs) = Function.update (entryOf key xs) (key x) none := by
  cases he : entryOf key xs (key x) with
  | none =>
      rw [erase, find_none hlt h (entryOf_eq_none.mp he), ← he, Function.update_eq_self]
  | some y =>
      obtain ⟨hmem, hkey⟩ := (entryOf_eq_some h).mp he
      obtain ⟨l, r, hxs, hfind⟩ := find_of_key hlt h hmem hkey
      have herase : erase lt x xs = l ++ r := by
        rw [erase, hfind, hxs]
        simp [List.eraseIdx_append_of_length_le le_rfl]
      have hnone : entryOf key (l ++ r) (key x) = none := by
        rw [hxs] at h
        obtain ⟨-, hsr, hlr⟩ := List.pairwise_append.mp h
        refine entryOf_eq_none.mpr fun z hz => ?_
        rw [← hkey]
        rcases List.mem_append.mp hz with hz | hz
        · exact ne_of_lt (hlr z hz y List.mem_cons_self)
        · exact ne_of_gt ((List.pairwise_cons.mp hsr).1 z hz)
      funext k
      rcases eq_or_ne k (key x) with rfl | hk
      · rw [Function.update_self, herase, hnone]
      · rw [Function.update_of_ne hk, herase]
        have hyk : key y ≠ k := fun hyk => hk (hyk.symm.trans hkey)
        conv_rhs => rw [hxs, entryOf_append, entryOf_cons, if_neg hyk]
        rw [entryOf_append]

end Sorted

end CoLib.Lib.OrderedMap
