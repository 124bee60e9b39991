/-
# `CoLib.Lib.LastWrite` — what a history of writes leaves

A history is a list of calls, oldest first.  Some calls write to a key: they
store a value there or clear it.  `LastWrite writes calls i k v` says that call
`i` stored `v` at `k` and no later call wrote to `k`; the value a table should
hold at `k` is the one of the last write.

`InWriteOrder writes calls t` says that the table `t` has exactly the values that are
still stored, in the order of the calls that stored them.
-/
import Mathlib

namespace CoLib.Lib

variable {α κ β : Type*}

/-- Call `i` stored `v` at `k`, and no later call wrote to `k`. -/
def LastWrite (writes : α → Option (κ × Option β)) (calls : List α) (i : Nat) (k : κ) (v : β) :
    Prop :=
  (∃ c, calls[i]? = some c ∧ writes c = some (k, some v)) ∧
    ∀ j c w, i < j → calls[j]? = some c → writes c ≠ some (k, w)

variable {writes : α → Option (κ × Option β)} {calls : List α} {i j : Nat} {k : κ} {v w : β}

theorem LastWrite.lt (h : LastWrite writes calls i k v) : i < calls.length := by
  obtain ⟨⟨c, hc, -⟩, -⟩ := h
  exact (List.getElem?_eq_some_iff.mp hc).1

theorem not_lastWrite_nil : ¬ LastWrite writes [] i k v :=
  fun h => absurd h.lt (Nat.not_lt_zero i)

/-- A key has one last write. -/
theorem LastWrite.unique (h : LastWrite writes calls i k v) (h' : LastWrite writes calls j k w) :
    i = j ∧ v = w := by
  obtain ⟨⟨c, hc, hv⟩, hlast⟩ := h
  obtain ⟨⟨d, hd, hw⟩, hlast'⟩ := h'
  have hij : i = j := by
    rcases Nat.lt_trichotomy i j with hlt | heq | hgt
    · exact absurd hw (hlast j d _ hlt hd)
    · exact heq
    · exact absurd hv (hlast' i c _ hgt hc)
  subst hij
  obtain rfl := Option.some.inj (hc.symm.trans hd)
  rw [hv, Option.some.injEq, Prod.mk.injEq, Option.some.injEq] at hw
  exact ⟨rfl, hw.2⟩

/-- One more call stores at `k`, or leaves what was stored there if it does not
write to `k`. -/
theorem lastWrite_concat (c : α) : LastWrite writes (calls ++ [c]) i k v ↔
    (i = calls.length ∧ writes c = some (k, some v)) ∨
      LastWrite writes calls i k v ∧ ∀ w, writes c ≠ some (k, w) := by
  constructor
  · rintro ⟨⟨d, hd, hv⟩, hlast⟩
    rcases Nat.lt_trichotomy i calls.length with hlt | heq | hgt
    · refine .inr ⟨⟨⟨d, ?_, hv⟩, ?_⟩, fun w => hlast calls.length c w hlt (by simp)⟩
      · rwa [List.getElem?_append_left hlt] at hd
      · intro j e w hij he
        have hj := (List.getElem?_eq_some_iff.mp he).1
        exact hlast j e w hij (by rwa [List.getElem?_append_left hj])
    · subst heq
      rw [List.getElem?_concat_length, Option.some.injEq] at hd
      exact .inl ⟨rfl, hd ▸ hv⟩
    · rw [List.getElem?_eq_none (by rw [List.length_append, List.length_singleton]; omega)] at hd
      cases hd
  · rintro (⟨rfl, hv⟩ | ⟨h, hother⟩)
    · refine ⟨⟨c, List.getElem?_concat_length .., hv⟩, ?_⟩
      intro j d w hij hd
      rw [List.getElem?_eq_none (by rw [List.length_append, List.length_singleton]; omega)] at hd
      cases hd
    · have hi := h.lt
      obtain ⟨⟨d, hd, hv⟩, hlast⟩ := h
      refine ⟨⟨d, by rwa [List.getElem?_append_left hi], hv⟩, ?_⟩
      intro j e w hij he
      rcases Nat.lt_or_ge j calls.length with hj | hj
      · rw [List.getElem?_append_left hj] at he
        exact hlast j e w hij he
      · have hjeq : j = calls.length := by
          have := (List.getElem?_eq_some_iff.mp he).1
          rw [List.length_append, List.length_singleton] at this
          omega
        rw [hjeq, List.getElem?_concat_length, Option.some.injEq] at he
        exact he ▸ hother w

/-! ## Tables in the order of the writes -/

/-- The table has the values that are still stored, in the order of the calls
that stored them; `t` is the table with these calls' positions. -/
structure InWriteOrder (writes : α → Option (κ × Option β)) (calls : List α)
    (t : List (Nat × κ × β)) : Prop where
  sorted : t.Pairwise fun a b => a.1 < b.1
  mem_iff : ∀ i k v, (i, k, v) ∈ t ↔ LastWrite writes calls i k v

namespace InWriteOrder

variable {t : List (Nat × κ × β)}

theorem nil : InWriteOrder writes [] [] where
  sorted := List.Pairwise.nil
  mem_iff := fun _ _ _ => iff_of_false List.not_mem_nil not_lastWrite_nil

/-- The keys are different. -/
theorem keys_nodup (h : InWriteOrder writes calls t) : (t.map fun e => e.2.1).Nodup := by
  rw [List.nodup_map_iff_inj_on]
  · rintro ⟨i, k, v⟩ hi ⟨j, l, w⟩ hj heq
    obtain rfl : k = l := heq
    obtain ⟨rfl, rfl⟩ := ((h.mem_iff i k v).mp hi).unique ((h.mem_iff j k w).mp hj)
    rfl
  · exact h.sorted.imp fun hlt heq => absurd (heq ▸ hlt) (Nat.lt_irrefl _)

theorem lt_length (h : InWriteOrder writes calls t) {e : Nat × κ × β} (he : e ∈ t) :
    e.1 < calls.length :=
  ((h.mem_iff e.1 e.2.1 e.2.2).mp he).lt

/-- A call that does not write leaves the table. -/
theorem skip (h : InWriteOrder writes calls t) {c : α} (hc : writes c = none) :
    InWriteOrder writes (calls ++ [c]) t where
  sorted := h.sorted
  mem_iff := fun i k v => by
    rw [h.mem_iff, lastWrite_concat, hc]
    simp

/-- A call that clears a key takes its entry out. -/
theorem clear [DecidableEq κ] (h : InWriteOrder writes calls t) {c : α}
    (hc : writes c = some (k, none)) :
    InWriteOrder writes (calls ++ [c]) (t.filter fun e => e.2.1 ≠ k) where
  sorted := h.sorted.filter _
  mem_iff := fun i l v => by
    rw [List.mem_filter, h.mem_iff, lastWrite_concat, hc, decide_eq_true_eq]
    constructor
    · rintro ⟨hl, hne⟩
      exact .inr ⟨hl, fun w heq => hne (congrArg Prod.fst (Option.some.inj heq)).symm⟩
    · rintro (⟨-, heq⟩ | ⟨hl, hne⟩)
      · cases heq
      · exact ⟨hl, fun (heq : l = k) => hne none (by rw [heq])⟩

/-- A call that stores at a key takes its entry out and puts a new one at the
end. -/
theorem store [DecidableEq κ] (h : InWriteOrder writes calls t) {c : α}
    (hc : writes c = some (k, some v)) :
    InWriteOrder writes (calls ++ [c])
      ((t.filter fun e => e.2.1 ≠ k) ++ [(calls.length, k, v)]) where
  sorted := by
    refine List.pairwise_append.mpr ⟨h.sorted.filter _, List.pairwise_singleton .., ?_⟩
    intro a ha b hb
    rw [List.mem_singleton.mp hb]
    exact h.lt_length (List.mem_of_mem_filter ha)
  mem_iff := fun i l w => by
    rw [List.mem_append, List.mem_filter, h.mem_iff, lastWrite_concat, hc, List.mem_singleton]
    simp only [Prod.mk.injEq, Option.some.injEq, ne_eq, decide_eq_true_eq, not_and]
    constructor
    · rintro (⟨hl, hne⟩ | ⟨rfl, rfl, rfl⟩)
      · exact .inr ⟨hl, fun _ heq => absurd heq.symm hne⟩
      · exact .inl ⟨rfl, rfl, rfl⟩
    · rintro (⟨rfl, rfl, rfl⟩ | ⟨hl, hne⟩)
      · exact .inr ⟨rfl, rfl, rfl⟩
      · exact .inl ⟨hl, fun heq => hne (some v) heq.symm rfl⟩

/-- The first entry that a test accepts is the one of the first such write. -/
theorem find?_eq (h : InWriteOrder writes calls t) {p : κ → Bool}
    (hi : LastWrite writes calls i k v) (hp : p k = true)
    (hfirst : ∀ j l w, j < i → LastWrite writes calls j l w → p l = false) :
    t.find? (fun e => p e.2.1) = some (i, k, v) := by
  obtain ⟨l, r, rfl⟩ := List.append_of_mem ((h.mem_iff i k v).mpr hi)
  refine List.find?_eq_some_iff_append.mpr ⟨hp, l, r, rfl, ?_⟩
  rintro ⟨j, l', w⟩ hmem
  have hlt := (List.pairwise_append.mp h.sorted).2.2 _ hmem _ List.mem_cons_self
  have hj := (h.mem_iff j l' w).mp (List.mem_append_left _ hmem)
  rw [hfirst j l' w hlt hj]
  rfl

theorem find?_none (h : InWriteOrder writes calls t) {p : κ → Bool}
    (hnone : ∀ i k v, LastWrite writes calls i k v → p k = false) :
    t.find? (fun e => p e.2.1) = none := by
  refine List.find?_eq_none.mpr ?_
  rintro ⟨i, k, v⟩ hmem
  rw [hnone i k v ((h.mem_iff i k v).mp hmem)]
  exact Bool.false_ne_true

end InWriteOrder

/-- Erasing the first entry of a key erases the only one. -/
theorem eraseP_eq_filter [DecidableEq κ] [BEq κ] [LawfulBEq κ] {t : List (κ × β)}
    (h : (t.map Prod.fst).Nodup) (k : κ) :
    t.eraseP (fun e => e.1 == k) = t.filter fun e => e.1 ≠ k := by
  induction t with
  | nil => rfl
  | cons e t ih =>
      rw [List.map_cons, List.nodup_cons] at h
      by_cases he : e.1 = k
      · rw [List.eraseP_cons_of_pos (by simpa using he),
          List.filter_cons_of_neg (by simpa using he)]
        refine (List.filter_eq_self.mpr fun d hd => ?_).symm
        have hne : d.1 ≠ k := fun heq =>
          h.1 (List.mem_map.mpr ⟨d, hd, heq.trans he.symm⟩)
        simpa using hne
      · rw [List.eraseP_cons_of_neg (by simpa using he),
          List.filter_cons_of_pos (by simpa using he),
          ih h.2]

end CoLib.Lib
