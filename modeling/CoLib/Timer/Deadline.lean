/-
# `CoLib.Timer.Deadline` — deadlines are words

Every `m_next` is computed in `uint64_t`, so `getNextTimer` returns `~0ull` for an
armed timer only when the clock reads 0.  And only `addTimer` adds to an empty set.
Neither needs the timers to be consistent.
-/
import CoLib.Timer.Basic

namespace CoLib

open Lib

namespace TimerManager

variable {Cb : Type} {m m' : TimerManager Cb} {p : TimerPtr}

/-- The deadline of every timer is a word. -/
def Words (m : TimerManager Cb) : Prop :=
  ∀ t ∈ m.heap, t.next < wordSize

theorem addWord_lt (a b : Nat) : addWord a b < wordSize :=
  Nat.mod_lt _ (by decide)

theorem Words.store (h : m.Words) {f : Timer Cb → Timer Cb}
    (hf : ∀ t, t.next < wordSize → (f t).next < wordSize) : (m.store p f).Words := by
  intro t ht
  obtain ⟨i, hi⟩ := List.mem_iff_getElem?.mp ht
  rw [TimerManager.store, List.getElem?_modify] at hi
  obtain ⟨u, hu, rfl⟩ := Option.map_eq_some_iff.mp hi
  have hmem := h u (List.mem_of_getElem? hu)
  split
  · exact hf u hmem
  · exact hmem

theorem addTimerLocked_heap (m : TimerManager Cb) (p : TimerPtr) :
    (m.addTimerLocked p).1.heap = m.heap := by
  unfold addTimerLocked
  dsimp only
  split <;> rfl

theorem words_addTimer (h : m.Words) (ms : Nat) (cb : Cb) (recurring : Bool) (now addr : Nat) :
    (m.addTimer ms cb recurring now addr).1.Words := by
  intro t ht
  have ht : t ∈ (addTimerLocked { m with heap := m.heap ++ [Timer.new ms cb recurring now addr] }
    m.heap.length).1.heap := ht
  rw [addTimerLocked_heap] at ht
  rcases List.mem_append.mp ht with ht | ht
  · exact h t ht
  · rw [List.mem_singleton.mp ht]
    exact addWord_lt _ _

/-! ## The other operations -/

/-- An empty set stays empty, and deadlines stay words. -/
structure Keeps (m m' : TimerManager Cb) : Prop where
  words : m.Words → m'.Words
  nil : m.timers = [] → m'.timers = []

theorem Keeps.refl (m : TimerManager Cb) : Keeps m m :=
  ⟨id, id⟩

/-- Nothing is found in an empty set. -/
theorem find_nil (h : m.timers = []) : m.find p = none := by
  rw [find, h]
  rfl

theorem keeps_cancel {b : Bool} (h : m.cancel p = some (m', b)) : Keeps m m' := by
  obtain ⟨t, -, h⟩ := Option.bind_eq_some_iff.mp h
  split at h
  · obtain ⟨it, hfind, h⟩ := Option.bind_eq_some_iff.mp h
    cases h
    refine ⟨fun hw => hw.store fun _ ht => ht, fun hnil => ?_⟩
    rw [find_nil (m := m.store p _) hnil] at hfind
    cases hfind
  · cases h
    exact .refl m

theorem keeps_refresh {b : Bool} {now : Nat} (h : m.refresh p now = some (m', b)) :
    Keeps m m' := by
  obtain ⟨t, -, h⟩ := Option.bind_eq_some_iff.mp h
  split at h
  · cases h
    exact .refl m
  · split at h
    · cases h
      exact .refl m
    · rename_i it hfind
      cases h
      refine ⟨fun hw => Words.store hw fun _ _ => addWord_lt _ _, fun hnil => ?_⟩
      rw [find_nil hnil] at hfind
      cases hfind

theorem keeps_reset {ms now : Nat} {fromNow b atFront : Bool}
    (h : m.reset p ms fromNow now = some (m', b, atFront)) : Keeps m m' := by
  obtain ⟨t, -, h⟩ := Option.bind_eq_some_iff.mp h
  split at h
  · cases h
    exact .refl m
  · split at h
    · cases h
      exact .refl m
    · split at h
      · cases h
        exact .refl m
      · rename_i it hfind
        refine ⟨fun hw => ?_, fun hnil => ?_⟩
        · have hm : (addTimerLocked ((m.erase it).store p fun u => { u with
              ms, next := addWord (if fromNow then now else subWord t.next t.ms) ms }) p).1 = m' :=
            congrArg Prod.fst (Option.some.inj h)
          intro u hu
          rw [← hm, addTimerLocked_heap] at hu
          exact Words.store (m := m.erase it) hw (fun _ _ => addWord_lt _ _) u hu
        · rw [find_nil hnil] at hfind
          cases hfind

theorem keeps_getNextTimer {now timeout : Nat} (h : m.getNextTimer now = some (m', timeout)) :
    Keeps m m' := by
  unfold getNextTimer at h
  dsimp only at h
  split at h
  · cases h
    exact ⟨id, id⟩
  · obtain ⟨t, -, h⟩ := Option.bind_eq_some_iff.mp h
    split at h <;> (cases h; exact ⟨id, id⟩)

/-- The loop over the timers taken. -/
theorem words_takeCbs {now : Nat} {expired : List TimerPtr} {cbs : List (TimerPtr × Option Cb)}
    (hw : m.Words) (h : takeCbs now m expired = some (m', cbs)) : m'.Words := by
  induction expired generalizing m cbs with
  | nil =>
      cases h
      exact hw
  | cons p expired ih =>
      obtain ⟨t, -, h⟩ := Option.bind_eq_some_iff.mp h
      obtain ⟨⟨m₁, cbs₁⟩, h₁, h⟩ := Option.bind_eq_some_iff.mp h
      cases h
      refine ih ?_ h₁
      split
      · exact hw.store fun _ _ => addWord_lt _ _
      · exact hw.store fun _ ht => ht

theorem keeps_listExpiredCb {now addr : Nat} {cbs : List (TimerPtr × Option Cb)}
    (h : m.listExpiredCb now addr = some (m', cbs)) : Keeps m m' := by
  unfold listExpiredCb at h
  split at h
  · cases h
    exact .refl m
  · rename_i p ps hts
    obtain ⟨first, -, h⟩ := Option.bind_eq_some_iff.mp h
    refine ⟨fun hw => ?_, fun hnil => by rw [hts] at hnil; cases hnil⟩
    split at h
    · cases h
      exact hw
    · exact words_takeCbs (m := { m with previousTime := now, timers := _ }) hw h

/-- `~0ull` is returned for an empty set. -/
theorem nil_of_getNextTimer {now : Nat} (hw : m.Words) (hnow : 0 < now)
    (h : m.getNextTimer now = some (m', wordSize - 1)) : m.timers = [] := by
  unfold getNextTimer at h
  dsimp only at h
  split at h
  · assumption
  · obtain ⟨t, ht, h⟩ := Option.bind_eq_some_iff.mp h
    have hlt := hw t (List.mem_of_getElem? ht)
    split at h
    · exact absurd (Prod.mk.inj (Option.some.inj h)).2 (by decide)
    · rename_i hdue
      have hsub := (Prod.mk.inj (Option.some.inj h)).2
      rw [subWord_of_le hlt (by omega)] at hsub
      omega

end TimerManager

end CoLib
