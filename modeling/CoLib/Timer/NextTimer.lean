/-
# `CoLib.Timer.NextTimer` — `getNextTimer` against `listExpiredCb`

`getNextTimer` compares a reading with the deadline of the first timer of the
set; `listExpiredCb` cuts the set at `lower_bound` of a probe timer.  The idle
loop sleeps for what the first returns and then runs what the second takes.

**Proved here.**  On a sorted set the two agree at every boundary: 0 is returned
exactly when a callback would be taken at the same reading, and a delay of an
armed set is the first one after which a callback is taken.  The value for an
empty set is also the delay of a timer due at the largest word, read at 0.
-/
import CoLib.Timer.Deadline
import CoLib.Timer.Wake

namespace CoLib.TimerManager

open Lib Sleepers

variable {Cb : Type} {m : TimerManager Cb} {p : TimerPtr}

/-- `listExpiredCb` at the reading `now` returns at least one callback. -/
def takesSome (m : TimerManager Cb) (now addr : Nat) : Option Bool :=
  (m.listExpiredCb now addr).map fun r => !r.2.isEmpty

theorem front_cons {ps : List TimerPtr} {t : Timer Cb} (hts : m.timers = p :: ps)
    (ht : m.heap[p]? = some t) : front m = some t.next := by
  rw [front, hts, List.head?_cons, Option.bind_some, ht, Option.map_some]

/-! ## The clock -/

/-- A clock that has not gone back at a reading has not gone back at a later
one. -/
theorem detectClockRollover_mono {now later : Nat} (hle : now ≤ later)
    (h : (m.detectClockRollover now).2 = false) : (m.detectClockRollover later).2 = false := by
  rw [detectClockRollover, decide_eq_false_iff_not] at h ⊢
  intro hback
  exact h ⟨Nat.lt_of_le_of_lt hle hback.1, Nat.lt_of_le_of_lt hle hback.2⟩

/-! ## The two searches -/

/-- A timer is taken exactly when the first of the set is due. -/
theorem takesSome_cons (h : Ordered m []) {ps : List TimerPtr} {t : Timer Cb}
    (hts : m.timers = p :: ps) (ht : m.heap[p]? = some t) {now : Nat}
    (hroll : (m.detectClockRollover now).2 = false) (addr : Nat) :
    m.takesSome now addr = some (decide (t.next ≤ now)) := by
  obtain ⟨m', hlist, -⟩ := listExpiredCb_expired h now addr
  rw [takesSome, hlist, Option.map_some]
  show some (!((m.expired now).map _).isEmpty) = _
  rw [List.isEmpty_map, expired, if_neg (by rw [hroll]; exact Bool.false_ne_true)]
  by_cases hdue : t.next ≤ now
  · have hpdue : m.due now p = true := (due_iff ht now).mpr hdue
    rw [hts, List.filter_cons_of_pos hpdue, decide_eq_true hdue]
    rfl
  · -- the deadlines do not decrease, so no timer behind the first is due
    have hnone : m.timers.filter (m.due now) = [] := by
      rw [List.filter_eq_nil_iff]
      intro q hq
      obtain ⟨u, hu⟩ := h.deref q (.inl hq)
      rw [due_iff hu]
      have hsorted := hts ▸ h.deadlines
      rcases List.mem_cons.mp (hts ▸ hq) with rfl | hq
      · obtain rfl := Option.some.inj (ht.symm.trans hu)
        exact hdue
      · have hle := (List.pairwise_cons.mp hsorted).1 q hq t u ht hu
        intro hu
        exact hdue (Nat.le_trans hle hu)
    rw [hnone, decide_eq_false hdue]
    rfl

theorem takesSome_nil (hts : m.timers = []) (now addr : Nat) :
    m.takesSome now addr = some false := by
  rw [takesSome, listExpiredCb, hts]
  rfl

/-- `getNextTimer` of a set that is not empty. -/
theorem getNextTimer_cons {ps : List TimerPtr} {t : Timer Cb} (hts : m.timers = p :: ps)
    (ht : m.heap[p]? = some t) (hword : t.next < wordSize) (now : Nat) :
    m.getNextTimer now = some ({ m with tickled := false }, t.next - now) := by
  simp only [getNextTimer, hts, Option.bind_eq_bind, ht, Option.bind_some]
  by_cases hdue : now ≥ t.next
  · rw [if_pos hdue, Nat.sub_eq_zero_of_le hdue]
  · rw [if_neg hdue, subWord_of_le hword (by omega)]

/-- **`getNextTimer` and `listExpiredCb` agree.**  At a reading at which the clock
has not gone back, `getNextTimer` returns 0 exactly if `listExpiredCb` at the
same reading returns a callback.  Otherwise it returns, for a set that is not
empty, the delay before which `listExpiredCb` returns nothing and after which
it returns a callback.  It returns `~0ull` exactly for an empty set, and at the
reading 0 for a set whose first timer is due at `~0ull`. -/
theorem getNextTimer_agrees (h : Ordered m []) (hwords : m.Words) {now : Nat}
    (hroll : (m.detectClockRollover now).2 = false) :
    ∃ d, m.getNextTimer now = some ({ m with tickled := false }, d) ∧
      (d = wordSize - 1 ↔ m.timers = [] ∨ now = 0 ∧ front m = some (wordSize - 1)) ∧
      (∀ addr, ∃ b, m.takesSome now addr = some b ∧ (d = 0 ↔ b = true)) ∧
      (m.timers ≠ [] → 0 < d → ∀ addr,
        (∀ later, now ≤ later → later < now + d → m.takesSome later addr = some false) ∧
        m.takesSome (now + d) addr = some true) := by
  by_cases hts : m.timers = []
  · refine ⟨wordSize - 1, ?_, ?_, ?_, ?_⟩
    · simp only [getNextTimer, hts]
    · exact iff_of_true rfl (.inl hts)
    · intro addr
      exact ⟨false, takesSome_nil hts now addr, by decide⟩
    · intro hne
      exact absurd hts hne
  · obtain ⟨p, ps, hcons⟩ := List.exists_cons_of_ne_nil hts
    obtain ⟨t, ht⟩ := h.deref p (.inl (hcons ▸ List.mem_cons_self))
    have hword : t.next < wordSize := hwords t (List.mem_of_getElem? ht)
    refine ⟨t.next - now, getNextTimer_cons hcons ht hword now, ?_, ?_, ?_⟩
    · rw [front_cons hcons ht, Option.some.injEq]
      constructor
      · intro hd
        refine .inr ?_
        simp only [wordSize] at hd hword ⊢
        omega
      · rintro (hnil | ⟨rfl, hlast⟩)
        · exact absurd hnil hts
        · rw [hlast, Nat.sub_zero]
    · intro addr
      refine ⟨_, takesSome_cons h hcons ht hroll addr, ?_⟩
      rw [decide_eq_true_eq]
      exact Nat.sub_eq_zero_iff_le
    · intro _ hd addr
      constructor
      · intro later hle hlt
        rw [takesSome_cons h hcons ht (detectClockRollover_mono hle hroll) addr]
        exact congrArg some (decide_eq_false (by omega))
      · have hlater : (m.detectClockRollover (now + (t.next - now))).2 = false :=
          detectClockRollover_mono (Nat.le_add_right _ _) hroll
        rw [takesSome_cons h hcons ht hlater addr]
        exact congrArg some (decide_eq_true (by omega))

theorem getNextTimer_agrees_tied : ∃ d,
    tied.getNextTimer 3999999 = some ({ tied with tickled := false }, d) ∧
      0 < d ∧ ∀ addr, tied.takesSome (3999999 + d) addr = some true := by
  have hwords : tied.Words := by
    intro t ht
    have hnext : ∀ t ∈ tied.heap, t.next < wordSize := by decide
    exact hnext t ht
  have hroll : (tied.detectClockRollover 3999999).2 = false := by decide
  obtain ⟨d, hget, -, hzero, hdelay⟩ := getNextTimer_agrees ordered_tied hwords hroll
  have hd : 0 < d := by
    obtain ⟨b, hb, hiff⟩ := hzero 25
    have hfalse : b = false := Option.some.inj (hb.symm.trans (by decide))
    exact Nat.pos_of_ne_zero fun h0 => absurd (hfalse ▸ hiff.mp h0) Bool.false_ne_true
  exact ⟨d, hget, hd, fun addr => (hdelay (by decide) hd addr).2⟩

/-- A timer added at the reading 0 with the largest period. -/
def dueLast : TimerManager Unit :=
  ((create 0).addTimer 18446744073709551615 () false 0 10).1

/-- Read at 0, the delay of a set that is not empty is the value that stands
for an empty one. -/
theorem getNextTimer_dueLast : (dueLast.detectClockRollover 0).2 = false ∧
    dueLast.hasTimer = true ∧
    dueLast.getNextTimer 0 = some ({ dueLast with tickled := false }, wordSize - 1) := by
  have hfirst : dueLast.heap[0]? = some ⟨false, 18446744073709551615, wordSize - 1, some (), 10⟩ :=
    rfl
  have hlast : wordSize - 1 < wordSize := by decide
  exact ⟨by decide, by decide, getNextTimer_cons rfl hfirst hlast 0⟩

end CoLib.TimerManager
