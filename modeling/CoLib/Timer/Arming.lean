/-
# `CoLib.Timer.Arming` — when a timer's callback is returned

A timer counts its period from the reading at which it was armed last: by
`addTimer`, by `refresh`, by `reset` from now, or by `listExpiredCb`, which arms
a recurring timer again.  `reset` without `from_now` changes the period and
keeps that reading.  The source stores the sum only, as a `uint64_t`; a run is
extended here with the reading itself.

**Proved here.**  In every run, the callbacks that a call of `listExpiredCb`
returns are not early exactly if no timer due has a sum that wrapped, and no
timer that is not due is taken because the clock seems to have gone back.
-/
import CoLib.Timer.Run

namespace CoLib.TimerManager

open Lib

variable {Cb : Type}

/-- The reading from which a call makes `p` count. -/
def Users.arms (s : Users Cb) : Op Cb → TimerPtr → Option Nat
  | .addTimer _ _ _ now _, p => if p = s.mgr.heap.length then some now else none
  | .refresh q now, p =>
      if p = q ∧ (s.mgr.refresh q now).any (·.2) then some now else none
  | .reset q ms fromNow now, p =>
      if p = q ∧ fromNow ∧ (s.mgr.reset q ms fromNow now).any (·.2.1) then some now else none
  | .listExpiredCb now addr, p =>
      if (s.mgr.listExpiredCb now addr).any (fun r => r.2.any (·.1 == p)) ∧
          s.mgr.heap[p]?.any Timer.recurring then some now
      else none
  | .cancel _, _ | .getNextTimer _, _ | .release _, _ => none

/-- The arguments are of type `uint64_t`. -/
def Op.Words : Op Cb → Prop
  | .addTimer ms _ _ now _ => ms < wordSize ∧ now < wordSize
  | .refresh _ now => now < wordSize
  | .reset _ ms _ now => ms < wordSize ∧ now < wordSize
  | .listExpiredCb now _ => now < wordSize
  | .getNextTimer now => now < wordSize
  | .cancel _ | .release _ => True

instance : (op : Op Cb) → Decidable op.Words
  | .addTimer ms _ _ now _ => inferInstanceAs (Decidable (ms < wordSize ∧ now < wordSize))
  | .refresh _ now => inferInstanceAs (Decidable (now < wordSize))
  | .reset _ ms _ now => inferInstanceAs (Decidable (ms < wordSize ∧ now < wordSize))
  | .listExpiredCb now _ => inferInstanceAs (Decidable (now < wordSize))
  | .getNextTimer now => inferInstanceAs (Decidable (now < wordSize))
  | .cancel _ | .release _ => inferInstanceAs (Decidable True)

/-- A run with the reading at which each timer was armed last. -/
structure Dated (Cb : Type) where
  users : Users Cb
  armedAt : TimerPtr → Nat

namespace Dated

/-- Nothing has happened yet. -/
def init (now : Nat) : Dated Cb :=
  { users := .init now, armedAt := fun _ => 0 }

/-- One call. -/
def step (d : Dated Cb) (op : Op Cb) : Option (Dated Cb) :=
  (d.users.step op).map fun users =>
    { users, armedAt := fun p => (d.users.arms op p).getD (d.armedAt p) }

/-- The calls that can be made. -/
def Legal (d : Dated Cb) (op : Op Cb) : Prop :=
  d.users.Legal op ∧ op.Words

instance (d : Dated Cb) (op : Op Cb) : Decidable (d.Legal op) :=
  inferInstanceAs (Decidable (_ ∧ _))

/-- Every deadline is the sum of the reading and the period. -/
def Counted (d : Dated Cb) : Prop :=
  ∀ p ∈ d.users.mgr.timers, ∀ t, d.users.mgr.heap[p]? = some t →
    d.armedAt p < wordSize ∧ t.next = addWord (d.armedAt p) t.ms

variable {d d' : Dated Cb}

/-! ## One call -/

/-- A call that leaves the members it does not arm as they are keeps the sums,
if the members it arms count from the reading. -/
theorem Counted.of_frame (h : d.Counted) {op : Op Cb} (hstep : d.step op = some d')
    (hkeep : ∀ p ∈ d'.users.mgr.timers, ∀ t, d'.users.mgr.heap[p]? = some t →
      (d.users.arms op p = none → p ∈ d.users.mgr.timers ∧ ∃ t₀, d.users.mgr.heap[p]? = some t₀ ∧
        ∀ start < wordSize, t₀.next = addWord start t₀.ms → t.next = addWord start t.ms) ∧
      ∀ now, d.users.arms op p = some now → now < wordSize ∧ t.next = addWord now t.ms) :
    d'.Counted := by
  obtain ⟨users, -, rfl⟩ := Option.map_eq_some_iff.mp hstep
  intro p hp t ht
  obtain ⟨hold, hnew⟩ := hkeep p hp t ht
  cases harms : d.users.arms op p with
  | none =>
      obtain ⟨hmem, t₀, ht₀, hnext⟩ := hold harms
      obtain ⟨hlt, hsum⟩ := h p hmem t₀ ht₀
      simp only [harms, Option.getD_none]
      exact ⟨hlt, hnext _ hlt hsum⟩
  | some now =>
      simp only [harms, Option.getD_some]
      exact hnew now harms

theorem users_of_step {op : Op Cb} (hstep : d.step op = some d') :
    d.users.step op = some d'.users := by
  obtain ⟨users, husers, rfl⟩ := Option.map_eq_some_iff.mp hstep
  exact husers

/-- A timer whose fields are those it had keeps its sum. -/
theorem sum_of_eq {p : TimerPtr} {t t₀ : Timer Cb} (hp : p ∈ d.users.mgr.timers)
    (ht₀ : d.users.mgr.heap[p]? = some t₀) (heq : t = t₀) :
    p ∈ d.users.mgr.timers ∧ ∃ t₀, d.users.mgr.heap[p]? = some t₀ ∧
      ∀ start < wordSize, t₀.next = addWord start t₀.ms → t.next = addWord start t.ms :=
  ⟨hp, t₀, ht₀, fun _ _ hnext => heq ▸ hnext⟩

theorem Counted.addTimer (h : d.Counted) (hwf : d.users.Wf) {ms : Nat} {cb : Cb}
    {recurring : Bool} {now addr : Nat} (hlegal : d.Legal (.addTimer ms cb recurring now addr))
    (hstep : d.step (.addTimer ms cb recurring now addr) = some d') : d'.Counted := by
  have hfree : ∀ q u, d.users.InUse q → d.users.mgr.heap[q]? = some u → u.addr ≠ addr := by
    intro q u hq hu heq
    exact hlegal.1 q hq (by rw [hu, ← heq]; rfl)
  obtain ⟨l, r, hlr, hadd, -⟩ := addTimer_spec hwf.consistent ms cb recurring now addr hfree
  have husers := users_of_step hstep
  simp only [Users.step, hadd, Option.some.injEq] at husers
  refine h.of_frame hstep ?_
  rw [← husers]
  intro p hp t ht
  by_cases hpl : p = d.users.mgr.heap.length
  · subst hpl
    refine ⟨fun hnone => absurd hnone (by simp [Users.arms]), fun now' hnow' => ?_⟩
    simp only [Users.arms, if_pos, Option.some.injEq] at hnow'
    rw [List.getElem?_concat_length, Option.some.injEq] at ht
    subst hnow' ht
    exact ⟨hlegal.2.2, rfl⟩
  · have hmem : p ∈ d.users.mgr.timers := by
      rw [hlr]
      simp only [List.mem_append, List.mem_cons] at hp ⊢
      tauto
    rw [List.getElem?_append_left (hwf.consistent.valid (.inl hmem))] at ht
    exact ⟨fun _ => sum_of_eq hmem ht rfl, fun now' hnow' => by simp [Users.arms, hpl] at hnow'⟩

theorem Counted.cancel (h : d.Counted) (hwf : d.users.Wf) {p : TimerPtr}
    (hlegal : d.Legal (.cancel p)) (hstep : d.step (.cancel p) = some d') : d'.Counted := by
  obtain ⟨t, ht⟩ := hwf.deref hlegal.1
  have husers := users_of_step hstep
  refine h.of_frame hstep ?_
  cases hcb : t.cb with
  | none =>
      simp only [Users.step, cancel_unarmed ht hcb, Option.bind_eq_bind, Option.bind_some,
        Option.some.injEq] at husers
      rw [← husers]
      exact fun q hq u hu =>
        ⟨fun _ => sum_of_eq hq hu rfl, fun now hnow => by simp [Users.arms] at hnow⟩
  | some cb =>
      have hmem := hwf.mem_of_cb ht hcb
      simp only [Users.step, (cancel_armed hwf.consistent hmem).1, Option.bind_eq_bind,
        Option.bind_some, Option.some.injEq] at husers
      rw [← husers]
      intro q hq u hu
      obtain ⟨hne, hqm⟩ := hwf.consistent.timers_nodup.mem_erase_iff.mp hq
      rw [store_of_ne _ _ hne] at hu
      exact ⟨fun _ => sum_of_eq hqm hu rfl, fun now hnow => by simp [Users.arms] at hnow⟩

theorem Counted.refresh (h : d.Counted) (hwf : d.users.Wf) {p : TimerPtr} {now : Nat}
    (hlegal : d.Legal (.refresh p now)) (hstep : d.step (.refresh p now) = some d') :
    d'.Counted := by
  obtain ⟨t, ht⟩ := hwf.deref hlegal.1
  have husers := users_of_step hstep
  refine h.of_frame hstep ?_
  cases hcb : t.cb with
  | none =>
      have hrefresh := refresh_unarmed ht hcb now
      simp only [Users.step, hrefresh, Option.bind_eq_bind, Option.bind_some,
        Option.some.injEq] at husers
      rw [← husers]
      exact fun q hq u hu => ⟨fun _ => sum_of_eq hq hu rfl,
        fun now' hnow' => by simp [Users.arms, hrefresh] at hnow'⟩
  | some cb =>
      have hmem := hwf.mem_of_cb ht hcb
      obtain ⟨l, r, hlr, hrefresh, -⟩ := refresh_armed hwf.consistent hmem now
      simp only [Users.step, hrefresh, Option.bind_eq_bind, Option.bind_some,
        Option.some.injEq] at husers
      rw [← husers]
      intro q hq u hu
      have hqm := (mem_of_erase_eq hmem hlr q).mp hq
      by_cases hqp : q = p
      · subst hqp
        refine ⟨fun hnone => absurd hnone (by simp [Users.arms, hrefresh]), fun now' hnow' => ?_⟩
        simp only [Users.arms, hrefresh, Option.any_some, and_self, if_true,
          Option.some.injEq] at hnow'
        subst hnow'
        rw [store_self, ht, Option.map_some, Option.some.injEq] at hu
        subst hu
        exact ⟨hlegal.2, rfl⟩
      · rw [store_of_ne _ _ hqp] at hu
        exact ⟨fun _ => sum_of_eq hqm hu rfl,
          fun now' hnow' => by simp [Users.arms, hqp] at hnow'⟩

theorem Counted.reset (h : d.Counted) (hwf : d.users.Wf) {p : TimerPtr} {ms : Nat}
    {fromNow : Bool} {now : Nat} (hlegal : d.Legal (.reset p ms fromNow now))
    (hstep : d.step (.reset p ms fromNow now) = some d') : d'.Counted := by
  obtain ⟨t, ht⟩ := hwf.deref hlegal.1
  have husers := users_of_step hstep
  refine h.of_frame hstep ?_
  by_cases hdiff : ms = t.ms ∧ fromNow = false
  · obtain ⟨rfl, rfl⟩ := hdiff
    simp only [Users.step, reset_same ht, Option.bind_eq_bind, Option.bind_some,
      Option.some.injEq] at husers
    rw [← husers]
    exact fun q hq u hu => ⟨fun _ => sum_of_eq hq hu rfl,
      fun now' hnow' => by simp [Users.arms] at hnow'⟩
  · cases hcb : t.cb with
    | none =>
        have hreset := reset_unarmed ht hcb hdiff now
        simp only [Users.step, hreset, Option.bind_eq_bind, Option.bind_some,
          Option.some.injEq] at husers
        rw [← husers]
        exact fun q hq u hu => ⟨fun _ => sum_of_eq hq hu rfl,
          fun now' hnow' => by simp [Users.arms, hreset] at hnow'⟩
    | some cb =>
        have hmem := hwf.mem_of_cb ht hcb
        obtain ⟨l, r, f, hlr, rfl, hreset, -⟩ := reset_armed hwf.consistent hmem ht hdiff now
        simp only [Users.step, hreset, Option.bind_eq_bind, Option.bind_some,
          Option.some.injEq] at husers
        rw [← husers]
        intro q hq u hu
        have hqm := (mem_of_erase_eq hmem hlr q).mp hq
        by_cases hqp : q = p
        · subst hqp
          rw [store_self, ht, Option.map_some, Option.some.injEq] at hu
          subst hu
          cases fromNow with
          | true =>
              refine ⟨fun hnone => absurd hnone (by simp [Users.arms, hreset]),
                fun now' hnow' => ?_⟩
              simp only [Users.arms, hreset, Option.any_some, and_self, if_true,
                Option.some.injEq] at hnow'
              subst hnow'
              exact ⟨hlegal.2.2, rfl⟩
          | false =>
              -- the old reading is recovered from the deadline, also a wrapped one
              refine ⟨fun _ => ⟨hqm, t, ht, fun start hstart hnext => ?_⟩,
                fun now' hnow' => by simp [Users.arms] at hnow'⟩
              simp only [Bool.false_eq_true, if_false, hnext, subWord_addWord hstart]
        · rw [store_of_ne _ _ hqp] at hu
          exact ⟨fun _ => sum_of_eq hqm hu rfl,
            fun now' hnow' => by simp [Users.arms, hqp] at hnow'⟩

theorem Counted.listExpiredCb (h : d.Counted) (hwf : d.users.Wf) {now addr : Nat}
    (hlegal : d.Legal (.listExpiredCb now addr))
    (hstep : d.step (.listExpiredCb now addr) = some d') : d'.Counted := by
  obtain ⟨m', hlist, -, hheap, htimers, -⟩ :=
    listExpiredCb_expired hwf.consistent.ordered now addr
  have husers := users_of_step hstep
  simp only [Users.step, hlist, Option.bind_eq_bind, Option.bind_some,
    Option.some.injEq] at husers
  refine h.of_frame hstep ?_
  rw [← husers]
  intro p hp t ht
  have hpm := ((htimers p).mp hp).1
  have harms : d.users.arms (.listExpiredCb now addr) p
      = if p ∈ d.users.mgr.expired now ∧ d.users.mgr.heap[p]?.any Timer.recurring then some now
        else none := by
    simp [Users.arms, hlist]
  rw [harms]
  change m'.heap[p]? = some t at ht
  rw [hheap] at ht
  by_cases hpe : p ∈ d.users.mgr.expired now
  · obtain ⟨t₀, ht₀, hrec⟩ := ((htimers p).mp hp).2 hpe
    rw [if_pos hpe, ht₀, Option.map_some, Option.some.injEq, fired, if_pos hrec] at ht
    rw [if_pos ⟨hpe, by rw [ht₀]; exact hrec⟩]
    refine ⟨fun hnone => absurd hnone (by simp), fun now' hnow' => ?_⟩
    obtain rfl := Option.some.inj hnow'
    subst ht
    exact ⟨hlegal.2, rfl⟩
  · rw [if_neg hpe] at ht
    rw [if_neg fun hand => hpe hand.1]
    exact ⟨fun _ => sum_of_eq hpm ht rfl, fun now' hnow' => absurd hnow' (by simp)⟩

/-- Every call keeps the sums. -/
theorem Counted.step (h : d.Counted) (hwf : d.users.Wf) {op : Op Cb} (hlegal : d.Legal op)
    (hstep : d.step op = some d') : d'.Counted := by
  cases op with
  | addTimer ms cb recurring now addr => exact h.addTimer hwf hlegal hstep
  | cancel p => exact h.cancel hwf hlegal hstep
  | refresh p now => exact h.refresh hwf hlegal hstep
  | reset p ms fromNow now => exact h.reset hwf hlegal hstep
  | listExpiredCb now addr => exact h.listExpiredCb hwf hlegal hstep
  | getNextTimer now =>
      obtain ⟨ms, hget⟩ := getNextTimer_spec hwf.consistent now
      have husers := users_of_step hstep
      simp only [Users.step, hget, Option.bind_eq_bind, Option.bind_some,
        Option.some.injEq] at husers
      refine h.of_frame hstep ?_
      rw [← husers]
      exact fun q hq u hu => ⟨fun _ => sum_of_eq hq hu rfl,
        fun now' hnow' => by simp [Users.arms] at hnow'⟩
  | release p =>
      have husers := users_of_step hstep
      simp only [Users.step, Option.some.injEq] at husers
      refine h.of_frame hstep ?_
      rw [← husers]
      exact fun q hq u hu => ⟨fun _ => sum_of_eq hq hu rfl,
        fun now' hnow' => by simp [Users.arms] at hnow'⟩

/-! ## Whole runs -/

theorem reach_counted {now : Nat} (h : Reach step Legal (init now : Dated Cb) d) :
    d.users.History ∧ d.Counted := by
  refine h.invariant (I := fun d => d.users.History ∧ d.Counted)
    ⟨Users.history_init now, fun p hp => absurd hp List.not_mem_nil⟩ ?_
  rintro e op e' ⟨hhist, hcount⟩ hlegal hstep
  obtain ⟨users, evs, husers, heffect⟩ := Users.step_spec hhist.wf hlegal.1
  obtain rfl : e'.users = users := Option.some.inj ((users_of_step hstep).symm.trans husers)
  exact ⟨hhist.step heffect, hcount.step hhist.wf hlegal hstep⟩

/-- **When a callback is early.**  In every run, whatever the clock does: the
callbacks that `listExpiredCb` returns at the reading `now` belong to timers
whose last arming was at least their period ago, exactly if no timer that is
due was armed with a sum that wrapped, and every timer is due when the reading
is taken for a clock that went back. -/
theorem returned_late_iff {start : Nat} (h : Reach step Legal (init start : Dated Cb) d)
    {now addr : Nat} (hnow : now < wordSize) {m' : TimerManager Cb}
    {cbs : List (TimerPtr × Option Cb)}
    (hlist : d.users.mgr.listExpiredCb now addr = some (m', cbs)) :
    (∀ c ∈ cbs, ∀ t, d.users.mgr.heap[c.1]? = some t → d.armedAt c.1 + t.ms ≤ now) ↔
      ∀ p ∈ d.users.mgr.timers, ∀ t, d.users.mgr.heap[p]? = some t →
        (t.next ≤ now → d.armedAt p + t.ms < wordSize) ∧
        ((d.users.mgr.detectClockRollover now).2 = true → t.next ≤ now) := by
  obtain ⟨hhist, hcount⟩ := reach_counted h
  have hord := hhist.wf.consistent.ordered
  obtain ⟨m, hlist', -⟩ := listExpiredCb_expired hord now addr
  obtain rfl : cbs = _ := (Prod.mk.inj (Option.some.inj (hlist.symm.trans hlist'))).2
  simp only [List.forall_mem_map]
  have htaken : ∀ p ∈ d.users.mgr.timers, ∀ t, d.users.mgr.heap[p]? = some t →
      (p ∈ d.users.mgr.expired now ↔
        (d.users.mgr.detectClockRollover now).2 = true ∨ t.next ≤ now) := by
    intro p hp t ht
    rw [expired]
    split
    · exact iff_of_true hp (.inl ‹_›)
    · rw [List.mem_filter, due_iff ht, or_iff_right ‹_›, and_iff_right hp]
  have hsub : ∀ p ∈ d.users.mgr.expired now, p ∈ d.users.mgr.timers := by
    intro p hp
    rw [expired_eq_take hord now] at hp
    exact List.mem_of_mem_take hp
  constructor
  · intro hlate p hp t ht
    refine ⟨fun hdue => ?_, fun hroll => ?_⟩
    · have hle := hlate p ((htaken p hp t ht).mpr (.inr hdue)) t ht
      exact hle.trans_lt hnow
    · have hle := hlate p ((htaken p hp t ht).mpr (.inl hroll)) t ht
      rw [(hcount p hp t ht).2, addWord_of_lt (hle.trans_lt hnow)]
      exact hle
  · intro hcond p hp t ht
    have hmem := hsub p hp
    have hdue : t.next ≤ now :=
      ((htaken p hmem t ht).mp hp).elim (hcond p hmem t ht).2 id
    have hsum := (hcount p hmem t ht).2
    rw [addWord_of_lt ((hcond p hmem t ht).1 hdue)] at hsum
    exact hsum ▸ hdue

/-- A recurring timer is refreshed, expires and is armed again; another timer is
given a longer period. -/
def refreshed : List (Op Unit) :=
  [.addTimer 10 () true 1700000000000 64, .addTimer 20 () false 1700000000001 32,
    .refresh 0 1700000000005, .reset 1 40 false 1700000000006,
    .listExpiredCb 1700000000015 96]

theorem returned_late_iff_refreshed :
    ∃ d, run (guarded step Legal) (init 1700000000000) refreshed = some d ∧
      ∃ m' cbs, d.users.mgr.listExpiredCb 1700000000030 96 = some (m', cbs) ∧
        ∀ c ∈ cbs, ∀ t, d.users.mgr.heap[c.1]? = some t →
          d.armedAt c.1 + t.ms ≤ 1700000000030 := by
  obtain ⟨d, hd⟩ := Option.isSome_iff_exists.mp
    (by decide +kernel : (run (guarded step Legal) (init 1700000000000) refreshed).isSome)
  have hcond : ∀ e ∈ run (guarded step Legal) (init 1700000000000) refreshed,
      (e.users.mgr.listExpiredCb 1700000000030 96).isSome ∧
        ∀ p ∈ e.users.mgr.timers, ∀ t ∈ e.users.mgr.heap[p]?,
          (t.next ≤ 1700000000030 → e.armedAt p + t.ms < wordSize) ∧
          ((e.users.mgr.detectClockRollover 1700000000030).2 = true →
            t.next ≤ 1700000000030) := by decide +kernel
  obtain ⟨hsome, hfit⟩ := hcond d hd
  obtain ⟨⟨m', cbs⟩, hlist⟩ := Option.isSome_iff_exists.mp hsome
  exact ⟨d, hd, m', cbs, hlist,
    (returned_late_iff (run_reach _ hd) (by decide) hlist).mpr hfit⟩

/-- **A timer that fires at once.**  A period of `2^64 - 1` wraps: the deadline
is one millisecond before the reading, and the callback is returned by the next
call, at the same reading. -/
theorem returned_early :
    ∃ d, run (guarded step Legal) (init 1700000000000)
        [.addTimer (2 ^ 64 - 1) () false 1700000000000 64] = some d ∧
      ∃ m' cbs, d.users.mgr.listExpiredCb 1700000000000 96 = some (m', cbs) ∧
        ∃ c ∈ cbs, ∃ t, d.users.mgr.heap[c.1]? = some t ∧
          ¬ d.armedAt c.1 + t.ms ≤ 1700000000000 := by
  refine ⟨_, rfl, _, _, rfl, (0, some ()), ?_, _, rfl, ?_⟩
  · decide
  · decide

end Dated

end CoLib.TimerManager
