/-
# `CoLib.Timer.Wake` — threads, the clock, and the wake-up that is owed

`getNextTimer` tells a thread how long it may sleep, and clears `m_tickled`.  A
timer inserted in front of all others afterwards has to wake the sleeper: the
inserting thread sets `m_tickled`, releases the lock and calls
`onTimerInsertedAtFront`; while the flag is set nobody calls it again.  `refresh`
and the re-arming in `listExpiredCb` insert without looking.

A thread is in a phase wherever it holds something between two steps: a reading
of the clock that it has made before it takes the lock, or the call it owes.  The
clock never goes back.

**Proved here.**  `refresh` moves a deadline forward only when it wraps, and
re-arming only when it wraps or when `listExpiredCb` takes an old reading for a
change of the system time; `calm` says that neither happens.  `wakeup_not_lost`:
in runs that meet it, whenever the earliest deadline is before the one last seen
by `getNextTimer`, `onTimerInsertedAtFront` has been called since, or a thread is
about to.  `wakeup_lost_delayedReading` is a run that does not.
-/
import CoLib.Timer.Run

namespace CoLib.TimerManager

open Lib

variable {Cb T : Type}

/-! ## The locked part of `reset` -/

/-- `Timer::reset(ms, from_now)` from the lock on. -/
def resetLocked (m : TimerManager Cb) (p : TimerPtr) (ms : Nat) (fromNow : Bool) (now : Nat) :
    Option (TimerManager Cb × Bool × Bool) := do
  let t ← m.heap[p]?
  if t.cb.isNone then some (m, false, false)
  else
    match m.find p with
    | none => some (m, false, false)
    | some it =>
        let m := m.erase it
        let start := if fromNow then now else subWord t.next t.ms
        let m := m.store p fun t => { t with ms, next := addWord start ms }
        let (m, atFront) := m.addTimerLocked p
        some (m, true, atFront)

/-- `reset` is the test made before the lock, then the locked part. -/
theorem reset_eq (m : TimerManager Cb) (p : TimerPtr) (ms : Nat) (fromNow : Bool) (now : Nat) :
    m.reset p ms fromNow now =
      (m.heap[p]?).bind fun t =>
        if ms = t.ms ∧ fromNow = false then some (m, true, false)
        else m.resetLocked p ms fromNow now := by
  cases ht : m.heap[p]? with
  | none => simp [reset, ht]
  | some t =>
      rw [reset, resetLocked, ht]
      rfl

/-! ## Threads -/

/-- What a thread holds between two steps. -/
inductive TimerPhase (Cb : Type) where
  /-- Nothing. -/
  | outside
  /-- In `addTimer`, with the timer constructed at the reading `now`. -/
  | constructed (ms : Nat) (cb : Cb) (recurring : Bool) (now : Nat)
  /-- In `reset`, past the test. -/
  | resetting (p : TimerPtr) (ms : Nat) (fromNow : Bool)
  /-- In `listExpiredCb`, with the reading `now`. -/
  | read (now : Nat)
  /-- In `listExpiredCb`, past the first look at the set. -/
  | looked (now : Nat)
  /-- Past the lock in `addTimer(val, lock)`, about to call
  `onTimerInsertedAtFront`. -/
  | owing
deriving DecidableEq

/-- The reading with which a thread is about to take the write lock. -/
def TimerPhase.reading : TimerPhase Cb → Option Nat
  | .looked now => some now
  | _ => none

/-- A manager, its users, the clock, the threads; the earliest deadline seen by
the last `getNextTimer`, `none` for infinity; and whether
`onTimerInsertedAtFront` has been called since. -/
structure Sleepers (Cb T : Type) where
  users : Users Cb
  clock : Nat
  phase : T → TimerPhase Cb
  seen : Option Nat
  notified : Bool

/-- A step of a thread, or of the clock. -/
inductive WakeAct (Cb T : Type) where
  | tick (d : Nat)
  | addTimer (t : T) (ms : Nat) (cb : Cb) (recurring : Bool)
  | insert (t : T) (addr : Nat)
  | notify (t : T)
  | cancel (p : TimerPtr)
  | refresh (p : TimerPtr)
  | reset (t : T) (p : TimerPtr) (ms : Nat) (fromNow : Bool)
  | resetLocked (t : T)
  | listExpiredCb (t : T)
  | look (t : T)
  | expire (t : T) (addr : Nat)
  | getNextTimer
  | release (p : TimerPtr)

namespace Sleepers

/-- A new manager. -/
def init (now : Nat) : Sleepers Cb T :=
  { users := .init now, clock := now, phase := fun _ => .outside, seen := none, notified := false }

variable [DecidableEq T]

/-- Thread `t` is in phase `ph` next. -/
def goto (s : Sleepers Cb T) (t : T) (ph : TimerPhase Cb) : Sleepers Cb T :=
  { s with phase := Function.update s.phase t ph }

/-- After `addTimer(val, lock)` a thread owes a call, or is done. -/
def afterInsert (atFront : Bool) : TimerPhase Cb :=
  if atFront then .owing else .outside

/-- A call made in one step. -/
def callNow (s : Sleepers Cb T) (op : Op Cb) : Option (Sleepers Cb T) :=
  if s.users.Legal op then (s.users.step op).map fun users => { s with users } else none

/-- The deadline of the first timer. -/
def front (m : TimerManager Cb) : Option Nat :=
  m.timers.head?.bind fun p => m.heap[p]?.map Timer.next

/-- One step; `none` when the thread is not there, or the call cannot be made. -/
def step (s : Sleepers Cb T) : WakeAct Cb T → Option (Sleepers Cb T)
  | .tick d => if s.clock + d < wordSize then some { s with clock := s.clock + d } else none
  | .addTimer t ms cb recurring =>
      match s.phase t with
      | .outside => some (s.goto t (.constructed ms cb recurring s.clock))
      | _ => none
  | .insert t addr =>
      match s.phase t with
      | .constructed ms cb recurring now =>
          (s.callNow (.addTimer ms cb recurring now addr)).map fun s' =>
            s'.goto t (afterInsert (s.users.mgr.addTimer ms cb recurring now addr).2.2)
      | _ => none
  | .notify t =>
      match s.phase t with
      | .owing => some ({ s with notified := true }.goto t .outside)
      | _ => none
  | .cancel p => s.callNow (.cancel p)
  | .refresh p => s.callNow (.refresh p s.clock)
  | .reset t p ms fromNow =>
      match s.phase t, s.users.mgr.heap[p]? with
      | .outside, some timer =>
          if p ∈ s.users.held then
            if ms = timer.ms ∧ fromNow = false then some s
            else some (s.goto t (.resetting p ms fromNow))
          else none
      | _, _ => none
  | .resetLocked t =>
      match s.phase t with
      | .resetting p ms fromNow =>
          if p ∈ s.users.held then
            (s.users.mgr.resetLocked p ms fromNow s.clock).map fun r =>
              { s with users := { s.users with mgr := r.1 } }.goto t (afterInsert r.2.2)
          else none
      | _ => none
  | .listExpiredCb t =>
      match s.phase t with
      | .outside => some (s.goto t (.read s.clock))
      | _ => none
  | .look t =>
      match s.phase t with
      | .read now => some (s.goto t (if s.users.mgr.hasTimer then .looked now else .outside))
      | _ => none
  | .expire t addr =>
      match s.phase t with
      | .looked now =>
          (s.callNow (.listExpiredCb now addr)).map fun s' => s'.goto t .outside
      | _ => none
  | .getNextTimer =>
      (s.callNow (.getNextTimer s.clock)).map fun s' =>
        { s' with seen := front s.users.mgr, notified := false }
  | .release p => s.callNow (.release p)

/-- The condition on a step.  `refresh`: the deadline does not wrap, unless the old
one has wrapped, too.  `listExpiredCb`: no recurring timer that is due, or is taken because the
reading looks like a change of the system time, has a deadline that is later than
one period after the reading. -/
def calm (s : Sleepers Cb T) : WakeAct Cb T → Prop
  | .refresh p => ∀ t ∈ s.users.mgr.heap[p]?, t.cb.isSome = true →
      subWord t.next t.ms ≤ t.next → s.clock ≤ addWord s.clock t.ms
  | .expire t _ => ∀ now ∈ (s.phase t).reading,
      ∀ p ∈ s.users.mgr.timers, ∀ t ∈ s.users.mgr.heap[p]?, t.recurring = true →
        ((s.users.mgr.detectClockRollover now).2 = true ∨ t.next ≤ now) →
          t.next ≤ addWord now t.ms
  | _ => True

instance (s : Sleepers Cb T) : (act : WakeAct Cb T) → Decidable (s.calm act)
  | .refresh p => inferInstanceAs (Decidable (∀ t ∈ s.users.mgr.heap[p]?, t.cb.isSome = true →
      subWord t.next t.ms ≤ t.next → s.clock ≤ addWord s.clock t.ms))
  | .expire t _ => inferInstanceAs (Decidable (∀ now ∈ (s.phase t).reading,
      ∀ p ∈ s.users.mgr.timers, ∀ t ∈ s.users.mgr.heap[p]?, t.recurring = true →
        ((s.users.mgr.detectClockRollover now).2 = true ∨ t.next ≤ now) →
          t.next ≤ addWord now t.ms))
  | .tick _ | .addTimer .. | .insert .. | .notify _ | .cancel _ | .reset .. | .resetLocked _
  | .listExpiredCb _ | .look _ | .getNextTimer | .release _ => inferInstanceAs (Decidable True)

/-! ## Deadlines -/

/-- The deadline is not before the one seen. -/
def Late : Option Nat → Nat → Prop
  | none, _ => False
  | some d, next => d ≤ next

theorem Late.trans {seen : Option Nat} {n n' : Nat} (h : Late seen n) (hle : n ≤ n') :
    Late seen n' := by
  cases seen with
  | none => exact h
  | some d => exact le_trans h hle

/-- The timer counts from a time that has been. -/
def Started (clock : Nat) (t : Timer Cb) : Prop :=
  ∃ start ≤ clock, start < wordSize ∧ t.next = addWord start t.ms

theorem Started.mono {clock clock' : Nat} {t : Timer Cb} (h : Started clock t)
    (hle : clock ≤ clock') : Started clock' t := by
  obtain ⟨start, hstart, hrest⟩ := h
  exact ⟨start, hstart.trans hle, hrest⟩

/-- Counting again from now moves a deadline forward only if it wraps. -/
theorem Started.next_le {clock : Nat} {t : Timer Cb} (h : Started clock t)
    (hclock : clock < wordSize) (hfit : subWord t.next t.ms ≤ t.next → clock ≤ addWord clock t.ms) :
    t.next ≤ addWord clock t.ms := by
  obtain ⟨start, hle, hlt, hnext⟩ := h
  rw [hnext, subWord_addWord hlt] at hfit
  rw [hnext]
  simp only [addWord, wordSize] at hfit hclock ⊢
  omega

/-- What holds of a manager between two steps. -/
structure Watched (m : TimerManager Cb) (clock : Nat) (seen : Option Nat) : Prop where
  started : ∀ p ∈ m.timers, ∀ t, m.heap[p]? = some t → Started clock t
  late : m.tickled = false → ∀ p ∈ m.timers, ∀ t, m.heap[p]? = some t → Late seen t.next

variable {m m' : TimerManager Cb} {clock : Nat} {seen : Option Nat} {p : TimerPtr}

theorem Watched.mono {clock' : Nat} (h : Watched m clock seen) (hle : clock ≤ clock') :
    Watched m clock' seen :=
  ⟨fun p hp t ht => (h.started p hp t ht).mono hle, h.late⟩

/-- The members of a sorted set come in the order of their deadlines. -/
theorem next_le_of_key_lt {q : TimerPtr} {t u : Timer Cb} (h : m.key p < m.key q)
    (ht : m.heap[p]? = some t) (hu : m.heap[q]? = some u) : t.next ≤ u.next := by
  rw [key, key, ht, hu, Timer.key_lt_iff] at h
  exact h.elim Nat.le_of_lt fun heq => heq.1.le

/-- `addTimer(val, lock)`: a timer that becomes the first sets the flag, and one
that does not is after the first. -/
theorem Watched.insert {l r : List TimerPtr} {t : Timer Cb} (h : Watched m clock seen)
    (hsorted : OrderedSet.SortedBy m'.key m'.timers) (htimers : m'.timers = l ++ p :: r)
    (htick : m'.tickled = (m.tickled || l.isEmpty)) (ht : m'.heap[p]? = some t)
    (hstart : Started clock t)
    (hold : ∀ q ∈ l ++ r, q ∈ m.timers ∧ m'.heap[q]? = m.heap[q]?)
    (hvalid : ∀ q ∈ m.timers, ∃ t, m.heap[q]? = some t) : Watched m' clock seen := by
  have hcases : ∀ q ∈ m'.timers, q = p ∨ q ∈ l ++ r := by
    intro q hq
    rw [htimers] at hq
    simp only [List.mem_append, List.mem_cons] at hq ⊢
    tauto
  constructor
  · intro q hq u hu
    rcases hcases q hq with rfl | hq
    · obtain rfl := Option.some.inj (ht.symm.trans hu)
      exact hstart
    · exact h.started q (hold q hq).1 u ((hold q hq).2 ▸ hu)
  · intro hfalse q hq u hu
    rw [htick, Bool.or_eq_false_iff] at hfalse
    have hlate : ∀ q ∈ l ++ r, ∀ u, m'.heap[q]? = some u → Late seen u.next :=
      fun q hq u hu => h.late hfalse.1 q (hold q hq).1 u ((hold q hq).2 ▸ hu)
    rcases hcases q hq with rfl | hq
    · obtain ⟨first, l', rfl⟩ := List.exists_cons_of_ne_nil
        (by simpa using hfalse.2 : l ≠ [])
      have hmem : first ∈ first :: l' ++ r := by simp
      obtain ⟨v, hv⟩ := hvalid first (hold first hmem).1
      rw [← (hold first hmem).2] at hv
      have hlt : m'.key first < m'.key q := by
        rw [htimers] at hsorted
        exact List.rel_of_pairwise_cons hsorted (by simp)
      exact (hlate first hmem v hv).trans (next_le_of_key_lt hlt hv hu)
    · exact hlate q hq u hu

/-- Deadlines that move back, and a flag that stays, keep the manager watched. -/
theorem Watched.later (h : Watched m clock seen) (htick : m'.tickled = m.tickled)
    (hback : ∀ p ∈ m'.timers, ∀ t', m'.heap[p]? = some t' → Started clock t' ∧
      ∃ t, p ∈ m.timers ∧ m.heap[p]? = some t ∧ t.next ≤ t'.next) : Watched m' clock seen := by
  constructor
  · exact fun p hp t' ht' => (hback p hp t' ht').1
  · intro hfalse p hp t' ht'
    obtain ⟨-, t, hmem, ht, hle⟩ := hback p hp t' ht'
    exact (h.late (htick ▸ hfalse) p hmem t ht).trans hle

/-! ## The operations -/

variable {L : TimerPtr → Prop}

theorem valid (hc : Consistent m [] L) : ∀ q ∈ m.timers, ∃ t, m.heap[q]? = some t := by
  intro q hq
  obtain ⟨t, ht, -⟩ := (hc.armed q).mpr (.inl hq)
  exact ⟨t, ht⟩

theorem cb_none (hc : Consistent m [] L) (hp : p ∉ m.timers) {t : Timer Cb}
    (ht : m.heap[p]? = some t) : t.cb = none := by
  cases hcb : t.cb with
  | none => rfl
  | some cb =>
      exact absurd (((hc.armed p).mp ⟨t, ht, by simp [hcb]⟩).resolve_right List.not_mem_nil) hp

theorem watched_addTimer (hc : Consistent m [] L) (h : Watched m clock seen)
    (hclock : clock < wordSize) {now : Nat} (hnow : now ≤ clock) (ms : Nat) (cb : Cb)
    (recurring : Bool) (addr : Nat) (haddr : ∀ q u, L q → m.heap[q]? = some u → u.addr ≠ addr) :
    Watched (m.addTimer ms cb recurring now addr).1 clock seen ∧
      (m.addTimer ms cb recurring now addr).1.tickled
        = (m.tickled || (m.addTimer ms cb recurring now addr).2.2) := by
  obtain ⟨l, r, hlr, hadd, hcons⟩ := addTimer_spec hc ms cb recurring now addr haddr
  rw [hadd] at hcons ⊢
  refine ⟨h.insert hcons.sorted rfl rfl (t := Timer.new ms cb recurring now addr) (by simp)
    ⟨now, hnow, by omega, rfl⟩ ?_ (valid hc), ?_⟩
  · intro q hq
    rw [← hlr] at hq
    exact ⟨hq, List.getElem?_append_left (hc.valid (.inl hq))⟩
  · cases m.tickled <;> simp

theorem watched_cancel (hc : Consistent m [] L) (h : Watched m clock seen) {b : Bool}
    (hrun : m.cancel p = some (m', b)) :
    Watched m' clock seen ∧ m'.tickled = m.tickled := by
  by_cases hp : p ∈ m.timers
  · obtain ⟨heq, -⟩ := cancel_armed hc hp
    rw [heq] at hrun
    obtain ⟨rfl, -⟩ := Prod.mk.inj (Option.some.inj hrun)
    refine ⟨h.later rfl fun q hq t' ht' => ?_, rfl⟩
    have hne : q ≠ p := by
      rintro rfl
      exact hc.timers_nodup.not_mem_erase hq
    have ht : m.heap[q]? = some t' := (store_of_ne m _ hne).symm.trans ht'
    have hmem := List.mem_of_mem_erase hq
    exact ⟨h.started q hmem t' ht, t', hmem, ht, le_rfl⟩
  · obtain ⟨t, ht, -⟩ := Option.bind_eq_some_iff.mp hrun
    rw [cancel_unarmed ht (cb_none hc hp ht)] at hrun
    obtain ⟨rfl, -⟩ := Prod.mk.inj (Option.some.inj hrun)
    exact ⟨h, rfl⟩

theorem watched_refresh (hc : Consistent m [] L) (h : Watched m clock seen)
    (hclock : clock < wordSize)
    (hfit : ∀ t ∈ m.heap[p]?, t.cb.isSome = true →
      subWord t.next t.ms ≤ t.next → clock ≤ addWord clock t.ms) {b : Bool}
    (hrun : m.refresh p clock = some (m', b)) :
    Watched m' clock seen ∧ m'.tickled = m.tickled := by
  by_cases hp : p ∈ m.timers
  · obtain ⟨l, r, hlr, heq, -⟩ := refresh_armed hc hp clock
    rw [heq] at hrun
    obtain ⟨rfl, -⟩ := Prod.mk.inj (Option.some.inj hrun)
    refine ⟨h.later rfl fun q hq t' ht' => ?_, rfl⟩
    have hmem : q ∈ m.timers := (mem_of_erase_eq hp hlr q).mp hq
    obtain ⟨t, ht, hs⟩ := (hc.armed q).mpr (.inl hmem)
    by_cases hne : q = p
    · subst hne
      have ht' : (m.store q fun t => { t with next := addWord clock t.ms }).heap[q]? =
          some t' := ht'
      rw [store_self, ht] at ht'
      obtain rfl := Option.some.inj ht'
      exact ⟨⟨clock, le_rfl, hclock, rfl⟩, t, hmem, ht,
        (h.started q hmem t ht).next_le hclock (hfit t ht hs)⟩
    · have ht' : m.heap[q]? = some t' := (store_of_ne m _ hne).symm.trans ht'
      exact ⟨h.started q hmem t' ht', t', hmem, ht', le_rfl⟩
  · obtain ⟨t, ht, -⟩ := Option.bind_eq_some_iff.mp hrun
    rw [refresh_unarmed ht (cb_none hc hp ht)] at hrun
    obtain ⟨rfl, -⟩ := Prod.mk.inj (Option.some.inj hrun)
    exact ⟨h, rfl⟩

/-- The locked part of `reset`: the timer counts from now or from where it did,
and is inserted as a new one is. -/
theorem watched_resetLocked (hc : Consistent m [] L) (h : Watched m clock seen)
    (hclock : clock < wordSize) {ms : Nat} {fromNow b atFront : Bool}
    (hrun : m.resetLocked p ms fromNow clock = some (m', b, atFront)) :
    Watched m' clock seen ∧ m'.tickled = (m.tickled || atFront) ∧ Consistent m' [] L ∧
      m'.heap.length = m.heap.length ∧
      (∀ q : TimerPtr, m'.heap[q]?.map Timer.recurring = m.heap[q]?.map Timer.recurring) ∧
      ∀ q, q ∈ m'.timers ↔ q ∈ m.timers := by
  obtain ⟨t, ht, hrun⟩ := Option.bind_eq_some_iff.mp hrun
  by_cases hp : p ∈ m.timers
  · obtain ⟨u, hu, hs⟩ := (hc.armed p).mpr (.inl hp)
    obtain rfl : t = u := Option.some.inj (ht.symm.trans hu)
    obtain ⟨it, l, r, hfind, hlr, hins, hin⟩ :=
      hc.rekey (f := fun u => { u with
        ms := ms, next := addWord (if fromNow then clock else subWord t.next t.ms) ms }) hp
        (fun _ => rfl) (fun _ => rfl)
    have hsome : ¬ t.cb.isNone = true := by simp [Option.ne_none_iff_isSome.mpr hs]
    rw [if_neg hsome, hfind] at hrun
    dsimp only at hrun
    rw [addTimerLocked_eq hins] at hrun
    obtain ⟨rfl, -, rfl⟩ := by simpa only [Prod.mk.injEq] using Option.some.inj hrun
    have hstart : Started clock { t with
        ms := ms, next := addWord (if fromNow then clock else subWord t.next t.ms) ms } := by
      cases fromNow with
      | true => exact ⟨clock, le_rfl, hclock, rfl⟩
      | false =>
          obtain ⟨start, hle, hlt, hnext⟩ := h.started p hp t ht
          have hback : subWord t.next t.ms = start := by rw [hnext, subWord_addWord hlt]
          exact ⟨start, hle, hlt, by simp [hback]⟩
    refine ⟨h.insert hin.sorted rfl rfl ?_ hstart ?_ (valid hc), ?_,
      ⟨hin.armed, hin.sorted, hin.nodup, hin.apart, hin.live, hin.addr⟩, length_store .., ?_, ?_⟩
    · exact (store_self m p _).trans (by rw [ht]; rfl)
    · intro q hq
      rw [← hlr] at hq
      have hne : q ≠ p := by
        rintro rfl
        exact hc.timers_nodup.not_mem_erase hq
      exact ⟨List.mem_of_mem_erase hq, store_of_ne m _ hne⟩
    · show (m.tickled || l.isEmpty) = (m.tickled || (l.isEmpty && !m.tickled))
      cases m.tickled <;> simp
    · exact fun q => Users.map_recurring_store m p q fun _ => rfl
    · exact mem_of_erase_eq hp hlr
  · rw [cb_none hc hp ht] at hrun
    obtain ⟨rfl, -, rfl⟩ := by simpa only [Prod.mk.injEq] using Option.some.inj hrun
    exact ⟨h, by simp, hc, rfl, fun _ => rfl, fun _ => .rfl⟩

theorem watched_listExpiredCb (hc : Consistent m [] L) (h : Watched m clock seen)
    (hclock : clock < wordSize) {now addr : Nat} (hnow : now ≤ clock)
    (hcalm : ∀ p ∈ m.timers, ∀ t ∈ m.heap[p]?, t.recurring = true →
      ((m.detectClockRollover now).2 = true ∨ t.next ≤ now) → t.next ≤ addWord now t.ms)
    {cbs : List (TimerPtr × Option Cb)} (hrun : m.listExpiredCb now addr = some (m', cbs)) :
    Watched m' clock seen ∧ m'.tickled = m.tickled := by
  obtain ⟨m₁, it, heq, -, hheap, htimers, htick, hdue⟩ := listExpiredCb_spec hc now addr
  rw [heq] at hrun
  obtain ⟨rfl, -⟩ := Prod.mk.inj (Option.some.inj hrun)
  refine ⟨h.later htick fun q hq t' ht' => ?_, htick⟩
  obtain ⟨hmem, htaken⟩ := (htimers q).mp hq
  rw [hheap] at ht'
  split at ht'
  · rename_i hin
    obtain ⟨t, ht, hrec⟩ := htaken hin
    rw [ht] at ht'
    obtain rfl := Option.some.inj ht'
    have hback : t.next ≤ addWord now t.ms := by
      refine hcalm q hmem t ht hrec ?_
      cases hroll : (m.detectClockRollover now).2 with
      | true => exact .inl rfl
      | false => exact .inr (hdue hroll q hin t ht)
    simp only [fired, hrec, if_true]
    exact ⟨⟨now, hnow, hnow.trans_lt hclock, rfl⟩, t, hmem, ht, hback⟩
  · exact ⟨h.started q hmem t' ht', t', hmem, ht', le_rfl⟩

/-- What `getNextTimer` sees is before nothing in the set. -/
theorem watched_getNextTimer (hc : Consistent m [] L) (h : Watched m clock seen) :
    Watched { m with tickled := false } clock (front m) := by
  refine ⟨h.started, fun _ q hq t ht => ?_⟩
  have hq : q ∈ m.timers := hq
  have ht : m.heap[q]? = some t := ht
  obtain ⟨p, ps, hps⟩ := List.exists_cons_of_ne_nil (List.ne_nil_of_mem hq)
  obtain ⟨u, hu⟩ := valid hc p (hps ▸ List.mem_cons_self)
  have hfront : front m = some u.next := by simp [front, hps, hu]
  rw [hfront]
  rw [hps] at hq
  rcases List.mem_cons.mp hq with rfl | hq
  · obtain rfl := Option.some.inj (hu.symm.trans ht)
    exact le_rfl
  · have hsorted := hc.sorted
    rw [hps] at hsorted
    exact next_le_of_key_lt (List.rel_of_pairwise_cons hsorted hq) hu ht

/-! ## Whole runs -/

/-- The reading a thread holds has been. -/
def PhaseOk (clock : Nat) : TimerPhase Cb → Prop
  | .constructed _ _ _ now => now ≤ clock
  | .read now => now ≤ clock
  | .looked now => now ≤ clock
  | _ => True

theorem PhaseOk.mono {clock clock' : Nat} {ph : TimerPhase Cb} (h : PhaseOk clock ph)
    (hle : clock ≤ clock') : PhaseOk clock' ph := by
  cases ph with
  | constructed _ _ _ now => exact le_trans h hle
  | read now => exact le_trans h hle
  | looked now => exact le_trans h hle
  | _ => trivial

/-- Between two steps: as long as the flag is clear no deadline is before the one
seen, and when it is set the call has been made or is owed. -/
structure Awake (s : Sleepers Cb T) : Prop where
  wf : s.users.Wf
  clock : s.clock < wordSize
  watched : Watched s.users.mgr s.clock s.seen
  phases : ∀ t, PhaseOk s.clock (s.phase t)
  owed : s.users.mgr.tickled = true → s.notified = true ∨ ∃ t, s.phase t = .owing

variable {s s' : Sleepers Cb T}

omit [DecidableEq T] in
theorem awake_init {now : Nat} (h : now < wordSize) : (init now : Sleepers Cb T).Awake where
  wf := (Users.history_init now).wf
  clock := h
  watched := ⟨fun _ hp => absurd hp List.not_mem_nil, fun _ _ hp => absurd hp List.not_mem_nil⟩
  phases := fun _ => trivial
  owed := fun h => absurd h Bool.false_ne_true

omit [DecidableEq T] in
theorem callNow_eq {op : Op Cb} (h : s.callNow op = some s') :
    s.users.Legal op ∧ ∃ u, s.users.step op = some u ∧ s' = { s with users := u } := by
  rw [callNow] at h
  split at h
  · rename_i hlegal
    obtain ⟨u, hu, rfl⟩ := Option.map_eq_some_iff.mp h
    exact ⟨hlegal, u, hu, rfl⟩
  · exact absurd h (by simp)

omit [DecidableEq T] in
/-- A call that leaves the flag alone. -/
theorem Awake.call (h : s.Awake) {op : Op Cb} {u : Users Cb} (hlegal : s.users.Legal op)
    (hu : s.users.step op = some u)
    (hmgr : Watched u.mgr s.clock s.seen ∧ u.mgr.tickled = s.users.mgr.tickled) :
    ({ s with users := u } : Sleepers Cb T).Awake where
  wf := by
    obtain ⟨v, evs, hv, he⟩ := Users.step_spec h.wf hlegal
    obtain rfl := Option.some.inj (hu.symm.trans hv)
    exact he.wf
  clock := h.clock
  watched := hmgr.1
  phases := h.phases
  owed := fun htick => h.owed (hmgr.2 ▸ htick)

/-- A thread that does not owe the call changes its phase. -/
theorem Awake.goto (h : s.Awake) {t : T} (ht : s.phase t ≠ .owing) {ph : TimerPhase Cb}
    (hph : PhaseOk s.clock ph) : (s.goto t ph).Awake where
  wf := h.wf
  clock := h.clock
  watched := h.watched
  phases := by
    intro t'
    rcases eq_or_ne t' t with rfl | hne
    · simpa only [Sleepers.goto, Function.update_self] using hph
    · simpa only [Sleepers.goto, Function.update_of_ne hne] using h.phases t'
  owed := by
    intro htick
    refine (h.owed htick).imp_right ?_
    rintro ⟨t', ht'⟩
    have hne : t' ≠ t := by
      rintro rfl
      exact ht ht'
    exact ⟨t', by simp only [Sleepers.goto, Function.update_of_ne hne, ht']⟩

/-- A timer is inserted: the thread owes the call if it has set the flag. -/
theorem Awake.insert (h : s.Awake) {t : T} (ht : s.phase t ≠ .owing) {u : Users Cb} (hu : u.Wf)
    (hw : Watched u.mgr s.clock s.seen) {atFront : Bool}
    (htick : u.mgr.tickled = (s.users.mgr.tickled || atFront)) :
    (({ s with users := u } : Sleepers Cb T).goto t (afterInsert atFront)).Awake := by
  cases atFront with
  | false =>
      have h' : ({ s with users := u } : Sleepers Cb T).Awake :=
        ⟨hu, h.clock, hw, h.phases, fun htrue => h.owed (by simpa [htick] using htrue)⟩
      exact h'.goto ht trivial
  | true =>
      refine ⟨hu, h.clock, hw, ?_, fun _ => .inr ⟨t, ?_⟩⟩
      · intro t'
        rcases eq_or_ne t' t with rfl | hne
        · simp only [Sleepers.goto, Function.update_self]
          trivial
        · simpa only [Sleepers.goto, Function.update_of_ne hne] using h.phases t'
      · simp only [Sleepers.goto, Function.update_self]
        rfl

/-- Every calm step keeps the sleepers awake. -/
theorem Awake.step (h : s.Awake) {act : WakeAct Cb T} (hcalm : s.calm act)
    (hstep : s.step act = some s') : s'.Awake := by
  have hc := h.wf.consistent
  cases act with
  | tick d =>
      simp only [Sleepers.step] at hstep
      split at hstep
      · rename_i hlt
        obtain rfl := Option.some.inj hstep
        have hle : s.clock ≤ s.clock + d := Nat.le_add_right ..
        exact ⟨h.wf, hlt, h.watched.mono hle, fun t => (h.phases t).mono hle, h.owed⟩
      · exact absurd hstep (by simp)
  | addTimer t ms cb recurring =>
      simp only [Sleepers.step] at hstep
      split at hstep
      · rename_i hph
        obtain rfl := Option.some.inj hstep
        exact h.goto (by simp [hph]) le_rfl
      · exact absurd hstep (by simp)
  | insert t addr =>
      simp only [Sleepers.step] at hstep
      split at hstep
      · rename_i ms cb recurring now hph
        obtain ⟨s₁, hs₁, rfl⟩ := Option.map_eq_some_iff.mp hstep
        obtain ⟨hlegal, u, hu, rfl⟩ := callNow_eq hs₁
        obtain ⟨v, evs, hv, he⟩ := Users.step_spec h.wf hlegal
        obtain rfl := Option.some.inj (hu.symm.trans hv)
        have hnow : now ≤ s.clock := by simpa only [hph, PhaseOk] using h.phases t
        have hfree : ∀ q w, s.users.InUse q → s.users.mgr.heap[q]? = some w → w.addr ≠ addr := by
          intro q w hq hw heq
          exact hlegal q hq (by rw [hw, ← heq]; rfl)
        obtain ⟨hw, htick⟩ := watched_addTimer hc h.watched h.clock hnow ms cb recurring addr hfree
        obtain rfl := Option.some.inj hu
        exact h.insert (by simp [hph]) he.wf hw htick
      · exact absurd hstep (by simp)
  | notify t =>
      simp only [Sleepers.step] at hstep
      split at hstep
      · obtain rfl := Option.some.inj hstep
        refine ⟨h.wf, h.clock, h.watched, fun t' => ?_, fun _ => .inl rfl⟩
        rcases eq_or_ne t' t with rfl | hne
        · simp only [Sleepers.goto, Function.update_self]
          trivial
        · simpa only [Sleepers.goto, Function.update_of_ne hne] using h.phases t'
      · exact absurd hstep (by simp)
  | cancel p =>
      obtain ⟨hlegal, u, hu, rfl⟩ := callNow_eq hstep
      refine h.call hlegal hu ?_
      obtain ⟨⟨m', b⟩, hm, hu⟩ := Option.bind_eq_some_iff.mp hu
      obtain rfl := Option.some.inj hu
      exact watched_cancel hc h.watched hm
  | refresh p =>
      obtain ⟨hlegal, u, hu, rfl⟩ := callNow_eq hstep
      refine h.call hlegal hu ?_
      obtain ⟨⟨m', b⟩, hm, hu⟩ := Option.bind_eq_some_iff.mp hu
      obtain rfl := Option.some.inj hu
      exact watched_refresh hc h.watched h.clock hcalm hm
  | reset t p ms fromNow =>
      simp only [Sleepers.step] at hstep
      split at hstep
      · rename_i hph _
        split at hstep
        · split at hstep
          · exact Option.some.inj hstep ▸ h
          · obtain rfl := Option.some.inj hstep
            exact h.goto (by simp [hph]) trivial
        · exact absurd hstep (by simp)
      · exact absurd hstep (by simp)
  | resetLocked t =>
      simp only [Sleepers.step] at hstep
      split at hstep
      · rename_i p ms fromNow hph
        split at hstep
        · obtain ⟨⟨m', b, atFront⟩, hm, rfl⟩ := Option.map_eq_some_iff.mp hstep
          obtain ⟨hw, htick, hcons, hlen, hrec, hmem⟩ :=
            watched_resetLocked hc h.watched h.clock hm
          have he : Users.Effect s.users [] { s.users with mgr := m' } :=
            .quiet h.wf.held hcons (fun _ hq => hq) hlen hrec hmem
          exact h.insert (by simp [hph]) he.wf hw htick
        · exact absurd hstep (by simp)
      · exact absurd hstep (by simp)
  | listExpiredCb t =>
      simp only [Sleepers.step] at hstep
      split at hstep
      · rename_i hph
        obtain rfl := Option.some.inj hstep
        exact h.goto (by simp [hph]) le_rfl
      · exact absurd hstep (by simp)
  | look t =>
      simp only [Sleepers.step] at hstep
      split at hstep
      · rename_i now hph
        obtain rfl := Option.some.inj hstep
        have hnow : now ≤ s.clock := by simpa only [hph, PhaseOk] using h.phases t
        refine h.goto (by simp [hph]) ?_
        split
        · exact hnow
        · trivial
      · exact absurd hstep (by simp)
  | expire t addr =>
      simp only [Sleepers.step] at hstep
      split at hstep
      · rename_i now hph
        obtain ⟨s₁, hs₁, rfl⟩ := Option.map_eq_some_iff.mp hstep
        obtain ⟨hlegal, u, hu, rfl⟩ := callNow_eq hs₁
        have hnow : now ≤ s.clock := by simpa only [hph, PhaseOk] using h.phases t
        refine (h.call hlegal hu ?_).goto (by simp [hph]) trivial
        obtain ⟨⟨m', cbs⟩, hm, hu⟩ := Option.bind_eq_some_iff.mp hu
        obtain rfl := Option.some.inj hu
        have hcalm' := hcalm now (by rw [hph]; rfl)
        exact watched_listExpiredCb hc h.watched h.clock hnow hcalm' hm
      · exact absurd hstep (by simp)
  | getNextTimer =>
      obtain ⟨s₁, hs₁, rfl⟩ := Option.map_eq_some_iff.mp hstep
      obtain ⟨hlegal, u, hu, rfl⟩ := callNow_eq hs₁
      obtain ⟨v, evs, hv, he⟩ := Users.step_spec h.wf hlegal
      obtain rfl := Option.some.inj (hu.symm.trans hv)
      obtain ⟨d, hd⟩ := getNextTimer_spec hc s.clock
      simp only [Users.step, hd, Option.bind_eq_bind, Option.bind_some, Option.some.injEq] at hu
      subst hu
      exact ⟨he.wf, h.clock, watched_getNextTimer hc h.watched, h.phases,
        fun htick => absurd htick Bool.false_ne_true⟩
  | release p =>
      obtain ⟨hlegal, u, hu, rfl⟩ := callNow_eq hstep
      refine h.call hlegal hu ?_
      obtain rfl := Option.some.inj hu
      exact ⟨h.watched, rfl⟩

/-- **No needed wake-up is suppressed.**  In a calm run, when the first deadline
of the set is before the one that the last `getNextTimer` saw, then
`onTimerInsertedAtFront` has been called since, or a thread is about to. -/
theorem wakeup_not_lost {now : Nat} (hnow : now < wordSize)
    (hreach : Reach Sleepers.step calm (init now : Sleepers Cb T) s) {d : Nat}
    (hfront : front s.users.mgr = some d) (hearly : ¬ Late s.seen d) :
    s.notified = true ∨ ∃ t, s.phase t = .owing := by
  have h : s.Awake :=
    hreach.invariant (awake_init hnow) fun _ _ _ h hcalm hstep => h.step hcalm hstep
  refine h.owed ?_
  by_contra hfalse
  obtain ⟨p, hp, hd⟩ := Option.bind_eq_some_iff.mp hfront
  obtain ⟨t, ht, rfl⟩ := Option.map_eq_some_iff.mp hd
  exact hearly (h.watched.late (by simpa using hfalse) p (List.mem_of_head? hp) t ht)

/-- A timer is reset to an earlier time after somebody has gone to sleep. -/
def resetWhileAsleep : List (WakeAct Unit (Fin 2)) :=
  [.addTimer 0 50 () true, .insert 0 64, .notify 0, .getNextTimer, .tick 10,
    .reset 1 0 20 true, .resetLocked 1, .notify 1, .refresh 0]

theorem wakeup_not_lost_resetWhileAsleep :
    ∃ s, run (guarded Sleepers.step calm) (init 0) resetWhileAsleep = some s ∧
      s.seen = some 50 ∧ front s.users.mgr = some 30 ∧
      (s.notified = true ∨ ∃ t, s.phase t = .owing) := by
  obtain ⟨s, hs, hseen, hfront⟩ : ∃ s, run (guarded Sleepers.step calm) (init 0) resetWhileAsleep
      = some s ∧ s.seen = some 50 ∧ front s.users.mgr = some 30 := by
    have h : (run (guarded Sleepers.step calm) (init 0) resetWhileAsleep).any
        (fun s => s.seen == some 50 && front s.users.mgr == some 30) = true := by decide +kernel
    obtain ⟨s, hs, hand⟩ := Option.any_eq_true _ _ |>.mp h
    simp only [Bool.and_eq_true, beq_iff_eq] at hand
    exact ⟨s, hs, hand⟩
  exact ⟨s, hs, hseen, hfront, wakeup_not_lost (by decide) (run_reach _ hs) hfront
    (by simp [hseen, Late])⟩

/-- A thread reads the clock and is delayed for two hours.  Meanwhile a recurring
timer is added, another thread looks for expired timers, and one goes to sleep. -/
def delayedReading : List (WakeAct Unit (Fin 3)) :=
  [.listExpiredCb 0, .tick 7200000, .addTimer 2 10000 () true, .insert 2 64, .notify 2,
    .listExpiredCb 1, .look 1, .expire 1 32, .getNextTimer, .look 0, .expire 0 48]

/-- The old reading is taken for a change of the system time, and the timer is
armed again two hours before the deadline that the sleeper has seen. -/
theorem wakeup_lost_delayedReading :
    ¬ ∀ (s : Sleepers Unit (Fin 3)),
      Reach Sleepers.step (fun _ _ => True) (init 1700000000000) s →
      ∀ d, front s.users.mgr = some d → ¬ Late s.seen d →
        s.notified = true ∨ ∃ t, s.phase t = .owing := by
  intro hall
  have h : (run (guarded Sleepers.step fun _ _ => True) (init 1700000000000) delayedReading).any
      (fun s => decide (s.seen = some 1700007210000 ∧ front s.users.mgr = some 1700000010000 ∧
        s.notified = false ∧ ∀ t, s.phase t ≠ .owing)) = true := by decide +kernel
  obtain ⟨s, hs, hand⟩ := Option.any_eq_true _ _ |>.mp h
  obtain ⟨hseen, hfront, hnot, hph⟩ := of_decide_eq_true hand
  rcases hall s (run_reach _ hs) _ hfront (by simp [hseen, Late]) with htrue | ⟨t, ht⟩
  · exact absurd htrue (by simp [hnot])
  · exact hph t ht

end Sleepers

end CoLib.TimerManager
