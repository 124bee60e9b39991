/-
# `CoLib.Scheduler.Quiet` — what is left when all workers have left

A worker ends its idle fiber when `IOManager::stopping` is true: there was no timer,
then there was no pending event, then `Scheduler::stopping` found both flags set, no
task and no active thread.  Between these readings the others go on, and a worker
whose idle fiber has ended takes tasks until a scan finds none.  A task that runs
there can arm a timer, or add an event, behind the readings of the last worker.

**Proved here.**  `left_quiet`: in runs in which no reading on which all workers
rely goes out of date, nothing is left when all workers have left `run`.
`left_with_timer` is a run of two workers that leaves a timer behind.
-/
import CoLib.Scheduler.Counters
import CoLib.Timer.Deadline

namespace CoLib

open Lib

variable {Cb : Type}

/-! ## What operations and calls change -/

/-- `addTimer`. -/
def Call.arms : Call Cb → Bool
  | .addTimer .. => true
  | _ => false

/-- `addEvent`. -/
def Call.awaits : Call Cb → Bool
  | .addEvent => true
  | _ => false

/-- The call makes a task, a timer or an event. -/
def Call.creates : Call Cb → Bool
  | .schedule .. => true
  | .scheduleAll .. => true
  | .cancelEvent .. => true
  | c => c.arms || c.awaits

/-- What a thread outside may still have to do. -/
def Op.light : Op Cb → Bool
  | .tickle => true
  | .uncount => true
  | .setStopping => true
  | _ => false

theorem light_owed (b : Bool) : ∀ op ∈ (owed b : List (Op Cb)), op.light = true := by
  cases b <;> simp [owed, Op.light]

namespace Scheduler

variable {s s' : Scheduler Cb} {op : Op Cb} {c : Call Cb} {more ops : List (Op Cb)}

/-- No operation makes a timer or an event, and only one sets `m_stopping`. -/
theorem exec_settles (h : s.exec op = some (s', more)) :
    s.timers.Keeps s'.timers ∧ s'.pendingEventCount ≤ s.pendingEventCount ∧
      (s.stopping = true → s'.stopping = true) ∧
      (s'.stopping = true → s.stopping = true ∨ op = .setStopping) := by
  have hsame : s.timers.Keeps s.timers ∧ s.pendingEventCount ≤ s.pendingEventCount ∧
      (s.stopping = true → s.stopping = true) ∧
      (s.stopping = true → s.stopping = true ∨ op = .setStopping) := ⟨.refl _, le_rfl, id, .inl⟩
  cases op with
  | tickle =>
      cases h
      rw [tickle]
      split <;> exact hsame
  | schedule fcs =>
      rw [exec] at h
      split at h <;> cases h
      exact hsame
  | expire now addr =>
      obtain ⟨⟨timers, cbs⟩, hlist, heq⟩ := Option.map_eq_some_iff.mp h
      cases heq
      exact ⟨TimerManager.keeps_listExpiredCb hlist, le_rfl, id, .inl⟩
  | drain =>
      cases h
      exact hsame
  | trigger fc =>
      rw [exec] at h
      split at h <;> cases h
      exact hsame
  | uncount =>
      cases h
      exact ⟨.refl _, Nat.sub_le _ _, id, .inl⟩
  | setStopping =>
      cases h
      exact ⟨.refl _, le_rfl, fun _ => rfl, fun _ => .inr rfl⟩

/-- What a thread outside does with the rest of a call. -/
theorem exec_light (hop : op.light = true) (h : s.exec op = some (s', more)) :
    more = [] ∧ s'.queue = s.queue := by
  cases op with
  | tickle =>
      cases h
      rw [tickle]
      split <;> exact ⟨rfl, rfl⟩
  | uncount | setStopping =>
      cases h
      exact ⟨rfl, rfl⟩
  | schedule fcs | expire now addr | drain | trigger fc => cases hop

theorem call_settles (h : s.call c = some (s', ops)) :
    (s.timers.Words → s'.timers.Words) ∧
      (c.arms = false → s.timers.timers = [] → s'.timers.timers = []) ∧
      (c.awaits = false → s'.pendingEventCount ≤ s.pendingEventCount) ∧
      s'.stopping = s.stopping := by
  have hkeeps : ∀ {t : TimerManager Cb}, s.timers.Keeps t →
      (s.timers.Words → t.Words) ∧ (c.arms = false → s.timers.timers = [] → t.timers = []) ∧
        (c.awaits = false → s.pendingEventCount ≤ s.pendingEventCount) ∧
        s.stopping = s.stopping := fun h => ⟨h.words, fun _ => h.nil, fun _ => le_rfl, rfl⟩
  cases c with
  | schedule fc thread =>
      rw [call] at h
      split at h <;> cases h
      exact hkeeps (.refl _)
  | scheduleAll fcs =>
      have h : s.exec (.schedule fcs) = some (s', ops) := h
      rw [exec] at h
      split at h <;> cases h
      exact hkeeps (.refl _)
  | newFiber cb | mainFiber | stop threads =>
      cases h
      exact hkeeps (.refl _)
  | addTimer ms cb recurring now addr =>
      cases h
      exact ⟨fun hw => TimerManager.words_addTimer hw ms cb recurring now addr,
        fun ha => (Bool.noConfusion ha), fun _ => le_rfl, rfl⟩
  | cancelTimer p =>
      obtain ⟨x, hx, heq⟩ := Option.map_eq_some_iff.mp h
      cases heq
      exact hkeeps (TimerManager.keeps_cancel hx)
  | refreshTimer p now =>
      obtain ⟨x, hx, heq⟩ := Option.map_eq_some_iff.mp h
      cases heq
      exact hkeeps (TimerManager.keeps_refresh hx)
  | resetTimer p ms fromNow now =>
      obtain ⟨x, hx, heq⟩ := Option.map_eq_some_iff.mp h
      cases heq
      exact hkeeps (TimerManager.keeps_reset hx)
  | addEvent =>
      cases h
      exact ⟨id, fun _ => id, fun ha => (Bool.noConfusion ha), rfl⟩
  | delEvent =>
      rw [call] at h
      split at h <;> cases h
      exact ⟨id, fun _ => id, fun _ => Nat.sub_le _ _, rfl⟩
  | cancelEvent fc =>
      have h : s.exec (.trigger fc) = some (s', ops) := h
      rw [exec] at h
      split at h <;> cases h
      exact hkeeps (.refl _)

/-- What a call leaves to be done. -/
theorem call_light (h : s.call c = some (s', ops)) : ∀ op ∈ ops, op.light = true := by
  cases c with
  | schedule fc thread =>
      rw [call] at h
      split at h <;> cases h
      exact light_owed _
  | scheduleAll fcs =>
      have h : s.exec (.schedule fcs) = some (s', ops) := h
      rw [exec] at h
      split at h <;> cases h
      exact light_owed _
  | newFiber cb | mainFiber | addEvent =>
      cases h
      exact fun _ hop => absurd hop List.not_mem_nil
  | addTimer ms cb recurring now addr =>
      cases h
      exact light_owed _
  | cancelTimer p | refreshTimer p now =>
      obtain ⟨x, -, heq⟩ := Option.map_eq_some_iff.mp h
      cases heq
      exact fun _ hop => absurd hop List.not_mem_nil
  | resetTimer p ms fromNow now =>
      obtain ⟨x, -, heq⟩ := Option.map_eq_some_iff.mp h
      cases heq
      exact light_owed _
  | delEvent =>
      rw [call] at h
      split at h <;> cases h
      exact fun _ hop => absurd hop List.not_mem_nil
  | cancelEvent fc =>
      have h : s.exec (.trigger fc) = some (s', ops) := h
      rw [exec] at h
      split at h <;> cases h
      intro op hop
      rcases List.mem_append.mp hop with hop | hop
      · exact light_owed _ op hop
      · rw [List.mem_singleton.mp hop]
        rfl
  | stop threads =>
      cases h
      intro op hop
      rcases List.mem_cons.mp hop with rfl | hop
      · rfl
      · rw [List.eq_of_mem_replicate hop]
        rfl

/-- A call that creates nothing schedules nothing. -/
theorem call_queue (hc : c.creates = false) (h : s.call c = some (s', ops)) :
    s'.queue = s.queue := by
  cases c with
  | schedule fc thread | scheduleAll fcs | addTimer ms cb recurring now addr | addEvent
  | cancelEvent fc => cases hc
  | newFiber cb | mainFiber | stop threads =>
      cases h
      rfl
  | cancelTimer p | refreshTimer p now | resetTimer p ms fromNow now =>
      obtain ⟨x, -, heq⟩ := Option.map_eq_some_iff.mp h
      cases heq
      rfl
  | delEvent =>
      rw [call] at h
      split at h <;> cases h
      rfl

end Scheduler

/-! ## A worker -/

namespace Worker

variable {s s' : Scheduler Cb} {w w' : Worker Cb} {a : WorkerAct Cb}

/-- The idle fiber has ended. -/
def ended (w : Worker Cb) : Bool :=
  w.idle == .term

/-- The worker has read that there is no timer, and relies on it. -/
def sawNoTimer (w : Worker Cb) : Bool :=
  w.ended || match w.phase with
    | .timed => true
    | .counted => true
    | _ => false

/-- The worker has read that there is no pending event, and relies on it. -/
def sawNoEvent (w : Worker Cb) : Bool :=
  w.ended || match w.phase with
    | .counted => true
    | _ => false

theorem sawNoTimer_of_sawNoEvent (h : w.sawNoEvent = true) : w.sawNoTimer = true := by
  rw [sawNoEvent, Bool.or_eq_true_iff] at h
  rw [sawNoTimer, Bool.or_eq_true_iff]
  refine h.imp_right fun h => ?_
  split at h
  · rename_i hph
    rw [hph]
  · cases h

/-- How a step can change the timers, `m_pendingEventCount` and `m_stopping`. -/
theorem Step.settles (h : w.Step s a s' w') :
    (s'.timers = s.timers ∧ s'.pendingEventCount = s.pendingEventCount ∧
      s'.stopping = s.stopping) ∨
    (∃ op more, w.phase.op = some op ∧ s.exec op = some (s', more)) ∨
    (∃ c ops, a = .call c ∧ s.call c = some (s', ops)) ∨
    ∃ now timers timeout, a = .look now ∧ s.timers.getNextTimer now = some (timers, timeout) ∧
      s' = { s with timers } := by
  cases h with
  | tickle hph => exact .inr (.inl ⟨.tickle, [], by rw [hph]; rfl, rfl⟩)
  | insideOp hph hexec | reschedulingOp hph hexec | handlingOp hph hexec =>
      exact .inr (.inl ⟨_, _, by rw [hph]; rfl, hexec⟩)
  | call _ _ hcall => exact .inr (.inr (.inl ⟨_, _, rfl, hcall⟩))
  | look _ hget => exact .inr (.inr (.inr ⟨_, _, _, rfl, hget, rfl⟩))
  | _ => exact .inl ⟨rfl, rfl, rfl⟩

/-- Only `Scheduler::stopping` ends the idle fiber. -/
theorem Step.ended (h : w.Step s a s' w') (he : w'.ended = true) :
    w.ended = true ∨
      (s.isStopping = true ∧ s' = s ∧ w.phase = .counted ∧ w'.phase = .idleBack) := by
  cases h with
  | stop hph hstop => exact .inr ⟨hstop, rfl, hph, rfl⟩
  | idleIn | idleThrow => cases he
  | idleOut =>
      refine .inl ?_
      cases hfin : w.idle.finished with
      | true => simpa [Worker.ended, hfin] using he
      | false => simp [Worker.ended, hfin] at he
  | reschedule | held =>
      refine .inl ?_
      rw [Worker.ended] at he ⊢
      simpa [goto] using he
  | _ => exact .inl he

/-- A worker relies on a reading because it did, or because it has just made it. -/
theorem Step.sawNoTimer (h : w.Step s a s' w') (hsaw : w'.sawNoTimer = true) :
    w.sawNoTimer = true ∨ ∃ now timers, a = .look now ∧
      s.timers.getNextTimer now = some (timers, wordSize - 1) ∧ s' = { s with timers } := by
  by_cases he : w'.ended = true
  · rcases h.ended he with hold | ⟨-, -, hph, -⟩
    · exact .inl (by simp [Worker.sawNoTimer, hold])
    · exact .inl (by simp [Worker.sawNoTimer, hph])
  · rw [Worker.sawNoTimer, Bool.or_eq_true_iff, or_iff_right he] at hsaw
    cases h with
    | count hph => exact .inl (by simp [Worker.sawNoTimer, hph])
    | @look now timers timeout hph hget =>
        by_cases hnone : timeout = wordSize - 1
        · subst hnone
          exact .inr ⟨now, timers, rfl, hget, rfl⟩
        · simp [goto, hnone] at hsaw
    | idleIn => cases hfin : w.idle.finished <;> simp [hfin] at hsaw
    | @swapIn b f => cases hfin : (s.state f).finished <;> simp [goto, hfin] at hsaw
    | _ => cases hsaw

theorem Step.sawNoEvent (h : w.Step s a s' w') (hsaw : w'.sawNoEvent = true) :
    w.sawNoEvent = true ∨ (s.pendingEventCount = 0 ∧ s' = s) := by
  by_cases he : w'.ended = true
  · rcases h.ended he with hold | ⟨-, -, hph, -⟩
    · exact .inl (by simp [Worker.sawNoEvent, hold])
    · exact .inl (by simp [Worker.sawNoEvent, hph])
  · rw [Worker.sawNoEvent, Bool.or_eq_true_iff, or_iff_right he] at hsaw
    cases h with
    | count =>
        by_cases hzero : s.pendingEventCount = 0
        · exact .inr ⟨hzero, rfl⟩
        · simp [goto, hzero] at hsaw
    | @look now timers timeout => by_cases hnone : timeout = wordSize - 1 <;>
        simp [goto, hnone] at hsaw
    | idleIn => cases hfin : w.idle.finished <;> simp [hfin] at hsaw
    | @swapIn b f => cases hfin : (s.state f).finished <;> simp [goto, hfin] at hsaw
    | _ => cases hsaw

/-- A worker that has ended its idle fiber and finds nothing leaves the queue empty. -/
theorem Step.drained (h : w.Step s a s' w') (hw : w.Fits) (hready : ∀ f, s.state f ≠ .ready)
    (he : w.ended = true) (hbusy : w.phase.busy = false) (hempty : s.queue.fibers = []) :
    s'.queue.fibers = [] ∧ w'.phase.busy = false := by
  have hterm : w.idle = .term := by simpa [Worker.ended] using he
  have hidle : w.idle ≠ .exec := by simp [hterm]
  cases h with
  | scanNone => exact ⟨hempty, rfl⟩
  | scanTake _ _ hq =>
      rw [hempty] at hq
      exact absurd (congrArg List.length hq) (by simp)
  | tickle hph =>
      rw [hph] at hbusy
      have hexec : s.exec .tickle = some (s.tickle, []) := rfl
      exact ⟨by rw [(Scheduler.exec_light rfl hexec).2, hempty], hbusy⟩
  | hold hph hf =>
      obtain rfl := hw.active hph (.inl (by simp [hf]))
      rw [hph] at hbusy
      cases hbusy
  | recycle hph _ hcb | create hph _ hcb =>
      obtain rfl := hw.active hph (.inr hcb)
      rw [hph] at hbusy
      cases hbusy
  | drop hph | swapIn hph | insideOp hph | swapOut hph | inactive hph | call hph
  | yieldToHold hph | finish hph | throw hph =>
      rw [hph] at hbusy
      cases hbusy
  | reschedule _ hst => exact absurd hst (hready _)
  | idleIn _ _ _ hne => exact absurd hterm hne
  | reschedulingOp hph | rescheduled hph =>
      rw [Fits, hph] at hw
      exact hw.elim
  | count hph | goOn hph | stop hph | handlingOp hph | handled hph | look hph | wake hph
  | skip hph =>
      rw [Fits, hph] at hw
      exact absurd hw hidle
  | idleThrow => exact ⟨hempty, rfl⟩
  | leave | done | keep | held | idleOut => exact ⟨hempty, rfl⟩

end Worker

/-! ## Whole runs -/

namespace Pool

variable {s s' : Pool Cb} {a : PoolAct Cb}

/-- All workers rely on a reading that there is no timer. -/
def AllSawNoTimer (s : Pool Cb) : Prop :=
  ∀ w ∈ s.workers, w.sawNoTimer = true

/-- All workers rely on a reading that there is no pending event. -/
def AllSawNoEvent (s : Pool Cb) : Prop :=
  ∀ w ∈ s.workers, w.sawNoEvent = true

instance (s : Pool Cb) : Decidable s.AllSawNoTimer :=
  inferInstanceAs (Decidable (∀ w ∈ s.workers, _))

instance (s : Pool Cb) : Decidable s.AllSawNoEvent :=
  inferInstanceAs (Decidable (∀ w ∈ s.workers, _))

/-- Threads outside create nothing any more; no task arms a timer or adds an event
behind readings on which all workers rely; `stop` finds such readings up to date; and
the clock does not read 0. -/
def Fresh (s : Pool Cb) : PoolAct Cb → Prop
  | .call _ c => s.sched.stopping = true → c.creates = false
  | .op t => (s.outside t).head? = some .setStopping → s.sched.stopping = false →
      (s.AllSawNoTimer → s.sched.timers.timers = []) ∧
        (s.AllSawNoEvent → s.sched.pendingEventCount = 0)
  | .worker _ (.call c) =>
      (c.arms = true → ¬ s.AllSawNoTimer) ∧ (c.awaits = true → ¬ s.AllSawNoEvent)
  | .worker _ (.look now) => 0 < now
  | .worker _ _ => True

instance [DecidableEq Cb] (s : Pool Cb) : (a : PoolAct Cb) → Decidable (s.Fresh a)
  | .call _ c => inferInstanceAs (Decidable (s.sched.stopping = true → c.creates = false))
  | .op t => inferInstanceAs (Decidable
      ((s.outside t).head? = some .setStopping → s.sched.stopping = false →
        (s.AllSawNoTimer → s.sched.timers.timers = []) ∧
          (s.AllSawNoEvent → s.sched.pendingEventCount = 0)))
  | .worker _ (.call c) => inferInstanceAs (Decidable
      ((c.arms = true → ¬ s.AllSawNoTimer) ∧ (c.awaits = true → ¬ s.AllSawNoEvent)))
  | .worker _ (.look now) => inferInstanceAs (Decidable (0 < now))
  | .worker _ .next | .worker _ (.wake ..) | .worker _ .skip | .worker _ .idleThrow
  | .worker _ .yieldToHold | .worker _ (.finish _) => .isTrue trivial

/-- What holds on the way to the end. -/
structure Winding (s : Pool Cb) : Prop where
  manned : s.workers ≠ []
  fits : ∀ {i w}, s.At i w → w.Fits
  ready : ∀ f, s.sched.state f ≠ .ready
  active : s.sched.activeThreadCount = tally (fun w => w.phase.busy.toNat) s.workers
  light : ∀ t, ∀ op ∈ s.outside t, op.light = true
  words : s.sched.timers.Words
  ended : ∀ {i w}, s.At i w → w.ended = true → s.sched.stopping = true
  timers : s.sched.stopping = true → s.AllSawNoTimer → s.sched.timers.timers = []
  events : s.sched.stopping = true → s.AllSawNoEvent → s.sched.pendingEventCount = 0
  queue : (∀ w ∈ s.workers, w.ended = true) →
    s.sched.queue.fibers = [] ∧ ∀ w ∈ s.workers, w.phase.busy = false

theorem init_mem {ids : List Int} {now : Nat} {w : Worker Cb}
    (hw : w ∈ (init ids now : Pool Cb).workers) : w.phase = .scan := by
  obtain ⟨i, hi⟩ := List.mem_iff_getElem?.mp hw
  exact (init_at hi).1

theorem winding_init {ids : List Int} (hids : ids ≠ []) (now : Nat) :
    (init ids now : Pool Cb).Winding where
  manned := by simpa [init] using hids
  fits   := fun hw => by
    rw [Worker.Fits, (init_at hw).1]
    trivial
  ready  := fun f h => by cases h
  active := (tally_eq_zero fun w hw => by rw [init_mem hw]; rfl).symm
  light  := fun t op h => by cases h
  words  := fun t ht => by cases ht
  ended  := fun hw he => by
    rw [Worker.ended, (init_at hw).2.1] at he
    cases he
  timers := fun h => by cases h
  events := fun h => by cases h
  queue  := fun _ => ⟨rfl, fun w hw => by rw [init_mem hw]; rfl⟩

/-- What all workers have after a step, they had before, if this one had. -/
theorem forall_of_setWorker {P : Worker Cb → Prop} {i : Nat} {sched : Scheduler Cb}
    {w w' : Worker Cb} (hw : s.At i w) (h : ∀ v ∈ (s.setWorker i sched w').workers, P v)
    (hp : P w) : ∀ v ∈ s.workers, P v := by
  intro v hv
  obtain ⟨j, hj⟩ := List.mem_iff_getElem?.mp hv
  by_cases hji : j = i
  · subst hji
    obtain rfl := hw.unique hj
    exact hp
  · exact h v (List.mem_of_getElem? (at_setWorker_ne hji hj))

/-- And the other way round. -/
theorem forall_setWorker {P : Worker Cb → Prop} {i : Nat} {sched : Scheduler Cb}
    {w w' : Worker Cb} (hw : s.At i w) (h : ∀ v ∈ s.workers, P v) (hp : P w') :
    ∀ v ∈ (s.setWorker i sched w').workers, P v := by
  intro v hv
  obtain ⟨j, hj⟩ := List.mem_iff_getElem?.mp hv
  rcases at_setWorker hw hj with ⟨-, rfl⟩ | ⟨-, hj⟩
  · exact hp
  · exact h v (List.mem_of_getElem? hj)

/-- With no active threads no worker is busy. -/
theorem Winding.idle (h : s.Winding) (hzero : s.sched.activeThreadCount = 0) :
    ∀ w ∈ s.workers, w.phase.busy = false := by
  intro w hw
  obtain ⟨i, hi⟩ := List.mem_iff_getElem?.mp hw
  have hle := le_tally (f := fun w : Worker Cb => w.phase.busy.toNat) hi
  rw [← h.active, hzero] at hle
  cases hbusy : w.phase.busy with
  | false => rfl
  | true =>
      rw [hbusy] at hle
      cases hle

/-- `m_stopping` stays set. -/
theorem stopping_kept {w w' : Worker Cb} {a : WorkerAct Cb} {sched : Scheduler Cb}
    (hstep : w.Step s.sched a sched w') (h : s.sched.stopping = true) : sched.stopping = true := by
  rcases hstep.settles with ⟨-, -, hst⟩ | ⟨op, more, -, hexec⟩ | ⟨c, ops, -, hcall⟩ |
    ⟨now, timers, timeout, -, -, rfl⟩
  · exact hst.trans h
  · exact (Scheduler.exec_settles hexec).2.2.1 h
  · exact (Scheduler.call_settles hcall).2.2.2.trans h
  · exact h

/-- A worker that relies on a reading afterwards has not set it. -/
theorem Winding.not_set (h : s.Winding) {i : Nat} {w w' : Worker Cb} {a : WorkerAct Cb}
    {sched : Scheduler Cb} (hw : s.At i w) (hstep : w.Step s.sched a sched w')
    (hsaw : w'.sawNoTimer = true) (hst : sched.stopping = true) : s.sched.stopping = true := by
  rcases hstep.sawNoTimer hsaw with hold | ⟨now, timers, -, -, rfl⟩
  · by_cases he : w.ended = true
    · exact h.ended hw he
    · rw [Worker.sawNoTimer, Bool.or_eq_true_iff, or_iff_right he] at hold
      rcases hstep.settles with ⟨-, -, heq⟩ | ⟨op, more, hop, -⟩ | ⟨c, ops, -, hcall⟩ |
        ⟨now, timers, timeout, -, -, rfl⟩
      · exact heq ▸ hst
      · split at hold
        · simp_all [Phase.op]
        · simp_all [Phase.op]
        · cases hold
      · exact (Scheduler.call_settles hcall).2.2.2 ▸ hst
      · exact hst
  · exact hst

/-- A worker makes a step. -/
theorem Winding.worker (h : s.Winding) {i : Nat} {w w' : Worker Cb} {a : WorkerAct Cb}
    {sched : Scheduler Cb} (hw : s.At i w) (hstep : w.Step s.sched a sched w')
    (hg : s.Fresh (.worker i a)) : (s.setWorker i sched w').Winding := by
  have hself : w' ∈ (s.setWorker i sched w').workers :=
    List.mem_of_getElem? (at_setWorker_self hw)
  have hfits := h.fits hw
  refine ⟨fun hno => ?_, fun {j v} hv => ?_, hstep.move.ne_ready h.ready, ?_, h.light, ?_,
    fun {j v} hv he => ?_, fun hst hall => ?_, fun hst hall => ?_, fun hall => ?_⟩
  · rw [hno] at hself
    cases hself
  · rcases at_setWorker hw hv with ⟨-, rfl⟩ | ⟨-, hv⟩
    · exact hstep.fits hfits h.ready
    · exact h.fits hv
  · exact active_setWorker h.active hw hfits hstep
  · show sched.timers.Words
    rcases hstep.settles with ⟨ht, -, -⟩ | ⟨op, more, -, hexec⟩ | ⟨c, ops, -, hcall⟩ |
      ⟨now, timers, timeout, -, hget, rfl⟩
    · exact ht ▸ h.words
    · exact (Scheduler.exec_settles hexec).1.words h.words
    · exact (Scheduler.call_settles hcall).1 h.words
    · exact (TimerManager.keeps_getNextTimer hget).words h.words
  · rcases at_setWorker hw hv with ⟨-, rfl⟩ | ⟨-, hv⟩
    · rcases hstep.ended he with hold | ⟨hstop, heq, -, -⟩
      · exact stopping_kept hstep (h.ended hw hold)
      · have hstop := (Bool.and_eq_true_iff.mp hstop).1
        show sched.stopping = true
        rw [heq]
        exact (Bool.and_eq_true_iff.mp (Bool.and_eq_true_iff.mp hstop).1).2
    · exact stopping_kept hstep (h.ended hv he)
  · have hst := h.not_set hw hstep (hall w' hself) hst
    show sched.timers.timers = []
    rcases hstep.sawNoTimer (hall w' hself) with hold | ⟨now, timers, rfl, hget, rfl⟩
    · have hall := forall_of_setWorker hw hall hold
      have hnil := h.timers hst hall
      rcases hstep.settles with ⟨ht, -, -⟩ | ⟨op, more, -, hexec⟩ | ⟨c, ops, rfl, hcall⟩ |
        ⟨now, timers, timeout, -, hget, rfl⟩
      · rw [ht]
        exact hnil
      · exact (Scheduler.exec_settles hexec).1.nil hnil
      · exact (Scheduler.call_settles hcall).2.1 (by simpa using fun ha => hg.1 ha hall) hnil
      · exact (TimerManager.keeps_getNextTimer hget).nil hnil
    · exact (TimerManager.keeps_getNextTimer hget).nil
        (TimerManager.nil_of_getNextTimer h.words hg hget)
  · have hst := h.not_set hw hstep (Worker.sawNoTimer_of_sawNoEvent (hall w' hself)) hst
    show sched.pendingEventCount = 0
    rcases hstep.sawNoEvent (hall w' hself) with hold | ⟨hzero, heq⟩
    · have hall := forall_of_setWorker hw hall hold
      have hzero := h.events hst hall
      rcases hstep.settles with ⟨-, hp, -⟩ | ⟨op, more, -, hexec⟩ | ⟨c, ops, rfl, hcall⟩ |
        ⟨now, timers, timeout, -, hget, rfl⟩
      · rw [hp]
        exact hzero
      · exact Nat.le_zero.mp (hzero ▸ (Scheduler.exec_settles hexec).2.1)
      · refine Nat.le_zero.mp (hzero ▸ (Scheduler.call_settles hcall).2.2.1 ?_)
        simpa using fun ha => hg.2 ha hall
      · exact hzero
    · rw [heq]
      exact hzero
  · rcases hstep.ended (hall w' hself) with hold | ⟨hstop, heq, -, hph⟩
    · obtain ⟨hempty, hidle⟩ := h.queue (forall_of_setWorker hw hall hold)
      obtain ⟨hq, hbusy⟩ :=
        hstep.drained hfits h.ready hold (hidle w (List.mem_of_getElem? hw)) hempty
      exact ⟨hq, forall_setWorker hw hidle hbusy⟩
    · -- the last worker to end its idle fiber has found the queue empty and no thread active
      obtain ⟨hstop, hzero⟩ := Bool.and_eq_true_iff.mp hstop
      have hempty := (Bool.and_eq_true_iff.mp hstop).2
      refine ⟨?_, forall_setWorker hw (h.idle (by simpa using hzero)) (by rw [hph]; rfl)⟩
      show sched.queue.fibers = []
      rw [heq]
      simpa using hempty

/-- A thread outside makes a step. -/
theorem Winding.outside (h : s.Winding) {t : Nat} {sched : Scheduler Cb} {ops : List (Op Cb)}
    {fcs : List (FiberOrCb Cb)} {new : List (FiberAndThread Cb)}
    (heff : s.sched.Effect sched fcs new) (hlight : ∀ op ∈ ops, op.light = true)
    (hwords : sched.timers.Words) (hst : s.sched.stopping = true → sched.stopping = true ∧
      (s.sched.timers.timers = [] → sched.timers.timers = []) ∧
      sched.pendingEventCount ≤ s.sched.pendingEventCount ∧ sched.queue = s.sched.queue)
    (hset : s.sched.stopping = false → sched.stopping = true →
      (s.AllSawNoTimer → sched.timers.timers = []) ∧
        (s.AllSawNoEvent → sched.pendingEventCount = 0)) :
    ({ s with sched, outside := Function.update s.outside t ops } : Pool Cb).Winding := by
  refine ⟨h.manned, h.fits, heff.ne_ready h.ready, heff.active.trans h.active, fun u op hop => ?_,
    hwords, fun hw he => (hst (h.ended hw he)).1, fun hstop hall => ?_, fun hstop hall => ?_,
    fun hall => ?_⟩
  · have hop : op ∈ Function.update s.outside t ops u := hop
    by_cases hut : u = t
    · rw [hut, Function.update_self] at hop
      exact hlight op hop
    · rw [Function.update_of_ne hut] at hop
      exact h.light u op hop
  · cases hold : s.sched.stopping with
    | true => exact (hst hold).2.1 (h.timers hold hall)
    | false => exact (hset hold hstop).1 hall
  · cases hold : s.sched.stopping with
    | true => exact Nat.le_zero.mp (h.events hold hall ▸ (hst hold).2.2.1)
    | false => exact (hset hold hstop).2 hall
  · obtain ⟨w, hw⟩ := List.exists_mem_of_ne_nil _ h.manned
    obtain ⟨i, hi⟩ := List.mem_iff_getElem?.mp hw
    obtain ⟨hempty, hidle⟩ := h.queue hall
    refine ⟨?_, hidle⟩
    show sched.queue.fibers = []
    rw [(hst (h.ended hi (hall w hw))).2.2.2]
    exact hempty

theorem Winding.step (h : s.Winding) (hstep : s.Step a s') (hg : s.Fresh a) : s'.Winding := by
  cases hstep with
  | worker hw hstep => exact h.worker hw hstep hg
  | call _ hcall =>
      obtain ⟨new, heff, -⟩ := Scheduler.call_effect hcall
      obtain ⟨hwords, htimers, hpending, hst⟩ := Scheduler.call_settles hcall
      refine h.outside heff (Scheduler.call_light hcall) (hwords h.words) (fun hstop => ?_)
        fun hold hstop => ?_
      · have hno := hg hstop
        have hq := Scheduler.call_queue hno hcall
        rename_i t c sched ops _
        refine ⟨hst.trans hstop, htimers ?_, hpending ?_, hq⟩ <;> cases c <;>
          simp_all [Call.creates, Call.arms, Call.awaits]
      · rw [hst, hold] at hstop
        cases hstop
  | @op t op ops sched more hout hexec =>
      obtain ⟨new, heff, -⟩ := Scheduler.exec_effect hexec
      obtain ⟨hkeeps, hpending, hkept, hset⟩ := Scheduler.exec_settles hexec
      have hlight : ∀ o ∈ op :: ops, o.light = true := hout ▸ h.light t
      obtain ⟨hmore, hq⟩ := Scheduler.exec_light (hlight op List.mem_cons_self) hexec
      refine h.outside heff (fun o ho => ?_) (hkeeps.words h.words)
        (fun hstop => ⟨hkept hstop, hkeeps.nil, hpending, hq⟩) fun hold hstop => ?_
      · rw [hmore, List.nil_append] at ho
        exact hlight o (List.mem_cons_of_mem _ ho)
      · have hop := (hset hstop).resolve_left (by simp [hold])
        obtain ⟨htimers, hevents⟩ := hg (by rw [hout, hop]; rfl) hold
        exact ⟨fun hall => hkeeps.nil (htimers hall),
          fun hall => Nat.le_zero.mp (hevents hall ▸ hpending)⟩

/-- While the readings on which all workers rely stay up to date, nothing is left when
all workers have left. -/
theorem left_quiet (ids : List Int) (hids : ids ≠ []) (now : Nat) (s : Pool Cb)
    (h : Reach (proceed step) Fresh (init ids now) s)
    (hleft : ∀ i w, s.At i w → w.phase = .left) :
    s.sched.queue.fibers = [] ∧ s.sched.timers.timers = [] ∧ s.sched.pendingEventCount = 0 := by
  have hs : s.Winding := h.invariant (winding_init hids now)
    fun s a s' hs hg hstep => hs.step (step_ok hstep) hg
  have hall : ∀ w ∈ s.workers, w.ended = true := by
    intro w hw
    obtain ⟨i, hi⟩ := List.mem_iff_getElem?.mp hw
    have hfits := hs.fits hi
    rw [Worker.Fits, hleft i w hi] at hfits
    simpa [Worker.ended] using hfits
  obtain ⟨w, hw⟩ := List.exists_mem_of_ne_nil _ hs.manned
  obtain ⟨i, hi⟩ := List.mem_iff_getElem?.mp hw
  have hst := hs.ended hi (hall w hw)
  refine ⟨(hs.queue hall).1, hs.timers hst fun w hw => ?_, hs.events hst fun w hw => ?_⟩
  · simp [Worker.sawNoTimer, hall w hw]
  · simp [Worker.sawNoEvent, hall w hw]

/-- Two workers stop after a callback. -/
def stopAfterTask : List (PoolAct Unit) :=
  [.call 0 (.schedule (.cb (some ())) (-1)), .op 0, .call 0 (.stop 2), .op 0, .op 0, .op 0,
    .worker 0 .next, .worker 0 .next, .worker 0 .next, .worker 0 (.finish true), .worker 0 .next,
    .worker 0 .next, .worker 0 .next,
    .worker 1 .next, .worker 1 .next, .worker 1 (.look 5), .worker 1 .next, .worker 1 .next,
    .worker 1 .next, .worker 1 .next, .worker 1 .next,
    .worker 0 .next, .worker 0 .next, .worker 0 (.look 5), .worker 0 .next, .worker 0 .next,
    .worker 0 .next, .worker 0 .next, .worker 0 .next]

/-- Nothing is left. -/
theorem left_quiet_stopAfterTask : ∃ s : Pool Unit, (∀ i w, s.At i w → w.phase = .left) ∧
    s.sched.queue.fibers = [] ∧ s.sched.timers.timers = [] ∧ s.sched.pendingEventCount = 0 := by
  have hrun : ((run (guarded (proceed step) Fresh) (init [10, 11] 5) stopAfterTask).filter
      fun s : Pool Unit => ∀ w ∈ s.workers, w.phase = .left).isSome = true := by decide
  obtain ⟨s, hs⟩ := Option.isSome_iff_exists.mp hrun
  obtain ⟨hs, hall⟩ := Option.filter_eq_some_iff.mp hs
  have hleft : ∀ i w, s.At i w → w.phase = .left := fun i w hw =>
    of_decide_eq_true hall w (List.mem_of_getElem? hw)
  exact ⟨s, hleft, left_quiet [10, 11] (by decide) 5 s (run_reach stopAfterTask hs) hleft⟩

/-- The second worker reads that there is no timer while the first, whose idle fiber
has ended, runs the callback of one; the callback then arms another. -/
def timerBehind : List (PoolAct Unit) :=
  [.call 0 (.schedule (.cb (some ())) (-1)), .op 0, .call 0 (.stop 2), .op 0, .op 0, .op 0,
    .worker 1 .next, .worker 1 .next, .worker 1 .next,
    .worker 0 .next, .worker 0 .next, .worker 0 (.look 5), .worker 0 .next,
    .worker 1 (.call (.addTimer 10 () false 5 0)), .worker 1 .next, .worker 1 (.finish true),
    .worker 1 .next, .worker 1 .next, .worker 1 .next,
    .worker 0 .next, .worker 0 .next,
    .worker 1 .next, .worker 1 .next, .worker 1 (.look 5), .worker 1 (.wake [] 20 1),
    .worker 1 .next, .worker 1 .next,
    .worker 0 .next, .worker 0 .next, .worker 0 .next,
    .worker 1 .next, .worker 1 .next, .worker 1 .next, .worker 1 .next, .worker 1 .next,
    .worker 1 (.look 20), .worker 1 .next,
    .worker 0 (.call (.addTimer 10 () false 20 2)), .worker 0 .next, .worker 0 (.finish true),
    .worker 0 .next, .worker 0 .next, .worker 0 .next,
    .worker 1 .next, .worker 1 .next, .worker 1 .next, .worker 1 .next,
    .worker 0 .next, .worker 0 .next]

/-- After `stop` threads outside create nothing. -/
def Stopped (s : Pool Cb) : PoolAct Cb → Prop
  | .call _ c => s.sched.stopping = true → c.creates = false
  | _ => True

instance (s : Pool Cb) : (a : PoolAct Cb) → Decidable (s.Stopped a)
  | .call _ c => inferInstanceAs (Decidable (s.sched.stopping = true → c.creates = false))
  | .op _ | .worker _ _ => .isTrue trivial

/-- The second timer stays armed. -/
theorem left_with_timer : ∃ s : Pool Unit, Reach (proceed step) Stopped (init [10, 11] 5) s ∧
    (∀ i w, s.At i w → w.phase = .left) ∧ s.sched.timers.timers = [1] := by
  have hrun : ((run (guarded (proceed step) Stopped) (init [10, 11] 5) timerBehind).filter
      fun s : Pool Unit =>
        (∀ w ∈ s.workers, w.phase = .left) ∧ s.sched.timers.timers = [1]).isSome = true := by
    decide
  obtain ⟨s, hs⟩ := Option.isSome_iff_exists.mp hrun
  obtain ⟨hs, hall⟩ := Option.filter_eq_some_iff.mp hs
  obtain ⟨hall, htimers⟩ := of_decide_eq_true hall
  exact ⟨s, run_reach timerBehind hs, fun i w hw => hall w (List.mem_of_getElem? hw), htimers⟩

end Pool

end CoLib
