/-
# `CoLib.Scheduler.Counters` — `m_activeThreadCount` and `m_idleThreadCount`

A worker adds itself to `m_activeThreadCount` under the lock with which it takes a
task, and takes itself off when the `swapIn` for it has returned, whichever branch
of `run` it is in.  A fiber that yields on one worker and goes on on another makes
no difference: each of the two counts its own task.

`m_idleThreadCount` is decremented when the `swapIn` of the idle fiber returns; the
increment before it is commented out.  So the counter is minus the number of
returns, and the first of them wraps it around.

**Proved here.**  `active_counted`: in every run `m_activeThreadCount` is the number
of workers with a task whose `swapIn` has not returned, and `stopping` is false
while there is one.  `idle_counted_iff`: `m_idleThreadCount` is the number of idle
workers throughout a run exactly when no worker goes idle in it.
`idle_count_wrapped` is a run in which one does.
-/
import CoLib.Scheduler.Exclusive
import CoLib.Lib.Tally

namespace CoLib

open Lib

variable {Cb : Type}

/-! ## A worker -/

/-- The worker is counted in `m_activeThreadCount`. -/
def Phase.busy : Phase Cb → Bool
  | .scanned _ isActive _ => isActive
  | .holding .. => true
  | .inside .. => true
  | .pastEnd .. => true
  | .leaving .. => true
  | .returned .. => true
  | _ => false

/-- The worker has taken a task, and has not yet counted its `swapIn` as returned. -/
def Phase.tasked : Phase Cb → Bool
  | .scanned ft _ _ => ft.isSome
  | p => p.busy

namespace Worker

variable {s s' : Scheduler Cb} {w w' : Worker Cb} {a : WorkerAct Cb}

/-- What the phase says about the idle fiber, and about the task taken. -/
def Fits (w : Worker Cb) : Prop :=
  match w.phase with
  | .scanned ft isActive _ => isActive = false → ft.fiber = none ∧ ft.cb = none
  | .looking | .timed | .counted | .blocked | .handling _ | .idlePastEnd => w.idle = .exec
  | .left => w.idle = .term
  | .rescheduling _ => False
  | _ => True

/-- A task that has been taken is counted. -/
theorem Fits.active {ft : FiberAndThread Cb} {isActive tickleMe : Bool} (h : w.Fits)
    (hph : w.phase = .scanned ft isActive tickleMe)
    (hft : ft.fiber ≠ none ∨ ft.cb.isSome = true) : isActive = true := by
  rw [Fits, hph] at h
  cases isActive with
  | true => rfl
  | false =>
      obtain ⟨hf, hcb⟩ := h rfl
      rcases hft with hft | hft
      · exact absurd hf hft
      · rw [hcb] at hft
        cases hft

theorem Step.fits (h : w.Step s a s' w') (hw : w.Fits) (hready : ∀ f, s.state f ≠ .ready) :
    w'.Fits := by
  cases h with
  | scanNone => exact fun _ => ⟨rfl, rfl⟩
  | scanTake => exact fun hno => (Bool.noConfusion hno)
  | tickle hph | handlingOp hph _ | skip hph | wake hph | goOn hph _ =>
      rw [Fits, hph] at hw
      exact hw
  | leave _ _ _ hterm => exact hterm
  | idleIn =>
      rw [Fits]
      cases w.idle.finished <;> exact rfl
  | @swapIn b f =>
      rw [Fits, goto]
      cases (s.state f).finished <;> exact trivial
  | reschedule _ hst => exact absurd hst (hready _)
  | reschedulingOp hph _ =>
      rw [Fits, hph] at hw
      exact hw
  | count hph =>
      rw [Fits, hph] at hw
      by_cases hzero : s.pendingEventCount = 0 <;> simp [Fits, goto, hzero, hw]
  | @look now timers timeout hph _ =>
      rw [Fits, hph] at hw
      by_cases hnone : timeout = wordSize - 1 <;> simp [Fits, goto, hnone, hw]
  | _ => trivial

/-- The counter goes with the phase. -/
theorem Step.active (h : w.Step s a s' w') (hw : w.Fits)
    (hle : w.phase.busy.toNat ≤ s.activeThreadCount) :
    s'.activeThreadCount + w.phase.busy.toNat = s.activeThreadCount + w'.phase.busy.toNat := by
  cases h with
  | scanNone hph _ | scanTake _ hph => rw [hph]; rfl
  | tickle hph =>
      rw [hph, (Scheduler.tickle_effect s).active]
      rfl
  | hold hph hf =>
      obtain rfl := hw.active hph (.inl (by simp [hf]))
      rw [hph]
      rfl
  | recycle hph _ hcb | create hph _ hcb =>
      obtain rfl := hw.active hph (.inr hcb)
      rw [hph]
      rfl
  | drop hph | inactive hph =>
      rw [hph] at hle ⊢
      exact Nat.sub_add_cancel hle
  | leave hph | swapOut hph | reschedule hph | done hph | keep hph | held hph | rescheduled hph
  | goOn hph | stop hph | handled hph | idleOut hph | wake hph | skip hph | yieldToHold hph
  | finish hph | throw hph =>
      rw [hph]
      rfl
  | idleIn hph =>
      rw [hph]
      cases hfin : w.idle.finished <;> rfl
  | @swapIn b f hph =>
      rw [hph, goto]
      cases hfin : (s.state f).finished <;> rfl
  | insideOp hph hexec | reschedulingOp hph hexec | handlingOp hph hexec =>
      obtain ⟨new, heff, -⟩ := Scheduler.exec_effect hexec
      rw [hph, heff.active]
      rfl
  | count hph =>
      rw [hph, goto]
      by_cases hzero : s.pendingEventCount = 0 <;> simp [hzero, Phase.busy]
  | @look now timers timeout hph =>
      rw [hph, goto]
      by_cases hnone : timeout = wordSize - 1 <;> simp [hnone, Phase.busy]
  | idleThrow hidle =>
      unfold inIdle at hidle
      split at hidle
      all_goals first | (rename_i hph; rw [hph]; rfl) | cases hidle
  | call hph _ hcall =>
      obtain ⟨new, heff, -⟩ := Scheduler.call_effect hcall
      rw [hph, heff.active]
      rfl

/-- Who has a task is counted. -/
theorem Step.tasked (h : w.Step s a s' w') (hw : w.phase.tasked = w.phase.busy) :
    w'.phase.tasked = w'.phase.busy := by
  cases h with
  | scanTake _ _ _ _ _ hsome => exact hsome
  | tickle hph =>
      rw [hph] at hw
      exact hw
  | idleIn =>
      show Phase.tasked (if _ then _ else _) = _
      split <;> rfl
  | swapIn | count | look =>
      rw [goto]
      split <;> rfl
  | _ => rfl

/-- The worker has found no task, and will switch into its idle fiber. -/
def idles (w : Worker Cb) : WorkerAct Cb → Bool
  | .next =>
      match w.phase with
      | .scanned ft false false => ft.fiber.isNone && !ft.cb.isSome && w.idle != .term
      | _ => false
  | _ => false

/-- Its idle fiber has returned, and it will decrement `m_idleThreadCount`. -/
def returns (w : Worker Cb) : WorkerAct Cb → Bool
  | .next =>
      match w.phase with
      | .idleBack => true
      | _ => false
  | _ => false

/-- A step that neither goes idle nor returns. -/
theorem same_idlers (hidle : w.idles a = false) (hret : w.returns a = false)
    (hcount : s'.idleThreadCount = s.idleThreadCount) (hph : w'.phase.idling = w.phase.idling) :
    s'.idleThreadCount = s.idleThreadCount - .ofNat (w.returns a).toNat ∧
      w'.phase.idling.toNat + (w.returns a).toNat = w.phase.idling.toNat + (w.idles a).toNat := by
  rw [hidle, hret, hcount, hph]
  exact ⟨(UInt64.sub_zero _).symm, rfl⟩

/-- The counter is decremented on the way back only. -/
theorem Step.idlers (h : w.Step s a s' w') :
    s'.idleThreadCount = s.idleThreadCount - .ofNat (w.returns a).toNat ∧
      w'.phase.idling.toNat + (w.returns a).toNat = w.phase.idling.toNat + (w.idles a).toNat := by
  cases h with
  | idleIn hph hf hcb hterm _ =>
      have hidle : w.idles .next = true := by
        rw [idles, hph]
        simpa [hf, hcb] using hterm
      have hret : w.returns .next = false := by rw [returns, hph]
      rw [hidle, hret, hph]
      refine ⟨(UInt64.sub_zero _).symm, ?_⟩
      cases w.idle.finished <;> rfl
  | idleOut hph =>
      have hidle : w.idles .next = false := by rw [idles, hph]
      have hret : w.returns .next = true := by rw [returns, hph]
      rw [hidle, hret, hph]
      exact ⟨rfl, rfl⟩
  | @tickle ft isActive hph =>
      refine same_idlers ?_ (by rw [returns, hph]) (Scheduler.tickle_effect s).idle
        (by rw [hph]; rfl)
      rw [idles, hph]
      cases isActive <;> rfl
  | @hold ft isActive f hph hf =>
      refine same_idlers ?_ (by rw [returns, hph]) rfl (by rw [hph]; rfl)
      rw [idles, hph]
      cases isActive <;> simp [hf]
  | @recycle ft isActive f hph _ hcb | @create ft isActive hph _ hcb =>
      refine same_idlers ?_ (by rw [returns, hph]) rfl (by rw [hph]; rfl)
      rw [idles, hph]
      cases isActive <;> simp [hcb]
  | leave hph _ _ hterm =>
      refine same_idlers ?_ (by rw [returns, hph]) rfl (by rw [hph]; rfl)
      rw [idles, hph]
      simp [hterm]
  | @swapIn b f hph =>
      refine same_idlers (by rw [idles, hph]) (by rw [returns, hph]) rfl ?_
      rw [hph, goto]
      cases (s.state f).finished <;> rfl
  | insideOp hph hexec | reschedulingOp hph hexec | handlingOp hph hexec =>
      obtain ⟨new, heff, -⟩ := Scheduler.exec_effect hexec
      exact same_idlers (by rw [idles, hph]) (by rw [returns, hph]) heff.idle (by rw [hph]; rfl)
  | count hph =>
      refine same_idlers (by rw [idles, hph]) (by rw [returns, hph]) rfl ?_
      rw [hph, goto]
      split <;> rfl
  | look hph =>
      refine same_idlers rfl rfl rfl ?_
      rw [hph, goto]
      split <;> rfl
  | wake hph | skip hph | yieldToHold hph | finish hph | throw hph =>
      exact same_idlers rfl rfl rfl (by rw [hph]; rfl)
  | idleThrow hidle =>
      refine same_idlers rfl rfl rfl ?_
      unfold inIdle at hidle
      split at hidle
      all_goals first | (rename_i hph; rw [hph]; rfl) | cases hidle
  | call hph _ hcall =>
      obtain ⟨new, heff, -⟩ := Scheduler.call_effect hcall
      exact same_idlers rfl rfl heff.idle (by rw [hph]; rfl)
  | scanNone hph | scanTake _ hph | drop hph | swapOut hph | inactive hph | reschedule hph
  | done hph | keep hph | held hph | rescheduled hph | goOn hph | stop hph | handled hph =>
      exact same_idlers (by rw [idles, hph]) (by rw [returns, hph]) rfl (by rw [hph]; rfl)

end Worker

/-! ## The active workers -/

namespace Pool

variable {s s' : Pool Cb} {a : PoolAct Cb}

/-- A worker's step keeps the count of the active workers. -/
theorem active_setWorker {i : Nat} {w w' : Worker Cb} {wa : WorkerAct Cb} {sched : Scheduler Cb}
    (h : s.sched.activeThreadCount = tally (fun w => w.phase.busy.toNat) s.workers)
    (hw : s.At i w) (hfits : w.Fits) (hstep : w.Step s.sched wa sched w') :
    sched.activeThreadCount = tally (fun w => w.phase.busy.toNat) (s.workers.set i w') := by
  have hle := le_tally (f := fun w : Worker Cb => w.phase.busy.toNat) hw
  have hcount := hstep.active hfits (h ▸ hle)
  have htally := tally_set (f := fun w : Worker Cb => w.phase.busy.toNat) w' hw
  omega

/-- `m_activeThreadCount` goes with the phases. -/
structure ActiveCounted (s : Pool Cb) : Prop where
  fits : ∀ {i w}, s.At i w → w.Fits
  ready : ∀ f, s.sched.state f ≠ .ready
  active : s.sched.activeThreadCount = tally (fun w => w.phase.busy.toNat) s.workers
  tasked : ∀ {i w}, s.At i w → w.phase.tasked = w.phase.busy

theorem activeCounted_init (ids : List Int) (now : Nat) :
    (init ids now : Pool Cb).ActiveCounted where
  fits   := fun hw => by
    rw [Worker.Fits, (init_at hw).1]
    trivial
  ready  := fun f h => by cases h
  active := by
    refine (tally_eq_zero fun w hw => ?_).symm
    obtain ⟨i, hi⟩ := List.mem_iff_getElem?.mp hw
    rw [(init_at hi).1]
    rfl
  tasked := fun hw => by
    rw [(init_at hw).1]
    rfl

theorem ActiveCounted.step (h : s.ActiveCounted) (hstep : s.Step a s') : s'.ActiveCounted := by
  cases hstep with
  | @worker i w a sched w' hw hstep =>
      refine ⟨fun {j v} hv => ?_, hstep.move.ne_ready h.ready,
        active_setWorker h.active hw (h.fits hw) hstep, fun {j v} hv => ?_⟩
      · rcases at_setWorker hw hv with ⟨-, rfl⟩ | ⟨-, hv⟩
        · exact hstep.fits (h.fits hw) h.ready
        · exact h.fits hv
      · rcases at_setWorker hw hv with ⟨-, rfl⟩ | ⟨-, hv⟩
        · exact hstep.tasked (h.tasked hw)
        · exact h.tasked hv
  | call _ hcall =>
      obtain ⟨new, heff, -⟩ := Scheduler.call_effect hcall
      exact ⟨h.fits, heff.ne_ready h.ready, heff.active.trans h.active, h.tasked⟩
  | op _ hexec =>
      obtain ⟨new, heff, -⟩ := Scheduler.exec_effect hexec
      exact ⟨h.fits, heff.ne_ready h.ready, heff.active.trans h.active, h.tasked⟩

/-- The count, by the tasks that the workers have. -/
theorem ActiveCounted.eq_countP (h : s.ActiveCounted) :
    s.sched.activeThreadCount = s.workers.countP (fun w => w.phase.tasked) := by
  rw [h.active, tally_toNat]
  refine List.countP_congr fun w hw => ?_
  obtain ⟨i, hi⟩ := List.mem_iff_getElem?.mp hw
  rw [h.tasked hi]

/-- In every run `m_activeThreadCount` is the number of workers that have taken a task
and not yet counted its `swapIn` as returned, and `stopping` is false while there is one. -/
theorem active_counted (ids : List Int) (now : Nat) (s : Pool Cb)
    (h : Reach (proceed step) (fun _ _ => True) (init ids now) s) :
    s.sched.activeThreadCount = s.workers.countP (fun w => w.phase.tasked) ∧
      ∀ i w, s.At i w → w.phase.tasked = true → s.sched.isStopping = false := by
  have hs : s.ActiveCounted := h.invariant (activeCounted_init ids now)
    fun s a s' hs _ hstep => hs.step (step_ok hstep)
  refine ⟨hs.eq_countP, fun i w hw htasked => ?_⟩
  have hpos : 0 < s.workers.countP (fun w => w.phase.tasked) :=
    List.countP_pos_iff.mpr ⟨w, List.mem_of_getElem? hw, htasked⟩
  have hne : s.sched.activeThreadCount ≠ 0 := Nat.ne_of_gt (hs.eq_countP ▸ hpos)
  simp [Scheduler.isStopping, hne]

/-- A fiber yields on one worker and goes on on another; `stop` is called meanwhile. -/
def stopMeanwhile : List (PoolAct Unit) :=
  oneAtATime ++ [.op 0, .call 0 (.stop 2), .op 0]

/-- The second worker keeps `stopping` false. -/
theorem active_counted_stopMeanwhile : ∃ s : Pool Unit,
    (s.sched.autoStop && s.sched.stopping && s.sched.queue.fibers.isEmpty) = true ∧
      s.sched.activeThreadCount = s.workers.countP (fun w => w.phase.tasked) ∧
      s.sched.isStopping = false := by
  have hrun : ((run (guarded (proceed step) fun _ _ => True) (init [10, 11] 5)
      stopMeanwhile).filter fun s : Pool Unit =>
        (s.sched.autoStop && s.sched.stopping && s.sched.queue.fibers.isEmpty) = true ∧
          ∃ w ∈ s.workers, w.phase.tasked = true).isSome = true := by decide
  obtain ⟨s, hs⟩ := Option.isSome_iff_exists.mp hrun
  obtain ⟨hs, hall⟩ := Option.filter_eq_some_iff.mp hs
  obtain ⟨hflags, w, hw, htasked⟩ := of_decide_eq_true hall
  obtain ⟨i, hi⟩ := List.mem_iff_getElem?.mp hw
  have hcounted := active_counted [10, 11] 5 s (run_reach stopMeanwhile hs)
  exact ⟨s, hflags, hcounted.1, hcounted.2 i w hi htasked⟩

/-! ## The idle workers -/

/-- The step switches a worker into its idle fiber. -/
def idles (s : Pool Cb) : PoolAct Cb → Bool
  | .worker i a => (s.workers[i]?).any fun w => w.idles a
  | _ => false

/-- The step decrements `m_idleThreadCount`. -/
def returns (s : Pool Cb) : PoolAct Cb → Bool
  | .worker i a => (s.workers[i]?).any fun w => w.returns a
  | _ => false

/-- The number of workers that are switched into their idle fiber. -/
def idlers (s : Pool Cb) : Nat :=
  s.workers.countP fun w => w.phase.idling

theorem Step.idlers (h : s.Step a s') :
    s'.sched.idleThreadCount = s.sched.idleThreadCount - .ofNat (s.returns a).toNat ∧
      s'.idlers + (s.returns a).toNat = s.idlers + (s.idles a).toNat := by
  cases h with
  | @worker i w a sched w' hw hstep =>
      obtain ⟨hcount, hidlers⟩ := hstep.idlers
      have hidles : s.idles (.worker i a) = w.idles a := by
        rw [Pool.idles, hw.getElem?]
        rfl
      have hreturns : s.returns (.worker i a) = w.returns a := by
        rw [Pool.returns, hw.getElem?]
        rfl
      rw [hidles, hreturns]
      refine ⟨hcount, ?_⟩
      have htally := tally_set (f := fun w : Worker Cb => w.phase.idling.toNat) w' hw
      rw [tally_toNat, tally_toNat] at htally
      show (s.workers.set i w').countP _ + _ = s.workers.countP _ + _
      omega
  | call _ hcall =>
      obtain ⟨new, heff, -⟩ := Scheduler.call_effect hcall
      exact ⟨heff.idle.trans (UInt64.sub_zero _).symm, rfl⟩
  | op _ hexec =>
      obtain ⟨new, heff, -⟩ := Scheduler.exec_effect hexec
      exact ⟨heff.idle.trans (UInt64.sub_zero _).symm, rfl⟩

/-- The steps of a history that switch a worker into its idle fiber. -/
def visits (es : List (Pool Cb × PoolAct Cb)) : Nat :=
  es.countP fun e => e.1.idles e.2

/-- The steps of a history that decrement `m_idleThreadCount`. -/
def backs (es : List (Pool Cb × PoolAct Cb)) : Nat :=
  es.countP fun e => e.1.returns e.2

variable {ids : List Int} {now : Nat} {es : List (Pool Cb × PoolAct Cb)}

theorem visits_snoc : visits (es ++ [(s, a)]) = visits es + (s.idles a).toNat := by
  rw [visits, List.countP_append, ← tally_toNat _ [(s, a)], tally_cons]
  rfl

theorem backs_snoc : backs (es ++ [(s, a)]) = backs es + (s.returns a).toNat := by
  rw [backs, List.countP_append, ← tally_toNat _ [(s, a)], tally_cons]
  rfl

theorem visits_eq_zero : visits es = 0 ↔ ∀ e ∈ es, e.1.idles e.2 = false := by
  simp [visits, List.countP_eq_zero]

/-- `m_idleThreadCount` is minus the number of returns from the idle fibers, and who is
not back is idle. -/
theorem idle_history (h : Path (proceed step) (fun _ _ => True) (init ids now) es s) :
    s.sched.idleThreadCount = -.ofNat (backs es) ∧ s.idlers + backs es = visits es := by
  refine h.invariant (I := fun es s =>
    s.sched.idleThreadCount = -.ofNat (backs es) ∧ s.idlers + backs es = visits es)
    ⟨?_, ?_⟩ fun es s a s' ⟨hcount, hidlers⟩ _ hstep => ?_
  · show (0 : UInt64) = -.ofNat 0
    rfl
  · refine List.countP_eq_zero.mpr fun w hw => ?_
    obtain ⟨i, hi⟩ := List.mem_iff_getElem?.mp hw
    rw [(init_at hi).1]
    simp [Phase.idling]
  · obtain ⟨hcount', hidlers'⟩ := (step_ok hstep).idlers
    rw [backs_snoc, visits_snoc, hcount', hcount, UInt64.ofNat_add, UInt64.neg_add]
    exact ⟨rfl, by omega⟩

/-- `m_idleThreadCount` is the number of workers in their idle fiber, the next decrement
does not wrap it around, and `hasIdleThreads` says whether there is one. -/
structure IdleCounted (s : Pool Cb) : Prop where
  count : s.sched.idleThreadCount.toNat = s.idlers
  unwrapped : ∀ {i w}, s.At i w → w.phase = .idleBack → 0 < s.sched.idleThreadCount
  has : s.sched.hasIdleThreads = true ↔ ∃ i w, s.At i w ∧ w.phase.idling = true

/-- Nobody is idle, and nobody is counted. -/
theorem idleCounted_of_none (hcount : s.sched.idleThreadCount = 0) (hnone : s.idlers = 0) :
    s.IdleCounted := by
  have hno : ∀ {i w}, s.At i w → w.phase.idling = false := fun hw => by
    simpa using List.countP_eq_zero.mp hnone _ (List.mem_of_getElem? hw)
  refine ⟨?_, fun hw hph => ?_, iff_of_false ?_ ?_⟩
  · rw [hcount, hnone]
    rfl
  · have hidle := hno hw
    rw [hph] at hidle
    cases hidle
  · simp [Scheduler.hasIdleThreads, hcount]
  · rintro ⟨i, w, hw, hidle⟩
    rw [hno hw] at hidle
    cases hidle

/-- `m_idleThreadCount` counts the idle workers in all states of a run exactly when no
worker goes idle in it. -/
theorem idle_counted_iff (ids : List Int) (now : Nat) (es : List (Pool Cb × PoolAct Cb))
    (s : Pool Cb) (h : Path (proceed step) (fun _ _ => True) (init ids now) es s) :
    (∀ t ∈ es.map Prod.fst ++ [s], t.IdleCounted) ↔ ∀ e ∈ es, e.1.idles e.2 = false := by
  have hlast : ∀ {es : List (Pool Cb × PoolAct Cb)} {s : Pool Cb},
      Path (proceed step) (fun _ _ => True) (init ids now) es s → visits es = 0 →
      s.IdleCounted := by
    intro es s h hzero
    obtain ⟨hcount, hidlers⟩ := idle_history h
    have hbacks : backs es = 0 := by omega
    rw [hbacks] at hcount
    exact idleCounted_of_none hcount (by omega)
  induction h with
  | nil => simpa using hlast .nil rfl
  | @snoc es s s' a h hg hstep ih =>
      have hsnoc := Path.snoc h hg hstep
      rw [List.map_append, ← visits_eq_zero]
      constructor
      · intro hall
        have hold : visits es = 0 :=
          visits_eq_zero.mpr (ih.mp fun t ht => hall t (List.mem_append_left _ ht))
        rw [visits_snoc, hold, Nat.zero_add]
        cases hidles : s.idles a with
        | false => rfl
        | true =>
            -- the first worker to go idle is not counted
            obtain ⟨hcount, hidlers⟩ := idle_history hsnoc
            rw [visits_snoc, hold, hidles] at hidlers
            have hone : s'.idlers + backs (es ++ [(s, a)]) = 1 := hidlers
            have hs' := (hall s' (by simp)).count
            have hbacks : backs (es ++ [(s, a)]) = 0 ∨ backs (es ++ [(s, a)]) = 1 := by omega
            rcases hbacks with hbacks | hbacks <;> rw [hcount, hbacks] at hs'
            · have hnone : 0 = s'.idlers := hs'
              omega
            · have hwrapped : wordSize - 1 = s'.idlers := hs'
              rw [wordSize] at hwrapped
              omega
      · intro hzero t ht
        rcases List.mem_append.mp ht with ht | ht
        · have hold : visits es = 0 := by
            rw [visits_snoc] at hzero
            omega
          exact ih.mpr (visits_eq_zero.mp hold) t ht
        · rw [List.mem_singleton.mp ht]
          exact hlast hsnoc hzero

/-- While the two workers pass the fiber on, none goes idle. -/
theorem idle_counted_iff_oneAtATime : ∃ (es : List (Pool Unit × PoolAct Unit)) (s : Pool Unit),
    es.map Prod.snd = oneAtATime ∧ ∀ t ∈ es.map Prod.fst ++ [s], t.IdleCounted := by
  have hrun : (run (guarded (proceed step) fun s a => s.idles a = false)
      (init [10, 11] 5 : Pool Unit) oneAtATime).isSome = true := by decide
  obtain ⟨s, hs⟩ := Option.isSome_iff_exists.mp hrun
  obtain ⟨es, hes, hmap⟩ := run_path oneAtATime hs
  exact ⟨es, s, hmap, (idle_counted_iff [10, 11] 5 es s (hes.mono fun _ _ _ => trivial)).mpr
    fun e he => hes.guard_of_mem he⟩

/-- A worker goes to sleep. -/
def goesToSleep : List (PoolAct Unit) :=
  [.worker 0 .next, .worker 0 .next, .worker 0 (.look 5), .worker 0 .next, .worker 0 .next]

/-- Its `epoll_wait` times out, and it returns to `run`. -/
def wakesAgain : List (PoolAct Unit) :=
  goesToSleep ++ [.worker 0 (.wake [] 5 0), .worker 0 .next, .worker 0 .next, .worker 0 .next]

/-- The sleeping worker is not counted, and when it is back the counter has wrapped around. -/
theorem idle_count_wrapped : ∃ s s' : Pool Unit,
    Reach (proceed step) (fun _ _ => True) (init [7] 5) s ∧
      Reach (proceed step) (fun _ _ => True) (init [7] 5) s' ∧
      (s.idlers = 1 ∧ s.sched.hasIdleThreads = false ∧ ¬ s.IdleCounted) ∧
      (s'.idlers = 0 ∧ s'.sched.idleThreadCount.toNat = 2 ^ 64 - 1 ∧
        s'.sched.hasIdleThreads = true ∧ ¬ s'.IdleCounted) := by
  have hrun : ((run (guarded (proceed step) fun _ _ => True) (init [7] 5) goesToSleep).filter
      fun s : Pool Unit => s.idlers = 1 ∧ s.sched.idleThreadCount = 0).isSome = true := by decide
  have hrun' : ((run (guarded (proceed step) fun _ _ => True) (init [7] 5) wakesAgain).filter
      fun s : Pool Unit => s.idlers = 0 ∧ s.sched.idleThreadCount = -1).isSome = true := by decide
  obtain ⟨s, hs⟩ := Option.isSome_iff_exists.mp hrun
  obtain ⟨hs, hall⟩ := Option.filter_eq_some_iff.mp hs
  obtain ⟨hidlers, hcount⟩ := of_decide_eq_true hall
  obtain ⟨s', hs'⟩ := Option.isSome_iff_exists.mp hrun'
  obtain ⟨hs', hall'⟩ := Option.filter_eq_some_iff.mp hs'
  obtain ⟨hidlers', hcount'⟩ := of_decide_eq_true hall'
  refine ⟨s, s', run_reach goesToSleep hs, run_reach wakesAgain hs', ⟨hidlers, ?_, fun hno => ?_⟩,
    hidlers', ?_, ?_, fun hno => ?_⟩
  · simp [Scheduler.hasIdleThreads, hcount]
  · have hzero := hno.count
    rw [hidlers, hcount] at hzero
    cases hzero
  · rw [hcount']
    rfl
  · rw [Scheduler.hasIdleThreads, hcount']
    rfl
  · have hzero := hno.count
    rw [hidlers', hcount'] at hzero
    cases hzero

end Pool

end CoLib
