/-
# `CoLib.Scheduler.Wakeup` — no task is left without a wake-up

A push onto an empty queue tickles, and so does a scan that passes over a task
for another thread.  A push onto a queue that is not empty does not: it relies on
somebody who will look at the queue, or on a byte that is still in the pipe.

`IOManager::tickle` returns when `hasIdleThreads`, where it should return when
there are none; and `run` only ever decrements `m_idleThreadCount`, so that the
first worker back from `idle` turns 0 into the largest `size_t`.  From then on no
byte is written.

**Proved here.**  `wakeup_pending`: in runs in which `tickle` finds
`m_idleThreadCount` at 0, and no thread schedules its own main fiber, there is a
byte in the pipe whenever all workers are blocked, no thread is between a push and
its `tickle`, and there is a task for one of the workers.  `wakeup_missing` is a run
that does not meet this.
-/
import CoLib.Scheduler.Hand

namespace CoLib

open Lib

variable {Cb : Type}

/-! ## Workers that will look at the queue -/

/-- The worker scans, or tickles, before it blocks or leaves. -/
def Phase.awake : Phase Cb → Bool
  | .scanned _ isActive tickleMe => isActive || tickleMe
  | .looking | .timed | .counted | .blocked | .idlePastEnd | .left => false
  | _ => true

namespace Worker

variable {s s' : Scheduler Cb} {w w' : Worker Cb} {a : WorkerAct Cb} {f : FiberPtr}

/-- The worker has switched into the fiber and not settled it. -/
def Occupies (w : Worker Cb) (f : FiberPtr) : Prop :=
  ∃ r b, w.phase.hand = some (r, b, f) ∧ r ≠ .pending

/-- A worker with a fiber in hand will scan again. -/
theorem Occupies.awake (h : w.Occupies f) : w.phase.awake = true := by
  obtain ⟨r, b, hh, hr⟩ := h
  cases hph : w.phase with
  | scanned ft isActive tickleMe =>
      rw [hph, Phase.hand] at hh
      obtain ⟨f', -, heq⟩ := Option.map_eq_some_iff.mp hh
      exact absurd (Prod.mk.inj heq).1.symm hr
  | looking | timed | counted | blocked | idlePastEnd | left =>
      rw [hph] at hh
      cases hh
  | _ => rfl

/-- A worker after its step is awake; or it was not before and has changed nothing
that matters; or it has found nothing to do; or it has called `tickle`. -/
theorem Step.awake (h : w.Step s a s' w') :
    w'.phase.awake = true ∨
    (w.phase.awake = false ∧ s'.queue = s.queue ∧ s'.pipe = s.pipe) ∨
    (w.phase = .scan ∧ s' = s ∧ ∀ e ∈ s.queue.fibers, e.running s.state = true) ∨
    (a = .next ∧ w.phase.op = some .tickle ∧ s' = s.tickle) := by
  cases h with
  | scanNone hph hall =>
      by_cases hpin : (s.queue.fibers.any fun e => e.elsewhere w.id) = true
      · exact .inl hpin
      · refine .inr (.inr (.inl ⟨hph, rfl, fun e he => ?_⟩))
        have hno : e.elsewhere w.id = false := by
          by_contra hyes
          exact hpin (List.any_eq_true.mpr ⟨e, he, by simpa using hyes⟩)
        simpa [FiberAndThread.eligible, hno] using hall e he
  | tickle hph => exact .inr (.inr (.inr ⟨rfl, by rw [hph]; rfl, rfl⟩))
  | leave hph | idleIn hph | goOn hph => exact .inr (.inl ⟨by rw [hph]; rfl, rfl, rfl⟩)
  | count hph | look hph => exact .inr (.inl ⟨by rw [hph]; rfl, rfl, rfl⟩)
  | swapIn =>
      refine .inl ?_
      rw [goto]
      split <;> rfl
  | _ => exact .inl rfl

theorem Occupies.eq {r : Role} {b : Branch} {f₀ : FiberPtr} (h : w.Occupies f)
    (hh : w.phase.hand = some (r, b, f₀)) : f = f₀ := by
  obtain ⟨r', b', hh', -⟩ := h
  rw [hh] at hh'
  cases hh'
  rfl

theorem not_occupies (hh : w.phase.hand = none) : ¬ w.Occupies f := by
  rintro ⟨r, b, hh', -⟩
  rw [hh] at hh'
  cases hh'

/-- A fiber is in `EXEC` after a step because it is a main fiber, because this worker
occupies it, or because it was and is occupied as before. -/
theorem Move.exec (h : Move s w a s' w') (hready : ∀ f, s.state f ≠ .ready)
    (hexec : s'.state f = .exec) :
    (s'.fiber f).stack = false ∨ w'.Occupies f ∨
      (s'.fiber f = s.fiber f ∧ (w.Occupies f → w'.Occupies f)) := by
  -- a step that is about the fiber `f₀` and leaves it in another state
  have hother : ∀ {f₀ r b x}, w.phase.hand = some (r, b, f₀) → x.state ≠ .exec →
      s' = s.setFiber f₀ x → s'.fiber f = s.fiber f ∧ (w.Occupies f → w'.Occupies f) := by
    rintro f₀ r b x hh hx rfl
    have hne : f ≠ f₀ := by
      rintro rfl
      rw [Scheduler.state, Scheduler.setFiber_self] at hexec
      exact hx hexec
    exact ⟨Scheduler.setFiber_of_ne _ hne _, fun ho => absurd (ho.eq hh) hne⟩
  cases h with
  | quiet hgrows hh _ =>
      rcases hgrows.made f with heq | hinit | ⟨-, hmain⟩
      · refine .inr (.inr ⟨heq, ?_⟩)
        rintro ⟨r, b, ho, hr⟩
        exact ⟨r, b, hh.trans ho, hr⟩
      · exact absurd (hinit.symm.trans hexec) (by simp)
      · exact .inl hmain
  | take _ _ hnone _ _ hfiber _ _ _ =>
      exact .inr (.inr ⟨by rw [hfiber], fun ho => absurd ho (not_occupies hnone)⟩)
  | @recycle f₀ hnone _ _ hs _ _ =>
      have hne : f ≠ f₀ := by
        rintro rfl
        simp [hs, Scheduler.state] at hexec
      exact .inr (.inr ⟨by rw [hs]; exact Scheduler.setFiber_of_ne _ hne _,
        fun ho => absurd ho (not_occupies hnone)⟩)
  | create hnone _ hs _ _ =>
      have hne : f ≠ s.fiberCount := by
        rintro rfl
        simp [hs, Scheduler.state] at hexec
      exact .inr (.inr ⟨by rw [hs]; exact Scheduler.newFiber_of_ne _ hne _,
        fun ho => absurd ho (not_occupies hnone)⟩)
  | @swapIn b f₀ hh hst hs hph _ =>
      by_cases hf : f = f₀
      · subst hf
        have hh' : w'.phase.hand = some (.inside, b, f) := by
          rw [hph]
          split <;> rfl
        exact .inr (.inl ⟨_, _, hh', by simp⟩)
      · refine .inr (.inr ⟨by rw [hs]; exact Scheduler.setFiber_of_ne _ hf _, fun ho => ?_⟩)
        exact absurd (ho.eq hh) hf
  | yield hh _ hs hh' _ | swapOut hh hs hh' _ =>
      refine .inr (.inr ⟨by rw [hs], fun ho => ?_⟩)
      obtain rfl := ho.eq hh
      exact ⟨_, _, hh', by simp⟩
  | finish ok _ hh hs _ _ => exact .inr (.inr (hother hh (by cases ok <;> simp) hs))
  | reschedule _ hst _ _ _ => exact absurd hst (hready _)
  | @done f₀ hh hfin hs _ _ =>
      refine .inr (.inr ⟨by rw [hs], fun ho => ?_⟩)
      obtain rfl := ho.eq hh
      rw [hs] at hexec
      rw [hexec] at hfin
      cases hfin
  | keep hh _ hs _ _ => exact .inr (.inr (hother hh (by simp) hs))
  | held hh _ hs _ _ => exact .inr (.inr (hother hh (by simp) hs))

/-- What a step leaves in the queue was there, or the step schedules it. -/
theorem Move.scheduled (h : Move s w a s' w') (hready : ∀ f, s.state f ≠ .ready)
    {e : FiberAndThread Cb} (he : e ∈ s'.queue.fibers) (hf : e.fiber = some f) :
    (∃ x ∈ s.queue.fibers, x.fiber = some f) ∨ ∃ fc ∈ w.fcs a, f ∈ fc.ptr := by
  have hsame : s'.queue = s.queue → ∃ x ∈ s.queue.fibers, x.fiber = some f :=
    fun hq => ⟨e, hq ▸ he, hf⟩
  cases h with
  | quiet hgrows _ _ => exact hgrows.scheduled he hf
  | take _ _ _ _ hsub _ _ _ _ => exact .inl ⟨e, hsub e he, hf⟩
  | recycle _ _ _ hs _ _ | create _ _ hs _ _ | swapIn _ _ hs _ _ | keep _ _ hs _ _
  | held _ _ hs _ _ | finish _ _ _ hs _ _ => exact .inl (hsame (by rw [hs]; rfl))
  | yield _ _ hs _ _ | done _ _ hs _ _ | swapOut _ hs _ _ => exact .inl (hsame (by rw [hs]))
  | reschedule _ hst _ _ _ => exact absurd hst (hready _)

end Worker

/-! ## Whole runs -/

theorem no_drain_owed (b : Bool) : .drain ∉ (owed b : List (Op Cb)) := by
  cases b <;> simp [owed]

/-- Only reading the pipe takes bytes from it, and nothing that is left to be done
reads it. -/
theorem Scheduler.exec_pipe {s s' : Scheduler Cb} {op : Op Cb} {more : List (Op Cb)}
    (h : s.exec op = some (s', more)) :
    (op ≠ .drain → s.pipe ≤ s'.pipe) ∧ .drain ∉ more := by
  cases op with
  | tickle =>
      cases h
      refine ⟨fun _ => ?_, by simp⟩
      rw [tickle]
      split
      · exact le_rfl
      · exact Nat.le_succ _
  | schedule fcs =>
      rw [exec] at h
      split at h
      · cases h
        exact ⟨fun _ => le_rfl, no_drain_owed _⟩
      · cases h
  | expire now addr =>
      obtain ⟨⟨timers, cbs⟩, -, heq⟩ := Option.map_eq_some_iff.mp h
      cases heq
      exact ⟨fun _ => le_rfl, by split <;> simp⟩
  | drain =>
      cases h
      exact ⟨fun hop => absurd rfl hop, by simp⟩
  | uncount | setStopping =>
      cases h
      exact ⟨fun _ => le_rfl, by simp⟩
  | trigger fc =>
      rw [exec] at h
      split at h
      · cases h
      · cases h
        exact ⟨fun _ => le_rfl, by simp [no_drain_owed]⟩

theorem Scheduler.call_pipe {s s' : Scheduler Cb} {c : Call Cb} {ops : List (Op Cb)}
    (h : s.call c = some (s', ops)) : s.pipe ≤ s'.pipe ∧ .drain ∉ ops := by
  cases c with
  | schedule fc thread =>
      rw [call] at h
      split at h
      · cases h
        exact ⟨le_rfl, no_drain_owed _⟩
      · cases h
  | scheduleAll fcs =>
      have h : s.exec (.schedule fcs) = some (s', ops) := h
      exact (exec_pipe h).imp_left fun h => h (by simp)
  | newFiber cb | mainFiber | addEvent =>
      cases h
      exact ⟨le_rfl, by simp⟩
  | addTimer ms cb recurring now addr =>
      cases h
      exact ⟨le_rfl, no_drain_owed _⟩
  | cancelTimer p | refreshTimer p now =>
      obtain ⟨x, -, heq⟩ := Option.map_eq_some_iff.mp h
      cases heq
      exact ⟨le_rfl, by simp⟩
  | resetTimer p ms fromNow now =>
      obtain ⟨x, -, heq⟩ := Option.map_eq_some_iff.mp h
      cases heq
      exact ⟨le_rfl, no_drain_owed _⟩
  | delEvent =>
      rw [call] at h
      split at h
      · cases h
      · cases h
        exact ⟨le_rfl, by simp⟩
  | cancelEvent fc =>
      have h : s.exec (.trigger fc) = some (s', ops) := h
      exact (exec_pipe h).imp_left fun h => h (by simp)
  | stop threads =>
      cases h
      exact ⟨le_rfl, by simp [List.mem_replicate]⟩

namespace Pool

variable {s s' : Pool Cb} {a : PoolAct Cb}

/-- `tickle` finds no idle threads counted, and no thread schedules its own main
fiber. -/
def Tickles (s : Pool Cb) (a : PoolAct Cb) : Prop :=
  (s.nextOp a = some .tickle → s.sched.idleThreadCount = 0) ∧
    ∀ fc ∈ s.fcs a, ∀ f ∈ fc.ptr, (s.sched.fiber f).stack = true

instance [DecidableEq Cb] (s : Pool Cb) (a : PoolAct Cb) : Decidable (s.Tickles a) :=
  inferInstanceAs (Decidable (_ ∧ _))

/-- Somebody will look at the queue; `pushing` are the threads outside that have
pushed a task in their call. -/
def Noticed (s : Pool Cb) (pushing : Nat → Bool) : Prop :=
  0 < s.sched.pipe ∨ (∃ t, pushing t = true ∧ .tickle ∈ s.outside t) ∨
    ∃ i w, s.At i w ∧ w.phase.awake = true

/-- If there is a task, somebody will look at the queue; a fiber in `EXEC` is
occupied by a worker, or is a main fiber and not in the queue. -/
structure Watched (s : Pool Cb) (pushing : Nat → Bool) : Prop where
  known : s.Known
  noticed : s.sched.queue.fibers ≠ [] → s.Noticed pushing
  occupied : ∀ f, s.sched.state f = .exec → (s.sched.fiber f).stack = false ∨
    ∃ i w, s.At i w ∧ w.Occupies f
  ready : ∀ f, s.sched.state f ≠ .ready
  stack : ∀ {f}, s.Queued f → (s.sched.fiber f).stack = true
  drain : ∀ t, .drain ∉ s.outside t

theorem watched_init (ids : List Int) (now : Nat) (pushing : Nat → Bool) :
    (init ids now : Pool Cb).Watched pushing where
  known    := known_init ids now
  noticed  := fun h => absurd rfl h
  occupied := fun f h => by cases h
  ready    := fun f h => by cases h
  stack    := fun h => absurd h init_not_queued
  drain    := fun t h => by cases h

/-- `tickle` writes a byte when no idle threads are counted. -/
theorem pipe_tickle {s : Scheduler Cb} (h : s.idleThreadCount = 0) : 0 < s.tickle.pipe := by
  rw [Scheduler.tickle, if_neg]
  · exact Nat.succ_pos _
  · simp [Scheduler.hasIdleThreads, h]

/-- A thread outside makes a call, or goes on with one. -/
theorem Watched.outside {pushing : Nat → Bool} (h : s.Watched pushing) {t : Nat}
    {sched : Scheduler Cb} {ops : List (Op Cb)} {b : Bool} {fcs : List (FiberOrCb Cb)}
    {new : List (FiberAndThread Cb)} (hg : s.sched.Grows sched fcs new)
    (hfcs : ∀ fc ∈ fcs, ∀ f ∈ fc.ptr, (s.sched.fiber f).stack = true)
    (howes : new ≠ [] → s.sched.queue.fibers = [] → .tickle ∈ ops) (hb : new ≠ [] → b = true)
    (hpipe : s.sched.pipe ≤ sched.pipe) (hdrain : .drain ∉ ops)
    (htickle : pushing t = true → .tickle ∈ s.outside t →
      0 < sched.pipe ∨ (b = true ∧ .tickle ∈ ops)) :
    ({ s with sched, outside := Function.update s.outside t ops } : Pool Cb).Watched
      (Function.update pushing t b) := by
  have hmine : b = true ∧ .tickle ∈ ops →
      ({ s with sched, outside := Function.update s.outside t ops } : Pool Cb).Noticed
        (Function.update pushing t b) := by
    intro hmem
    refine .inr (.inl ⟨t, ?_⟩)
    show _ ∧ Op.tickle ∈ Function.update s.outside t ops t
    rwa [Function.update_self, Function.update_self]
  refine ⟨h.known.grows hg rfl, fun hne => ?_, fun f hexec => ?_, fun f => ?_, fun {f} hq => ?_,
    fun u => ?_⟩
  · by_cases hempty : s.sched.queue.fibers = []
    · have hnew : new ≠ [] := by
        rintro rfl
        exact hne (by simp [hg.queue.fibers, hempty])
      exact hmine ⟨hb hnew, howes hnew hempty⟩
    · rcases h.noticed hempty with hbyte | ⟨u, hpush, hu⟩ | hawake
      · exact .inl (hbyte.trans_le hpipe)
      · by_cases hut : u = t
        · subst hut
          exact (htickle hpush hu).elim .inl hmine
        · refine .inr (.inl ⟨u, ?_⟩)
          show _ ∧ Op.tickle ∈ Function.update s.outside t ops u
          rw [Function.update_of_ne hut, Function.update_of_ne hut]
          exact ⟨hpush, hu⟩
      · exact .inr (.inr hawake)
  · have hexec : (sched.fiber f).state = .exec := hexec
    rcases hg.made f with heq | hinit | ⟨-, hmain⟩
    · rw [heq] at hexec ⊢
      exact h.occupied f hexec
    · exact absurd (hinit.symm.trans hexec) (by simp)
    · exact .inl hmain
  · exact hg.ne_ready h.ready f
  · obtain ⟨e, he, hf⟩ := hq
    have hlt : f < s.sched.fiberCount := (hg.queued he hf).elim h.known.queued id
    show (sched.fiber f).stack = true
    rw [hg.fiber f hlt]
    exact (hg.scheduled he hf).elim h.stack fun ⟨fc, hfc, hptr⟩ => hfcs fc hfc f hptr
  · show Op.drain ∉ Function.update s.outside t ops u
    by_cases hut : u = t
    · rwa [hut, Function.update_self]
    · rw [Function.update_of_ne hut]
      exact h.drain u

/-- A worker makes a step. -/
theorem Watched.worker {pushing : Nat → Bool} (h : s.Watched pushing) {i : Nat}
    {w w' : Worker Cb} {a : WorkerAct Cb}
    {sched : Scheduler Cb} (hw : s.At i w) (hstep : w.Step s.sched a sched w')
    (hg : s.Tickles (.worker i a)) : (s.setWorker i sched w').Watched pushing := by
  have hmove := hstep.move
  have hfcs := fcs_worker hw a
  refine ⟨h.known.worker hw hmove, fun hne => ?_, fun f hexec => ?_, hmove.ne_ready h.ready,
    fun {f} hin => ?_, h.drain⟩
  · rcases hstep.awake with hawake | ⟨hasleep, hq, hp⟩ | ⟨hph, hsched, hall⟩ | ⟨ha, hop, hsched⟩
    · exact .inr (.inr ⟨i, w', at_setWorker_self hw, hawake⟩)
    · have hne : s.sched.queue.fibers ≠ [] := by
        rw [← hq]
        exact hne
      rcases h.noticed hne with hbyte | hout | ⟨j, v, hv, hawake⟩
      · exact .inl (hbyte.trans_eq hp.symm)
      · exact .inr (.inl hout)
      · have hji : j ≠ i := by
          rintro rfl
          obtain rfl := hw.unique hv
          rw [hasleep] at hawake
          cases hawake
        exact .inr (.inr ⟨j, v, at_setWorker_ne hji hv, hawake⟩)
    · -- all tasks are fibers in `EXEC`, each occupied by another worker
      subst hsched
      obtain ⟨e, he⟩ := List.exists_mem_of_ne_nil _ hne
      obtain ⟨f, hf, hexec⟩ := FiberAndThread.running_eq_true.mp (hall e he)
      rcases h.occupied f hexec with hmain | ⟨j, v, hv, hocc⟩
      · exact absurd ((h.stack ⟨e, he, hf⟩).symm.trans hmain) (by simp)
      · have hji : j ≠ i := by
          rintro rfl
          obtain rfl := hw.unique hv
          exact Worker.not_occupies (by rw [hph]; rfl) hocc
        exact .inr (.inr ⟨j, v, at_setWorker_ne hji hv, hocc.awake⟩)
    · have hzero : s.sched.idleThreadCount = 0 := by
        refine hg.1 ?_
        rw [ha, nextOp, hw.getElem?]
        exact hop
      refine .inl ?_
      show 0 < sched.pipe
      rw [hsched]
      exact pipe_tickle hzero
  · rcases hmove.exec h.ready hexec with hmain | hocc | ⟨heq, hkeep⟩
    · exact .inl hmain
    · exact .inr ⟨i, w', at_setWorker_self hw, hocc⟩
    · have hold : s.sched.state f = .exec := by
        rw [Scheduler.state, ← heq]
        exact hexec
      rcases h.occupied f hold with hmain | ⟨j, v, hv, hocc⟩
      · exact .inl ((congrArg Fiber.stack heq).trans hmain)
      · by_cases hji : j = i
        · subst hji
          obtain rfl := hw.unique hv
          exact .inr ⟨j, w', at_setWorker_self hw, hkeep hocc⟩
        · exact .inr ⟨j, v, at_setWorker_ne hji hv, hocc⟩
  · obtain ⟨e, he, hf⟩ := hin
    have hlt : f < s.sched.fiberCount := by
      rcases hmove.queued he hf with hx | hlt | hf
      · exact h.known.queued hx
      · exact hlt
      · exact h.known.has hw hf
    show (sched.fiber f).stack = true
    rw [hmove.stack hlt]
    rcases hmove.scheduled h.ready he hf with hold | ⟨fc, hfc, hptr⟩
    · exact h.stack hold
    · exact hg.2 fc (hfcs ▸ hfc) f hptr

end Pool

/-! ### Threads that push -/

/-- The thread outside that makes a step. -/
def PoolAct.thread : PoolAct Cb → Option Nat
  | .worker _ _ => none
  | .call t _ => some t
  | .op t => some t

/-- A pool, and the threads outside that have pushed a task in the call they are in. -/
structure Traced (Cb : Type) where
  pool : Pool Cb
  pushing : Nat → Bool := fun _ => false

namespace Traced

/-- A step that leads to `s` has pushed a task. -/
def pushed (x : Traced Cb) (s : Pool Cb) : Bool :=
  decide (x.pool.sched.queue.pushed.length < s.sched.queue.pushed.length)

/-- Which threads outside have pushed a task, when a step has led to `s`. -/
def pushingAfter (x : Traced Cb) (s : Pool Cb) : PoolAct Cb → Nat → Bool
  | .worker _ _ => x.pushing
  | .call t _ => Function.update x.pushing t (x.pushed s)
  | .op t => Function.update x.pushing t (x.pushing t || x.pushed s)

def step (x : Traced Cb) (a : PoolAct Cb) : Option (Except Assertion (Traced Cb)) :=
  (x.pool.step a).map fun r => r.map fun s => { pool := s, pushing := x.pushingAfter s a }

def init (ids : List Int) (now : Nat) : Traced Cb :=
  { pool := .init ids now }

variable {x x' : Traced Cb} {a : PoolAct Cb}

theorem step_ok (h : proceed step x a = some x') :
    x.pool.Step a x'.pool ∧ x'.pushing = x.pushingAfter x'.pool a := by
  rw [proceed_eq_some] at h
  obtain ⟨r, hr, heq⟩ := Option.map_eq_some_iff.mp h
  obtain ⟨s, rfl, rfl⟩ := map_ok heq
  exact ⟨Pool.step_ok (proceed_eq_some.mpr hr), rfl⟩

/-- An append that is not empty is a push. -/
theorem pushed_of_appends {s : Pool Cb} {new : List (FiberAndThread Cb)}
    (h : x.pool.sched.queue.Appends s.sched.queue new) (hnew : new ≠ []) :
    x.pushed s = true := by
  have hlen := congrArg List.length h.pushed
  rw [List.length_append] at hlen
  have hpos := List.length_pos_of_ne_nil hnew
  exact decide_eq_true (by omega)

/-- Somebody will look at the queue. -/
def Watched (x : Traced Cb) : Prop :=
  x.pool.Watched x.pushing

theorem Watched.step (h : x.Watched) (hstep : x.pool.Step a x'.pool)
    (hpushing : x'.pushing = x.pushingAfter x'.pool a) (hg : x.pool.Tickles a) : x'.Watched := by
  rw [Watched, hpushing]
  generalize x'.pool = s' at hstep
  cases hstep with
  | worker hw hstep => exact h.worker hw hstep hg
  | call hidle hcall =>
      obtain ⟨new, heff, howes⟩ := Scheduler.call_effect hcall
      obtain ⟨hpipe, hdrain⟩ := Scheduler.call_pipe hcall
      refine h.outside heff.toGrows hg.2 howes (fun hnew => pushed_of_appends heff.queue hnew) hpipe
        hdrain fun _ hmem => ?_
      rw [hidle] at hmem
      cases hmem
  | @op t op ops sched more hout hexec =>
      obtain ⟨new, heff, howes⟩ := Scheduler.exec_effect hexec
      obtain ⟨hpipe, hdrain⟩ := Scheduler.exec_pipe hexec
      have hops : .drain ∉ op :: ops := hout ▸ h.drain t
      have hfcs := Pool.fcs_op hout
      refine h.outside heff.toGrows (hfcs ▸ hg.2)
        (fun hnew hempty => List.mem_append_left _ (howes hnew hempty))
        (fun hnew => Bool.or_eq_true_iff.mpr (.inr (pushed_of_appends heff.queue hnew)))
        (hpipe fun hop => hops (hop ▸ List.mem_cons_self)) (fun hmem => ?_) fun hpush hmem => ?_
      · rcases List.mem_append.mp hmem with hmem | hmem
        · exact hdrain hmem
        · exact hops (List.mem_cons_of_mem _ hmem)
      · rw [hout] at hmem
        rcases List.mem_cons.mp hmem with hop | hmem
        · -- the operation is the `tickle`, and it writes
          subst hop
          have hzero : x.pool.sched.idleThreadCount = 0 := by
            refine hg.1 ?_
            rw [Pool.nextOp, hout]
            rfl
          cases hexec
          exact .inl (Pool.pipe_tickle hzero)
        · exact .inr ⟨Bool.or_eq_true_iff.mpr (.inl hpush), List.mem_append_right _ hmem⟩

/-- All workers are in `epoll_wait`, no call is between its push and its `tickle`, and
there is a task that one of the workers may run. -/
structure Asleep (x : Traced Cb) : Prop where
  blocked : ∀ i w, x.pool.At i w → w.phase = .blocked
  quiet : ∀ t, x.pushing t = true → .tickle ∉ x.pool.outside t
  task : ∃ i w e, x.pool.At i w ∧ e ∈ x.pool.sched.queue.fibers ∧
    e.eligible w.id x.pool.sched.state = true

/-- While `tickle` finds no idle threads counted, and main fibers are not scheduled,
nobody sleeps on a task without a byte in the pipe. -/
theorem wakeup_pending (ids : List Int) (now : Nat) (x : Traced Cb)
    (h : Reach (proceed step) (fun x a => x.pool.Tickles a) (init ids now) x)
    (hasleep : x.Asleep) : 0 < x.pool.sched.pipe := by
  have hx : x.Watched := h.invariant (Pool.watched_init ids now _)
    fun x a x' hx hg hstep => hx.step (step_ok hstep).1 (step_ok hstep).2 hg
  obtain ⟨-, -, e, -, he, -⟩ := hasleep.task
  rcases hx.noticed (List.ne_nil_of_mem he) with hbyte | ⟨t, hpush, hmem⟩ | ⟨i, w, hw, hawake⟩
  · exact hbyte
  · exact absurd hmem (hasleep.quiet t hpush)
  · rw [hasleep.blocked i w hw] at hawake
    cases hawake

/-- A thread that makes no step pushes nothing. -/
theorem pushing_of_ne {G : Traced Cb → PoolAct Cb → Prop} {x₀ : Traced Cb} {t : Nat}
    (hG : ∀ x a, G x a → a.thread ≠ some t) (h : Reach (proceed step) G x₀ x) :
    x.pushing t = x₀.pushing t := by
  refine h.invariant (I := fun x => x.pushing t = x₀.pushing t) rfl fun x a x' hx hg hstep => ?_
  have ht := hG x a hg
  rw [(step_ok hstep).2]
  cases a with
  | worker i a => exact hx
  | call u c | op u =>
      have hut : t ≠ u := fun htu => ht (congrArg some htu.symm)
      exact (Function.update_of_ne hut _ _).trans hx

/-- `Asleep`, where only thread 0 has made calls. -/
theorem asleep_of (h : ∀ t ≠ 0, x.pushing t = false)
    (h₀ : (∀ w ∈ x.pool.workers, w.phase = .blocked) ∧ .tickle ∉ x.pool.outside 0 ∧
      ∃ w ∈ x.pool.workers, ∃ e ∈ x.pool.sched.queue.fibers,
        e.eligible w.id x.pool.sched.state = true) : x.Asleep := by
  obtain ⟨hblocked, hquiet, w, hw, e, he, hrun⟩ := h₀
  obtain ⟨i, hi⟩ := List.mem_iff_getElem?.mp hw
  refine ⟨fun i w hw => hblocked w (List.mem_of_getElem? hw), fun t hpush => ?_, i, w, e, hi, he,
    hrun⟩
  by_cases ht : t = 0
  · rwa [ht]
  · rw [h t ht] at hpush
    cases hpush

/-- A worker goes to sleep, and a thread outside schedules a callback. -/
def firstTask : List (PoolAct Unit) :=
  [.worker 0 .next, .worker 0 .next, .worker 0 (.look 5), .worker 0 .next, .worker 0 .next,
    .call 0 (.schedule (.cb (some ())) (-1)), .op 0]

/-- There is a byte for the worker. -/
theorem wakeup_pending_firstTask : ∃ x : Traced Unit, x.Asleep ∧ 0 < x.pool.sched.pipe := by
  have hrun : ((run (guarded (proceed step) fun x a => x.pool.Tickles a ∧ a.thread.all (· = 0))
      (init [7] 5) firstTask).filter fun x =>
        (∀ w ∈ x.pool.workers, w.phase = .blocked) ∧ .tickle ∉ x.pool.outside 0 ∧
          ∃ w ∈ x.pool.workers, ∃ e ∈ x.pool.sched.queue.fibers,
            e.eligible w.id x.pool.sched.state = true).isSome = true := by decide
  obtain ⟨x, hx⟩ := Option.isSome_iff_exists.mp hrun
  obtain ⟨hx, h₀⟩ := Option.filter_eq_some_iff.mp hx
  have hreach := run_reach firstTask hx
  have hasleep : x.Asleep := by
    refine asleep_of (fun t ht => ?_) (of_decide_eq_true h₀)
    refine pushing_of_ne (fun x a hg heq => ?_) hreach
    rw [heq] at hg
    exact ht (by simpa using hg.2)
  exact ⟨x, hasleep, wakeup_pending [7] 5 x (hreach.mono fun _ _ hg => hg.1) hasleep⟩

/-- The worker goes to sleep twice before the callback is scheduled. -/
def secondSleep : List (PoolAct Unit) :=
  [.worker 0 .next, .worker 0 .next, .worker 0 (.look 5), .worker 0 .next, .worker 0 .next,
    .worker 0 (.wake [] 5 0), .worker 0 .next, .worker 0 .next, .worker 0 .next,
    .worker 0 .next, .worker 0 .next, .worker 0 (.look 5), .worker 0 .next, .worker 0 .next,
    .call 0 (.schedule (.cb (some ())) (-1)), .op 0]

/-- Nobody is told about the callback. -/
theorem wakeup_missing : ∃ x : Traced Unit,
    Reach (proceed step) (fun _ _ => True) (init [7] 5) x ∧ x.Asleep ∧
      x.pool.sched.pipe = 0 := by
  have hrun : ((run (guarded (proceed step) fun _ a => a.thread.all (· = 0)) (init [7] 5)
      secondSleep).filter fun x =>
        ((∀ w ∈ x.pool.workers, w.phase = .blocked) ∧ .tickle ∉ x.pool.outside 0 ∧
          ∃ w ∈ x.pool.workers, ∃ e ∈ x.pool.sched.queue.fibers,
            e.eligible w.id x.pool.sched.state = true) ∧
        x.pool.sched.pipe = 0).isSome = true := by decide
  obtain ⟨x, hx⟩ := Option.isSome_iff_exists.mp hrun
  obtain ⟨hx, h₀⟩ := Option.filter_eq_some_iff.mp hx
  have hreach := run_reach secondSleep hx
  obtain ⟨h₀, hpipe⟩ := of_decide_eq_true h₀
  refine ⟨x, hreach.mono fun _ _ _ => trivial, asleep_of (fun t ht => ?_) h₀, hpipe⟩
  refine pushing_of_ne (fun x a hg heq => ?_) hreach
  rw [heq] at hg
  exact ht (by simpa using hg)

end Traced

end CoLib
