/-
# `CoLib.Scheduler.Steps` — what a step of a worker can do

`Worker.Step` lists the steps, one constructor for each, with all that is known
when it is taken; `Worker.step_ok` and `Pool.step_ok` invert the step functions.
`Effect` is what any operation or call leaves alone.
-/
import CoLib.Scheduler.Basic

namespace CoLib

open Lib

variable {Cb : Type}

/-! ## Operations and calls -/

/-- What an operation schedules. -/
def Op.fcs : Op Cb → List (FiberOrCb Cb)
  | .schedule fcs => fcs
  | .trigger fc => [fc]
  | _ => []

/-- What a call schedules. -/
def Call.fcs : Call Cb → List (FiberOrCb Cb)
  | .schedule fc _ => [fc]
  | .scheduleAll fcs => fcs
  | .cancelEvent fc => [fc]
  | _ => []

namespace Scheduler

variable {s s' : Scheduler Cb} {new : List (FiberAndThread Cb)}

@[simp] theorem setFiber_self (s : Scheduler Cb) (f : FiberPtr) (x : Fiber) :
    (s.setFiber f x).fiber f = x :=
  Function.update_self ..

theorem setFiber_of_ne (s : Scheduler Cb) {f f' : FiberPtr} (h : f' ≠ f) (x : Fiber) :
    (s.setFiber f x).fiber f' = s.fiber f' :=
  Function.update_of_ne h ..

@[simp] theorem newFiber_self (s : Scheduler Cb) (x : Fiber) :
    (s.newFiber x).fiber s.fiberCount = x :=
  Function.update_self ..

theorem newFiber_of_ne (s : Scheduler Cb) {f : FiberPtr} (h : f ≠ s.fiberCount) (x : Fiber) :
    (s.newFiber x).fiber f = s.fiber f :=
  Function.update_of_ne h ..

/-- The constructed fibers are left alone, and the queue is only appended to, with
what is among `fcs`. -/
structure Grows (s s' : Scheduler Cb) (fcs : List (FiberOrCb Cb))
    (new : List (FiberAndThread Cb)) : Prop where
  queue : s.queue.Appends s'.queue new
  among : ∀ e ∈ new, ∃ fc ∈ fcs, e.fiber = (FiberAndThread.of fc e.thread e.no).fiber
  known : ∀ fc ∈ fcs, fc.known s.fiberCount = true
  fiber : ∀ f < s.fiberCount, s'.fiber f = s.fiber f
  count : s.fiberCount ≤ s'.fiberCount
  made : ∀ f, s'.fiber f = s.fiber f ∨ (s'.fiber f).state = .init ∨
    ((s'.fiber f).state = .exec ∧ (s'.fiber f).stack = false)

/-- And so are the counters of threads. -/
structure Effect (s s' : Scheduler Cb) (fcs : List (FiberOrCb Cb))
    (new : List (FiberAndThread Cb)) : Prop extends s.Grows s' fcs new where
  active : s'.activeThreadCount = s.activeThreadCount
  idle : s'.idleThreadCount = s.idleThreadCount

theorem Grows.quiet (hq : s'.queue = s.queue) (hf : s'.fiber = s.fiber)
    (hc : s'.fiberCount = s.fiberCount) : Grows s s' [] [] :=
  ⟨hq ▸ .refl _, by simp, by simp, fun _ _ => by rw [hf], hc.ge, fun _ => .inl (by rw [hf])⟩

/-- What is queued afterwards was queued before, or is scheduled. -/
theorem Grows.scheduled {fcs : List (FiberOrCb Cb)} (h : Grows s s' fcs new)
    {e : FiberAndThread Cb} {f : FiberPtr} (he : e ∈ s'.queue.fibers) (hf : e.fiber = some f) :
    (∃ x ∈ s.queue.fibers, x.fiber = some f) ∨ ∃ fc ∈ fcs, f ∈ fc.ptr := by
  rw [h.queue.fibers] at he
  rcases List.mem_append.mp he with he | he
  · exact .inl ⟨e, he, hf⟩
  · obtain ⟨fc, hfc, heq⟩ := h.among e he
    refine .inr ⟨fc, hfc, ?_⟩
    rw [hf] at heq
    cases fc with
    | fiber f' => exact heq.symm
    | cb c => cases heq

/-- And has been constructed. -/
theorem Grows.queued {fcs : List (FiberOrCb Cb)} (h : Grows s s' fcs new) {e : FiberAndThread Cb}
    {f : FiberPtr} (he : e ∈ s'.queue.fibers) (hf : e.fiber = some f) :
    (∃ x ∈ s.queue.fibers, x.fiber = some f) ∨ f < s.fiberCount := by
  refine (h.scheduled he hf).imp_right fun ⟨fc, hfc, hptr⟩ => ?_
  have hk := h.known fc hfc
  cases fc with
  | fiber f' =>
      obtain rfl : f' = some f := hptr
      simpa [FiberOrCb.known] using hk
  | cb c => cases hptr

/-- Nothing else is in `READY` afterwards. -/
theorem Grows.ne_ready {fcs : List (FiberOrCb Cb)} (h : Grows s s' fcs new)
    (hready : ∀ f, s.state f ≠ .ready) (f : FiberPtr) : s'.state f ≠ .ready := by
  rw [state]
  rcases h.made f with heq | hinit | ⟨hexec, -⟩
  · rw [heq]
    exact hready f
  · simp [hinit]
  · simp [hexec]

theorem tickle_effect (s : Scheduler Cb) : Effect s s.tickle [] [] := by
  rw [tickle]
  split <;> exact ⟨.quiet rfl rfl rfl, rfl, rfl⟩

theorem newFiber_effect (s : Scheduler Cb) {x : Fiber}
    (hx : x.state = .init ∨ (x.state = .exec ∧ x.stack = false)) :
    Effect s (s.newFiber x) [] [] where
  queue  := .refl _
  among  := by simp
  known  := by simp
  fiber  := fun f hf => Function.update_of_ne (Nat.ne_of_lt hf) _ _
  count  := Nat.le_succ _
  made   := fun f => by
    by_cases hf : f = s.fiberCount
    · subst hf
      rw [newFiber_self]
      exact .inr hx
    · exact .inl (newFiber_of_ne s hf x)
  active := rfl
  idle   := rfl

theorem schedule_effect {fc : FiberOrCb Cb} (thread : Int) (hk : fc.known s.fiberCount = true) :
    ∃ new, Effect s (s.schedule fc thread).1 [fc] new ∧
      (s.schedule fc thread).2 = owed s.queue.fibers.isEmpty := by
  refine ⟨_, ⟨⟨TaskQueue.appends_scheduleNoLock s.queue fc thread, fun e he => ?_,
    by simpa using hk, fun _ _ => rfl, le_rfl, fun _ => .inl rfl⟩, rfl, rfl⟩, rfl⟩
  split at he
  · rw [List.mem_singleton.mp he]
    exact ⟨fc, List.mem_singleton_self fc, by cases fc <;> rfl⟩
  · cases he

theorem scheduleAll_effect {fcs : List (FiberOrCb Cb)}
    (hk : ∀ fc ∈ fcs, fc.known s.fiberCount = true) :
    ∃ new, Effect s (s.scheduleAll fcs).1 fcs new ∧
      (s.scheduleAll fcs).2 = owed (s.queue.fibers.isEmpty && !fcs.isEmpty) := by
  obtain ⟨new, hnew, hof⟩ := TaskQueue.appends_scheduleRange s.queue false fcs
  refine ⟨new, ⟨⟨hnew, fun e he => ?_, hk, fun _ _ => rfl, le_rfl, fun _ => .inl rfl⟩,
    rfl, rfl⟩, ?_⟩
  · obtain ⟨fc, hfc, heq⟩ := hof e he
    refine ⟨fc, hfc, ?_⟩
    rw [heq]
    cases fc <;> rfl
  · rw [← Bool.false_or (s.queue.fibers.isEmpty && _), ← TaskQueue.scheduleRange_need]
    rfl

/-- A push onto an empty queue leaves a `tickle` to be done. -/
def Owes (s : Scheduler Cb) (new : List (FiberAndThread Cb)) (ops : List (Op Cb)) : Prop :=
  new ≠ [] → s.queue.fibers = [] → .tickle ∈ ops

theorem exec_effect {op : Op Cb} {more : List (Op Cb)} (h : s.exec op = some (s', more)) :
    ∃ new, Effect s s' op.fcs new ∧ s.Owes new more := by
  cases op with
  | tickle =>
      cases h
      exact ⟨[], tickle_effect s, fun hne => absurd rfl hne⟩
  | schedule fcs =>
      rw [exec] at h
      split at h
      · rename_i hk
        obtain ⟨new, heff, hops⟩ := scheduleAll_effect (List.all_eq_true.mp hk)
        cases h
        refine ⟨new, heff, fun hne hempty => ?_⟩
        have hfcs : fcs ≠ [] := by
          rintro rfl
          obtain ⟨e, he⟩ := List.exists_mem_of_ne_nil new hne
          obtain ⟨fc, hfc, -⟩ := heff.among e he
          cases hfc
        show Op.tickle ∈ (s.scheduleAll fcs).2
        rw [hops, hempty]
        simp [owed, hfcs]
      · cases h
  | expire now addr =>
      obtain ⟨⟨timers, cbs⟩, -, heq⟩ := Option.map_eq_some_iff.mp h
      cases heq
      exact ⟨[], ⟨.quiet rfl rfl rfl, rfl, rfl⟩, fun hne => absurd rfl hne⟩
  | drain | uncount | setStopping =>
      cases h
      exact ⟨[], ⟨.quiet rfl rfl rfl, rfl, rfl⟩, fun hne => absurd rfl hne⟩
  | trigger fc =>
      rw [exec] at h
      split at h
      · cases h
      · rename_i hno
        obtain ⟨new, heff, hops⟩ := schedule_effect (-1) (by simpa using (not_or.mp hno).2)
        cases h
        refine ⟨new, heff, fun _ hempty => List.mem_append_left _ ?_⟩
        show Op.tickle ∈ (s.schedule fc (-1)).2
        rw [hops, hempty]
        exact List.mem_singleton_self _

theorem call_effect {c : Call Cb} {ops : List (Op Cb)} (h : s.call c = some (s', ops)) :
    ∃ new, Effect s s' c.fcs new ∧ s.Owes new ops := by
  have hquiet : ∀ {s₁ : Scheduler Cb}, Effect s s₁ [] [] → ∃ new, Effect s s₁ [] new ∧
      s.Owes new ops := fun heff => ⟨[], heff, fun hne => absurd rfl hne⟩
  cases c with
  | schedule fc thread =>
      rw [call] at h
      split at h
      · rename_i hk
        obtain ⟨new, heff, hops⟩ := schedule_effect thread hk
        cases h
        refine ⟨new, heff, fun _ hempty => ?_⟩
        show Op.tickle ∈ (s.schedule fc thread).2
        rw [hops, hempty]
        exact List.mem_singleton_self _
      · cases h
  | scheduleAll fcs =>
      have h : s.exec (.schedule fcs) = some (s', ops) := h
      exact exec_effect h
  | newFiber cb =>
      cases h
      exact hquiet (newFiber_effect s (.inl rfl))
  | mainFiber =>
      cases h
      exact hquiet (newFiber_effect s (.inr ⟨rfl, rfl⟩))
  | addTimer ms cb recurring now addr =>
      cases h
      exact hquiet ⟨.quiet rfl rfl rfl, rfl, rfl⟩
  | cancelTimer p | refreshTimer p now | resetTimer p ms fromNow now =>
      obtain ⟨x, -, heq⟩ := Option.map_eq_some_iff.mp h
      cases heq
      exact hquiet ⟨.quiet rfl rfl rfl, rfl, rfl⟩
  | addEvent | stop threads =>
      cases h
      exact hquiet ⟨.quiet rfl rfl rfl, rfl, rfl⟩
  | delEvent =>
      rw [call] at h
      split at h
      · cases h
      · cases h
        exact hquiet ⟨.quiet rfl rfl rfl, rfl, rfl⟩
  | cancelEvent fc =>
      have h : s.exec (.trigger fc) = some (s', ops) := h
      exact exec_effect h

/-- `reset` that fails no assertion. -/
theorem resetFiber_ok {f : FiberPtr} {cb : Bool} (h : s.resetFiber f cb = .ok s') :
    (s.state f = .term ∨ s.state f = .init ∨ s.state f = .except) ∧
      s' = s.setFiber f { s.fiber f with cb, state := .init } := by
  rw [resetFiber] at h
  split at h
  · cases h
  · split at h
    · rename_i hst
      cases h
      simp only [Bool.or_eq_true, beq_iff_eq, or_assoc] at hst
      exact ⟨hst, rfl⟩
    · cases h

end Scheduler

/-! ## A worker -/

namespace Worker

variable {s s' : Scheduler Cb} {w w' : Worker Cb} {a : WorkerAct Cb}

@[simp] theorem release_idle (w : Worker Cb) (b : Branch) : (w.release b).idle = w.idle := by
  cases b <;> rfl

/-- The first branch of `run` is taken whatever the state of the fiber is. -/
theorem guard_eq_true (s : Scheduler Cb) (f : FiberPtr) : guard s f = true := by
  rw [guard]
  cases s.state f <;> rfl

/-- The steps. -/
inductive Step (s : Scheduler Cb) (w : Worker Cb) :
    WorkerAct Cb → Scheduler Cb → Worker Cb → Prop
  | scanNone : w.phase = .scan →
      (∀ e ∈ s.queue.fibers, e.eligible w.id s.state = false) →
      Step s w .next s
        (w.goto (.scanned .empty false (s.queue.fibers.any fun e => e.elsewhere w.id)))
  | scanTake {e l r} (tickleMe : Bool) : w.phase = .scan → s.queue.fibers = l ++ e :: r →
      (∀ x ∈ l, x.eligible w.id s.state = false) → e.eligible w.id s.state = true →
      e.isSome = true →
      Step s w .next
        { s with
          queue := { s.queue with fibers := l ++ r, taken := s.queue.taken ++ [(w.id, e)] }
          activeThreadCount := s.activeThreadCount + 1 }
        (w.goto (.scanned e true tickleMe))
  | tickle {ft isActive} : w.phase = .scanned ft isActive true →
      Step s w .next s.tickle (w.goto (.scanned ft isActive false))
  | hold {ft isActive f} : w.phase = .scanned ft isActive false → ft.fiber = some f →
      Step s w .next s (w.goto (.holding .fiber f))
  | recycle {ft isActive f} : w.phase = .scanned ft isActive false → ft.fiber = none →
      ft.cb.isSome = true → w.cbFiber = some f →
      s.state f = .term ∨ s.state f = .init ∨ s.state f = .except →
      Step s w .next (s.setFiber f { s.fiber f with cb := true, state := .init })
        (w.goto (.holding .cb f))
  | create {ft isActive} : w.phase = .scanned ft isActive false → ft.fiber = none →
      ft.cb.isSome = true → w.cbFiber = none →
      Step s w .next (s.newFiber {})
        { w with phase := .holding .cb s.fiberCount, cbFiber := some s.fiberCount }
  | drop {ft} : w.phase = .scanned ft true false → ft.fiber = none → ft.cb.isSome = false →
      Step s w .next { s with activeThreadCount := s.activeThreadCount - 1 } (w.goto .scan)
  | leave {ft} : w.phase = .scanned ft false false → ft.fiber = none → ft.cb.isSome = false →
      w.idle = .term → Step s w .next s (w.goto .left)
  | idleIn {ft} : w.phase = .scanned ft false false → ft.fiber = none → ft.cb.isSome = false →
      w.idle ≠ .term → w.idle ≠ .exec →
      Step s w .next s { w with
        phase := if w.idle.finished then .idlePastEnd else .looking
        idle  := .exec }
  | swapIn {b f} : w.phase = .holding b f → s.state f ≠ .exec →
      Step s w .next (s.setState f .exec)
        (w.goto (if (s.state f).finished then .pastEnd b f else .inside b f []))
  | insideOp {b f op ops more s'} : w.phase = .inside b f (op :: ops) →
      s.exec op = some (s', more) → Step s w .next s' (w.goto (.inside b f (more ++ ops)))
  | swapOut {b f} : w.phase = .leaving b f → Step s w .next s (w.goto (.returned b f))
  | inactive {b f} : w.phase = .returned b f →
      Step s w .next { s with activeThreadCount := s.activeThreadCount - 1 }
        (w.goto (.settling b f))
  | reschedule {b f} : w.phase = .settling b f → s.state f = .ready →
      Step s w .next (s.schedule (.fiber (some f)) (-1)).1
        ((w.release b).goto (.rescheduling (s.schedule (.fiber (some f)) (-1)).2))
  | done {f} : w.phase = .settling .fiber f → (s.state f).finished = true →
      Step s w .next s (w.goto .scan)
  | keep {f} : w.phase = .settling .cb f → (s.state f).finished = true →
      Step s w .next (s.setFiber f { s.fiber f with cb := false, state := .init }) (w.goto .scan)
  | held {b f} : w.phase = .settling b f → s.state f ≠ .ready → (s.state f).finished = false →
      Step s w .next (s.setState f .hold) ((w.release b).goto .scan)
  | reschedulingOp {op ops more s'} : w.phase = .rescheduling (op :: ops) →
      s.exec op = some (s', more) → Step s w .next s' (w.goto (.rescheduling (more ++ ops)))
  | rescheduled : w.phase = .rescheduling [] → Step s w .next s (w.goto .scan)
  | count : w.phase = .timed →
      Step s w .next s (w.goto (if s.pendingEventCount = 0 then .counted else .blocked))
  | goOn : w.phase = .counted → s.isStopping = false → Step s w .next s (w.goto .blocked)
  | stop : w.phase = .counted → s.isStopping = true →
      Step s w .next s { w with phase := .idleBack, idle := .term }
  | handlingOp {op ops more s'} : w.phase = .handling (op :: ops) →
      s.exec op = some (s', more) → Step s w .next s' (w.goto (.handling (more ++ ops)))
  | handled : w.phase = .handling [] → Step s w .next s (w.goto .idleBack)
  | idleOut : w.phase = .idleBack →
      Step s w .next { s with idleThreadCount := s.idleThreadCount - 1 }
        { w with phase := .scan, idle := if w.idle.finished then w.idle else .hold }
  | look {now timers timeout} : w.phase = .looking →
      s.timers.getNextTimer now = some (timers, timeout) →
      Step s w (.look now) { s with timers }
        (w.goto (if timeout = wordSize - 1 then .timed else .blocked))
  | wake {events now addr} : w.phase = .blocked →
      Step s w (.wake events now addr) s
        (w.goto (.handling (.expire now addr :: events.map Ready.op)))
  | skip {fc ops} : w.phase = .handling (.trigger fc :: ops) →
      Step s w .skip s (w.goto (.handling ops))
  | idleThrow : w.inIdle = true →
      Step s w .idleThrow s { w with phase := .idleBack, idle := .except }
  | call {b f c ops s'} : w.phase = .inside b f [] → (s.fiber f).cb = true →
      s.call c = some (s', ops) → Step s w (.call c) s' (w.goto (.inside b f ops))
  | yieldToHold {b f} : w.phase = .inside b f [] → (s.fiber f).cb = true → s.state f = .exec →
      Step s w .yieldToHold s (w.goto (.returned b f))
  | finish {b f} : w.phase = .inside b f [] → (s.fiber f).cb = true →
      Step s w (.finish true) (s.setFiber f { s.fiber f with cb := false, state := .term })
        (w.goto (.leaving b f))
  | throw {b f} : w.phase = .inside b f [] →
      Step s w (.finish false) (s.setState f .except) (w.goto (.leaving b f))

theorem scan_ok (hph : w.phase = .scan) (h : w.scan s = .ok (s', w')) : Step s w .next s' w' := by
  obtain ⟨⟨queue, ft, tickleMe⟩, htake, heq⟩ := map_ok h
  cases ft with
  | none =>
      obtain ⟨rfl, hall, rfl⟩ := TaskQueue.take_none htake
      cases heq
      exact .scanNone hph hall
  | some e =>
      obtain ⟨l, r, hq, rfl, hl, he, hsome⟩ := TaskQueue.take_some htake
      cases heq
      exact .scanTake tickleMe hph hq hl he hsome

theorem dispatch_ok {ft : FiberAndThread Cb} {isActive : Bool}
    (hph : w.phase = .scanned ft isActive false) (h : w.dispatch s ft isActive = .ok (s', w')) :
    Step s w .next s' w' := by
  have hfilter : ft.fiber.filter (guard s) = ft.fiber := by
    cases ft.fiber <;> simp [guard_eq_true]
  rw [dispatch, hfilter] at h
  cases hf : ft.fiber with
  | some f =>
      rw [hf] at h
      cases h
      exact .hold hph hf
  | none =>
      simp only [hf] at h
      cases hcb : ft.cb.isSome with
      | true =>
          rw [hcb, if_pos rfl] at h
          cases hc : w.cbFiber with
          | some f =>
              simp only [hc] at h
              obtain ⟨s₁, hreset, heq⟩ := map_ok h
              obtain ⟨hst, rfl⟩ := Scheduler.resetFiber_ok hreset
              cases heq
              exact .recycle hph hf hcb hc hst
          | none =>
              simp only [hc] at h
              cases h
              exact .create hph hf hcb hc
      | false =>
          rw [hcb, if_neg (by simp)] at h
          cases isActive with
          | true =>
              cases h
              exact .drop hph hf hcb
          | false =>
              rw [if_neg (by simp)] at h
              split at h
              · rename_i hterm
                cases h
                exact .leave hph hf hcb (by simpa using hterm)
              · rename_i hterm
                split at h
                · cases h
                · rename_i hexec
                  cases h
                  exact .idleIn hph hf hcb (by simpa using hterm) (by simpa using hexec)

theorem settle_ok {b : Branch} {f : FiberPtr} (hph : w.phase = .settling b f)
    (h : w.settle s b f = .ok (s', w')) : Step s w .next s' w' := by
  unfold settle at h
  split at h
  · rename_i hready
    cases h
    exact .reschedule hph (by simpa using hready)
  · rename_i hready
    split at h
    · rename_i hfin
      cases b with
      | fiber =>
          cases h
          exact .done hph hfin
      | cb =>
          obtain ⟨s₁, hreset, heq⟩ := map_ok h
          obtain ⟨-, rfl⟩ := Scheduler.resetFiber_ok hreset
          cases heq
          exact .keep hph hfin
    · rename_i hfin
      cases h
      exact .held hph (by simpa using hready) (by simpa using hfin)

theorem next_ok (h : w.next s = some (.ok (s', w'))) : Step s w .next s' w' := by
  rw [next] at h
  split at h
  · exact scan_ok ‹_› (Option.some.inj h)
  · cases h
    exact .tickle ‹_›
  · exact dispatch_ok ‹_› (Option.some.inj h)
  · rename_i b f hph
    have h := Option.some.inj h
    rw [swapIn] at h
    split at h
    · cases h
    · rename_i hexec
      cases h
      exact .swapIn hph (by simpa using hexec)
  · obtain ⟨⟨s₁, more⟩, hexec, heq⟩ := Option.map_eq_some_iff.mp h
    cases heq
    exact .insideOp ‹_› hexec
  · cases h
  · cases h
  · cases h
    exact .swapOut ‹_›
  · cases h
    exact .inactive ‹_›
  · exact settle_ok ‹_› (Option.some.inj h)
  · obtain ⟨⟨s₁, more⟩, hexec, heq⟩ := Option.map_eq_some_iff.mp h
    cases heq
    exact .reschedulingOp ‹_› hexec
  · cases h
    exact .rescheduled ‹_›
  · cases h
  · cases h
    exact .count ‹_›
  · rename_i hph
    cases hst : s.isStopping with
    | true =>
        rw [hst] at h
        cases h
        exact .stop hph hst
    | false =>
        rw [hst] at h
        cases h
        exact .goOn hph hst
  · cases h
  · obtain ⟨⟨s₁, more⟩, hexec, heq⟩ := Option.map_eq_some_iff.mp h
    cases heq
    exact .handlingOp ‹_› hexec
  · cases h
    exact .handled ‹_›
  · cases h
  · cases h
    exact .idleOut ‹_›
  · cases h

theorem step_ok (h : w.step s a = some (.ok (s', w'))) : Step s w a s' w' := by
  cases a with
  | next => exact next_ok h
  | look now =>
      simp only [step] at h
      split at h
      · obtain ⟨⟨timers, timeout⟩, hget, heq⟩ := Option.map_eq_some_iff.mp h
        cases heq
        exact .look ‹_› hget
      · cases h
  | wake events now addr =>
      simp only [step] at h
      split at h
      · cases h
        exact .wake ‹_›
      · cases h
  | skip =>
      simp only [step] at h
      split at h
      · cases h
        exact .skip ‹_›
      · cases h
  | idleThrow =>
      simp only [step] at h
      split at h
      · cases h
        exact .idleThrow ‹_›
      · cases h
  | call c =>
      simp only [step] at h
      split at h
      · split at h
        · obtain ⟨⟨s₁, ops⟩, hcall, heq⟩ := Option.map_eq_some_iff.mp h
          cases heq
          exact .call ‹_› ‹_› hcall
        · cases h
      · cases h
  | yieldToHold =>
      simp only [step] at h
      split at h
      · rename_i hph
        split at h
        · cases h
        · rename_i hcb
          split at h
          · rename_i hexec
            cases h
            exact .yieldToHold hph (by simpa using hcb) (by simpa using hexec)
          · cases h
      · cases h
  | finish ok =>
      simp only [step] at h
      split at h
      · cases ok with
        | true =>
            rw [if_pos rfl] at h
            split at h
            · cases h
              exact .finish ‹_› ‹_›
            · cases h
        | false =>
            rw [if_neg (by simp)] at h
            cases h
            exact .throw ‹_›
      · cases h

/-- The next step resets the fiber. -/
def Resets (w : Worker Cb) (f : FiberPtr) : Prop :=
  (∃ ft isActive, w.phase = .scanned ft isActive false ∧ w.cbFiber = some f) ∨
    ∃ b, w.phase = .settling b f

/-- The assertions that can fail, and when. -/
inductive Fails (s : Scheduler Cb) (w : Worker Cb) : Assertion → Prop
  | task {e} : e ∈ s.queue.fibers → e.isSome = false → Fails s w .task
  | swapIn {b f} : w.phase = .holding b f → s.state f = .exec → Fails s w .notExec
  | idleIn {ft isActive} : w.phase = .scanned ft isActive false → w.idle = .exec →
      Fails s w .notExec
  | stack {f} : w.Resets f → (s.fiber f).stack = false → Fails s w .stack
  | resettable {f} : w.Resets f → Fails s w .resettable
  | yield {b f} : w.phase = .inside b f [] → s.state f ≠ .exec → Fails s w .exec
  | pastEnd {b f} : w.phase = .pastEnd b f → Fails s w .neverReach
  | idlePastEnd : w.phase = .idlePastEnd → Fails s w .neverReach

/-- `reset` that fails an assertion. -/
theorem fails_reset {f : FiberPtr} {cb : Bool} {x : Assertion} (hw : w.Resets f)
    (h : s.resetFiber f cb = .error x) : w.Fails s x := by
  rw [Scheduler.resetFiber] at h
  split at h
  · rename_i hstack
    cases h
    exact .stack hw (by simpa using hstack)
  · split at h
    · cases h
    · cases h
      exact .resettable hw

theorem dispatch_error {ft : FiberAndThread Cb} {isActive : Bool} {x : Assertion}
    (hph : w.phase = .scanned ft isActive false) (h : w.dispatch s ft isActive = .error x) :
    w.Fails s x := by
  unfold dispatch at h
  split at h
  · cases h
  · split at h
    · split at h
      · exact fails_reset (.inl ⟨ft, isActive, hph, ‹_›⟩) (map_error h)
      · cases h
    · split at h
      · cases h
      · split at h
        · cases h
        · split at h
          · rename_i hexec
            cases h
            exact .idleIn hph (by simpa using hexec)
          · cases h

theorem settle_error {b : Branch} {f : FiberPtr} {x : Assertion} (hph : w.phase = .settling b f)
    (h : w.settle s b f = .error x) : w.Fails s x := by
  unfold settle at h
  split at h
  · cases h
  · split at h
    · split at h
      · cases h
      · exact fails_reset (.inr ⟨.cb, hph⟩) (map_error h)
    · cases h

theorem next_error {x : Assertion} (h : w.next s = some (.error x)) : w.Fails s x := by
  rw [next] at h
  split at h
  · obtain ⟨rfl, e, he, hno⟩ := TaskQueue.take_error (map_error (Option.some.inj h))
    exact .task he hno
  · cases h
  · exact dispatch_error ‹_› (Option.some.inj h)
  · rename_i b f hph
    have h := Option.some.inj h
    rw [swapIn] at h
    split at h
    · rename_i hexec
      cases h
      exact .swapIn hph (by simpa using hexec)
    · cases h
  · obtain ⟨x, -, heq⟩ := Option.map_eq_some_iff.mp h
    cases heq
  · cases h
  · cases h
    exact .pastEnd ‹_›
  · cases h
  · cases h
  · exact settle_error ‹_› (Option.some.inj h)
  · obtain ⟨x, -, heq⟩ := Option.map_eq_some_iff.mp h
    cases heq
  · cases h
  · cases h
  · cases h
  · cases h
  · cases h
  · obtain ⟨x, -, heq⟩ := Option.map_eq_some_iff.mp h
    cases heq
  · cases h
  · cases h
    exact .idlePastEnd ‹_›
  · cases h
  · cases h

theorem step_error {x : Assertion} (h : w.step s a = some (.error x)) : w.Fails s x := by
  cases a with
  | next => exact next_error h
  | look now =>
      simp only [step] at h
      split at h
      · obtain ⟨x, -, heq⟩ := Option.map_eq_some_iff.mp h
        cases heq
      · cases h
  | wake events now addr | skip | idleThrow =>
      simp only [step] at h
      split at h <;> cases h
  | call c =>
      simp only [step] at h
      split at h
      · split at h
        · obtain ⟨x, -, heq⟩ := Option.map_eq_some_iff.mp h
          cases heq
        · cases h
      · cases h
  | yieldToHold =>
      simp only [step] at h
      split at h
      · rename_i hph
        split at h
        · cases h
        · split at h
          · cases h
          · rename_i hexec
            cases h
            exact .yield hph (by simpa using hexec)
      · cases h
  | finish ok =>
      simp only [step] at h
      split at h
      · split at h
        · split at h <;> cases h
        · cases h
      · cases h

end Worker

/-! ## All threads -/

namespace Pool

variable {s s' : Pool Cb} {a : PoolAct Cb}

/-- Worker `i` is `w`. -/
def At (s : Pool Cb) (i : Nat) (w : Worker Cb) : Prop :=
  s.workers[i]? = some w

theorem At.getElem? {i : Nat} {w : Worker Cb} (h : s.At i w) : s.workers[i]? = some w :=
  h

theorem At.unique {i : Nat} {w v : Worker Cb} (h : s.At i w) (h' : s.At i v) : w = v :=
  Option.some.inj (h.symm.trans h')

/-- The pool with worker `i` changed. -/
def setWorker (s : Pool Cb) (i : Nat) (sched : Scheduler Cb) (w : Worker Cb) : Pool Cb :=
  { s with sched, workers := s.workers.set i w }

/-- The steps of a pool. -/
inductive Step (s : Pool Cb) : PoolAct Cb → Pool Cb → Prop
  | worker {i w a sched w'} : s.At i w → w.Step s.sched a sched w' →
      Step s (.worker i a) (s.setWorker i sched w')
  | call {t c sched ops} : s.outside t = [] → s.sched.call c = some (sched, ops) →
      Step s (.call t c) { s with sched, outside := Function.update s.outside t ops }
  | op {t op ops sched more} : s.outside t = op :: ops → s.sched.exec op = some (sched, more) →
      Step s (.op t) { s with sched, outside := Function.update s.outside t (more ++ ops) }

theorem step_ok (h : proceed step s a = some s') : Step s a s' := by
  rw [proceed_eq_some] at h
  cases a with
  | worker i a =>
      obtain ⟨w, hw, h⟩ := Option.bind_eq_some_iff.mp h
      obtain ⟨r, hr, heq⟩ := Option.map_eq_some_iff.mp h
      obtain ⟨⟨sched, w'⟩, rfl, rfl⟩ := map_ok heq
      exact .worker hw (Worker.step_ok hr)
  | call t c =>
      simp only [step] at h
      split at h
      · obtain ⟨⟨sched, ops⟩, hcall, heq⟩ := Option.map_eq_some_iff.mp h
        cases heq
        exact .call ‹_› hcall
      · cases h
  | op t =>
      simp only [step] at h
      split at h
      · obtain ⟨⟨sched, more⟩, hexec, heq⟩ := Option.map_eq_some_iff.mp h
        cases heq
        exact .op ‹_› hexec
      · cases h

/-- A step that fails an assertion is a worker's. -/
theorem step_worker_error {x : Assertion} (h : s.step a = some (.error x)) :
    ∃ i w wa, s.At i w ∧ w.step s.sched wa = some (.error x) := by
  cases a with
  | worker i a =>
      obtain ⟨w, hw, h⟩ := Option.bind_eq_some_iff.mp h
      obtain ⟨r, hr, heq⟩ := Option.map_eq_some_iff.mp h
      rw [map_error heq] at hr
      exact ⟨i, w, a, hw, hr⟩
  | call t c =>
      simp only [step] at h
      split at h
      · obtain ⟨x, -, heq⟩ := Option.map_eq_some_iff.mp h
        cases heq
      · cases h
  | op t =>
      simp only [step] at h
      split at h
      · obtain ⟨x, -, heq⟩ := Option.map_eq_some_iff.mp h
        cases heq
      · cases h

theorem step_error {x : Assertion} (h : s.step a = some (.error x)) :
    ∃ i w, s.At i w ∧ w.Fails s.sched x := by
  obtain ⟨i, w, wa, hw, herr⟩ := step_worker_error h
  exact ⟨i, w, hw, Worker.step_error herr⟩

/-- Where a worker is after one has been changed. -/
theorem at_setWorker {i j : Nat} {sched : Scheduler Cb} {w w' v : Worker Cb} (hw : s.At i w)
    (h : (s.setWorker i sched w').At j v) : (j = i ∧ v = w') ∨ (j ≠ i ∧ s.At j v) := by
  have h : (s.workers.set i w')[j]? = some v := h
  rw [List.getElem?_set] at h
  split at h
  · rename_i hij
    rw [if_pos (List.getElem?_eq_some_iff.mp hw).1] at h
    exact .inl ⟨hij.symm, (Option.some.inj h).symm⟩
  · rename_i hij
    exact .inr ⟨fun hji => hij hji.symm, h⟩

theorem at_setWorker_self {i : Nat} {sched : Scheduler Cb} {w w' : Worker Cb} (hw : s.At i w) :
    (s.setWorker i sched w').At i w' :=
  List.getElem?_set_self (List.getElem?_eq_some_iff.mp hw).1

theorem at_setWorker_ne {i j : Nat} {sched : Scheduler Cb} {w' v : Worker Cb} (hij : j ≠ i)
    (hv : s.At j v) : (s.setWorker i sched w').At j v :=
  (List.getElem?_set_ne (Ne.symm hij)).trans hv

end Pool

end CoLib
