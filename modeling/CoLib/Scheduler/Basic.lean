/-
# `CoLib.Scheduler.Basic` — workers of an `IOManager`

The members that the threads of an `IOManager` share (`Scheduler`), a thread in
`Scheduler::run` with its idle fiber in `IOManager::idle` (`Worker`), and both
together with threads outside (`Pool`).

A step is what a thread does in one go: a section under the queue's lock, one
access to a counter, a flag or the timers, one read or write of a fiber's state
with the switch that goes with it.  Between two steps a thread is in a phase.
What a task does while it runs is up to it: it calls the scheduler, the timers
and the events, it yields, it returns or throws.  A call that goes on after its
locked part leaves operations (`Op`) to be done, each a step of its own.

`epoll_wait` may return at any time with any events, and the clock reads
anything; where an assertion fails, the step is an error.

The workers are threads that `start` has made.  With `use_caller`, the default, the
thread that constructs the manager is one more, inside its calls of `stop`
(`CoLib.Scheduler.RootFiber`).
-/
import CoLib.Scheduler.Queue
import CoLib.Timer.Basic
import Mathlib

namespace CoLib

open Lib

/-- `class Fiber`: its state, and whether it has a stack and a callback. -/
structure Fiber where
  state : FiberState := .init
  stack : Bool := true
  cb : Bool := true
deriving DecidableEq, Repr

/-- `TERM` or `EXCEPT`. -/
def FiberState.finished (st : FiberState) : Bool :=
  st == .term || st == .except

/-- The members of the `IOManager` that its threads share, and the fibers. -/
structure Scheduler (Cb : Type) where
  queue : TaskQueue Cb := {}
  fiber : FiberPtr → Fiber := fun _ => {}
  fiberCount : Nat := 0
  activeThreadCount : Nat := 0
  /-- `m_idleThreadCount`, a `size_t`. -/
  idleThreadCount : UInt64 := 0
  autoStop : Bool := false
  stopping : Bool := false
  timers : TimerManager Cb
  pendingEventCount : Nat := 0
  /-- The bytes in `m_tickleFds`. -/
  pipe : Nat := 0

/-- What a call still has to do. -/
inductive Op (Cb : Type) where
  /-- `tickle()`. -/
  | tickle
  /-- `schedule(begin, end)`. -/
  | schedule (fcs : List (FiberOrCb Cb))
  /-- `listExpiredCb`. -/
  | expire (now addr : Nat)
  /-- Reading the pipe until it is empty. -/
  | drain
  /-- `triggerEvent` of an event that is registered. -/
  | trigger (fc : FiberOrCb Cb)
  /-- `--m_pendingEventCount`. -/
  | uncount
  /-- `m_stopping = true`. -/
  | setStopping
deriving DecidableEq, Repr

/-- A call of a task, or of a thread outside. -/
inductive Call (Cb : Type) where
  | schedule (fc : FiberOrCb Cb) (thread : Int)
  | scheduleAll (fcs : List (FiberOrCb Cb))
  /-- `new Fiber(cb)`. -/
  | newFiber (cb : Bool)
  /-- `Fiber::GetThis()` in a thread that has no fiber yet. -/
  | mainFiber
  | addTimer (ms : Nat) (cb : Cb) (recurring : Bool) (now addr : Nat)
  | cancelTimer (p : TimerPtr)
  | refreshTimer (p : TimerPtr) (now : Nat)
  | resetTimer (p : TimerPtr) (ms : Nat) (fromNow : Bool) (now : Nat)
  | addEvent
  | delEvent
  | cancelEvent (fc : FiberOrCb Cb)
  /-- `stop()`, which tickles as often as there are threads. -/
  | stop (threads : Nat)
deriving DecidableEq, Repr

section Shared

variable {Cb : Type}

/-- The fiber has been constructed. -/
def FiberOrCb.known (count : Nat) : FiberOrCb Cb → Bool
  | .fiber (some f) => decide (f < count)
  | _ => true

/-- The call of `tickle` that a decision asks for. -/
def owed (needTickle : Bool) : List (Op Cb) :=
  if needTickle then [.tickle] else []

namespace Scheduler

variable (s : Scheduler Cb)

/-- `getState`. -/
def state (f : FiberPtr) : FiberState :=
  (s.fiber f).state

def setFiber (f : FiberPtr) (x : Fiber) : Scheduler Cb :=
  { s with fiber := Function.update s.fiber f x }

def setState (f : FiberPtr) (st : FiberState) : Scheduler Cb :=
  s.setFiber f { s.fiber f with state := st }

/-- A new fiber; its pointer is the old count. -/
def newFiber (x : Fiber) : Scheduler Cb :=
  { s.setFiber s.fiberCount x with fiberCount := s.fiberCount + 1 }

/-- `Fiber::reset(cb)`. -/
def resetFiber (f : FiberPtr) (cb : Bool) : Except Assertion (Scheduler Cb) :=
  if !(s.fiber f).stack then .error .stack
  else if s.state f == .term || s.state f == .init || s.state f == .except then
    .ok (s.setFiber f { s.fiber f with cb, state := .init })
  else .error .resettable

/-- `hasIdleThreads`. -/
def hasIdleThreads : Bool :=
  s.idleThreadCount > 0

/-- `IOManager::tickle`. -/
def tickle : Scheduler Cb :=
  if s.hasIdleThreads then s else { s with pipe := s.pipe + 1 }

/-- `Scheduler::stopping`. -/
def isStopping : Bool :=
  s.autoStop && s.stopping && s.queue.fibers.isEmpty && s.activeThreadCount == 0

/-- The locked part of `schedule(fc, thread)`. -/
def schedule (fc : FiberOrCb Cb) (thread : Int) : Scheduler Cb × List (Op Cb) :=
  let (queue, needTickle) := s.queue.scheduleNoLock fc thread
  ({ s with queue }, owed needTickle)

/-- The locked part of `schedule(begin, end)`. -/
def scheduleAll (fcs : List (FiberOrCb Cb)) : Scheduler Cb × List (Op Cb) :=
  let (queue, needTickle, _) := s.queue.scheduleRange false fcs
  ({ s with queue }, owed needTickle)

/-- One operation, and what it leaves to be done. -/
def exec : Op Cb → Option (Scheduler Cb × List (Op Cb))
  | .tickle => some (s.tickle, [])
  | .schedule fcs => if fcs.all (·.known s.fiberCount) then some (s.scheduleAll fcs) else none
  | .expire now addr =>
      (s.timers.listExpiredCb now addr).map fun (timers, cbs) =>
        ({ s with timers },
          if cbs.isEmpty then [] else [.schedule (cbs.map fun cb => .cb cb.2)])
  | .drain => some ({ s with pipe := 0 }, [])
  | .trigger fc =>
      if s.pendingEventCount = 0 ∨ fc.known s.fiberCount = false then none
      else
        let (s, ops) := s.schedule fc (-1)
        some (s, ops ++ [.uncount])
  | .uncount => some ({ s with pendingEventCount := s.pendingEventCount - 1 }, [])
  | .setStopping => some ({ s with stopping := true }, [])

/-- A call up to the end of its locked part, and what is left to be done; `none`
when it cannot be made. -/
def call : Call Cb → Option (Scheduler Cb × List (Op Cb))
  | .schedule fc thread => if fc.known s.fiberCount then some (s.schedule fc thread) else none
  | .scheduleAll fcs => s.exec (.schedule fcs)
  | .newFiber cb => some (s.newFiber { cb }, [])
  | .mainFiber => some (s.newFiber { state := .exec, stack := false, cb := false }, [])
  | .addTimer ms cb recurring now addr =>
      let (timers, _, atFront) := s.timers.addTimer ms cb recurring now addr
      some ({ s with timers }, owed atFront)
  | .cancelTimer p => (s.timers.cancel p).map fun (timers, _) => ({ s with timers }, [])
  | .refreshTimer p now =>
      (s.timers.refresh p now).map fun (timers, _) => ({ s with timers }, [])
  | .resetTimer p ms fromNow now =>
      (s.timers.reset p ms fromNow now).map fun (timers, _, atFront) =>
        ({ s with timers }, owed atFront)
  | .addEvent => some ({ s with pendingEventCount := s.pendingEventCount + 1 }, [])
  | .delEvent =>
      if s.pendingEventCount = 0 then none
      else some ({ s with pendingEventCount := s.pendingEventCount - 1 }, [])
  | .cancelEvent fc => s.exec (.trigger fc)
  | .stop threads =>
      some ({ s with autoStop := true }, .setStopping :: List.replicate threads .tickle)

end Scheduler

end Shared

/-! ## A worker -/

/-- Which of its two branches `run` took: a fiber from the queue, or the fiber it
keeps for callbacks. -/
inductive Branch where
  | fiber | cb
deriving DecidableEq, Repr

/-- Where a thread in `run` is. -/
inductive Phase (Cb : Type) where
  /-- At the top of the loop. -/
  | scan
  /-- Behind the scan, with `ft`, `is_active` and `tickle_me`. -/
  | scanned (ft : FiberAndThread Cb) (isActive tickleMe : Bool)
  /-- About to call `swapIn`. -/
  | holding (b : Branch) (f : FiberPtr)
  /-- Switched into the fiber. -/
  | inside (b : Branch) (f : FiberPtr) (ops : List (Op Cb))
  /-- Switched into a fiber that had finished. -/
  | pastEnd (b : Branch) (f : FiberPtr)
  /-- In `MainFunc`, behind the assignment of `TERM` or `EXCEPT`. -/
  | leaving (b : Branch) (f : FiberPtr)
  /-- `swapIn` has returned. -/
  | returned (b : Branch) (f : FiberPtr)
  /-- Behind `--m_activeThreadCount`. -/
  | settling (b : Branch) (f : FiberPtr)
  /-- In the `schedule` of a fiber in `READY`. -/
  | rescheduling (ops : List (Op Cb))
  /-- In `idle`, about to call `stopping`. -/
  | looking
  /-- In `stopping`, `getNextTimer` has returned `~0ull`. -/
  | timed
  /-- In `stopping`, `m_pendingEventCount` was 0. -/
  | counted
  /-- In `epoll_wait`. -/
  | blocked
  /-- Behind `epoll_wait`. -/
  | handling (ops : List (Op Cb))
  /-- Switched into the idle fiber after it had finished. -/
  | idlePastEnd
  /-- The `swapIn` of the idle fiber has returned. -/
  | idleBack
  /-- `run` has returned. -/
  | left
deriving DecidableEq, Repr

/-- A thread in `run`: its id, its phase, the state of `idle_fiber`, and
`cb_fiber`. -/
structure Worker (Cb : Type) where
  id : Int
  phase : Phase Cb := .scan
  idle : FiberState := .init
  cbFiber : Option FiberPtr := none
deriving DecidableEq, Repr

/-- What `epoll_wait` reports. -/
inductive Ready (Cb : Type) where
  | pipe
  | event (fc : FiberOrCb Cb)
deriving DecidableEq, Repr

/-- What the loop over the events does about it. -/
def Ready.op {Cb : Type} : Ready Cb → Op Cb
  | .pipe => .drain
  | .event fc => .trigger fc

/-- What a worker does next, where it is not determined by its phase. -/
inductive WorkerAct (Cb : Type) where
  | next
  /-- `getNextTimer` at `now`. -/
  | look (now : Nat)
  /-- `epoll_wait` returns. -/
  | wake (events : List (Ready Cb)) (now addr : Nat)
  /-- The event is not registered. -/
  | skip
  /-- `idle` throws. -/
  | idleThrow
  | call (c : Call Cb)
  | yieldToHold
  /-- The callback returns, or throws. -/
  | finish (ok : Bool)
deriving DecidableEq, Repr

namespace Worker

variable {Cb : Type} (s : Scheduler Cb) (w : Worker Cb)

def goto (ph : Phase Cb) : Worker Cb :=
  { w with phase := ph }

/-- The locked scan. -/
def scan : Except Assertion (Scheduler Cb × Worker Cb) :=
  (s.queue.take w.id s.state).map fun (queue, ft, tickleMe) =>
    match ft with
    | some ft =>
        ({ s with queue, activeThreadCount := s.activeThreadCount + 1 },
          w.goto (.scanned ft true tickleMe))
    | none => ({ s with queue }, w.goto (.scanned .empty false tickleMe))

/-- The guard of the first branch. -/
def guard (f : FiberPtr) : Bool :=
  s.state f != .term || s.state f != .except

/-- The branches of `run`, up to the switch. -/
def dispatch (ft : FiberAndThread Cb) (isActive : Bool) :
    Except Assertion (Scheduler Cb × Worker Cb) :=
  match ft.fiber.filter (guard s) with
  | some f => .ok (s, w.goto (.holding .fiber f))
  | none =>
      if ft.cb.isSome then
        match w.cbFiber with
        | some f => (s.resetFiber f true).map fun s => (s, w.goto (.holding .cb f))
        | none =>
            .ok (s.newFiber {},
              { w with phase := .holding .cb s.fiberCount, cbFiber := some s.fiberCount })
      else if isActive then
        .ok ({ s with activeThreadCount := s.activeThreadCount - 1 }, w.goto .scan)
      else if w.idle == .term then .ok (s, w.goto .left)
      else if w.idle == .exec then .error .notExec
      else .ok (s, { w with
        phase := if w.idle.finished then .idlePastEnd else .looking
        idle  := .exec })

/-- `swapIn`. -/
def swapIn (b : Branch) (f : FiberPtr) : Except Assertion (Scheduler Cb × Worker Cb) :=
  if s.state f == .exec then .error .notExec
  else .ok (s.setState f .exec,
    w.goto (if (s.state f).finished then .pastEnd b f else .inside b f []))

/-- `cb_fiber.reset()`, in the second branch. -/
def release : Branch → Worker Cb
  | .fiber => w
  | .cb => { w with cbFiber := none }

/-- What `run` does with the fiber after the switch. -/
def settle (b : Branch) (f : FiberPtr) : Except Assertion (Scheduler Cb × Worker Cb) :=
  if s.state f == .ready then
    let (s, ops) := s.schedule (.fiber (some f)) (-1)
    .ok (s, (w.release b).goto (.rescheduling ops))
  else if (s.state f).finished then
    match b with
    | .fiber => .ok (s, w.goto .scan)
    | .cb => (s.resetFiber f false).map fun s => (s, w.goto .scan)
  else .ok (s.setState f .hold, (w.release b).goto .scan)

/-- The idle fiber is switched out. -/
def idleReturned : Scheduler Cb × Worker Cb :=
  ({ s with idleThreadCount := s.idleThreadCount - 1 },
    { w with phase := .scan, idle := if w.idle.finished then w.idle else .hold })

/-- In the idle fiber. -/
def inIdle : Bool :=
  match w.phase with
  | .looking | .timed | .counted | .handling _ => true
  | _ => false

/-- The next step of `run`, of `MainFunc` or of `idle`. -/
def next : Option (Except Assertion (Scheduler Cb × Worker Cb)) :=
  match w.phase with
  | .scan => some (w.scan s)
  | .scanned ft isActive true => some (.ok (s.tickle, w.goto (.scanned ft isActive false)))
  | .scanned ft isActive false => some (w.dispatch s ft isActive)
  | .holding b f => some (w.swapIn s b f)
  | .inside b f (op :: ops) =>
      (s.exec op).map fun (s, more) => .ok (s, w.goto (.inside b f (more ++ ops)))
  | .inside _ _ [] => none
  | .pastEnd _ _ => some (.error .neverReach)
  | .leaving b f => some (.ok (s, w.goto (.returned b f)))
  | .returned b f =>
      some (.ok ({ s with activeThreadCount := s.activeThreadCount - 1 }, w.goto (.settling b f)))
  | .settling b f => some (w.settle s b f)
  | .rescheduling (op :: ops) =>
      (s.exec op).map fun (s, more) => .ok (s, w.goto (.rescheduling (more ++ ops)))
  | .rescheduling [] => some (.ok (s, w.goto .scan))
  | .looking => none
  | .timed => some (.ok (s, w.goto (if s.pendingEventCount = 0 then .counted else .blocked)))
  | .counted =>
      some (.ok (s, if s.isStopping then { w with phase := .idleBack, idle := .term }
        else w.goto .blocked))
  | .blocked => none
  | .handling (op :: ops) =>
      (s.exec op).map fun (s, more) => .ok (s, w.goto (.handling (more ++ ops)))
  | .handling [] => some (.ok (s, w.goto .idleBack))
  | .idlePastEnd => some (.error .neverReach)
  | .idleBack => some (.ok (w.idleReturned s))
  | .left => none

/-- One step of a worker; `none` when it cannot be made. -/
def step : WorkerAct Cb → Option (Except Assertion (Scheduler Cb × Worker Cb))
  | .next => w.next s
  | .look now =>
      match w.phase with
      | .looking =>
          (s.timers.getNextTimer now).map fun (timers, timeout) =>
            .ok ({ s with timers }, w.goto (if timeout = wordSize - 1 then .timed else .blocked))
      | _ => none
  | .wake events now addr =>
      match w.phase with
      | .blocked => some (.ok (s, w.goto (.handling (.expire now addr :: events.map Ready.op))))
      | _ => none
  | .skip =>
      match w.phase with
      | .handling (.trigger _ :: ops) => some (.ok (s, w.goto (.handling ops)))
      | _ => none
  | .idleThrow =>
      if w.inIdle then some (.ok (s, { w with phase := .idleBack, idle := .except })) else none
  | .call c =>
      match w.phase with
      | .inside b f [] =>
          if (s.fiber f).cb then
            (s.call c).map fun (s, ops) => .ok (s, w.goto (.inside b f ops))
          else none
      | _ => none
  | .yieldToHold =>
      match w.phase with
      | .inside b f [] =>
          if !(s.fiber f).cb then none
          else if s.state f == .exec then some (.ok (s, w.goto (.returned b f)))
          else some (.error .exec)
      | _ => none
  | .finish ok =>
      match w.phase with
      | .inside b f [] =>
          if ok then
            if (s.fiber f).cb then
              some (.ok (s.setFiber f { s.fiber f with cb := false, state := .term },
                w.goto (.leaving b f)))
            else none
          else some (.ok (s.setState f .except, w.goto (.leaving b f)))
      | _ => none

end Worker

/-! ## All threads -/

/-- The shared members, the workers, and what the threads outside still have to
do. -/
structure Pool (Cb : Type) where
  sched : Scheduler Cb
  workers : List (Worker Cb)
  outside : Nat → List (Op Cb)

/-- A step of one thread. -/
inductive PoolAct (Cb : Type) where
  | worker (i : Nat) (a : WorkerAct Cb)
  /-- A thread outside makes a call. -/
  | call (t : Nat) (c : Call Cb)
  /-- A thread outside goes on with a call. -/
  | op (t : Nat)
deriving DecidableEq, Repr

namespace Pool

variable {Cb : Type}

/-- After `start`, with a worker for each of `ids`. -/
def init (ids : List Int) (now : Nat) : Pool Cb :=
  { sched   := { timers := .create now }
    workers := ids.map fun id => { id }
    outside := fun _ => [] }

/-- One step; `none` when it cannot be made. -/
def step (s : Pool Cb) : PoolAct Cb → Option (Except Assertion (Pool Cb))
  | .worker i a =>
      (s.workers[i]?).bind fun w => (w.step s.sched a).map fun r =>
        r.map fun (sched, w) => { s with sched, workers := s.workers.set i w }
  | .call t c =>
      if s.outside t = [] then
        (s.sched.call c).map fun (sched, ops) =>
          .ok { s with sched, outside := Function.update s.outside t ops }
      else none
  | .op t =>
      match s.outside t with
      | op :: ops =>
          (s.sched.exec op).map fun (sched, more) =>
            .ok { s with sched, outside := Function.update s.outside t (more ++ ops) }
      | [] => none

end Pool

end CoLib
