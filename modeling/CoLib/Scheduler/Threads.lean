/-
# `CoLib.Scheduler.Threads` — threads that are started and joined

`Scheduler::start` holds `m_mutex` while it constructs its threads.  The constructor of a
`Thread` waits until the new thread has stored its id and taken its callback, so that
`start` can read the id; the new thread goes on with the callback, `Scheduler::run`,
which needs `m_mutex` for its first look at the queue.  `stop` sets the flags, wakes the
workers, and joins the threads.

A `ThreadPool` is a `Pool` with its threads and the thread that owns the manager: it
constructs the manager, and is the only one that calls `start` and `stop`; for the pool
it is the thread 0 outside.  `m_mutex` is only seen held while `start` constructs
threads; every other section under it is one step, which has to wait for `start`.

The manager is made with `use_caller = false`: otherwise `m_threadIds` begins with the id
of the owner, and `stop` runs the root fiber before it joins (`CoLib.Scheduler.RootFiber`).
The kernel chooses the ids of new threads, none of them that of a thread that has not
ended.
-/
import CoLib.Scheduler.Basic

namespace CoLib

open Lib

/-! ## A thread -/

/-- Where a new thread in `Thread::run` is. -/
inductive RunPhase where
  | created
  /-- `t_thread_name` has been set. -/
  | named
  /-- `m_id` has been set. -/
  | identified
  /-- `m_cb` has been swapped out. -/
  | swapped
  /-- `m_semaphore` has been notified, and the callback entered. -/
  | called
deriving DecidableEq, Repr

/-- `class Thread`, and the thread that it has created. -/
structure Thread where
  name : String
  /-- `m_id`. -/
  id : Int := -1
  /-- `m_cb` is not empty. -/
  cb : Bool := true
  /-- The value of `m_semaphore`. -/
  semaphore : Nat := 0
  /-- `m_thread` is not 0. -/
  joinable : Bool := true
  /-- What `GetThreadId` returns in the new thread. -/
  tid : Int
  /-- `t_thread_name` in the new thread. -/
  threadName : String := "UNKNOW"
  phase : RunPhase := .created
deriving DecidableEq, Repr

namespace Thread

/-- The constructor up to `m_semaphore.wait()`. -/
def create (name : String) (tid : Int) : Thread :=
  { name := if name.isEmpty then "UNKNOW" else name, tid }

/-- The next step of `Thread::run`, up to the call of its callback. -/
def run (t : Thread) : Option Thread :=
  match t.phase with
  | .created => some { t with threadName := t.name, phase := .named }
  | .named => some { t with id := t.tid, phase := .identified }
  | .identified => some { t with cb := false, phase := .swapped }
  | .swapped => some { t with semaphore := t.semaphore + 1, phase := .called }
  | .called => none

/-- `m_semaphore.wait()`. -/
def wait (t : Thread) : Option Thread :=
  if 0 < t.semaphore then some { t with semaphore := t.semaphore - 1 } else none

theorem wait_cases {t t' : Thread} (h : t.wait = some t') :
    0 < t.semaphore ∧ t' = { t with semaphore := t.semaphore - 1 } := by
  rw [wait] at h
  split at h
  · exact ⟨‹_›, (Option.some.inj h).symm⟩
  · cases h

end Thread

/-! ## What is done under `m_mutex` -/

section Locks

variable {Cb : Type}

def Op.locks : Op Cb → Bool
  | .schedule _ | .trigger _ => true
  | _ => false

def Call.locks : Call Cb → Bool
  | .schedule _ _ | .scheduleAll _ | .cancelEvent _ => true
  | _ => false

/-- The worker's next step takes `m_mutex`. -/
def Worker.locks (s : Scheduler Cb) (w : Worker Cb) : WorkerAct Cb → Bool
  | .next =>
      match w.phase with
      | .scan | .counted => true
      | .settling _ f => s.state f == .ready
      | .inside _ _ (op :: _) | .rescheduling (op :: _) | .handling (op :: _) => op.locks
      | _ => false
  | .call c => c.locks
  | _ => false

def Pool.locks (s : Pool Cb) : PoolAct Cb → Bool
  | .worker i a => s.workers[i]?.any (·.locks s.sched a)
  | .call _ c => c.locks
  | .op t => (s.outside t).head?.any Op.locks

/-- The step is not a call of `stop`. -/
def PoolAct.goesOn : PoolAct Cb → Bool
  | .worker _ (.call (.stop _)) | .call _ (.stop _) => false
  | _ => true

end Locks

/-- `run` has returned. -/
def Phase.hasLeft {Cb : Type} : Phase Cb → Bool
  | .left => true
  | _ => false

/-! ## All threads -/

/-- Where the thread that owns the manager is. -/
inductive Control where
  /-- In none of the calls below. -/
  | idle
  /-- In `start`, in front of `m_mutex`. -/
  | starting
  /-- In the loop of `start`, with this `i`. -/
  | creating (i : Nat)
  /-- In the constructor of this thread, at `m_semaphore.wait()`. -/
  | waiting (i k : Nat)
  /-- Behind the constructor. -/
  | made (i k : Nat)
  /-- In `stop`, in front of `m_mutex`. -/
  | stopping
  /-- In the loop of `stop`. -/
  | joining (thrs : List (Option Nat))
deriving DecidableEq, Repr

/-- `start` holds `m_mutex`. -/
def Control.locked : Control → Bool
  | .creating _ | .waiting _ _ | .made _ _ => true
  | _ => false

/-- A failed assertion, or an exception that leaves `start`. -/
inductive ThreadFault where
  /-- `m_threads.empty()`. -/
  | empty
  /-- "pthread_create error". -/
  | create
  /-- `join` of a null pointer. -/
  | null
  | pool (e : Assertion)
deriving DecidableEq, Repr

/-- The members of `Scheduler` about its threads, all threads made so far, and the pool
with a worker for each. -/
structure ThreadPool (Cb : Type) where
  name : String
  threadCount : Nat
  /-- The threads, in the order of their construction; a `Thread::ptr` is a position. -/
  all : List Thread := []
  threads : List (Option Nat) := []
  threadIds : List Int := []
  control : Control := .starting
  /-- The constructor of the manager has returned. -/
  constructed : Bool := false
  pool : Pool Cb

inductive ThreadPoolAct (Cb : Type) where
  /-- The owner calls `start`. -/
  | start
  /-- The owner calls `stop`. -/
  | stop
  /-- The owner goes on with its call. -/
  | go
  /-- `pthread_create`, and the id of the new thread, or none where it fails. -/
  | create (tid : Option Int)
  /-- A new thread goes on in `Thread::run`. -/
  | run (k : Nat)
  | pool (a : PoolAct Cb)
deriving DecidableEq, Repr

namespace ThreadPool

variable {Cb : Type}

/-- In the constructor of the manager, in front of `start()`. -/
def init (name : String) (threads now : Nat) : ThreadPool Cb :=
  { name, threadCount := threads
    pool := { Pool.init [] now with sched := { timers := .create now, stopping := true } } }

variable (s : ThreadPool Cb)

def setStopping (b : Bool) : ThreadPool Cb :=
  { s with pool := { s.pool with sched := { s.pool.sched with stopping := b } } }

/-- The thread has not left `Scheduler::run`. -/
def running (k : Nat) : Bool :=
  s.pool.workers[k]?.any fun w => !w.phase.hasLeft

/-- No thread that is running has the id. -/
def fresh (tid : Int) : Bool :=
  decide (0 < tid) && (s.all.zipIdx.all fun t => t.1.tid != tid || !s.running t.2)

/-- The thread has been created, and its worker is about to look at the queue. -/
def newThread (i : Nat) (tid : Int) : ThreadPool Cb :=
  { s with
    all := s.all ++ [.create (s.name ++ "_" ++ toString i) tid]
    pool := { s.pool with workers := s.pool.workers ++ [{ id := tid }] }
    control := .waiting i s.all.length }

/-- The next step of `start` or `stop`, apart from `pthread_create` and what `stop` does in
the pool. -/
def go : Option (Except ThreadFault (ThreadPool Cb)) :=
  match s.control with
  | .idle => none
  | .starting =>
      if s.pool.sched.stopping then
        if s.threads.isEmpty then
          some (.ok { s.setStopping false with
            threads := List.replicate s.threadCount none, control := .creating 0 })
        else some (.error .empty)
      else some (.ok { s with control := .idle })
  | .creating i =>
      if i < s.threadCount then none
      else some (.ok { s with control := .idle, constructed := true })
  | .waiting i k =>
      (s.all[k]?).bind fun t => t.wait.map fun t =>
        .ok { s with all := s.all.set k t, control := .made i k }
  | .made i k =>
      (s.all[k]?).map fun t => .ok { s with
        threads := s.threads.set i (some k), threadIds := s.threadIds ++ [t.id]
        control := .creating (i + 1) }
  | .stopping =>
      if s.pool.outside 0 = [] then
        some (.ok { s with threads := [], control := .joining s.threads })
      else none
  | .joining [] => some (.ok { s with control := .idle })
  | .joining (none :: _) => some (.error .null)
  | .joining (some k :: thrs) =>
      (s.all[k]?).bind fun t =>
        if !t.joinable then some (.ok { s with control := .joining thrs })
        else if s.running k then none
        else some (.ok { s with
          all := s.all.set k { t with joinable := false }, control := .joining thrs })

/-- The threads can make this step of the pool. -/
def admits (a : PoolAct Cb) : Bool :=
  a.goesOn && !(s.control.locked && s.pool.locks a) &&
    match a with
    | .worker i _ => s.all[i]?.any (·.phase == .called)
    | .call t _ => s.constructed && (t != 0 || s.control == .idle)
    | .op t => s.constructed && (t != 0 || s.control == .idle || s.control == .stopping)

/-- The pool makes a step. -/
def poolStep (a : PoolAct Cb) : Option (Except ThreadFault (ThreadPool Cb)) :=
  (s.pool.step a).map fun r =>
    match r with
    | .ok pool => .ok { s with pool }
    | .error e => .error (.pool e)

/-- One step; `none` when it cannot be made. -/
def step : ThreadPoolAct Cb → Option (Except ThreadFault (ThreadPool Cb))
  | .start => if s.control = .idle then some (.ok { s with control := .starting }) else none
  | .stop =>
      if s.control = .idle then
        { s with control := .stopping }.poolStep (.call 0 (.stop s.threadCount))
      else none
  | .go => s.go
  | .create tid =>
      match s.control, tid with
      | .creating i, some tid =>
          if i < s.threadCount && s.fresh tid then some (.ok (s.newThread i tid)) else none
      | .creating i, none => if i < s.threadCount then some (.error .create) else none
      | _, _ => none
  | .run k =>
      (s.all[k]?).bind fun t => t.run.map fun t => .ok { s with all := s.all.set k t }
  | .pool a => if s.admits a then s.poolStep a else none

end ThreadPool

/-! ## The steps -/

namespace ThreadPool

/-- The steps. -/
inductive Step (s : ThreadPool Cb) : ThreadPoolAct Cb → ThreadPool Cb → Prop
  | start : s.control = .idle → Step s .start { s with control := .starting }
  | stop {pool} : s.control = .idle →
      s.pool.step (.call 0 (.stop s.threadCount)) = some (.ok pool) →
      Step s .stop { s with pool, control := .stopping }
  | enter : s.control = .starting → s.pool.sched.stopping = true → s.threads = [] →
      Step s .go { s.setStopping false with
        threads := List.replicate s.threadCount none, control := .creating 0 }
  | ignored : s.control = .starting → s.pool.sched.stopping = false →
      Step s .go { s with control := .idle }
  | create {i tid} : s.control = .creating i → i < s.threadCount → s.fresh tid = true →
      Step s (.create (some tid)) (s.newThread i tid)
  | wait {i k t} : s.control = .waiting i k → s.all[k]? = some t → 0 < t.semaphore →
      Step s .go { s with
        all := s.all.set k { t with semaphore := t.semaphore - 1 }, control := .made i k }
  | record {i k t} : s.control = .made i k → s.all[k]? = some t →
      Step s .go { s with
        threads := s.threads.set i (some k), threadIds := s.threadIds ++ [t.id]
        control := .creating (i + 1) }
  | started {i} : s.control = .creating i → s.threadCount ≤ i →
      Step s .go { s with control := .idle, constructed := true }
  | swap : s.control = .stopping → s.pool.outside 0 = [] →
      Step s .go { s with threads := [], control := .joining s.threads }
  | joined {k thrs t} : s.control = .joining (some k :: thrs) → s.all[k]? = some t →
      t.joinable = false → Step s .go { s with control := .joining thrs }
  | join {k thrs t} : s.control = .joining (some k :: thrs) → s.all[k]? = some t →
      t.joinable = true → s.running k = false →
      Step s .go { s with
        all := s.all.set k { t with joinable := false }, control := .joining thrs }
  | stopped : s.control = .joining [] → Step s .go { s with control := .idle }
  | run {k t t'} : s.all[k]? = some t → t.run = some t' →
      Step s (.run k) { s with all := s.all.set k t' }
  | pool {a pool} : s.admits a = true → s.pool.step a = some (.ok pool) →
      Step s (.pool a) { s with pool }

variable {s s' : ThreadPool Cb} {a : ThreadPoolAct Cb}

theorem poolStep_ok {a : PoolAct Cb} (h : s.poolStep a = some (.ok s')) :
    ∃ pool, s.pool.step a = some (.ok pool) ∧ s' = { s with pool } := by
  obtain ⟨r, hr, heq⟩ := Option.map_eq_some_iff.mp h
  cases r with
  | ok pool => exact ⟨pool, hr, (Except.ok.inj heq).symm⟩
  | error e => cases heq

theorem go_ok (h : s.go = some (.ok s')) : s.Step .go s' := by
  rw [go] at h
  cases hc : s.control with
  | idle =>
      simp only [hc] at h
      cases h
  | starting =>
      simp only [hc] at h
      split at h
      · split at h
        · cases h
          exact .enter hc ‹_› (List.isEmpty_iff.mp ‹_›)
        · cases h
      · cases h
        exact .ignored hc (Bool.not_eq_true _ ▸ ‹_›)
  | creating i =>
      simp only [hc] at h
      split at h
      · cases h
      · cases h
        exact .started hc (Nat.le_of_not_lt ‹_›)
  | waiting i k =>
      simp only [hc] at h
      obtain ⟨t, ht, h⟩ := Option.bind_eq_some_iff.mp h
      obtain ⟨t', hwait, heq⟩ := Option.map_eq_some_iff.mp h
      obtain ⟨hpos, rfl⟩ := Thread.wait_cases hwait
      cases heq
      exact .wait hc ht hpos
  | made i k =>
      simp only [hc] at h
      obtain ⟨t, ht, heq⟩ := Option.map_eq_some_iff.mp h
      cases heq
      exact .record hc ht
  | stopping =>
      simp only [hc] at h
      split at h
      · cases h
        exact .swap hc ‹_›
      · cases h
  | joining thrs =>
      cases thrs with
      | nil =>
          simp only [hc] at h
          cases h
          exact .stopped hc
      | cons p thrs =>
          cases p with
          | none =>
              simp only [hc] at h
              cases h
          | some k =>
              simp only [hc] at h
              obtain ⟨t, ht, h⟩ := Option.bind_eq_some_iff.mp h
              cases hj : t.joinable with
              | false =>
                  rw [hj] at h
                  cases h
                  exact .joined hc ht hj
              | true =>
                  simp only [hj, Bool.not_true, Bool.false_eq_true, if_false] at h
                  split at h
                  · cases h
                  · cases h
                    exact .join hc ht hj (Bool.not_eq_true _ ▸ ‹_›)

theorem step_ok (h : proceed step s a = some s') : s.Step a s' := by
  rw [proceed_eq_some] at h
  cases a with
  | start =>
      simp only [step] at h
      split at h
      · cases h
        exact .start ‹_›
      · cases h
  | stop =>
      simp only [step] at h
      split at h
      · obtain ⟨pool, hpool, rfl⟩ := poolStep_ok h
        exact .stop ‹_› hpool
      · cases h
  | go => exact go_ok h
  | create tid =>
      simp only [step] at h
      split at h
      · split at h
        · rename_i hb
          cases h
          obtain ⟨hi, hfresh⟩ := Bool.and_eq_true_iff.mp hb
          exact .create ‹_› (of_decide_eq_true hi) hfresh
        · cases h
      · split at h <;> cases h
      · cases h
  | run k =>
      obtain ⟨t, ht, h⟩ := Option.bind_eq_some_iff.mp h
      obtain ⟨t', hrun, heq⟩ := Option.map_eq_some_iff.mp h
      cases heq
      exact .run ht hrun
  | pool a =>
      simp only [step] at h
      split at h
      · obtain ⟨pool, hpool, rfl⟩ := poolStep_ok h
        exact .pool ‹_› hpool
      · cases h

end ThreadPool

end CoLib
