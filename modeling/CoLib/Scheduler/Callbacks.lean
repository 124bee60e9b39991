/-
# `CoLib.Scheduler.Callbacks` — each callback is entered once

A callback goes from the queue to the worker that takes it, from there into a fiber
(`m_cb`), and it is entered when a worker switches into that fiber for the first time.
`Callbacks` is a pool with what the code does not record: which callback a fiber has
been given, by the number of its push; which ones have been entered on the stack of a
fiber and have not finished; and all that have been entered, in order.

**Proved here.**  `entered_once`: in runs in which no task refers to a callback fiber
that has finished, a worker at the top of the loop keeps no fiber, or one in `INIT`
that nobody else refers to; `reset` fails no assertion; no two callbacks share a stack;
and every callback taken is entered, once.
-/
import CoLib.Scheduler.Recycle
import CoLib.Scheduler.Take
import CoLib.Lib.Tokens

namespace CoLib

open Lib

variable {Cb : Type}

/-! ## A worker and a callback -/

/-- What a step does to the callback of a fiber. -/
inductive CbEvent where
  /-- `m_cb` is set to the callback with this number. -/
  | give (f : FiberPtr) (no : Nat)
  /-- `reset(nullptr)`. -/
  | clear (f : FiberPtr)
  /-- `MainFunc` calls `m_cb`. -/
  | enter (f : FiberPtr)
  /-- `m_cb` returns, or throws. -/
  | finish (f : FiberPtr) (ok : Bool)
deriving DecidableEq, Repr

/-- The callback with this number has been taken. -/
def TaskQueue.TookCb (q : TaskQueue Cb) (no : Nat) : Prop :=
  ∃ t ∈ q.taken, t.2.fiber = none ∧ t.2.no = no

namespace Worker

/-- The callback that the worker has taken, and not yet given to a fiber. -/
def callback (w : Worker Cb) : Option Nat :=
  match w.phase with
  | .scanned ft _ _ => if ft.fiber.isNone && ft.cb.isSome then some ft.no else none
  | _ => none

/-- What the worker's next step does to a callback. -/
def event (s : Scheduler Cb) (w : Worker Cb) : WorkerAct Cb → Option CbEvent
  | .next =>
      match w.phase with
      | .scanned ft _ false =>
          if ft.fiber.isNone && ft.cb.isSome then
            some (.give (w.cbFiber.getD s.fiberCount) ft.no)
          else none
      | .holding _ f => if s.state f = .init then some (.enter f) else none
      | .settling .cb f => if (s.state f).finished then some (.clear f) else none
      | _ => none
  | .finish ok =>
      match w.phase with
      | .inside _ f [] => some (.finish f ok)
      | _ => none
  | _ => none

variable {s s' : Scheduler Cb} {w w' : Worker Cb} {a : WorkerAct Cb}

/-- The other fibers and the queue are left alone. -/
structure Only (s s' : Scheduler Cb) (f : FiberPtr) : Prop where
  queue : s'.queue = s.queue
  fiber : ∀ f', f' ≠ f → s'.fiber f' = s.fiber f'
  count : s.fiberCount ≤ s'.fiberCount

theorem only_setFiber (s : Scheduler Cb) (f : FiberPtr) (x : Fiber) : Only s (s.setFiber f x) f :=
  ⟨rfl, fun _ hf => Scheduler.setFiber_of_ne _ hf _, le_rfl⟩

/-- What a step does to callbacks. -/
inductive Turn (s : Scheduler Cb) (w : Worker Cb) (s' : Scheduler Cb) (w' : Worker Cb) :
    Option CbEvent → Prop
  | quiet : w'.callback = w.callback → (∀ no, s'.queue.TookCb no ↔ s.queue.TookCb no) →
      s.fiberCount ≤ s'.fiberCount → (∀ b f, w.phase = .holding b f → s.state f ≠ .init) →
      (∀ f < s.fiberCount, (s'.state f = .init → s.state f = .init) ∧
        ((s'.state f).finished = true → (s.state f).finished = true) ∧
        (s.state f = .init → s'.state f = .init ∨
          ∃ r b, w.phase.hand = some (r, b, f) ∧ r ≠ .pending)) →
      Turn s w s' w' none
  | take {e} : w.phase = .scan → e.fiber = none → w'.callback = some e.no →
      s'.queue.taken = s.queue.taken ++ [(w.id, e)] → s'.fiber = s.fiber →
      s'.fiberCount = s.fiberCount → Turn s w s' w' none
  | give {ft isActive f} : w.phase = .scanned ft isActive false → w.callback = some ft.no →
      (w.cbFiber = some f ∧ (s.state f = .init ∨ (s.state f).finished = true)) ∨
        (f = s.fiberCount ∧ s'.fiberCount = s.fiberCount + 1) → s'.state f = .init →
      w'.phase = .holding .cb f → Only s s' f → Turn s w s' w' (some (.give f ft.no))
  | clear {f} : w.phase = .settling .cb f → (s.state f).finished = true → s'.state f = .init →
      w'.phase = .scan → Only s s' f → Turn s w s' w' (some (.clear f))
  | enter {b f} : w.phase = .holding b f → s.state f = .init → s'.state f = .exec →
      w'.phase = .inside b f [] → Only s s' f → Turn s w s' w' (some (.enter f))
  | finish {b f ok} : w.phase = .inside b f [] → (s'.state f).finished = true →
      w'.phase = .leaving b f → Only s s' f → Turn s w s' w' (some (.finish f ok))

/-- A step that gives, clears, enters and finishes nothing, and lets the queue and the
fibers grow. -/
theorem Turn.of_grows {fcs : List (FiberOrCb Cb)} {new : List (FiberAndThread Cb)}
    (hg : s.Grows s' fcs new) (hcb : w'.callback = w.callback)
    (hph : ∀ b f, w.phase ≠ .holding b f) : Turn s w s' w' none := by
  refine .quiet hcb (fun no => ?_) hg.count (fun b f h => absurd h (hph b f)) fun f hf => ?_
  · rw [TaskQueue.TookCb, TaskQueue.TookCb, hg.queue.taken]
  · rw [Scheduler.state, Scheduler.state, hg.fiber f hf]
    exact ⟨fun h => h, fun h => h, .inl⟩

theorem Turn.of_same (hq : s'.queue = s.queue) (hf : s'.fiber = s.fiber)
    (hc : s'.fiberCount = s.fiberCount) (hcb : w'.callback = w.callback)
    (hph : ∀ b f, w.phase ≠ .holding b f) : Turn s w s' w' none :=
  .of_grows (.quiet hq hf hc) hcb hph

theorem Step.turn (h : w.Step s a s' w') : Turn s w s' w' (w.event s a) := by
  have hquiet : ∀ {s₁ w₁}, w.event s a = none → Turn s w s₁ w₁ none →
      Turn s w s₁ w₁ (w.event s a) := fun hev h => hev ▸ h
  cases h with
  | scanNone hph _ =>
      refine hquiet (by rw [event, hph]) (.of_same rfl rfl rfl ?_ (by simp [hph]))
      simp [callback, hph, goto, FiberAndThread.empty]
  | @scanTake e l r tickleMe hph _ _ _ hsome =>
      have hev : w.event s .next = none := by rw [event, hph]
      cases hf : e.fiber with
      | none =>
          have hcb : e.cb.isSome = true := by simpa [FiberAndThread.isSome, hf] using hsome
          exact hev ▸ .take hph hf (by simp [callback, goto, hf, hcb]) rfl rfl rfl
      | some f =>
          refine hev ▸ .quiet ?_ (fun no => ?_) le_rfl (by simp [hph]) fun f _ =>
            ⟨fun h => h, fun h => h, .inl⟩
          · simp [callback, hph, goto, hf]
          · simp [TaskQueue.TookCb, hf]
  | @tickle ft isActive hph =>
      refine hquiet (by rw [event, hph]) (.of_grows (Scheduler.tickle_effect s).toGrows ?_
        (by simp [hph]))
      simp [callback, hph, goto]
  | @hold ft isActive f hph hf =>
      refine hquiet (by rw [event, hph]; simp [hf]) (.of_same rfl rfl rfl ?_ (by simp [hph]))
      simp [callback, hph, goto, hf]
  | @recycle ft isActive f hph hf hcb hc hst =>
      have hev : w.event s .next = some (.give f ft.no) := by
        rw [event, hph]
        simp [hf, hcb, hc]
      refine hev ▸ .give hph ?_ (.inl ⟨hc, ?_⟩) ?_ rfl (only_setFiber s f _)
      · simp [callback, hph, hf, hcb]
      · rcases hst with hst | hst | hst <;> simp [hst, FiberState.finished]
      · simp [Scheduler.state]
  | @create ft isActive hph hf hcb hc =>
      have hev : w.event s .next = some (.give s.fiberCount ft.no) := by
        rw [event, hph]
        simp [hf, hcb, hc]
      refine hev ▸ .give hph ?_ (.inr ⟨rfl, rfl⟩) ?_ rfl
        ⟨rfl, fun f hf => Scheduler.newFiber_of_ne s hf _, Nat.le_succ _⟩
      · simp [callback, hph, hf, hcb]
      · simp [Scheduler.state]
  | @drop ft hph hf hcb | @leave ft hph hf hcb =>
      refine hquiet (by rw [event, hph]; simp [hcb]) (.of_same rfl rfl rfl ?_ (by simp [hph]))
      simp [callback, hph, goto, hcb]
  | @idleIn ft hph hf hcb =>
      refine hquiet (by rw [event, hph]; simp [hcb]) (.of_same rfl rfl rfl ?_ (by simp [hph]))
      cases w.idle.finished <;> simp [callback, hph, hcb]
  | @swapIn b f hph hexec =>
      by_cases hinit : s.state f = .init
      · have hev : w.event s .next = some (.enter f) := by
          rw [event, hph]
          simp [hinit]
        refine hev ▸ .enter hph hinit ?_ ?_ (only_setFiber s f _)
        · simp [Scheduler.setState, Scheduler.state]
        · rw [hinit]
          rfl
      · refine hquiet (by rw [event, hph]; simp [hinit]) (.quiet ?_ (fun no => Iff.rfl) le_rfl
          (fun b' f' hph' => ?_) fun f' _ => ?_)
        · simp only [callback, hph, goto]
          cases (s.state f).finished <;> rfl
        · obtain ⟨rfl, rfl⟩ := Phase.holding.inj (hph.symm.trans hph')
          exact hinit
        · by_cases hf : f' = f
          · subst hf
            refine ⟨fun h => ?_, fun h => ?_, fun h => absurd h hinit⟩
            · simp [Scheduler.setState, Scheduler.state] at h
            · simp [Scheduler.setState, Scheduler.state, FiberState.finished] at h
          · rw [Scheduler.state, Scheduler.setState, Scheduler.setFiber_of_ne _ hf]
            exact ⟨fun h => h, fun h => h, .inl⟩
  | insideOp hph hexec | reschedulingOp hph hexec | handlingOp hph hexec =>
      obtain ⟨new, heff, -⟩ := Scheduler.exec_effect hexec
      exact hquiet (by rw [event, hph]) (.of_grows heff.toGrows (by simp [callback, hph, goto])
        (by simp [hph]))
  | @reschedule b f hph hst =>
      have hev : w.event s .next = none := by
        rw [event, hph]
        cases b <;> simp [hst, FiberState.finished]
      have htaken := (TaskQueue.appends_scheduleNoLock s.queue (.fiber (some f)) (-1)).taken
      refine hev ▸ .quiet (by simp [callback, hph, goto]) (fun no => ?_) le_rfl (by simp [hph])
        fun f _ => ⟨fun h => h, fun h => h, .inl⟩
      rw [TaskQueue.TookCb, TaskQueue.TookCb, ← htaken]
      rfl
  | @done f hph hfin =>
      refine hquiet (by rw [event, hph]) (.of_same rfl rfl rfl ?_ (by simp [hph]))
      simp [callback, hph, goto]
  | @keep f hph hfin =>
      have hev : w.event s .next = some (.clear f) := by
        rw [event, hph]
        simp [hfin]
      exact hev ▸ .clear hph hfin (by simp [Scheduler.state]) rfl (only_setFiber s f _)
  | @held b f hph hready hfin =>
      have hev : w.event s .next = none := by
        rw [event, hph]
        cases b <;> simp [hfin]
      refine hev ▸ .quiet (by simp [callback, hph, goto]) (fun no => Iff.rfl) le_rfl
        (by simp [hph]) fun f' _ => ?_
      by_cases hf : f' = f
      · subst hf
        refine ⟨fun h => ?_, fun h => ?_, fun _ => .inr ⟨.unsettled, b, by rw [hph]; rfl, by simp⟩⟩
        · simp [Scheduler.setState, Scheduler.state] at h
        · simp [Scheduler.setState, Scheduler.state, FiberState.finished] at h
      · rw [Scheduler.state, Scheduler.setState, Scheduler.setFiber_of_ne _ hf]
        exact ⟨fun h => h, fun h => h, .inl⟩
  | call hph _ hcall =>
      obtain ⟨new, heff, -⟩ := Scheduler.call_effect hcall
      exact hquiet rfl (.of_grows heff.toGrows (by simp [callback, hph, goto]) (by simp [hph]))
  | @finish b f hph hcb =>
      have hev : w.event s (.finish true) = some (.finish f true) := by rw [event, hph]
      exact hev ▸ .finish hph (by simp [Scheduler.state, FiberState.finished]) rfl
        (only_setFiber s f _)
  | @throw b f hph =>
      have hev : w.event s (.finish false) = some (.finish f false) := by rw [event, hph]
      exact hev ▸ .finish hph
        (by simp [Scheduler.setState, Scheduler.state, FiberState.finished]) rfl
        (only_setFiber s f _)
  | idleThrow hidle =>
      refine hquiet rfl (.of_same rfl rfl rfl ?_ fun b f hph => ?_)
      · cases hph : w.phase <;> simp [inIdle, hph] at hidle <;> simp [callback, hph]
      · simp [inIdle, hph] at hidle
  | count hph =>
      refine hquiet (by rw [event, hph]) (.of_same rfl rfl rfl ?_ (by simp [hph]))
      rw [callback, callback, hph, goto]
      by_cases hzero : s.pendingEventCount = 0 <;> simp [hzero]
  | @look now timers timeout hph =>
      refine hquiet rfl (.of_same rfl rfl rfl ?_ (by simp [hph]))
      rw [callback, callback, hph, goto]
      by_cases hnone : timeout = wordSize - 1 <;> simp [hnone]
  | swapOut hph | inactive hph | rescheduled hph | goOn hph | stop hph | handled hph
  | idleOut hph =>
      exact hquiet (by rw [event, hph]) (.of_same rfl rfl rfl (by simp [callback, hph, goto])
        (by simp [hph]))
  | wake hph | skip hph | yieldToHold hph =>
      exact hquiet rfl (.of_same rfl rfl rfl (by simp [callback, hph, goto]) (by simp [hph]))

end Worker

/-! ## All threads -/

def Pool.event (s : Pool Cb) : PoolAct Cb → Option CbEvent
  | .worker i a => (s.workers[i]?).bind fun w => w.event s.sched a
  | _ => none

/-- A pool, and what has become of the callbacks that its workers have taken. -/
structure Callbacks (Cb : Type) where
  pool : Pool Cb
  /-- The callback in `m_cb`. -/
  given : FiberPtr → Option Nat := fun _ => none
  /-- The callbacks entered on the stack of a fiber that have not finished. -/
  stack : FiberPtr → List Nat := fun _ => []
  /-- All callbacks entered. -/
  entered : List Nat := []

namespace Callbacks

/-- The records when the pool has become `s`. -/
def after (x : Callbacks Cb) (s : Pool Cb) : Option CbEvent → Callbacks Cb
  | none => { x with pool := s }
  | some (.give f no) => { x with pool := s, given := Function.update x.given f (some no) }
  | some (.clear f) => { x with pool := s, given := Function.update x.given f none }
  | some (.enter f) =>
      match x.given f with
      | some no => { x with
          pool    := s
          stack   := Function.update x.stack f (no :: x.stack f)
          entered := x.entered ++ [no] }
      | none => { x with pool := s }
  | some (.finish f ok) => { x with
      pool  := s
      given := if ok then Function.update x.given f none else x.given
      stack := Function.update x.stack f (x.stack f).tail }

def step (x : Callbacks Cb) (a : PoolAct Cb) : Option (Except Assertion (Callbacks Cb)) :=
  (x.pool.step a).map fun r => r.map fun s => x.after s (x.pool.event a)

def init (ids : List Int) (now : Nat) : Callbacks Cb :=
  { pool := .init ids now }

variable {x x' : Callbacks Cb} {a : PoolAct Cb} {s : Pool Cb} {f : FiberPtr} {no : Nat}

@[simp] theorem after_pool (x : Callbacks Cb) (s : Pool Cb) (ev : Option CbEvent) :
    (x.after s ev).pool = s := by
  unfold after
  split
  case h_4 => split <;> rfl
  all_goals rfl

theorem step_ok (h : proceed step x a = some x') :
    x.pool.Step a x'.pool ∧ x' = x.after x'.pool (x.pool.event a) := by
  rw [proceed_eq_some] at h
  obtain ⟨r, hr, heq⟩ := Option.map_eq_some_iff.mp h
  obtain ⟨s, rfl, rfl⟩ := map_ok heq
  rw [after_pool]
  exact ⟨Pool.step_ok (proceed_eq_some.mpr hr), rfl⟩

/-- The callback that a fiber has been given, and that has not been entered. -/
def loaded (x : Callbacks Cb) (f : FiberPtr) : Option Nat :=
  if x.pool.sched.state f = .init then x.given f else none

theorem loaded_eq_some :
    x.loaded f = some no ↔ x.pool.sched.state f = .init ∧ x.given f = some no := by
  rw [loaded]
  split <;> simp [*]

theorem loaded_eq_none (h : x.pool.sched.state f ≠ .init ∨ x.given f = none) :
    x.loaded f = none := by
  rw [loaded]
  rcases h with h | h <;> simp [h]

/-- Where a callback that has been taken can be. -/
inductive Place where
  | worker (i : Nat)
  | fiber (f : FiberPtr)
  | entered (k : Nat)
deriving DecidableEq

def place (x : Callbacks Cb) : Place → Option Nat
  | .worker i => (x.pool.workers[i]?).bind Worker.callback
  | .fiber f => x.loaded f
  | .entered k => x.entered[k]?

/-- Every callback taken is with its worker, in a fiber that its worker is about to switch
into, or entered; and a stack that is not in use holds none. -/
structure Accounted (x : Callbacks Cb) : Prop where
  pool : x.pool.Recycling
  queue : x.pool.sched.queue.Sound
  fresh : ∀ f, x.pool.sched.fiberCount ≤ f → x.given f = none ∧ x.stack f = []
  holder : ∀ {f no}, x.loaded f = some no → ∃ i w, x.pool.At i w ∧ w.phase = .holding .cb f
  stack : ∀ f, (x.stack f).length ≤ 1 ∧ (x.pool.sched.state f = .init ∨
    (x.pool.sched.state f).finished = true → x.stack f = [])
  placed : Placed x.place x.pool.sched.queue.TookCb

theorem accounted_init (ids : List Int) (now : Nat) : (init ids now : Callbacks Cb).Accounted where
  pool   := Pool.recycling_init ids now
  queue  := .empty
  fresh  := fun _ _ => ⟨rfl, rfl⟩
  holder := fun h => by
    rw [loaded_eq_some] at h
    cases h.2
  stack  := fun _ => ⟨Nat.zero_le _, fun _ => rfl⟩
  placed := by
    refine Placed.empty.congr (fun p => ?_) fun no => ?_
    · cases p with
      | worker i =>
          show ((Pool.init ids now : Pool Cb).workers[i]?).bind Worker.callback = none
          cases hw : (Pool.init ids now : Pool Cb).workers[i]? with
          | none => rfl
          | some w =>
              rw [Option.bind_some, Worker.callback, (Pool.init_at hw).1]
      | fiber f =>
          rw [place, Callbacks.loaded]
          exact ite_self _
      | entered k => rfl
    · exact iff_of_false (fun ⟨t, ht, _⟩ => by cases ht) fun h => h

/-! ### Steps that are about no callback -/

/-- A fiber into which a worker is past the switch has no callback left to enter. -/
theorem Accounted.not_loaded (h : x.Accounted) {j : Nat} {v : Worker Cb} (hv : x.pool.At j v)
    {r : Role} {b : Branch} (hh : v.phase.hand = some (r, b, f)) (hr : r ≠ .pending) :
    x.loaded f = none := by
  cases hno : x.loaded f with
  | none => rfl
  | some no =>
      obtain ⟨i, w, hw, hph⟩ := h.holder hno
      have hc : w.cbFiber = some f := h.pool.keeps hw .pending f (by rw [hph]; rfl)
      exact absurd (loaded_eq_some.mp hno).1 (h.pool.not_init hw hc hv hh hr)

theorem Accounted.quiet (h : x.Accounted) (hpool : s.Recycling) (hqueue : s.sched.queue.Sound)
    (hcount : x.pool.sched.fiberCount ≤ s.sched.fiberCount)
    (hcb : ∀ i : Nat, (s.workers[i]?).bind Worker.callback
      = (x.pool.workers[i]?).bind Worker.callback)
    (hhold : ∀ {i w f}, x.pool.At i w → w.phase = .holding .cb f →
      x.pool.sched.state f = .init → ∃ w', s.At i w' ∧ w'.phase = .holding .cb f)
    (htook : ∀ no, s.sched.queue.TookCb no ↔ x.pool.sched.queue.TookCb no)
    (hfiber : ∀ f < x.pool.sched.fiberCount,
      (s.sched.state f = .init → x.pool.sched.state f = .init) ∧
      ((s.sched.state f).finished = true → (x.pool.sched.state f).finished = true) ∧
      (x.pool.sched.state f = .init → s.sched.state f = .init ∨ x.loaded f = none)) :
    ({ x with pool := s } : Callbacks Cb).Accounted := by
  have hloaded : ∀ f, ({ x with pool := s } : Callbacks Cb).loaded f = x.loaded f := by
    intro f
    by_cases hlt : f < x.pool.sched.fiberCount
    · obtain ⟨hback, -, hforth⟩ := hfiber f hlt
      by_cases hinit : x.pool.sched.state f = .init
      · rcases hforth hinit with hinit' | hno
        · rw [loaded, loaded, if_pos hinit, if_pos hinit']
        · rw [hno]
          rw [loaded, if_pos hinit] at hno
          rw [loaded]
          simp [hno]
      · rw [loaded, loaded, if_neg hinit, if_neg fun hinit' => hinit (hback hinit')]
    · have hno := (h.fresh f (Nat.le_of_not_lt hlt)).1
      rw [loaded, loaded]
      simp [hno]
  refine ⟨hpool, hqueue, fun f hf => h.fresh f (hcount.trans hf), fun {f no} hno => ?_,
    fun f => ?_, h.placed.congr (fun p => ?_) htook⟩
  · rw [hloaded] at hno
    obtain ⟨i, w, hw, hph⟩ := h.holder hno
    obtain ⟨w', hw', hph'⟩ := hhold hw hph (loaded_eq_some.mp hno).1
    exact ⟨i, w', hw', hph'⟩
  · refine ⟨(h.stack f).1, fun hst => ?_⟩
    by_cases hlt : f < x.pool.sched.fiberCount
    · obtain ⟨hback, hfin, -⟩ := hfiber f hlt
      exact (h.stack f).2 (hst.imp hback hfin)
    · exact (h.fresh f (Nat.le_of_not_lt hlt)).2
  · cases p with
    | worker i => exact hcb i
    | fiber f => exact hloaded f
    | entered k => rfl

/-- What threads outside do. -/
theorem Accounted.outside (h : x.Accounted) (hpool : s.Recycling) (hqueue : s.sched.queue.Sound)
    {fcs : List (FiberOrCb Cb)} {new : List (FiberAndThread Cb)}
    (hg : x.pool.sched.Grows s.sched fcs new) (hw : s.workers = x.pool.workers) :
    ({ x with pool := s } : Callbacks Cb).Accounted := by
  refine h.quiet hpool hqueue hg.count (fun i => by rw [hw]) (fun {i w f} hi hph _ => ⟨w, ?_, hph⟩)
    (fun no => ?_) fun f hf => ?_
  · rw [Pool.At, hw]
    exact hi
  · rw [TaskQueue.TookCb, TaskQueue.TookCb, hg.queue.taken]
  · rw [Scheduler.state, Scheduler.state, hg.fiber f hf]
    exact ⟨fun h => h, fun h => h, .inl⟩

section Worker

variable {i : Nat} {w w' : Worker Cb} {sched : Scheduler Cb}

theorem callback_setWorker (hw : x.pool.At i w) (j : Nat) :
    ((x.pool.setWorker i sched w').workers[j]?).bind Worker.callback =
      if j = i then w'.callback else (x.pool.workers[j]?).bind Worker.callback := by
  by_cases hji : j = i
  · subst hji
    rw [if_pos rfl, (Pool.at_setWorker_self hw).getElem?]
    rfl
  · rw [if_neg hji]
    exact congrArg (Option.bind · Worker.callback) (List.getElem?_set_ne (Ne.symm hji))

theorem callback_same (hw : x.pool.At i w) (hcb : w'.callback = w.callback) (j : Nat) :
    ((x.pool.setWorker i sched w').workers[j]?).bind Worker.callback =
      (x.pool.workers[j]?).bind Worker.callback := by
  rw [callback_setWorker hw]
  split
  · rename_i hj
    rw [hj, hcb, hw.getElem?]
    rfl
  · rfl

/-- Another worker that is about to switch into a fiber still is. -/
theorem holder_setWorker (hw : x.pool.At i w) (hne : w.phase ≠ .holding .cb f)
    (h : ∃ j v, x.pool.At j v ∧ v.phase = .holding .cb f) :
    ∃ j v, (x.pool.setWorker i sched w').At j v ∧ v.phase = .holding .cb f := by
  obtain ⟨j, v, hv, hph⟩ := h
  have hji : j ≠ i := by
    rintro rfl
    obtain rfl := hw.unique hv
    exact hne hph
  exact ⟨j, v, Pool.at_setWorker_ne hji hv, hph⟩

theorem TookCb_of_taken {q q' : TaskQueue Cb} (h : q'.taken = q.taken) (no : Nat) :
    q'.TookCb no ↔ q.TookCb no := by
  rw [TaskQueue.TookCb, TaskQueue.TookCb, h]

/-- A worker takes a callback. -/
theorem Accounted.take (h : x.Accounted) (hw : x.pool.At i w)
    (hpool : (x.pool.setWorker i sched w').Recycling) (hqueue : sched.queue.Sound)
    {e : FiberAndThread Cb} (hph : w.phase = .scan) (hf : e.fiber = none)
    (hcb : w'.callback = some e.no)
    (htaken : sched.queue.taken = x.pool.sched.queue.taken ++ [(w.id, e)])
    (hfiber : sched.fiber = x.pool.sched.fiber)
    (hcount : sched.fiberCount = x.pool.sched.fiberCount) :
    ({ x with pool := x.pool.setWorker i sched w' } : Callbacks Cb).Accounted := by
  have hstate : ∀ f, sched.state f = x.pool.sched.state f := fun f => by
    rw [Scheduler.state, Scheduler.state, hfiber]
  have hloaded : ∀ f, ({ x with pool := x.pool.setWorker i sched w' } : Callbacks Cb).loaded f
      = x.loaded f := fun f => by
    show (if sched.state f = .init then _ else _) = _
    rw [hstate]
    rfl
  have hnew : ¬ x.pool.sched.queue.TookCb e.no := by
    rintro ⟨t, ht, -, hno⟩
    have hnodup := hqueue.taken_nodup
    rw [htaken, List.map_append] at hnodup
    exact (List.disjoint_of_nodup_append hnodup) (List.mem_map_of_mem ht)
      (List.mem_singleton.mpr hno)
  refine ⟨hpool, hqueue, fun f hlt => h.fresh f (hcount ▸ hlt), fun {f no} hno => ?_, fun f => ?_,
    (h.placed.issue (p := .worker i) ?_ hnew).congr (fun p => ?_) fun no => ?_⟩
  · rw [hloaded] at hno
    exact holder_setWorker hw (by simp [hph]) (h.holder hno)
  · show _ ∧ (sched.state f = .init ∨ (sched.state f).finished = true → _)
    rw [hstate]
    exact h.stack f
  · rw [place, hw.getElem?, Option.bind_some, Worker.callback, hph]
  · cases p with
    | worker j =>
        rw [place, callback_setWorker hw, Function.update_apply]
        simp only [Place.worker.injEq, hcb]
        rfl
    | fiber f =>
        rw [Function.update_of_ne (by simp)]
        exact hloaded f
    | entered k => rw [Function.update_of_ne (by simp)]; rfl
  · constructor
    · rintro ⟨t, ht, hcb, rfl⟩
      have ht : t ∈ sched.queue.taken := ht
      rw [htaken] at ht
      rcases List.mem_append.mp ht with ht | ht
      · exact .inr ⟨t, ht, hcb, rfl⟩
      · rw [List.mem_singleton.mp ht]
        exact .inl rfl
    · show no = e.no ∨ _ → ∃ t ∈ sched.queue.taken, _
      rw [htaken]
      rintro (rfl | ⟨t, ht, hcb, hno⟩)
      · exact ⟨(w.id, e), by simp, hf, rfl⟩
      · exact ⟨t, List.mem_append_left _ ht, hcb, hno⟩

/-- The other fibers, in a step that is about one. -/
theorem loaded_only {y : Callbacks Cb} (honly : Worker.Only x.pool.sched y.pool.sched f)
    (hgiven : ∀ f', f' ≠ f → y.given f' = x.given f') {f' : FiberPtr} (hf : f' ≠ f) :
    y.loaded f' = x.loaded f' := by
  rw [loaded, loaded, Scheduler.state, honly.fiber f' hf, hgiven f' hf]
  rfl

/-- A step of a worker that is about one fiber. -/
theorem Accounted.about (h : x.Accounted) {y : Callbacks Cb} (hw : x.pool.At i w)
    (hy : y.pool = x.pool.setWorker i sched w') (hpool : y.pool.Recycling)
    (hqueue : sched.queue.Sound) (honly : Worker.Only x.pool.sched sched f)
    (hlt : f < sched.fiberCount) (hgiven : ∀ f', f' ≠ f → y.given f' = x.given f')
    (hstack : ∀ f', f' ≠ f → y.stack f' = x.stack f')
    (hph : ∀ f', f' ≠ f → w.phase ≠ .holding .cb f')
    (hholder : y.loaded f ≠ none → w'.phase = .holding .cb f)
    (hstackf : (y.stack f).length ≤ 1 ∧
      (sched.state f = .init ∨ (sched.state f).finished = true → y.stack f = []))
    (hplaced : Placed y.place x.pool.sched.queue.TookCb) : y.Accounted := by
  have hsched : y.pool.sched = sched := by rw [hy]; rfl
  have hloaded : ∀ {f'}, f' ≠ f → y.loaded f' = x.loaded f' :=
    loaded_only (hsched ▸ honly) hgiven
  refine ⟨hpool, hsched ▸ hqueue, fun f' hf' => ?_, fun {f' no} hno => ?_, fun f' => ?_,
    hplaced.congr (fun _ => rfl) fun no => ?_⟩
  · rw [hsched] at hf'
    have hne : f' ≠ f := fun heq => absurd hlt (Nat.not_lt_of_le (heq ▸ hf'))
    rw [hgiven f' hne, hstack f' hne]
    exact h.fresh f' (honly.count.trans hf')
  · rw [hy]
    by_cases hf : f' = f
    · subst hf
      exact ⟨i, w', Pool.at_setWorker_self hw, hholder (by rw [hno]; simp)⟩
    · exact holder_setWorker hw (hph f' hf) (h.holder (hloaded hf ▸ hno))
  · by_cases hf : f' = f
    · subst hf
      rw [hsched]
      exact hstackf
    · rw [hstack f' hf, hsched, Scheduler.state, honly.fiber f' hf]
      exact h.stack f'
  · rw [hsched]
    exact TookCb_of_taken (by rw [honly.queue]) no

/-- A step that moves no callback. -/
theorem Accounted.placed_same (h : x.Accounted) {y : Callbacks Cb} (hw : x.pool.At i w)
    (hy : y.pool = x.pool.setWorker i sched w') (hcb : w'.callback = w.callback)
    (hloaded : ∀ f, y.loaded f = x.loaded f) (hentered : y.entered = x.entered) :
    Placed y.place x.pool.sched.queue.TookCb := by
  refine h.placed.congr (fun p => ?_) fun _ => Iff.rfl
  cases p with
  | worker j =>
      rw [place, hy]
      exact callback_same hw hcb j
  | fiber f => exact hloaded f
  | entered k => rw [place, place, hentered]

/-- The worker gives its callback to the fiber that it keeps, or has made. -/
theorem Accounted.give (h : x.Accounted) (hw : x.pool.At i w)
    (hpool : (x.pool.setWorker i sched w').Recycling) (hqueue : sched.queue.Sound)
    {ft : FiberAndThread Cb} {isActive : Bool} (hph : w.phase = .scanned ft isActive false)
    (hcb : w.callback = some no)
    (hf : (w.cbFiber = some f ∧ (x.pool.sched.state f = .init ∨
        (x.pool.sched.state f).finished = true)) ∨
      (f = x.pool.sched.fiberCount ∧ sched.fiberCount = x.pool.sched.fiberCount + 1))
    (hinit : sched.state f = .init) (hph' : w'.phase = .holding .cb f)
    (honly : Worker.Only x.pool.sched sched f) :
    ({ x with
        pool  := x.pool.setWorker i sched w'
        given := Function.update x.given f (some no) } : Callbacks Cb).Accounted := by
  have hgiven : ∀ f', f' ≠ f → Function.update x.given f (some no) f' = x.given f' :=
    fun f' hf => Function.update_of_ne hf _ _
  have hlt : f < sched.fiberCount := by
    rcases hf with ⟨hc, -⟩ | ⟨rfl, hcount⟩
    · exact (h.pool.known.has hw (.inr hc)).trans_le honly.count
    · rw [hcount]
      exact Nat.lt_succ_self _
  have hstack : x.stack f = [] := by
    rcases hf with ⟨-, hst⟩ | ⟨rfl, -⟩
    · exact (h.stack f).2 hst
    · exact (h.fresh _ le_rfl).2
  -- nobody else is about to switch into the fiber
  have hnone : x.place (.fiber f) = none := by
    rw [place]
    rcases hf with ⟨hc, -⟩ | ⟨rfl, -⟩
    · cases hno : x.loaded f with
      | none => rfl
      | some m =>
          obtain ⟨j, v, hv, hvph⟩ := h.holder hno
          have hk : v.cbFiber = some f := h.pool.keeps hv .pending f (by rw [hvph]; rfl)
          obtain rfl := h.pool.keeper hw hc hv hk
          obtain rfl := hw.unique hv
          rw [hph] at hvph
          cases hvph
    · exact loaded_eq_none (.inr (h.fresh _ le_rfl).1)
  have hworker : x.place (.worker i) = some no := by
    rw [place, hw.getElem?]
    exact hcb
  refine h.about hw rfl hpool hqueue honly hlt hgiven (fun _ _ => rfl) (fun f' _ => by simp [hph])
    (fun _ => hph') ⟨by simp [hstack], fun _ => hstack⟩
    ((h.placed.move hworker hnone).congr (fun p => ?_) fun _ => Iff.rfl)
  cases p with
  | worker j =>
      rw [place, callback_setWorker hw, Function.update_of_ne (by simp), Function.update_apply]
      simp only [Place.worker.injEq]
      split
      · rw [Worker.callback, hph']
      · rfl
  | fiber f' =>
      by_cases hff : f' = f
      · subst hff
        rw [Function.update_self]
        exact loaded_eq_some.mpr ⟨hinit, Function.update_self ..⟩
      · rw [Function.update_of_ne (by simpa using hff), Function.update_of_ne (by simp)]
        exact loaded_only honly hgiven hff
  | entered k =>
      rw [Function.update_of_ne (by simp), Function.update_of_ne (by simp)]
      rfl

/-- The worker takes the callback from the fiber that it keeps. -/
theorem Accounted.clear (h : x.Accounted) (hw : x.pool.At i w)
    (hpool : (x.pool.setWorker i sched w').Recycling) (hqueue : sched.queue.Sound)
    (hph : w.phase = .settling .cb f) (hfin : (x.pool.sched.state f).finished = true)
    (hph' : w'.phase = .scan) (honly : Worker.Only x.pool.sched sched f) :
    ({ x with
        pool  := x.pool.setWorker i sched w'
        given := Function.update x.given f none } : Callbacks Cb).Accounted := by
  have hgiven : ∀ f', f' ≠ f → Function.update x.given f none f' = x.given f' :=
    fun f' hf => Function.update_of_ne hf _ _
  have hhas : w.Has f := .of_hand (r := .unsettled) (b := .cb) (by rw [hph]; rfl)
  have hlt := (h.pool.known.has hw hhas).trans_le honly.count
  have hstack := (h.stack f).2 (.inr hfin)
  have hold : x.loaded f = none := loaded_eq_none (.inl fun hinit => by
    rw [hinit] at hfin
    cases hfin)
  have hnew : ({ x with
      pool  := x.pool.setWorker i sched w'
      given := Function.update x.given f none } : Callbacks Cb).loaded f = none :=
    loaded_eq_none (.inr (Function.update_self ..))
  refine h.about hw rfl hpool hqueue honly hlt hgiven (fun _ _ => rfl) (fun f' _ => by simp [hph])
    (fun hno => absurd hnew hno) ⟨by simp [hstack], fun _ => hstack⟩
    (h.placed_same hw rfl (by simp [Worker.callback, hph, hph']) (fun f' => ?_) rfl)
  by_cases hf : f' = f
  · subst hf
    exact hnew.trans hold.symm
  · exact loaded_only honly hgiven hf

/-- The callback of a fiber finishes. -/
theorem Accounted.finish (h : x.Accounted) (hw : x.pool.At i w)
    (hpool : (x.pool.setWorker i sched w').Recycling) (hqueue : sched.queue.Sound) {b : Branch}
    {ok : Bool} (hph : w.phase = .inside b f []) (hfin : (sched.state f).finished = true)
    (hph' : w'.phase = .leaving b f) (honly : Worker.Only x.pool.sched sched f) :
    ({ x with
        pool  := x.pool.setWorker i sched w'
        given := if ok then Function.update x.given f none else x.given
        stack := Function.update x.stack f (x.stack f).tail } : Callbacks Cb).Accounted := by
  have hgiven : ∀ f', f' ≠ f →
      (if ok then Function.update x.given f none else x.given) f' = x.given f' := by
    intro f' hf
    split
    · exact Function.update_of_ne hf _ _
    · rfl
  have hhand : w.phase.hand = some (.inside, b, f) := by rw [hph]; rfl
  have hlt := (h.pool.known.has hw (.of_hand hhand)).trans_le honly.count
  have hstack : (x.stack f).tail = [] := by
    have hlen := (h.stack f).1
    exact List.eq_nil_of_length_eq_zero (by rw [List.length_tail]; omega)
  have hnew : ({ x with
      pool  := x.pool.setWorker i sched w'
      given := if ok then Function.update x.given f none else x.given
      stack := Function.update x.stack f (x.stack f).tail } : Callbacks Cb).loaded f = none :=
    loaded_eq_none (.inl fun hinit => by
      have hinit : sched.state f = .init := hinit
      rw [hinit] at hfin
      cases hfin)
  refine h.about hw rfl hpool hqueue honly hlt hgiven
    (fun f' hf => Function.update_of_ne hf _ _) (fun f' _ => by simp [hph])
    (fun hno => absurd hnew hno) (by simp [hstack])
    (h.placed_same hw rfl (by simp [Worker.callback, hph, hph']) (fun f' => ?_) rfl)
  by_cases hf : f' = f
  · subst hf
    exact hnew.trans (h.not_loaded hw hhand (by simp)).symm
  · exact loaded_only honly hgiven hf

/-- A worker switches into a fiber that has not begun. -/
theorem Accounted.enter (h : x.Accounted) (hw : x.pool.At i w)
    (hpool : (x.pool.setWorker i sched w').Recycling) (hqueue : sched.queue.Sound) {b : Branch}
    (hph : w.phase = .holding b f) (hinit : x.pool.sched.state f = .init)
    (hexec : sched.state f = .exec) (hph' : w'.phase = .inside b f [])
    (honly : Worker.Only x.pool.sched sched f) :
    (x.after (x.pool.setWorker i sched w') (some (.enter f))).Accounted := by
  have hhand : w.phase.hand = some (.pending, b, f) := by rw [hph]; rfl
  have hlt := (h.pool.known.has hw (.of_hand hhand)).trans_le honly.count
  have hcb : w'.callback = w.callback := by simp [Worker.callback, hph, hph']
  have hne : ∀ f', f' ≠ f → w.phase ≠ .holding .cb f' := by
    intro f' hf hph₁
    exact hf (Phase.holding.inj (hph.symm.trans hph₁)).2.symm
  have hstack := (h.stack f).2 (.inl hinit)
  cases hno : x.given f with
  | none =>
      simp only [after, hno]
      have hnew : ({ x with pool := x.pool.setWorker i sched w' } : Callbacks Cb).loaded f = none :=
        loaded_eq_none (.inr hno)
      refine h.about hw rfl hpool hqueue honly hlt (fun _ _ => rfl) (fun _ _ => rfl) hne
        (fun h => absurd hnew h) ⟨by simp [hstack], fun _ => hstack⟩
        (h.placed_same hw rfl hcb (fun f' => ?_) rfl)
      by_cases hf : f' = f
      · subst hf
        exact hnew.trans (loaded_eq_none (.inr hno)).symm
      · refine loaded_only ?_ ?_ hf
        · exact honly
        · exact fun _ _ => rfl
  | some no =>
      simp only [after, hno]
      have hnew : ({ x with
          pool    := x.pool.setWorker i sched w'
          stack   := Function.update x.stack f (no :: x.stack f)
          entered := x.entered ++ [no] } : Callbacks Cb).loaded f = none :=
        loaded_eq_none (.inl fun h => by
          have h : sched.state f = .init := h
          rw [h] at hexec
          cases hexec)
      have hold : x.place (.fiber f) = some no := loaded_eq_some.mpr ⟨hinit, hno⟩
      have hend : x.place (.entered x.entered.length) = none :=
        List.getElem?_eq_none le_rfl
      refine h.about hw rfl hpool hqueue honly hlt (fun _ _ => rfl)
        (fun f' hf => Function.update_of_ne hf _ _) hne (fun h => absurd hnew h) ⟨?_, fun hst => ?_⟩
        ((h.placed.move hold hend).congr (fun p => ?_) fun _ => Iff.rfl)
      · simp [hstack]
      · rw [hexec] at hst
        rcases hst with hst | hst <;> cases hst
      · cases p with
        | worker j =>
            rw [Function.update_of_ne (by simp), Function.update_of_ne (by simp)]
            exact callback_same hw hcb j
        | fiber f' =>
            rw [Function.update_of_ne (by simp), Function.update_apply]
            by_cases hf : f' = f
            · subst hf
              rw [if_pos rfl]
              exact hnew
            · rw [if_neg (by simpa using hf), place, place]
              refine loaded_only ?_ ?_ hf
              · exact honly
              · exact fun _ _ => rfl
        | entered k =>
            rw [Function.update_apply]
            by_cases hk : k = x.entered.length
            · subst hk
              rw [if_pos rfl, place]
              simp
            · rw [if_neg (by simpa using hk), Function.update_of_ne (by simp), place, place]
              rw [List.getElem?_append]
              split
              · rfl
              · have hlen : x.entered.length < k := by omega
                rw [List.getElem?_eq_none hlen.le]
                exact List.getElem?_eq_none (by simp; omega)

/-- What a worker does to a callback keeps the account. -/
theorem Accounted.turn (h : x.Accounted) (hw : x.pool.At i w)
    (hpool : (x.pool.setWorker i sched w').Recycling) (hqueue : sched.queue.Sound)
    {ev : Option CbEvent} (hturn : Worker.Turn x.pool.sched w sched w' ev) :
    (x.after (x.pool.setWorker i sched w') ev).Accounted := by
  cases hturn with
  | quiet hcb htook hcount hph hfiber =>
      refine h.quiet hpool hqueue hcount (callback_same hw hcb)
        (fun {j v f} hv hph' hinit => ?_) htook fun f hlt => ?_
      · have hji : j ≠ i := by
          rintro rfl
          obtain rfl := hw.unique hv
          exact hph _ _ hph' hinit
        exact ⟨v, Pool.at_setWorker_ne hji hv, hph'⟩
      · obtain ⟨hback, hfin, hforth⟩ := hfiber f hlt
        exact ⟨hback, hfin, fun hinit =>
          (hforth hinit).imp_right fun ⟨r, b, hh, hr⟩ => h.not_loaded hw hh hr⟩
  | take hph hf hcb htaken hfiber hcount =>
      exact h.take hw hpool hqueue hph hf hcb htaken hfiber hcount
  | give hph hcb hf hinit hph' honly =>
      exact h.give hw hpool hqueue hph hcb hf hinit hph' honly
  | clear hph hfin _ hph' honly => exact h.clear hw hpool hqueue hph hfin hph' honly
  | enter hph hinit hexec hph' honly => exact h.enter hw hpool hqueue hph hinit hexec hph' honly
  | finish hph hfin hph' honly => exact h.finish hw hpool hqueue hph hfin hph' honly

end Worker

/-! ### Whole runs -/

theorem Accounted.step (h : x.Accounted) (hx : proceed step x a = some x')
    (hg : x.pool.Forgotten a) : x'.Accounted := by
  obtain ⟨hs, heq⟩ := step_ok hx
  have hpool := h.pool.step hs hg
  have hqueue := hs.sound h.queue
  rw [heq]
  generalize x'.pool = s at hs hpool hqueue
  cases hs with
  | @worker i w a sched w' hw hstep =>
      have hev : x.pool.event (.worker i a) = w.event x.pool.sched a := by
        rw [Pool.event, hw.getElem?]
        rfl
      rw [hev]
      exact h.turn hw hpool hqueue hstep.turn
  | call _ hcall =>
      obtain ⟨new, heff, -⟩ := Scheduler.call_effect hcall
      exact h.outside hpool hqueue heff.toGrows rfl
  | op _ hexec =>
      obtain ⟨new, heff, -⟩ := Scheduler.exec_effect hexec
      exact h.outside hpool hqueue heff.toGrows rfl

/-- The worker has taken the callback, and nobody has entered it. -/
def Awaits (x : Callbacks Cb) (w : Worker Cb) (no : Nat) : Prop :=
  w.callback = some no ∨ ∃ f, w.phase = .holding .cb f ∧ x.loaded f = some no

/-- A callback that a worker has taken is awaited or has been entered. -/
theorem Accounted.took (h : x.Accounted) : x.pool.sched.queue.TookCb no ↔
    no ∈ x.entered ∨ ∃ i w, x.pool.At i w ∧ x.Awaits w no := by
  rw [h.placed.issued]
  constructor
  · rintro ⟨p, hp⟩
    cases p with
    | worker i =>
        obtain ⟨w, hw, hcb⟩ := Option.bind_eq_some_iff.mp hp
        exact .inr ⟨i, w, hw, .inl hcb⟩
    | fiber f =>
        obtain ⟨i, w, hw, hph⟩ := h.holder hp
        exact .inr ⟨i, w, hw, .inr ⟨f, hph, hp⟩⟩
    | entered k => exact .inl (List.mem_of_getElem? hp)
  · rintro (hno | ⟨i, w, hw, hcb | ⟨f, -, hno⟩⟩)
    · obtain ⟨k, hk⟩ := List.mem_iff_getElem?.mp hno
      exact ⟨.entered k, hk⟩
    · exact ⟨.worker i, Option.bind_eq_some_iff.mpr ⟨w, hw, hcb⟩⟩
    · exact ⟨.fiber f, hno⟩

theorem Accounted.nodup (h : x.Accounted) : x.entered.Nodup := by
  refine List.nodup_iff_getElem?_ne_getElem?.mpr fun j k hjk hk heq => ?_
  have hsome : x.place (.entered k) = some x.entered[k] := List.getElem?_eq_getElem hk
  have hj : x.place (.entered j) = some x.entered[k] := heq.trans hsome
  exact absurd (Place.entered.inj (h.placed.once hj hsome)) (Nat.ne_of_lt hjk)

/-- An awaited callback has not been entered. -/
theorem Accounted.not_entered (h : x.Accounted) {i : Nat} {w : Worker Cb} (hw : x.pool.At i w)
    (hawaits : x.Awaits w no) : no ∉ x.entered := by
  intro hno
  obtain ⟨k, hk⟩ := List.mem_iff_getElem?.mp hno
  have hk : x.place (.entered k) = some no := hk
  rcases hawaits with hcb | ⟨f, -, hf⟩
  · have hworker : x.place (.worker i) = some no := Option.bind_eq_some_iff.mpr ⟨w, hw, hcb⟩
    exact absurd (h.placed.once hworker hk) (by simp)
  · have hfiber : x.place (.fiber f) = some no := hf
    exact absurd (h.placed.once hfiber hk) (by simp)

theorem callback_eq_some {w : Worker Cb} (h : w.callback = some no) :
    ∃ ft isActive tickleMe, w.phase = .scanned ft isActive tickleMe ∧ ft.fiber = none ∧
      ft.cb.isSome = true ∧ ft.no = no := by
  unfold Worker.callback at h
  split at h
  · split at h
    · rename_i hph hft
      obtain ⟨hf, hcb⟩ := Bool.and_eq_true_iff.mp hft
      exact ⟨_, _, _, hph, Option.isNone_iff_eq_none.mp hf, hcb, Option.some.inj h⟩
    · cases h
  · cases h

theorem next_ok {i : Nat} {w w' : Worker Cb} {sched : Scheduler Cb} (hw : x.pool.At i w)
    (h : w.next x.pool.sched = some (.ok (sched, w'))) : proceed step x (.worker i .next)
      = some (x.after (x.pool.setWorker i sched w') (w.event x.pool.sched .next)) := by
  rw [proceed_eq_some, step, Pool.step, Pool.event, hw.getElem?]
  simp only [Option.bind_some, Worker.step, h, Option.map_some, Except.map]
  rfl

theorem forgotten_next {i : Nat} {w : Worker Cb} (hw : x.pool.At i w) (h : w.fcs .next = []) :
    x.pool.Forgotten (.worker i .next) := by
  refine ⟨fun fc hfc => ?_, trivial⟩
  rw [Pool.fcs_worker hw, h] at hfc
  cases hfc

/-- The worker wakes others before it dispatches the callback. -/
theorem Accounted.tickles (h : x.Accounted) {i : Nat} {w : Worker Cb} (hw : x.pool.At i w)
    {ft : FiberAndThread Cb} {isActive : Bool} (hph : w.phase = .scanned ft isActive true) :
    ∃ x', proceed Callbacks.step x (.worker i .next) = some x' ∧ x'.Accounted ∧
      x'.pool.At i (w.goto (.scanned ft isActive false)) := by
  have hnext : w.next x.pool.sched = some (.ok (x.pool.sched.tickle,
      w.goto (.scanned ft isActive false))) := by rw [Worker.next, hph]
  have hstep := next_ok hw hnext
  refine ⟨_, hstep, h.step hstep (forgotten_next hw (by rw [Worker.fcs, hph]; rfl)), ?_⟩
  rw [after_pool]
  exact Pool.at_setWorker_self hw

/-- The worker gives the callback to the fiber that it keeps, or to a new one. -/
theorem Accounted.gives (h : x.Accounted) {i : Nat} {w : Worker Cb} (hw : x.pool.At i w)
    {ft : FiberAndThread Cb} {isActive : Bool} (hph : w.phase = .scanned ft isActive false)
    (hf : ft.fiber = none) (hcb : ft.cb.isSome = true) :
    ∃ x' w' f, proceed Callbacks.step x (.worker i .next) = some x' ∧ x'.pool.At i w' ∧
      w'.phase = .holding .cb f ∧ x'.loaded f = some ft.no := by
  have hev : w.event x.pool.sched .next
      = some (.give (w.cbFiber.getD x.pool.sched.fiberCount) ft.no) := by
    rw [Worker.event, hph]
    simp [hf, hcb]
  cases hc : w.cbFiber with
  | some f =>
      obtain ⟨hinit, -, -⟩ := h.pool.spare hw hc (by rw [hph, Phase.hand, hf]; rfl)
      have hreset : x.pool.sched.resetFiber f true = .ok (x.pool.sched.setFiber f
          { x.pool.sched.fiber f with cb := true, state := .init }) := by
        simp [Scheduler.resetFiber, h.pool.stack hw hc, hinit]
      have hnext : w.next x.pool.sched = some (.ok (x.pool.sched.setFiber f
          { x.pool.sched.fiber f with cb := true, state := .init },
          w.goto (.holding .cb f))) := by
        simp [Worker.next, hph, Worker.dispatch, hf, hcb, hc, hreset, Except.map]
      refine ⟨_, w.goto (.holding .cb f), f, next_ok hw hnext, ?_, rfl, ?_⟩
      · rw [after_pool]
        exact Pool.at_setWorker_self hw
      · rw [hev, hc]
        refine loaded_eq_some.mpr ⟨?_, Function.update_self ..⟩
        simp [after, Pool.setWorker, Scheduler.state]
  | none =>
      have hnext : w.next x.pool.sched = some (.ok (x.pool.sched.newFiber {},
          { w with phase   := .holding .cb x.pool.sched.fiberCount
                   cbFiber := some x.pool.sched.fiberCount })) := by
        simp [Worker.next, hph, Worker.dispatch, hf, hcb, hc]
      refine ⟨_, { w with phase   := .holding .cb x.pool.sched.fiberCount
                          cbFiber := some x.pool.sched.fiberCount },
        x.pool.sched.fiberCount, next_ok hw hnext, ?_, rfl, ?_⟩
      · rw [after_pool]
        exact Pool.at_setWorker_self hw
      · rw [hev, hc]
        refine loaded_eq_some.mpr ⟨?_, Function.update_self ..⟩
        simp [after, Pool.setWorker, Scheduler.state]

/-- The worker switches into the fiber, and the callback is entered. -/
theorem enters {i : Nat} {w : Worker Cb} (hw : x.pool.At i w) (hph : w.phase = .holding .cb f)
    (hloaded : x.loaded f = some no) :
    ∃ x', proceed Callbacks.step x (.worker i .next) = some x' ∧ no ∈ x'.entered := by
  obtain ⟨hinit, hgiven⟩ := loaded_eq_some.mp hloaded
  have hnext : w.next x.pool.sched = some (.ok (x.pool.sched.setState f .exec,
      w.goto (.inside .cb f []))) := by
    simp [Worker.next, hph, Worker.swapIn, hinit, FiberState.finished]
  have hev : w.event x.pool.sched .next = some (.enter f) := by
    rw [Worker.event, hph]
    simp [hinit]
  refine ⟨_, next_ok hw hnext, ?_⟩
  rw [hev]
  simp [after, hgiven]

/-- The worker that awaits a callback enters it, in three steps at most. -/
theorem Accounted.progress (h : x.Accounted) {i : Nat} {w : Worker Cb} (hw : x.pool.At i w)
    (hawaits : x.Awaits w no) : ∃ k < 3, ∃ x',
      run (proceed Callbacks.step) x (.replicate (k + 1) (.worker i .next)) = some x' ∧
      no ∈ x'.entered := by
  have hgives : ∀ {y : Callbacks Cb} {v : Worker Cb} {ft : FiberAndThread Cb} {isActive : Bool},
      y.Accounted → y.pool.At i v → v.phase = .scanned ft isActive false → ft.fiber = none →
      ft.cb.isSome = true → ∃ y',
        run (proceed Callbacks.step) y (.replicate 2 (.worker i .next)) = some y' ∧
          ft.no ∈ y'.entered := by
    intro y v ft isActive hy hv hph hf hcb
    obtain ⟨y₁, v₁, f, hy₁, hv₁, hph₁, hloaded⟩ := hy.gives hv hph hf hcb
    obtain ⟨y₂, hy₂, hno⟩ := enters hv₁ hph₁ hloaded
    exact ⟨y₂, by simp [run, List.replicate, hy₁, hy₂], hno⟩
  rcases hawaits with hcb | ⟨f, hph, hloaded⟩
  · obtain ⟨ft, isActive, tickleMe, hph, hf, hft, rfl⟩ := callback_eq_some hcb
    cases tickleMe with
    | true =>
        obtain ⟨x₁, hx₁, hacc, hw₁⟩ := h.tickles hw hph
        obtain ⟨x', hx', hno⟩ := hgives hacc hw₁ rfl hf hft
        refine ⟨2, by decide, x', ?_, hno⟩
        rw [List.replicate_succ, run, hx₁]
        exact hx'
    | false =>
        obtain ⟨x', hx', hno⟩ := hgives h hw hph hf hft
        exact ⟨1, by decide, x', hx', hno⟩
  · obtain ⟨x', hx', hno⟩ := enters hw hph hloaded
    exact ⟨0, by decide, x', by simp [run, hx'], hno⟩

/-- A callback that returns, one that yields, and one that throws. -/
def threeExits : List (PoolAct Unit) :=
  [.call 0 (.schedule (.cb (some ())) (-1)), .op 0, .worker 0 .next, .worker 0 .next,
    .worker 0 .next, .worker 0 (.finish true), .worker 0 .next, .worker 0 .next, .worker 0 .next,
    .call 0 (.schedule (.cb (some ())) (-1)), .op 0, .worker 0 .next, .worker 0 .next,
    .worker 0 .next, .worker 0 .yieldToHold, .worker 0 .next, .worker 0 .next,
    .call 0 (.schedule (.cb (some ())) (-1)), .op 0, .worker 0 .next, .worker 0 .next,
    .worker 0 .next, .worker 0 (.finish false), .worker 0 .next, .worker 0 .next,
    .worker 0 .next]

end Callbacks

end CoLib
