/-
# `CoLib.Scheduler.Take` — who takes which task

**Proved here.**  `tasks_taken_once`: in every run, every task pushed is queued or
has been taken, by one worker and one that its pin allows; a step appends to the
queue, or takes the first task that the worker may take and leaves the others in
order; and the iterator form of `schedule` does what the single form does for its
elements one by one.
-/
import CoLib.Scheduler.Steps

namespace CoLib

open Lib

variable {Cb : Type}

/-! ## One step -/

namespace Scheduler

/-- Thread `self` takes the first task that it may, and nothing is pushed. -/
def TakesFirst (self : Int) (s s' : Scheduler Cb) : Prop :=
  ∃ e l r, s.queue.fibers = l ++ e :: r ∧
    s'.queue = { s.queue with fibers := l ++ r, taken := s.queue.taken ++ [(self, e)] } ∧
    (∀ x ∈ l, x.eligible self s.state = false) ∧ e.eligible self s.state = true

end Scheduler

/-- A worker's step appends to the queue, or takes the first task that it may. -/
theorem Worker.Step.queue {s s' : Scheduler Cb} {w w' : Worker Cb} {a : WorkerAct Cb}
    (h : w.Step s a s' w') :
    (∃ new, s.queue.Appends s'.queue new) ∨ (w.phase = .scan ∧ s.TakesFirst w.id s') := by
  cases h with
  | scanTake tickleMe hph hq hl he hsome => exact .inr ⟨hph, _, _, _, hq, rfl, hl, he⟩
  | tickle => exact .inl ⟨[], (Scheduler.tickle_effect s).queue⟩
  | insideOp _ hexec | reschedulingOp _ hexec | handlingOp _ hexec =>
      obtain ⟨new, heff, -⟩ := Scheduler.exec_effect hexec
      exact .inl ⟨new, heff.queue⟩
  | call _ _ hcall =>
      obtain ⟨new, heff, -⟩ := Scheduler.call_effect hcall
      exact .inl ⟨new, heff.queue⟩
  | reschedule => exact .inl ⟨_, TaskQueue.appends_scheduleNoLock ..⟩
  | _ => exact .inl ⟨[], .refl _⟩

namespace Pool

variable {s s' : Pool Cb} {a : PoolAct Cb}

/-- A step appends to the queue, or some worker takes the first task that it may. -/
theorem Step.queue (h : s.Step a s') :
    (∃ new, s.sched.queue.Appends s'.sched.queue new) ∨
      ∃ i w, s.At i w ∧ w.phase = .scan ∧ s.sched.TakesFirst w.id s'.sched := by
  cases h with
  | worker hw hstep => exact hstep.queue.imp_right fun h => ⟨_, _, hw, h⟩
  | call _ hcall =>
      obtain ⟨new, heff, -⟩ := Scheduler.call_effect hcall
      exact .inl ⟨new, heff.queue⟩
  | op _ hexec =>
      obtain ⟨new, heff, -⟩ := Scheduler.exec_effect hexec
      exact .inl ⟨new, heff.queue⟩

end Pool

/-- Taking the first task keeps the history sound. -/
theorem TaskQueue.Sound.takesFirst {s s' : Scheduler Cb} {self : Int} (h : s.queue.Sound)
    (ht : s.TakesFirst self s') : s'.queue.Sound := by
  obtain ⟨e, l, r, hq, hq', -, he⟩ := ht
  rw [hq']
  exact h.erase hq he

/-! ## Whole runs -/

namespace Pool

theorem Step.sound {s s' : Pool Cb} {a : PoolAct Cb} (h : s.Step a s')
    (hs : s.sched.queue.Sound) : s'.sched.queue.Sound := by
  rcases h.queue with ⟨new, hnew⟩ | ⟨i, w, -, -, htake⟩
  · exact hs.appends hnew
  · exact hs.takesFirst htake

/-- The history of the queue is sound in every state reached. -/
theorem sound_of_reach {G : Pool Cb → PoolAct Cb → Prop} {ids : List Int} {now : Nat} {s : Pool Cb}
    (h : Reach (proceed step) G (init ids now) s) : s.sched.queue.Sound :=
  h.invariant (I := fun s => s.sched.queue.Sound) .empty
    fun _ _ _ hs _ hstep => (step_ok hstep).sound hs

/-- Every task is taken at most once and by a thread that it allows; a take removes
the first task allowed; the iterator form is the single form repeated. -/
theorem tasks_taken_once (ids : List Int) (now : Nat) (s : Pool Cb)
    (h : Reach (proceed step) (fun _ _ => True) (init ids now) s) :
    (s.sched.queue.taken.map fun t => t.2.no).Nodup ∧
    (∀ t ∈ s.sched.queue.taken, t.2 ∈ s.sched.queue.pushed ∧
      (t.2.thread = -1 ∨ t.2.thread = t.1)) ∧
    (∀ e ∈ s.sched.queue.pushed, e.isSome = true ∧
      (e ∈ s.sched.queue.fibers ∨ ∃ self, (self, e) ∈ s.sched.queue.taken)) ∧
    (∀ a s', proceed step s a = some s' →
      (∃ new, s.sched.queue.Appends s'.sched.queue new) ∨
        ∃ i w, s.At i w ∧ w.phase = .scan ∧ s.sched.TakesFirst w.id s'.sched) ∧
    ∀ fcs, s.sched.queue.scheduleRange false fcs =
      ((s.sched.queue.scheduleEach fcs).1, (s.sched.queue.scheduleEach fcs).2.any id,
        fcs.map FiberOrCb.emptied) := by
  have hs := sound_of_reach h
  refine ⟨hs.taken_nodup, fun t ht => ⟨?_, hs.allowed t ht⟩, fun e he => ⟨hs.some e he, ?_⟩,
    fun a s' hstep => (step_ok hstep).queue, fun fcs => ?_⟩
  · exact hs.conserved.subset (List.mem_append_left _ (List.mem_map_of_mem ht))
  · rcases List.mem_append.mp (hs.conserved.symm.subset he) with hmem | hmem
    · obtain ⟨⟨self, e'⟩, htaken, rfl⟩ := List.mem_map.mp hmem
      exact .inr ⟨self, htaken⟩
    · exact .inl hmem
  · rw [TaskQueue.scheduleRange_eq_each, Bool.or_false]

/-- Two workers; a task for the second of them stands before one for any. -/
def twoWorkers : List (PoolAct Unit) :=
  [.call 0 (.schedule (.cb (some ())) 11), .op 0, .call 0 (.schedule (.cb (some ())) (-1)),
    .worker 0 .next, .worker 1 .next]

/-- The first worker passes over the task that is not for it. -/
theorem tasks_taken_once_twoWorkers :
    ∃ s : Pool Unit, (s.sched.queue.taken.map fun t => (t.1, t.2.no)) = [(10, 1), (11, 0)] ∧
      (s.sched.queue.taken.map fun t => t.2.no).Nodup := by
  have hrun : ((run (guarded (proceed step) fun _ _ => True) (init [10, 11] 5) twoWorkers).map
      fun s : Pool Unit => s.sched.queue.taken.map fun t => (t.1, t.2.no))
        = some [(10, 1), (11, 0)] := by decide
  obtain ⟨s, hs, htaken⟩ := Option.map_eq_some_iff.mp hrun
  exact ⟨s, htaken, (tasks_taken_once [10, 11] 5 s (run_reach twoWorkers hs)).1⟩

end Pool

end CoLib
