/-
# `CoLib.Scheduler.Exclusive` — one worker to a fiber

The scan tests under the lock that a fiber is not in `EXEC`, and `EXEC` is set
after the lock is released.  A fiber that is queued twice can be taken by two
workers in between; a fiber that has set `TERM` can be taken while its worker has
not left it.

**Proved here.**  `switched_once`: in runs in which no worker takes a fiber that
another has in hand, no two workers are switched into one fiber, and the
assertion of `swapIn` never fails.  `switched_twice` is a run that does not meet
this.
-/
import CoLib.Scheduler.Hand

namespace CoLib

open Lib

variable {Cb : Type}

/-! ## One worker -/

/-- From the switch into the idle fiber to the end of its turn. -/
def Phase.idling : Phase Cb → Bool
  | .looking | .timed | .counted | .blocked | .handling _ | .idlePastEnd | .idleBack => true
  | _ => false

namespace Worker

/-- The worker is switched into the fiber. -/
def In (w : Worker Cb) (f : FiberPtr) : Prop :=
  ∃ b, w.phase.hand = some (.inside, b, f) ∨ w.phase.hand = some (.leaving, b, f)

variable {s s' : Scheduler Cb} {w w' : Worker Cb} {a : WorkerAct Cb} {f : FiberPtr}

theorem In.has (h : w.In f) : w.Has f := by
  obtain ⟨b, h | h⟩ := h <;> exact .of_hand h

/-- A fiber that a worker is about to switch into is not in `EXEC`. -/
theorem Move.ready (h : Move s w a s' w')
    (hold : ∀ b, w.phase.hand = some (.pending, b, f) → f < s.fiberCount ∧ s.state f ≠ .exec)
    {b : Branch} (hf : w'.phase.hand = some (.pending, b, f)) : s'.state f ≠ .exec := by
  cases h with
  | quiet hgrows hh _ =>
      obtain ⟨hlt, hst⟩ := hold b (hh ▸ hf)
      rw [Scheduler.state, hgrows.fiber f hlt]
      exact hst
  | take _ _ _ hfind _ hfiber _ hh _ =>
      obtain ⟨f', he, heq⟩ := Option.map_eq_some_iff.mp (hh.symm.trans hf)
      obtain rfl : f' = f := by simpa using (Prod.mk.inj (Prod.mk.inj heq).2).2
      have hel := List.find?_some hfind
      simp only [FiberAndThread.eligible, FiberAndThread.running, he, Bool.and_eq_true,
        Bool.not_eq_true', beq_eq_false_iff_ne] at hel
      rw [Scheduler.state, hfiber]
      exact hel.2
  | recycle _ _ _ hs hh _ =>
      cases hh.symm.trans hf
      simp [hs, Scheduler.state]
  | create _ _ hs hh _ =>
      cases hh.symm.trans hf
      simp [hs, Scheduler.state]
  | swapIn _ _ _ hph _ =>
      rw [hph] at hf
      split at hf <;> cases hf
  | yield _ _ _ hh _ | swapOut _ _ hh _ | reschedule _ _ _ hh _ | done _ _ _ hh _
  | keep _ _ _ hh _ | held _ _ _ hh _ => cases hh.symm.trans hf
  | finish ok _ _ _ hh _ => cases hh.symm.trans hf

/-- The idle fiber is in `EXEC` only while it is switched into. -/
theorem Step.idling (h : w.Step s a s' w') (hold : w.idle = .exec → w.phase.idling = true)
    (hidle : w'.idle = .exec) : w'.phase.idling = true := by
  have hno : w.phase.idling = false → w'.idle = w.idle → w'.phase.idling = true := by
    intro hph heq
    rw [hold (heq ▸ hidle)] at hph
    cases hph
  cases h with
  | idleIn =>
      dsimp only
      split <;> rfl
  | count => rw [goto]; split <;> rfl
  | look => rw [goto]; split <;> rfl
  | goOn | handlingOp | handled | wake | skip | stop | idleThrow => rfl
  | idleOut =>
      dsimp only at hidle
      split at hidle
      · rename_i hfin
        rw [hidle] at hfin
        cases hfin
      · cases hidle
  | reschedule hph _ | held hph _ _ => exact hno (by rw [hph]; rfl) (release_idle w _)
  | scanNone hph | scanTake _ hph | tickle hph | hold hph | recycle hph | create hph | drop hph
  | leave hph | swapIn hph | insideOp hph | swapOut hph | inactive hph | done hph | keep hph
  | reschedulingOp hph | rescheduled hph | call hph | yieldToHold hph | finish hph | throw hph =>
      exact hno (by rw [hph]; rfl) rfl

end Worker

/-! ## Whole runs -/

namespace Pool

variable {s s' : Pool Cb} {a : PoolAct Cb}

/-- No worker takes a fiber that another has in hand, or keeps for callbacks. -/
def TakesFree (s : Pool Cb) : PoolAct Cb → Prop
  | .worker i a => ∀ w ∈ s.workers[i]?, ∀ f ∈ w.taken s.sched a, ∀ j < s.workers.length,
      ∀ v ∈ s.workers[j]?, v.Has f → j = i
  | _ => True

instance (s : Pool Cb) : (a : PoolAct Cb) → Decidable (s.TakesFree a)
  | .worker i a => inferInstanceAs (Decidable (∀ w ∈ s.workers[i]?, ∀ f ∈ w.taken s.sched a,
      ∀ j < s.workers.length, ∀ v ∈ s.workers[j]?, v.Has f → j = i))
  | .call _ _ => .isTrue trivial
  | .op _ => .isTrue trivial

/-- At most one worker has a fiber, and one that it is about to switch into is not
in `EXEC`. -/
structure Exclusive (s : Pool Cb) : Prop where
  known : s.Known
  unique : ∀ {i j w v f}, s.At i w → s.At j v → w.Has f → v.Has f → i = j
  ready : ∀ {i w b f}, s.At i w → w.phase.hand = some (.pending, b, f) → s.sched.state f ≠ .exec
  idle : ∀ {i w}, s.At i w → w.idle = .exec → w.phase.idling = true

theorem exclusive_init (ids : List Int) (now : Nat) : (init ids now : Pool Cb).Exclusive where
  known  := known_init ids now
  unique := fun hw _ hf => absurd hf ((init_at hw).2.2 _)
  ready  := fun hw hf => absurd (.of_hand hf) ((init_at hw).2.2 _)
  idle   := fun hw hidle => by
    rw [(init_at hw).2.1] at hidle
    cases hidle

/-- What threads outside do keeps it. -/
theorem Exclusive.grows (h : s.Exclusive) {fcs : List (FiberOrCb Cb)}
    {new : List (FiberAndThread Cb)} (hg : s.sched.Grows s'.sched fcs new)
    (hw : s'.workers = s.workers) : s'.Exclusive := by
  have hat : ∀ {i w}, s'.At i w → s.At i w := fun h => by rwa [At, hw] at h
  exact
    { known  := h.known.grows hg hw
      unique := fun hw hv => h.unique (hat hw) (hat hv)
      ready  := fun hw hf => by
        rw [Scheduler.state, hg.fiber _ (h.known.has (hat hw) (.of_hand hf))]
        exact h.ready (hat hw) hf
      idle   := fun hw => h.idle (hat hw) }

/-- A worker's step keeps it. -/
theorem Exclusive.worker (h : s.Exclusive) {i : Nat} {w w' : Worker Cb} {a : WorkerAct Cb}
    {sched : Scheduler Cb} (hw : s.At i w) (hstep : w.Step s.sched a sched w')
    (hfree : s.TakesFree (.worker i a)) : (s.setWorker i sched w').Exclusive := by
  have hmove := hstep.move
  -- what the worker has afterwards, no other worker has
  have halone : ∀ {j v f}, j ≠ i → s.At j v → v.Has f → ¬ w'.Has f := by
    intro j v f hji hv hvf hf
    rcases hmove.has hf with hf | ⟨heq, -⟩ | hf
    · exact hji (h.unique hv hw hvf hf)
    · exact absurd (h.known.has hv hvf) (heq ▸ lt_irrefl _)
    · exact hji (hfree w hw f hf j (List.getElem?_eq_some_iff.mp hv).1 v hv hvf)
  refine ⟨h.known.worker hw hmove, ?_, ?_, ?_⟩
  · intro j k v u f hv hu hvf huf
    rcases at_setWorker hw hv with ⟨hj, hv'⟩ | ⟨hji, hv'⟩
    · rcases at_setWorker hw hu with ⟨hk, -⟩ | ⟨hki, hu'⟩
      · exact hj.trans hk.symm
      · exact absurd (hv' ▸ hvf) (halone hki hu' huf)
    · rcases at_setWorker hw hu with ⟨-, hu'⟩ | ⟨-, hu'⟩
      · exact absurd (hu' ▸ huf) (halone hji hv' hvf)
      · exact h.unique hv' hu' hvf huf
  · intro j v b f hv hf
    show sched.state f ≠ .exec
    rcases at_setWorker hw hv with ⟨-, rfl⟩ | ⟨hji, hv⟩
    · exact hmove.ready (fun b hb => ⟨h.known.has hw (.of_hand hb), h.ready hw hb⟩) hf
    · have hvf : v.Has f := .of_hand hf
      have hno : ¬ w.Has f := fun hwf => hji (h.unique hv hw hvf hwf)
      rw [Scheduler.state, hmove.fiber (h.known.has hv hvf) hno]
      exact h.ready hv hf
  · intro j v hv hidle
    rcases at_setWorker hw hv with ⟨-, rfl⟩ | ⟨-, hv⟩
    · exact hstep.idling (h.idle hw) hidle
    · exact h.idle hv hidle

theorem Exclusive.step (h : s.Exclusive) (hstep : s.Step a s') (hfree : s.TakesFree a) :
    s'.Exclusive := by
  cases hstep with
  | worker hw hstep => exact h.worker hw hstep hfree
  | call _ hcall =>
      obtain ⟨new, heff, -⟩ := Scheduler.call_effect hcall
      exact h.grows heff.toGrows rfl
  | op _ hexec =>
      obtain ⟨new, heff, -⟩ := Scheduler.exec_effect hexec
      exact h.grows heff.toGrows rfl

/-- While workers take only fibers that no other has, no two are switched into one
fiber, and `swapIn` never finds `EXEC`. -/
theorem switched_once (ids : List Int) (now : Nat) (s : Pool Cb)
    (h : Reach (proceed step) TakesFree (init ids now) s) :
    (∀ i j w v f, s.At i w → s.At j v → w.In f → v.In f → i = j) ∧
      ∀ a, s.step a ≠ some (.error .notExec) := by
  have hs : s.Exclusive := h.invariant (exclusive_init ids now)
    fun s a s' hs hfree hstep => hs.step (step_ok hstep) hfree
  refine ⟨fun i j w v f hw hv hf hf' => hs.unique hw hv hf.has hf'.has, fun a ha => ?_⟩
  obtain ⟨i, w, hw, hfail⟩ := step_error ha
  cases hfail with
  | @swapIn b f hph hexec =>
      have hhand : w.phase.hand = some (.pending, b, f) := by rw [hph]; rfl
      exact hs.ready hw hhand hexec
  | idleIn hph hexec =>
      have hidle := hs.idle hw hexec
      rw [hph] at hidle
      cases hidle

/-- A fiber that is taken by one worker, yields, and is taken by another. -/
def oneAtATime : List (PoolAct Unit) :=
  [.call 0 (.newFiber true), .call 0 (.schedule (.fiber (some 0)) (-1)), .op 0,
    .worker 0 .next, .worker 0 .next, .worker 0 .next, .worker 0 .yieldToHold, .worker 0 .next,
    .worker 0 .next, .call 0 (.schedule (.fiber (some 0)) (-1)), .worker 1 .next, .worker 1 .next,
    .worker 1 .next]

/-- The second worker is inside the fiber. -/
theorem switched_once_oneAtATime : ∃ s : Pool Unit,
    (s.workers.map Worker.phase) = [.scan, .inside .fiber 0 []] ∧
      ∀ a, s.step a ≠ some (.error .notExec) := by
  have hrun : ((run (guarded (proceed step) TakesFree) (init [10, 11] 5) oneAtATime).map
      fun s : Pool Unit => s.workers.map Worker.phase)
        = some [.scan, .inside .fiber 0 []] := by decide
  obtain ⟨s, hs, hphases⟩ := Option.map_eq_some_iff.mp hrun
  exact ⟨s, hphases, (switched_once [10, 11] 5 s (run_reach oneAtATime hs)).2⟩

/-- A fiber that is scheduled twice, and taken by both workers. -/
def takenTwice : List (PoolAct Unit) :=
  [.call 0 (.newFiber true), .call 0 (.schedule (.fiber (some 0)) (-1)), .op 0,
    .call 0 (.schedule (.fiber (some 0)) (-1)), .worker 0 .next, .worker 1 .next,
    .worker 0 .next, .worker 1 .next, .worker 0 .next]

/-- The second `swapIn` finds the fiber in `EXEC`. -/
theorem switched_twice : ∃ s : Pool Unit,
    Reach (proceed step) (fun _ _ => True) (init [10, 11] 5) s ∧
      s.step (.worker 1 .next) = some (.error .notExec) := by
  have hrun : ((run (guarded (proceed step) fun _ _ => True) (init [10, 11] 5) takenTwice).bind
      fun s : Pool Unit => failure step s (.worker 1 .next)) = some .notExec := by decide
  obtain ⟨s, hs, hfail⟩ := Option.bind_eq_some_iff.mp hrun
  exact ⟨s, run_reach takenTwice hs, failure_eq_some.mp hfail⟩

end Pool

end CoLib
