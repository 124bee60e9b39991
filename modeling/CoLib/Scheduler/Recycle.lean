/-
# `CoLib.Scheduler.Recycle` — the fiber that `run` keeps for callbacks

A worker makes a fiber for its first callback and keeps it.  When the callback
returns or throws, the fiber is reset in place and used for the next one; when it
yields, its stack is live, and the worker lets go of the fiber.

A fiber that a worker keeps is live (`LiveAt`) as long as no task refers to it once
its callback has finished.  There is one exception.  A pointer that an earlier
callback has left behind lets another worker run the fiber before the one that keeps
it does; if the callback finishes there, the worker that keeps the fiber is lost
(`Lost`): it will switch in behind the end, and fail.
-/
import CoLib.Scheduler.Finished

namespace CoLib

open Lib

variable {Cb : Type}

/-! ## A worker -/

namespace Worker

variable {s s' : Scheduler Cb} {w w' : Worker Cb} {a : WorkerAct Cb} {f : FiberPtr} {b : Branch}

/-- A worker behind the end of a fiber makes no step. -/
theorem Step.not_pastEnd (h : w.Step s a s' w') : w.phase ≠ .pastEnd b f := by
  intro hph
  cases h with
  | idleThrow hidle => simp [inIdle, hph] at hidle
  | _ => simp_all

/-- A worker that is about to switch in does so. -/
theorem Step.of_holding (h : w.Step s a s' w') (hph : w.phase = .holding b f) :
    a = .next ∧ s.state f ≠ .exec ∧ s' = s.setState f .exec ∧
      w' = w.goto (if (s.state f).finished then .pastEnd b f else .inside b f []) := by
  cases h with
  | swapIn hph' hexec =>
      obtain ⟨rfl, rfl⟩ := Phase.holding.inj (hph'.symm.trans hph)
      exact ⟨rfl, hexec, rfl, rfl⟩
  | idleThrow hidle => simp [inIdle, hph] at hidle
  | _ => simp_all

/-- Where the assertions of `reset` can fail. -/
theorem reset_error {x : Assertion} (h : w.step s a = some (.error x))
    (hx : x = .stack ∨ x = .resettable) :
    (∃ f, w.phase.hand = none ∧ w.cbFiber = some f ∧
      ((s.fiber f).stack = false ∨ s.state f ≠ .init)) ∨
    ∃ f, w.phase = .settling .cb f ∧ (s.fiber f).stack = false := by
  have hresets : ∃ f, w.Resets f := by
    rcases hx with rfl | rfl
    · cases step_error h with
      | stack hw => exact ⟨_, hw⟩
    · cases step_error h with
      | resettable hw => exact ⟨_, hw⟩
  obtain ⟨f, ⟨ft, isActive, hph, hc⟩ | ⟨b, hph⟩⟩ := hresets
  · have h : w.dispatch s ft isActive = .error x := by
      cases a with
      | next => simpa [step, next, hph] using h
      | _ => simp [step, inIdle, hph] at h
    have hfilter : ft.fiber.filter (guard s) = ft.fiber := by
      cases ft.fiber <;> simp [guard_eq_true]
    refine .inl ⟨f, ?_, hc, ?_⟩
    · rw [hph, Phase.hand, Option.map_eq_none_iff]
      cases hf : ft.fiber with
      | none => rfl
      | some f' =>
          rw [dispatch, hfilter, hf] at h
          cases h
    · by_contra hno
      obtain ⟨hstack, hinit⟩ := not_or.mp hno
      simp only [Bool.not_eq_false, ne_eq, not_not] at hstack hinit
      rw [dispatch, hc] at h
      split at h
      · cases h
      · split at h
        · have herr := map_error h
          simp [Scheduler.resetFiber, hstack, hinit] at herr
        · split at h
          · cases h
          · split at h
            · cases h
            · split at h
              · cases h
                rcases hx with hx | hx <;> cases hx
              · cases h
  · have h : w.settle s b f = .error x := by
      cases a with
      | next => simpa [step, next, hph] using h
      | _ => simp [step, inIdle, hph] at h
    unfold settle at h
    split at h
    · cases h
    · split at h
      · rename_i hfin
        cases b with
        | fiber => cases h
        | cb =>
            refine .inr ⟨f, hph, ?_⟩
            by_contra hstack
            have herr := map_error h
            rcases hst : s.state f with _ | _ | _ | _ | _ | _ <;>
              simp_all [Scheduler.resetFiber, FiberState.finished]
      · cases h

theorem keeps_of_hand_none (h : w.phase.hand = none) : w.Keeps := by
  intro r f hh
  rw [h] at hh
  cases hh

/-- A step keeps the fiber in hand, if it is for a callback. -/
theorem Move.keeps (h : Move s w a s' w') (hw : w.Keeps) : w'.Keeps := by
  have hmoved : ∀ {r r' b f}, w.phase.hand = some (r, b, f) → w'.phase.hand = some (r', b, f) →
      w'.cbFiber = w.cbFiber → w'.Keeps := by
    intro r r' b f hh hh' hc r₁ f₁ hh₁
    rw [hh'] at hh₁
    cases hh₁
    exact hc.trans (hw _ _ hh)
  cases h with
  | quiet _ hh hc =>
      intro r f hh'
      exact hc.trans (hw r f (hh.symm.trans hh'))
  | take _ _ _ _ _ _ _ hh _ =>
      intro r f hh'
      obtain ⟨f', -, heq⟩ := Option.map_eq_some_iff.mp (hh.symm.trans hh')
      cases heq
  | recycle _ _ _ _ hh hc | create _ _ _ hh hc =>
      intro r f hh'
      rw [hh] at hh'
      cases hh'
      exact hc
  | @swapIn b f hh _ _ hph hc =>
      have hh' : ∃ r, w'.phase.hand = some (r, b, f) := by
        rw [hph]
        split <;> exact ⟨_, rfl⟩
      obtain ⟨r, hh'⟩ := hh'
      exact hmoved hh hh' hc
  | yield hh _ _ hh' hc | swapOut hh _ hh' hc => exact hmoved hh hh' hc
  | finish ok _ hh _ hh' hc => exact hmoved hh hh' hc
  | reschedule _ _ _ hh _ | done _ _ _ hh _ | keep _ _ _ hh _ | held _ _ _ hh _ =>
      exact keeps_of_hand_none hh

/-- What a worker keeps after a step it kept before, or it has just made it. -/
theorem Move.kept (h : Move s w a s' w') (hc : w'.cbFiber = some f) :
    w.cbFiber = some f ∨ (w.phase.hand = none ∧ w.cbFiber = none ∧ f = s.fiberCount ∧
      s' = s.newFiber {} ∧ w'.phase.hand = some (.pending, .cb, f)) := by
  cases h with
  | create hnone hno hs hh hc' =>
      obtain rfl := Option.some.inj (hc'.symm.trans hc)
      exact .inr ⟨hnone, hno, rfl, hs, hh⟩
  | recycle _ hc₀ _ _ _ hc' => exact .inl (hc₀.trans (hc'.symm.trans hc))
  | reschedule _ _ _ _ hc' | held _ _ _ _ hc' => exact .inl (release_cbFiber (hc'.symm.trans hc))
  | quiet _ _ hc' | take _ _ _ _ _ _ _ _ hc' | swapIn _ _ _ _ hc' | yield _ _ _ _ hc'
  | finish _ _ _ _ _ hc' | swapOut _ _ _ hc' | done _ _ _ _ hc' | keep _ _ _ _ hc' =>
      exact .inl (hc'.symm.trans hc)

/-- In `.cb`, what is pending is held. -/
theorem holding_of_hand (h : w.phase.hand = some (.pending, .cb, f)) :
    w.phase = .holding .cb f := by
  cases hph : w.phase with
  | scanned ft isActive tickleMe =>
      rw [hph, Phase.hand] at h
      obtain ⟨f', -, heq⟩ := Option.map_eq_some_iff.mp h
      cases heq
  | holding b f' =>
      rw [hph] at h
      cases h
      rfl
  | _ =>
      rw [hph] at h
      cases h

end Worker

/-! ## All threads -/

namespace Pool

variable {s s' : Pool Cb} {a : PoolAct Cb} {f : FiberPtr} {i : Nat} {w w' : Worker Cb}

/-- A worker keeps the fiber, and its callback has finished. -/
def FinishedCb (s : Pool Cb) (f : FiberPtr) : Prop :=
  ∃ w ∈ s.workers, w.cbFiber = some f ∧ ((s.sched.state f).finished = true ∨ w.role f = none)

instance (s : Pool Cb) (f : FiberPtr) : Decidable (s.FinishedCb f) :=
  inferInstanceAs (Decidable (∃ w ∈ s.workers, _))

/-- No task, in the queue or taken from it and not yet switched into, refers to the
fiber. -/
def Unreferred (s : Pool Cb) (f : FiberPtr) : Prop :=
  ¬ s.Queued f ∧ ∀ w ∈ s.workers, w.phase.hand ≠ some (.pending, .fiber, f)

instance (s : Pool Cb) (f : FiberPtr) : Decidable (s.Unreferred f) :=
  inferInstanceAs (Decidable (_ ∧ _))

/-- No task refers to a callback fiber that has finished: none is scheduled for it, and
when the callback on a fiber that a worker keeps finishes, there is none. -/
def Forgotten (s : Pool Cb) (a : PoolAct Cb) : Prop :=
  (∀ fc ∈ s.fcs a, ∀ f ∈ fc.ptr, ¬ s.FinishedCb f) ∧
  match a with
  | .worker i (.finish _) => ∀ w ∈ s.workers[i]?, ∀ h ∈ w.phase.hand,
      (∃ v ∈ s.workers, v.cbFiber = some h.2.2) → s.Unreferred h.2.2
  | _ => True

instance (s : Pool Cb) : (a : PoolAct Cb) → Decidable (s.Forgotten a)
  | .worker i (.finish ok) => inferInstanceAs (Decidable ((∀ fc ∈ s.fcs (.worker i (.finish ok)),
      ∀ f ∈ fc.ptr, ¬ s.FinishedCb f) ∧ ∀ w ∈ s.workers[i]?, ∀ h ∈ w.phase.hand,
        (∃ v ∈ s.workers, v.cbFiber = some h.2.2) → s.Unreferred h.2.2))
  | .worker _ .idleThrow | .worker _ .next | .worker _ (.look _) | .worker _ (.wake _ _ _)
  | .worker _ .skip | .worker _ (.call _) | .worker _ .yieldToHold | .call _ _ | .op _ =>
      inferInstanceAs (Decidable (_ ∧ True))

/-- The worker keeps the fiber and is about to switch into it, but it has finished and no
task refers to it; or the worker has switched in behind the end. -/
structure LostTo (s : Pool Cb) (f : FiberPtr) (i : Nat) (w : Worker Cb) : Prop where
  worker : s.At i w
  keeps : w.cbFiber = some f
  keeper : ∀ {j v}, s.At j v → v.cbFiber = some f → j = i
  init : s.sched.state f ≠ .init
  gone : w.phase = .pastEnd .cb f ∨
    (w.phase = .holding .cb f ∧ (s.sched.state f).finished = true ∧ s.Unreferred f)

def Lost (s : Pool Cb) (f : FiberPtr) : Prop :=
  ∃ i w, s.LostTo f i w

/-- Every fiber that a worker keeps is live, or the worker is lost. -/
structure Recycling (s : Pool Cb) : Prop where
  known : s.Known
  keeps : ∀ {i w}, s.At i w → w.Keeps
  stack : ∀ {i w f}, s.At i w → w.cbFiber = some f → (s.sched.fiber f).stack = true
  live : ∀ {i w f}, s.At i w → w.cbFiber = some f → s.LiveAt f ∨ s.Lost f

theorem recycling_init (ids : List Int) (now : Nat) : (init ids now : Pool Cb).Recycling where
  known := known_init ids now
  keeps := fun hw => Worker.keeps_of_hand_none (by rw [(init_at hw).1]; rfl)
  stack := fun hw hc => absurd (.inr hc) ((init_at hw).2.2 _)
  live  := fun hw hc => absurd (.inr hc) ((init_at hw).2.2 _)

/-- What is scheduled for a fiber that a worker keeps. -/
theorem Forgotten.scheduled (h : s.Forgotten a) (hw : s.At i w) (hc : w.cbFiber = some f)
    {fc : FiberOrCb Cb} (hfc : fc ∈ s.fcs a) (hf : f ∈ fc.ptr) :
    (s.sched.state f).finished = false ∧ ¬ s.Spare f := by
  have hno := h.1 fc hfc f hf
  refine ⟨?_, fun ⟨j, v, hv, hk, hr⟩ => hno ⟨v, List.mem_of_getElem? hv, hk, .inr hr⟩⟩
  by_contra hfin
  exact hno ⟨w, List.mem_of_getElem? hw, hc, .inl (by simpa using hfin)⟩

/-- The callback on a fiber that a worker keeps finishes. -/
theorem Forgotten.finish {ok : Bool} (h : s.Forgotten (.worker i (.finish ok))) (hw : s.At i w)
    {r : Role} {b : Branch} (hh : w.phase.hand = some (r, b, f)) {j : Nat} {v : Worker Cb}
    (hv : s.At j v) (hc : v.cbFiber = some f) : s.Unreferred f :=
  h.2 w hw (r, b, f) hh ⟨v, List.mem_of_getElem? hv, hc⟩

/-- A step is careful with a fiber that a worker keeps; or it finishes the callback there,
and the worker that keeps the fiber has not yet switched in. -/
theorem Forgotten.carefulAt (h : s.Forgotten a) (hl : s.LiveAt f) (hw : s.At i w)
    (hc : w.cbFiber = some f) : s.CarefulAt f a ∨
      ∃ j v ok, a = .worker j (.finish ok) ∧ s.At j v ∧ v.role f ≠ none ∧
        w.phase = .holding .cb f ∧ s.Unreferred f := by
  by_cases hlost : ∃ j v ok, a = .worker j (.finish ok) ∧ s.At j v ∧ v.role f ≠ none ∧
      w.phase = .holding .cb f ∧ s.Unreferred f
  · exact .inr hlost
  · refine .inl ⟨fun fc hfc hf => h.scheduled hw hc hfc hf, fun j ok v ha hv hr => ?_⟩
    have hun : s.Unreferred f := by
      subst ha
      obtain ⟨⟨r, b⟩, hrole⟩ := Option.ne_none_iff_exists'.mp hr
      exact h.finish hv (Worker.role_eq_some.mp hrole) hw hc
    refine ⟨hun.1, fun k u b hu hr' => ?_⟩
    cases b with
    | fiber => exact hun.2 u (List.mem_of_getElem? hu) (Worker.role_eq_some.mp hr')
    | cb =>
        obtain rfl : k = i := hl.keeper hu hw ((hl.role hu hr').2.mp rfl) hc
        obtain rfl := hw.unique hu
        have hph := Worker.holding_of_hand (Worker.role_eq_some.mp hr')
        exact hlost ⟨j, v, ok, ha, hv, hr, hph, hun⟩

/-! ### Lost workers -/

/-- No new task refers to the fiber, and workers are as they were. -/
theorem LostTo.quiet (h : s.LostTo f i w) (hknown : s.Known) {fcs : List (FiberOrCb Cb)}
    {new : List (FiberAndThread Cb)} (hg : s.sched.Grows s'.sched fcs new)
    (hfcs : ∀ fc ∈ fcs, f ∈ fc.ptr → (s.sched.state f).finished = false)
    (hat : ∀ {j v'}, s'.At j v' → ∃ v, s.At j v ∧ v'.phase.hand = v.phase.hand ∧
      v'.cbFiber = v.cbFiber) (hw : s'.At i w) : s'.LostTo f i w := by
  have hfiber := hg.fiber f (hknown.has h.worker (.inr h.keeps))
  have hstate : s'.sched.state f = s.sched.state f := congrArg Fiber.state hfiber
  refine ⟨hw, h.keeps, fun {j v'} hv' hc => ?_, hstate ▸ h.init, h.gone.imp_right ?_⟩
  · obtain ⟨v, hv, -, hk⟩ := hat hv'
    exact h.keeper hv (hk.symm.trans hc)
  · rintro ⟨hph, hfin, hnq, hnp⟩
    refine ⟨hph, hstate ▸ hfin, fun ⟨e, he, hf⟩ => ?_, fun v' hv' hh' => ?_⟩
    · rcases hg.scheduled he hf with hold | ⟨fc, hfc, hptr⟩
      · exact hnq hold
      · rw [hfcs fc hfc hptr] at hfin
        cases hfin
    · obtain ⟨j, hj⟩ := List.mem_iff_getElem?.mp hv'
      obtain ⟨v, hv, hh, -⟩ := hat hj
      exact hnp v (List.mem_of_getElem? hv) (hh.symm.trans hh')

/-- The lost worker switches in. -/
theorem LostTo.self (h : s.LostTo f i w) {sched : Scheduler Cb} {wa : WorkerAct Cb}
    (hstep : w.Step s.sched wa sched w') : (s.setWorker i sched w').LostTo f i w' := by
  rcases h.gone with hph | ⟨hph, hfin, -⟩
  · exact absurd hph hstep.not_pastEnd
  · obtain ⟨-, -, rfl, rfl⟩ := hstep.of_holding hph
    refine ⟨at_setWorker_self h.worker, h.keeps, fun {j v} hv hc => ?_, ?_, .inl ?_⟩
    · rcases at_setWorker h.worker hv with ⟨hj, -⟩ | ⟨-, hv⟩
      · exact hj
      · exact h.keeper hv hc
    · show (s.sched.setState f .exec).state f ≠ .init
      simp [Scheduler.setState, Scheduler.state]
    · rw [hfin]
      rfl

/-- Another worker makes a step. -/
theorem LostTo.other (h : s.LostTo f i w) (hknown : s.Known) {j : Nat} (hji : j ≠ i)
    {v v' : Worker Cb} (hv : s.At j v) (hkeeps : v.Keeps) {sched : Scheduler Cb}
    {wa : WorkerAct Cb} (hmove : Worker.Move s.sched v wa sched v')
    (hfcs : ∀ fc ∈ v.fcs wa, f ∈ fc.ptr → (s.sched.state f).finished = false) :
    (s.setWorker j sched v').LostTo f i w := by
  have hlt : f < s.sched.fiberCount := hknown.has h.worker (.inr h.keeps)
  have hne : v.cbFiber ≠ some f := fun hc => hji (h.keeper hv hc)
  have hw' : (s.setWorker j sched v').At i w := at_setWorker_ne (Ne.symm hji) h.worker
  -- what remains to be shown, where the step does not just append to the queue
  have hlost : sched.state f ≠ .init →
      ((s.sched.state f).finished = true → s.Unreferred f → (sched.state f).finished = true ∧
        (¬ ∃ e ∈ sched.queue.fibers, e.fiber = some f) ∧
        v'.phase.hand ≠ some (.pending, .fiber, f)) →
      (s.setWorker j sched v').LostTo f i w := by
    intro hinit hgone
    refine ⟨hw', h.keeps, fun {k u} hu hc => ?_, hinit, h.gone.imp_right ?_⟩
    · rcases at_setWorker hv hu with ⟨-, rfl⟩ | ⟨-, hu⟩
      · rcases hmove.kept hc with hc | ⟨-, -, rfl, -, -⟩
        · exact absurd hc hne
        · exact absurd hlt (lt_irrefl _)
      · exact h.keeper hu hc
    · rintro ⟨hph, hfin, hun⟩
      obtain ⟨hfin', hnq, hnp⟩ := hgone hfin hun
      refine ⟨hph, hfin', hnq, fun u hu => ?_⟩
      obtain ⟨k, hk⟩ := List.mem_iff_getElem?.mp hu
      rcases at_setWorker hv hk with ⟨-, rfl⟩ | ⟨-, hk⟩
      · exact hnp
      · exact hun.2 u (List.mem_of_getElem? hk)
  -- a step that leaves the fiber and the queue alone
  have hsame : sched.fiber f = s.sched.fiber f → sched.queue = s.sched.queue →
      v'.phase.hand ≠ some (.pending, .fiber, f) → (s.setWorker j sched v').LostTo f i w := by
    intro hfiber hq hnp
    have hstate : sched.state f = s.sched.state f := congrArg Fiber.state hfiber
    exact hlost (hstate ▸ h.init) fun hfin hun => ⟨hstate ▸ hfin, hq ▸ hun.1, hnp⟩
  have hset : ∀ {f₀ x}, f ≠ f₀ → (s.sched.setFiber f₀ x).fiber f = s.sched.fiber f :=
    fun hf => Scheduler.setFiber_of_ne _ hf _
  cases hmove with
  | quiet hgrows hh hc =>
      refine h.quiet hknown hgrows hfcs (fun {k u} hu => ?_) hw'
      rcases at_setWorker hv hu with ⟨rfl, rfl⟩ | ⟨-, hu⟩
      · exact ⟨v, hv, hh, hc⟩
      · exact ⟨u, hu, rfl, rfl⟩
  | @take e _ _ _ hfind hsub hfiber _ hh _ =>
      have hstate : sched.state f = s.sched.state f := by rw [Scheduler.state, hfiber]; rfl
      refine hlost (hstate ▸ h.init) fun hfin hun => ⟨hstate ▸ hfin, ?_, fun hh' => ?_⟩
      · rintro ⟨x, hx, hf⟩
        exact hun.1 ⟨x, hsub x hx, hf⟩
      · obtain ⟨f', hf', heq⟩ := Option.map_eq_some_iff.mp (hh.symm.trans hh')
        cases heq
        exact hun.1 ⟨e, List.mem_of_find?_eq_some hfind, hf'⟩
  | @recycle f₀ _ hc _ hs hh _ =>
      have hf : f ≠ f₀ := by
        rintro rfl
        exact hne hc
      subst hs
      exact hsame (hset hf) rfl (by rw [hh]; simp)
  | create _ _ hs hh _ =>
      subst hs
      exact hsame (Scheduler.newFiber_of_ne _ (Nat.ne_of_lt hlt) _) rfl (by rw [hh]; simp)
  | @swapIn b f₀ hh _ hs hph _ =>
      have hnp : v'.phase.hand ≠ some (.pending, .fiber, f) := by
        rw [hph]
        split <;> simp [Phase.hand]
      subst hs
      by_cases hf : f = f₀
      · subst hf
        refine hlost (by simp [Scheduler.setState, Scheduler.state]) fun _ hun => ?_
        cases b with
        | fiber => exact absurd hh (hun.2 v (List.mem_of_getElem? hv))
        | cb => exact absurd (hkeeps _ _ hh) hne
      · exact hsame (hset hf) rfl hnp
  | yield _ _ hs hh _ | swapOut _ hs hh _ | done _ _ hs hh _ =>
      subst hs
      exact hsame rfl rfl (by rw [hh]; simp)
  | @finish b f₀ ok _ _ hs hh _ =>
      subst hs
      by_cases hf : f = f₀
      · subst hf
        refine hlost ?_ fun _ hun => ⟨?_, hun.1, by rw [hh]; simp⟩
        · cases ok <;> simp [Scheduler.state]
        · cases ok <;> simp [Scheduler.state, FiberState.finished]
      · exact hsame (hset hf) rfl (by rw [hh]; simp)
  | @reschedule b f₀ _ hready hs hh _ =>
      subst hs
      refine hlost h.init fun hfin hun => ⟨hfin, ?_, by rw [hh]; simp⟩
      have hf : f ≠ f₀ := by
        rintro rfl
        rw [hready] at hfin
        cases hfin
      rintro ⟨e, he, hef⟩
      have hq := (TaskQueue.appends_scheduleNoLock s.sched.queue (.fiber (some f₀)) (-1)).fibers
      rcases List.mem_append.mp (hq ▸ he) with he | he
      · exact hun.1 ⟨e, he, hef⟩
      · rw [List.mem_singleton.mp he] at hef
        exact hf (Option.some.inj hef).symm
  | @keep f₀ hh _ hs hh' _ =>
      have hf : f ≠ f₀ := by
        rintro rfl
        exact hne (hkeeps _ _ hh)
      subst hs
      exact hsame (hset hf) rfl (by rw [hh']; simp)
  | @held b f₀ _ hno hs hh _ =>
      subst hs
      by_cases hf : f = f₀
      · subst hf
        refine hlost (by simp [Scheduler.setState, Scheduler.state]) fun hfin _ => ?_
        rw [hno] at hfin
        cases hfin
      · exact hsame (hset hf) rfl (by rw [hh]; simp)

/-- A callback finishes on another worker than the one that keeps its fiber, and the latter
has not yet switched in. -/
theorem LiveAt.lost (h : s.LiveAt f) (hw : s.At i w) (hph : w.phase = .holding .cb f)
    (hc : w.cbFiber = some f) (hun : s.Unreferred f) {j : Nat} {v v' : Worker Cb} {ok : Bool}
    {sched : Scheduler Cb} (hv : s.At j v) (hr : v.role f ≠ none)
    (hstep : v.Step s.sched (.finish ok) sched v') : (s.setWorker j sched v').LostTo f i w := by
  have hfin : (sched.state f).finished = true ∧ sched.queue = s.sched.queue ∧
      (∃ b, v'.phase = .leaving b f) ∧ v'.cbFiber = v.cbFiber ∧ ∃ b, v.phase = .inside b f [] := by
    cases hstep with
    | @finish b f' hph' | @throw b f' hph' =>
        have hf : f = f' := by
          by_contra hf
          exact hr (Worker.role_other (by rw [hph']; rfl) hf)
        subst hf
        exact ⟨by simp [Scheduler.setState, Scheduler.state, FiberState.finished], rfl, ⟨b, rfl⟩,
          rfl, b, hph'⟩
  obtain ⟨hfin, hq, ⟨b, hph'⟩, hc', b', hin⟩ := hfin
  have hji : j ≠ i := by
    rintro rfl
    obtain rfl := hw.unique hv
    rw [hph] at hin
    cases hin
  refine ⟨at_setWorker_ne (Ne.symm hji) hw, hc, fun {k u} hu hk => ?_, fun hinit => ?_,
    .inr ⟨hph, hfin, ?_, fun u hu => ?_⟩⟩
  · rcases at_setWorker hv hu with ⟨-, rfl⟩ | ⟨-, hu⟩
    · exact absurd (h.keeper hv hw (hc'.symm.trans hk) hc) hji
    · exact h.keeper hu hw hk hc
  · have hinit : sched.state f = .init := hinit
    rw [hinit] at hfin
    cases hfin
  · rintro ⟨e, he, hf⟩
    exact hun.1 ⟨e, hq ▸ he, hf⟩
  · obtain ⟨k, hk⟩ := List.mem_iff_getElem?.mp hu
    rcases at_setWorker hv hk with ⟨-, rfl⟩ | ⟨-, hk⟩
    · rw [hph']
      simp [Phase.hand]
    · exact hun.2 u (List.mem_of_getElem? hk)

/-! ### Whole runs -/

/-- One worker at most keeps a fiber. -/
theorem Recycling.keeper (h : s.Recycling) (hw : s.At i w) (hc : w.cbFiber = some f) {j : Nat}
    {v : Worker Cb} (hv : s.At j v) (hk : v.cbFiber = some f) : j = i := by
  rcases h.live hw hc with hlive | ⟨k, u, hlost⟩
  · exact hlive.keeper hv hw hk hc
  · exact (hlost.keeper hv hk).trans (hlost.keeper hw hc).symm

/-- A fiber that a worker keeps is not in `INIT` while some worker is past the switch into
it. -/
theorem Recycling.not_init (h : s.Recycling) (hw : s.At i w) (hc : w.cbFiber = some f) {j : Nat}
    {v : Worker Cb} (hv : s.At j v) {r : Role} {b : Branch} (hh : v.phase.hand = some (r, b, f))
    (hr : r ≠ .pending) : s.sched.state f ≠ .init := by
  intro hinit
  rcases h.live hw hc with hlive | ⟨k, u, hlost⟩
  · have hinit : (s.sched.fiber f).state = .init := hinit
    have hok := ((hlive.role hv (Worker.role_of_hand hh)).1).1
    cases r with
    | pending => exact hr rfl
    | inside | leaving | unsettled => simp [hinit, FiberState.finished] at hok
  · exact hlost.init hinit

/-- A fiber that a worker keeps and does not use is in `INIT`, and nobody else refers to
it. -/
theorem Recycling.spare (h : s.Recycling) (hw : s.At i w) (hc : w.cbFiber = some f)
    (hnone : w.phase.hand = none) : s.sched.state f = .init ∧ ¬ s.Queued f ∧
      ∀ j v, s.At j v → v.Has f → j = i := by
  have hspare : s.Spare f := ⟨i, w, hw, hc, Worker.role_none hnone⟩
  rcases h.live hw hc with hlive | ⟨k, u, hlost⟩
  · obtain ⟨hinit, hno⟩ := hlive.spare hspare
    refine ⟨hinit, fun hq => (hlive.queued hq).2 hspare, fun j v hv hf => ?_⟩
    rcases hf with hf | hf
    · obtain ⟨⟨r, b, f'⟩, hh, rfl⟩ := Option.map_eq_some_iff.mp hf
      have hrole := Worker.role_of_hand hh
      rw [hno hv] at hrole
      cases hrole
    · exact hlive.keeper hv hw hf hc
  · obtain rfl := hlost.keeper hw hc
    obtain rfl := hw.unique hlost.worker
    rcases hlost.gone with hph | ⟨hph, -⟩ <;> rw [hph] at hnone <;> cases hnone

/-- `reset` fails no assertion. -/
theorem Recycling.resets (h : s.Recycling) {x : Assertion} (herr : s.step a = some (.error x))
    (hx : x = .stack ∨ x = .resettable) : False := by
  obtain ⟨i, w, wa, hw, herr⟩ := step_worker_error herr
  rcases Worker.reset_error herr hx with ⟨f, hnone, hc, hf⟩ | ⟨f, hph, hstack⟩
  · rcases hf with hstack | hinit
    · rw [h.stack hw hc] at hstack
      cases hstack
    · exact hinit (h.spare hw hc hnone).1
  · have hc : w.cbFiber = some f := h.keeps hw .unsettled f (by rw [hph]; rfl)
    rw [h.stack hw hc] at hstack
    cases hstack

/-- A fiber that a worker keeps before a worker's step. -/
theorem Recycling.kept (h : s.Recycling) (hw : s.At i w) (hc : w.cbFiber = some f) {j : Nat}
    {v v' : Worker Cb} {wa : WorkerAct Cb} {sched : Scheduler Cb} (hv : s.At j v)
    (hstep : v.Step s.sched wa sched v') (hg : s.Forgotten (.worker j wa)) :
    (s.setWorker j sched v').LiveAt f ∨ (s.setWorker j sched v').Lost f := by
  have hfcs := fcs_worker hv wa
  rcases h.live hw hc with hlive | ⟨k, u, hlost⟩
  · rcases hg.carefulAt hlive hw hc with hcare | ⟨j', v₁, ok, ha, hv₁, hr, hph, hun⟩
    · exact .inl (hlive.move h.known hv (h.keeps hv) hstep.move hcare)
    · obtain ⟨rfl, rfl⟩ := PoolAct.worker.inj ha
      obtain rfl := hv.unique hv₁
      exact .inr ⟨i, w, hlive.lost hw hph hc hun hv hr hstep⟩
  · by_cases hjk : j = k
    · subst hjk
      obtain rfl := hlost.worker.unique hv
      exact .inr ⟨j, v', hlost.self hstep⟩
    · refine .inr ⟨k, u, hlost.other h.known hjk hv (h.keeps hv) hstep.move fun fc hfc hf => ?_⟩
      exact (hg.scheduled hw hc (hfcs ▸ hfc) hf).1

/-- What threads outside do. -/
theorem Recycling.outside (h : s.Recycling) {fcs : List (FiberOrCb Cb)}
    {new : List (FiberAndThread Cb)} (hg : s.sched.Grows s'.sched fcs new)
    (hfcs : ∀ {i w f}, s.At i w → w.cbFiber = some f → ∀ fc ∈ fcs, f ∈ fc.ptr →
      (s.sched.state f).finished = false ∧ ¬ s.Spare f)
    (hw : s'.workers = s.workers) : s'.Recycling := by
  have hat : ∀ {i w}, s'.At i w → s.At i w := fun h => by rwa [At, hw] at h
  refine ⟨h.known.grows hg hw, fun hw => h.keeps (hat hw), fun hw hc => ?_, fun {i w f} hi hc => ?_⟩
  · rw [hg.fiber _ (h.known.has (hat hw) (.inr hc))]
    exact h.stack (hat hw) hc
  · rcases h.live (hat hi) hc with hlive | ⟨k, u, hlost⟩
    · exact .inl (hlive.quiet h.known hg (hfcs (hat hi) hc) fun hv => ⟨_, hat hv, rfl, rfl⟩)
    · refine .inr ⟨k, u, hlost.quiet h.known hg (fun fc hfc hf => ?_)
        (fun hv => ⟨_, hat hv, rfl, rfl⟩) (by rw [At, hw]; exact hlost.worker)⟩
      exact (hfcs (hat hi) hc fc hfc hf).1

theorem Recycling.step (h : s.Recycling) (hstep : s.Step a s') (hg : s.Forgotten a) :
    s'.Recycling := by
  have hknown := h.known.step hstep
  cases hstep with
  | @worker j v wa sched v' hv hstep =>
      have hmove := hstep.move
      refine ⟨hknown, fun {i w} hw => ?_, fun {i w f} hw hc => ?_, fun {i w f} hw hc => ?_⟩
      · rcases at_setWorker hv hw with ⟨-, rfl⟩ | ⟨-, hw⟩
        · exact hmove.keeps (h.keeps hv)
        · exact h.keeps hw
      · show (sched.fiber f).stack = true
        rcases at_setWorker hv hw with ⟨-, rfl⟩ | ⟨-, hw⟩
        · rcases hmove.kept hc with hc | ⟨-, -, rfl, rfl, -⟩
          · rw [hmove.stack (h.known.has hv (.inr hc))]
            exact h.stack hv hc
          · rw [Scheduler.newFiber_self]
        · rw [hmove.stack (h.known.has hw (.inr hc))]
          exact h.stack hw hc
      · rcases at_setWorker hv hw with ⟨-, rfl⟩ | ⟨-, hw⟩
        · rcases hmove.kept hc with hold | ⟨-, hno, rfl, rfl, hh⟩
          · exact h.kept hv hold hv hstep hg
          · exact .inl (h.known.created hv hno hh hc)
        · exact h.kept hw hc hv hstep hg
  | @call t c sched ops hidle hcall =>
      obtain ⟨new, heff, -⟩ := Scheduler.call_effect hcall
      exact h.outside heff.toGrows (fun hw hc fc hfc hf => hg.scheduled hw hc hfc hf) rfl
  | @op t op ops sched more hout hexec =>
      obtain ⟨new, heff, -⟩ := Scheduler.exec_effect hexec
      have hfcs := fcs_op hout
      exact h.outside heff.toGrows (fun hw hc fc hfc hf => hg.scheduled hw hc (hfcs ▸ hfc) hf) rfl

end Pool

end CoLib
