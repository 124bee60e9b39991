/-
# `CoLib.Scheduler.Finished` — finished fibers are not run again

`run` guards its first branch with `state != TERM || state != EXCEPT`, which
holds in every state, and tests the idle fiber for `TERM` only.  So a fiber that
finishes while an entry for it is queued is switched into once more, behind its
last `swapOut`; or, when it is the fiber kept for callbacks, with the empty
callback of `reset(nullptr)`.

`LiveAt` says of one fiber what the workers may be doing with it in each of its
states.

**Proved here.**  When only live fibers are scheduled, a fiber finishes only when
no task refers to it, and `idle` does not throw, the pool stays live (`Live.step`);
then no finished fiber is switched into, "never reach" is not reached, and a fiber
kept for callbacks runs with a callback.
-/
import CoLib.Scheduler.Hand

namespace CoLib

open Lib

variable {Cb : Type}

/-! ## A worker and a fiber -/

namespace Worker

/-- What the worker does with the fiber. -/
def role (w : Worker Cb) (f : FiberPtr) : Option (Role × Branch) :=
  match w.phase.hand with
  | some (r, b, f') => if f' = f then some (r, b) else none
  | none => none

variable {s s' : Scheduler Cb} {w w' : Worker Cb} {a : WorkerAct Cb} {f f' : FiberPtr} {r : Role}
  {b : Branch}

theorem role_eq_some : w.role f = some (r, b) ↔ w.phase.hand = some (r, b, f) := by
  unfold role
  split
  · rename_i r' b' f' h
    rw [h]
    by_cases hf : f' = f <;> simp [hf]
  · rename_i h
    simp [h]

theorem role_of_hand (h : w.phase.hand = some (r, b, f)) : w.role f = some (r, b) :=
  role_eq_some.mpr h

theorem role_other (h : w.phase.hand = some (r, b, f')) (hf : f ≠ f') : w.role f = none := by
  rw [role, h]
  exact if_neg (Ne.symm hf)

theorem role_none (h : w.phase.hand = none) : w.role f = none := by
  rw [role, h]

theorem role_congr (h : w'.phase.hand = w.phase.hand) : w'.role f = w.role f := by
  rw [role, role, h]

theorem Has.of_role (h : w.role f = some (r, b)) : w.Has f :=
  .of_hand (role_eq_some.mp h)

/-- The fiber that the worker uses for a callback is the one it keeps. -/
def Keeps (w : Worker Cb) : Prop :=
  ∀ r f, w.phase.hand = some (r, .cb, f) → w.cbFiber = some f

/-- What a worker drops is the fiber that it was about. -/
theorem Keeps.release (h : w.Keeps) (hh : w.phase.hand = some (r, b, f')) (hf : f ≠ f') :
    (w.release b).cbFiber = some f ↔ w.cbFiber = some f := by
  cases b with
  | fiber => rfl
  | cb =>
      rw [h r f' hh]
      exact iff_of_false (by simp [Worker.release]) fun hk => hf (Option.some.inj hk).symm

/-- Nothing is switched into behind its end, if the fiber in hand has not finished
and the idle fiber has not thrown. -/
theorem Step.past (h : w.Step s a s' w') (hidle : w.idle ≠ .except) (hthrow : a ≠ .idleThrow)
    (hfin : ∀ b f, w.phase = .holding b f → (s.state f).finished = false) :
    w'.idle ≠ .except ∧ w'.phase ≠ .idlePastEnd ∧ ∀ b f, w'.phase ≠ .pastEnd b f := by
  cases h with
  | swapIn hph _ =>
      rw [hfin _ _ hph]
      exact ⟨hidle, by simp [goto], by simp [goto]⟩
  | idleIn _ _ _ hterm _ =>
      have hno : w.idle.finished = false := by simp [FiberState.finished, hterm, hidle]
      rw [hno]
      exact ⟨by simp, by simp, by simp⟩
  | idleOut =>
      refine ⟨?_, by simp, by simp⟩
      dsimp only
      split
      · exact hidle
      · simp
  | idleThrow => exact absurd rfl hthrow
  | stop => exact ⟨by simp, by simp, by simp⟩
  | count | look =>
      refine ⟨hidle, ?_, ?_⟩ <;> rw [goto] <;> split <;> simp
  | reschedule | held => exact ⟨by simpa [goto] using hidle, by simp [goto], by simp [goto]⟩
  | _ => exact ⟨hidle, by simp [goto], by simp [goto]⟩

/-- A finished idle fiber is not switched into, unless it has thrown. -/
theorem Step.idle_finished (h : w.Step s a s' w') (hidle : w.idle ≠ .except)
    (hfin : w.idle.finished = true) : w'.idle ≠ .exec := by
  have hexec : w.idle ≠ .exec := by
    intro heq
    rw [heq] at hfin
    cases hfin
  cases h with
  | idleIn _ _ _ hterm _ => simp [FiberState.finished, hterm, hidle] at hfin
  | idleOut =>
      dsimp only
      rw [hfin]
      exact hexec
  | idleThrow | stop => simp
  | reschedule | held => simpa [goto] using hexec
  | _ => exact hexec

end Worker

/-! ## A fiber and the workers -/

/-- What a worker may do with a fiber in this state. -/
def Role.Ok (r : Role) (b : Branch) (x : Fiber) : Prop :=
  (match r with
    | .pending => x.state.finished = false
    | .inside => x.state = .exec
    | .leaving => x.state.finished = true
    | .unsettled => x.state = .exec ∨ x.state.finished = true) ∧
  (b = .cb → x.state.finished = false → x.cb = true)

namespace Pool

variable {s s' : Pool Cb} {a : PoolAct Cb} {f : FiberPtr}

/-- Some worker keeps the fiber for callbacks and does not use it. -/
def Spare (s : Pool Cb) (f : FiberPtr) : Prop :=
  ∃ i w, s.At i w ∧ w.cbFiber = some f ∧ w.role f = none

instance (s : Pool Cb) (f : FiberPtr) : Decidable (s.Spare f) :=
  decidable_of_iff (∃ w ∈ s.workers, w.cbFiber = some f ∧ w.role f = none) <| by
    simp only [Spare, At]
    constructor
    · rintro ⟨w, hw, h⟩
      obtain ⟨i, hi⟩ := List.mem_iff_getElem?.mp hw
      exact ⟨i, w, hi, h⟩
    · rintro ⟨i, w, hw, h⟩
      exact ⟨w, List.mem_of_getElem? hw, h⟩

/-- What the workers may be doing with the fiber. -/
structure LiveAt (s : Pool Cb) (f : FiberPtr) : Prop where
  /-- Tasks refer to it only while it has not finished and is not spare. -/
  queued : s.Queued f → (s.sched.state f).finished = false ∧ ¬ s.Spare f
  /-- The worker that uses it for a callback keeps it. -/
  role : ∀ {i w r b}, s.At i w → w.role f = some (r, b) →
    r.Ok b (s.sched.fiber f) ∧ (b = .cb ↔ w.cbFiber = some f)
  /-- One worker at most is past the switch. -/
  unique : ∀ {i j w v r r' b b'}, s.At i w → s.At j v → w.role f = some (r, b) →
    v.role f = some (r', b') → r ≠ .pending → r' ≠ .pending → i = j
  /-- One worker at most keeps it. -/
  keeper : ∀ {i j w v}, s.At i w → s.At j v → w.cbFiber = some f → v.cbFiber = some f → i = j
  /-- While it is spare, it is in `INIT` and no worker has it. -/
  spare : s.Spare f → s.sched.state f = .init ∧ ∀ {j v}, s.At j v → v.role f = none

/-- A fiber that nobody has. -/
theorem LiveAt.of_unknown (hq : ¬ s.Queued f) (hat : ∀ {i w}, s.At i w → ¬ w.Has f) :
    s.LiveAt f where
  queued := fun h => absurd h hq
  role   := fun hw h => absurd (.of_role h) (hat hw)
  unique := fun hw _ h => absurd (.of_role h) (hat hw)
  keeper := fun hw _ h => absurd (.inr h) (hat hw)
  spare  := fun ⟨_, _, hw, h, _⟩ => absurd (.inr h) (hat hw)

/-- The fiber is as it was, and so is what workers do with it; what refers to it
now did so before, or may. -/
theorem LiveAt.frame (h : s.LiveAt f) (hfiber : s'.sched.fiber f = s.sched.fiber f)
    (hq : s'.Queued f → s.Queued f ∨ ((s.sched.state f).finished = false ∧ ¬ s.Spare f))
    (hat : ∀ {i w'}, s'.At i w' → ∃ w, s.At i w ∧ w'.role f = w.role f ∧
      (w'.cbFiber = some f ↔ w.cbFiber = some f)) : s'.LiveAt f := by
  have hstate : s'.sched.state f = s.sched.state f := congrArg Fiber.state hfiber
  have hspare : s'.Spare f → s.Spare f := by
    rintro ⟨i, w', hw', hc, hr⟩
    obtain ⟨w, hw, hrole, hkeep⟩ := hat hw'
    exact ⟨i, w, hw, hkeep.mp hc, hrole.symm.trans hr⟩
  refine ⟨fun hqd => ?_, fun {i w' r b} hw' hr => ?_, ?_, ?_, fun hs => ?_⟩
  · rw [hstate]
    rcases hq hqd with hold | hnew
    · exact ⟨(h.queued hold).1, fun hs => (h.queued hold).2 (hspare hs)⟩
    · exact ⟨hnew.1, fun hs => hnew.2 (hspare hs)⟩
  · obtain ⟨w, hw, hrole, hkeep⟩ := hat hw'
    rw [hfiber, hkeep]
    exact h.role hw (hrole ▸ hr)
  · intro i j w' v' r r' b b' hw' hv' hr hr'
    obtain ⟨w, hw, hrole, -⟩ := hat hw'
    obtain ⟨v, hv, hrole', -⟩ := hat hv'
    exact h.unique hw hv (hrole ▸ hr) (hrole' ▸ hr')
  · intro i j w' v' hw' hv' hk hk'
    obtain ⟨w, hw, -, hkeep⟩ := hat hw'
    obtain ⟨v, hv, -, hkeep'⟩ := hat hv'
    exact h.keeper hw hv (hkeep.mp hk) (hkeep'.mp hk')
  · obtain ⟨hst, hno⟩ := h.spare (hspare hs)
    refine ⟨hstate.trans hst, fun {j v'} hv' => ?_⟩
    obtain ⟨v, hv, hrole, -⟩ := hat hv'
    exact hrole.trans (hno hv)

section Worker

variable {i : Nat} {w w' : Worker Cb} {sched : Scheduler Cb}

/-- Another fiber than the one that a worker's step is about. -/
theorem LiveAt.other (h : s.LiveAt f) (hw : s.At i w) (hfiber : sched.fiber f = s.sched.fiber f)
    (hq : (∃ e ∈ sched.queue.fibers, e.fiber = some f) →
      s.Queued f ∨ ((s.sched.state f).finished = false ∧ ¬ s.Spare f))
    (hrole : w'.role f = w.role f) (hkeep : w'.cbFiber = some f ↔ w.cbFiber = some f) :
    (s.setWorker i sched w').LiveAt f := by
  refine h.frame hfiber hq fun {j v} hv => ?_
  rcases at_setWorker hw hv with ⟨rfl, rfl⟩ | ⟨-, hv⟩
  · exact ⟨w, hw, hrole, hkeep⟩
  · exact ⟨v, hv, rfl, Iff.rfl⟩

/-- The fiber that a worker's step is about. -/
theorem LiveAt.update (h : s.LiveAt f) (hw : s.At i w)
    (hq : (∃ e ∈ sched.queue.fibers, e.fiber = some f) →
      s.Queued f ∧ (sched.fiber f).state.finished = false)
    (hothers : ∀ {j v r b}, j ≠ i → s.At j v → v.role f = some (r, b) → r.Ok b (sched.fiber f))
    (hself : ∀ {r b}, w'.role f = some (r, b) →
      r.Ok b (sched.fiber f) ∧ (b = .cb ↔ w'.cbFiber = some f))
    (hunique : ∀ {r b}, w'.role f = some (r, b) → r ≠ .pending →
      ∀ {j v r' b'}, j ≠ i → s.At j v → v.role f = some (r', b') → r' = .pending)
    (hkeep : w'.cbFiber = some f → w.cbFiber = some f ∨ ∀ {j v}, s.At j v → v.cbFiber ≠ some f)
    (hspare : w'.cbFiber = some f → w'.role f = none → (sched.fiber f).state = .init ∧
      (¬ ∃ e ∈ sched.queue.fibers, e.fiber = some f) ∧
      ∀ {j v}, j ≠ i → s.At j v → v.role f = none)
    (hused : w.role f ≠ none ∨ s.Queued f ∨ ∀ {j v}, j ≠ i → s.At j v → v.cbFiber ≠ some f) :
    (s.setWorker i sched w').LiveAt f := by
  -- no other worker keeps it unused
  have hnospare : ∀ {j v}, j ≠ i → s.At j v → v.cbFiber = some f → v.role f ≠ none := by
    intro j v hji hv hk hr
    have hs : s.Spare f := ⟨j, v, hv, hk, hr⟩
    rcases hused with hne | hqd | hno
    · exact hne ((h.spare hs).2 hw)
    · exact (h.queued hqd).2 hs
    · exact hno hji hv hk
  have hown : (s.setWorker i sched w').Spare f → w'.cbFiber = some f ∧ w'.role f = none := by
    rintro ⟨j, v, hv, hk, hr⟩
    rcases at_setWorker hw hv with ⟨-, rfl⟩ | ⟨hji, hv⟩
    · exact ⟨hk, hr⟩
    · exact absurd hr (hnospare hji hv hk)
  refine ⟨fun hqd => ⟨(hq hqd).2, fun hs => ?_⟩, fun {j v r b} hv hr => ?_, ?_, ?_, fun hs => ?_⟩
  · obtain ⟨hk, hr⟩ := hown hs
    exact (hspare hk hr).2.1 hqd
  · rcases at_setWorker hw hv with ⟨-, rfl⟩ | ⟨hji, hv⟩
    · exact hself hr
    · exact ⟨hothers hji hv hr, (h.role hv hr).2⟩
  · intro j k v u r r' b b' hv hu hr hr' hne hne'
    rcases at_setWorker hw hv with ⟨hj, hv'⟩ | ⟨hji, hv'⟩
    · rcases at_setWorker hw hu with ⟨hk, -⟩ | ⟨hki, hu'⟩
      · exact hj.trans hk.symm
      · exact absurd (hunique (hv' ▸ hr) hne hki hu' hr') hne'
    · rcases at_setWorker hw hu with ⟨-, hu'⟩ | ⟨-, hu'⟩
      · exact absurd (hunique (hu' ▸ hr') hne' hji hv' hr) hne
      · exact h.unique hv' hu' hr hr' hne hne'
  · intro j k v u hv hu hkv hku
    rcases at_setWorker hw hv with ⟨hj, hv'⟩ | ⟨hji, hv'⟩
    · rcases at_setWorker hw hu with ⟨hk, -⟩ | ⟨hki, hu'⟩
      · exact hj.trans hk.symm
      · rcases hkeep (hv' ▸ hkv) with hold | hno
        · exact absurd (h.keeper hu' hw hku hold) hki
        · exact absurd hku (hno hu')
    · rcases at_setWorker hw hu with ⟨-, hu'⟩ | ⟨-, hu'⟩
      · rcases hkeep (hu' ▸ hku) with hold | hno
        · exact absurd (h.keeper hv' hw hkv hold) hji
        · exact absurd hkv (hno hv')
      · exact h.keeper hv' hu' hkv hku
  · obtain ⟨hk, hr⟩ := hown hs
    obtain ⟨hst, -, hno⟩ := hspare hk hr
    refine ⟨hst, fun {j v} hv => ?_⟩
    rcases at_setWorker hw hv with ⟨-, rfl⟩ | ⟨hji, hv⟩
    · exact hr
    · exact hno hji hv

end Worker

/-! ## One step -/

/-- The step schedules the fiber only while it has not finished and is not spare, and
ends it only when no task refers to it. -/
def CarefulAt (s : Pool Cb) (f : FiberPtr) (a : PoolAct Cb) : Prop :=
  (∀ fc ∈ s.fcs a, f ∈ fc.ptr → (s.sched.state f).finished = false ∧ ¬ s.Spare f) ∧
  ∀ i ok w, a = .worker i (.finish ok) → s.At i w → w.role f ≠ none →
    ¬ s.Queued f ∧ ∀ j v b, s.At j v → v.role f ≠ some (.pending, b)

/-- A step that only appends to the queue. -/
theorem LiveAt.quiet (h : s.LiveAt f) (hknown : s.Known) {fcs : List (FiberOrCb Cb)}
    {new : List (FiberAndThread Cb)} (hg : s.sched.Grows s'.sched fcs new)
    (hfcs : ∀ fc ∈ fcs, f ∈ fc.ptr → (s.sched.state f).finished = false ∧ ¬ s.Spare f)
    (hat : ∀ {j v'}, s'.At j v' → ∃ v, s.At j v ∧ v'.phase.hand = v.phase.hand ∧
      v'.cbFiber = v.cbFiber) : s'.LiveAt f := by
  have hqd : s'.Queued f → s.Queued f ∨ ∃ fc ∈ fcs, f ∈ fc.ptr :=
    fun ⟨_, he, hf⟩ => hg.scheduled he hf
  by_cases hlt : f < s.sched.fiberCount
  · refine h.frame (hg.fiber f hlt) (fun hq => ?_) fun {j v'} hv' => ?_
    · exact (hqd hq).imp_right fun ⟨fc, hfc, hf⟩ => hfcs fc hfc hf
    · obtain ⟨v, hv, hh, hc⟩ := hat hv'
      exact ⟨v, hv, Worker.role_congr hh, by rw [hc]⟩
  · refine .of_unknown (fun ⟨e, he, hf⟩ => hlt ?_) fun {j v'} hv' hf => hlt ?_
    · exact (hg.queued he hf).elim hknown.queued id
    · obtain ⟨v, hv, hh, hc⟩ := hat hv'
      rw [Worker.Has, hh, hc] at hf
      exact hknown.has hv hf

section Worker

variable {i : Nat} {w w' : Worker Cb} {wa : WorkerAct Cb} {sched : Scheduler Cb}

/-- A step that is about one fiber leaves the others as they are. -/
theorem LiveAt.others (h : s.LiveAt f) (hw : s.At i w) {f' : FiberPtr} (hne : f ≠ f')
    (hfiber : sched.fiber f = s.sched.fiber f)
    (hq : (∃ e ∈ sched.queue.fibers, e.fiber = some f) → s.Queued f)
    (hh : w.phase.hand = none ∨ ∃ r b, w.phase.hand = some (r, b, f'))
    (hh' : w'.phase.hand = none ∨ ∃ r b, w'.phase.hand = some (r, b, f'))
    (hc : w'.cbFiber = some f ↔ w.cbFiber = some f) : (s.setWorker i sched w').LiveAt f := by
  have hnone : ∀ {v : Worker Cb}, (v.phase.hand = none ∨ ∃ r b, v.phase.hand = some (r, b, f')) →
      v.role f = none := by
    rintro v (hv | ⟨r, b, hv⟩)
    · exact Worker.role_none hv
    · exact Worker.role_other hv hne
  exact h.other hw hfiber (fun hx => .inl (hq hx)) ((hnone hh').trans (hnone hh).symm) hc

/-- A worker takes a task. -/
theorem LiveAt.take (h : s.LiveAt f) (hw : s.At i w) {e : FiberAndThread Cb}
    (hnone : w.phase.hand = none) (he : e ∈ s.sched.queue.fibers)
    (hsub : ∀ x ∈ sched.queue.fibers, x ∈ s.sched.queue.fibers)
    (hfiber : sched.fiber = s.sched.fiber)
    (hh : w'.phase.hand = e.fiber.map fun f => (.pending, .fiber, f))
    (hc : w'.cbFiber = w.cbFiber) : (s.setWorker i sched w').LiveAt f := by
  have hqd : (∃ x ∈ sched.queue.fibers, x.fiber = some f) → s.Queued f :=
    fun ⟨x, hx, hf⟩ => ⟨x, hsub x hx, hf⟩
  have hrole : w.role f = none := Worker.role_none hnone
  by_cases hef : e.fiber = some f
  · rw [hef] at hh
    have hold : s.Queued f := ⟨e, he, hef⟩
    have hrole' : w'.role f = some (.pending, .fiber) := Worker.role_of_hand hh
    have hkeep : w.cbFiber ≠ some f := fun hk => (h.queued hold).2 ⟨i, w, hw, hk, hrole⟩
    refine h.update hw (fun _ => ⟨hold, ?_⟩) (fun _ hv hr => ?_) (fun {r b} hr => ?_)
      (fun {r b} hr hne => ?_) (fun hk => .inl (hc ▸ hk)) (fun _ hr => ?_) (.inr (.inl hold))
    · rw [hfiber]
      exact (h.queued hold).1
    · rw [hfiber]
      exact (h.role hv hr).1
    · rw [hrole'] at hr
      cases hr
      refine ⟨⟨?_, fun hb => absurd hb (by simp)⟩,
        iff_of_false (by simp) fun hk => hkeep (hc.symm.trans hk)⟩
      rw [hfiber]
      exact (h.queued hold).1
    · rw [hrole'] at hr
      cases hr
      exact absurd rfl hne
    · rw [hrole'] at hr
      cases hr
  · refine h.other hw (by rw [hfiber]) (fun hx => .inl (hqd hx)) ?_ (by rw [hc])
    rw [hrole, Worker.role, hh]
    cases hf : e.fiber with
    | none => rfl
    | some f' =>
        refine if_neg ?_
        rintro rfl
        exact hef hf

/-- A worker goes on with the fiber it has in hand. -/
theorem LiveAt.turn (h : s.LiveAt f) (hw : s.At i w) {r r' : Role} {b : Branch}
    (hh : w.phase.hand = some (r, b, f)) (hh' : w'.phase.hand = some (r', b, f))
    (hc : w'.cbFiber = w.cbFiber) (hqueue : sched.queue = s.sched.queue)
    (hq : s.Queued f → (sched.fiber f).state.finished = false)
    (hok : r'.Ok b (sched.fiber f))
    (hothers : ∀ {j v r'' b''}, j ≠ i → s.At j v → v.role f = some (r'', b'') →
      r''.Ok b'' (sched.fiber f) ∧ (r = .pending → r'' = .pending)) :
    (s.setWorker i sched w').LiveAt f := by
  have hqd : (∃ x ∈ sched.queue.fibers, x.fiber = some f) → s.Queued f := by
    rw [hqueue]
    exact fun hx => hx
  have hrole : w.role f = some (r, b) := Worker.role_of_hand hh
  have hrole' : w'.role f = some (r', b) := Worker.role_of_hand hh'
  refine h.update hw (fun hx => ⟨hqd hx, hq (hqd hx)⟩) (fun hji hv hr => (hothers hji hv hr).1)
    (fun {r₁ b₁} hr => ?_) (fun {r₁ b₁} hr hne {j v r'' b''} hji hv hr'' => ?_)
    (fun hk => .inl (hc ▸ hk)) (fun _ hr => ?_) (.inl (by rw [hrole]; simp))
  · rw [hrole'] at hr
    cases hr
    exact ⟨hok, by rw [hc]; exact (h.role hw hrole).2⟩
  · by_contra hne''
    by_cases hp : r = .pending
    · exact hne'' ((hothers hji hv hr'').2 hp)
    · exact hji (h.unique hv hw hr'' hrole hne'' hp)
  · rw [hrole'] at hr
    cases hr

/-- A worker is done with the fiber it had in hand. -/
theorem LiveAt.settle (h : s.LiveAt f) (hw : s.At i w) {b : Branch}
    (hh : w.phase.hand = some (.unsettled, b, f)) (hh' : w'.phase.hand = none)
    (hqueue : sched.queue = s.sched.queue)
    (hq : s.Queued f → (sched.fiber f).state.finished = false)
    (hothers : ∀ {j v b''}, j ≠ i → s.At j v → v.role f = some (.pending, b'') →
      Role.pending.Ok b'' (sched.fiber f))
    (hkept : w'.cbFiber = some f → b = .cb ∧ (sched.fiber f).state = .init ∧
      (s.sched.state f).finished = true) : (s.setWorker i sched w').LiveAt f := by
  have hqd : (∃ x ∈ sched.queue.fibers, x.fiber = some f) → s.Queued f := by
    rw [hqueue]
    exact fun hx => hx
  have hrole : w.role f = some (.unsettled, b) := Worker.role_of_hand hh
  -- the others can only be about to switch into it
  have hpending : ∀ {j v r b}, j ≠ i → s.At j v → v.role f = some (r, b) → r = .pending := by
    intro j v r b' hji hv hr
    by_contra hne
    exact hji (h.unique hv hw hr hrole hne (by simp))
  refine h.update hw (fun hx => ⟨hqd hx, hq (hqd hx)⟩) (fun hji hv hr => ?_) (fun hr => ?_)
    (fun hr => ?_) (fun hk => ?_) (fun hk _ => ?_) (.inl (by rw [hrole]; simp))
  · obtain rfl := hpending hji hv hr
    exact hothers hji hv hr
  · rw [Worker.role_none hh'] at hr
    cases hr
  · rw [Worker.role_none hh'] at hr
    cases hr
  · exact .inl ((h.role hw hrole).2.mp (hkept hk).1)
  · obtain ⟨-, hinit, hfin⟩ := hkept hk
    refine ⟨hinit, fun hx => ?_, fun {j v} hji hv => ?_⟩
    · rw [(h.queued (hqd hx)).1] at hfin
      cases hfin
    · cases hr : v.role f with
      | none => rfl
      | some rb =>
          obtain ⟨r, b'⟩ := rb
          obtain rfl := hpending hji hv hr
          have hno : (s.sched.state f).finished = false := (h.role hv hr).1.1
          rw [hno] at hfin
          cases hfin

/-- A worker takes the fiber that it keeps, or makes one, for a callback. -/
theorem LiveAt.callback (h : s.LiveAt f) (hw : s.At i w)
    (hh' : w'.phase.hand = some (.pending, .cb, f)) (hc : w'.cbFiber = some f)
    (hqueue : sched.queue = s.sched.queue)
    (hfresh : ¬ s.Queued f ∧ ∀ {j v}, s.At j v → v.role f = none)
    (hkeep : (w.cbFiber = some f ∨ w.cbFiber = none) ∧
      ∀ {j v}, j ≠ i → s.At j v → v.cbFiber ≠ some f)
    (hok : (sched.fiber f).state = .init ∧ (sched.fiber f).cb = true) :
    (s.setWorker i sched w').LiveAt f := by
  have hqd : (∃ x ∈ sched.queue.fibers, x.fiber = some f) → s.Queued f := by
    rw [hqueue]
    exact fun hx => hx
  have hrole' : w'.role f = some (.pending, .cb) := Worker.role_of_hand hh'
  have hno : ∀ {j v r b}, s.At j v → v.role f = some (r, b) → False := by
    intro j v r b hv hr
    rw [hfresh.2 hv] at hr
    cases hr
  refine h.update hw (fun hx => absurd (hqd hx) hfresh.1)
    (fun _ hv hr => (hno hv hr).elim) (fun hr => ?_) (fun _ _ _ _ _ _ _ hv hr => (hno hv hr).elim)
    (fun _ => ?_) (fun _ hr => ?_) (.inr (.inr hkeep.2))
  · rw [hrole'] at hr
    cases hr
    refine ⟨⟨?_, fun _ _ => hok.2⟩, iff_of_true rfl hc⟩
    rw [hok.1]
    rfl
  · rcases hkeep.1 with hold | hold
    · exact .inl hold
    · refine .inr fun {j v} hv hk => ?_
      by_cases hji : j = i
      · subst hji
        obtain rfl := hw.unique hv
        rw [hold] at hk
        cases hk
      · exact hkeep.2 hji hv hk
  · rw [hrole'] at hr
    cases hr

/-- A worker makes a fiber for a callback. -/
theorem Known.created (h : s.Known) (hw : s.At i w) (hno : w.cbFiber = none)
    (hh' : w'.phase.hand = some (.pending, .cb, s.sched.fiberCount))
    (hc : w'.cbFiber = some s.sched.fiberCount) :
    (s.setWorker i (s.sched.newFiber {}) w').LiveAt s.sched.fiberCount := by
  have hunknown : ∀ {j v}, s.At j v → ¬ v.Has s.sched.fiberCount :=
    fun hv hf => absurd (h.has hv hf) (lt_irrefl _)
  have hnq : ¬ s.Queued s.sched.fiberCount := fun hq => absurd (h.queued hq) (lt_irrefl _)
  refine (LiveAt.of_unknown hnq hunknown).callback hw hh' hc rfl ⟨hnq, fun {j v} hv => ?_⟩
    ⟨.inr hno, fun _ hv hk => hunknown hv (.inr hk)⟩ (by simp)
  cases hr : v.role s.sched.fiberCount with
  | none => rfl
  | some rb => exact absurd (.of_role hr) (hunknown hv)

/-- A step of a worker that is careful with a fiber keeps it live. -/
theorem LiveAt.move (h : s.LiveAt f) (hknown : s.Known) (hw : s.At i w) (hkeeps : w.Keeps)
    (hmove : Worker.Move s.sched w wa sched w') (hcare : s.CarefulAt f (.worker i wa)) :
    (s.setWorker i sched w').LiveAt f := by
  have hsame : ∀ {f₀ : FiberPtr} {x : Fiber}, f ≠ f₀ →
      (s.sched.setFiber f₀ x).fiber f = s.sched.fiber f :=
    fun hf => Scheduler.setFiber_of_ne _ hf _
  have hqueue : ∀ f₀ x, (s.sched.setFiber f₀ x).queue = s.sched.queue := fun _ _ => rfl
  cases hmove with
  | quiet hgrows hh hc =>
      refine h.quiet hknown hgrows (fun fc hfc => hcare.1 fc ?_) (fun {j v'} hv' => ?_)
      · rw [fcs_worker hw]
        exact hfc
      · rcases at_setWorker hw hv' with ⟨rfl, rfl⟩ | ⟨-, hv⟩
        · exact ⟨w, hw, hh, hc⟩
        · exact ⟨v', hv, rfl, rfl⟩
  | take _ _ hnone hfind hsub hfiber _ hh hc =>
      exact h.take hw hnone (List.mem_of_find?_eq_some hfind) hsub hfiber hh hc
  | @recycle f₀ hnone hc hst hs hh hc' =>
      subst hs
      by_cases hf : f = f₀
      · subst hf
        have hspare : s.Spare f := ⟨i, w, hw, hc, Worker.role_none hnone⟩
        exact h.callback hw hh hc' (hqueue f _)
          ⟨fun hq => (h.queued hq).2 hspare, (h.spare hspare).2⟩
          ⟨.inl hc, fun hji hv hk => hji (h.keeper hv hw hk hc)⟩ (by simp)
      · exact h.others hw hf (hsame hf) id (.inl hnone) (.inr ⟨_, _, hh⟩) (by rw [hc', hc])
  | create hnone hc hs hh hc' =>
      subst hs
      by_cases hf : f = s.sched.fiberCount
      · subst hf
        exact hknown.created hw hc hh hc'
      · refine h.others hw hf (Scheduler.newFiber_of_ne _ hf _) id (.inl hnone) (.inr ⟨_, _, hh⟩) ?_
        rw [hc', hc]
        exact iff_of_false (fun hk => hf (Option.some.inj hk).symm) (by simp)
  | @swapIn b f₀ hh hne hs hph hc =>
      have hh' : ∃ r, w'.phase.hand = some (r, b, f₀) := by
        rw [hph]
        split <;> exact ⟨_, rfl⟩
      subst hs
      by_cases hf : f = f₀
      · subst hf
        have hrole := h.role hw (Worker.role_of_hand hh)
        have hfin : (s.sched.state f).finished = false := hrole.1.1
        have hh' : w'.phase.hand = some (.inside, b, f) := by
          rw [hph, hfin]
          rfl
        refine h.turn hw hh hh' hc (hqueue f _) (fun _ => ?_) ⟨?_, fun hb _ => ?_⟩
          (fun {j v r'' b''} hji hv hr => ?_)
        · simp [Scheduler.setState, FiberState.finished]
        · simp [Scheduler.setState]
        · simpa [Scheduler.setState] using hrole.1.2 hb hfin
        · obtain ⟨hok, -⟩ := h.role hv hr
          -- the others are not past the switch, for then the state would be another
          have hp : r'' = .pending := by
            cases r'' with
            | pending => rfl
            | inside => exact absurd hok.1 hne
            | leaving => exact absurd (hfin.symm.trans hok.1) (by simp)
            | unsettled =>
                exact hok.1.elim (fun hst => absurd hst hne)
                  fun hst => absurd (hfin.symm.trans hst) (by simp)
          subst hp
          refine ⟨⟨by simp [Scheduler.setState, FiberState.finished], fun hb _ => ?_⟩, fun _ => rfl⟩
          simpa [Scheduler.setState] using hok.2 hb hfin
      · obtain ⟨r, hh'⟩ := hh'
        exact h.others hw hf (hsame hf) id (.inr ⟨_, _, hh⟩) (.inr ⟨_, _, hh'⟩) (by rw [hc])
  | @yield b f₀ hh hst hs hh' hc =>
      subst hs
      by_cases hf : f = f₀
      · subst hf
        exact h.turn hw hh hh' hc rfl (fun hq => (h.queued hq).1)
          ⟨.inl hst, (h.role hw (Worker.role_of_hand hh)).1.2⟩
          (fun _ hv hr => ⟨(h.role hv hr).1, fun hp => by cases hp⟩)
      · exact h.others hw hf rfl id (.inr ⟨_, _, hh⟩) (.inr ⟨_, _, hh'⟩) (by rw [hc])
  | @finish b f₀ ok ha hh hs hh' hc =>
      by_cases hf : f = f₀
      · subst hf
        have hrole : w.role f = some (.inside, b) := Worker.role_of_hand hh
        obtain ⟨hnq, hnp⟩ := hcare.2 i ok w (by rw [ha]) hw (by rw [hrole]; simp)
        have hfin : (sched.fiber f).state.finished = true := by
          rw [hs]
          cases ok <;> simp [FiberState.finished]
        refine h.turn hw hh hh' hc (by rw [hs]; rfl) (fun hq => absurd hq hnq)
          ⟨hfin, fun _ hno => absurd (hfin.symm.trans hno) (by simp)⟩
          (fun {j v r'' b''} hji hv hr => ?_)
        have hp : r'' ≠ .pending := by
          rintro rfl
          exact hnp j v b'' hv hr
        exact absurd (h.unique hv hw hr hrole hp (by simp)) hji
      · subst hs
        exact h.others hw hf (hsame hf) id (.inr ⟨_, _, hh⟩) (.inr ⟨_, _, hh'⟩) (by rw [hc])
  | @swapOut b f₀ hh hs hh' hc =>
      subst hs
      by_cases hf : f = f₀
      · subst hf
        have hrole := h.role hw (Worker.role_of_hand hh)
        exact h.turn hw hh hh' hc rfl (fun hq => (h.queued hq).1) ⟨.inr hrole.1.1, hrole.1.2⟩
          (fun _ hv hr => ⟨(h.role hv hr).1, fun hp => by cases hp⟩)
      · exact h.others hw hf rfl id (.inr ⟨_, _, hh⟩) (.inr ⟨_, _, hh'⟩) (by rw [hc])
  | @reschedule b f₀ hh hst hs hh' hc =>
      by_cases hf : f = f₀
      · subst hf
        have hst : (s.sched.fiber f).state = .ready := hst
        rcases (h.role hw (Worker.role_of_hand hh)).1.1 with hexec | hfin
        · rw [hst] at hexec
          cases hexec
        · rw [hst] at hfin
          cases hfin
      · subst hs
        refine h.others hw hf rfl (fun ⟨e, he, hef⟩ => ?_) (.inr ⟨_, _, hh⟩) (.inl hh') ?_
        · have hq := (TaskQueue.appends_scheduleNoLock s.sched.queue (.fiber (some f₀)) (-1)).fibers
          rcases List.mem_append.mp (hq ▸ he) with he | he
          · exact ⟨e, he, hef⟩
          · rw [List.mem_singleton.mp he] at hef
            exact absurd (Option.some.inj hef).symm hf
        · rw [hc]
          exact hkeeps.release hh hf
  | @done f₀ hh hfin hs hh' hc =>
      subst hs
      by_cases hf : f = f₀
      · subst hf
        refine h.settle hw hh hh' rfl (fun hq => (h.queued hq).1) (fun _ hv hr => (h.role hv hr).1)
          (fun hk => ?_)
        have hb := (h.role hw (Worker.role_of_hand hh)).2.mpr (hc ▸ hk)
        cases hb
      · exact h.others hw hf rfl id (.inr ⟨_, _, hh⟩) (.inl hh') (by rw [hc])
  | @keep f₀ hh hfin hs hh' hc =>
      subst hs
      by_cases hf : f = f₀
      · subst hf
        refine h.settle hw hh hh' (hqueue f _) (fun _ => by simp [FiberState.finished])
          (fun {j v b''} _ hv hr => ?_) (fun _ => ⟨rfl, by simp, hfin⟩)
        have hno : (s.sched.state f).finished = false := (h.role hv hr).1.1
        rw [hno] at hfin
        cases hfin
      · exact h.others hw hf (hsame hf) id (.inr ⟨_, _, hh⟩) (.inl hh') (by rw [hc])
  | @held b f₀ hh hfin hs hh' hc =>
      subst hs
      by_cases hf : f = f₀
      · subst hf
        have hb := (h.role hw (Worker.role_of_hand hh)).2
        refine h.settle hw hh hh' (hqueue f _)
          (fun _ => by simp [Scheduler.setState, FiberState.finished])
          (fun {j v b''} _ hv hr =>
            ⟨by simp [Scheduler.setState, FiberState.finished], fun hb _ => ?_⟩)
          (fun hk => ?_)
        · simpa [Scheduler.setState] using (h.role hv hr).1.2 hb hfin
        · rw [hc] at hk
          cases b with
          | fiber => cases hb.mpr hk
          | cb => cases hk
      · refine h.others hw hf (hsame hf) id (.inr ⟨_, _, hh⟩) (.inl hh') ?_
        rw [hc]
        exact hkeeps.release hh hf

end Worker

/-! ## Whole runs -/

/-- Only fibers that have not finished and are not spare are scheduled; a fiber
finishes only when no task refers to it; `idle` does not throw. -/
def Careful (s : Pool Cb) (a : PoolAct Cb) : Prop :=
  (∀ fc ∈ s.fcs a, ∀ f ∈ fc.ptr, (s.sched.state f).finished = false ∧ ¬ s.Spare f) ∧
  match a with
  | .worker i (.finish _) => ∀ w ∈ s.workers[i]?, ∀ h ∈ w.phase.hand,
      ¬ s.Queued h.2.2 ∧ ∀ v ∈ s.workers, ∀ h' ∈ v.phase.hand, h'.2.2 = h.2.2 → h'.1 ≠ .pending
  | .worker _ .idleThrow => False
  | _ => True

instance (s : Pool Cb) : (a : PoolAct Cb) → Decidable (s.Careful a)
  | .worker i (.finish ok) => inferInstanceAs (Decidable ((∀ fc ∈ s.fcs (.worker i (.finish ok)),
      ∀ f ∈ fc.ptr, (s.sched.state f).finished = false ∧ ¬ s.Spare f) ∧ ∀ w ∈ s.workers[i]?,
      ∀ h ∈ w.phase.hand, ¬ s.Queued h.2.2 ∧
        ∀ v ∈ s.workers, ∀ h' ∈ v.phase.hand, h'.2.2 = h.2.2 → h'.1 ≠ .pending))
  | .worker _ .idleThrow => .isFalse fun h => h.2
  | .worker _ .next | .worker _ (.look _) | .worker _ (.wake _ _ _) | .worker _ .skip
  | .worker _ (.call _) | .worker _ .yieldToHold | .call _ _ | .op _ =>
      inferInstanceAs (Decidable (_ ∧ True))

/-- Every fiber is used as its state allows; no idle fiber has thrown, and nothing
is switched into behind its end. -/
structure Live (s : Pool Cb) : Prop where
  known : s.Known
  fibers : ∀ f, s.LiveAt f
  idle : ∀ {i w}, s.At i w →
    w.idle ≠ .except ∧ w.phase ≠ .idlePastEnd ∧ ∀ b f, w.phase ≠ .pastEnd b f

theorem live_init (ids : List Int) (now : Nat) : (init ids now : Pool Cb).Live where
  known  := known_init ids now
  fibers := fun _ => .of_unknown init_not_queued fun hw => (init_at hw).2.2 _
  idle   := fun hw => by
    obtain ⟨hph, hidle, -⟩ := init_at hw
    simp [hph, hidle]

/-- A careful step is careful with every fiber. -/
theorem Careful.carefulAt (h : s.Careful a) (f : FiberPtr) : s.CarefulAt f a := by
  refine ⟨fun fc hfc hf => h.1 fc hfc f hf, fun i ok w ha hw hrole => ?_⟩
  subst ha
  cases hh : w.phase.hand with
  | none => exact absurd (Worker.role_none hh) hrole
  | some x =>
      obtain ⟨r, b, f'⟩ := x
      by_cases hf : f = f'
      · subst hf
        obtain ⟨hnq, hnp⟩ := h.2 w hw (r, b, f) hh
        refine ⟨hnq, fun j v b' hv hr => ?_⟩
        exact hnp v (List.mem_of_getElem? hv) _ (Worker.role_eq_some.mp hr) rfl rfl
      · exact absurd (Worker.role_other hh hf) hrole

/-- A careful step keeps the pool live. -/
theorem Live.step (h : s.Live) (hstep : s.Step a s') (hcare : s.Careful a) : s'.Live := by
  have hknown := h.known.step hstep
  cases hstep with
  | @worker i w wa sched w' hw hstep =>
      have hkeeps : w.Keeps := fun r f hh =>
        ((h.fibers f).role hw (Worker.role_of_hand hh)).2.mp rfl
      refine ⟨hknown, fun f => (h.fibers f).move h.known hw hkeeps hstep.move (hcare.carefulAt f),
        fun {j v} hv => ?_⟩
      rcases at_setWorker hw hv with ⟨-, rfl⟩ | ⟨-, hv⟩
      · refine hstep.past (h.idle hw).1 ?_ fun b f hph => ?_
        · rintro rfl
          exact hcare.2
        · have hhand : w.phase.hand = some (.pending, b, f) := by rw [hph]; rfl
          exact ((h.fibers f).role hw (Worker.role_of_hand hhand)).1.1
      · exact h.idle hv
  | @call t c sched ops hidle hcall =>
      obtain ⟨new, heff, -⟩ := Scheduler.call_effect hcall
      exact ⟨hknown, fun f => (h.fibers f).quiet h.known heff.toGrows (hcare.carefulAt f).1
        fun hv => ⟨_, hv, rfl, rfl⟩, h.idle⟩
  | @op t op ops sched more hout hexec =>
      obtain ⟨new, heff, -⟩ := Scheduler.exec_effect hexec
      refine ⟨hknown, fun f => (h.fibers f).quiet h.known heff.toGrows
        (fun fc hfc => (hcare.carefulAt f).1 fc ?_) fun hv => ⟨_, hv, rfl, rfl⟩, h.idle⟩
      rw [fcs_op hout]
      exact hfc

/-- Members that the queue and the fibers do not depend on may change. -/
theorem Live.grows (h : s.Live) {sched : Scheduler Cb} (hg : s.sched.Grows sched [] []) :
    ({ s with sched } : Pool Cb).Live where
  known  := h.known.grows hg rfl
  fibers := fun f => (h.fibers f).quiet h.known hg (by simp) fun hv => ⟨_, hv, rfl, rfl⟩
  idle   := h.idle

/-! ## What a live pool does not do -/

section Live

variable {i j : Nat} {w v : Worker Cb} {b : Branch} {f : FiberPtr}

/-- A fiber that is about to be switched into has not finished. -/
theorem Live.holding (h : s.Live) (hw : s.At i w) (hph : w.phase = .holding b f) :
    (s.sched.state f).finished = false := by
  have hhand : w.phase.hand = some (.pending, b, f) := by rw [hph]; rfl
  exact ((h.fibers f).role hw (Worker.role_of_hand hhand)).1.1

/-- A finished idle fiber is not switched into. -/
theorem Live.idle_finished (h : s.Live) (hstep : s.Step a s') (hw : s.At i w) (hv : s'.At i v)
    (hfin : w.idle.finished = true) : v.idle ≠ .exec := by
  have hexec : w.idle ≠ .exec := by
    intro heq
    rw [heq] at hfin
    cases hfin
  cases hstep with
  | @worker j u wa sched u' hu hstep =>
      rcases at_setWorker hu hv with ⟨rfl, rfl⟩ | ⟨-, hv⟩
      · obtain rfl := hw.unique hu
        exact hstep.idle_finished (h.idle hw).1 hfin
      · obtain rfl := hw.unique hv
        exact hexec
  | call | op =>
      obtain rfl := hw.unique hv
      exact hexec

/-- "never reach" is not reached. -/
theorem Live.neverReach (h : s.Live) : s.step a ≠ some (.error .neverReach) := by
  intro ha
  obtain ⟨i, w, hw, hfail⟩ := step_error ha
  cases hfail with
  | pastEnd hph => exact (h.idle hw).2.2 _ _ hph
  | idlePastEnd hph => exact (h.idle hw).2.1 hph

/-- A fiber kept for callbacks runs with a callback. -/
theorem Live.cb (h : s.Live) (hw : s.At i w) (hk : w.cbFiber = some f) (hv : s.At j v)
    {ops : List (Op Cb)} (hph : v.phase = .inside b f ops) : (s.sched.fiber f).cb = true := by
  have hl := h.fibers f
  have hhand : v.phase.hand = some (.inside, b, f) := by rw [hph]; rfl
  have hexec : (s.sched.fiber f).state = .exec := (hl.role hv (Worker.role_of_hand hhand)).1.1
  -- the worker that keeps the fiber has it in hand, for somebody has
  cases hr : w.role f with
  | none =>
      have hno := (hl.spare ⟨i, w, hw, hk, hr⟩).2 hv
      rw [Worker.role_of_hand hhand] at hno
      cases hno
  | some rb =>
      obtain ⟨r, b'⟩ := rb
      obtain ⟨hok, hb⟩ := hl.role hw hr
      exact hok.2 (hb.mpr hk) (by rw [hexec]; rfl)

end Live

end Pool

end CoLib
