/-
# `CoLib.Scheduler.Hand` — the fiber a worker has in hand

A worker has at most one fiber in hand: it is about to switch into it, switched
into it, or has not yet written its state after the switch.  `Move` is what a
step does to the fiber in hand, to the fiber kept for callbacks, to the states of
fibers and to the queue; most steps do nothing to the first three.
-/
import CoLib.Scheduler.Steps

namespace CoLib

open Lib

variable {Cb : Type}

/-- What a worker does with the fiber it has in hand. -/
inductive Role where
  /-- It is about to switch into it. -/
  | pending
  /-- It is switched into it. -/
  | inside
  /-- It is switched into it, and the fiber has finished. -/
  | leaving
  /-- It has switched out, and not yet written the state. -/
  | unsettled
deriving DecidableEq, Repr

/-- The fiber in hand, with the branch of `run`. -/
def Phase.hand : Phase Cb → Option (Role × Branch × FiberPtr)
  | .scanned ft _ _ => ft.fiber.map fun f => (.pending, .fiber, f)
  | .holding b f => some (.pending, b, f)
  | .inside b f _ => some (.inside, b, f)
  | .pastEnd b f => some (.inside, b, f)
  | .leaving b f => some (.leaving, b, f)
  | .returned b f => some (.unsettled, b, f)
  | .settling b f => some (.unsettled, b, f)
  | _ => none

/-- The operation that the next step does. -/
def Phase.op : Phase Cb → Option (Op Cb)
  | .scanned _ _ true => some .tickle
  | .inside _ _ (op :: _) => some op
  | .rescheduling (op :: _) => some op
  | .handling (op :: _) => some op
  | _ => none

namespace Worker

/-- What a step schedules, apart from a fiber in `READY`. -/
def fcs (w : Worker Cb) : WorkerAct Cb → List (FiberOrCb Cb)
  | .next => (w.phase.op.map Op.fcs).getD []
  | .call c => c.fcs
  | _ => []

variable {s s' : Scheduler Cb} {w w' : Worker Cb} {a : WorkerAct Cb}

/-- What a step does to the fiber in hand. -/
inductive Move (s : Scheduler Cb) (w : Worker Cb) (a : WorkerAct Cb) (s' : Scheduler Cb)
    (w' : Worker Cb) : Prop
  | quiet {new} : s.Grows s' (w.fcs a) new → w'.phase.hand = w.phase.hand →
      w'.cbFiber = w.cbFiber → Move s w a s' w'
  | take {e} : a = .next → w.phase = .scan → w.phase.hand = none →
      s.queue.fibers.find? (·.eligible w.id s.state) = some e →
      (∀ x ∈ s'.queue.fibers, x ∈ s.queue.fibers) → s'.fiber = s.fiber →
      s'.fiberCount = s.fiberCount →
      w'.phase.hand = e.fiber.map (fun f => (.pending, .fiber, f)) → w'.cbFiber = w.cbFiber →
      Move s w a s' w'
  | recycle {f} : w.phase.hand = none → w.cbFiber = some f →
      s.state f = .term ∨ s.state f = .init ∨ s.state f = .except →
      s' = s.setFiber f { s.fiber f with cb := true, state := .init } →
      w'.phase.hand = some (.pending, .cb, f) → w'.cbFiber = some f → Move s w a s' w'
  | create : w.phase.hand = none → w.cbFiber = none → s' = s.newFiber {} →
      w'.phase.hand = some (.pending, .cb, s.fiberCount) → w'.cbFiber = some s.fiberCount →
      Move s w a s' w'
  | swapIn {b f} : w.phase.hand = some (.pending, b, f) → s.state f ≠ .exec →
      s' = s.setState f .exec → w'.phase = (if (s.state f).finished then .pastEnd b f
        else .inside b f []) → w'.cbFiber = w.cbFiber → Move s w a s' w'
  | yield {b f} : w.phase.hand = some (.inside, b, f) → s.state f = .exec → s' = s →
      w'.phase.hand = some (.unsettled, b, f) → w'.cbFiber = w.cbFiber → Move s w a s' w'
  | finish {b f} (ok : Bool) : a = .finish ok → w.phase.hand = some (.inside, b, f) →
      s' = s.setFiber f { s.fiber f with
        cb := if ok then false else (s.fiber f).cb, state := if ok then .term else .except } →
      w'.phase.hand = some (.leaving, b, f) → w'.cbFiber = w.cbFiber → Move s w a s' w'
  | swapOut {b f} : w.phase.hand = some (.leaving, b, f) → s' = s →
      w'.phase.hand = some (.unsettled, b, f) → w'.cbFiber = w.cbFiber → Move s w a s' w'
  | reschedule {b f} : w.phase.hand = some (.unsettled, b, f) → s.state f = .ready →
      s' = (s.schedule (.fiber (some f)) (-1)).1 → w'.phase.hand = none →
      w'.cbFiber = (w.release b).cbFiber → Move s w a s' w'
  | done {f} : w.phase.hand = some (.unsettled, .fiber, f) → (s.state f).finished = true →
      s' = s → w'.phase.hand = none → w'.cbFiber = w.cbFiber → Move s w a s' w'
  | keep {f} : w.phase.hand = some (.unsettled, .cb, f) → (s.state f).finished = true →
      s' = s.setFiber f { s.fiber f with cb := false, state := .init } → w'.phase.hand = none →
      w'.cbFiber = w.cbFiber → Move s w a s' w'
  | held {b f} : w.phase.hand = some (.unsettled, b, f) → (s.state f).finished = false →
      s' = s.setState f .hold → w'.phase.hand = none → w'.cbFiber = (w.release b).cbFiber →
      Move s w a s' w'

/-- A step of which nothing is known but its place, and that it schedules nothing. -/
theorem Move.still (hq : s'.queue = s.queue) (hf : s'.fiber = s.fiber)
    (hc : s'.fiberCount = s.fiberCount) (hfcs : w.fcs a = [])
    (hh : w'.phase.hand = w.phase.hand) (hcb : w'.cbFiber = w.cbFiber) : Move s w a s' w' := by
  have hgrows : s.Grows s' (w.fcs a) [] := by
    rw [hfcs]
    exact .quiet hq hf hc
  exact .quiet hgrows hh hcb

theorem Step.move (h : w.Step s a s' w') : Move s w a s' w' := by
  cases h with
  | scanNone hph hall => exact .still rfl rfl rfl (by rw [fcs, hph]; rfl) (by rw [hph]; rfl) rfl
  | scanTake tickleMe hph hq hl he hsome =>
      refine .take rfl hph (by rw [hph]; rfl)
        (List.find?_eq_some_iff_append.mpr ⟨he, _, _, hq, fun x hx => ?_⟩) (fun x hx => ?_) rfl rfl
        rfl rfl
      · simpa using hl x hx
      · rw [hq]
        rcases List.mem_append.mp hx with hx | hx
        · exact List.mem_append_left _ hx
        · exact List.mem_append_right _ (List.mem_cons_of_mem _ hx)
  | tickle hph =>
      have hgrows : s.Grows s.tickle (w.fcs .next) [] := by
        rw [fcs, hph]
        exact (Scheduler.tickle_effect s).toGrows
      exact .quiet hgrows (by rw [hph]; rfl) rfl
  | hold hph hf =>
      exact .still rfl rfl rfl (by rw [fcs, hph]; rfl) (by rw [hph, Phase.hand, hf]; rfl) rfl
  | recycle hph hf hcb hc hst =>
      exact .recycle (by rw [hph, Phase.hand, hf]; rfl) hc hst rfl rfl hc
  | create hph hf hcb hc => exact .create (by rw [hph, Phase.hand, hf]; rfl) hc rfl rfl rfl
  | drop hph hf hcb | leave hph hf hcb _ =>
      exact .still rfl rfl rfl (by rw [fcs, hph]; rfl) (by rw [hph, Phase.hand, hf]; rfl) rfl
  | idleIn hph hf hcb hterm hexec =>
      refine .still rfl rfl rfl (by rw [fcs, hph]; rfl) ?_ rfl
      rw [hph, Phase.hand, hf]
      dsimp only
      split <;> rfl
  | swapIn hph hst => exact .swapIn (by rw [hph]; rfl) hst rfl rfl rfl
  | insideOp hph hexec | reschedulingOp hph hexec | handlingOp hph hexec =>
      obtain ⟨new, heff, -⟩ := Scheduler.exec_effect hexec
      have hgrows : s.Grows s' (w.fcs .next) new := by
        rw [fcs, hph]
        exact heff.toGrows
      exact .quiet hgrows (by rw [hph]; rfl) rfl
  | swapOut hph => exact .swapOut (by rw [hph]; rfl) rfl rfl rfl
  | inactive hph => exact .still rfl rfl rfl (by rw [fcs, hph]; rfl) (by rw [hph]; rfl) rfl
  | reschedule hph hst => exact .reschedule (by rw [hph]; rfl) hst rfl rfl rfl
  | done hph hfin => exact .done (by rw [hph]; rfl) hfin rfl rfl rfl
  | keep hph hfin => exact .keep (by rw [hph]; rfl) hfin rfl rfl rfl
  | held hph hready hfin => exact .held (by rw [hph]; rfl) hfin rfl rfl rfl
  | rescheduled hph | goOn hph _ | stop hph _ | handled hph | idleOut hph =>
      exact .still rfl rfl rfl (by rw [fcs, hph]; rfl) (by rw [hph]; rfl) rfl
  | count hph =>
      refine .still rfl rfl rfl (by rw [fcs, hph]; rfl) ?_ rfl
      rw [hph, goto]
      split <;> rfl
  | look hph _ =>
      refine .still rfl rfl rfl rfl ?_ rfl
      rw [hph, goto]
      split <;> rfl
  | wake hph | skip hph => exact .still rfl rfl rfl rfl (by rw [hph]; rfl) rfl
  | idleThrow hidle =>
      refine .still rfl rfl rfl rfl ?_ rfl
      unfold inIdle at hidle
      split at hidle
      all_goals first | (rename_i hph; rw [hph]; rfl) | cases hidle
  | call hph hcb hcall =>
      obtain ⟨new, heff, -⟩ := Scheduler.call_effect hcall
      exact .quiet heff.toGrows (by rw [hph]; rfl) rfl
  | yieldToHold hph hcb hst => exact .yield (by rw [hph]; rfl) hst rfl rfl rfl
  | finish hph hcb => exact .finish true rfl (by rw [hph]; rfl) rfl rfl rfl
  | throw hph => exact .finish false rfl (by rw [hph]; rfl) rfl rfl rfl

/-- The worker has the fiber in hand, or keeps it for callbacks. -/
def Has (w : Worker Cb) (f : FiberPtr) : Prop :=
  w.phase.hand.map (fun h => h.2.2) = some f ∨ w.cbFiber = some f

instance (w : Worker Cb) (f : FiberPtr) : Decidable (w.Has f) :=
  inferInstanceAs (Decidable (_ ∨ _))

variable {f : FiberPtr}

theorem Has.of_hand {r : Role} {b : Branch} (h : w.phase.hand = some (r, b, f)) : w.Has f :=
  .inl (by rw [h]; rfl)

theorem release_cbFiber {b : Branch} (h : (w.release b).cbFiber = some f) :
    w.cbFiber = some f := by
  cases b with
  | fiber => exact h
  | cb => cases h

/-- The fiber that a step takes from the queue. -/
def taken (s : Scheduler Cb) (w : Worker Cb) (a : WorkerAct Cb) : Option FiberPtr :=
  match a, w.phase with
  | .next, .scan => (s.queue.fibers.find? (·.eligible w.id s.state)).bind FiberAndThread.fiber
  | _, _ => none

theorem taken_scan (hph : w.phase = .scan) : w.taken s .next =
    (s.queue.fibers.find? (·.eligible w.id s.state)).bind FiberAndThread.fiber := by
  simp only [taken, hph]

theorem taken_mem (h : w.taken s a = some f) : ∃ e ∈ s.queue.fibers, e.fiber = some f := by
  unfold taken at h
  split at h
  · obtain ⟨e, he, hf⟩ := Option.bind_eq_some_iff.mp h
    exact ⟨e, List.mem_of_find?_eq_some he, hf⟩
  · cases h

/-- What a worker has after a step it had before, or made it, or took it. -/
theorem Move.has (h : Move s w a s' w') (hf : w'.Has f) :
    w.Has f ∨ (f = s.fiberCount ∧ s'.fiberCount = s.fiberCount + 1) ∨ w.taken s a = some f := by
  have hsame : w'.phase.hand = w.phase.hand → w'.cbFiber = w.cbFiber → w.Has f := by
    intro hh hc
    rw [Has, ← hh, ← hc]
    exact hf
  have hmoved : ∀ {r r' b f'}, w.phase.hand = some (r, b, f') → w'.phase.hand = some (r', b, f') →
      w'.cbFiber = w.cbFiber → w.Has f := by
    intro r r' b f' hh hh' hc
    rw [Has, hh', hc] at hf
    rw [Has, hh]
    exact hf
  have hnone : w'.phase.hand = none → (w'.cbFiber = some f → w.cbFiber = some f) → w.Has f := by
    intro hh hc
    rw [Has, hh] at hf
    exact .inr (hc (hf.resolve_left (by simp)))
  cases h with
  | quiet _ hh hc => exact .inl (hsame hh hc)
  | take ha hph hnone hfind _ _ _ hh hc =>
      rw [Has, hh, hc] at hf
      rcases hf with hf | hf
      · subst ha
        rw [taken_scan hph, hfind]
        exact .inr (.inr (by simpa using hf))
      · exact .inl (.inr hf)
  | recycle _ hc _ _ hh hc' =>
      rw [Has, hh, hc'] at hf
      exact .inl (.inr (hf.elim (fun hf => hc.trans hf) (fun hf => hc.trans hf)))
  | create _ _ hs hh hc =>
      rw [Has, hh, hc] at hf
      refine .inr (.inl ⟨?_, by rw [hs]; rfl⟩)
      exact hf.elim (fun hf => (Option.some.inj hf).symm) (fun hf => (Option.some.inj hf).symm)
  | swapIn hh _ _ hph hc =>
      have hh' : w'.phase.hand.map (fun h => h.2.2) = w.phase.hand.map fun h => h.2.2 := by
        rw [hph, hh]
        split <;> rfl
      rw [Has, hh', hc] at hf
      exact .inl hf
  | yield hh _ _ hh' hc | swapOut hh _ hh' hc => exact .inl (hmoved hh hh' hc)
  | finish ok _ hh _ hh' hc => exact .inl (hmoved hh hh' hc)
  | reschedule _ _ _ hh hc => exact .inl (hnone hh fun h => release_cbFiber (hc ▸ h))
  | done _ _ _ hh hc | keep _ _ _ hh hc => exact .inl (hnone hh fun h => hc ▸ h)
  | held _ _ _ hh hc => exact .inl (hnone hh fun h => release_cbFiber (hc ▸ h))

/-- The states of other fibers are left alone. -/
theorem Move.fiber (h : Move s w a s' w') (hlt : f < s.fiberCount) (hf : ¬ w.Has f) :
    s'.fiber f = s.fiber f := by
  have hset : ∀ {r b f' x}, w.phase.hand = some (r, b, f') →
      (s.setFiber f' x).fiber f = s.fiber f := by
    intro r b f' x hh
    refine Function.update_of_ne ?_ _ _
    rintro rfl
    exact hf (.of_hand hh)
  cases h with
  | quiet hgrows _ _ => exact hgrows.fiber f hlt
  | take _ _ _ _ _ hfiber _ _ _ => rw [hfiber]
  | recycle _ hc _ hs _ _ =>
      rw [hs]
      refine Function.update_of_ne ?_ _ _
      rintro rfl
      exact hf (.inr hc)
  | create _ _ hs _ _ =>
      rw [hs]
      exact Function.update_of_ne (Nat.ne_of_lt hlt) _ _
  | swapIn hh _ hs _ _ | held hh _ hs _ _ | keep hh _ hs _ _ => rw [hs]; exact hset hh
  | finish ok _ hh hs _ _ => rw [hs]; exact hset hh
  | yield _ _ hs _ _ | swapOut _ hs _ _ | done _ _ hs _ _ => rw [hs]
  | reschedule _ _ hs _ _ => rw [hs]; rfl

theorem Move.count (h : Move s w a s' w') : s.fiberCount ≤ s'.fiberCount := by
  cases h with
  | quiet hgrows _ _ => exact hgrows.count
  | take _ _ _ _ _ _ hcount _ _ => exact hcount.ge
  | create _ _ hs _ _ => rw [hs]; exact Nat.le_succ _
  | recycle _ _ _ hs _ _ | finish _ _ _ hs _ _ | swapIn _ _ hs _ _ | reschedule _ _ hs _ _
  | keep _ _ hs _ _ | held _ _ hs _ _ => rw [hs]; exact le_rfl
  | yield _ _ hs _ _ | done _ _ hs _ _ | swapOut _ hs _ _ => rw [hs]

/-- No step gives a fiber a stack, or takes it away. -/
theorem Move.stack (h : Move s w a s' w') (hlt : f < s.fiberCount) :
    (s'.fiber f).stack = (s.fiber f).stack := by
  have hset : ∀ {f₀ x}, x.stack = (s.fiber f₀).stack →
      ((s.setFiber f₀ x).fiber f).stack = (s.fiber f).stack := by
    intro f₀ x hx
    by_cases hf : f = f₀
    · subst hf
      rwa [Scheduler.setFiber_self]
    · rw [Scheduler.setFiber_of_ne _ hf]
  cases h with
  | quiet hgrows _ _ => rw [hgrows.fiber f hlt]
  | take _ _ _ _ _ hfiber _ _ _ => rw [hfiber]
  | create _ _ hs _ _ => rw [hs, Scheduler.newFiber_of_ne _ (Nat.ne_of_lt hlt)]
  | yield _ _ hs _ _ | done _ _ hs _ _ | swapOut _ hs _ _ => rw [hs]
  | reschedule _ _ hs _ _ => rw [hs]; rfl
  | recycle _ _ _ hs _ _ | swapIn _ _ hs _ _ | keep _ _ hs _ _ | held _ _ hs _ _
  | finish _ _ _ hs _ _ =>
      rw [hs]
      exact hset rfl

/-- No step writes `READY`. -/
theorem Move.ne_ready (h : Move s w a s' w') (hready : ∀ f, s.state f ≠ .ready) (f : FiberPtr) :
    s'.state f ≠ .ready := by
  have hset : ∀ {f₀ x}, x.state ≠ .ready → (s.setFiber f₀ x).state f ≠ .ready := by
    intro f₀ x hx
    by_cases hf : f = f₀
    · subst hf
      rwa [Scheduler.state, Scheduler.setFiber_self]
    · rw [Scheduler.state, Scheduler.setFiber_of_ne _ hf]
      exact hready f
  cases h with
  | quiet hgrows _ _ => exact hgrows.ne_ready hready f
  | take _ _ _ _ _ hfiber _ _ _ =>
      rw [Scheduler.state, hfiber]
      exact hready f
  | create _ _ hs _ _ =>
      have hinit : ({} : Fiber).state ≠ .ready := by simp
      rw [hs, Scheduler.state, Scheduler.newFiber]
      exact hset hinit
  | yield _ _ hs _ _ | done _ _ hs _ _ | swapOut _ hs _ _ => rw [hs]; exact hready f
  | recycle _ _ _ hs _ _ | swapIn _ _ hs _ _ | keep _ _ hs _ _ | held _ _ hs _ _ =>
      rw [hs]
      exact hset (by simp)
  | finish ok _ _ hs _ _ =>
      rw [hs]
      exact hset (by cases ok <;> simp)
  | reschedule _ hst _ _ _ => exact absurd hst (hready _)

/-- What a step leaves in the queue was there, or has been constructed. -/
theorem Move.queued (h : Move s w a s' w') {e : FiberAndThread Cb} (he : e ∈ s'.queue.fibers)
    (hf : e.fiber = some f) : (∃ x ∈ s.queue.fibers, x.fiber = some f) ∨ f < s.fiberCount ∨
      w.Has f := by
  have hsame : s'.queue = s.queue → ∃ x ∈ s.queue.fibers, x.fiber = some f :=
    fun hq => ⟨e, hq ▸ he, hf⟩
  cases h with
  | quiet hgrows _ _ => exact (hgrows.queued he hf).imp_right .inl
  | take _ _ _ _ hsub _ _ _ _ => exact .inl ⟨e, hsub e he, hf⟩
  | recycle _ _ _ hs _ _ | create _ _ hs _ _ | swapIn _ _ hs _ _ | keep _ _ hs _ _
  | held _ _ hs _ _ | finish _ _ _ hs _ _ => exact .inl (hsame (by rw [hs]; rfl))
  | yield _ _ hs _ _ | done _ _ hs _ _ | swapOut _ hs _ _ => exact .inl (hsame (by rw [hs]))
  | @reschedule b f' hh _ hs _ _ =>
      have hq : s'.queue.fibers
          = s.queue.fibers ++ [.of (.fiber (some f')) (-1) s.queue.pushed.length] := by
        rw [hs]
        exact (TaskQueue.appends_scheduleNoLock s.queue (.fiber (some f')) (-1)).fibers
      rw [hq] at he
      rcases List.mem_append.mp he with he | he
      · exact .inl ⟨e, he, hf⟩
      · rw [List.mem_singleton.mp he] at hf
        exact .inr (.inr ((Option.some.inj hf) ▸ .of_hand hh))

end Worker

/-! ## All threads -/

namespace Pool

variable {s s' : Pool Cb} {a : PoolAct Cb}

/-- What a step schedules. -/
def fcs (s : Pool Cb) : PoolAct Cb → List (FiberOrCb Cb)
  | .worker i a => ((s.workers[i]?).map fun w => w.fcs a).getD []
  | .call _ c => c.fcs
  | .op t => ((s.outside t).head?.map Op.fcs).getD []

theorem fcs_worker {i : Nat} {w : Worker Cb} (hw : s.At i w) (a : WorkerAct Cb) :
    s.fcs (.worker i a) = w.fcs a := by
  rw [fcs, hw.getElem?]
  rfl

theorem fcs_op {t : Nat} {op : Op Cb} {ops : List (Op Cb)} (hout : s.outside t = op :: ops) :
    s.fcs (.op t) = op.fcs := by
  rw [fcs, hout]
  rfl

/-- The operation that a step does. -/
def nextOp (s : Pool Cb) : PoolAct Cb → Option (Op Cb)
  | .worker i .next => (s.workers[i]?).bind fun w => w.phase.op
  | .op t => (s.outside t).head?
  | _ => none

/-- A task of the queue has the fiber. -/
def Queued (s : Pool Cb) (f : FiberPtr) : Prop :=
  ∃ e ∈ s.sched.queue.fibers, e.fiber = some f

instance (s : Pool Cb) (f : FiberPtr) : Decidable (s.Queued f) :=
  inferInstanceAs (Decidable (∃ e ∈ s.sched.queue.fibers, e.fiber = some f))

/-- All fibers in hand and in the queue have been constructed. -/
structure Known (s : Pool Cb) : Prop where
  has : ∀ {i w f}, s.At i w → w.Has f → f < s.sched.fiberCount
  queued : ∀ {f}, s.Queued f → f < s.sched.fiberCount

theorem init_at {ids : List Int} {now : Nat} {i : Nat} {w : Worker Cb}
    (h : (init ids now : Pool Cb).At i w) :
    w.phase = .scan ∧ w.idle = .init ∧ ∀ f, ¬ w.Has f := by
  obtain ⟨id, -, rfl⟩ := List.mem_map.mp (List.mem_of_getElem? h)
  exact ⟨rfl, rfl, fun f hf => by simp [Worker.Has, Phase.hand] at hf⟩

theorem init_not_queued {ids : List Int} {now : Nat} {f : FiberPtr} :
    ¬ (init ids now : Pool Cb).Queued f := by
  rintro ⟨e, he, -⟩
  cases he

theorem known_init (ids : List Int) (now : Nat) : (init ids now : Pool Cb).Known where
  has    := fun hw hf => absurd hf ((init_at hw).2.2 _)
  queued := fun hq => absurd hq init_not_queued

theorem Known.grows (h : s.Known) {fcs : List (FiberOrCb Cb)} {new : List (FiberAndThread Cb)}
    (hg : s.sched.Grows s'.sched fcs new) (hw : s'.workers = s.workers) : s'.Known where
  has    := fun hat hf => by
    rw [At, hw] at hat
    exact (h.has hat hf).trans_le hg.count
  queued := fun ⟨e, he, hf⟩ => by
    rcases hg.queued he hf with hx | hlt
    · exact (h.queued hx).trans_le hg.count
    · exact hlt.trans_le hg.count

theorem Known.worker (h : s.Known) {i : Nat} {w w' : Worker Cb} {a : WorkerAct Cb}
    {sched : Scheduler Cb} (hw : s.At i w) (hmove : Worker.Move s.sched w a sched w') :
    (s.setWorker i sched w').Known where
  has    := fun {j v f} hv hf => by
    show f < sched.fiberCount
    rcases at_setWorker hw hv with ⟨-, rfl⟩ | ⟨-, hv⟩
    · rcases hmove.has hf with hf | ⟨heq, hcount⟩ | hf
      · exact (h.has hw hf).trans_le hmove.count
      · rw [heq, hcount]
        exact Nat.lt_succ_self _
      · exact (h.queued (Worker.taken_mem hf)).trans_le hmove.count
    · exact (h.has hv hf).trans_le hmove.count
  queued := fun {f} ⟨e, he, hf⟩ => by
    show f < sched.fiberCount
    rcases hmove.queued he hf with hx | hlt | hf
    · exact (h.queued hx).trans_le hmove.count
    · exact hlt.trans_le hmove.count
    · exact (h.has hw hf).trans_le hmove.count

theorem Known.step (h : s.Known) (hstep : s.Step a s') : s'.Known := by
  cases hstep with
  | worker hw hstep => exact h.worker hw hstep.move
  | call _ hcall =>
      obtain ⟨new, heff, -⟩ := Scheduler.call_effect hcall
      exact h.grows heff.toGrows rfl
  | op _ hexec =>
      obtain ⟨new, heff, -⟩ := Scheduler.exec_effect hexec
      exact h.grows heff.toGrows rfl

end Pool

end CoLib
