/-
# `CoLib.Scheduler.Driver` — fibers without a scheduler's loop

A thread whose main fiber resumes fibers with `swapIn` by itself.  A fiber yields with
`YieldToHold`, or its callback returns or throws, and the main fiber goes on.

`swapIn` sets `EXEC` and asserts that the fiber was not in `EXEC` before.  `fiber.h` says
that `YieldToHold` sets `HOLD`; the line that does so is commented out, and it is
`Scheduler::run` that sets it, where a fiber was resumed from there.  The fibers switch to
and from `Scheduler::GetMainFiber()`, which is null on a thread without a scheduler.

**Proved here.**  `suspended_stuck`: a fiber that has yielded to a driver stays in `EXEC`
for ever, and resuming it fails the assertion.  `documented_iff`: a run keeps to the
documentation exactly if no fiber yields.
-/
import CoLib.Scheduler.Basic

namespace CoLib

open Lib

/-- Where a fiber goes on that is switched to: at the beginning of its function, behind
the `swapOut` of a `YieldToHold`, or behind the last one of `MainFunc`. -/
inductive Ctx where
  | start
  | suspended
  | finished
deriving DecidableEq

/-- What ends a run: a failed assertion, or `swapcontext` on a null main fiber. -/
inductive SwapFault where
  | assertion (a : Assertion)
  | nullMainFiber
deriving DecidableEq

/-- A thread with its fibers: whether `Scheduler::GetMainFiber()` is set (to the thread's
main fiber), the fibers constructed so far, what `m_ctx` of each holds, `t_fiber`, and whose
context runs; `none` is the main fiber. -/
structure FiberThread where
  mainFiber : Bool
  count : Nat := 0
  fiber : FiberPtr → Fiber := fun _ => {}
  ctx : FiberPtr → Ctx := fun _ => .start
  current : Option FiberPtr := none
  running : Option FiberPtr := none

/-- What the driver does (`newFiber`, `swapIn`, `reset`), or the fiber that runs. -/
inductive FiberAct where
  | newFiber
  | swapIn (f : FiberPtr)
  | reset (f : FiberPtr)
  | yieldToHold
  | returns
  | throws
deriving DecidableEq

namespace FiberThread

/-- Writing a fiber's members. -/
def set (s : FiberThread) (f : FiberPtr) (fiber : Fiber) : FiberThread :=
  { s with fiber := Function.update s.fiber f fiber }

/-- `swapOut()` of the fiber that runs, which goes on at `ctx` next time. -/
def swapOut (s : FiberThread) (f : FiberPtr) (ctx : Ctx) : FiberThread :=
  { s with ctx := Function.update s.ctx f ctx, current := none, running := none }

/-- `swapIn()`. -/
def swapIn (s : FiberThread) (f : FiberPtr) : Except SwapFault FiberThread :=
  let s := { s with current := some f }
  if (s.fiber f).state = .exec then .error (.assertion .notExec)
  else
    let s := s.set f { s.fiber f with state := .exec }
    if !s.mainFiber then .error .nullMainFiber
    else
      match s.ctx f with
      | .finished => .error (.assertion .neverReach)
      | _ => .ok { s with running := some f }

/-- `reset(cb)`. -/
def reset (s : FiberThread) (f : FiberPtr) : Except SwapFault FiberThread :=
  if (s.fiber f).state = .init ∨ (s.fiber f).state.finished = true then
    .ok { s.set f { s.fiber f with state := .init, cb := true } with
      ctx := Function.update s.ctx f .start }
  else .error (.assertion .resettable)

/-- `YieldToHold()`, where `t_fiber` is a fiber of the driver. -/
def yieldToHold (s : FiberThread) (f : FiberPtr) : Except SwapFault FiberThread :=
  if (s.fiber f).state = .exec then .ok (s.swapOut f .suspended)
  else .error (.assertion .exec)

/-- One step; `none` if it is not the turn of the driver or the fiber. -/
def step (s : FiberThread) : FiberAct → Option (Except SwapFault FiberThread)
  | .newFiber => if s.running = none then some (.ok { s with count := s.count + 1 }) else none
  | .swapIn f => if s.running = none ∧ f < s.count then some (s.swapIn f) else none
  | .reset f => if s.running = none ∧ f < s.count then some (s.reset f) else none
  | .yieldToHold =>
      match s.running, s.current with
      | some _, some cur => some (s.yieldToHold cur)
      | _, _ => none
  | .returns =>
      s.running.map fun f =>
        .ok ((s.set f { s.fiber f with cb := false, state := .term }).swapOut f .finished)
  | .throws =>
      s.running.map fun f =>
        .ok ((s.set f { s.fiber f with state := .except }).swapOut f .finished)

/-- The fiber has yielded, and is not resumed. -/
def Suspended (s : FiberThread) (f : FiberPtr) : Prop :=
  s.ctx f = .suspended ∧ s.running ≠ some f

/-- The fiber has not begun. -/
def New (s : FiberThread) (f : FiberPtr) : Prop :=
  s.ctx f = .start ∧ s.running ≠ some f

/-- What the documentation says: a suspended fiber is in `HOLD`, a suspended or new one can
be resumed, and only the fiber that runs is in `EXEC`. -/
structure Documented (s : FiberThread) : Prop where
  held : ∀ f < s.count, s.Suspended f → (s.fiber f).state = .hold
  resumable : ∀ f < s.count, s.Suspended f ∨ s.New f → (s.fiber f).state ≠ .exec
  exclusive : ∀ f < s.count, (s.fiber f).state = .exec → s.running = some f

/-! ## What the fibers are in -/

/-- The state of a fiber that does not run, from where it goes on. -/
def Settled : Ctx → FiberState → Prop
  | .start, st => st = .init
  | .suspended, st => st = .exec
  | .finished, st => st.finished = true

/-- What holds between the steps: `t_fiber` is the fiber that runs; it is in `EXEC`, and
was not suspended; the others are settled. -/
structure Kept (s : FiberThread) : Prop where
  current : s.current = s.running
  runs : ∀ f, s.running = some f → f < s.count ∧ (s.fiber f).state = .exec ∧ s.ctx f = .start
  settled : ∀ f, s.running ≠ some f → Settled (s.ctx f) (s.fiber f).state
  fresh : ∀ f, s.count ≤ f → s.ctx f = .start

variable {s s' : FiberThread} {a : FiberAct} {f : FiberPtr}

theorem kept_new (mainFiber : Bool) : Kept { mainFiber } where
  current := rfl
  runs := fun f h => absurd h (by simp)
  settled := fun f _ => rfl
  fresh := fun f _ => rfl

/-- What `swapIn` does where it goes through: the fiber begins. -/
theorem swapIn_ok (h : Kept s) (hrun : s.running = none) (hswap : s.swapIn f = .ok s') :
    s.ctx f = .start ∧ s' =
      { s.set f { s.fiber f with state := .exec } with current := some f, running := some f } := by
  have hsettled := h.settled f (by simp [hrun])
  simp only [swapIn, set] at hswap
  split at hswap
  · cases hswap
  · rename_i hexec
    cases hmain : s.mainFiber with
    | false =>
        rw [hmain] at hswap
        cases hswap
    | true =>
        cases hctx : s.ctx f with
        | start =>
            simp only [hmain, hctx, Bool.not_true, Bool.false_eq_true, if_false] at hswap
            refine ⟨rfl, (Except.ok.inj hswap).symm.trans ?_⟩
            simp only [set, hmain]
        | suspended =>
            rw [hctx] at hsettled
            exact absurd hsettled hexec
        | finished =>
            rw [hmain, hctx] at hswap
            cases hswap

/-- A fiber that has yielded cannot be resumed. -/
theorem swapIn_suspended (h : Kept s) (hsuspended : s.Suspended f) :
    s.swapIn f = .error (.assertion .notExec) := by
  have hexec := h.settled f hsuspended.2
  rw [hsuspended.1] at hexec
  simp only [swapIn, if_pos (show (s.fiber f).state = .exec from hexec)]

/-- The fiber that runs is left, its state and where it goes on being settled. -/
theorem Kept.swapOut {ctx : Ctx} {fiber : Fiber} (h : Kept s) (hrun : s.running = some f)
    (hfiber : Settled ctx fiber.state) : Kept ((s.set f fiber).swapOut f ctx) where
  current := rfl
  runs := fun g hg => absurd hg (by simp [FiberThread.swapOut])
  settled := fun g _ => by
    simp only [FiberThread.swapOut, set, Function.update_apply]
    split
    · exact hfiber
    · rename_i hne
      refine h.settled g fun hg => hne ?_
      rw [hrun] at hg
      exact (Option.some.inj hg).symm
  fresh := fun g hg => by
    have hlt := (h.runs f hrun).1
    have hne : g ≠ f := by
      rintro rfl
      exact absurd hlt (not_lt.mpr hg)
    simp only [FiberThread.swapOut, set, Function.update_apply, if_neg hne]
    exact h.fresh g hg

/-- Every step keeps it. -/
theorem Kept.step (h : Kept s) (hstep : s.step a = some (.ok s')) : Kept s' := by
  cases a with
  | newFiber =>
      simp only [FiberThread.step] at hstep
      split at hstep
      · rename_i hrun
        obtain rfl := Except.ok.inj (Option.some.inj hstep)
        exact
          { current := h.current
            runs := fun f hf => absurd (hrun.symm.trans hf) (by simp)
            settled := h.settled
            fresh := fun f hf => h.fresh f (Nat.le_of_succ_le hf) }
      · cases hstep
  | swapIn f =>
      simp only [FiberThread.step] at hstep
      split at hstep
      · rename_i hcan
        obtain ⟨hstart, rfl⟩ := swapIn_ok h hcan.1 (Option.some.inj hstep)
        refine ⟨rfl, fun g hg => ?_, fun g hg => ?_, h.fresh⟩
        · obtain rfl := Option.some.inj hg
          exact ⟨hcan.2, by simp [set], hstart⟩
        · have hne : g ≠ f := fun heq => hg (congrArg some heq.symm)
          simp only [set, Function.update_apply, if_neg hne]
          exact h.settled g (by simp [hcan.1])
      · cases hstep
  | reset f =>
      simp only [FiberThread.step] at hstep
      split at hstep
      · rename_i hcan
        have hreset := Option.some.inj hstep
        simp only [FiberThread.reset] at hreset
        split at hreset
        · obtain rfl := Except.ok.inj hreset
          refine ⟨h.current, fun g hg => absurd (hcan.1.symm.trans hg) (by simp), fun g hg => ?_,
            fun g hg => ?_⟩
          · simp only [set, Function.update_apply]
            split
            · rfl
            · exact h.settled g (by simp [hcan.1])
          · simp only [Function.update_apply]
            split
            · rfl
            · exact h.fresh g hg
        · cases hreset
      · cases hstep
  | yieldToHold =>
      simp only [FiberThread.step] at hstep
      split at hstep
      · rename_i g cur hrun hcur
        obtain rfl : cur = g := Option.some.inj (hcur.symm.trans (h.current.trans hrun))
        have hyield := Option.some.inj hstep
        rw [FiberThread.yieldToHold, if_pos (h.runs cur hrun).2.1] at hyield
        obtain rfl := Except.ok.inj hyield
        have hsame : s.set cur (s.fiber cur) = s := by
          rw [set, Function.update_eq_self]
        have hkept : Kept ((s.set cur (s.fiber cur)).swapOut cur .suspended) :=
          h.swapOut hrun (h.runs cur hrun).2.1
        rwa [hsame] at hkept
      · cases hstep
  | returns =>
      obtain ⟨f, hrun, hok⟩ := Option.map_eq_some_iff.mp hstep
      obtain rfl := Except.ok.inj hok
      exact h.swapOut hrun rfl
  | throws =>
      obtain ⟨f, hrun, hok⟩ := Option.map_eq_some_iff.mp hstep
      obtain rfl := Except.ok.inj hok
      exact h.swapOut hrun rfl

/-! ## Runs -/

/-- The documentation is kept to where no fiber is suspended. -/
theorem Kept.documented_iff_none (h : Kept s) : Documented s ↔ ∀ f, s.ctx f ≠ .suspended := by
  constructor
  · intro hdoc f hctx
    have hlt : f < s.count := by
      by_contra hge
      rw [h.fresh f (not_lt.mp hge)] at hctx
      cases hctx
    have hrun : s.running ≠ some f := by
      intro hrun
      rw [(h.runs f hrun).2.2] at hctx
      cases hctx
    have hexec := h.settled f hrun
    rw [hctx] at hexec
    have hhold := hdoc.held f hlt ⟨hctx, hrun⟩
    rw [show (s.fiber f).state = .exec from hexec] at hhold
    cases hhold
  · intro hnone
    have hstate : ∀ f, s.running ≠ some f → (s.fiber f).state ≠ .exec := by
      intro f hrun hexec
      have hsettled := h.settled f hrun
      rw [hexec] at hsettled
      cases hctx : s.ctx f with
      | start => rw [hctx] at hsettled; cases hsettled
      | suspended => exact hnone f hctx
      | finished => rw [hctx] at hsettled; cases hsettled
    refine ⟨fun f _ hsuspended => absurd hsuspended.1 (hnone f), fun f _ hor => ?_,
      fun f _ hexec => ?_⟩
    · exact hstate f (hor.elim And.right And.right)
    · by_contra hrun
      exact hstate f hrun hexec

/-- No fiber is suspended after a step if none was before, and the step is no yield. -/
theorem Kept.step_suspended (h : Kept s) (hstep : s.step a = some (.ok s')) :
    (∀ f, s'.ctx f ≠ .suspended) ↔ (∀ f, s.ctx f ≠ .suspended) ∧ a ≠ .yieldToHold := by
  -- a step that writes `m_ctx` of a fiber that was not suspended
  have hwrite (f : FiberPtr) (ctx : Ctx) (hctx : s.ctx f ≠ .suspended) (hnew : ctx ≠ .suspended) :
      (∀ g, Function.update s.ctx f ctx g ≠ .suspended) ↔ ∀ g, s.ctx g ≠ .suspended := by
    refine forall_congr' fun g => ?_
    rw [Function.update_apply]
    split
    · rename_i heq
      exact iff_of_true hnew (heq ▸ hctx)
    · rfl
  have hleft (f : FiberPtr) (hrun : s.running = some f) : s.ctx f ≠ .suspended := by
    rw [(h.runs f hrun).2.2]
    exact Ctx.noConfusion
  cases a with
  | newFiber =>
      simp only [FiberThread.step] at hstep
      split at hstep
      · obtain rfl := Except.ok.inj (Option.some.inj hstep)
        simp
      · cases hstep
  | swapIn f =>
      simp only [FiberThread.step] at hstep
      split at hstep
      · rename_i hcan
        obtain ⟨-, rfl⟩ := swapIn_ok h hcan.1 (Option.some.inj hstep)
        simp [set]
      · cases hstep
  | reset f =>
      simp only [FiberThread.step] at hstep
      split at hstep
      · rename_i hcan
        have hreset := Option.some.inj hstep
        simp only [FiberThread.reset] at hreset
        split at hreset
        · rename_i hstate
          obtain rfl := Except.ok.inj hreset
          have hctx : s.ctx f ≠ .suspended := by
            intro hctx
            have hsettled := h.settled f (by simp [hcan.1])
            rw [hctx] at hsettled
            rw [show (s.fiber f).state = .exec from hsettled] at hstate
            exact absurd hstate (by decide)
          simpa using hwrite f .start hctx Ctx.noConfusion
        · cases hreset
      · cases hstep
  | yieldToHold =>
      simp only [FiberThread.step] at hstep
      split at hstep
      · rename_i g cur hrun hcur
        have hyield := Option.some.inj hstep
        rw [FiberThread.yieldToHold] at hyield
        split at hyield
        · obtain rfl := Except.ok.inj hyield
          refine iff_of_false (fun hnone => hnone cur ?_) fun hno => hno.2 rfl
          exact Function.update_self _ _ _
        · cases hyield
      · cases hstep
  | returns =>
      obtain ⟨f, hrun, hok⟩ := Option.map_eq_some_iff.mp hstep
      obtain rfl := Except.ok.inj hok
      simpa [FiberThread.swapOut, set] using hwrite f .finished (hleft f hrun) Ctx.noConfusion
  | throws =>
      obtain ⟨f, hrun, hok⟩ := Option.map_eq_some_iff.mp hstep
      obtain rfl := Except.ok.inj hok
      simpa [FiberThread.swapOut, set] using hwrite f .finished (hleft f hrun) Ctx.noConfusion

theorem kept_of_path {mainFiber : Bool} {es : List (FiberThread × FiberAct)}
    (h : Path (proceed step) (fun _ _ => True) { mainFiber } es s) : Kept s :=
  h.invariant (I := fun _ s => Kept s) (kept_new mainFiber) fun _ _ _ _ hkept _ hstep =>
    hkept.step (proceed_eq_some.mp hstep)

/-- In every run, a fiber that has yielded is in `EXEC`, and to resume it fails the
assertion of `swapIn`. -/
theorem suspended_stuck {mainFiber : Bool} {es : List (FiberThread × FiberAct)}
    (h : Path (proceed step) (fun _ _ => True) { mainFiber } es s) (hsuspended : s.Suspended f) :
    (s.fiber f).state = .exec ∧ s.swapIn f = .error (.assertion .notExec) := by
  have hkept := kept_of_path h
  have hexec := hkept.settled f hsuspended.2
  rw [hsuspended.1] at hexec
  exact ⟨hexec, swapIn_suspended hkept hsuspended⟩

/-- **Fibers of a driver.**  A run keeps to the documentation exactly if no fiber yields in
it. -/
theorem documented_iff (mainFiber : Bool) (es : List (FiberThread × FiberAct)) (s : FiberThread)
    (h : Path (proceed step) (fun _ _ => True) { mainFiber } es s) :
    Documented s ↔ ∀ e ∈ es, e.2 ≠ .yieldToHold := by
  rw [(kept_of_path h).documented_iff_none]
  induction h with
  | nil => exact iff_of_true (fun f => Ctx.noConfusion) fun e he => absurd he List.not_mem_nil
  | snoc hpath _ hstep ih =>
      rw [(kept_of_path hpath).step_suspended (proceed_eq_some.mp hstep), ih,
        List.forall_mem_append, List.forall_mem_singleton]

/-- A fiber that runs to its end. -/
theorem documented_returns : ∃ es s,
    Path (proceed step) (fun _ _ => True) { mainFiber := true } es s ∧
      es.map Prod.snd = [.newFiber, .swapIn 0, .returns] ∧ Documented s := by
  have hnew : Path (proceed step) (fun _ _ => True) { mainFiber := true } _ _ :=
    .snoc (a := .newFiber) .nil trivial rfl
  have hin := hnew.snoc (a := .swapIn 0) trivial rfl
  have hrun := hin.snoc (a := .returns) trivial rfl
  exact ⟨_, _, hrun, rfl, (documented_iff true _ _ hrun).mpr (by simp)⟩

/-- A fiber that yields once. -/
theorem documented_yields : ¬ ∀ es s,
    Path (proceed step) (fun _ _ => True) { mainFiber := true } es s → Documented s := by
  intro h
  have hnew : Path (proceed step) (fun _ _ => True) { mainFiber := true } _ _ :=
    .snoc (a := .newFiber) .nil trivial rfl
  have hin := hnew.snoc (a := .swapIn 0) trivial rfl
  have hrun := hin.snoc (a := .yieldToHold) trivial rfl
  have hheld := (h _ _ hrun).held 0 Nat.zero_lt_one ⟨rfl, (Option.some_ne_none 0).symm⟩
  exact absurd hheld (by decide)

end FiberThread

end CoLib
