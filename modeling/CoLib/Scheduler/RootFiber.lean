/-
# `CoLib.Scheduler.RootFiber` — `stop` and the root fiber

With `use_caller`, the default, the thread that constructs a manager is one of its
workers, and `m_rootFiber` is to run `Scheduler::run` there.  `start` leaves that fiber
alone.  `stop` switches into it unless the manager is `stopping` by then, and
`CallerMainFunc` ends it with `back` when `run` has returned; `stop` does not ask whether
that has happened already.

A `RootPool` is a `Pool` with what the threads outside do in `stop`.  Thread 0 has
constructed the manager; with `use_caller` the first worker is its own, and moves only
inside the root fiber.  That fiber is also where a yield of thread 0 goes to, for
`swapOut` takes it for the main fiber.  Tasks do not call `stop`: without `use_caller` an
assertion fails there, and with it `call` saves the task where the thread's own fiber is
saved.

**Proved here.**  `never_past_end`: in runs in which the pool is careful, and once the
root fiber has finished, `stop` finds nothing left and thread 0 does not yield, no
finished fiber is switched into, neither "never reach" is reached, and a fiber kept for
callbacks runs with a callback.  `past_end` has two runs that do not meet this.
-/
import CoLib.Scheduler.Finished
import CoLib.Scheduler.Threads

namespace CoLib

open Lib

/-! ## `stop` -/

/-- Where a thread outside is in `stop`, or in a yield. -/
inductive StopPhase where
  | outside
  /-- In the first branch. -/
  | firstBranch
  /-- In front of `stopping`, in the first branch or behind it. -/
  | asking (first : Bool)
  /-- In `stopping`, `getNextTimer` has returned `~0ull`. -/
  | timed (first : Bool)
  /-- In `stopping`, `m_pendingEventCount` was 0. -/
  | counted (first : Bool)
  /-- In front of the assertion. -/
  | checking
  /-- So many calls of `tickle` are left. -/
  | tickling (n : Nat)
  /-- In front of `m_rootFiber->call()`. -/
  | calling
  /-- Switched into the root fiber, by a yield or by `stop`. -/
  | inRoot (yielded : Bool)
  /-- Switched into the root fiber behind its `back`. -/
  | pastEnd
  /-- In front of the swap of `m_threads`. -/
  | swapping
  /-- Joining what was in `m_threads`, if it still held the threads. -/
  | joining (thrs : Bool)
deriving DecidableEq, Repr

/-- Only thread 0 comes here with `use_caller`. -/
def StopPhase.checked : StopPhase → Bool
  | .asking first | .timed first | .counted first => !first
  | .tickling _ | .calling | .inRoot _ => true
  | _ => false

/-- The root fiber runs. -/
def StopPhase.runs : StopPhase → Bool
  | .inRoot _ => true
  | _ => false

/-- A failed assertion. -/
inductive StopFault where
  /-- `GetThis() == this`. -/
  | getThis
  /-- "never reach", after the `back` of `CallerMainFunc`. -/
  | neverReach
  | pool (e : Assertion)
deriving DecidableEq, Repr

/-- A pool, `m_rootFiber`, and the calls of `stop`. -/
structure RootPool (Cb : Type) where
  pool : Pool Cb
  threadCount : Nat
  /-- The state of `m_rootFiber`, which is null without `use_caller`. -/
  rootFiber : Option FiberState
  /-- `m_threads` holds the threads. -/
  threads : Bool := true
  stop : Nat → StopPhase := fun _ => .outside

inductive RootPoolAct (Cb : Type) where
  /-- A thread outside calls `stop`. -/
  | stop (t : Nat)
  /-- Thread 0 yields outside of the root fiber: `YieldToHold`, or a hooked call. -/
  | yield
  /-- `getNextTimer` at `now`, in the `stopping` of `stop`. -/
  | look (t now : Nat)
  /-- A thread goes on in `stop`. -/
  | next (t : Nat)
  | pool (a : PoolAct Cb)
deriving DecidableEq, Repr

namespace RootPool

variable {Cb : Type}

/-- After the constructor; `rootThread` is the thread that has called it, with
`use_caller`, and `ids` are the threads that `start` has made. -/
def init (rootThread : Option Int) (ids : List Int) (now : Nat) : RootPool Cb :=
  { pool        := .init (rootThread.toList ++ ids) now
    threadCount := ids.length
    rootFiber   := rootThread.map fun _ => .init }

variable (s : RootPool Cb)

def goto (t : Nat) (ph : StopPhase) : RootPool Cb :=
  { s with stop := Function.update s.stop t ph }

def setSched (sched : Scheduler Cb) : RootPool Cb :=
  { s with pool := { s.pool with sched } }

/-- `m_rootFiber` is in `TERM` or `EXCEPT`. -/
def rootFinished : Bool :=
  s.rootFiber.any FiberState.finished

/-- The condition of the first branch. -/
def onlyRoot : Bool :=
  s.threadCount == 0 && s.rootFiber.any fun st => st == .term || st == .init

/-- `run` has returned in the root fiber. -/
def rootLeft : Bool :=
  s.pool.workers.head?.any (·.phase.hasLeft)

/-- The threads that `start` has made have ended. -/
def threadsLeft : Bool :=
  (s.pool.workers.drop s.rootFiber.isSome.toNat).all (·.phase.hasLeft)

/-- `stopping` has answered. -/
def answered (t : Nat) : (first answer : Bool) → RootPool Cb
  | true, true => s.goto t .outside
  | true, false => s.goto t .checking
  | false, true => s.goto t .swapping
  | false, false => s.goto t .calling

/-- The next step of `stop`, or of `CallerMainFunc` behind `run`. -/
def next (t : Nat) : Option (Except StopFault (RootPool Cb)) :=
  match s.stop t with
  | .outside | .asking _ => none
  | .firstBranch =>
      some (.ok ((s.setSched { s.pool.sched with stopping := true }).goto t (.asking true)))
  | .timed first =>
      some (.ok (if s.pool.sched.pendingEventCount = 0 then s.goto t (.counted first)
        else s.answered t first false))
  | .counted first => some (.ok (s.answered t first s.pool.sched.isStopping))
  | .checking =>
      -- outside, only thread 0 has the manager as its `t_scheduler`, with `use_caller`
      if s.rootFiber.isSome && t != 0 then some (.error .getThis)
      else some (.ok ((s.setSched { s.pool.sched with stopping := true }).goto t
        (.tickling (s.threadCount + s.rootFiber.isSome.toNat))))
  | .tickling (n + 1) => some (.ok ((s.setSched s.pool.sched.tickle).goto t (.tickling n)))
  | .tickling 0 =>
      some (.ok (s.goto t (if s.rootFiber.isSome then .asking false else .swapping)))
  | .calling =>
      s.rootFiber.map fun st => .ok ({ s with rootFiber := some .exec }.goto t
        (if st.finished then .pastEnd else .inRoot false))
  | .inRoot yielded =>
      if s.rootLeft then
        some (.ok ({ s with rootFiber := s.rootFiber.map fun _ => .term }.goto t
          (if yielded then .outside else .swapping)))
      else none
  | .pastEnd => some (.error .neverReach)
  | .swapping => some (.ok ({ s with threads := false }.goto t (.joining s.threads)))
  | .joining thrs =>
      if thrs && !s.threadsLeft then none else some (.ok (s.goto t .outside))

/-- The threads can make this step of the pool. -/
def admits (a : PoolAct Cb) : Bool :=
  a.goesOn && match a with
    | .worker 0 _ => s.rootFiber.isNone || (s.stop 0).runs
    | .worker _ _ => true
    | .call t _ | .op t => s.stop t == .outside

/-- One step; `none` when it cannot be made. -/
def step : RootPoolAct Cb → Option (Except StopFault (RootPool Cb))
  | .stop t =>
      if s.stop t = .outside ∧ s.pool.outside t = [] then
        some (.ok ((s.setSched { s.pool.sched with autoStop := true }).goto t
          (if s.onlyRoot then .firstBranch else .checking)))
      else none
  | .yield =>
      -- `swapOut` leaves the state of the fiber that it switches to alone
      if s.stop 0 = .outside ∧ s.pool.outside 0 = [] then
        s.rootFiber.map fun st =>
          .ok (s.goto 0 (if st.finished then .pastEnd else .inRoot true))
      else none
  | .look t now =>
      match s.stop t with
      | .asking first =>
          (s.pool.sched.timers.getNextTimer now).map fun (timers, timeout) =>
            let s := s.setSched { s.pool.sched with timers }
            .ok (if timeout = wordSize - 1 then s.goto t (.timed first)
              else s.answered t first false)
      | _ => none
  | .next t => s.next t
  | .pool a =>
      if s.admits a then
        (s.pool.step a).map fun r =>
          match r with
          | .ok pool => .ok { s with pool }
          | .error e => .error (.pool e)
      else none

/-! ## Runs -/

/-- The read that `stop` makes next, on its way to the root fiber, finds something left. -/
def finds (t now : Nat) : Bool :=
  match s.stop t with
  | .asking false =>
      (s.pool.sched.timers.getNextTimer now).any fun r => r.2 != wordSize - 1
  | .timed false => s.pool.sched.pendingEventCount != 0
  | .counted false => !s.pool.sched.isStopping
  | _ => false

/-- The steps of the pool are careful; when the root fiber has finished, `stop` finds
nothing left, and thread 0 does not yield. -/
def Careful (s : RootPool Cb) : RootPoolAct Cb → Prop
  | .stop _ => True
  | .yield => s.rootFinished = false
  | .look t now => s.rootFinished = true → s.finds t now = false
  | .next t => s.rootFinished = true → s.finds t 0 = false
  | .pool a => s.pool.Careful a

instance (s : RootPool Cb) : (a : RootPoolAct Cb) → Decidable (s.Careful a)
  | .stop _ => .isTrue trivial
  | .yield => inferInstanceAs (Decidable (s.rootFinished = false))
  | .look t now =>
      inferInstanceAs (Decidable (s.rootFinished = true → s.finds t now = false))
  | .next t => inferInstanceAs (Decidable (s.rootFinished = true → s.finds t 0 = false))
  | .pool a => inferInstanceAs (Decidable (s.pool.Careful a))

variable {s} {s' : RootPool Cb} {a : RootPoolAct Cb}

/-- What a step does to the root fiber. -/
inductive Move (s : RootPool Cb) (a : RootPoolAct Cb) : RootPool Cb → Prop
  /-- A thread goes on; it comes to the root fiber when it has found something left, and
  yields into it. -/
  | goOn {t ph sched threads} : s.pool.sched.Grows sched [] [] →
      (ph.checked = true → s.rootFiber.isSome = true → (s.stop t).checked = true ∨ t = 0) →
      (ph = .calling → s.rootFinished = true → ¬ s.Careful a) →
      (ph = .pastEnd → ¬ s.Careful a) →
      Move s a ({ s.setSched sched with threads }.goto t ph)
  | call {t st} : s.stop t = .calling → s.rootFiber = some st →
      Move s a ({ s with rootFiber := some .exec }.goto t
        (if st.finished then .pastEnd else .inRoot false))
  | back {t yielded} : s.stop t = .inRoot yielded →
      Move s a ({ s with rootFiber := s.rootFiber.map fun _ => .term }.goto t
        (if yielded then .outside else .swapping))
  | pool {b pool} : a = .pool b → s.pool.step b = some (.ok pool) → Move s a { s with pool }

/-- A thread goes on away from the root fiber. -/
theorem Move.away {t : Nat} {ph : StopPhase} {sched : Scheduler Cb} {threads : Bool}
    (hg : s.pool.sched.Grows sched [] []) (hph : ph.checked = false) (hpast : ph ≠ .pastEnd) :
    s.Move a ({ s.setSched sched with threads }.goto t ph) := by
  refine .goOn hg (fun hc => absurd (hph.symm.trans hc) (by decide)) ?_ fun h => absurd h hpast
  rintro rfl
  cases hph

/-- `stop` goes on with its answer. -/
theorem Move.answered {t : Nat} {first answer : Bool} {sched : Scheduler Cb}
    (hg : s.pool.sched.Grows sched [] [])
    (hph : first = false → (s.stop t).checked = true)
    (hcall : first = false → answer = false → s.rootFinished = true → ¬ s.Careful a) :
    s.Move a ((s.setSched sched).answered t first answer) := by
  cases first with
  | true =>
      cases answer <;> exact .away hg rfl (by simp)
  | false =>
      cases answer with
      | true => exact .away hg rfl (by simp)
      | false => exact .goOn hg (fun _ _ => .inl (hph rfl)) (fun _ => hcall rfl rfl) (by simp)

theorem next_ok {t : Nat} (h : s.next t = some (.ok s')) : s.Move (.next t) s' := by
  have hsame : s.pool.sched.Grows s.pool.sched [] [] := .quiet rfl rfl rfl
  rw [next] at h
  cases hph : s.stop t with
  | outside | asking | pastEnd =>
      simp only [hph] at h
      cases h
  | firstBranch =>
      simp only [hph] at h
      cases h
      exact .away (.quiet rfl rfl rfl) rfl (by simp)
  | timed first =>
      simp only [hph] at h
      cases h
      split
      · exact .goOn hsame (fun hc _ => .inl (by rwa [hph])) (by simp) (by simp)
      · rename_i hne
        refine Move.answered hsame (fun hf => by rw [hph, hf]; rfl) fun hf _ hfin hcare => ?_
        have hno := hcare hfin
        simp [finds, hph, hf, hne] at hno
  | counted first =>
      simp only [hph] at h
      cases h
      refine Move.answered hsame (fun hf => by rw [hph, hf]; rfl) fun hf ha hfin hcare => ?_
      have hno := hcare hfin
      simp [finds, hph, hf, ha] at hno
  | checking =>
      simp only [hph] at h
      split at h
      · cases h
      · rename_i hcaller
        cases h
        refine .goOn (.quiet rfl rfl rfl) (fun _ hsome => .inr ?_) (by simp) (by simp)
        simpa [hsome] using hcaller
  | tickling n =>
      cases n with
      | zero =>
          simp only [hph] at h
          cases h
          split
          · exact .goOn hsame (fun _ _ => .inl (by rw [hph]; rfl)) (by simp) (by simp)
          · exact .away hsame rfl (by simp)
      | succ n =>
          simp only [hph] at h
          cases h
          exact .goOn (Scheduler.tickle_effect _).toGrows (fun _ _ => .inl (by rw [hph]; rfl))
            (by simp) (by simp)
  | calling =>
      simp only [hph] at h
      obtain ⟨st, hst, heq⟩ := Option.map_eq_some_iff.mp h
      cases heq
      exact .call hph hst
  | inRoot yielded =>
      simp only [hph] at h
      split at h
      · cases h
        exact .back hph
      · cases h
  | swapping =>
      simp only [hph] at h
      cases h
      exact .away hsame rfl (by simp)
  | joining thrs =>
      simp only [hph] at h
      split at h
      · cases h
      · cases h
        exact .away hsame rfl (by simp)

theorem step_move (h : proceed step s a = some s') : s.Move a s' := by
  rw [proceed_eq_some] at h
  cases a with
  | stop t =>
      simp only [step] at h
      split at h
      · cases h
        refine .away (.quiet rfl rfl rfl) ?_ ?_ <;> split <;> simp [StopPhase.checked]
      · cases h
  | yield =>
      simp only [step] at h
      split at h
      · obtain ⟨st, hst, heq⟩ := Option.map_eq_some_iff.mp h
        cases heq
        refine .goOn (.quiet rfl rfl rfl) (fun _ _ => .inr rfl) ?_ ?_
        · split <;> simp
        · split
          · rename_i hfin
            exact fun _ hcare => by simp [Careful, rootFinished, hst, hfin] at hcare
          · simp
      · cases h
  | look t now =>
      simp only [step] at h
      split at h
      · rename_i first hph
        obtain ⟨⟨timers, timeout⟩, hget, heq⟩ := Option.map_eq_some_iff.mp h
        cases heq
        have hg : s.pool.sched.Grows { s.pool.sched with timers } [] [] := .quiet rfl rfl rfl
        dsimp only
        split
        · exact .goOn hg (fun hc _ => .inl (by rwa [hph])) (by simp) (by simp)
        · rename_i hne
          refine Move.answered hg (fun hf => by rw [hph, hf]; rfl) fun hf _ hfin hcare => ?_
          have hno := hcare hfin
          simp [finds, hph, hf, hget, hne] at hno
      · cases h
  | next t => exact next_ok h
  | pool b =>
      simp only [step] at h
      split at h
      · obtain ⟨r, hr, heq⟩ := Option.map_eq_some_iff.mp h
        cases r with
        | ok pool =>
            cases heq
            exact .pool rfl hr
        | error e => cases heq
      · cases h

/-- What fails. -/
theorem step_error {e : StopFault} (h : s.step a = some (.error e)) :
    (∃ t, s.stop t = .pastEnd ∧ e = .neverReach) ∨ e = .getThis ∨
      ∃ b x, s.pool.step b = some (.error x) ∧ e = .pool x := by
  cases a with
  | stop t =>
      simp only [step] at h
      split at h <;> cases h
  | yield =>
      simp only [step] at h
      split at h
      · obtain ⟨st, -, heq⟩ := Option.map_eq_some_iff.mp h
        cases heq
      · cases h
  | look t now =>
      simp only [step] at h
      split at h
      · obtain ⟨r, -, heq⟩ := Option.map_eq_some_iff.mp h
        cases heq
      · cases h
  | next t =>
      simp only [step, next] at h
      cases hph : s.stop t with
      | pastEnd =>
          simp only [hph] at h
          cases h
          exact .inl ⟨t, hph, rfl⟩
      | checking =>
          simp only [hph] at h
          split at h
          · cases h
            exact .inr (.inl rfl)
          · cases h
      | tickling n => cases n <;> (simp only [hph] at h; cases h)
      | calling =>
          simp only [hph] at h
          obtain ⟨st, -, heq⟩ := Option.map_eq_some_iff.mp h
          cases heq
      | inRoot | joining =>
          simp only [hph] at h
          split at h <;> cases h
      | _ =>
          simp only [hph] at h
          cases h
  | pool b =>
      simp only [step] at h
      split at h
      · obtain ⟨r, hr, heq⟩ := Option.map_eq_some_iff.mp h
        cases r with
        | ok pool => cases heq
        | error x =>
            cases heq
            exact .inr (.inr ⟨b, x, hr, rfl⟩)
      · cases h

/-- The pool is live; only thread 0 comes to the root fiber, and before it has finished. -/
structure Live (s : RootPool Cb) : Prop where
  pool : s.pool.Live
  caller : s.rootFiber.isSome = true → ∀ t, (s.stop t).checked = true → t = 0
  calling : ∀ t, s.stop t = .calling → s.rootFinished = false
  pastEnd : ∀ t, s.stop t ≠ .pastEnd

theorem live_init (rootThread : Option Int) (ids : List Int) (now : Nat) :
    (init rootThread ids now : RootPool Cb).Live where
  pool    := Pool.live_init _ now
  caller  := fun _ _ h => by cases h
  calling := fun _ h => by cases h
  pastEnd := fun _ h => by cases h

/-- What holds of the new phase, and held of all phases. -/
theorem forall_goto (P : Nat → StopPhase → Prop) {t : Nat} {ph : StopPhase} (ht : P t ph)
    (h : ∀ u, P u (s.stop u)) (u : Nat) : P u ((s.goto t ph).stop u) := by
  show P u (Function.update s.stop t ph u)
  by_cases hut : u = t
  · subst hut
    rwa [Function.update_self]
  · rw [Function.update_of_ne hut]
    exact h u

/-- A careful step keeps it live. -/
theorem Live.step (h : s.Live) (hstep : proceed step s a = some s') (hcare : s.Careful a) :
    s'.Live := by
  cases step_move hstep with
  | @goOn t ph sched threads hg hcheck hcall hpast =>
      refine ⟨h.pool.grows hg, fun hsome => ?_, ?_, ?_⟩
      · refine forall_goto (fun u ph => ph.checked = true → u = 0) (fun hc => ?_) (h.caller hsome)
        exact (hcheck hc hsome).elim (h.caller hsome t) id
      · refine forall_goto (fun _ ph => ph = .calling → _) (fun hph => ?_) h.calling
        exact Bool.eq_false_of_not_eq_true fun hfin => hcall hph hfin hcare
      · exact forall_goto (fun _ ph => ph ≠ .pastEnd) (fun hph => hpast hph hcare) h.pastEnd
  | @call t st hph hst =>
      have hsome : s.rootFiber.isSome = true := by rw [hst]; rfl
      have hfin : st.finished = false := by
        have hno := h.calling t hph
        rwa [rootFinished, hst] at hno
      rw [hfin]
      refine ⟨h.pool, fun _ => ?_, fun _ _ => rfl, ?_⟩
      · refine forall_goto (fun u ph => ph.checked = true → u = 0) (fun _ => ?_) (h.caller hsome)
        exact h.caller hsome t (by rw [hph]; rfl)
      · exact forall_goto (fun _ ph => ph ≠ .pastEnd) (by simp) h.pastEnd
  | @back t yielded hph =>
      refine ⟨h.pool, fun hsome => ?_, ?_, ?_⟩
      · have hsome : s.rootFiber.isSome = true := by simpa [goto] using hsome
        refine forall_goto (fun u ph => ph.checked = true → u = 0) ?_ (h.caller hsome)
        cases yielded <;> simp [StopPhase.checked]
      · refine forall_goto (fun _ ph => ph = .calling → _) ?_ fun u hu => ?_
        · cases yielded <;> simp
        cases hroot : s.rootFiber with
        | none => rfl
        | some st =>
            -- thread 0 is behind the fiber, and no other thread comes to it
            have hsome : s.rootFiber.isSome = true := by rw [hroot]; rfl
            obtain rfl := h.caller hsome t (by rw [hph]; rfl)
            obtain rfl := h.caller hsome u (by rw [hu]; rfl)
            rw [hph] at hu
            cases hu
      · exact forall_goto (fun _ ph => ph ≠ .pastEnd) (by cases yielded <;> simp) h.pastEnd
  | pool hb hpool =>
      subst hb
      exact ⟨h.pool.step (Pool.step_ok (proceed_eq_some.mpr hpool)) hcare, h.caller, h.calling,
        h.pastEnd⟩

/-- No finished fiber is switched into, the root fiber included, neither "never reach" is
reached, and a fiber kept for callbacks runs with a callback. -/
theorem never_past_end (rootThread : Option Int) (ids : List Int) (now : Nat) (s : RootPool Cb)
    (h : Reach (proceed step) Careful (init rootThread ids now) s) :
    (∀ i w b f, s.pool.At i w → w.phase = .holding b f →
      (s.pool.sched.state f).finished = false) ∧
    (∀ t, s.stop t = .calling → ∀ st ∈ s.rootFiber, st.finished = false) ∧
    (∀ a s' i w w', proceed step s a = some s' → s.pool.At i w → s'.pool.At i w' →
      w.idle.finished = true → w'.idle ≠ .exec) ∧
    (∀ a e, s.step a = some (.error e) → e ≠ .neverReach ∧ e ≠ .pool .neverReach) ∧
    ∀ i j w v b f ops, s.pool.At i w → w.cbFiber = some f → s.pool.At j v →
      v.phase = .inside b f ops → (s.pool.sched.fiber f).cb = true := by
  have hs : s.Live := h.invariant (live_init rootThread ids now)
    fun s a s' hs hcare hstep => hs.step hstep hcare
  refine ⟨fun i w b f hw hph => hs.pool.holding hw hph, fun t ht st hst => ?_,
    fun a s' i w w' hstep hw hw' hfin => ?_, fun a e herr => ?_,
    fun i j w v b f ops hw hk hv hph => hs.pool.cb hw hk hv hph⟩
  · have hno := hs.calling t ht
    rwa [rootFinished, Option.mem_def.mp hst] at hno
  · cases step_move hstep with
    | pool _ hpool =>
        exact hs.pool.idle_finished (Pool.step_ok (proceed_eq_some.mpr hpool)) hw hw' hfin
    | goOn | call | back =>
        obtain rfl := hw.unique hw'
        rintro hexec
        rw [hexec] at hfin
        cases hfin
  · rcases step_error herr with ⟨t, ht, -⟩ | rfl | ⟨b, x, hb, rfl⟩
    · exact absurd ht (hs.pastEnd t)
    · exact ⟨by simp, by simp⟩
    · refine ⟨by simp, fun heq => ?_⟩
      cases heq
      exact hs.pool.neverReach hb

/-- A manager of one thread, its constructor's; a callback is scheduled, and `stop` runs
it. -/
def stopped : List (RootPoolAct Unit) :=
  [.pool (.call 0 (.schedule (.cb (some ())) (-1))), .pool (.op 0), .stop 0, .next 0, .look 0 5,
    .next 0, .next 0, .next 0, .next 0, .next 0, .look 0 5, .next 0, .next 0, .next 0,
    .pool (.worker 0 .next), .pool (.worker 0 .next), .pool (.worker 0 .next),
    .pool (.worker 0 (.finish true)), .pool (.worker 0 .next), .pool (.worker 0 .next),
    .pool (.worker 0 .next), .pool (.worker 0 .next), .pool (.worker 0 .next),
    .pool (.worker 0 (.look 5)), .pool (.worker 0 .next), .pool (.worker 0 .next),
    .pool (.worker 0 .next), .pool (.worker 0 .next), .pool (.worker 0 .next),
    .next 0, .next 0, .next 0]

/-- The second `stop` finds nothing left, and returns. -/
theorem never_past_end_stopped : ∃ s : RootPool Unit, s.rootFiber = some .term ∧
    ∀ a e, s.step a = some (.error e) → e ≠ .neverReach ∧ e ≠ .pool .neverReach := by
  have hrun : ((run (guarded (proceed step) Careful) (init (some 10) [] 5)
      (stopped ++ [.stop 0, .next 0, .look 0 5, .next 0, .next 0])).map
        fun s : RootPool Unit => (s.rootFiber, s.stop 0)) = some (some .term, .outside) := by
    decide +kernel
  obtain ⟨s, hs, heq⟩ := Option.map_eq_some_iff.mp hrun
  exact ⟨s, congrArg Prod.fst heq,
    (never_past_end (some 10) [] 5 s (run_reach _ hs)).2.2.2.1⟩

/-- A fiber that is scheduled twice, and returns. -/
def scheduledTwice : List (PoolAct Unit) :=
  [.call 0 (.newFiber true), .call 0 (.schedule (.fiber (some 0)) (-1)), .op 0,
    .call 0 (.schedule (.fiber (some 0)) (-1)), .worker 0 .next, .worker 0 .next,
    .worker 0 .next, .worker 0 (.finish true), .worker 0 .next, .worker 0 .next, .worker 0 .next,
    .worker 0 .next, .worker 0 .next, .worker 0 .next]

/-- The second entry is switched into behind the last `swapOut`; and a second `stop` with a
callback left switches into the root fiber behind its `back`. -/
theorem past_end :
    (∃ s : RootPool Unit, Reach (proceed step) (fun _ _ => True) (init none [10] 5) s ∧
      s.step (.pool (.worker 0 .next)) = some (.error (.pool .neverReach))) ∧
    ∃ s : RootPool Unit, Reach (proceed step) (fun _ _ => True) (init (some 10) [] 5) s ∧
      s.step (.next 0) = some (.error .neverReach) := by
  have hqueued : ((run (guarded (proceed step) fun _ _ => True) (init none [10] 5)
      (scheduledTwice.map .pool)).bind
        fun s : RootPool Unit => failure step s (.pool (.worker 0 .next))) =
      some (.pool .neverReach) := by decide
  have hroot : ((run (guarded (proceed step) fun _ _ => True) (init (some 10) [] 5)
      (stopped ++ [.pool (.call 0 (.schedule (.cb (some ())) (-1))), .pool (.op 0), .stop 0,
        .next 0, .look 0 5, .next 0, .next 0, .next 0, .next 0, .next 0, .look 0 5, .next 0,
        .next 0, .next 0])).bind
        fun s : RootPool Unit => failure step s (.next 0)) = some .neverReach := by decide +kernel
  obtain ⟨s, hs, hfail⟩ := Option.bind_eq_some_iff.mp hqueued
  obtain ⟨s', hs', hfail'⟩ := Option.bind_eq_some_iff.mp hroot
  exact ⟨⟨s, run_reach _ hs, failure_eq_some.mp hfail⟩,
    ⟨s', run_reach _ hs', failure_eq_some.mp hfail'⟩⟩

end RootPool

end CoLib
