/-
# `CoLib.Scheduler.Launch` — the pool behind `start`

`Pool.init` has its workers from the beginning, with their ids.  A manager makes them one
by one, and learns their ids from the kernel as it goes.  The difference cannot be seen: a
worker that has not been made yet is one that has not taken a step.

**Proved here.**  `pool_of_threads`: as long as no second `start` takes effect, the pool of
a manager is reached from `Pool.init` with the ids in `m_threadIds`, by just the steps
that its threads and those outside have made in it.
-/
import CoLib.Scheduler.Start

namespace CoLib

open Lib

variable {Cb : Type}

/-! ## Workers that have not been made -/

namespace Pool

variable {s s' : Pool Cb} {a : PoolAct Cb}

/-- The pool with workers at the end that have not taken a step. -/
def awaiting (s : Pool Cb) (ids : List Int) : Pool Cb :=
  { s with workers := s.workers ++ ids.map fun id => { id } }

theorem awaiting_nil (s : Pool Cb) : s.awaiting [] = s := by
  rw [awaiting, List.map_nil, List.append_nil]

/-- The workers that there are do not see the others. -/
theorem step_awaiting (h : proceed step s a = some s') (ids : List Int) :
    proceed step (s.awaiting ids) a = some (s'.awaiting ids) := by
  rw [proceed_eq_some] at h ⊢
  cases a with
  | worker i wa =>
      obtain ⟨w, hw, h⟩ := Option.bind_eq_some_iff.mp h
      obtain ⟨r, hr, heq⟩ := Option.map_eq_some_iff.mp h
      obtain ⟨⟨sched, w'⟩, rfl, rfl⟩ := map_ok heq
      have hlt := (List.getElem?_eq_some_iff.mp hw).1
      have hget : (s.awaiting ids).workers[i]? = some w :=
        (List.getElem?_append_left hlt).trans hw
      show ((s.awaiting ids).workers[i]?).bind _ = _
      rw [hget]
      show (w.step s.sched wa).map _ = _
      rw [hr]
      refine congrArg (fun ws => some (Except.ok { s with sched, workers := ws })) ?_
      exact List.set_append_left _ _ hlt
  | call t c =>
      simp only [step] at h ⊢
      split at h
      · rename_i hnil
        obtain ⟨⟨sched, ops⟩, hcall, heq⟩ := Option.map_eq_some_iff.mp h
        cases heq
        have hnil' : (s.awaiting ids).outside t = [] := hnil
        rw [if_pos hnil']
        show (s.sched.call c).map _ = _
        rw [hcall]
        rfl
      · cases h
  | op t =>
      simp only [step] at h ⊢
      split at h
      · rename_i op ops hops
        obtain ⟨⟨sched, more⟩, hexec, heq⟩ := Option.map_eq_some_iff.mp h
        cases heq
        have hops' : (s.awaiting ids).outside t = op :: ops := hops
        rw [hops']
        show (s.sched.exec op).map _ = _
        rw [hexec]
        rfl
      · cases h

end Pool

/-! ## The first start -/

/-- The step that the pool makes. -/
def ThreadPoolAct.ofPool (n : Nat) : ThreadPoolAct Cb → Option (PoolAct Cb)
  | .pool a => some a
  | .stop => some (.call 0 (.stop n))
  | _ => none

namespace ThreadPool

variable {s s' : ThreadPool Cb} {a : ThreadPoolAct Cb} {name : String} {n now : Nat}

/-- No `start` takes effect after the first. -/
def StartsOnce (s : ThreadPool Cb) (a : ThreadPoolAct Cb) : Prop :=
  a = .go → s.control = .starting → s.constructed = true → s.pool.sched.stopping = false

instance (s : ThreadPool Cb) (a : ThreadPoolAct Cb) : Decidable (StartsOnce s a) :=
  match a with
  | .go => decidable_of_iff
      (s.control = .starting → s.constructed = true → s.pool.sched.stopping = false)
      ⟨fun h _ => h, fun h => h rfl⟩
  | .start | .stop | .create _ | .run _ | .pool _ => .isTrue fun h => by cases h

/-- The pool is that of `Pool.init`, whatever workers are still to come. -/
structure Launched (n now : Nat) (es : List (ThreadPool Cb × ThreadPoolAct Cb))
    (s : ThreadPool Cb) : Prop where
  path : ∀ ids, ∃ es', Path (proceed Pool.step) (fun _ _ => True)
    (Pool.init (s.all.map (·.tid) ++ ids) now) es' (s.pool.awaiting ids) ∧
    es'.map Prod.snd = (es.map Prod.snd).filterMap (ThreadPoolAct.ofPool n)
  first : s.control.inStart = true → s.control = .starting ∨ s.constructed = false
  again : s.control = .starting → s.constructed = true
  count : s.threadCount = n

/-- A step in which the pool does nothing. -/
theorem Launched.still {es : List (ThreadPool Cb × ThreadPoolAct Cb)} (h : Launched n now es s)
    (ha : a.ofPool n = none) (hall : s'.all.map (·.tid) = s.all.map (·.tid))
    (hpool : s'.pool = s.pool)
    (hfirst : s'.control.inStart = true → s'.control = .starting ∨ s'.constructed = false)
    (hagain : s'.control = .starting → s'.constructed = true)
    (hcount : s'.threadCount = s.threadCount) : Launched n now (es ++ [(s, a)]) s' where
  path  := fun ids => by
    obtain ⟨es', hpath, hes⟩ := h.path ids
    refine ⟨es', by rwa [hall, hpool], hes.trans ?_⟩
    rw [List.map_append, List.filterMap_append]
    simp [ha]
  first := hfirst
  again := hagain
  count := hcount.trans h.count

/-- A step of the pool. -/
theorem Launched.moves {es : List (ThreadPool Cb × ThreadPoolAct Cb)} {pool : Pool Cb}
    {b : PoolAct Cb} (h : Launched n now es s) (ha : a.ofPool n = some b)
    (hstep : proceed Pool.step s.pool b = some pool) (hall : s'.all = s.all)
    (hpool : s'.pool = pool)
    (hfirst : s'.control.inStart = true → s'.control = .starting ∨ s'.constructed = false)
    (hagain : s'.control = .starting → s'.constructed = true)
    (hcount : s'.threadCount = s.threadCount) : Launched n now (es ++ [(s, a)]) s' where
  path  := fun ids => by
    obtain ⟨es', hpath, hes⟩ := h.path ids
    refine ⟨es' ++ [(s.pool.awaiting ids, b)], ?_, ?_⟩
    · rw [hall, hpool]
      exact .snoc hpath trivial (Pool.step_awaiting hstep ids)
    · rw [List.map_append, List.map_append, List.filterMap_append, hes]
      simp [ha]
  first := hfirst
  again := hagain
  count := hcount.trans h.count

/-- The pool of a new manager. -/
theorem launched_enter : Launched n now [(init name n now, .go)]
    { (init name n now : ThreadPool Cb).setStopping false with
      threads := List.replicate n none, control := .creating 0 } where
  path  := fun ids => ⟨[], .nil, rfl⟩
  first := fun _ => .inr rfl
  again := fun h => by cases h
  count := rfl

/-- Nobody but the constructor has the manager. -/
theorem Step.from_init (h : (init name n now : ThreadPool Cb).Step a s') :
    a = .go ∧ s' = { (init name n now : ThreadPool Cb).setStopping false with
      threads := List.replicate n none, control := .creating 0 } := by
  cases h with
  | enter => exact ⟨rfl, rfl⟩
  | run ht => cases ht
  | @pool a pool hadm =>
      have hadm := (Bool.and_eq_true_iff.mp hadm).2
      cases a <;> cases hadm
  | start hc | stop hc | create hc | wait hc | record hc | started hc | swap hc | joined hc
  | join hc | stopped hc => cases hc
  | ignored _ hstop => cases hstop

theorem Launched.step {es : List (ThreadPool Cb × ThreadPoolAct Cb)} {base : Nat}
    (h : Launched n now es s) (hk : s.Kept base) (honce : s.StartsOnce a) (hs : s.Step a s') :
    Launched n now (es ++ [(s, a)]) s' := by
  cases hs with
  | start hc =>
      exact h.still rfl rfl rfl (fun _ => .inl rfl)
        (fun _ => hk.constructed (by rw [hc]; rfl)) rfl
  | @stop pool hc hpool =>
      refine h.moves (b := .call 0 (.stop s.threadCount)) ?_ (proceed_eq_some.mpr hpool) rfl rfl
        (fun h => by cases h) (fun h => by cases h) rfl
      rw [h.count]
      rfl
  | enter hc hstop =>
      rw [honce rfl hc (h.again hc)] at hstop
      cases hstop
  | ignored hc hgo =>
      exact h.still rfl rfl rfl (fun h => by cases h) (fun h => by cases h) rfl
  | @create i tid hc hi hfresh =>
      have hfirst := (h.first (by rw [hc]; rfl)).resolve_left (by rw [hc]; intro h; cases h)
      refine ⟨fun ids => ?_, fun _ => .inr hfirst, fun h => (by cases h), h.count⟩
      obtain ⟨es', hpath, hes⟩ := h.path (tid :: ids)
      refine ⟨es', ?_, hes.trans (by simp [ThreadPoolAct.ofPool])⟩
      have hids : (s.newThread i tid).all.map (·.tid) ++ ids =
          s.all.map (·.tid) ++ tid :: ids := by
        simp [newThread, Thread.create]
      have hpool : (s.newThread i tid).pool.awaiting ids = s.pool.awaiting (tid :: ids) := by
        simp [newThread, Pool.awaiting]
      rw [hids, hpool]
      exact hpath
  | @wait i k t hc ht hpos =>
      have hfirst := (h.first (by rw [hc]; rfl)).resolve_left (by rw [hc]; intro h; cases h)
      exact h.still rfl (map_set_same ht rfl) rfl (fun _ => .inr hfirst) (fun h => by cases h) rfl
  | @record i k t hc ht =>
      have hfirst := (h.first (by rw [hc]; rfl)).resolve_left (by rw [hc]; intro h; cases h)
      exact h.still rfl rfl rfl (fun _ => .inr hfirst) (fun h => by cases h) rfl
  | started hc =>
      exact h.still rfl rfl rfl (fun h => by cases h) (fun h => by cases h) rfl
  | swap hc =>
      exact h.still rfl rfl rfl (fun h => by cases h) (fun h => by cases h) rfl
  | joined hc =>
      exact h.still rfl rfl rfl (fun h => by cases h) (fun h => by cases h) rfl
  | join hc ht =>
      exact h.still rfl (map_set_same ht rfl) rfl (fun h => by cases h) (fun h => by cases h) rfl
  | stopped hc =>
      exact h.still rfl rfl rfl (fun h => by cases h) (fun h => by cases h) rfl
  | run ht hrun =>
      exact h.still rfl (map_set_same ht (Thread.run_cases hrun).tid) rfl h.first h.again rfl
  | pool hadm hpool =>
      exact h.moves rfl (proceed_eq_some.mpr hpool) rfl rfl h.first h.again rfl

/-- Once the manager has been constructed, its pool is what the steps made in it lead to from
`Pool.init` with the ids in `m_threadIds`. -/
theorem pool_of_threads {es : List (ThreadPool Cb × ThreadPoolAct Cb)}
    (h : Path (proceed step) StartsOnce (init name n now) es s) (hc : s.constructed = true) :
    ∃ es', Path (proceed Pool.step) (fun _ _ => True) (Pool.init s.threadIds now) es' s.pool ∧
      es'.map Prod.snd = (es.map Prod.snd).filterMap (ThreadPoolAct.ofPool n) := by
  have hall : (es = [] ∧ s = init name n now) ∨ (∃ base, s.Kept base) ∧ Launched n now es s := by
    refine h.invariant (I := fun es s => (es = [] ∧ s = init name n now) ∨
      (∃ base, s.Kept base) ∧ Launched n now es s) (.inl ⟨rfl, rfl⟩) ?_
    rintro es s a s' (⟨rfl, rfl⟩ | ⟨⟨base, hk⟩, hl⟩) honce hs
    · obtain ⟨rfl, rfl⟩ := (step_ok hs).from_init
      exact .inr ⟨(step_ok hs).kept (init_kept name n now), launched_enter⟩
    · exact .inr ⟨(step_ok hs).kept hk, hl.step hk honce (step_ok hs)⟩
  rcases hall with ⟨-, rfl⟩ | ⟨⟨base, hk⟩, hl⟩
  · cases hc
  · have hids : s.threadIds = s.all.map (·.tid) := by
      have hpending : s.control.pending = none := by
        cases hs : s.control with
        | waiting i k | made i k =>
            rcases hl.first (by rw [hs]; rfl) with hstart | hno
            · rw [hs] at hstart
              cases hstart
            · rw [hc] at hno
              cases hno
        | _ => rfl
      rw [hk.recorded, hpending]
      exact List.take_of_length_le (by simp)
    obtain ⟨es', hpath, hes⟩ := hl.path []
    rw [List.append_nil, Pool.awaiting_nil, ← hids] at hpath
    exact ⟨es', hpath, hes⟩

/-- A callback from outside, and the call of `stop`. -/
theorem pool_of_threads_schedule : ∃ (s : ThreadPool Unit) (es : List (Pool Unit × PoolAct Unit)),
    s.control = .stopping ∧
    Path (proceed Pool.step) (fun _ _ => True) (Pool.init s.threadIds 5) es s.pool ∧
    es.map Prod.snd = [.call 3 (.schedule (.cb (some ())) (-1)), .op 3, .call 0 (.stop 1)] := by
  have hrun : ((run (guarded (proceed step) StartsOnce) (init "io" 1 5) schedule).filter
      fun s : ThreadPool Unit => s.control = .stopping ∧ s.constructed = true).isSome = true := by
    decide
  obtain ⟨s, hs⟩ := Option.isSome_iff_exists.mp hrun
  obtain ⟨hs, hat⟩ := Option.filter_eq_some_iff.mp hs
  obtain ⟨hc, hconstructed⟩ := of_decide_eq_true hat
  obtain ⟨es, hpath, hes⟩ := run_path schedule hs
  obtain ⟨es', hpath', hes'⟩ := pool_of_threads hpath hconstructed
  refine ⟨s, es', hc, hpath', hes'.trans ?_⟩
  rw [hes]
  rfl

end ThreadPool

end CoLib
