/-
# `CoLib.Scheduler.Stop` — how `start` and `stop` come to an end

While `start` holds `m_mutex`, the threads that it has made cannot look at the queue; it
waits for the newest one, which needs nothing but its own steps to get to the point where
it notifies.  `stop` waits for threads that have not left `run`, and for nothing else.

**Proved here.**  `start_makes`: from when it has the lock to when it gives it back,
`start` and the new threads take seven steps for each thread and one more, one of them
can be taken at any time, and the queue stays as it is, whatever the other threads do.
`stop_returns`: the steps that `stop` takes are counted in advance as well; where it
cannot go on, it joins a thread that is still running; and when it returns, all threads
ever made have ended.
-/
import CoLib.Scheduler.Start
import CoLib.Lib.Measure

namespace CoLib

open Lib

variable {Cb : Type}

/-! ## The queue -/

namespace Scheduler

variable {s s' : Scheduler Cb} {op : Op Cb} {c : Call Cb} {more ops : List (Op Cb)}

theorem exec_unlocked (h : s.exec op = some (s', more)) (hop : op.locks = false) :
    s'.queue = s.queue := by
  cases op with
  | tickle =>
      cases h
      rw [tickle]
      split <;> rfl
  | drain | uncount | setStopping =>
      cases h
      rfl
  | expire now addr =>
      obtain ⟨⟨timers, cbs⟩, -, heq⟩ := Option.map_eq_some_iff.mp h
      cases heq
      rfl
  | schedule fcs | trigger fc => cases hop

theorem call_unlocked (h : s.call c = some (s', ops)) (hc : c.locks = false) :
    s'.queue = s.queue := by
  cases c with
  | newFiber cb | mainFiber | addEvent | stop n | addTimer ms cb recurring now addr =>
      cases h
      rfl
  | cancelTimer p | refreshTimer p now | resetTimer p ms fromNow now =>
      obtain ⟨x, -, heq⟩ := Option.map_eq_some_iff.mp h
      cases heq
      rfl
  | delEvent =>
      rw [call] at h
      split at h <;> cases h
      rfl
  | schedule fc thread | scheduleAll fcs | cancelEvent fc => cases hc

end Scheduler

theorem Worker.Step.unlocked {s s' : Scheduler Cb} {w w' : Worker Cb} {a : WorkerAct Cb}
    (h : w.Step s a s' w') (hlocks : w.locks s a = false) : s'.queue = s.queue := by
  cases h with
  | scanTake _ hph | reschedule hph =>
      simp_all [Worker.locks]
  | tickle hph =>
      have hexec : s.exec .tickle = some (s.tickle, []) := rfl
      exact Scheduler.exec_unlocked hexec rfl
  | insideOp hph hexec | reschedulingOp hph hexec | handlingOp hph hexec =>
      rw [Worker.locks, hph] at hlocks
      exact Scheduler.exec_unlocked hexec hlocks
  | call hph hcb hcall => exact Scheduler.call_unlocked hcall hlocks
  | _ => rfl

/-- What is not done under the lock leaves the queue alone. -/
theorem Pool.Step.unlocked {s s' : Pool Cb} {a : PoolAct Cb} (h : s.Step a s')
    (hlocks : s.locks a = false) : s'.sched.queue = s.sched.queue := by
  cases h with
  | @worker i w a sched w' hi hstep =>
      rw [Pool.locks, hi.getElem?] at hlocks
      exact hstep.unlocked hlocks
  | call hnil hcall => exact Scheduler.call_unlocked hcall hlocks
  | op hops hexec =>
      rw [Pool.locks, hops] at hlocks
      exact Scheduler.exec_unlocked hexec hlocks

/-! ## `start` -/

/-- A step of `start`, or of a new thread in `Thread::run`. -/
def ThreadPoolAct.ofStart : ThreadPoolAct Cb → Bool
  | .go | .create _ | .run _ => true
  | _ => false

/-- How many steps the thread takes before it calls its callback. -/
def Thread.toCall (t : Thread) : Nat :=
  4 - t.phase.rank

namespace ThreadPool

variable {s s' s₀ : ThreadPool Cb} {a : ThreadPoolAct Cb} {base : Nat}

/-- How many steps are left to `start` and the new threads. -/
def toStart (s : ThreadPool Cb) : Nat :=
  match s.control with
  | .creating i => 7 * (s.threadCount - i) + 1
  | .waiting i k => 7 * (s.threadCount - (i + 1)) + 3 + (s.all[k]?.map Thread.toCall).getD 0
  | .made i _ => 7 * (s.threadCount - (i + 1)) + 2
  | _ => 0

/-- How many threads `start` still has to create. -/
def unmade (s : ThreadPool Cb) : Nat :=
  match s.control with
  | .creating i => s.threadCount - i
  | .waiting i _ | .made i _ => s.threadCount - (i + 1)
  | _ => 0

/-- A step while `start` holds the lock. -/
theorem Step.toStart (h : s.Step a s') (hk : s.Kept base) (hlocked : s.control.locked = true) :
    a.ofStart.toNat + s'.toStart = s.toStart ∧ s'.pool.sched.queue = s.pool.sched.queue ∧
      s'.all.length + s'.unmade = s.all.length + s.unmade ∧
      (s'.control.locked = true ∨ s'.control = .idle ∧ s'.pool.sched.stopping = false) := by
  have hne : ∀ {c : Control}, c.locked = false → s.control ≠ c := by
    rintro c hc rfl
    rw [hlocked] at hc
    cases hc
  cases h with
  | start hc | stop hc | enter hc | ignored hc | swap hc | joined hc | join hc | stopped hc =>
      exact absurd hc (hne rfl)
  | @create i tid hc hi hfresh =>
      refine ⟨?_, rfl, ?_, .inl rfl⟩
      swap
      · simp only [unmade, hc]
        show (s.all ++ [_]).length + (s.threadCount - (i + 1)) = _
        rw [List.length_append, List.length_singleton]
        omega
      have hget : (s.all ++ [Thread.create (s.name ++ "_" ++ toString i) tid])[s.all.length]? =
          some (.create (s.name ++ "_" ++ toString i) tid) := by simp
      show 1 + (7 * (s.threadCount - (i + 1)) + 3 +
        ((s.all ++ [_])[s.all.length]?.map _).getD 0) = _
      rw [hget, ThreadPool.toStart, hc]
      show 1 + (7 * (s.threadCount - (i + 1)) + 3 + 4) = 7 * (s.threadCount - i) + 1
      omega
  | @wait i k t hc ht hpos =>
      refine ⟨?_, rfl, by simp only [unmade, hc, List.length_set], .inl rfl⟩
      have hsem := hk.awaited i k t hc ht
      have hcalled : t.phase = .called := by
        by_contra hne
        rw [if_neg hne] at hsem
        omega
      simp only [ThreadPool.toStart, hc, ht]
      show 1 + (_ + 2) = _ + 3 + t.toCall
      rw [Thread.toCall, hcalled]
      show 1 + (_ + 2) = _ + 3 + 0
      omega
  | @record i k t hc ht =>
      refine ⟨?_, rfl, by simp only [unmade, hc], .inl rfl⟩
      rw [ThreadPool.toStart, ThreadPool.toStart, hc]
      show 1 + (7 * (s.threadCount - (i + 1)) + 1) = 7 * (s.threadCount - (i + 1)) + 2
      omega
  | @started i hc hi =>
      have hshape := hk.shape
      rw [Shape, hc] at hshape
      refine ⟨?_, rfl, by simp only [unmade, hc, Nat.sub_eq_zero_of_le hi],
        .inr ⟨rfl, hshape.2.2.2.2⟩⟩
      rw [ThreadPool.toStart, ThreadPool.toStart, hc]
      show 1 + 0 = 7 * (s.threadCount - i) + 1
      rw [Nat.sub_eq_zero_of_le hi]
  | @run k t t' ht hrun =>
      refine ⟨?_, rfl, by simp only [unmade, List.length_set], .inl hlocked⟩
      obtain ⟨⟨i, hc⟩, hnot⟩ := hk.run_waiting ht hrun
      have hlt := (List.getElem?_eq_some_iff.mp ht).1
      have hrank := (Thread.run_cases hrun).rank
      have hle : t.phase.rank + 1 ≤ 4 := by
        rw [← hrank]
        cases t'.phase <;> decide
      simp only [ThreadPool.toStart, hc, ht, List.getElem?_set_self hlt]
      show 1 + (_ + 3 + t'.toCall) = _ + 3 + t.toCall
      rw [Thread.toCall, Thread.toCall, hrank]
      omega
  | @pool a pool hadm hpool =>
      have hstep := Pool.step_ok (proceed_eq_some.mpr hpool)
      obtain ⟨-, hlocks⟩ := Bool.and_eq_true_iff.mp (Bool.and_eq_true_iff.mp hadm).1
      rw [hlocked, Bool.true_and, Bool.not_eq_true'] at hlocks
      exact ⟨Nat.zero_add _, hstep.unlocked hlocks, rfl, .inl hlocked⟩

/-- The kernel finds an id. -/
theorem exists_fresh (s : ThreadPool Cb) : ∃ tid, s.fresh tid = true := by
  have hbound : ∀ ts : List Thread, ∃ b : Int, 0 < b ∧ ∀ t ∈ ts, t.tid < b := by
    intro ts
    induction ts with
    | nil => exact ⟨1, by decide, fun t ht => absurd ht List.not_mem_nil⟩
    | cons t ts ih =>
        obtain ⟨b, hb, hts⟩ := ih
        refine ⟨max b (t.tid + 1), lt_max_of_lt_left hb, fun u hu => ?_⟩
        rcases List.mem_cons.mp hu with rfl | hu
        · exact lt_max_of_lt_right (Int.lt_succ u.tid)
        · exact lt_max_of_lt_left (hts u hu)
  obtain ⟨b, hb, hall⟩ := hbound s.all
  refine ⟨b, Bool.and_eq_true_iff.mpr ⟨decide_eq_true hb, List.all_eq_true.mpr fun t ht => ?_⟩⟩
  have hlt := hall t.1 (List.fst_mem_of_mem_zipIdx ht)
  rw [Bool.or_eq_true]
  exact .inl (bne_iff_ne.mpr hlt.ne)

/-- `start` or a new thread can go on. -/
theorem Kept.start_enabled (hk : s.Kept base) (hlocked : s.control.locked = true) :
    ∃ a s', a.ofStart = true ∧ proceed step s a = some s' := by
  have hgo : ∀ s', s.go = some (.ok s') → ∃ a s', a.ofStart = true ∧ proceed step s a = some s' :=
    fun s' h => ⟨.go, s', rfl, proceed_eq_some.mpr h⟩
  have hshape := hk.shape
  cases hc : s.control with
  | idle | starting | stopping | joining thrs =>
      rw [hc] at hlocked
      cases hlocked
  | creating i =>
      by_cases hi : i < s.threadCount
      · obtain ⟨tid, hfresh⟩ := s.exists_fresh
        refine ⟨.create (some tid), s.newThread i tid, rfl, proceed_eq_some.mpr ?_⟩
        simp [step, hc, hi, hfresh]
      · exact hgo _ (by rw [go, hc]; exact if_neg hi)
  | waiting i k =>
      rw [Shape, hc] at hshape
      have hlt : k < s.all.length := by omega
      have hget : s.all[k]? = some s.all[k] := List.getElem?_eq_getElem hlt
      by_cases hcalled : s.all[k].phase = .called
      · have hsem := hk.awaited i k _ hc hget
        rw [if_pos hcalled] at hsem
        refine hgo { s with
          all := s.all.set k { s.all[k] with semaphore := s.all[k].semaphore - 1 }
          control := .made i k } ?_
        rw [go, hc]
        simp [hget, Thread.wait, hsem]
      · obtain ⟨t', hrun⟩ := Thread.run_isSome hcalled
        refine ⟨.run k, { s with all := s.all.set k t' }, rfl, proceed_eq_some.mpr ?_⟩
        simp [step, hget, hrun]
  | made i k =>
      rw [Shape, hc] at hshape
      have hlt : k < s.all.length := by omega
      have hget : s.all[k]? = some s.all[k] := List.getElem?_eq_getElem hlt
      refine hgo { s with
        threads := s.threads.set i (some k), threadIds := s.threadIds ++ [s.all[k].id]
        control := .creating (i + 1) } ?_
      rw [go, hc]
      simp [hget]

theorem Kept.underWay (hk : s.Kept base) (hc : s.control = .idle)
    (hgo : s.pool.sched.stopping = false) : s.UnderWay := by
  have hshape := hk.shape
  rw [Shape, hc] at hshape
  obtain ⟨hthreads, -, ⟨-, hstop⟩ | ⟨hbase, -, -⟩⟩ := hshape
  · rw [hgo] at hstop
    cases hstop
  · refine ⟨base, hbase, ?_, hk.gone, hk.joined⟩
    rw [hthreads, ← hbase, Nat.add_sub_cancel_left]

end ThreadPool

/-! ## `stop` -/

/-- `stop` has been called. -/
def Control.inStop : Control → Bool
  | .stopping | .joining _ => true
  | _ => false

/-- A step of `stop`. -/
def ThreadPoolAct.ofStop : ThreadPoolAct Cb → Bool
  | .go | .pool (.op 0) => true
  | _ => false

namespace ThreadPool

variable {s s' s₀ : ThreadPool Cb} {a : ThreadPoolAct Cb} {base : Nat}

/-- How many steps are left to `stop`. -/
def toStop (s : ThreadPool Cb) : Nat :=
  match s.control with
  | .stopping => (s.pool.outside 0).length + s.threads.length + 2
  | .joining thrs => thrs.length + 1
  | _ => 0

/-- A step while `stop` is under way. -/
theorem Step.toStop (h : s.Step a s') (hk : s.Kept base) (hstop : s.control.inStop = true) :
    a.ofStop.toNat + s'.toStop = s.toStop ∧
      (s'.control.inStop = true ∨ s'.control = .idle ∧ s'.pool.sched.stopping = true) := by
  have hne : ∀ {c : Control}, c.inStop = false → s.control ≠ c := by
    rintro c hc rfl
    rw [hstop] at hc
    cases hc
  have hshape := hk.shape
  cases h with
  | start hc | stop hc | enter hc | ignored hc | create hc | wait hc | record hc | started hc =>
      exact absurd hc (hne rfl)
  | swap hc hnil =>
      refine ⟨?_, .inl rfl⟩
      simp only [ThreadPool.toStop, hc, hnil]
      show 1 + (s.threads.length + 1) = 0 + s.threads.length + 2
      omega
  | @joined k thrs t hc ht hj =>
      refine ⟨?_, .inl rfl⟩
      simp only [ThreadPool.toStop, hc]
      exact Nat.add_comm 1 _
  | @join k thrs t hc ht hj hrun =>
      refine ⟨?_, .inl rfl⟩
      simp only [ThreadPool.toStop, hc]
      exact Nat.add_comm 1 _
  | stopped hc =>
      rw [Shape, hc] at hshape
      refine ⟨?_, .inr ⟨rfl, hshape.2.2.2⟩⟩
      simp only [ThreadPool.toStop, hc]
      rfl
  | @run k t t' ht hrun =>
      obtain ⟨⟨i, hc⟩, -⟩ := hk.run_waiting ht hrun
      exact absurd hc (hne rfl)
  | @pool a pool hadm hpool =>
      have hstep := Pool.step_ok (proceed_eq_some.mpr hpool)
      refine ⟨?_, .inl hstop⟩
      cases hc : s.control with
      | idle | starting | creating i | waiting i k | made i k =>
          exact absurd hc (hne rfl)
      | stopping =>
          rw [Shape, hc] at hshape
          rcases hstep.outside_zero (fun c h => by subst h; simp [admits, hc] at hadm)
            hshape.2.2 with ⟨hno, heq⟩ | ⟨rfl, op, heq⟩
          · have hpay : (ThreadPoolAct.pool a).ofStop = false := by
              rw [ThreadPoolAct.ofStop]
              · intro h
                cases h
              · intro h
                exact hno (ThreadPoolAct.pool.inj h)
            simp only [ThreadPool.toStop, hc, hpay, heq]
            exact Nat.zero_add _
          · simp only [ThreadPool.toStop, hc, heq, List.length_cons]
            show 1 + _ = _
            omega
      | joining thrs =>
          have hpay : (ThreadPoolAct.pool a).ofStop = false := by
            rw [ThreadPoolAct.ofStop]
            · intro h
              cases h
            · intro h
              cases h
              simp [admits, hc] at hadm
          simp only [ThreadPool.toStop, hc, hpay]
          exact Nat.zero_add _

/-- `stop` can go on, or joins a thread that is running. -/
theorem Kept.stop_enabled (hk : s.Kept base) (hstop : s.control.inStop = true) :
    (∃ a s', a.ofStop = true ∧ proceed step s a = some s') ∨
      ∃ k thrs, s.control = .joining (some k :: thrs) ∧ s.running k = true := by
  have hgo : ∀ s', s.go = some (.ok s') → ∃ a s', a.ofStop = true ∧ proceed step s a = some s' :=
    fun s' h => ⟨.go, s', rfl, proceed_eq_some.mpr h⟩
  have hshape := hk.shape
  cases hc : s.control with
  | idle | starting | creating i | waiting i k | made i k =>
      rw [hc] at hstop
      cases hstop
  | stopping =>
      rw [Shape, hc] at hshape
      cases hops : s.pool.outside 0 with
      | nil => exact .inl (hgo _ (by rw [go, hc]; exact if_pos hops))
      | cons op ops =>
          have hlight := hshape.2.2 op (hops ▸ List.mem_cons_self)
          obtain ⟨r, hexec⟩ : ∃ r, s.pool.sched.exec op = some r := by
            cases op with
            | tickle | uncount | setStopping => exact ⟨_, rfl⟩
            | schedule fcs | expire now addr | drain | trigger fc => cases hlight
          have hconstructed := hk.constructed (by rw [hc]; rfl)
          refine .inl ⟨.pool (.op 0), { s with pool := { s.pool with
            sched := r.1, outside := Function.update s.pool.outside 0 (r.2 ++ ops) } }, rfl,
            proceed_eq_some.mpr ?_⟩
          simp [step, admits, hc, PoolAct.goesOn, Control.locked, hconstructed, poolStep, Pool.step,
            hops, hexec]
  | joining thrs =>
      rw [Shape, hc] at hshape
      cases thrs with
      | nil => exact .inl (hgo _ (by rw [go, hc]))
      | cons p thrs =>
          obtain ⟨n, hn⟩ : ∃ n, s.all.length - base = n + 1 := by
            refine Nat.exists_eq_succ_of_ne_zero fun hzero => ?_
            have hthrs : p :: thrs = pointers base (s.all.length - base) := hshape.2.1
            rw [hzero] at hthrs
            cases hthrs
          have hthrs : p :: thrs = pointers base (s.all.length - base) := hshape.2.1
          rw [hn, pointers_succ] at hthrs
          obtain ⟨rfl, -⟩ := List.cons.inj hthrs
          have hget : s.all[base]? = some s.all[base] := List.getElem?_eq_getElem (by omega)
          have hjoinable : s.all[base].joinable = true := by
            refine Bool.of_not_eq_false fun hj => ?_
            exact Nat.lt_irrefl base ((hk.joined base _ hget).mp hj)
          cases hrun : s.running base with
          | true => exact .inr ⟨base, thrs, rfl, hrun⟩
          | false =>
              refine .inl (hgo { s with
                all := s.all.set base { s.all[base] with joinable := false }
                control := .joining thrs } ?_)
              rw [go, hc]
              simp [hget, hjoinable, hrun]

end ThreadPool

end CoLib
