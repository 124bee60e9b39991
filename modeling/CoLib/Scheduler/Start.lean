/-
# `CoLib.Scheduler.Start` — what holds when `start` has returned

`Kept` says where every thread is while the owner is at some point of `start` or `stop`:
a thread whose constructor has returned has stored its id, given up its callback and
called it; the threads of earlier starts have left `run` and have been joined; what
`m_threads` and `m_threadIds` hold follows from how many threads have been made.

**Proved here.**  `start_returned`: whenever the owner is in no call, `m_threadIds` lists
the ids of all threads made so far, which are those of the workers, and `m_threads` either
lists the threads of the last start, or is empty, and then no thread is running.  Nothing
but `pthread_create` and the pool can fail: `m_threads` is empty where `start` asserts it,
and holds no null pointer where `stop` joins.
-/
import CoLib.Scheduler.Threads
import CoLib.Scheduler.Quiet

namespace CoLib

open Lib

variable {Cb : Type}

/-- What is at a position after one has been set. -/
theorem getElem?_set_cases {α : Type*} {xs : List α} {j k : Nat} {y z : α}
    (h : (xs.set k y)[j]? = some z) : (j = k ∧ z = y) ∨ (j ≠ k ∧ xs[j]? = some z) := by
  rw [List.getElem?_set] at h
  split at h
  · rename_i hkj
    split at h
    · exact .inl ⟨hkj.symm, (Option.some.inj h).symm⟩
    · cases h
  · rename_i hkj
    exact .inr ⟨fun hjk => hkj hjk.symm, h⟩

theorem map_set_same {α β : Type*} {f : α → β} {xs : List α} {k : Nat} {x y : α}
    (h : xs[k]? = some x) (hf : f y = f x) : (xs.set k y).map f = xs.map f := by
  obtain ⟨hlt, rfl⟩ := List.getElem?_eq_some_iff.mp h
  have hget : (xs.map f).get ⟨k, by rwa [List.length_map]⟩ = f xs[k] := List.getElem_map ..
  rw [List.map_set, hf, ← hget]
  exact List.set_getElem_self ..

/-! ## One thread -/

/-- How many steps of `Thread::run` have been taken. -/
def RunPhase.rank : RunPhase → Nat
  | .created => 0
  | .named => 1
  | .identified => 2
  | .swapped => 3
  | .called => 4

namespace Thread

variable {t t' : Thread}

/-- The members are as the phase says. -/
structure Fits (t : Thread) : Prop where
  positive : 0 < t.tid
  name : t.threadName = if 1 ≤ t.phase.rank then t.name else "UNKNOW"
  id : t.id = if 2 ≤ t.phase.rank then t.tid else -1
  cb : t.cb = decide (t.phase.rank < 3)

theorem fits_create (name : String) {tid : Int} (h : 0 < tid) : (create name tid).Fits :=
  ⟨h, rfl, rfl, rfl⟩

/-- What a step of `Thread::run` changes. -/
structure Ran (t t' : Thread) : Prop where
  tid : t'.tid = t.tid
  joinable : t'.joinable = t.joinable
  rank : t'.phase.rank = t.phase.rank + 1
  semaphore : t'.semaphore = t.semaphore + if t'.phase = .called then 1 else 0
  fits : t.Fits → t'.Fits

theorem run_cases (h : t.run = some t') : t.Ran t' := by
  rw [run] at h
  cases hph : t.phase with
  | created | named | identified | swapped =>
      simp only [hph] at h
      obtain rfl := Option.some.inj h
      refine ⟨rfl, rfl, by rw [hph]; rfl, rfl, fun hfits => ?_⟩
      obtain ⟨hpos, hname, hid, hcb⟩ := hfits
      rw [hph] at hname hid hcb
      exact ⟨hpos, by first | rfl | exact hname, by first | rfl | exact hid,
        by first | rfl | exact hcb⟩
  | called =>
      simp only [hph] at h
      cases h

theorem run_isSome (h : t.phase ≠ .called) : ∃ t', t.run = some t' := by
  rw [run]
  cases hph : t.phase with
  | created | named | identified | swapped => exact ⟨_, rfl⟩
  | called => exact absurd hph h

end Thread

/-! ## `m_stopping` -/

/-- The operations of a phase. -/
def Phase.todo : Phase Cb → List (Op Cb)
  | .inside _ _ ops | .rescheduling ops | .handling ops => ops
  | _ => []

namespace Scheduler

variable {s s' : Scheduler Cb} {op : Op Cb} {c : Call Cb} {more ops : List (Op Cb)}

theorem setStopping_not_mem_owed (b : Bool) : .setStopping ∉ (owed b : List (Op Cb)) := by
  cases b <;> simp [owed]

theorem exec_calm (h : s.exec op = some (s', more)) : .setStopping ∉ more := by
  cases op with
  | tickle | drain | uncount | setStopping =>
      cases h
      exact List.not_mem_nil
  | schedule fcs =>
      rw [exec] at h
      split at h <;> cases h
      exact setStopping_not_mem_owed _
  | expire now addr =>
      obtain ⟨⟨timers, cbs⟩, -, heq⟩ := Option.map_eq_some_iff.mp h
      cases heq
      split <;> simp
  | trigger fc =>
      rw [exec] at h
      split at h <;> cases h
      intro hmem
      rcases List.mem_append.mp hmem with hmem | hmem
      · exact setStopping_not_mem_owed _ hmem
      · simp at hmem

theorem call_calm (h : s.call c = some (s', ops)) (hc : ∀ n, c ≠ .stop n) :
    .setStopping ∉ ops := by
  cases c with
  | schedule fc thread =>
      rw [call] at h
      split at h <;> cases h
      exact setStopping_not_mem_owed _
  | scheduleAll fcs =>
      have h : s.exec (.schedule fcs) = some (s', ops) := h
      exact exec_calm h
  | newFiber cb | mainFiber | addEvent =>
      cases h
      exact List.not_mem_nil
  | addTimer ms cb recurring now addr =>
      cases h
      exact setStopping_not_mem_owed _
  | cancelTimer p | refreshTimer p now =>
      obtain ⟨x, -, heq⟩ := Option.map_eq_some_iff.mp h
      cases heq
      exact List.not_mem_nil
  | resetTimer p ms fromNow now =>
      obtain ⟨x, -, heq⟩ := Option.map_eq_some_iff.mp h
      cases heq
      exact setStopping_not_mem_owed _
  | delEvent =>
      rw [call] at h
      split at h <;> cases h
      exact List.not_mem_nil
  | cancelEvent fc =>
      have h : s.exec (.trigger fc) = some (s', ops) := h
      exact exec_calm h
  | stop n => exact absurd rfl (hc n)

/-- The flag is left alone by what is not `setStopping`. -/
theorem exec_stopping (h : s.exec op = some (s', more)) (hop : op ≠ .setStopping) :
    s'.stopping = s.stopping := by
  obtain ⟨-, -, hkeep, hset⟩ := exec_settles h
  exact Bool.eq_iff_iff.mpr ⟨fun hs => (hset hs).resolve_right hop, hkeep⟩

/-- Who goes on with what holds no `setStopping`. -/
theorem exec_cons (h : s.exec op = some (s', more)) (hno : .setStopping ∉ op :: ops) :
    .setStopping ∉ more ++ ops ∧ s'.stopping = s.stopping := by
  refine ⟨fun hmem => ?_, exec_stopping h fun heq => hno (heq ▸ List.mem_cons_self)⟩
  rcases List.mem_append.mp hmem with hmem | hmem
  · exact exec_calm h hmem
  · exact hno (List.mem_cons_of_mem _ hmem)

end Scheduler

namespace Worker

variable {s s' : Scheduler Cb} {w w' : Worker Cb} {a : WorkerAct Cb}

theorem Step.id_eq (h : w.Step s a s' w') : w'.id = w.id := by
  cases h with
  | @reschedule b | @held b => cases b <;> rfl
  | _ => rfl

theorem Step.ne_left (h : w.Step s a s' w') : w.phase ≠ .left := by
  intro hleft
  cases h with
  | idleThrow hidle =>
      rw [inIdle, hleft] at hidle
      cases hidle
  | _ => simp_all

/-- Who has no `setStopping` to do gets none, and leaves the flag alone. -/
theorem Step.calm (h : w.Step s a s' w') (hcalm : .setStopping ∉ w.phase.todo)
    (ha : ∀ n, a ≠ .call (.stop n)) :
    .setStopping ∉ w'.phase.todo ∧ s'.stopping = s.stopping := by
  cases h with
  | insideOp hph hexec | reschedulingOp hph hexec | handlingOp hph hexec =>
      rw [hph] at hcalm
      exact Scheduler.exec_cons hexec hcalm
  | tickle hph =>
      have hexec : s.exec .tickle = some (s.tickle, []) := rfl
      exact ⟨List.not_mem_nil, Scheduler.exec_stopping hexec (by simp)⟩
  | call hph hcb hcall =>
      exact ⟨Scheduler.call_calm hcall fun n hc => ha n (hc ▸ rfl),
        (Scheduler.call_settles hcall).2.2.2⟩
  | reschedule hph hready => exact ⟨Scheduler.setStopping_not_mem_owed _, rfl⟩
  | wake hph =>
      refine ⟨fun hmem => ?_, rfl⟩
      rcases List.mem_cons.mp hmem with heq | hmem
      · cases heq
      · obtain ⟨r, -, heq⟩ := List.mem_map.mp hmem
        cases r <;> cases heq
  | skip hph =>
      rw [hph] at hcalm
      exact ⟨fun hmem => hcalm (List.mem_cons_of_mem _ hmem), rfl⟩
  | @swapIn b f hph hne =>
      refine ⟨?_, rfl⟩
      simp only [goto]
      split <;> exact List.not_mem_nil
  | count hph =>
      refine ⟨?_, rfl⟩
      simp only [goto]
      split <;> exact List.not_mem_nil
  | look hph hget =>
      refine ⟨?_, rfl⟩
      simp only [goto]
      split <;> exact List.not_mem_nil
  | idleIn hph =>
      refine ⟨?_, rfl⟩
      show Op.setStopping ∉ Phase.todo (if w.idle.finished then .idlePastEnd else .looking)
      split <;> exact List.not_mem_nil
  | _ => exact ⟨List.not_mem_nil, rfl⟩

end Worker

namespace Pool

variable {s s' : Pool Cb} {a : PoolAct Cb}

/-- Only the thread 0 outside may be about to set `m_stopping`. -/
structure Calm (s : Pool Cb) : Prop where
  worker : ∀ i w, s.At i w → .setStopping ∉ w.phase.todo
  outside : ∀ t, t ≠ 0 → .setStopping ∉ s.outside t

theorem mem_update {out : Nat → List (Op Cb)} {t u : Nat} {op : Op Cb} {ops : List (Op Cb)} :
    op ∈ Function.update out t ops u ↔ (u = t ∧ op ∈ ops) ∨ (u ≠ t ∧ op ∈ out u) := by
  by_cases hut : u = t
  · subst hut
    simp
  · simp [hut]

/-- `m_stopping` is set, or about to be. -/
def WillStop (s : Pool Cb) : Prop :=
  s.sched.stopping = true ∨ .setStopping ∈ s.outside 0

theorem Step.calm (h : s.Step a s') (hgo : a.goesOn = true) (hcalm : s.Calm) :
    s'.Calm ∧ (s.WillStop → s'.WillStop) ∧
      (.setStopping ∉ s.outside 0 →
        .setStopping ∉ s'.outside 0 ∧ s'.sched.stopping = s.sched.stopping) := by
  cases h with
  | @worker i w a sched w' hi hstep =>
      obtain ⟨hno, hstop⟩ := hstep.calm (hcalm.worker i w hi) (by rintro n rfl; cases hgo)
      refine ⟨⟨fun j v hj => ?_, hcalm.outside⟩, Or.imp_left hstop.trans, fun h0 => ⟨h0, hstop⟩⟩
      rcases at_setWorker hi hj with ⟨-, rfl⟩ | ⟨-, hj⟩
      · exact hno
      · exact hcalm.worker j v hj
  | @call t c sched ops hnil hcall =>
      have hno : .setStopping ∉ ops := Scheduler.call_calm hcall (by rintro n rfl; cases hgo)
      have hstop := (Scheduler.call_settles hcall).2.2.2
      have hout : ∀ u, .setStopping ∉ s.outside u →
          .setStopping ∉ Function.update s.outside t ops u := by
        intro u hu hmem
        rcases mem_update.mp hmem with ⟨-, hmem⟩ | ⟨-, hmem⟩
        · exact hno hmem
        · exact hu hmem
      refine ⟨⟨hcalm.worker, fun u hu => hout u (hcalm.outside u hu)⟩,
        Or.imp hstop.trans fun hmem => mem_update.mpr (.inr ⟨?_, hmem⟩),
        fun h0 => ⟨hout 0 h0, hstop⟩⟩
      rintro rfl
      rw [hnil] at hmem
      cases hmem
  | @op t op ops sched more hops hexec =>
      by_cases ht : t = 0
      · subst ht
        refine ⟨⟨hcalm.worker, fun u hu hmem => ?_⟩, fun hwill => ?_, fun h0 => ?_⟩
        · rcases mem_update.mp hmem with ⟨rfl, -⟩ | ⟨-, hmem⟩
          · exact hu rfl
          · exact hcalm.outside u hu hmem
        · rcases hwill with hs | hmem
          · exact .inl ((Scheduler.exec_settles hexec).2.2.1 hs)
          · rw [hops] at hmem
            rcases List.mem_cons.mp hmem with rfl | hmem
            · cases hexec
              exact .inl rfl
            · right
              show .setStopping ∈ Function.update s.outside 0 (more ++ ops) 0
              exact mem_update.mpr (.inl ⟨rfl, List.mem_append_right more hmem⟩)
        · rw [hops] at h0
          obtain ⟨hno, hstop⟩ := Scheduler.exec_cons hexec h0
          refine ⟨fun (hmem : _ ∈ Function.update s.outside 0 (more ++ ops) 0) => ?_, hstop⟩
          rcases mem_update.mp hmem with ⟨-, hmem⟩ | ⟨hne, -⟩
          · exact hno hmem
          · exact hne rfl
      · have hno := hcalm.outside t ht
        rw [hops] at hno
        obtain ⟨hno, hstop⟩ := Scheduler.exec_cons hexec hno
        have hout : ∀ u, .setStopping ∉ s.outside u →
            .setStopping ∉ Function.update s.outside t (more ++ ops) u := by
          intro u hu hmem
          rcases mem_update.mp hmem with ⟨-, hmem⟩ | ⟨-, hmem⟩
          · exact hno hmem
          · exact hu hmem
        exact ⟨⟨hcalm.worker, fun u hu => hout u (hcalm.outside u hu)⟩,
          Or.imp hstop.trans fun hmem => mem_update.mpr (.inr ⟨Ne.symm ht, hmem⟩),
          fun h0 => ⟨hout 0 h0, hstop⟩⟩

/-- What becomes of the operations of the thread 0 outside. -/
theorem Step.outside_zero (h : s.Step a s') (ha : ∀ c, a ≠ .call 0 c)
    (hlight : ∀ op ∈ s.outside 0, op.light = true) :
    (a ≠ .op 0 ∧ s'.outside 0 = s.outside 0) ∨
      (a = .op 0 ∧ ∃ op, s.outside 0 = op :: s'.outside 0) := by
  cases h with
  | worker => exact .inl ⟨by simp, rfl⟩
  | @call t c sched ops hnil hcall =>
      have ht : 0 ≠ t := by
        rintro rfl
        exact ha c rfl
      exact .inl ⟨by simp, Function.update_of_ne ht ..⟩
  | @op t op ops sched more hops hexec =>
      by_cases ht : t = 0
      · subst ht
        obtain ⟨rfl, -⟩ := Scheduler.exec_light (hlight op (hops ▸ List.mem_cons_self)) hexec
        refine .inr ⟨rfl, op, hops.trans ?_⟩
        show op :: ops = op :: Function.update s.outside 0 ([] ++ ops) 0
        rw [Function.update_self, List.nil_append]
      · refine .inl ⟨fun h => ht (PoolAct.op.inj h), ?_⟩
        exact Function.update_of_ne (Ne.symm ht) ..

/-- The ids of the workers stay, and who has left has left. -/
theorem Step.workers (h : s.Step a s') :
    s'.workers.map (·.id) = s.workers.map (·.id) ∧
      ∀ k w, s.At k w → w.phase = .left → s'.At k w := by
  cases h with
  | @worker i w a sched w' hi hstep =>
      constructor
      · show (s.workers.set i w').map (·.id) = s.workers.map (·.id)
        exact map_set_same hi.getElem? hstep.id_eq
      · intro k v hk hleft
        refine at_setWorker_ne (fun hki => ?_) hk
        subst hki
        obtain rfl := hk.unique hi
        exact hstep.ne_left hleft
  | call | op => exact ⟨rfl, fun k w hk _ => hk⟩

end Pool

/-! ## Pointers to threads -/

/-- Pointers to `n` threads from `base` on. -/
def pointers (base n : Nat) : List (Option Nat) :=
  (List.range' base n).map some

/-- `m_threads` when `i` of `n` threads have been made, the first of them `base`. -/
def slots (n base i : Nat) : List (Option Nat) :=
  pointers base i ++ List.replicate (n - i) none

theorem pointers_succ (base n : Nat) :
    pointers base (n + 1) = some base :: pointers (base + 1) n := by
  rw [pointers, List.range'_succ, List.map_cons, pointers]

theorem eq_pointers_cons {base n k : Nat} {ps : List (Option Nat)}
    (h : some k :: ps = pointers base n) :
    k = base ∧ ∃ m, n = m + 1 ∧ ps = pointers (base + 1) m := by
  cases n with
  | zero => cases h
  | succ m =>
      rw [pointers_succ] at h
      obtain ⟨hk, hps⟩ := List.cons.inj h
      exact ⟨Option.some.inj hk, m, rfl, hps⟩

theorem slots_set {n base i : Nat} (h : i < n) :
    (slots n base i).set i (some (base + i)) = slots n base (i + 1) := by
  have hlen : (pointers base i).length = i := by simp [pointers]
  obtain ⟨m, hm⟩ : ∃ m, n - i = m + 1 := ⟨n - i - 1, by omega⟩
  have hm' : n - (i + 1) = m := by omega
  rw [slots, slots, hm, hm', List.replicate_succ, List.set_append_right _ _ hlen.le, hlen,
    Nat.sub_self, List.set_cons_zero, pointers, pointers, List.range'_1_concat, List.map_append,
    List.append_assoc]
  rfl

theorem slots_self (n base : Nat) : slots n base n = pointers base n := by
  rw [slots, Nat.sub_self, List.replicate_zero, List.append_nil]

/-! ## What is kept -/

/-- The thread that `start` is making. -/
def Control.pending : Control → Option Nat
  | .waiting _ k | .made _ k => some k
  | _ => none

/-- `start` has been called. -/
def Control.inStart : Control → Bool
  | .starting | .creating _ | .waiting _ _ | .made _ _ => true
  | _ => false

namespace ThreadPool

variable {s s' : ThreadPool Cb} {a : ThreadPoolAct Cb} {base : Nat}

theorem running_eq_false {k : Nat} :
    s.running k = false ↔ ∀ w, s.pool.At k w → w.phase = .left := by
  rw [running, Option.any_eq_false]
  refine forall₂_congr fun w _ => ?_
  cases w.phase <;> simp [Phase.hasLeft]

/-- What the owner's place says about `m_threads`, `m_stopping` and the threads from `base`
on, which are those of the last start. -/
def Shape (s : ThreadPool Cb) (base : Nat) : Prop :=
  match s.control with
  | .idle | .starting =>
      s.threads = pointers base (s.all.length - base) ∧ .setStopping ∉ s.pool.outside 0 ∧
        ((base = s.all.length ∧ s.pool.sched.stopping = true) ∨
          (base + s.threadCount = s.all.length ∧ s.pool.sched.stopping = false ∧
            s.constructed = true))
  | .creating i =>
      i ≤ s.threadCount ∧ base + i = s.all.length ∧ s.threads = slots s.threadCount base i ∧
        .setStopping ∉ s.pool.outside 0 ∧ s.pool.sched.stopping = false
  | .waiting i k | .made i k =>
      i < s.threadCount ∧ base + i = k ∧ k + 1 = s.all.length ∧
        s.threads = slots s.threadCount base i ∧ .setStopping ∉ s.pool.outside 0 ∧
          s.pool.sched.stopping = false
  | .stopping =>
      s.threads = pointers base (s.all.length - base) ∧ s.pool.WillStop ∧
        ∀ op ∈ s.pool.outside 0, op.light = true
  | .joining thrs =>
      s.threads = [] ∧ thrs = pointers base (s.all.length - base) ∧
        .setStopping ∉ s.pool.outside 0 ∧ s.pool.sched.stopping = true

/-- The threads in front of `base` have ended and been joined; the constructor of every
thread has returned, but for the one that is being made. -/
structure Kept (s : ThreadPool Cb) (base : Nat) : Prop where
  ids : s.pool.workers.map (·.id) = s.all.map (·.tid)
  fits : ∀ t ∈ s.all, t.Fits
  ready : ∀ k t, s.all[k]? = some t → (∀ i, s.control ≠ .waiting i k) →
    t.phase = .called ∧ t.semaphore = 0
  awaited : ∀ i k t, s.control = .waiting i k → s.all[k]? = some t →
    t.semaphore = if t.phase = .called then 1 else 0
  calm : s.pool.Calm
  distinct : ∀ j k t u, s.all[j]? = some t → s.all[k]? = some u → s.running j = true →
    s.running k = true → t.tid = u.tid → j = k
  le : base ≤ s.all.length
  gone : ∀ k < base, s.running k = false
  joined : ∀ k t, s.all[k]? = some t → (t.joinable = false ↔ k < base)
  recorded : s.threadIds = (s.all.map (·.tid)).take (s.control.pending.getD s.all.length)
  constructed : s.control.inStart = false → s.constructed = true
  shape : s.Shape base

theorem init_kept (name : String) (n now : Nat) : (init name n now : ThreadPool Cb).Kept 0 where
  ids         := rfl
  fits        := fun t ht => by cases ht
  ready       := fun k t ht => by cases ht
  awaited     := fun i k t hc => by cases hc
  calm        := ⟨fun i w hw => absurd hw (by simp [Pool.At, init, Pool.init]),
    fun t _ => List.not_mem_nil⟩
  distinct    := fun j k t u ht => by cases ht
  le          := Nat.le_refl 0
  gone        := fun k hk => absurd hk (Nat.not_lt_zero k)
  joined      := fun k t ht => by cases ht
  recorded    := rfl
  constructed := fun h => by cases h
  shape       := ⟨rfl, List.not_mem_nil, .inl ⟨rfl, rfl⟩⟩

/-- The owner goes on without touching a thread. -/
theorem Kept.goto (hk : s.Kept base) (hall : s'.all = s.all)
    (hworkers : s'.pool.workers = s.pool.workers)
    (houtside : ∀ t, t ≠ 0 → s'.pool.outside t = s.pool.outside t)
    (hids : s'.threadIds = s.threadIds) (hold : s.control.pending = none)
    (hnew : s'.control.pending = none)
    (hconstructed : s'.control.inStart = false → s'.constructed = true)
    (hshape : s'.Shape base) : s'.Kept base where
  ids         := by rw [hworkers, hall, hk.ids]
  fits        := hall ▸ hk.fits
  ready       := fun k t ht _ => hk.ready k t (hall ▸ ht) fun i hi => by
    rw [hi] at hold
    cases hold
  awaited     := fun i k t hc => by
    rw [hc] at hnew
    cases hnew
  calm        := ⟨fun i w hw => hk.calm.worker i w (hworkers ▸ hw : s.pool.workers[i]? = some w),
    fun t ht => (houtside t ht).symm ▸ hk.calm.outside t ht⟩
  distinct    := by
    simp only [running, hall, hworkers]
    exact hk.distinct
  le          := hall ▸ hk.le
  gone        := by
    simp only [running, hworkers]
    exact hk.gone
  joined      := hall ▸ hk.joined
  recorded    := by
    rw [hids, hall, hnew, hk.recorded, hold]
  constructed := hconstructed
  shape       := hshape

/-- The pool makes a step. -/
theorem Kept.pool {pool : Pool Cb} (hk : s.Kept base) (hcalm : pool.Calm)
    (hids : pool.workers.map (·.id) = s.pool.workers.map (·.id))
    (hleft : ∀ k w, s.pool.At k w → w.phase = .left → pool.At k w)
    (hshape : { s with pool }.Shape base) : { s with pool }.Kept base := by
  have hstays : ∀ k, s.running k = false → { s with pool }.running k = false := by
    intro k hrun
    rw [running_eq_false] at hrun ⊢
    intro w hw
    have hlt : k < s.pool.workers.length := by
      have hlen := congrArg List.length hids
      rw [List.length_map, List.length_map] at hlen
      exact hlen ▸ (List.getElem?_eq_some_iff.mp hw).1
    have hat : s.pool.At k s.pool.workers[k] := List.getElem?_eq_getElem hlt
    have hw' := hleft k _ hat (hrun _ hat)
    exact (hw.unique hw').symm ▸ hrun _ hat
  have hruns : ∀ k, { s with pool }.running k = true → s.running k = true := fun k h =>
    Bool.of_not_eq_false fun hno => by
      rw [hstays k hno] at h
      cases h
  exact { hk with
    ids      := hids.trans hk.ids
    calm     := hcalm
    distinct := fun j k t u ht hu hj hk' => hk.distinct j k t u ht hu (hruns j hj) (hruns k hk')
    gone     := fun k hkb => hstays k (hk.gone k hkb)
    shape    := hshape }

/-- The threads after one has been set have the ids that they had. -/
theorem Kept.distinct_set {k : Nat} {t t' : Thread} (hk : s.Kept base)
    (ht : s.all[k]? = some t) (htid : t'.tid = t.tid) (i j : Nat) (u v : Thread)
    (hu : (s.all.set k t')[i]? = some u) (hv : (s.all.set k t')[j]? = some v)
    (hi : s.running i = true) (hj : s.running j = true) (huv : u.tid = v.tid) : i = j := by
  have hold : ∀ {i : Nat} {u : Thread}, (s.all.set k t')[i]? = some u →
      ∃ v, s.all[i]? = some v ∧ v.tid = u.tid := by
    intro i u hu
    rcases getElem?_set_cases hu with ⟨rfl, rfl⟩ | ⟨-, hu⟩
    · exact ⟨t, ht, htid.symm⟩
    · exact ⟨u, hu, rfl⟩
  obtain ⟨u₀, hu₀, hut⟩ := hold hu
  obtain ⟨v₀, hv₀, hvt⟩ := hold hv
  exact hk.distinct i j u₀ v₀ hu₀ hv₀ hi hj (hut.trans (huv.trans hvt.symm))

/-- The thread that is being made goes on, or its constructor comes back. -/
theorem Kept.setThread {i k : Nat} {t t' : Thread} {c : Control} (hk : s.Kept base)
    (hc : s.control = .waiting i k) (ht : s.all[k]? = some t) (htid : t'.tid = t.tid)
    (hjoin : t'.joinable = t.joinable) (hfits : t'.Fits)
    (hc' : (c = .waiting i k ∧ t'.semaphore = if t'.phase = .called then 1 else 0) ∨
      (c = .made i k ∧ t'.phase = .called ∧ t'.semaphore = 0)) :
    { s with all := s.all.set k t', control := c }.Kept base := by
  have hready : ∀ j u, j ≠ k → s.all[j]? = some u → u.phase = .called ∧ u.semaphore = 0 := by
    intro j u hjk hu
    refine hk.ready j u hu fun i' hi' => hjk ?_
    rw [hc] at hi'
    exact (Control.waiting.inj hi').2.symm
  have hpending : c.pending = some k := by
    rcases hc' with ⟨rfl, -⟩ | ⟨rfl, -⟩ <;> rfl
  have hstart : c.inStart = true := by
    rcases hc' with ⟨rfl, -⟩ | ⟨rfl, -⟩ <;> rfl
  have hshape := hk.shape
  rw [Shape, hc] at hshape
  constructor
  case ids =>
    show s.pool.workers.map (·.id) = (s.all.set k t').map (·.tid)
    rw [map_set_same ht htid, hk.ids]
  case fits =>
    intro u hu
    rcases List.mem_or_eq_of_mem_set hu with hu | rfl
    · exact hk.fits u hu
    · exact hfits
  case ready =>
    intro j u hu hne
    rcases getElem?_set_cases hu with ⟨rfl, rfl⟩ | ⟨hjk, hu⟩
    · rcases hc' with ⟨rfl, -⟩ | ⟨-, hcalled⟩
      · exact absurd rfl (hne i)
      · exact hcalled
    · exact hready j u hjk hu
  case awaited =>
    intro i' j u hj hu
    rcases hc' with ⟨rfl, hsem⟩ | ⟨rfl, -⟩
    · obtain ⟨rfl, rfl⟩ := Control.waiting.inj hj
      rcases getElem?_set_cases hu with ⟨-, rfl⟩ | ⟨hjk, -⟩
      · exact hsem
      · exact absurd rfl hjk
    · cases hj
  case calm => exact hk.calm
  case distinct => exact hk.distinct_set ht htid
  case le =>
    show base ≤ (s.all.set k t').length
    rw [List.length_set]
    exact hk.le
  case gone => exact hk.gone
  case joined =>
    intro j u hu
    rcases getElem?_set_cases hu with ⟨rfl, rfl⟩ | ⟨-, hu⟩
    · rw [hjoin]
      exact hk.joined j t ht
    · exact hk.joined j u hu
  case recorded =>
    show s.threadIds = ((s.all.set k t').map (·.tid)).take (c.pending.getD (s.all.set k t').length)
    rw [map_set_same ht htid, hpending, hk.recorded, hc]
    rfl
  case constructed =>
    intro h
    rw [hstart] at h
    cases h
  case shape =>
    rcases hc' with ⟨rfl, -⟩ | ⟨rfl, -⟩ <;>
    · show _ ∧ _ ∧ k + 1 = (s.all.set k t').length ∧ _
      rw [List.length_set]
      exact hshape

/-- What is at a position after one has been added. -/
theorem getElem?_concat_cases {α : Type*} {xs : List α} {j : Nat} {y z : α}
    (h : (xs ++ [y])[j]? = some z) : xs[j]? = some z ∨ (j = xs.length ∧ z = y) := by
  rw [List.getElem?_append] at h
  split at h
  · exact .inl h
  · obtain ⟨hzero, hz⟩ := List.getElem?_eq_some_iff.mp h
    rw [List.length_singleton] at hzero
    refine .inr ⟨by omega, hz.symm.trans ?_⟩
    exact List.getElem_singleton ..

/-- The new thread. -/
theorem Kept.newThread {i : Nat} {tid : Int} (hk : s.Kept base) (hc : s.control = .creating i)
    (hi : i < s.threadCount) (hfresh : s.fresh tid = true) : (s.newThread i tid).Kept base := by
  obtain ⟨hpos, hother⟩ := Bool.and_eq_true_iff.mp hfresh
  have hpos : 0 < tid := of_decide_eq_true hpos
  have hlen : s.pool.workers.length = s.all.length := by
    have h := congrArg List.length hk.ids
    rwa [List.length_map, List.length_map] at h
  have hrunning : ∀ j < s.all.length, (s.newThread i tid).running j = s.running j := by
    intro j hj
    show (s.pool.workers ++ [_])[j]?.any _ = s.pool.workers[j]?.any _
    rw [List.getElem?_append_left (hlen ▸ hj)]
  have hlt : ∀ {j : Nat} {u : Thread}, s.all[j]? = some u → j < s.all.length := fun hu =>
    (List.getElem?_eq_some_iff.mp hu).1
  have hne : ∀ {j : Nat} {u : Thread}, s.all[j]? = some u →
      (s.newThread i tid).running j = true → u.tid ≠ tid := by
    intro j u hu hrun heq
    rw [hrunning j (hlt hu)] at hrun
    have h := List.all_eq_true.mp hother (u, j) (List.mk_mem_zipIdx_iff_getElem?.mpr hu)
    simp [heq, hrun] at h
  have hshape := hk.shape
  rw [Shape, hc] at hshape
  obtain ⟨-, hbase, hthreads, hcalm, hstop⟩ := hshape
  constructor
  case ids =>
    show (s.pool.workers ++ [_]).map Worker.id = (s.all ++ [_]).map Thread.tid
    rw [List.map_append, List.map_append, hk.ids]
    rfl
  case fits =>
    intro u hu
    rcases List.mem_append.mp hu with hu | hu
    · exact hk.fits u hu
    · rw [List.mem_singleton.mp hu]
      exact Thread.fits_create _ hpos
  case ready =>
    intro j u hu hnot
    rcases getElem?_concat_cases hu with hu | ⟨rfl, -⟩
    · refine hk.ready j u hu fun i' hi' => ?_
      rw [hc] at hi'
      cases hi'
    · exact absurd rfl (hnot i)
  case awaited =>
    intro i' j u hj hu
    obtain ⟨-, rfl⟩ := Control.waiting.inj hj
    rcases getElem?_concat_cases hu with hu | ⟨-, rfl⟩
    · exact absurd (hlt hu) (Nat.lt_irrefl _)
    · rfl
  case calm =>
    refine ⟨fun j w hw => ?_, hk.calm.outside⟩
    rcases getElem?_concat_cases hw with hw | ⟨-, rfl⟩
    · exact hk.calm.worker j w hw
    · exact List.not_mem_nil
  case distinct =>
    intro j l t u ht hu hj hl htu
    rcases getElem?_concat_cases ht with ht | ⟨rfl, rfl⟩
    · rcases getElem?_concat_cases hu with hu | ⟨rfl, rfl⟩
      · rw [hrunning j (hlt ht)] at hj
        rw [hrunning l (hlt hu)] at hl
        exact hk.distinct j l t u ht hu hj hl htu
      · exact absurd htu (hne ht hj)
    · rcases getElem?_concat_cases hu with hu | ⟨rfl, rfl⟩
      · exact absurd htu.symm (hne hu hl)
      · rfl
  case le =>
    show base ≤ (s.all ++ [_]).length
    rw [List.length_append]
    exact hk.le.trans (Nat.le_add_right _ _)
  case gone =>
    intro j hj
    rw [hrunning j (hj.trans_le hk.le)]
    exact hk.gone j hj
  case joined =>
    intro j u hu
    rcases getElem?_concat_cases hu with hu | ⟨rfl, rfl⟩
    · exact hk.joined j u hu
    · exact iff_of_false (by simp [Thread.create]) (Nat.not_lt.mpr hk.le)
  case recorded =>
    show s.threadIds = ((s.all ++ [_]).map Thread.tid).take s.all.length
    rw [hk.recorded, hc, List.map_append]
    simp [Control.pending]
  case constructed =>
    intro h
    cases h
  case shape =>
    refine ⟨hi, hbase, ?_, hthreads, hcalm, hstop⟩
    show s.all.length + 1 = (s.all ++ [_]).length
    rw [List.length_append]
    rfl

/-- A thread is joined. -/
theorem Kept.join {k : Nat} {t : Thread} {thrs : List (Option Nat)} (hk : s.Kept base)
    (hc : s.control = .joining (some k :: thrs)) (ht : s.all[k]? = some t)
    (hrun : s.running k = false) :
    { s with
      all := s.all.set k { t with joinable := false }, control := .joining thrs }.Kept
      (base + 1) := by
  have hshape := hk.shape
  rw [Shape, hc] at hshape
  obtain ⟨hthreads, hthrs, hcalm, hstop⟩ := hshape
  obtain ⟨rfl, m, hm, rfl⟩ := eq_pointers_cons hthrs
  have hnone : ∀ j i, s.control ≠ .waiting i j := fun j i h => by
    rw [hc] at h
    cases h
  constructor
  case ids =>
    show s.pool.workers.map Worker.id = (s.all.set k { t with joinable := false }).map Thread.tid
    rw [map_set_same (y := { t with joinable := false }) ht rfl, hk.ids]
  case fits =>
    intro u hu
    rcases List.mem_or_eq_of_mem_set hu with hu | rfl
    · exact hk.fits u hu
    · have hfits := hk.fits t (List.mem_of_getElem? ht)
      exact ⟨hfits.positive, hfits.name, hfits.id, hfits.cb⟩
  case ready =>
    intro j u hu _
    rcases getElem?_set_cases hu with ⟨rfl, rfl⟩ | ⟨-, hu⟩
    · exact hk.ready j t ht (hnone j)
    · exact hk.ready j u hu (hnone j)
  case awaited =>
    intro i j u hj
    cases hj
  case calm => exact hk.calm
  case distinct => exact hk.distinct_set ht rfl
  case le =>
    show k + 1 ≤ (s.all.set k _).length
    rw [List.length_set]
    omega
  case gone =>
    intro j hj
    rcases Nat.lt_succ_iff_lt_or_eq.mp hj with hj | rfl
    · exact hk.gone j hj
    · exact hrun
  case joined =>
    intro j u hu
    rcases getElem?_set_cases hu with ⟨rfl, rfl⟩ | ⟨hjk, hu⟩
    · exact iff_of_true rfl (Nat.lt_succ_self j)
    · rw [hk.joined j u hu]
      omega
  case recorded =>
    show s.threadIds = ((s.all.set k { t with joinable := false }).map Thread.tid).take
      (s.all.set k _).length
    rw [map_set_same (y := { t with joinable := false }) ht rfl, List.length_set, hk.recorded, hc]
    rfl
  case constructed =>
    intro _
    exact hk.constructed (by rw [hc]; rfl)
  case shape =>
    refine ⟨hthreads, ?_, hcalm, hstop⟩
    show pointers (k + 1) m = pointers (k + 1) ((s.all.set k _).length - (k + 1))
    rw [List.length_set, ← Nat.sub_sub, hm, Nat.add_sub_cancel]

/-- A thread has been made. -/
theorem Kept.record {i k : Nat} {t : Thread} (hk : s.Kept base) (hc : s.control = .made i k)
    (ht : s.all[k]? = some t) :
    { s with
      threads := s.threads.set i (some k), threadIds := s.threadIds ++ [t.id]
      control := .creating (i + 1) }.Kept base := by
  have hshape := hk.shape
  rw [Shape, hc] at hshape
  obtain ⟨hi, rfl, hlen, hthreads, hcalm, hstop⟩ := hshape
  have hnone : ∀ j i', s.control ≠ .waiting i' j := fun j i' h => by
    rw [hc] at h
    cases h
  have hid : t.id = t.tid := by
    rw [(hk.fits t (List.mem_of_getElem? ht)).id, (hk.ready _ t ht (hnone _)).1]
    rfl
  refine { hk with
    ready       := fun j u hu _ => hk.ready j u hu (hnone j)
    awaited     := fun i' j u hj => by cases hj
    recorded    := ?_
    constructed := fun h => by cases h
    shape       := ⟨hi, hlen, ?_, hcalm, hstop⟩ }
  · show s.threadIds ++ [t.id] = (s.all.map Thread.tid).take s.all.length
    rw [hk.recorded, hc, hid, ← hlen]
    show (s.all.map Thread.tid).take (base + i) ++ [t.tid] = _
    rw [List.take_add_one, List.getElem?_map, ht]
    rfl
  · show s.threads.set i (some (base + i)) = slots s.threadCount base (i + 1)
    rw [hthreads, slots_set hi]

/-- Only the thread that is being made is in `Thread::run` in front of its callback. -/
theorem Kept.run_waiting {k : Nat} {t t' : Thread} (hk : s.Kept base) (ht : s.all[k]? = some t)
    (hrun : t.run = some t') : (∃ i, s.control = .waiting i k) ∧ t.phase ≠ .called := by
  have hnot : t.phase ≠ .called := by
    intro hcalled
    rw [Thread.run, hcalled] at hrun
    cases hrun
  refine ⟨?_, hnot⟩
  by_contra hno
  exact hnot (hk.ready k t ht (not_exists.mp hno)).1

/-- Every step keeps it. -/
theorem Step.kept (h : s.Step a s') (hk : s.Kept base) : ∃ base', s'.Kept base' := by
  have hshape := hk.shape
  cases h with
  | start hc =>
      rw [Shape, hc] at hshape
      exact ⟨base, hk.goto rfl rfl (fun _ _ => rfl) rfl (by rw [hc]; rfl) rfl
        (fun h => by cases h) hshape⟩
  | @stop pool hc hpool =>
      rw [Shape, hc] at hshape
      cases Pool.step_ok (proceed_eq_some.mpr hpool) with
      | call hnil hcall =>
          cases hcall
          refine ⟨base, hk.goto rfl rfl (fun t ht => Function.update_of_ne ht ..) rfl
            (by rw [hc]; rfl) rfl (fun _ => hk.constructed (by rw [hc]; rfl))
            ⟨hshape.1, .inr ?_, ?_⟩⟩
          · show .setStopping ∈ Function.update s.pool.outside 0
              (.setStopping :: List.replicate s.threadCount .tickle) 0
            rw [Function.update_self]
            exact List.mem_cons_self
          · show ∀ op ∈ Function.update s.pool.outside 0
              (.setStopping :: List.replicate s.threadCount .tickle) 0, op.light = true
            rw [Function.update_self, List.forall_mem_cons]
            exact ⟨rfl, fun op hop => (List.eq_of_mem_replicate hop).symm ▸ rfl⟩
  | enter hc hstop hnil =>
      rw [Shape, hc] at hshape
      obtain ⟨-, hcalm, ⟨hbase, -⟩ | ⟨-, hgo, -⟩⟩ := hshape
      · exact ⟨base, hk.goto rfl rfl (fun _ _ => rfl) rfl (by rw [hc]; rfl) rfl
          (fun h => by cases h) ⟨Nat.zero_le _, hbase, rfl, hcalm, rfl⟩⟩
      · rw [hstop] at hgo
        cases hgo
  | ignored hc hgo =>
      rw [Shape, hc] at hshape
      refine ⟨base, hk.goto rfl rfl (fun _ _ => rfl) rfl (by rw [hc]; rfl) rfl (fun _ => ?_) hshape⟩
      obtain ⟨-, -, ⟨-, hstop⟩ | ⟨-, -, hconstructed⟩⟩ := hshape
      · rw [hgo] at hstop
        cases hstop
      · exact hconstructed
  | create hc hi hfresh => exact ⟨base, hk.newThread hc hi hfresh⟩
  | @wait i k t hc ht hpos =>
      have hsem := hk.awaited i k t hc ht
      have hcalled : t.phase = .called := by
        by_contra hne
        rw [if_neg hne] at hsem
        omega
      rw [if_pos hcalled] at hsem
      have hfits := hk.fits t (List.mem_of_getElem? ht)
      exact ⟨base, hk.setThread hc ht rfl rfl ⟨hfits.positive, hfits.name, hfits.id, hfits.cb⟩
        (.inr ⟨rfl, hcalled, by rw [hsem]⟩)⟩
  | record hc ht => exact ⟨base, hk.record hc ht⟩
  | @started i hc hi =>
      rw [Shape, hc] at hshape
      obtain ⟨hle, hbase, hthreads, hcalm, hstop⟩ := hshape
      obtain rfl : i = s.threadCount := Nat.le_antisymm hle hi
      refine ⟨base, hk.goto rfl rfl (fun _ _ => rfl) rfl (by rw [hc]; rfl) rfl (fun _ => rfl)
        ⟨?_, hcalm, .inr ⟨hbase, hstop, rfl⟩⟩⟩
      show s.threads = pointers base (s.all.length - base)
      rw [hthreads, slots_self, ← hbase, Nat.add_sub_cancel_left]
  | swap hc hnil =>
      rw [Shape, hc] at hshape
      obtain ⟨hthreads, hwill, -⟩ := hshape
      have hno : Op.setStopping ∉ s.pool.outside 0 := by
        rw [hnil]
        exact List.not_mem_nil
      exact ⟨base, hk.goto rfl rfl (fun _ _ => rfl) rfl (by rw [hc]; rfl) rfl
        (fun _ => hk.constructed (by rw [hc]; rfl))
        ⟨rfl, hthreads, hno, hwill.resolve_right hno⟩⟩
  | @joined k thrs t hc ht hj =>
      rw [Shape, hc] at hshape
      obtain ⟨rfl, -⟩ := eq_pointers_cons hshape.2.1
      exact absurd ((hk.joined k t ht).mp hj) (Nat.lt_irrefl k)
  | join hc ht hj hrun => exact ⟨_, hk.join hc ht hrun⟩
  | stopped hc =>
      rw [Shape, hc] at hshape
      obtain ⟨hthreads, hnil, hcalm, hstop⟩ := hshape
      have hzero : s.all.length - base = 0 := by
        cases hn : s.all.length - base with
        | zero => rfl
        | succ n =>
            rw [hn] at hnil
            cases hnil
      have hbase : base = s.all.length := Nat.le_antisymm hk.le (Nat.sub_eq_zero_iff_le.mp hzero)
      exact ⟨base, hk.goto rfl rfl (fun _ _ => rfl) rfl (by rw [hc]; rfl) rfl
        (fun _ => hk.constructed (by rw [hc]; rfl))
        ⟨hthreads.trans hnil, hcalm, .inl ⟨hbase, hstop⟩⟩⟩
  | @run k t t' ht hrun =>
      have hran := Thread.run_cases hrun
      obtain ⟨⟨i, hc⟩, hnot⟩ := hk.run_waiting ht hrun
      have hsem := hk.awaited i k t hc ht
      rw [if_neg hnot] at hsem
      refine ⟨base, hk.setThread (c := s.control) hc ht hran.tid hran.joinable
        (hran.fits (hk.fits t (List.mem_of_getElem? ht))) (.inl ⟨hc, ?_⟩)⟩
      rw [hran.semaphore, hsem, Nat.zero_add]
  | @pool a pool hadm hpool =>
      have hstep := Pool.step_ok (proceed_eq_some.mpr hpool)
      obtain ⟨hgo, -⟩ := Bool.and_eq_true_iff.mp (Bool.and_eq_true_iff.mp hadm).1
      obtain ⟨hcalm, hwill, hstays⟩ := hstep.calm hgo hk.calm
      obtain ⟨hids, hleft⟩ := hstep.workers
      refine ⟨base, hk.pool hcalm hids hleft ?_⟩
      rw [Shape] at hshape ⊢
      cases hc : s.control with
      | idle | starting =>
          simp only [hc] at hshape ⊢
          obtain ⟨hthreads, hno, hrest⟩ := hshape
          obtain ⟨hno, hstop⟩ := hstays hno
          exact ⟨hthreads, hno, hstop.symm ▸ hrest⟩
      | creating i =>
          simp only [hc] at hshape ⊢
          obtain ⟨hle, hbase, hthreads, hno, hgoes⟩ := hshape
          obtain ⟨hno, hstop⟩ := hstays hno
          exact ⟨hle, hbase, hthreads, hno, hstop.trans hgoes⟩
      | waiting i k | made i k =>
          simp only [hc] at hshape ⊢
          obtain ⟨hlt, hbase, hlen, hthreads, hno, hgoes⟩ := hshape
          obtain ⟨hno, hstop⟩ := hstays hno
          exact ⟨hlt, hbase, hlen, hthreads, hno, hstop.trans hgoes⟩
      | stopping =>
          simp only [hc] at hshape ⊢
          obtain ⟨hthreads, hset, hlight⟩ := hshape
          refine ⟨hthreads, hwill hset, ?_⟩
          rcases hstep.outside_zero (fun c h => by subst h; simp [admits, hc] at hadm) hlight with
            ⟨-, heq⟩ | ⟨-, op, heq⟩
          · rw [heq]
            exact hlight
          · rw [heq] at hlight
            exact (List.forall_mem_cons.mp hlight).2
      | joining thrs =>
          simp only [hc] at hshape ⊢
          obtain ⟨hthreads, hthrs, hno, hset⟩ := hshape
          obtain ⟨hno, hstop⟩ := hstays hno
          exact ⟨hthreads, hthrs, hno, hstop.trans hset⟩

/-- The states of a manager that has been constructed with `n` threads. -/
abbrev Runs (name : String) (n now : Nat) (s : ThreadPool Cb) : Prop :=
  Reach (proceed step) (fun _ _ => True) (init name n now) s

theorem Runs.kept {name : String} {n now : Nat} (h : Runs name n now s) :
    ∃ base, s.Kept base :=
  h.invariant (I := fun s => ∃ base, s.Kept base) ⟨0, init_kept name n now⟩
    fun _ _ _ ⟨_, hk⟩ _ hstep => (step_ok hstep).kept hk

/-- Only `pthread_create` and the pool can fail. -/
theorem Kept.error {e : ThreadFault} (hk : s.Kept base) (h : s.step a = some (.error e)) :
    (e = .create ∧ a = .create none) ∨ ∃ x, e = .pool x := by
  have hpool : ∀ {r : ThreadPool Cb} {b : PoolAct Cb}, r.poolStep b = some (.error e) →
      ∃ x, e = .pool x := by
    intro r b h
    obtain ⟨x, -, heq⟩ := Option.map_eq_some_iff.mp h
    cases x with
    | ok pool => cases heq
    | error x => exact ⟨x, (Except.error.inj heq).symm⟩
  have hshape := hk.shape
  cases a with
  | start =>
      simp only [step] at h
      split at h <;> cases h
  | stop =>
      simp only [step] at h
      split at h
      · exact .inr (hpool h)
      · cases h
  | go =>
      have h : s.go = some (.error e) := h
      rw [go] at h
      cases hc : s.control with
      | starting =>
          simp only [hc] at h
          rw [Shape, hc] at hshape
          split at h
          · rename_i hstop
            split at h
            · cases h
            · rename_i hne
              obtain ⟨hthreads, -, ⟨hbase, -⟩ | ⟨-, hgo, -⟩⟩ := hshape
              · rw [hthreads, hbase, Nat.sub_self] at hne
                exact absurd rfl hne
              · rw [hstop] at hgo
                cases hgo
          · cases h
      | idle =>
          simp only [hc] at h
          cases h
      | creating i | stopping =>
          simp only [hc] at h
          split at h <;> cases h
      | waiting i k =>
          simp only [hc] at h
          obtain ⟨t, -, h⟩ := Option.bind_eq_some_iff.mp h
          obtain ⟨t', -, heq⟩ := Option.map_eq_some_iff.mp h
          cases heq
      | made i k =>
          simp only [hc] at h
          obtain ⟨t, -, heq⟩ := Option.map_eq_some_iff.mp h
          cases heq
      | joining thrs =>
          rw [Shape, hc] at hshape
          cases thrs with
          | nil =>
              simp only [hc] at h
              cases h
          | cons p thrs =>
              cases p with
              | none =>
                  have hthrs : none :: thrs = pointers base (s.all.length - base) := hshape.2.1
                  cases hn : s.all.length - base with
                  | zero =>
                      rw [hn] at hthrs
                      cases hthrs
                  | succ n =>
                      rw [hn, pointers_succ] at hthrs
                      cases hthrs
              | some k =>
                  simp only [hc] at h
                  obtain ⟨t, -, h⟩ := Option.bind_eq_some_iff.mp h
                  split at h
                  · cases h
                  · split at h <;> cases h
  | create tid =>
      simp only [step] at h
      split at h
      · split at h <;> cases h
      · split at h
        · cases h
          exact .inl ⟨rfl, rfl⟩
        · cases h
      · cases h
  | run k =>
      obtain ⟨t, -, h⟩ := Option.bind_eq_some_iff.mp h
      obtain ⟨t', -, heq⟩ := Option.map_eq_some_iff.mp h
      cases heq
  | pool b =>
      simp only [step] at h
      split at h
      · exact .inr (hpool h)
      · cases h

/-- No thread is running, all of them have been joined, and none is left in `m_threads`. -/
def Over (s : ThreadPool Cb) : Prop :=
  s.threads = [] ∧ (∀ k, s.running k = false) ∧ ∀ t ∈ s.all, t.joinable = false

/-- `m_threads` holds the last `m_threadCount` threads, and the ones in front of these are
over. -/
def UnderWay (s : ThreadPool Cb) : Prop :=
  ∃ base, base + s.threadCount = s.all.length ∧ s.threads = pointers base s.threadCount ∧
    (∀ k < base, s.running k = false) ∧
    ∀ k t, s.all[k]? = some t → (t.joinable = false ↔ k < base)

theorem Kept.over (hk : s.Kept s.all.length) (hthreads : s.threads = []) : s.Over := by
  refine ⟨hthreads, fun k => ?_, fun t ht => ?_⟩
  · rcases Nat.lt_or_ge k s.all.length with hlt | hge
    · exact hk.gone k hlt
    · have hlen := congrArg List.length hk.ids
      rw [List.length_map, List.length_map] at hlen
      rw [running, List.getElem?_eq_none (hlen ▸ hge)]
      rfl
  · obtain ⟨k, hkt⟩ := List.mem_iff_getElem?.mp ht
    exact (hk.joined k t hkt).mpr (List.getElem?_eq_some_iff.mp hkt).1

/-- The constructor of a manager with one thread. -/
def construct : List (ThreadPoolAct Unit) :=
  [.go, .create (some 100), .run 0, .run 0, .run 0, .run 0, .go, .go, .go]

/-- The worker goes on. -/
def work (steps : Nat) : List (ThreadPoolAct Unit) :=
  List.replicate steps (.pool (.worker 0 .next))

/-- A callback is scheduled, and `stop` called. -/
def schedule : List (ThreadPoolAct Unit) :=
  .go :: .create (some 100) :: .run 0 :: .run 0 :: .run 0 :: .run 0 :: .go :: .go :: .go ::
    .pool (.call 3 (.schedule (.cb (some ())) (-1))) :: .pool (.op 3) :: .stop :: []

/-- The worker runs the callback, and ends when `stop` has set the flags; `stop` joins it. -/
def finish : List (ThreadPoolAct Unit) :=
  .pool (.op 0) :: .pool (.op 0) :: .go :: (work 3 ++ .pool (.worker 0 (.finish true)) ::
    (work 5 ++ .pool (.worker 0 (.look 5)) :: (work 5 ++ [.go, .go])))

/-- `start` makes another one, to which the kernel gives the same id. -/
def startAgain : List (ThreadPoolAct Unit) :=
  [.start, .go, .create (some 100), .run 1, .run 1, .run 1, .run 1, .go, .go, .go]

def restart : List (ThreadPoolAct Unit) :=
  schedule ++ (finish ++ startAgain)

end ThreadPool

end CoLib
