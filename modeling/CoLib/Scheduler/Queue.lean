/-
# `CoLib.Scheduler.Queue` — the queue of the scheduler

`m_fibers` holds the tasks that wait for a worker, each a fiber or a callback,
some of them pinned to a thread.  `schedule` appends under the lock; a worker of
`run` looks through the list under the lock, passes over what it may not take,
and erases the first task that it may.

A task carries the number of its push, and the queue the history of what was
pushed and who took it; the code keeps neither.
-/
import CoLib.Lib.Run
import Mathlib

namespace CoLib

open Lib

/-- `Fiber::State`. -/
inductive FiberState where
  | init | hold | exec | term | ready | except
deriving DecidableEq, Repr

/-- `Fiber::ptr`: which of the fibers constructed so far. -/
abbrev FiberPtr := Nat

/-- What is passed to `schedule`: a `Fiber::ptr` or a `std::function`, perhaps empty. -/
inductive FiberOrCb (Cb : Type) where
  | fiber (f : Option FiberPtr)
  | cb (c : Option Cb)
deriving DecidableEq, Repr

/-- `Scheduler::FiberAndThread`, with the number of its push. -/
structure FiberAndThread (Cb : Type) where
  fiber : Option FiberPtr
  cb : Option Cb
  thread : Int
  no : Nat
deriving DecidableEq, Repr

/-- The assertions of `Scheduler` and `Fiber` that a run can fail. -/
inductive Assertion where
  /-- `it->fiber || it->cb` in the scan. -/
  | task
  /-- `m_state != EXEC` in `swapIn`. -/
  | notExec
  /-- `m_state == EXEC` in `YieldToHold`. -/
  | exec
  /-- `m_stack` in `reset`. -/
  | stack
  /-- `m_state == TERM || m_state == INIT || m_state == EXCEPT` in `reset`. -/
  | resettable
  /-- "never reach", after the last `swapOut` of `MainFunc`. -/
  | neverReach
deriving DecidableEq, Repr

section Tasks

variable {Cb : Type}

namespace FiberOrCb

/-- What the constructors from a pointer leave behind: they swap. -/
def emptied : FiberOrCb Cb → FiberOrCb Cb
  | .fiber _ => .fiber none
  | .cb _ => .cb none

/-- The fiber passed. -/
def ptr : FiberOrCb Cb → Option FiberPtr
  | .fiber f => f
  | .cb _ => none

/-- There is something to run. -/
def isSome : FiberOrCb Cb → Bool
  | .fiber f => f.isSome
  | .cb c => c.isSome

end FiberOrCb

namespace FiberAndThread

/-- `FiberAndThread(fc, thread)`. -/
def of (fc : FiberOrCb Cb) (thread : Int) (no : Nat) : FiberAndThread Cb :=
  match fc with
  | .fiber f => { fiber := f, cb := none, thread, no }
  | .cb c => { fiber := none, cb := c, thread, no }

/-- `FiberAndThread()`, and what `reset` leaves. -/
def empty : FiberAndThread Cb :=
  { fiber := none, cb := none, thread := -1, no := 0 }

/-- `ft.fiber || ft.cb`. -/
def isSome (ft : FiberAndThread Cb) : Bool :=
  ft.fiber.isSome || ft.cb.isSome

/-- Pinned to another thread. -/
def elsewhere (self : Int) (ft : FiberAndThread Cb) : Bool :=
  ft.thread != -1 && ft.thread != self

/-- A fiber in `EXEC`. -/
def running (state : FiberPtr → FiberState) (ft : FiberAndThread Cb) : Bool :=
  match ft.fiber with
  | some f => state f == .exec
  | none => false

/-- The scan of thread `self` stops here. -/
def eligible (self : Int) (state : FiberPtr → FiberState) (ft : FiberAndThread Cb) : Bool :=
  !ft.elsewhere self && !ft.running state

theorem running_eq_true {state : FiberPtr → FiberState} {ft : FiberAndThread Cb} :
    ft.running state = true ↔ ∃ f, ft.fiber = some f ∧ state f = .exec := by
  rw [running]
  cases ft.fiber <;> simp

theorem isSome_of (fc : FiberOrCb Cb) (thread : Int) (no : Nat) :
    (of fc thread no).isSome = fc.isSome := by
  cases fc <;> simp [of, isSome, FiberOrCb.isSome]

@[simp] theorem of_no (fc : FiberOrCb Cb) (thread : Int) (no : Nat) :
    (of fc thread no).no = no := by
  cases fc <;> rfl

@[simp] theorem of_thread (fc : FiberOrCb Cb) (thread : Int) (no : Nat) :
    (of fc thread no).thread = thread := by
  cases fc <;> rfl

end FiberAndThread

/-- The scan of `run` in thread `self`: the task taken, the list without it, and
`tickle_me`. -/
def scanFibers (self : Int) (state : FiberPtr → FiberState) :
    List (FiberAndThread Cb) →
      Except Assertion (Option (FiberAndThread Cb) × List (FiberAndThread Cb) × Bool)
  | [] => .ok (none, [], false)
  | it :: rest =>
      if it.elsewhere self then
        (scanFibers self state rest).map fun (ft, rest, _) => (ft, it :: rest, true)
      else if !it.isSome then .error .task
      else if it.running state then
        (scanFibers self state rest).map fun (ft, rest, tickleMe) => (ft, it :: rest, tickleMe)
      else .ok (some it, rest, false)

/-- What a scan that fails no assertion does: it finds nothing, or erases the
first task it may take. -/
theorem scanFibers_ok {self : Int} {state : FiberPtr → FiberState}
    {q q' : List (FiberAndThread Cb)} {ft : Option (FiberAndThread Cb)} {tickleMe : Bool}
    (h : scanFibers self state q = .ok (ft, q', tickleMe)) :
    (ft = none ∧ q' = q ∧ (∀ e ∈ q, e.eligible self state = false) ∧
      tickleMe = q.any fun e => e.elsewhere self) ∨
    ∃ e l r, ft = some e ∧ q = l ++ e :: r ∧ q' = l ++ r ∧
      (∀ e ∈ l, e.eligible self state = false) ∧ e.eligible self state = true ∧
      e.isSome = true ∧ tickleMe = l.any fun e => e.elsewhere self := by
  induction q generalizing ft q' tickleMe with
  | nil =>
      cases h
      exact .inl ⟨rfl, rfl, by simp, rfl⟩
  | cons it rest ih =>
      have hskip : ∀ {ft rest₁ t}, it.eligible self state = false →
          scanFibers self state rest = .ok (ft, rest₁, t) →
          (ft = none ∧ it :: rest₁ = it :: rest ∧
            (∀ e ∈ it :: rest, e.eligible self state = false) ∧
            (it.elsewhere self || t) = (it :: rest).any fun e => e.elsewhere self) ∨
          ∃ e l r, ft = some e ∧ it :: rest = l ++ e :: r ∧ it :: rest₁ = l ++ r ∧
            (∀ e ∈ l, e.eligible self state = false) ∧ e.eligible self state = true ∧
            e.isSome = true ∧ (it.elsewhere self || t) = l.any fun e => e.elsewhere self := by
        intro ft rest₁ t hit h
        rcases ih h with ⟨rfl, rfl, hall, rfl⟩ | ⟨e, l, r, rfl, rfl, rfl, hl, he, hsome, rfl⟩
        · exact .inl ⟨rfl, rfl, List.forall_mem_cons.mpr ⟨hit, hall⟩, rfl⟩
        · exact .inr ⟨e, it :: l, r, rfl, rfl, rfl, List.forall_mem_cons.mpr ⟨hit, hl⟩, he, hsome,
            rfl⟩
      rw [scanFibers] at h
      split at h
      · rename_i hpin
        obtain ⟨⟨ft₁, rest₁, t₁⟩, h₁, heq⟩ := map_ok h
        cases heq
        simpa [hpin] using hskip (by simp [FiberAndThread.eligible, hpin]) h₁
      · rename_i hpin
        split at h
        · cases h
        · rename_i hsome
          split at h
          · rename_i hrun
            obtain ⟨⟨ft₁, rest₁, t₁⟩, h₁, heq⟩ := map_ok h
            cases heq
            simpa [hpin] using hskip (by simp [FiberAndThread.eligible, hrun]) h₁
          · rename_i hrun
            cases h
            exact .inr ⟨it, [], rest, rfl, rfl, rfl, by simp,
              by simp [FiberAndThread.eligible, hpin, hrun], by simpa using hsome, rfl⟩

/-- The only assertion that a scan can fail. -/
theorem scanFibers_error {self : Int} {state : FiberPtr → FiberState}
    {q : List (FiberAndThread Cb)} {a : Assertion} (h : scanFibers self state q = .error a) :
    a = .task ∧ ∃ e ∈ q, e.isSome = false := by
  induction q with
  | nil => cases h
  | cons it rest ih =>
      have hrest : ∀ {β : Type} {f : _ → β}, (scanFibers self state rest).map f = .error a →
          a = .task ∧ ∃ e ∈ it :: rest, e.isSome = false := by
        intro β f h
        cases hs : scanFibers self state rest with
        | ok x => rw [hs] at h; cases h
        | error e =>
            rw [hs] at h
            obtain rfl : e = a := Except.error.inj h
            obtain ⟨ha, e, he, hno⟩ := ih hs
            exact ⟨ha, e, List.mem_cons_of_mem _ he, hno⟩
      rw [scanFibers] at h
      split at h
      · exact hrest h
      · split at h
        · rename_i hno
          cases h
          exact ⟨rfl, it, List.mem_cons_self, by simpa using hno⟩
        · split at h
          · exact hrest h
          · cases h

end Tasks

/-! ## The queue and its history -/

/-- `m_fibers`, with what has been pushed so far and what threads have taken. -/
structure TaskQueue (Cb : Type) where
  fibers : List (FiberAndThread Cb) := []
  pushed : List (FiberAndThread Cb) := []
  taken : List (Int × FiberAndThread Cb) := []
deriving DecidableEq, Repr

namespace TaskQueue

variable {Cb : Type}

/-- `m_fibers.push_back(ft)`. -/
def push (q : TaskQueue Cb) (ft : FiberAndThread Cb) : TaskQueue Cb :=
  { q with fibers := q.fibers ++ [ft], pushed := q.pushed ++ [ft] }

/-- `scheduleNoLock(fc, thread)`, with `need_tickle`. -/
def scheduleNoLock (q : TaskQueue Cb) (fc : FiberOrCb Cb) (thread : Int) : TaskQueue Cb × Bool :=
  let needTickle := q.fibers.isEmpty
  let ft := FiberAndThread.of fc thread q.pushed.length
  (if ft.isSome then q.push ft else q, needTickle)

/-- The loop of `schedule(begin, end)`: the queue, `need_tickle`, and what is left
in the range. -/
def scheduleRange (q : TaskQueue Cb) (needTickle : Bool) :
    List (FiberOrCb Cb) → TaskQueue Cb × Bool × List (FiberOrCb Cb)
  | [] => (q, needTickle, [])
  | fc :: fcs =>
      let (q, need) := q.scheduleNoLock fc (-1)
      let (q, needTickle, left) := q.scheduleRange (need || needTickle) fcs
      (q, needTickle, fc.emptied :: left)

/-- `scheduleNoLock` on the elements one by one, with every decision. -/
def scheduleEach (q : TaskQueue Cb) : List (FiberOrCb Cb) → TaskQueue Cb × List Bool
  | [] => (q, [])
  | fc :: fcs =>
      let (q, need) := q.scheduleNoLock fc (-1)
      let (q, needs) := q.scheduleEach fcs
      (q, need :: needs)

/-- The scan of `run` in thread `self` on the queue. -/
def take (q : TaskQueue Cb) (self : Int) (state : FiberPtr → FiberState) :
    Except Assertion (TaskQueue Cb × Option (FiberAndThread Cb) × Bool) :=
  (scanFibers self state q.fibers).map fun (ft, fibers, tickleMe) =>
    ({ q with fibers, taken := q.taken ++ ft.toList.map fun ft => (self, ft) }, ft, tickleMe)

variable {q q' : TaskQueue Cb} {self : Int} {state : FiberPtr → FiberState}
  {ft : Option (FiberAndThread Cb)} {tickleMe : Bool}

/-- The iterator form does what the single form does, element by element. -/
theorem scheduleRange_eq_each (q : TaskQueue Cb) (needTickle : Bool) (fcs : List (FiberOrCb Cb)) :
    q.scheduleRange needTickle fcs =
      ((q.scheduleEach fcs).1, (q.scheduleEach fcs).2.any id || needTickle,
        fcs.map FiberOrCb.emptied) := by
  induction fcs generalizing q needTickle with
  | nil => rfl
  | cons fc fcs ih =>
      simp only [scheduleRange, scheduleEach, ih, List.any_cons, id, List.map_cons]
      rw [← Bool.or_assoc, Bool.or_comm ((scheduleEach _ fcs).2.any id)]

/-! ### Appending -/

/-- `q'` is `q` with tasks appended, which are numbered on and not empty. -/
structure Appends (q q' : TaskQueue Cb) (new : List (FiberAndThread Cb)) : Prop where
  fibers : q'.fibers = q.fibers ++ new
  pushed : q'.pushed = q.pushed ++ new
  taken : q'.taken = q.taken
  nos : new.map FiberAndThread.no = List.range' q.pushed.length new.length
  some : ∀ e ∈ new, e.isSome = true

theorem Appends.refl (q : TaskQueue Cb) : Appends q q [] :=
  ⟨by simp, by simp, rfl, rfl, by simp⟩

theorem Appends.trans {q₁ : TaskQueue Cb} {new new' : List (FiberAndThread Cb)}
    (h : Appends q q₁ new) (h' : Appends q₁ q' new') : Appends q q' (new ++ new') where
  fibers := by rw [h'.fibers, h.fibers, List.append_assoc]
  pushed := by rw [h'.pushed, h.pushed, List.append_assoc]
  taken  := h'.taken.trans h.taken
  nos    := by
    rw [List.map_append, h.nos, h'.nos, h.pushed, List.length_append, List.length_append,
      List.range'_append_1]
  some   := fun e he => (List.mem_append.mp he).elim (h.some e) (h'.some e)

/-- `scheduleNoLock` appends the task unless it is empty. -/
theorem appends_scheduleNoLock (q : TaskQueue Cb) (fc : FiberOrCb Cb) (thread : Int) :
    Appends q (q.scheduleNoLock fc thread).1
      (if fc.isSome then [.of fc thread q.pushed.length] else []) := by
  rw [scheduleNoLock, FiberAndThread.isSome_of]
  split
  · exact ⟨rfl, rfl, rfl, by simp, by simpa [FiberAndThread.isSome_of] using ‹_›⟩
  · exact .refl q

/-- What `schedule(begin, end)` appends. -/
theorem appends_scheduleRange (q : TaskQueue Cb) (needTickle : Bool) (fcs : List (FiberOrCb Cb)) :
    ∃ new, Appends q (q.scheduleRange needTickle fcs).1 new ∧
      ∀ e ∈ new, ∃ fc ∈ fcs, e = .of fc (-1) e.no := by
  induction fcs generalizing q needTickle with
  | nil => exact ⟨[], .refl q, by simp⟩
  | cons fc fcs ih =>
      obtain ⟨new, hnew, hof⟩ :=
        ih (q.scheduleNoLock fc (-1)).1 ((q.scheduleNoLock fc (-1)).2 || needTickle)
      refine ⟨_, (appends_scheduleNoLock q fc (-1)).trans hnew, fun e he => ?_⟩
      rcases List.mem_append.mp he with he | he
      · split at he
        · rw [List.mem_singleton.mp he, FiberAndThread.of_no]
          exact ⟨fc, List.mem_cons_self, rfl⟩
        · cases he
      · obtain ⟨fc', hfc', heq⟩ := hof e he
        exact ⟨fc', List.mem_cons_of_mem _ hfc', heq⟩

/-- The decision on an empty queue: there is something in the range. -/
theorem scheduleRange_need (q : TaskQueue Cb) (needTickle : Bool) (fcs : List (FiberOrCb Cb)) :
    (q.scheduleRange needTickle fcs).2.1 = (needTickle || (q.fibers.isEmpty && !fcs.isEmpty)) := by
  induction fcs generalizing q needTickle with
  | nil => simp [scheduleRange]
  | cons fc fcs ih =>
      rw [scheduleRange]
      simp only [ih]
      have hfirst : (q.scheduleNoLock fc (-1)).2 = q.fibers.isEmpty := rfl
      rw [hfirst, (appends_scheduleNoLock q fc (-1)).fibers]
      cases q.fibers with
      | nil => simp
      | cons x xs => simp

/-! ### Taking -/

/-- A scan that takes nothing changes nothing, and passed over every task. -/
theorem take_none (h : q.take self state = .ok (q', none, tickleMe)) :
    q' = q ∧ (∀ e ∈ q.fibers, e.eligible self state = false) ∧
      tickleMe = q.fibers.any fun e => e.elsewhere self := by
  obtain ⟨⟨ft, fibers, t⟩, hscan, heq⟩ := map_ok h
  simp only [Prod.mk.injEq] at heq
  obtain ⟨rfl, rfl, rfl⟩ := heq
  rcases scanFibers_ok hscan with ⟨-, hq, hall, ht⟩ | ⟨e, l, r, hft, -⟩
  · refine ⟨?_, hall, ht⟩
    simp [hq]
  · cases hft

/-- A scan that takes a task takes the first that it may, and leaves the others in
order. -/
theorem take_some {e : FiberAndThread Cb} (h : q.take self state = .ok (q', some e, tickleMe)) :
    ∃ l r, q.fibers = l ++ e :: r ∧
      q' = { q with fibers := l ++ r, taken := q.taken ++ [(self, e)] } ∧
      (∀ x ∈ l, x.eligible self state = false) ∧ e.eligible self state = true ∧
      e.isSome = true := by
  obtain ⟨⟨ft, fibers, t⟩, hscan, heq⟩ := map_ok h
  simp only [Prod.mk.injEq] at heq
  obtain ⟨rfl, rfl, rfl⟩ := heq
  rcases scanFibers_ok hscan with ⟨hft, -⟩ | ⟨e', l, r, hft, hq, hq', hl, he, hsome, -⟩
  · cases hft
  · obtain rfl : e = e' := Option.some.inj hft
    exact ⟨l, r, hq, by rw [hq']; rfl, hl, he, hsome⟩

theorem take_error {a : Assertion} (h : q.take self state = .error a) :
    a = .task ∧ ∃ e ∈ q.fibers, e.isSome = false := by
  cases hscan : scanFibers self state q.fibers with
  | ok x => rw [take, hscan] at h; cases h
  | error e =>
      rw [take, hscan] at h
      obtain rfl : e = a := Except.error.inj h
      exact scanFibers_error hscan

/-! ### The history -/

/-- Every task pushed is queued or was taken by a thread that it allows, once; the
queue is in the order of the pushes. -/
structure Sound (q : TaskQueue Cb) : Prop where
  conserved : (q.taken.map Prod.snd ++ q.fibers).Perm q.pushed
  nos : q.pushed.map FiberAndThread.no = List.range q.pushed.length
  some : ∀ e ∈ q.pushed, e.isSome = true
  allowed : ∀ t ∈ q.taken, t.2.thread = -1 ∨ t.2.thread = t.1
  order : q.fibers.Sublist q.pushed

theorem Sound.empty : Sound ({} : TaskQueue Cb) :=
  ⟨.refl _, rfl, by simp, by simp, .refl _⟩

theorem Sound.appends {new : List (FiberAndThread Cb)} (h : Sound q) (ha : Appends q q' new) :
    Sound q' where
  conserved := by
    rw [ha.taken, ha.fibers, ha.pushed, ← List.append_assoc]
    exact h.conserved.append_right new
  nos := by
    rw [ha.pushed, List.map_append, h.nos, ha.nos, List.length_append, List.range_eq_range',
      List.range_eq_range']
    simpa using List.range'_append_1 (s := 0) (m := q.pushed.length) (n := new.length)
  some := by
    rw [ha.pushed]
    exact fun e he => (List.mem_append.mp he).elim (h.some e) (ha.some e)
  allowed := by
    rw [ha.taken]
    exact h.allowed
  order := by
    rw [ha.fibers, ha.pushed]
    exact h.order.append (.refl new)

/-- A task that thread `self` may take goes over into the history. -/
theorem Sound.erase {e : FiberAndThread Cb} {l r : List (FiberAndThread Cb)} (h : Sound q)
    (hq : q.fibers = l ++ e :: r) (he : e.eligible self state = true) :
    Sound { q with fibers := l ++ r, taken := q.taken ++ [(self, e)] } := by
  refine ⟨?_, h.nos, h.some, fun t ht => ?_, ?_⟩
  · have hmove : (e :: (l ++ r)).Perm (l ++ e :: r) := List.perm_middle.symm
    refine List.Perm.trans ?_ h.conserved
    rw [hq, List.map_append, List.append_assoc]
    exact hmove.append_left _
  · rcases List.mem_append.mp ht with ht | ht
    · exact h.allowed t ht
    · rw [List.mem_singleton.mp ht]
      simp only [FiberAndThread.eligible, FiberAndThread.elsewhere, Bool.and_eq_true,
        Bool.not_eq_true', Bool.and_eq_false_iff, bne_eq_false_iff_eq] at he
      exact he.1
  · refine List.Sublist.trans ?_ h.order
    rw [hq]
    exact (List.Sublist.refl l).append (List.sublist_cons_self e r)

/-- No push is taken twice. -/
theorem Sound.taken_nodup (h : Sound q) :
    (q.taken.map fun t => t.2.no).Nodup := by
  have hall : ((q.taken.map Prod.snd ++ q.fibers).map FiberAndThread.no).Nodup :=
    ((h.conserved.map _).nodup_iff).mpr (h.nos ▸ List.nodup_range)
  rw [List.map_append, List.map_map] at hall
  exact hall.of_append_left

end TaskQueue

end CoLib
