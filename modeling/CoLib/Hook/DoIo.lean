/-
# `CoLib.Hook.DoIo` — the hooked calls that wait

`do_io` and `connect_with_timeout` of `hook.cc`.  A call on a descriptor that
would block arms a condition timer, registers its fiber on the descriptor, and
yields; the fiber is handed to the scheduler when the event is triggered, by
readiness, by a cancellation, or by the callback of the timer.  Then `do_io`
makes the system call again, and `connect_with_timeout` asks for the error of the
socket.

A state is one such call in progress, with what it shares with all others: the
kernel's descriptor, the hooks' record of it, the event manager.  Between any two
accesses of the call to something shared, others may act: workers run the
callbacks of the call's timers, in the steps of `OnTimer` and of the callback;
`idle` waits for the kernel and dispatches what it reports, one event after the
other; threads call into the event manager; and a thread closes the descriptor
with the hooked `close`, or gets the number back from the hooked `socket` or
`accept`.

What is only recorded, and read by nothing: `opened` and `enteredOn` say which of
the descriptors that had the number one after another is meant, and `before` how
many registrations there had been when the kernel reported.
-/
import CoLib.Hook.FdManager
import CoLib.IOManager.Waiters

namespace CoLib

open Lib Relation

/-- `errno`. -/
inductive Errno where
  | EINTR
  | EBADF
  | EAGAIN
  | ETIMEDOUT
  | EINPROGRESS
  | other (e : Nat)
  deriving DecidableEq

/-- What a system call returns. -/
structure SysResult where
  n : Int
  errno : Errno
  deriving DecidableEq

/-- Which function it is. -/
inductive WaitKind where
  | do_io
  | connect_with_timeout
  deriving DecidableEq

/-- The arguments, and what is read from the thread: its scheduler and its fiber.
`ctx` is the `FdContext` of `fd`; `timeoutSo` is read by `do_io` only, `timeoutMs`
by `connect_with_timeout`. -/
structure WaitArgs (S F : Type) where
  kind : WaitKind
  hookEnable : Bool
  fd : Nat
  ctx : FdContextPtr
  event : Event
  timeoutSo : TimeoutOpt
  timeoutMs : Nat
  scheduler : Option S
  fiber : F

/-- A condition timer of the call, and how far its callback is. -/
inductive CondTimer where
  /-- In the timer set. -/
  | armed
  /-- Taken by `listExpiredCb`. -/
  | taken
  /-- In the callback, with `t` locked. -/
  | locked
  /-- Past the test of `t->cancelled`. -/
  | passed
  /-- Has set `t->cancelled`, about to call `cancelEvent`. -/
  | owing
  /-- The callback has returned. -/
  | over
  /-- Cancelled in time. -/
  | cancelled
  deriving DecidableEq

namespace CondTimer

/-- The callback holds a strong pointer to `tinfo`. -/
def holds : CondTimer → Bool
  | locked => true
  | passed => true
  | owing => true
  | _ => false

/-- The timer is armed, or its callback has not returned. -/
def pending : CondTimer → Bool
  | .over => false
  | .cancelled => false
  | _ => true

/-- `timer->cancel()`. -/
def cancel : CondTimer → CondTimer
  | armed => cancelled
  | t => t

end CondTimer

/-- Where the call is. -/
inductive IoPc where
  | entry
  /-- About to make the system call and return what it returns. -/
  | plain
  /-- About to make the system call (at `retry`). -/
  | call
  /-- About to add the timer. -/
  | arm
  /-- About to call `addEvent`. -/
  | add
  /-- Registered, about to yield. -/
  | yield
  | parked
  /-- Running again, about to cancel the timer. -/
  | resumed
  /-- About to test `tinfo->cancelled`. -/
  | test
  /-- `addEvent` failed; about to cancel the timer. -/
  | refused
  /-- About to ask for `SO_ERROR`. -/
  | getsockopt
  /-- Returned, with `errno` where the call set it last. -/
  | ret (n : Int) (errno : Option Errno)
  deriving DecidableEq

namespace IoPc

/-- The call has not returned. -/
def running : IoPc → Bool
  | .ret _ _ => false
  | _ => true

/-- The call is past its checks: it has taken the descriptor for a socket it may
wait for, and has not returned. -/
def checked : IoPc → Bool
  | .entry | .plain | .ret _ _ => false
  | _ => true

end IoPc

/-- Where another thread is in `close`, or in `socket` or `accept`. -/
inductive ClosePhase where
  | outside
  /-- About to call `cancelAll`. -/
  | closing
  /-- About to call `FdMgr::del`. -/
  | deleting
  /-- About to call `close_f`. -/
  | deleted
  /-- Has a new descriptor, about to call `FdMgr::get(fd, true)`. -/
  | opened
  deriving DecidableEq

/-- An `epoll_event` that a thread in `idle` has not handled yet. -/
structure Report where
  ptr : FdContextPtr
  mask : Mask
  before : Nat
  deriving DecidableEq

/-- The call and what it shares with others. -/
structure IoSys (S F C T : Type) where
  kernel : Kernel
  opened : Nat
  fds : FdManager
  mgr : IOManager S F C
  pc : IoPc
  timeout : Nat
  cancelled : Option Errno
  timers : List CondTimer
  timer : Option Nat
  reg : Option Nat
  enteredOn : Option Nat
  reports : T → List Report
  others : T → ClosePhase

/-- A step of the call, of a callback of its timers, or of others. -/
inductive IoAct (S F C T : Type) where
  | enter
  | call (r : SysResult)
  | arm
  | add (ok : Bool)
  | yield
  | resume
  | disarm
  | test
  | getsockopt (r : SysResult) (error : Option Errno)
  | expire (i : Nat)
  | lock (i : Nat)
  | check (i : Nat)
  | set (i : Nat)
  | cancelEvent (i : Nat) (ok : Bool)
  | event (p : FdContextPtr) (call : EventCall S F C) (ok : Bool)
  | wait (t : T) (events : List (FdContextPtr × Mask))
  | dispatch (t : T) (ok : Bool)
  | resize (size : Nat)
  | close (t : T) (hooked iom : Bool)
  | cancelAll (t : T) (ok : Bool)
  | del (t : T)
  | close_f (t : T)
  | socket (t : T) (file : File) (hooked : Bool)
  | get (t : T)

/-- The step is neither the call's nor a callback's. -/
def IoAct.foreign {S F C T : Type} : IoAct S F C T → Bool
  | .event .. | .wait .. | .dispatch .. | .resize _ | .close .. | .cancelAll .. | .del _
  | .close_f _ | .socket .. | .get _ => true
  | _ => false

section waiting

variable {S F C : Type}

/-- The registration of the fiber that waits for `event`, if a fiber does. -/
def FdContext.waiting (c : FdContext S F C) (event : Event) : Option Nat :=
  match c.events.has event, c.getContext event with
  | true, .ok ctx => ctx.fiber.map Waiter.reg
  | _, _ => none

/-- The registration of the fiber that waits for `event` on `*p`. -/
def IOManager.waiting (m : IOManager S F C) (p : FdContextPtr) (event : Event) : Option Nat :=
  (m.heap[p]?).bind fun c => c.waiting event

end waiting

namespace IOManager

variable {S F C : Type} {m m' : IOManager S F C} {p : FdContextPtr} {event : Event}

/-- A new registration has the next number. -/
theorem addEvent_nextReg {fd : Nat} {args : AddArgs S F C} {ok : Bool}
    (h : m.addEvent fd p event args ok = .ok (m', 0)) : m'.nextReg = m.nextReg + 1 := by
  obtain ⟨c, hc, h⟩ := bind_ok h
  split at h
  · exact absurd h (by simp)
  · dsimp only at h
    split at h
    · exact absurd h (by simp)
    · obtain ⟨ctx, hctx, h⟩ := bind_ok h
      split at h
      · exact absurd h (by simp)
      · split at h
        · obtain ⟨rfl, -⟩ := Prod.mk.inj (Except.ok.inj h)
          rfl
        · split at h
          · obtain ⟨rfl, -⟩ := Prod.mk.inj (Except.ok.inj h)
            rfl
          · exact absurd h (by simp)

end IOManager

namespace IoSys

variable {S F C T : Type}

/-- Before the call: no timer, nobody in `close`. -/
def init (kernel : Kernel) (fds : FdManager) (mgr : IOManager S F C) : IoSys S F C T :=
  { kernel
    opened := 0
    fds
    mgr
    pc := .entry
    timeout := 0
    cancelled := none
    timers := []
    timer := none
    reg := none
    enteredOn := none
    reports := fun _ => []
    others := fun _ => .outside }

/-- `tinfo` exists: the call has not returned, or a callback holds it. -/
def alive (s : IoSys S F C T) : Bool :=
  s.pc.running || s.timers.any CondTimer.holds

/-- The fiber has been handed to its scheduler. -/
def handed (s : IoSys S F C T) : Bool :=
  s.reg.any fun r => s.mgr.log.any (Entry.hands r)

/-- The checks before the first system call. -/
def enter (a : WaitArgs S F) (s : IoSys S F C T) : IoSys S F C T :=
  if a.hookEnable then
    match s.fds.find a.fd with
    | none =>
        match a.kind with
        | .do_io => { s with pc := .plain }
        | .connect_with_timeout => { s with pc := .ret (-1) (some .EBADF) }
    | some ctx =>
        if ctx.isClosed then { s with pc := .ret (-1) (some .EBADF) }
        else if !ctx.isSocket || ctx.userNonblock then { s with pc := .plain }
        else
          { s with
            pc := .call
            enteredOn := some s.opened
            timeout :=
              match a.kind with
              | .do_io => ctx.getTimeout a.timeoutSo
              | .connect_with_timeout => a.timeoutMs }
  else { s with pc := .plain }

/-- What becomes of the result of the system call. -/
def callResult (a : WaitArgs S F) (s : IoSys S F C T) (r : SysResult) : IoSys S F C T :=
  match a.kind with
  | .do_io =>
      if r = ⟨-1, .EINTR⟩ then s
      else if r = ⟨-1, .EAGAIN⟩ then { s with pc := .arm }
      else { s with pc := .ret r.n (some r.errno) }
  | .connect_with_timeout =>
      if r = ⟨-1, .EINPROGRESS⟩ then { s with pc := .arm }
      else { s with pc := .ret r.n (some r.errno) }

/-- `if (to != -1) timer = iom->addConditionTimer(to, ..)`. -/
def arm (s : IoSys S F C T) : IoSys S F C T :=
  if s.timeout = wordSize - 1 then { s with pc := .add, timer := none }
  else { s with pc := .add, timer := some s.timers.length, timers := s.timers ++ [.armed] }

/-- `rt = iom->addEvent(fd, event)`. -/
def add (a : WaitArgs S F) (s : IoSys S F C T) (ok : Bool) : Except Failure (IoSys S F C T) := do
  let args : IOManager.AddArgs S F C :=
    { cb := none, scheduler := a.scheduler, fiber := a.fiber, exec := true }
  -- the kernel refuses a descriptor that is not open
  let (mgr, rt) ← s.mgr.addEvent a.fd a.ctx a.event args (ok && (s.kernel a.fd).isSome)
  if rt = 0 then .ok { s with mgr, pc := .yield, reg := some s.mgr.nextReg }
  else .ok { s with mgr, pc := .refused }

/-- `if (timer) timer->cancel()`. -/
def cancelTimer (s : IoSys S F C T) : IoSys S F C T :=
  match s.timer with
  | none => s
  | some i => { s with timers := s.timers.modify i CondTimer.cancel }

/-- A callback goes on. -/
def setTimer (s : IoSys S F C T) (i : Nat) (t : CondTimer) : IoSys S F C T :=
  { s with timers := s.timers.set i t }

variable [DecidableEq T]

/-- Thread `t` is in phase `ph` next. -/
def goto (s : IoSys S F C T) (t : T) (ph : ClosePhase) : IoSys S F C T :=
  { s with others := Function.update s.others t ph }

/-- One step; `none` when it is not enabled. -/
def step (a : WaitArgs S F) (s : IoSys S F C T) :
    IoAct S F C T → Option (Except Failure (IoSys S F C T))
  | .enter => if s.pc = .entry then some (.ok (s.enter a)) else none
  | .call r =>
      if (s.kernel a.fd).isNone ∧ r ≠ ⟨-1, .EBADF⟩ then none
      else
        match s.pc with
        | .plain => some (.ok { s with pc := .ret r.n (some r.errno) })
        | .call => some (.ok (s.callResult a r))
        | _ => none
  | .arm => if s.pc = .arm then some (.ok s.arm) else none
  | .add ok => if s.pc = .add then some (s.add a ok) else none
  | .yield => if s.pc = .yield then some (.ok { s with pc := .parked }) else none
  | .resume => if s.pc = .parked ∧ s.handed then some (.ok { s with pc := .resumed }) else none
  | .disarm =>
      match s.pc, a.kind with
      | .resumed, _ => some (.ok { s.cancelTimer with pc := .test })
      | .refused, .do_io => some (.ok { s.cancelTimer with pc := .ret (-1) none })
      | .refused, .connect_with_timeout => some (.ok { s.cancelTimer with pc := .getsockopt })
      | _, _ => none
  | .test =>
      match s.pc, s.cancelled, a.kind with
      | .test, some e, _ => some (.ok { s with pc := .ret (-1) (some e) })
      | .test, none, .do_io => some (.ok { s with pc := .call })
      | .test, none, .connect_with_timeout => some (.ok { s with pc := .getsockopt })
      | _, _, _ => none
  | .getsockopt r error =>
      if s.pc = .getsockopt then
        if r.n = -1 then some (.ok { s with pc := .ret (-1) (some r.errno) })
        else
          match error with
          | none => some (.ok { s with pc := .ret 0 none })
          | some e => some (.ok { s with pc := .ret (-1) (some e) })
      else none
  | .expire i => if s.timers[i]? = some .armed then some (.ok (s.setTimer i .taken)) else none
  | .lock i =>
      if s.timers[i]? = some .taken then
        some (.ok (s.setTimer i (if s.alive then .locked else .over)))
      else none
  | .check i =>
      if s.timers[i]? = some .locked then
        some (.ok (s.setTimer i (if s.cancelled.isSome then .over else .passed)))
      else none
  | .set i =>
      if s.timers[i]? = some .passed then
        some (.ok { s.setTimer i .owing with cancelled := some .ETIMEDOUT })
      else none
  | .cancelEvent i ok =>
      if s.timers[i]? = some .owing then
        some (do
          let (mgr, _) ← s.mgr.cancelEvent a.fd a.ctx a.event ok
          .ok { s.setTimer i .over with mgr })
      else none
  | .event p call ok =>
      some (do
        let mgr ← EventSys.critical s.mgr p ok call
        .ok { s with mgr })
  | .wait t events =>
      match s.reports t with
      | [] =>
          -- whatever `epoll_wait` reports, also what is no longer registered
          let reports := events.map fun (ptr, mask) => ⟨ptr, mask, s.mgr.nextReg⟩
          some (.ok { s with reports := Function.update s.reports t reports })
      | _ => none
  | .dispatch t ok =>
      match s.reports t with
      | report :: reports =>
          some (do
            let mgr ← s.mgr.dispatch report.ptr report.mask ok
            .ok { s with mgr, reports := Function.update s.reports t reports })
      | [] => none
  | .resize size => some (.ok { s with mgr := s.mgr.contextResize size })
  | .close t hooked iom =>
      match s.others t with
      | .outside =>
          if hooked && (s.fds.find a.fd).isSome then
            some (.ok (s.goto t (if iom then .closing else .deleting)))
          else some (.ok (s.goto t .deleted))
      | _ => none
  | .cancelAll t ok =>
      match s.others t with
      | .closing =>
          some (do
            let (mgr, _) ← s.mgr.cancelAll a.fd a.ctx ok
            .ok ({ s with mgr }.goto t .deleting))
      | _ => none
  | .del t =>
      match s.others t with
      | .deleting => some (.ok ({ s with fds := s.fds.del a.fd }.goto t .deleted))
      | _ => none
  | .close_f t =>
      match s.others t with
      | .deleted =>
          -- the kernel forgets the descriptor, and that it was registered
          let mgr := { s.mgr with epoll := Function.update s.mgr.epoll a.fd none }
          some (.ok ({ s with
            mgr, kernel := Function.update s.kernel a.fd none }.goto t .outside))
      | _ => none
  | .socket t file hooked =>
      match s.others t, s.kernel a.fd with
      | .outside, none =>
          some (.ok ({ s with
            kernel := Function.update s.kernel a.fd (some file)
            opened := s.opened + 1 }.goto t (if hooked then .opened else .outside)))
      | _, _ => none
  | .get t =>
      match s.others t with
      | .opened =>
          let (fds, kernel) := s.fds.getOrCreate s.kernel a.fd
          some (.ok ({ s with fds, kernel }.goto t .outside))
      | _ => none

/-! ### Parts of a step -/

section parts

omit [DecidableEq T]

theorem enter_eq (a : WaitArgs S F) (s : IoSys S F C T) :
    ∃ pc timeout enteredOn, s.enter a = { s with pc, timeout, enteredOn } ∧
      (pc.checked = false ∧ (pc = .plain ∨ pc = .ret (-1) (some .EBADF)) ∨
        pc = .call ∧ enteredOn = some s.opened ∧ (s.fds.find a.fd).isSome = true) := by
  rw [enter]
  split
  · split
    · split
      · exact ⟨_, s.timeout, s.enteredOn, rfl, .inl ⟨rfl, .inl rfl⟩⟩
      · exact ⟨_, s.timeout, s.enteredOn, rfl, .inl ⟨rfl, .inr rfl⟩⟩
    · rename_i ctx hfind
      split
      · exact ⟨_, s.timeout, s.enteredOn, rfl, .inl ⟨rfl, .inr rfl⟩⟩
      · split
        · exact ⟨_, s.timeout, s.enteredOn, rfl, .inl ⟨rfl, .inl rfl⟩⟩
        · exact ⟨_, _, _, rfl, .inr ⟨rfl, rfl, by rw [hfind]; rfl⟩⟩
  · exact ⟨_, s.timeout, s.enteredOn, rfl, .inl ⟨rfl, .inl rfl⟩⟩

theorem callResult_eq (a : WaitArgs S F) (s : IoSys S F C T) (r : SysResult) :
    ∃ pc, s.callResult a r = { s with pc } ∧
      (pc = s.pc ∨ pc = .arm ∨ pc = .ret r.n (some r.errno)) := by
  rw [callResult]
  split
  · split
    · exact ⟨s.pc, rfl, .inl rfl⟩
    · split
      · exact ⟨_, rfl, .inr (.inl rfl)⟩
      · exact ⟨_, rfl, .inr (.inr rfl)⟩
  · split
    · exact ⟨_, rfl, .inr (.inl rfl)⟩
    · exact ⟨_, rfl, .inr (.inr rfl)⟩

theorem cancelTimer_eq (s : IoSys S F C T) :
    ∃ timers, s.cancelTimer = { s with timers } ∧
      ∀ t ∈ timers, t = CondTimer.owing → t ∈ s.timers := by
  rw [cancelTimer]
  split
  · exact ⟨s.timers, rfl, fun _ ht _ => ht⟩
  · rename_i i _
    refine ⟨_, rfl, ?_⟩
    rintro t ht rfl
    obtain ⟨j, hj⟩ := List.mem_iff_getElem?.mp ht
    rw [List.getElem?_modify] at hj
    split at hj
    · obtain ⟨u, hu, hcancel⟩ := Option.map_eq_some_iff.mp hj
      cases u with
      | owing => exact List.mem_of_getElem? hu
      | _ => exact absurd hcancel (by simp [CondTimer.cancel])
    · exact List.mem_of_getElem? (by simpa using hj)

end parts

/-! ### Steps of others -/

/-- What a step of others does. -/
inductive Others (a : WaitArgs S F) (s : IoSys S F C T) : IoAct S F C T → IoSys S F C T → Prop
  | event {p call ok mgr} : EventSys.critical s.mgr p ok call = .ok mgr →
      Others a s (.event p call ok) { s with mgr }
  | wait {t events} : Others a s (.wait t events) { s with
      reports := Function.update s.reports t
        (events.map fun e => ⟨e.1, e.2, s.mgr.nextReg⟩) }
  | dispatch {t ok report reports mgr} : s.reports t = report :: reports →
      s.mgr.dispatch report.ptr report.mask ok = .ok mgr →
      Others a s (.dispatch t ok) { s with
        mgr, reports := Function.update s.reports t reports }
  | resize {size} : Others a s (.resize size) { s with mgr := s.mgr.contextResize size }
  | close {t iom} : s.others t = .outside →
      Others a s (.close t true iom) (s.goto t (if iom then .closing else .deleting))
  | closeRaw {t hooked iom} : s.others t = .outside →
      (hooked && (s.fds.find a.fd).isSome) = false →
      Others a s (.close t hooked iom) (s.goto t .deleted)
  | cancelAll {t ok mgr b} : s.others t = .closing →
      s.mgr.cancelAll a.fd a.ctx ok = .ok (mgr, b) →
      Others a s (.cancelAll t ok) ({ s with mgr }.goto t .deleting)
  | del {t} : s.others t = .deleting →
      Others a s (.del t) ({ s with fds := s.fds.del a.fd }.goto t .deleted)
  | close_f {t} : s.others t = .deleted →
      Others a s (.close_f t) ({ s with
        mgr := { s.mgr with epoll := Function.update s.mgr.epoll a.fd none }
        kernel := Function.update s.kernel a.fd none }.goto t .outside)
  | socket {t file hooked} :
      Others a s (.socket t file hooked) ({ s with
        kernel := Function.update s.kernel a.fd (some file)
        opened := s.opened + 1 }.goto t (if hooked then .opened else .outside))
  | get {t} : s.others t = .opened →
      Others a s (.get t) ({ s with
        fds := (s.fds.getOrCreate s.kernel a.fd).1
        kernel := (s.fds.getOrCreate s.kernel a.fd).2 }.goto t .outside)

variable {a : WaitArgs S F} {s s' : IoSys S F C T} {act : IoAct S F C T}

theorem step_others (hact : act.foreign = true) (hstep : s.step a act = some (.ok s')) :
    Others a s act s' := by
  cases act with
  | event p call ok =>
      obtain ⟨mgr, hm, h⟩ := bind_ok (Option.some.inj hstep)
      obtain rfl := Except.ok.inj h
      exact .event hm
  | wait t events =>
      simp only [step] at hstep
      split at hstep
      · obtain rfl := Except.ok.inj (Option.some.inj hstep)
        exact .wait
      · cases hstep
  | dispatch t ok =>
      simp only [step] at hstep
      split at hstep
      · rename_i report reports hreports
        obtain ⟨mgr, hm, h⟩ := bind_ok (Option.some.inj hstep)
        obtain rfl := Except.ok.inj h
        exact .dispatch hreports hm
      · cases hstep
  | resize size =>
      obtain rfl := Except.ok.inj (Option.some.inj hstep)
      exact .resize
  | close t hooked iom =>
      simp only [step] at hstep
      split at hstep
      · rename_i hout
        split at hstep
        · rename_i hfind
          obtain rfl := Except.ok.inj (Option.some.inj hstep)
          obtain ⟨rfl, -⟩ := Bool.and_eq_true_iff.mp hfind
          exact .close hout
        · rename_i hfind
          obtain rfl := Except.ok.inj (Option.some.inj hstep)
          exact .closeRaw hout (Bool.not_eq_true _ ▸ hfind)
      · cases hstep
  | cancelAll t ok =>
      simp only [step] at hstep
      split at hstep
      · rename_i hclosing
        obtain ⟨⟨mgr, b⟩, hm, h⟩ := bind_ok (Option.some.inj hstep)
        obtain rfl := Except.ok.inj h
        exact .cancelAll hclosing hm
      · cases hstep
  | del t =>
      simp only [step] at hstep
      split at hstep
      · obtain rfl := Except.ok.inj (Option.some.inj hstep)
        exact .del ‹_›
      · cases hstep
  | close_f t =>
      simp only [step] at hstep
      split at hstep
      · obtain rfl := Except.ok.inj (Option.some.inj hstep)
        exact .close_f ‹_›
      · cases hstep
  | socket t file hooked =>
      simp only [step] at hstep
      split at hstep
      · obtain rfl := Except.ok.inj (Option.some.inj hstep)
        exact .socket
      · cases hstep
  | get t =>
      simp only [step] at hstep
      split at hstep
      · obtain rfl := Except.ok.inj (Option.some.inj hstep)
        exact .get ‹_›
      · cases hstep
  | _ => exact absurd hact Bool.false_ne_true

/-- Others do nothing to the call; they move the manager, and only `socket` and
`accept` give the number out. -/
theorem Others.frame (h : Others a s act s') :
    ∃ kernel opened fds mgr reports others,
      s' = { s with kernel, opened, fds, mgr, reports, others } ∧
      ReflTransGen (IOManager.Move fun _ => True) s.mgr mgr ∧
      (opened = s.opened ∨ ∃ t file hooked, act = .socket t file hooked) := by
  cases h with
  | @event p call ok mgr hm =>
      have hok : EventSys.CallOk (fun _ => True) call := by cases call <;> trivial
      exact ⟨_, _, _, mgr, _, _, rfl, EventSys.critical_moves hok hm, .inl rfl⟩
  | dispatch _ hm => exact ⟨_, _, _, _, _, _, rfl, IOManager.dispatch_moves hm, .inl rfl⟩
  | resize => exact ⟨_, _, _, _, _, _, rfl, .single (.resize _ _), .inl rfl⟩
  | cancelAll _ hm => exact ⟨_, _, _, _, _, _, rfl, IOManager.cancelAll_moves hm, .inl rfl⟩
  | close_f => exact ⟨_, _, _, _, _, _, rfl, .single (.epoll _ _), .inl rfl⟩
  | @socket t file hooked =>
      exact ⟨_, _, _, _, _, _, rfl, .refl, .inr ⟨t, file, hooked, rfl⟩⟩
  | wait | close | closeRaw | del | get => exact ⟨_, _, _, _, _, _, rfl, .refl, .inl rfl⟩

theorem Others.moves (h : Others a s act s') :
    ReflTransGen (IOManager.Move fun _ => True) s.mgr s'.mgr := by
  obtain ⟨_, _, _, _, _, _, rfl, hmoves, -⟩ := h.frame
  exact hmoves

/-! ### A call -/

/-- A `recv` on descriptor 5. -/
def recv5 : WaitArgs Unit Unit :=
  { kind := .do_io
    hookEnable := true
    fd := 5
    ctx := 5
    event := .READ
    timeoutSo := .SO_RCVTIMEO
    timeoutMs := 0
    scheduler := some ()
    fiber := () }

/-- Descriptor 5 is a socket with a receive timeout of one second. -/
def socket5 : IoSys Unit Unit Unit Unit :=
  let kernel : Kernel := fun fd => if fd = 5 then some ⟨true, 0⟩ else none
  let (fds, kernel) := FdManager.create.getOrCreate kernel 5
  init kernel (fds.modify 5 fun c => c.setTimeout .SO_RCVTIMEO 1000) .create

end IoSys

end CoLib
