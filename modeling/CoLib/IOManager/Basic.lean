/-
# `CoLib.IOManager.Basic` — registering and dispatching events

The part of `iomanager.cc` that keeps `m_fdContexts`, `m_pendingEventCount` and
the interest set of `m_epfd` in step: `addEvent`, `delEvent`, `cancelEvent`,
`cancelAll` and the dispatch loop of `idle`.

Threads run these calls concurrently.  A call looks its `FdContext` up under the
read lock of `m_mutex`, releases it (`addEvent` may have to grow the table under
the write lock in a second step), and then works on the object under
`fd_ctx->mutex`.  Each of these is one step here, and so is the handling of one
`epoll_event`: a critical section touches only its own object and the atomic
counter.  The objects are never freed before the manager, also when the table
no longer holds them, so they are kept in a list and a pointer is a position in
it.

`epoll_ctl` fails where the kernel refuses it (adding a descriptor that is
present, changing one that is absent), and may fail otherwise: the environment
says so in the step.  Whoever closes a descriptor removes it from the kernel's
set.  The counter counts bits of allocated objects, so it cannot overflow; that
its decrement does not wrap is a theorem.
-/
import CoLib.IOManager.FdContext
import CoLib.Lib.MachineInt
import Mathlib

namespace CoLib

open Lib

/-- `FdContext*`. -/
abbrev FdContextPtr := Nat

/-- The bits of `epoll_event::events` that `idle` looks at. -/
structure Mask where
  EPOLLIN : Bool
  EPOLLOUT : Bool
  EPOLLERR : Bool
  EPOLLHUP : Bool
  deriving DecidableEq

/-- `EPOLL_CTL_*`. -/
inductive CtlOp where
  | ADD
  | MOD
  | DEL
  deriving DecidableEq

/-- `class IOManager`, with the kernel's interest set: the events of a
descriptor and the `data.ptr` given with them. -/
structure IOManager (S F C : Type) where
  heap : List (FdContext S F C)
  fdContexts : List FdContextPtr
  pendingEventCount : Nat
  epoll : Nat → Option (Events × FdContextPtr)
  nextReg : Nat
  log : List (Entry S F C)

namespace IOManager

variable {S F C : Type}

/-- `contextResize(size)`: the table is cut or extended, new slots get new
objects. -/
def contextResize (m : IOManager S F C) (size : Nat) : IOManager S F C :=
  let old := m.fdContexts.length
  { m with
    heap := m.heap ++ (List.range (size - old)).map fun i => .new (old + i)
    fdContexts := m.fdContexts.take size ++ (List.range (size - old)).map (m.heap.length + ·) }

/-- The state the constructor leaves. -/
def create : IOManager S F C :=
  contextResize
    { heap := []
      fdContexts := []
      pendingEventCount := 0
      epoll := fun _ => none
      nextReg := 0
      log := [] } 32

/-- `*fd_ctx`. -/
def deref (m : IOManager S F C) (p : FdContextPtr) : Except Failure (FdContext S F C) :=
  match m.heap[p]? with
  | some c => .ok c
  | none => .error .nullFdContext

/-- `epoll_ctl(m_epfd, op, fd, &event)`: the new interest set when it returns 0.
`ok` is false when the environment makes the call fail. -/
def epollCtl (m : IOManager S F C) (op : CtlOp) (fd : Nat) (events : Events) (ptr : FdContextPtr)
    (ok : Bool) : Option (Nat → Option (Events × FdContextPtr)) :=
  if ok then
    match op, m.epoll fd with
    | .ADD, none => some (Function.update m.epoll fd (some (events, ptr)))
    | .MOD, some _ => some (Function.update m.epoll fd (some (events, ptr)))
    | .DEL, some _ => some (Function.update m.epoll fd none)
    | .ADD, some _ => none
    | .MOD, none => none
    | .DEL, none => none
  else none

/-- `--m_pendingEventCount`. -/
def decrement (n : Nat) : Nat :=
  if n = 0 then wordSize - 1 else n - 1

/-- The arguments of `addEvent`, and what it reads from its thread: the current
scheduler, the current fiber and whether that is in state `EXEC`. -/
structure AddArgs (S F C : Type) where
  cb : Option C
  scheduler : Option S
  fiber : F
  exec : Bool

/-- `addEvent` from `fd_ctx->mutex` on. -/
def addEvent (m : IOManager S F C) (fd : Nat) (p : FdContextPtr) (event : Event)
    (args : AddArgs S F C) (ok : Bool) : Except Failure (IOManager S F C × Int) := do
  let c ← m.deref p
  if c.events.has event then .error .addEventTwice
  else
    let op := if c.events = .none then CtlOp.ADD else CtlOp.MOD
    match m.epollCtl op fd (c.events.insert event) p ok with
    | none => .ok (m, -1)
    | some epoll =>
        let pendingEventCount := m.pendingEventCount + 1
        let c := { c with events := c.events.insert event }
        let ctx ← c.getContext event
        if ctx.scheduler.isSome || ctx.fiber.isSome || ctx.cb.isSome then
          .error .addEventContext
        else
          let ctx := { ctx with scheduler := args.scheduler }
          let done (ctx : EventContext S F C) (waiter : F ⊕ C) : IOManager S F C × Int :=
            ({ m with
                heap := m.heap.set p (c.setContext event ctx)
                pendingEventCount
                epoll
                nextReg := m.nextReg + 1
                log := m.log ++ [.stored m.nextReg args.scheduler waiter] }, 0)
          match args.cb with
          | some cb => .ok (done { ctx with cb := some ⟨m.nextReg, cb⟩ } (.inr cb))
          | none =>
              if args.exec then
                .ok (done { ctx with fiber := some ⟨m.nextReg, args.fiber⟩ } (.inl args.fiber))
              else .error .addEventFiberState

/-- `delEvent` from `fd_ctx->mutex` on. -/
def delEvent (m : IOManager S F C) (fd : Nat) (p : FdContextPtr) (event : Event) (ok : Bool) :
    Except Failure (IOManager S F C × Bool) := do
  let c ← m.deref p
  if c.events.has event then
    let newEvents := c.events.erase event
    let op := if newEvents = .none then CtlOp.DEL else CtlOp.MOD
    match m.epollCtl op fd newEvents p ok with
    | none => .ok (m, false)
    | some epoll =>
        let c := { c with events := newEvents }
        let ctx ← c.getContext event
        let removed := ctx.regs.map fun r => .removed r .delEvent
        .ok ({ m with
                heap := m.heap.set p (c.setContext event (FdContext.resetContext ctx))
                pendingEventCount := decrement m.pendingEventCount
                epoll
                log := m.log ++ removed }, true)
  else .ok (m, false)

/-- `fd_ctx->triggerEvent(event); --m_pendingEventCount;` -/
def trigger (m : IOManager S F C) (p : FdContextPtr) (event : Event) (remover : Remover) :
    Except Failure (IOManager S F C) := do
  let c ← m.deref p
  let (c, entries) ← c.triggerEvent event remover
  .ok { m with
        heap := m.heap.set p c
        pendingEventCount := decrement m.pendingEventCount
        log := m.log ++ entries }

/-- `if (mask & event) { fd_ctx->triggerEvent(event); --m_pendingEventCount; }` -/
def triggerIf (m : IOManager S F C) (mask : Bool) (p : FdContextPtr) (event : Event)
    (remover : Remover) : Except Failure (IOManager S F C) :=
  if mask then m.trigger p event remover else .ok m

/-- `cancelEvent` from `fd_ctx->mutex` on. -/
def cancelEvent (m : IOManager S F C) (fd : Nat) (p : FdContextPtr) (event : Event) (ok : Bool) :
    Except Failure (IOManager S F C × Bool) := do
  let c ← m.deref p
  if c.events.has event then
    let newEvents := c.events.erase event
    let op := if newEvents = .none then CtlOp.DEL else CtlOp.MOD
    match m.epollCtl op fd newEvents p ok with
    | none => .ok (m, false)
    | some epoll =>
        let m ← { m with epoll }.trigger p event .cancelEvent
        .ok (m, true)
  else .ok (m, false)

/-- `cancelAll` from `fd_ctx->mutex` on. -/
def cancelAll (m : IOManager S F C) (fd : Nat) (p : FdContextPtr) (ok : Bool) :
    Except Failure (IOManager S F C × Bool) := do
  let c ← m.deref p
  if c.events = .none then .ok (m, false)
  else
    match m.epollCtl .DEL fd .none p ok with
    | none => .ok (m, false)
    | some epoll =>
        let m ← { m with epoll }.triggerIf c.events.read p .READ .cancelAll
        -- the second test reads `fd_ctx->events` again
        let c ← m.deref p
        let m ← m.triggerIf c.events.write p .WRITE .cancelAll
        let c ← m.deref p
        if c.events = .none then .ok (m, true) else .error .cancelAllEvents

/-- The events `idle` makes of a mask: an error or a hang-up stands for both. -/
def realEvents (mask : Mask) : Events :=
  let both := mask.EPOLLERR || mask.EPOLLHUP
  ⟨mask.EPOLLIN || both, mask.EPOLLOUT || both⟩

/-- The body of `idle`'s loop over the `epoll_event`s, for one that is not the
tickle pipe's. -/
def dispatch (m : IOManager S F C) (p : FdContextPtr) (mask : Mask) (ok : Bool) :
    Except Failure (IOManager S F C) := do
  let c ← m.deref p
  let real := realEvents mask
  if c.events.inter real = .none then .ok m
  else
    let leftEvents := c.events.diff real
    let op := if leftEvents = .none then CtlOp.DEL else CtlOp.MOD
    match m.epollCtl op c.fd leftEvents p ok with
    | none => .ok m
    | some epoll =>
        let m ← { m with epoll }.triggerIf real.read p .READ .idle
        m.triggerIf real.write p .WRITE .idle

end IOManager

/-! ## Threads -/

/-- A call of the interface. -/
inductive EventCall (S F C : Type) where
  | addEvent (fd : Nat) (event : Event) (args : IOManager.AddArgs S F C)
  | delEvent (fd : Nat) (event : Event)
  | cancelEvent (fd : Nat) (event : Event)
  | cancelAll (fd : Nat)

/-- The descriptor of a call. -/
def EventCall.fd {S F C : Type} : EventCall S F C → Nat
  | .addEvent fd _ _ => fd
  | .delEvent fd _ => fd
  | .cancelEvent fd _ => fd
  | .cancelAll fd => fd

/-- Where a thread is. -/
inductive EventPhase (S F C : Type) where
  /-- Outside these calls. -/
  | outside
  /-- About to take the read lock and look the descriptor up. -/
  | lookup (call : EventCall S F C)
  /-- In `addEvent`, about to take the write lock and grow the table. -/
  | grow (call : EventCall S F C)
  /-- Holding `fd_ctx`, about to lock its mutex. -/
  | locked (call : EventCall S F C) (p : FdContextPtr)
  /-- In `idle`, with `epoll_event`s left to handle. -/
  | dispatch (events : List (FdContextPtr × Mask))

/-- The manager and its threads. -/
structure EventSys (S F C T : Type) where
  mgr : IOManager S F C
  phase : T → EventPhase S F C

/-- A step of a thread, or of whoever closes a descriptor. -/
inductive EventAct (S F C T : Type) where
  | call (t : T) (call : EventCall S F C)
  | lookup (t : T)
  | grow (t : T)
  | enter (t : T) (ok : Bool)
  | wait (t : T) (events : List (FdContextPtr × Mask))
  | dispatch (t : T) (ok : Bool)
  | close (fd : Nat)

namespace EventSys

variable {S F C T : Type} [DecidableEq T]

/-- A manager whose threads are all outside. -/
def init : EventSys S F C T :=
  { mgr := .create, phase := fun _ => .outside }

/-- The critical section of a call. -/
def critical (m : IOManager S F C) (p : FdContextPtr) (ok : Bool) :
    EventCall S F C → Except Failure (IOManager S F C)
  | .addEvent fd event args => Prod.fst <$> m.addEvent fd p event args ok
  | .delEvent fd event => Prod.fst <$> m.delEvent fd p event ok
  | .cancelEvent fd event => Prod.fst <$> m.cancelEvent fd p event ok
  | .cancelAll fd => Prod.fst <$> m.cancelAll fd p ok

/-- Thread `t` is in phase `ph` next. -/
def goto (s : EventSys S F C T) (t : T) (ph : EventPhase S F C) : EventSys S F C T :=
  { s with phase := Function.update s.phase t ph }

/-- One step; `none` when the thread is not there. -/
def step (s : EventSys S F C T) : EventAct S F C T → Option (Except Failure (EventSys S F C T))
  | .call t call =>
      match s.phase t with
      | .outside => some (.ok (s.goto t (.lookup call)))
      | _ => none
  | .lookup t =>
      match s.phase t with
      | .lookup call =>
          match s.mgr.fdContexts[call.fd]?, call with
          | some p, _ => some (.ok (s.goto t (.locked call p)))
          | none, .addEvent .. => some (.ok (s.goto t (.grow call)))
          | none, _ => some (.ok (s.goto t .outside))
      | _ => none
  | .grow t =>
      match s.phase t with
      | .grow call =>
          -- `contextResize(fd * 1.5)`, truncated
          let m := s.mgr.contextResize (call.fd * 3 / 2)
          match m.fdContexts[call.fd]? with
          | some p => some (.ok ({ s with mgr := m }.goto t (.locked call p)))
          | none => some (.error .nullFdContext)
      | _ => none
  | .enter t ok =>
      match s.phase t with
      | .locked call p =>
          some (do
            let m ← critical s.mgr p ok call
            .ok ({ s with mgr := m }.goto t .outside))
      | _ => none
  | .wait t events =>
      match s.phase t with
      | .outside =>
          -- whatever `epoll_wait` reported, also what is no longer registered
          if events.all fun e => e.1 < s.mgr.heap.length then
            some (.ok (s.goto t (.dispatch events)))
          else none
      | _ => none
  | .dispatch t ok =>
      match s.phase t with
      | .dispatch [] => some (.ok (s.goto t .outside))
      | .dispatch ((p, mask) :: events) =>
          some (do
            let m ← s.mgr.dispatch p mask ok
            .ok ({ s with mgr := m }.goto t (.dispatch events)))
      | _ => none
  | .close fd =>
      some (.ok { s with mgr := { s.mgr with epoll := Function.update s.mgr.epoll fd none } })

end EventSys

end CoLib
