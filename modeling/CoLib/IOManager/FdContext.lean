/-
# `CoLib.IOManager.FdContext` — the events registered on a descriptor

`IOManager::FdContext` holds the events a descriptor waits for, as a bit mask,
and for each of them the `EventContext` with the waiter: the callback or the
fiber that is handed to the scheduler when the event is triggered.

The waiter is moved out of the context by the pointer constructors of
`FiberAndThread`, which swap it with an empty one.  To follow it through, each
registration has a number: a stored waiter carries the number of the `addEvent`
that stored it, and the log says what was stored under a number, that it was
handed to a scheduler, and that it was removed, and by which operation.  No
operation reads the numbers.

A failed `CO_LIB_ASSERT` ends the process; it is an error here.
-/
import CoLib.Lib.Run
import CoLib.Lib.Tally

namespace CoLib

/-- `IOManager::Event`. -/
inductive Event where
  | NONE
  | READ
  | WRITE
  deriving DecidableEq

/-- A bit mask of events. -/
structure Events where
  read : Bool
  write : Bool
  deriving DecidableEq

namespace Events

/-- No bit. -/
def none : Events := ⟨false, false⟩

/-- `events & event`. -/
def has (es : Events) : Event → Bool
  | .NONE => false
  | .READ => es.read
  | .WRITE => es.write

/-- `events | event`. -/
def insert (es : Events) : Event → Events
  | .NONE => es
  | .READ => { es with read := true }
  | .WRITE => { es with write := true }

/-- `events & ~event`. -/
def erase (es : Events) : Event → Events
  | .NONE => es
  | .READ => { es with read := false }
  | .WRITE => { es with write := false }

/-- `events & other`. -/
def inter (es other : Events) : Events :=
  ⟨es.read && other.read, es.write && other.write⟩

/-- `events & ~other`. -/
def diff (es other : Events) : Events :=
  ⟨es.read && !other.read, es.write && !other.write⟩

/-- How many bits are set. -/
def bits (es : Events) : Nat :=
  es.read.toNat + es.write.toNat

theorem bits_erase {es : Events} {event : Event} (h : es.has event = true) :
    (es.erase event).bits + 1 = es.bits := by
  obtain ⟨r, w⟩ := es
  cases event with
  | NONE => exact absurd h Bool.false_ne_true
  | READ =>
      obtain rfl : r = true := h
      simp [erase, bits, Nat.add_comm]
  | WRITE =>
      obtain rfl : w = true := h
      rfl

theorem bits_insert {es : Events} {event : Event} (hnone : event ≠ .NONE)
    (h : es.has event = false) : (es.insert event).bits = es.bits + 1 := by
  obtain ⟨r, w⟩ := es
  cases event with
  | NONE => exact absurd rfl hnone
  | READ =>
      obtain rfl : r = false := h
      simp [insert, bits, Nat.add_comm]
  | WRITE =>
      obtain rfl : w = false := h
      simp [insert, bits]

end Events

/-- What ends the process: the failed assertions, named by what they check, and
the calls through a null pointer. -/
inductive Failure where
  | getContext
  | triggerEvent
  | nullScheduler
  | nullFdContext
  | addEventTwice
  | addEventContext
  | addEventFiberState
  | cancelAllEvents
  deriving DecidableEq

/-- A stored fiber or callback, with the number of its registration. -/
structure Waiter (α : Type) where
  reg : Nat
  val : α

/-- `FdContext::EventContext`. -/
structure EventContext (S F C : Type) where
  scheduler : Option S
  fiber : Option (Waiter F)
  cb : Option (Waiter C)

namespace EventContext

variable {S F C : Type}

/-- A context without waiter. -/
def empty : EventContext S F C := { scheduler := none, fiber := none, cb := none }

/-- The registrations whose waiters are stored. -/
def regs (ctx : EventContext S F C) : List Nat :=
  (ctx.fiber.map Waiter.reg).toList ++ (ctx.cb.map Waiter.reg).toList

end EventContext

/-- Who removes a registration. -/
inductive Remover where
  | idle
  | cancelEvent
  | cancelAll
  | delEvent
  deriving DecidableEq

/-- What is recorded of a registration: its waiter is stored, it is handed to a
scheduler, the registration is removed. -/
inductive Entry (S F C : Type) where
  | stored (reg : Nat) (scheduler : Option S) (waiter : F ⊕ C)
  | handed (reg : Nat) (scheduler : S) (waiter : F ⊕ C)
  | removed (reg : Nat) (remover : Remover)

/-- `IOManager::FdContext`. -/
structure FdContext (S F C : Type) where
  read : EventContext S F C
  write : EventContext S F C
  fd : Nat
  events : Events

namespace FdContext

variable {S F C : Type}

/-- `new FdContext`, with its `fd`. -/
def new (fd : Nat) : FdContext S F C :=
  { read := .empty, write := .empty, fd, events := .none }

/-- `getContext(event)`. -/
def getContext (c : FdContext S F C) : Event → Except Failure (EventContext S F C)
  | .NONE => .error .getContext
  | .READ => .ok c.read
  | .WRITE => .ok c.write

/-- Assign to what `getContext(event)` refers to. -/
def setContext (c : FdContext S F C) (event : Event) (ctx : EventContext S F C) :
    FdContext S F C :=
  match event with
  | .NONE => c
  | .READ => { c with read := ctx }
  | .WRITE => { c with write := ctx }

/-- `resetContext(ctx)`. -/
def resetContext (_ctx : EventContext S F C) : EventContext S F C :=
  { scheduler := none, fiber := none, cb := none }

/-- `scheduler->schedule(&ctx.cb)`, or `schedule(&ctx.fiber)` when there is no
callback: the waiter is swapped into the queue entry, which is pushed unless it
is empty. -/
def handOver (ctx : EventContext S F C) (s : S) : EventContext S F C × List (Entry S F C) :=
  match ctx.cb with
  | some w => ({ ctx with cb := none }, [.handed w.reg s (.inr w.val)])
  | none =>
      ({ ctx with fiber := none }, ctx.fiber.toList.map fun w => .handed w.reg s (.inl w.val))

/-- `triggerEvent(event)`, called by `remover`. -/
def triggerEvent (c : FdContext S F C) (event : Event) (remover : Remover) :
    Except Failure (FdContext S F C × List (Entry S F C)) := do
  if c.events.has event then
    let c := { c with events := c.events.erase event }
    let ctx ← c.getContext event
    match ctx.scheduler with
    | none => .error .nullScheduler
    | some s =>
        let removed := ctx.regs.map fun r => .removed r remover
        let (ctx, handed) := handOver ctx s
        let ctx := { ctx with scheduler := none }
        .ok (c.setContext event ctx, removed ++ handed)
  else .error .triggerEvent

end FdContext

end CoLib
