/-
# `CoLib.Timer.Basic` — timers and the timer manager of `timer.cc`

A `TimerManager` keeps its armed timers in a `std::set` ordered by the deadline
`m_next` and then by the address of the `Timer` object.  Deadlines live in the
timers themselves, so the set's order depends on fields that `refresh`, `reset`
and `listExpiredCb` change.

The embedding keeps the objects apart from the set: `heap` lists every `Timer`
ever constructed, a `Timer::ptr` is a position in it, and `addr` is the address
the allocator gave the object, which may be used again after the object has
been released.  `m_timers` is a list of pointers in iteration order, searched
with the comparator on the current fields.  Words are `uint64_t` and wrap.  An
operation returns `none` where the source would dereference a pointer to no
timer or erase `end()`.  `GetCurrentMS()` and addresses are arguments.
-/
import CoLib.Lib.MachineInt
import CoLib.Lib.OrderedSet

namespace CoLib

open Lib

/-- `Timer::ptr`: which of the timers constructed so far. -/
abbrev TimerPtr := Nat

/-- `class Timer`. -/
structure Timer (Cb : Type) where
  recurring : Bool
  ms : Nat
  next : Nat
  cb : Option Cb
  addr : Nat

namespace Timer

variable {Cb : Type}

/-- `Timer::Timer(ms, cb, recurring, manager)`. -/
def new (ms : Nat) (cb : Cb) (recurring : Bool) (now addr : Nat) : Timer Cb :=
  { recurring, ms, next := addWord now ms, cb := some cb, addr }

/-- `Timer::Timer(next)`. -/
def ofNext (next addr : Nat) : Timer Cb :=
  { recurring := false, ms := 0, next, cb := none, addr }

/-- `Timer::Comparator`. -/
def Comparator (lhs rhs : Option (Timer Cb)) : Bool :=
  match lhs, rhs with
  | none, none => false
  | none, some _ => true
  | some _, none => false
  | some lhs, some rhs =>
      if lhs.next < rhs.next then true
      else if lhs.next > rhs.next then false
      else decide (lhs.addr < rhs.addr)

end Timer

/-- `class TimerManager`, with the timers that point to it. -/
structure TimerManager (Cb : Type) where
  heap : List (Timer Cb)
  timers : List TimerPtr
  tickled : Bool
  previousTime : Nat

namespace TimerManager

variable {Cb : Type}

/-- `TimerManager::TimerManager()`. -/
def create (now : Nat) : TimerManager Cb :=
  { heap := [], timers := [], tickled := false, previousTime := now }

/-- The comparator of `m_timers` on the timers as they are now. -/
def before (m : TimerManager Cb) (p q : TimerPtr) : Bool :=
  Timer.Comparator m.heap[p]? m.heap[q]?

/-- Assign fields of `*p`. -/
def store (m : TimerManager Cb) (p : TimerPtr) (f : Timer Cb → Timer Cb) : TimerManager Cb :=
  { m with heap := m.heap.modify p f }

/-- `m_timers.find(p)`. -/
def find (m : TimerManager Cb) (p : TimerPtr) : Option Nat :=
  OrderedSet.find m.before p m.timers

/-- `m_timers.erase(it)` of an iterator that is not `end()`. -/
def erase (m : TimerManager Cb) (it : Nat) : TimerManager Cb :=
  { m with timers := m.timers.eraseIdx it }

/-- `m_timers.insert(p)`, with the iterator it returns. -/
def insert (m : TimerManager Cb) (p : TimerPtr) : TimerManager Cb × Nat :=
  let (timers, it) := OrderedSet.insert m.before p m.timers
  ({ m with timers }, it)

/-- `addTimer(val, lock)`; the flag says that `onTimerInsertedAtFront` is
called. -/
def addTimerLocked (m : TimerManager Cb) (val : TimerPtr) : TimerManager Cb × Bool :=
  let (m, it) := m.insert val
  let atFront := it == 0 && !m.tickled
  (if atFront then { m with tickled := true } else m, atFront)

/-- `addTimer(ms, cb, recurring)`: the timer returned is the newest of the
heap. -/
def addTimer (m : TimerManager Cb) (ms : Nat) (cb : Cb) (recurring : Bool) (now addr : Nat) :
    TimerManager Cb × TimerPtr × Bool :=
  let timer := m.heap.length
  let m := { m with heap := m.heap ++ [Timer.new ms cb recurring now addr] }
  let (m, atFront) := m.addTimerLocked timer
  (m, timer, atFront)

/-- `Timer::cancel()`. -/
def cancel (m : TimerManager Cb) (p : TimerPtr) : Option (TimerManager Cb × Bool) := do
  let t ← m.heap[p]?
  if t.cb.isSome then
    let m := m.store p fun t => { t with cb := none }
    -- `erase(find(..))`: undefined when `find` returns `end()`
    let it ← m.find p
    some (m.erase it, true)
  else some (m, false)

/-- `Timer::refresh()`. -/
def refresh (m : TimerManager Cb) (p : TimerPtr) (now : Nat) :
    Option (TimerManager Cb × Bool) := do
  let t ← m.heap[p]?
  if t.cb.isNone then some (m, false)
  else
    match m.find p with
    | none => some (m, false)
    | some it =>
        let m := m.erase it
        let m := m.store p fun t => { t with next := addWord now t.ms }
        some ((m.insert p).1, true)

/-- `Timer::reset(ms, from_now)`; the second flag says that
`onTimerInsertedAtFront` is called. -/
def reset (m : TimerManager Cb) (p : TimerPtr) (ms : Nat) (fromNow : Bool) (now : Nat) :
    Option (TimerManager Cb × Bool × Bool) := do
  let t ← m.heap[p]?
  if ms = t.ms ∧ fromNow = false then some (m, true, false)
  else if t.cb.isNone then some (m, false, false)
  else
    match m.find p with
    | none => some (m, false, false)
    | some it =>
        let m := m.erase it
        let start := if fromNow then now else subWord t.next t.ms
        let m := m.store p fun t => { t with ms, next := addWord start ms }
        let (m, atFront) := m.addTimerLocked p
        some (m, true, atFront)

/-- `getNextTimer()`. -/
def getNextTimer (m : TimerManager Cb) (now : Nat) : Option (TimerManager Cb × Nat) :=
  let m := { m with tickled := false }
  match m.timers with
  | [] => some (m, wordSize - 1)
  | p :: _ => do
      let next ← m.heap[p]?
      if now ≥ next.next then some (m, 0) else some (m, subWord next.next now)

/-- `detectClockRollover(now_ms)`. -/
def detectClockRollover (m : TimerManager Cb) (now : Nat) : TimerManager Cb × Bool :=
  ({ m with previousTime := now },
    decide (now < m.previousTime ∧ now < subWord m.previousTime (60 * 60 * 1000)))

/-- The iterator up to which `listExpiredCb` takes timers: from `it` on, timers
due exactly now are taken too. -/
def skipDue (m : TimerManager Cb) (now it : Nat) : Nat :=
  it + ((m.timers.drop it).takeWhile fun p => (m.heap[p]?.map Timer.next) == some now).length

/-- The loop of `listExpiredCb` over the timers taken.  Each callback stands
with the timer it is taken from. -/
def takeCbs (now : Nat) : TimerManager Cb → List TimerPtr →
    Option (TimerManager Cb × List (TimerPtr × Option Cb))
  | m, [] => some (m, [])
  | m, p :: expired => do
      let t ← m.heap[p]?
      let m :=
        if t.recurring then
          ((m.store p fun t => { t with next := addWord now t.ms }).insert p).1
        else m.store p fun t => { t with cb := none }
      let (m, cbs) ← takeCbs now m expired
      some (m, (p, t.cb) :: cbs)

/-- `listExpiredCb(cbs)`: what is appended to `cbs`.  `addr` is where
`now_timer` is allocated. -/
def listExpiredCb (m : TimerManager Cb) (now addr : Nat) :
    Option (TimerManager Cb × List (TimerPtr × Option Cb)) :=
  match m.timers with
  | [] => some (m, [])
  | p :: _ => do
      let (m, rollover) := m.detectClockRollover now
      let first ← m.heap[p]?
      if rollover = false ∧ first.next > now then some (m, [])
      else
        let nowTimer := Timer.ofNext now addr
        let it :=
          if rollover then m.timers.length
          else OrderedSet.lowerBound
            (fun q => Timer.Comparator m.heap[q]? (some nowTimer)) m.timers
        let it := m.skipDue now it
        let expired := m.timers.take it
        takeCbs now { m with timers := m.timers.drop it } expired

/-- `hasTimer()`. -/
def hasTimer (m : TimerManager Cb) : Bool :=
  !m.timers.isEmpty

end TimerManager

end CoLib
