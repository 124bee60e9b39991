/-
# `CoLib.Log.Logger` — loggers and their appenders

`LoggerManager` owns the loggers by name and never drops one, so a logger is
known by its name.  Appenders are shared objects: they are kept in a list, and a
pointer is a position in it.  A pattern's parse never changes, so a pointer to a
`LogFormatter` is the formatter itself, `none` for null.

A level is a number, the greater the graver; the events of the macros have levels
from `DEBUG` to `FATAL`.
-/
import CoLib.Log.Formatter
import Mathlib

namespace CoLib.Log

open Config (Text)

/-- `LogLevel::Level`. -/
abbrev LogLevel := Nat

namespace LogLevel

def UNKNOW : LogLevel := 0
def DEBUG : LogLevel := 1
def FATAL : LogLevel := 5

end LogLevel

/-- The classes derived from `LogAppender`. -/
inductive AppenderKind where
  | file (filename : Text)
  | stdout
  deriving DecidableEq

/-- `class LogAppender`. -/
structure LogAppender where
  kind : AppenderKind
  level : LogLevel
  formatter : Option LogFormatter
  hasFormatter : Bool
  deriving DecidableEq

/-- What `Logger::setFormatter` does to an attached appender. -/
def LogAppender.inherit (val : Option LogFormatter) (a : LogAppender) : LogAppender :=
  if a.hasFormatter then a else { a with formatter := val }

/-- What `Logger::addAppender` does to the appender. -/
def LogAppender.adopt (val : Option LogFormatter) (a : LogAppender) : LogAppender :=
  if a.formatter.isSome then a else { a with formatter := val }

/-- `LogAppender::ptr`. -/
abbrev AppenderPtr := Nat

/-- `class Logger`. -/
structure Logger where
  level : LogLevel
  appenders : List AppenderPtr
  formatter : Option LogFormatter
  deriving DecidableEq

/-- `Logger(name)`. -/
def Logger.create : Logger :=
  { level := LogLevel.DEBUG
    appenders := []
    formatter := some (LogFormatter.create
      "%d{%Y-%m-%d %H:%M:%S}%T%t%T%N%T%F%T[%p]%T[%c]%T%f:%l%T%m%n".toList) }

/-- `Logger::log(level, event)` goes on to the appenders. -/
def Logger.reaches (l : Logger) (level : LogLevel) : Prop := l.level ≤ level

/-- `class LoggerManager`, with the appenders there are. -/
structure Loggers where
  heap : List LogAppender
  loggers : Text → Option Logger

namespace Loggers

/-- `getLogger(name)`. -/
def getLogger (m : Loggers) (name : Text) : Loggers :=
  match m.loggers name with
  | some _ => m
  | none => { m with loggers := Function.update m.loggers name (some .create) }

/-- Writing to a logger. -/
def modify (m : Loggers) (name : Text) (f : Logger → Logger) : Loggers :=
  { m with loggers := Function.update m.loggers name ((m.loggers name).map f) }

/-- `logger->setLevel(val)`. -/
def setLevel (m : Loggers) (name : Text) (val : LogLevel) : Loggers :=
  m.modify name fun l => { l with level := val }

/-- `logger->clearAppender()`. -/
def clearAppender (m : Loggers) (name : Text) : Loggers :=
  m.modify name fun l => { l with appenders := [] }

/-- `logger->setFormatter(LogFormatter::ptr val)`. -/
def setFormatter (m : Loggers) (name : Text) (val : Option LogFormatter) : Loggers :=
  let appenders := ((m.loggers name).map Logger.appenders).getD []
  { m.modify name fun l => { l with formatter := val } with
    heap := appenders.foldl (fun heap p => heap.modify p (LogAppender.inherit val)) m.heap }

/-- `logger->setFormatter(const std::string& val)`.  A pattern with an error is
reported, and set all the same. -/
def setFormatterString (m : Loggers) (name : Text) (val : Text) : Loggers :=
  m.setFormatter name (some (LogFormatter.create val))

/-- `logger->addAppender(appender)`. -/
def addAppender (m : Loggers) (name : Text) (p : AppenderPtr) : Loggers :=
  let formatter := (m.loggers name).bind Logger.formatter
  { m.modify name fun l => { l with appenders := l.appenders ++ [p] } with
    heap := m.heap.modify p (LogAppender.adopt formatter) }

/-- `new FileLogAppender(file)` and `new StdoutLogAppender`. -/
def newAppender (m : Loggers) (kind : AppenderKind) : Loggers × AppenderPtr :=
  ({ m with heap := m.heap ++
      [{ kind, level := LogLevel.DEBUG, formatter := none, hasFormatter := false }] },
    m.heap.length)

/-- `ap->setLevel(val)`. -/
def appenderSetLevel (m : Loggers) (p : AppenderPtr) (val : LogLevel) : Loggers :=
  { m with heap := m.heap.modify p fun a => { a with level := val } }

/-- `ap->setFormatter(val)`. -/
def appenderSetFormatter (m : Loggers) (p : AppenderPtr) (val : Option LogFormatter) : Loggers :=
  { m with
    heap := m.heap.modify p fun a => { a with formatter := val, hasFormatter := val.isSome } }

/-- The attached appenders exist. -/
def Valid (m : Loggers) : Prop :=
  ∀ name l, m.loggers name = some l → ∀ p ∈ l.appenders, p < m.heap.length

/-! ## What the operations leave -/

theorem getLogger_self (m : Loggers) (name : Text) :
    (m.getLogger name).loggers name = some ((m.loggers name).getD .create) := by
  rw [getLogger]
  split
  · rename_i l h
    rw [h]
    rfl
  · rename_i h
    rw [h]
    simp

theorem getLogger_update (m : Loggers) (name : Text) (o : Option Logger) :
    Function.update (m.getLogger name).loggers name o = Function.update m.loggers name o := by
  rw [getLogger]
  split
  · rfl
  · simp

@[simp] theorem getLogger_heap (m : Loggers) (name : Text) : (m.getLogger name).heap = m.heap := by
  rw [getLogger]
  split <;> rfl

/-- `setFormatter` changes the attached appenders only. -/
theorem foldl_modify_frame (f : LogAppender → LogAppender) :
    ∀ (ps : List AppenderPtr) (heap : List LogAppender),
      (ps.foldl (fun heap p => heap.modify p f) heap).length = heap.length ∧
      ∀ q, q ∉ ps → (ps.foldl (fun heap p => heap.modify p f) heap)[q]? = heap[q]?
  | [], heap => ⟨rfl, fun _ _ => rfl⟩
  | p :: ps, heap => by
      obtain ⟨hlen, hframe⟩ := foldl_modify_frame f ps (heap.modify p f)
      refine ⟨by simpa using hlen, fun q hq => ?_⟩
      rw [List.mem_cons, not_or] at hq
      obtain ⟨hqp, hqs⟩ := hq
      exact (hframe q hqs).trans (List.getElem?_modify_ne _ _ (Ne.symm hqp))

end Loggers

end CoLib.Log
