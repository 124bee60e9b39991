/-
# `CoLib.Log.Output` — what is logged

The items of a formatter write an event one after the other, and a logger hands
an event to its appenders, or to those of the root logger where it has none.  An
appender takes its formatter without looking whether there is one: a null
pointer is `none` here.

`strftime` with `localtime_r` is a parameter.  The stream of an appender and when
a file is opened again are left out.
-/
import CoLib.Log.Pattern
import CoLib.Log.Codec

namespace CoLib.Log

open Config (Text)

/-- `class LogEvent`, with the name of its logger. -/
structure LogEvent where
  file : Text
  line : Int
  elapse : Nat
  threadId : Nat
  fiberId : Nat
  time : Nat
  content : Text
  threadName : Text
  logger : Text

section Format

variable (strftime : Text → Nat → Text)

/-- `format(os, logger, level, event)` of the classes derived from `FormatItem`. -/
def FormatItem.format (level : LogLevel) (event : LogEvent) : FormatItem → Text
  | .message => event.content
  | .level => LogLevel.toString level
  | .elapse => (ToString.toString event.elapse).toList
  | .name => event.logger
  | .threadId => (ToString.toString event.threadId).toList
  | .newLine => ['\n']
  | .dateTime format => strftime format event.time
  | .filename => event.file
  | .line => (ToString.toString event.line).toList
  | .tab => ['\t']
  | .fiberId => (ToString.toString event.fiberId).toList
  | .threadName => event.threadName
  | .string str => str

/-- `LogFormatter::format`. -/
def LogFormatter.format (f : LogFormatter) (level : LogLevel) (event : LogEvent) : Text :=
  f.items.flatMap (FormatItem.format strftime level event)

/-- What a token is written as. -/
def Token.format (level : LogLevel) (event : LogEvent) : Token → Text
  | .char c => [c]
  | .item i => i.format strftime level event

/-- A formatter writes its tokens. -/
theorem LogFormatter.format_eq (f : LogFormatter) (level : LogLevel) (event : LogEvent) :
    f.format strftime level event =
      (tokensOf f.items).flatMap (Token.format strftime level event) := by
  have hitem : ∀ i : FormatItem, i.tokens.flatMap (Token.format strftime level event) =
      i.format strftime level event := by
    intro i
    cases i with
    | string str => simp [FormatItem.tokens, FormatItem.format, Token.format, List.flatMap_map]
    | _ => simp [FormatItem.tokens, Token.format]
  rw [LogFormatter.format, tokensOf, List.flatMap_assoc]
  exact congrArg f.items.flatMap (funext fun i => (hitem i).symm)

/-- The text of pieces without an escape is a pattern that writes each literal and each
directive, for every event. -/
theorem LogFormatter.format_of_fit {ps : List PatternPiece} (hfit : PatternPiece.Fit false ps)
    (hesc : PatternPiece.escape ∉ ps) (level : LogLevel) (event : LogEvent) :
    (create (PatternPiece.texts false ps)).format strftime level event =
      ps.flatMap fun p => p.tokens.flatMap (Token.format strftime level event) := by
  rw [format_eq, (create_of_fit hfit hesc).2, List.flatMap_assoc]

/-- `appender->log(logger, level, event)`: what it writes. -/
def LogAppender.log (level : LogLevel) (event : LogEvent) (a : LogAppender) :
    Option (List (AppenderKind × Text)) :=
  if a.level ≤ level then
    a.formatter.map fun f => [(a.kind, f.format strftime level event)]
  else some []

namespace Loggers

/-- The loop of `Logger::log` over the appenders. -/
def logAppenders (m : Loggers) (level : LogLevel) (event : LogEvent) :
    List AppenderPtr → Option (List (AppenderKind × Text))
  | [] => some []
  | p :: ps => do
      let a ← m.heap[p]?
      let out ← a.log strftime level event
      let outs ← logAppenders m level event ps
      some (out ++ outs)

/-- The name of `m_root`. -/
def rootName : Text := "root".toList

/-- `logger->log(level, event)`. -/
def log (m : Loggers) (name : Text) (level : LogLevel) (event : LogEvent) :
    Option (List (AppenderKind × Text)) :=
  match m.loggers name with
  | none => none
  | some l =>
      if l.level ≤ level then
        if !l.appenders.isEmpty then m.logAppenders strftime level event l.appenders
        else if name ≠ rootName then
          match m.loggers rootName with
          | none => some []
          | some root =>
              if root.level ≤ level then m.logAppenders strftime level event root.appenders
              else some []
        else some []
      else some []

/-- The appenders of a list are all there and have formatters. -/
theorem logAppenders_isSome (m : Loggers) (level : LogLevel) (event : LogEvent) :
    ∀ ps : List AppenderPtr,
      (∀ p ∈ ps, ∃ a, m.heap[p]? = some a ∧ a.formatter.isSome = true) →
      (m.logAppenders strftime level event ps).isSome = true
  | [], _ => rfl
  | p :: ps, h => by
      obtain ⟨a, ha, hf⟩ := h p List.mem_cons_self
      obtain ⟨f, hf⟩ := Option.isSome_iff_exists.mp hf
      obtain ⟨outs, houts⟩ := Option.isSome_iff_exists.mp
        (logAppenders_isSome m level event ps fun q hq => h q (List.mem_cons_of_mem _ hq))
      have hout : ∃ out, a.log strftime level event = some out := by
        rw [LogAppender.log, hf]
        split
        · exact ⟨_, rfl⟩
        · exact ⟨_, rfl⟩
      obtain ⟨out, hout⟩ := hout
      rw [logAppenders, ha, Option.bind_eq_bind, Option.bind_some, hout, Option.bind_eq_bind,
        Option.bind_some, houts]
      rfl

end Loggers

end Format

end CoLib.Log
