/-
# `CoLib.Log.Formatter` — parsing a pattern

`LogFormatter::init` cuts a pattern in pieces: text, and directives `%x` or
`%x{fmt}`.  A piece that is a directive becomes the format item registered under
its letter; an unknown letter or an unclosed brace sets `m_error`.

The source's index `i` is here the list of the characters still to be read.  The
inner loop reads ahead and says how many characters it has used, and the outer
loop skips as many (`i = n - 1`); where the brace is not closed nothing is
skipped, and the outer loop reads the same characters again.
-/
import CoLib.Config.Load

namespace CoLib.Log

open Config (Text)

/-- The classes derived from `LogFormatter::FormatItem`. -/
inductive FormatItem where
  | message
  | level
  | elapse
  | name
  | threadId
  | newLine
  | dateTime (format : Text)
  | filename
  | line
  | tab
  | fiberId
  | threadName
  | string (str : Text)
  deriving DecidableEq

/-- `DateTimeFormatItem(format)`. -/
def dateTimeItem (format : Text) : FormatItem :=
  .dateTime (if format.isEmpty then "%Y-%m-%d %H:%M:%S".toList else format)

/-- `s_format_items.find(str)`, applied to `fmt`. -/
def formatItem (str fmt : Text) : Option FormatItem :=
  match str with
  | ['m'] => some .message
  | ['p'] => some .level
  | ['r'] => some .elapse
  | ['c'] => some .name
  | ['t'] => some .threadId
  | ['n'] => some .newLine
  | ['d'] => some (dateTimeItem fmt)
  | ['f'] => some .filename
  | ['l'] => some .line
  | ['T'] => some .tab
  | ['F'] => some .fiberId
  | ['N'] => some .threadName
  | _ => none

/-- An element of `vec`: a text and its format, and whether it is a directive. -/
structure Piece where
  str : Text
  fmt : Text
  directive : Bool
  deriving DecidableEq

/-- What the inner loop leaves: `str`, `fmt`, `n - (i + 1)` and
`fmt_status == 0`. -/
structure Directive where
  str : Text
  fmt : Text
  used : Nat
  closed : Bool
  deriving DecidableEq

/-- The inner loop with `fmt_status == 1`: `fmt` is what was read since the
brace, `word` all that was read since `%`. -/
def braced (str word fmt : Text) : Text → Directive
  | [] =>
      { str := if str.isEmpty then word else str, fmt := [], used := word.length, closed := false }
  | c :: cs =>
      if c = '}' then { str, fmt, used := word.length + 1, closed := true }
      else braced str (word ++ [c]) (fmt ++ [c]) cs

/-- The inner loop with `fmt_status == 0`. -/
def directive (word : Text) : Text → Directive
  | [] => { str := word, fmt := [], used := word.length, closed := true }
  | c :: cs =>
      if !c.isAlpha && c != '{' && c != '}' then
        { str := word, fmt := [], used := word.length, closed := true }
      else if c = '{' then
        match cs with
        | [] => { str := word, fmt := [], used := word.length + 1, closed := false }
        | c' :: cs => braced word (word ++ ['{']) [] (c' :: cs)
      else directive (word ++ [c]) cs

/-- `if (!nstr.empty()) vec.push_back(…)` -/
def flush (nstr : Text) : List Piece :=
  if nstr.isEmpty then [] else [⟨nstr, [], false⟩]

/-- The outer loop: `vec` and whether `m_error` was set. -/
def pieces : Nat → Text → Text → List Piece × Bool
  | _, nstr, [] => (flush nstr, false)
  | skip + 1, nstr, _ :: cs => pieces skip nstr cs
  | 0, nstr, c :: cs =>
      if c ≠ '%' then pieces 0 (nstr ++ [c]) cs
      -- the second sign of `%%` is read again
      else if cs.head? = some '%' then pieces 0 (nstr ++ ['%']) cs
      else
        let d := directive [] cs
        if d.closed then
          let (vec, error) := pieces d.used [] cs
          (flush nstr ++ ⟨d.str, d.fmt, true⟩ :: vec, error)
        else
          let (vec, _) := pieces 0 nstr cs
          (⟨"<<pattern_error>>".toList, d.fmt, false⟩ :: vec, true)

/-- `class LogFormatter`. -/
structure LogFormatter where
  pattern : Text
  items : List FormatItem
  error : Bool
  deriving DecidableEq

namespace LogFormatter

/-- The item of a piece, and whether it is one. -/
def itemOf (p : Piece) : FormatItem × Bool :=
  if p.directive then
    match formatItem p.str p.fmt with
    | some item => (item, true)
    | none => (.string ("<<error_format %".toList ++ p.str ++ ">>".toList), false)
  else (.string p.str, true)

/-- `LogFormatter(pattern)`, with `init()`. -/
def create (pattern : Text) : LogFormatter :=
  let (vec, error) := pieces 0 [] pattern
  { pattern
    items := vec.map fun p => (itemOf p).1
    error := error || vec.any fun p => !(itemOf p).2 }

/-- `isError()`. -/
def isError (f : LogFormatter) : Bool := f.error

example : (create "%d{%H}%T[%p]%m%n".toList).isError = false := by decide

example : (create "%d\x7b%H".toList).isError = true := by decide

end LogFormatter

end CoLib.Log
