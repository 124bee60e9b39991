/-
# `CoLib.Http.ClientParser` — `HttpResponseParser` and `httpclient_parser_execute`

As in the request parser, the registers `mark` and `field_start` are offsets into the
buffer of the call, and are cleared at its beginning.

`httpclient_parser_execute` asserts that `pe - p`, which is `len - off`, is `(int)len -
(int)off`, and it returns -1 when a register is outside of the buffer.

**Proved here.**  On a buffer that is not empty the registers never are
(`ClientAction.run_inside`), so a call with no more than `INT_MAX` bytes is the scan
(`execute_eq`); with more bytes the assertion fails (`execute_long`).
-/
import CoLib.Http.ClientMachine
import CoLib.Http.Numeral
import CoLib.Http.Parser
import CoLib.Http.Response

namespace CoLib.Http

open Lib Lib.Scanner

/-- `HttpResponseParser` with its `httpclient_parser`.  Nobody sets `status` before
`status_code`. -/
structure HttpResponseParser where
  cs : Nat := httpclientParserStart
  bodyStart : Nat := 0
  contentLen : Int := -1
  status : Option Int := none
  chunked : Bool := false
  chunksDone : Bool := false
  close : Bool := false
  mark : Nat := 0
  fieldStart : Nat := 0
  fieldLen : Nat := 0
  data : HttpResponse := {}
  error : Nat := 0
  deriving DecidableEq, Repr

namespace HttpResponseParser

/-- `httpclient_parser_init`. -/
def httpclientParserInit (P : HttpResponseParser) : HttpResponseParser :=
  { P with
    cs := httpclientParserStart
    bodyStart := 0
    contentLen := -1
    chunked := false
    chunksDone := false
    mark := 0
    fieldLen := 0
    fieldStart := 0
    close := false }

/-! ## The callbacks -/

def setError (e : Nat) (P : HttpResponseParser) : HttpResponseParser :=
  { P with error := e }

/-- `on_response_reason`. -/
def onResponseReason (buffer : List UInt8) (start p : Nat) (P : HttpResponseParser) :
    Option HttpResponseParser :=
  (token buffer start p).map fun s => { P with data := { P.data with reason := s } }

/-- `on_response_status`: the `int` of `atoi`, as an `HttpStatus`. -/
def onResponseStatus (buffer : List UInt8) (start : Nat) (P : HttpResponseParser) :
    HttpResponseParser :=
  { P with data := { P.data with status := UInt32.ofInt (atoi (buffer.drop start)) } }

/-- The version that a token names, or error 1001. -/
def setVersionOf (s : List UInt8) (P : HttpResponseParser) : HttpResponseParser :=
  if strncmpEq s.length s (chars "HTTP/1.1") then
    { P with data := { P.data with version := 0x11 } }
  else if strncmpEq s.length s (chars "HTTP/1.0") then
    { P with data := { P.data with version := 0x10 } }
  else P.setError 1001

/-- `on_response_version`. -/
def onResponseVersion (buffer : List UInt8) (start p : Nat) (P : HttpResponseParser) :
    Option HttpResponseParser :=
  (token buffer start p).map fun s => P.setVersionOf s

/-- `on_response_http_field`. -/
def onResponseHttpField (buffer : List UInt8) (field flen start p : Nat)
    (P : HttpResponseParser) : Option HttpResponseParser :=
  if flen = 0 then some (P.setError 1002)
  else (token buffer start p).map fun value =>
    { P with data := P.data.setHeader ((buffer.drop field).take flen) value }

end HttpResponseParser

/-- An action of the machine at position `p` of the buffer; `none` when a callback throws. -/
def ClientAction.run (buffer : List UInt8) (p : Nat) :
    ClientAction → HttpResponseParser → Option HttpResponseParser
  | .mark, P => some { P with mark := p }
  | .startField, P => some { P with fieldStart := p }
  | .writeField, P => some { P with fieldLen := p - P.fieldStart }
  | .startValue, P => some { P with mark := p }
  | .writeContentLen, P =>
      some { P with contentLen := narrow (strtol 10 (buffer.drop P.mark)) }
  | .writeConnectionClose, P => some { P with close := true }
  | .writeValue, P => P.onResponseHttpField buffer P.fieldStart P.fieldLen P.mark p
  | .reasonPhrase, P => P.onResponseReason buffer P.mark p
  | .statusCode, P =>
      let P := { P with status := some (narrow (strtol 10 (buffer.drop P.mark))) }
      some (P.onResponseStatus buffer P.mark)
  | .httpVersion, P => P.onResponseVersion buffer P.mark p
  | .chunkSize, P =>
      -- `on_response_chunk` and `on_response_last_chunk` do nothing
      let contentLen := narrow (strtol 16 (buffer.drop P.mark))
      some { P with chunked := true, contentLen, chunksDone := contentLen ≤ 0 }
  | .transChunked, P => some { P with chunked := true }
  -- `on_request_header_done` does nothing
  | .done, P => some { P with bodyStart := p + 1 }

namespace HttpResponseParser

/-- The registers that `httpclient_parser_execute` clears. -/
def clear (P : HttpResponseParser) : HttpResponseParser :=
  { P with mark := 0, fieldLen := 0, fieldStart := 0 }

/-- The state `cs` after a scan. -/
def stateOf : Stop Nat → Nat
  | .more cs => cs
  | .halt cs => cs
  | .reject => httpclientParserError

/-- `httpclient_parser_execute` on the whole of `buffer`, behind which there is a NUL: the
parser and the number of bytes consumed, or -1. -/
def httpclientParserExecute (buffer : List UInt8) (P : HttpResponseParser) :
    Option (HttpResponseParser × Int) :=
  if toInt buffer.length ≠ buffer.length then none
  else do
    let (P, nread, stop) ← scan clientMachine (ClientAction.run buffer) 0 P.cs P.clear buffer
    let P := { P with cs := stateOf stop }
    if ¬(nread ≤ buffer.length ∧ P.bodyStart ≤ buffer.length) then none
    else if P.mark < buffer.length ∧ P.fieldLen ≤ buffer.length ∧ P.fieldStart < buffer.length then
      some (P, nread)
    else some (P, -1)

/-- `execute`: the parser, the offset that is returned, and what `memmove` leaves at the
front of the buffer.  From an offset of -1 it would be moved from in front of the buffer. -/
def execute (buffer : List UInt8) (chunck : Bool) (P : HttpResponseParser) :
    Option (HttpResponseParser × Nat × List UInt8) := do
  let (P, offset) ←
    httpclientParserExecute buffer (if chunck then P.httpclientParserInit else P)
  if offset < 0 then none
  else some (P, offset.toNat, buffer.drop offset.toNat)

/-- `hasError`. -/
def hasError (P : HttpResponseParser) : Bool :=
  P.error != 0 || P.cs == httpclientParserError

/-- `isFinished`: `httpclient_parser_finish`. -/
def isFinished (P : HttpResponseParser) : Int :=
  if P.cs = httpclientParserError then -1
  else if P.cs = httpclientParserFirstFinal then 1
  else 0

end HttpResponseParser

/-! ## The registers -/

section Registers

open HttpResponseParser

variable {buffer : List UInt8} {n p : Nat} {a : ClientAction} {P P' : HttpResponseParser}

/-- The registers are inside the first `n` bytes. -/
structure Inside (n : Nat) (P : HttpResponseParser) : Prop where
  mark : P.mark < n
  fieldStart : P.fieldStart < n
  fieldLen : P.fieldLen ≤ n
  bodyStart : P.bodyStart ≤ n

/-- An action inside the buffer leaves the registers there. -/
theorem ClientAction.run_inside (hp : p < n) (h : Inside n P) (hrun : a.run buffer p P = some P') :
    Inside n P' := by
  cases a with
  | mark | startValue =>
      obtain rfl := Option.some.inj hrun
      exact ⟨hp, h.fieldStart, h.fieldLen, h.bodyStart⟩
  | startField =>
      obtain rfl := Option.some.inj hrun
      exact ⟨h.mark, hp, h.fieldLen, h.bodyStart⟩
  | writeField =>
      obtain rfl := Option.some.inj hrun
      exact ⟨h.mark, h.fieldStart, (Nat.sub_le _ _).trans hp.le, h.bodyStart⟩
  | done =>
      obtain rfl := Option.some.inj hrun
      exact ⟨h.mark, h.fieldStart, h.fieldLen, hp⟩
  | writeContentLen | writeConnectionClose | statusCode | chunkSize | transChunked =>
      obtain rfl := Option.some.inj hrun
      exact ⟨h.mark, h.fieldStart, h.fieldLen, h.bodyStart⟩
  | writeValue =>
      simp only [ClientAction.run, onResponseHttpField] at hrun
      split at hrun
      · obtain rfl := Option.some.inj hrun
        exact ⟨h.mark, h.fieldStart, h.fieldLen, h.bodyStart⟩
      · obtain ⟨s, -, rfl⟩ := Option.map_eq_some_iff.mp hrun
        exact ⟨h.mark, h.fieldStart, h.fieldLen, h.bodyStart⟩
  | reasonPhrase =>
      obtain ⟨s, -, rfl⟩ := Option.map_eq_some_iff.mp hrun
      exact ⟨h.mark, h.fieldStart, h.fieldLen, h.bodyStart⟩
  | httpVersion =>
      obtain ⟨s, -, rfl⟩ := Option.map_eq_some_iff.mp hrun
      unfold setVersionOf
      split
      · exact ⟨h.mark, h.fieldStart, h.fieldLen, h.bodyStart⟩
      · split <;> exact ⟨h.mark, h.fieldStart, h.fieldLen, h.bodyStart⟩

theorem HttpResponseParser.httpclientParserExecute_eq (hne : buffer ≠ [])
    (hlen : buffer.length ≤ intMax) (hbody : P.bodyStart ≤ buffer.length) :
    P.httpclientParserExecute buffer =
      (scan clientMachine (ClientAction.run buffer) 0 P.cs P.clear buffer).map
        fun (P', nread, stop) => ({ P' with cs := stateOf stop }, (nread : Int)) := by
  have hpos := List.length_pos_iff.mpr hne
  have hclear : Inside buffer.length P.clear := ⟨hpos, hpos, Nat.zero_le _, hbody⟩
  rw [httpclientParserExecute, if_neg (not_not.mpr (toInt_eq_iff.mpr hlen))]
  cases hscan : scan clientMachine (ClientAction.run buffer) 0 P.cs P.clear buffer with
  | none => simp only [Option.bind_eq_bind, Option.map_none, Option.bind_none]
  | some r =>
      obtain ⟨hin, hused⟩ := scan_kept ClientAction.run_inside hclear hscan
      simp only [Option.bind_eq_bind, Option.map_some, Option.bind_some, hused, hin.bodyStart,
        hin.mark, hin.fieldLen, hin.fieldStart, and_self, not_true_eq_false, if_false, if_true]

/-- A call on bytes that an `int` can count, with what is left at the front of the buffer. -/
theorem HttpResponseParser.execute_eq (hne : buffer ≠ []) (hlen : buffer.length ≤ intMax)
    (hbody : P.bodyStart ≤ buffer.length) :
    P.execute buffer false =
      (scan clientMachine (ClientAction.run buffer) 0 P.cs P.clear buffer).map
        fun (P', nread, stop) => ({ P' with cs := stateOf stop }, nread, buffer.drop nread) := by
  rw [execute, if_neg Bool.false_ne_true, httpclientParserExecute_eq hne hlen hbody]
  cases scan clientMachine (ClientAction.run buffer) 0 P.cs P.clear buffer with
  | none => rfl
  | some result =>
      have hnonneg : ¬(result.2.1 : Int) < 0 := by omega
      simp only [Option.bind_eq_bind, Option.map_some, Option.bind_some, hnonneg, if_false,
        Int.toNat_natCast]

/-- Of more bytes the call fails its assertion. -/
theorem HttpResponseParser.execute_long {chunck : Bool} (hlen : intMax < buffer.length) :
    P.execute buffer chunck = none := by
  rw [execute, httpclientParserExecute,
    if_pos fun heq => Nat.not_le.mpr hlen (toInt_eq_iff.mp heq)]
  rfl

end Registers

end CoLib.Http
