/-
# `CoLib.Http.Parser` — `HttpRequestParser` and `http_parser_execute`

The registers `mark`, `field_start` and `query_start` are offsets into the
buffer of the current call, and `LEN` measures from them to the current byte.
Each call of `http_parser_execute` clears `mark`, `field_start` and `field_len`;
`query_start` and `uri_relaxed` are never initialised, and the first of them
keeps its value between calls.

`http_parser_execute` asserts that `pe - p`, which is `len - off`, is `(int)len -
(int)off`, so that a buffer of more than `INT_MAX` bytes aborts (`execute_long`), and
after the machine that its registers are offsets into the buffer.

**Proved here.**  The registers are (`run_inside`), unless `body_start` is left from a
request that an earlier call has finished; so that these assertions are not part of
`execute`.
-/
import CoLib.Lib.MachineInt
import CoLib.Http.Machine
import CoLib.Http.Request

namespace CoLib.Http

open Lib Lib.Scanner

/-- `HttpRequestParser` with its `http_parser`.  `queryStart` is `none` until the
first `start_query`. -/
structure HttpRequestParser where
  cs : Nat := httpParserStart
  bodyStart : Nat := 0
  contentLen : Nat := 0
  mark : Nat := 0
  fieldStart : Nat := 0
  fieldLen : Nat := 0
  queryStart : Option Nat := none
  xmlSent : Bool := false
  jsonSent : Bool := false
  data : HttpRequest := {}
  error : Nat := 0
  deriving DecidableEq, Repr

/-! ## The callbacks -/

/-- `std::string(PTR_TO(start), LEN(start, p))`.  A negative length is a `size_t`
above the largest size of a string, and the constructor throws. -/
def token (buffer : List UInt8) (start p : Nat) : Option (List UInt8) :=
  if start ≤ p then some ((buffer.drop start).take (p - start)) else none

namespace HttpRequestParser

def setError (e : Nat) (P : HttpRequestParser) : HttpRequestParser :=
  { P with error := e }

/-- `on_request_method`. -/
def onRequestMethod (buffer : List UInt8) (start p : Nat) (P : HttpRequestParser) :
    Option HttpRequestParser :=
  match charsToHttpMethod (buffer.drop start) with
  | .invalidMethod =>
      -- the token is built for the log
      (token buffer start p).map fun _ => P.setError 1000
  | m => some { P with data := { P.data with method := m } }

/-- `on_request_fragment`. -/
def onRequestFragment (buffer : List UInt8) (start p : Nat) (P : HttpRequestParser) :
    Option HttpRequestParser :=
  (token buffer start p).map fun s => { P with data := { P.data with fragment := s } }

/-- `on_request_path`. -/
def onRequestPath (buffer : List UInt8) (start p : Nat) (P : HttpRequestParser) :
    Option HttpRequestParser :=
  (token buffer start p).map fun s => { P with data := { P.data with path := s } }

/-- `on_request_query`. -/
def onRequestQuery (buffer : List UInt8) (start p : Nat) (P : HttpRequestParser) :
    Option HttpRequestParser :=
  (token buffer start p).map fun s => { P with data := { P.data with query := s } }

/-- The version that a token names, or error 1001.  `strncmp` compares no more
than the token, so that an empty token passes for the first version. -/
def setVersionOf (s : List UInt8) (P : HttpRequestParser) : HttpRequestParser :=
  if strncmpEq s.length s (chars "HTTP/1.1") then
    { P with data := { P.data with version := 0x11 } }
  else if strncmpEq s.length s (chars "HTTP/1.0") then
    { P with data := { P.data with version := 0x10 } }
  else P.setError 1001

/-- `on_request_version`. -/
def onRequestVersion (buffer : List UInt8) (start p : Nat) (P : HttpRequestParser) :
    Option HttpRequestParser :=
  (token buffer start p).map fun s => P.setVersionOf s

/-- `on_request_http_field`. -/
def onRequestHttpField (buffer : List UInt8) (field flen start p : Nat)
    (P : HttpRequestParser) : Option HttpRequestParser :=
  if flen = 0 then some (P.setError 1002)
  else (token buffer start p).map fun value =>
    { P with data := P.data.setHeader ((buffer.drop field).take flen) value }

end HttpRequestParser

/-- An action of the machine at position `p` of the buffer; `none` when a
callback throws. -/
def Action.run (buffer : List UInt8) (p : Nat) :
    Action → HttpRequestParser → Option HttpRequestParser
  | .mark, P => some { P with mark := p }
  | .startField, P => some { P with fieldStart := p }
  | .writeField, P => some { P with fieldLen := p - P.fieldStart }
  | .startValue, P => some { P with mark := p }
  | .writeValue, P => P.onRequestHttpField buffer P.fieldStart P.fieldLen P.mark p
  | .requestMethod, P => P.onRequestMethod buffer P.mark p
  -- `on_request_uri` does nothing
  | .requestUri, P => some P
  | .fragment, P => P.onRequestFragment buffer P.mark p
  | .startQuery, P => some { P with queryStart := some p }
  | .queryString, P => P.queryStart.bind fun start => P.onRequestQuery buffer start p
  | .httpVersion, P => P.onRequestVersion buffer P.mark p
  | .requestPath, P => P.onRequestPath buffer P.mark p
  -- `on_request_header_done` does nothing
  | .done, P =>
      if P.xmlSent || P.jsonSent then
        some { P with bodyStart := P.mark, contentLen := p - P.mark + 1 }
      else some { P with bodyStart := p + 1 }
  | .xml, P => some { P with xmlSent := true }
  | .json, P => some { P with jsonSent := true }

namespace HttpRequestParser

/-- The state `cs` after a scan. -/
def stateOf : Stop Nat → Nat
  | .more cs => cs
  | .halt cs => cs
  | .reject => httpParserError

/-- The registers that `http_parser_execute` clears. -/
def clear (P : HttpRequestParser) : HttpRequestParser :=
  { P with mark := 0, fieldLen := 0, fieldStart := 0 }

/-- The machine of `http_parser_execute` on the whole of `buffer`: the parser and the
number of bytes consumed. -/
def run (uriRelaxed : Bool) (buffer : List UInt8) (P : HttpRequestParser) :
    Option (HttpRequestParser × Nat) :=
  (scan (machine uriRelaxed) (Action.run buffer) 0 P.cs P.clear buffer).map
    fun (P', nread, stop) =>
      ({ P' with cs := if P.cs = httpParserError then P.cs else stateOf stop }, nread)

/-- `execute`: `http_parser_execute` on the whole of `buffer`. -/
def execute (uriRelaxed : Bool) (buffer : List UInt8) (P : HttpRequestParser) :
    Option (HttpRequestParser × Nat) :=
  if buffer = [] then some (P, 0)
  -- `assert(pe - p == (int)len - (int)off)`
  else if toInt buffer.length ≠ buffer.length then none
  else P.run uriRelaxed buffer

/-- `hasError`. -/
def hasError (P : HttpRequestParser) : Bool :=
  P.error != 0 || P.cs == httpParserError

/-- `isFinished`: `http_parser_finish`. -/
def isFinished (P : HttpRequestParser) : Int :=
  if P.cs = httpParserError then -1
  else if httpParserFirstFinal ≤ P.cs then 1
  else 0

/-- `getContentLength`. -/
def getContentLength (lexicalCast : List UInt8 → Option UInt64) (P : HttpRequestParser) :
    UInt64 :=
  P.data.getHeaderAs lexicalCast (chars "content-length")

end HttpRequestParser

/-! ## What an action leaves alone -/

section Frame

open HttpRequestParser

variable {buffer : List UInt8} {p : Nat} {a : Action} {P P' : HttpRequestParser}

/-- The fields of the request that no action writes, and the error, which no
action clears. -/
structure Framed (P P' : HttpRequestParser) : Prop where
  close : P'.data.close = P.data.close
  body : P'.data.body = P.data.body
  error : P.error ≠ 0 → P'.error ≠ 0

theorem Framed.refl (P : HttpRequestParser) : Framed P P :=
  ⟨rfl, rfl, id⟩

theorem Framed.trans {P₁ P₂ P₃ : HttpRequestParser} (h : Framed P₁ P₂) (h' : Framed P₂ P₃) :
    Framed P₁ P₃ :=
  ⟨h'.close.trans h.close, h'.body.trans h.body, fun he => h'.error (h.error he)⟩

theorem setError_framed (P : HttpRequestParser) {e : Nat} (he : e ≠ 0) :
    Framed P (P.setError e) :=
  ⟨rfl, rfl, fun _ => he⟩

theorem Action.run_framed (h : a.run buffer p P = some P') : Framed P P' := by
  cases a with
  | mark | startField | writeField | startValue | requestUri | startQuery | xml | json =>
      cases h
      exact ⟨rfl, rfl, id⟩
  | writeValue =>
      simp only [Action.run, onRequestHttpField] at h
      split at h
      · cases h
        exact setError_framed P (by decide)
      · obtain ⟨s, -, rfl⟩ := Option.map_eq_some_iff.mp h
        exact ⟨rfl, rfl, id⟩
  | requestMethod =>
      simp only [Action.run, onRequestMethod] at h
      split at h
      · obtain ⟨s, -, rfl⟩ := Option.map_eq_some_iff.mp h
        exact setError_framed P (by decide)
      · cases h
        exact ⟨rfl, rfl, id⟩
  | fragment | requestPath =>
      obtain ⟨s, -, rfl⟩ := Option.map_eq_some_iff.mp h
      exact ⟨rfl, rfl, id⟩
  | queryString =>
      obtain ⟨start, -, h⟩ := Option.bind_eq_some_iff.mp h
      obtain ⟨s, -, rfl⟩ := Option.map_eq_some_iff.mp h
      exact ⟨rfl, rfl, id⟩
  | httpVersion =>
      obtain ⟨s, -, rfl⟩ := Option.map_eq_some_iff.mp h
      unfold setVersionOf
      split
      · exact ⟨rfl, rfl, id⟩
      · split
        · exact ⟨rfl, rfl, id⟩
        · exact setError_framed P (by decide)
  | done =>
      simp only [Action.run] at h
      split at h <;> cases h <;> exact ⟨rfl, rfl, id⟩

theorem fold_framed {t : List (Nat × Action)}
    (h : fold (Action.run buffer) t P = some P') : Framed P P' := by
  induction t generalizing P with
  | nil =>
      cases h
      exact Framed.refl _
  | cons pa t ih =>
      obtain ⟨P₁, h₁, h⟩ := Option.bind_eq_some_iff.mp h
      exact (Action.run_framed h₁).trans (ih h)

end Frame

/-! ## The registers -/

section Registers

open HttpRequestParser

variable {uriRelaxed : Bool} {buffer : List UInt8} {n p : Nat} {a : Action}
  {P P' : HttpRequestParser}

/-- The registers are inside the first `n` bytes, as `http_parser_execute` asserts. -/
structure HttpRequestParser.Inside (n : Nat) (P : HttpRequestParser) : Prop where
  bodyStart : P.bodyStart ≤ n
  mark : P.mark < n
  fieldLen : P.fieldLen ≤ n
  fieldStart : P.fieldStart < n

/-- An action inside the buffer leaves the registers there. -/
theorem Action.run_inside (hp : p < n) (h : P.Inside n) (hrun : a.run buffer p P = some P') :
    P'.Inside n := by
  cases a with
  | mark | startValue =>
      obtain rfl := Option.some.inj hrun
      exact ⟨h.bodyStart, hp, h.fieldLen, h.fieldStart⟩
  | startField =>
      obtain rfl := Option.some.inj hrun
      exact ⟨h.bodyStart, h.mark, h.fieldLen, hp⟩
  | writeField =>
      obtain rfl := Option.some.inj hrun
      exact ⟨h.bodyStart, h.mark, (Nat.sub_le _ _).trans hp.le, h.fieldStart⟩
  | done =>
      simp only [Action.run] at hrun
      split at hrun
      · obtain rfl := Option.some.inj hrun
        exact ⟨h.mark.le, h.mark, h.fieldLen, h.fieldStart⟩
      · obtain rfl := Option.some.inj hrun
        exact ⟨hp, h.mark, h.fieldLen, h.fieldStart⟩
  | requestUri | startQuery | xml | json =>
      obtain rfl := Option.some.inj hrun
      exact ⟨h.bodyStart, h.mark, h.fieldLen, h.fieldStart⟩
  | writeValue =>
      simp only [Action.run, onRequestHttpField] at hrun
      split at hrun
      · obtain rfl := Option.some.inj hrun
        exact ⟨h.bodyStart, h.mark, h.fieldLen, h.fieldStart⟩
      · obtain ⟨s, -, rfl⟩ := Option.map_eq_some_iff.mp hrun
        exact ⟨h.bodyStart, h.mark, h.fieldLen, h.fieldStart⟩
  | requestMethod =>
      simp only [Action.run, onRequestMethod] at hrun
      split at hrun
      · obtain ⟨s, -, rfl⟩ := Option.map_eq_some_iff.mp hrun
        exact ⟨h.bodyStart, h.mark, h.fieldLen, h.fieldStart⟩
      · obtain rfl := Option.some.inj hrun
        exact ⟨h.bodyStart, h.mark, h.fieldLen, h.fieldStart⟩
  | fragment | requestPath =>
      obtain ⟨s, -, rfl⟩ := Option.map_eq_some_iff.mp hrun
      exact ⟨h.bodyStart, h.mark, h.fieldLen, h.fieldStart⟩
  | queryString =>
      obtain ⟨start, -, hrun⟩ := Option.bind_eq_some_iff.mp hrun
      obtain ⟨s, -, rfl⟩ := Option.map_eq_some_iff.mp hrun
      exact ⟨h.bodyStart, h.mark, h.fieldLen, h.fieldStart⟩
  | httpVersion =>
      obtain ⟨s, -, rfl⟩ := Option.map_eq_some_iff.mp hrun
      unfold setVersionOf
      split
      · exact ⟨h.bodyStart, h.mark, h.fieldLen, h.fieldStart⟩
      · split <;> exact ⟨h.bodyStart, h.mark, h.fieldLen, h.fieldStart⟩

end Registers

namespace HttpRequestParser

variable {uriRelaxed : Bool} {buffer : List UInt8} {P : HttpRequestParser}

/-- The machine on a parser that is not in the error state: the walk through it and the
fold of its actions. -/
theorem run_eq (hcs : P.cs ≠ httpParserError) :
    P.run uriRelaxed buffer =
      let w := walk (machine uriRelaxed) 0 P.cs buffer
      (fold (Action.run buffer) w.trace P.clear).map fun P' =>
        ({ P' with cs := stateOf w.stop }, w.used) := by
  simp only [run, hcs, if_false, scan_eq_walk, Option.map_map]
  rfl

theorem execute_eq_run (hne : buffer ≠ []) (hlen : buffer.length ≤ intMax) :
    P.execute uriRelaxed buffer = P.run uriRelaxed buffer := by
  rw [execute, if_neg hne, if_neg (not_not.mpr (toInt_ofNat hlen))]

/-- A buffer that is too long for an `int` aborts. -/
theorem execute_long (hlen : intMax < buffer.length) : P.execute uriRelaxed buffer = none := by
  have hne : buffer ≠ [] := by
    rintro rfl
    cases hlen
  rw [execute, if_neg hne, if_pos fun h => absurd (toInt_eq_iff.mp h) (Nat.not_le_of_lt hlen)]

/-- A call that returns has run the machine. -/
theorem run_of_execute {r : HttpRequestParser × Nat} (hne : buffer ≠ [])
    (h : P.execute uriRelaxed buffer = some r) :
    P.run uriRelaxed buffer = some r ∧ buffer.length ≤ intMax := by
  rcases Nat.lt_or_ge intMax buffer.length with hlong | hlen
  · rw [execute_long hlong] at h
    cases h
  · exact ⟨(execute_eq_run hne hlen).symm.trans h, hlen⟩

/-- After the machine its assertions hold. -/
theorem run_inside {P' : HttpRequestParser} {nread : Nat} (hne : buffer ≠ [])
    (hbody : P.bodyStart ≤ buffer.length) (h : P.run uriRelaxed buffer = some (P', nread)) :
    nread ≤ buffer.length ∧ P'.Inside buffer.length := by
  have hpos := List.length_pos_iff.mpr hne
  have hclear : P.clear.Inside buffer.length := ⟨hbody, hpos, Nat.zero_le _, hpos⟩
  obtain ⟨⟨P₁, used, stop⟩, hscan, heq⟩ := Option.map_eq_some_iff.mp h
  obtain ⟨rfl, rfl⟩ := Prod.mk.inj heq
  obtain ⟨hin, hused⟩ := scan_kept Action.run_inside hclear hscan
  exact ⟨hused, hin.bodyStart, hin.mark, hin.fieldLen, hin.fieldStart⟩

/-- A call of `execute` on a parser that is not in the error state. -/
theorem execute_eq (hne : buffer ≠ []) (hlen : buffer.length ≤ intMax)
    (hcs : P.cs ≠ httpParserError) :
    P.execute uriRelaxed buffer =
      let w := walk (machine uriRelaxed) 0 P.cs buffer
      (fold (Action.run buffer) w.trace P.clear).map fun P' =>
        ({ P' with cs := stateOf w.stop }, w.used) :=
  (execute_eq_run hne hlen).trans (run_eq hcs)

end HttpRequestParser

end CoLib.Http
