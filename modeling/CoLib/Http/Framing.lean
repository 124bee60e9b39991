/-
# `CoLib.Http.Framing` — where a written message ends

On a connection that stays open a reader finds the end of a message by its
`content-length` line.  A message's own strings may bring such a line, a
`connection` line or a blank line with them, and `dump` looks only at the header
names, and only for `connection`.

**Proved here.**  `dump_framed_iff`: for every request and every response, the
text is framed exactly if no line that the strings bring is empty or a
`connection` line, with a body none is a `content-length` line, and without one
there is at most one, with the value 0, which a response that keeps the connection
needs.
-/
import CoLib.Http.Numeral
import CoLib.Http.Response
import CoLib.Lib.Lines
import Mathlib

namespace CoLib.Http

open Lib

/-! ## Reading a message -/

/-- The lines of a text. -/
def lines (text : List UInt8) : List (List UInt8) :=
  Lines.lines 13 10 text

/-- The line has the name, in any letter case. -/
def lineNamed (name : String) (line : List UInt8) : Bool :=
  line.contains 58 && (line.takeWhile (· != 58)).map toLower == chars name

/-- What stands after the colon, without the blanks around it. -/
def lineValue (line : List UInt8) : List UInt8 :=
  (((line.dropWhile (· != 58)).tail).dropWhile isBlank).rdropWhile isBlank

/-- The header lines of a message: those between the first line and the first blank
line. -/
def headerLines (text : List UInt8) : List (List UInt8) :=
  (Lines.head 13 10 text).tail

/-- How many lines of a name there are. -/
def countNamed (name : String) (ls : List (List UInt8)) : Nat :=
  ls.countP (lineNamed name)

/-- A reader who goes to the first blank line finds the body there, one `connection`
line before it, and at most one `content-length` line, with the length of the body
as its value; one if it is needed. -/
structure WellFramed (text body : List UInt8) (needed : Bool) : Prop where
  rest : Lines.rest 13 10 text = body
  connection : countNamed "connection" (headerLines text) = 1
  single : countNamed "content-length" (headerLines text) ≤ 1
  value : ∀ l ∈ headerLines text, lineNamed "content-length" l = true →
    numeral (lineValue l) = some (Lines.rest 13 10 text).length
  present : needed = true → 1 ≤ countNamed "content-length" (headerLines text)

/-! ## What the strings bring -/

/-- The request line without its line end. -/
def HttpRequest.requestLine (r : HttpRequest) : List UInt8 :=
  httpMethodToString r.method ++ chars " " ++ r.path
    ++ (if r.query = [] then [] else chars "?") ++ r.query
    ++ (if r.fragment = [] then [] else chars "#") ++ r.fragment
    ++ chars " HTTP/" ++ decimalText (r.version >>> 4).toNat ++ chars "."
    ++ decimalText (r.version &&& 0x0F).toNat

/-- The lines that a request's strings bring into its head: those of the headers, and
those after a line end in the request line. -/
def HttpRequest.brought (r : HttpRequest) : List (List UInt8) :=
  (lines r.requestLine).tail ++ r.dumped.flatMap fun h => lines (h.1 ++ chars ":" ++ h.2)

/-- The lines that a response's strings bring into its head. -/
def HttpResponse.brought (r : HttpResponse) : List (List UInt8) :=
  (lines r.statusLine).tail ++ r.dumped.flatMap fun h => lines (h.1 ++ chars ": " ++ h.2)

/-- The lines that are brought leave the framing to `dump`. -/
structure Harmless (brought : List (List UInt8)) (body : List UInt8) (needed : Bool) : Prop where
  filled : ∀ l ∈ brought, l ≠ []
  noConnection : ∀ l ∈ brought, lineNamed "connection" l = false
  withBody : body ≠ [] → ∀ l ∈ brought, lineNamed "content-length" l = false
  withoutBody : body = [] → countNamed "content-length" brought ≤ 1 ∧
    (∀ l ∈ brought, lineNamed "content-length" l = true → numeral (lineValue l) = some 0) ∧
    (needed = true → 1 ≤ countNamed "content-length" brought)

/-! ## The lines that `dump` adds -/

/-- The line `content-length`, where there is a body. -/
def lengthLine (body : List UInt8) : List (List UInt8) :=
  if body = [] then [] else [chars "content-length: " ++ decimalText body.length]

theorem decimalText_digit (n : Nat) : ∀ c ∈ decimalText n, isBlank c = false := by
  intro c hc
  have hdigit := (numeral_eq_some_iff.mp (numeral_decimalText n)).2.1 c hc
  rw [isDigit, Bool.and_eq_true, decide_eq_true_eq, decide_eq_true_eq, UInt8.le_iff_toNat_le,
    UInt8.le_iff_toNat_le] at hdigit
  rw [isBlank, Bool.or_eq_false_iff, beq_eq_false_iff_ne, beq_eq_false_iff_ne]
  refine ⟨?_, ?_⟩
  · rintro rfl
    exact absurd hdigit.1 (by decide)
  · rintro rfl
    exact absurd hdigit.1 (by decide)

theorem lengthLine_named (n : Nat) :
    lineNamed "content-length" (chars "content-length: " ++ decimalText n) = true ∧
      lineNamed "connection" (chars "content-length: " ++ decimalText n) = false :=
  ⟨rfl, rfl⟩

/-- The line says what the length is. -/
theorem lengthLine_value (n : Nat) :
    numeral (lineValue (chars "content-length: " ++ decimalText n)) = some n := by
  have htail : (((chars "content-length: " ++ decimalText n).dropWhile (· != 58)).tail) =
      32 :: decimalText n := rfl
  have hdrop : (decimalText n).dropWhile isBlank = decimalText n := by
    rw [List.dropWhile_eq_self_iff]
    intro hlen
    rw [decimalText_digit n _ (List.getElem_mem hlen)]
    exact Bool.false_ne_true
  have hrdrop : (decimalText n).rdropWhile isBlank = decimalText n := by
    rw [List.rdropWhile_eq_self_iff]
    intro hne
    rw [decimalText_digit n _ (List.getLast_mem hne)]
    exact Bool.false_ne_true
  rw [lineValue, htail, List.dropWhile_cons_of_pos rfl, hdrop, hrdrop, numeral_decimalText]

/-- Such a line is no blank line and no `connection` line, and its value is the length. -/
theorem lengthLine_of_mem {body l : List UInt8} (hl : l ∈ lengthLine body) :
    l ≠ [] ∧ lineNamed "connection" l = false ∧ numeral (lineValue l) = some body.length := by
  rw [lengthLine] at hl
  split at hl
  · cases hl
  · rw [List.mem_singleton.mp hl]
    exact ⟨List.cons_ne_nil _ _, (lengthLine_named _).2, lengthLine_value _⟩

theorem countNamed_eq_zero {name : String} {ls : List (List UInt8)} :
    countNamed name ls = 0 ↔ ∀ l ∈ ls, lineNamed name l = false := by
  rw [countNamed, List.countP_eq_zero]
  simp only [Bool.not_eq_true]

theorem countNamed_lengthLine (body : List UInt8) :
    countNamed "content-length" (lengthLine body) = if body = [] then 0 else 1 := by
  rw [lengthLine]
  split
  · rfl
  · rw [countNamed, List.countP_singleton, if_pos (lengthLine_named _).1]

/-- The line `connection`. -/
theorem connectionLine_named (v : List UInt8) :
    chars "connection: " ++ v ≠ [] ∧
      lineNamed "connection" (chars "connection: " ++ v) = true ∧
      lineNamed "content-length" (chars "connection: " ++ v) = false :=
  ⟨List.cons_ne_nil _ _, rfl, rfl⟩

/-! ## A head and its framing -/

section Head

variable {text body start conn : List UInt8} {hs brought : List (List UInt8)} {needed : Bool}

/-- What a reader finds is what the head holds, if no line of it is empty. -/
theorem wellFramed_iff (hlines : lines text = (start :: hs) ++ [] :: lines body)
    (hstart : start ≠ []) :
    WellFramed text body needed ↔
      (∀ l ∈ hs, l ≠ []) ∧ countNamed "connection" hs = 1 ∧
        countNamed "content-length" hs ≤ 1 ∧
        (∀ l ∈ hs, lineNamed "content-length" l = true →
          numeral (lineValue l) = some body.length) ∧
        (needed = true → 1 ≤ countNamed "content-length" hs) := by
  have hrest := Lines.rest_eq_iff hlines
  have hheader : (∀ x ∈ start :: hs, x ≠ []) → headerLines text = hs := by
    intro hfilled
    rw [headerLines, Lines.head_eq hlines hfilled, List.tail_cons]
  constructor
  · intro h
    have hfilled := hrest.mp h.rest
    have heq := hheader hfilled
    obtain ⟨hbody, hconn, hsingle, hvalue, hpresent⟩ := h
    rw [heq] at hconn hsingle hvalue hpresent
    rw [hbody] at hvalue
    exact ⟨fun l hl => hfilled l (List.mem_cons_of_mem _ hl), hconn, hsingle, hvalue, hpresent⟩
  · rintro ⟨hhs, hconn, hsingle, hvalue, hpresent⟩
    have hfilled : ∀ x ∈ start :: hs, x ≠ [] := by
      intro x hx
      rcases List.mem_cons.mp hx with rfl | hx
      · exact hstart
      · exact hhs x hx
    have heq := hheader hfilled
    have hbody := hrest.mpr hfilled
    constructor
    · exact hbody
    · rw [heq]
      exact hconn
    · rw [heq]
      exact hsingle
    · rw [heq, hbody]
      exact hvalue
    · rw [heq]
      exact hpresent

/-- The lines of the head are the lines that are brought and those that `dump` adds, in
some order; these are the ones that a reader finds under the two names. -/
theorem countNamed_head (hperm : hs.Perm (conn :: (brought ++ lengthLine body)))
    (hconn : lineNamed "connection" conn = true)
    (hlength : lineNamed "content-length" conn = false) :
    countNamed "connection" hs = countNamed "connection" brought + 1 ∧
      countNamed "content-length" hs =
        countNamed "content-length" brought + if body = [] then 0 else 1 := by
  have hcount : ∀ name, countNamed name hs = countNamed name (conn :: brought) +
      countNamed name (lengthLine body) := by
    intro name
    rw [countNamed, hperm.countP_eq, ← List.cons_append, List.countP_append]
    rfl
  have hnone : countNamed "connection" (lengthLine body) = 0 :=
    countNamed_eq_zero.mpr fun _ hl => (lengthLine_of_mem hl).2.1
  constructor
  · rw [hcount, hnone, countNamed, List.countP_cons_of_pos hconn]
    rfl
  · rw [hcount, countNamed_lengthLine, countNamed,
      List.countP_cons_of_neg (hlength ▸ Bool.false_ne_true)]
    rfl

/-- The head is as a reader wants it exactly if the lines that are brought do no harm. -/
theorem harmless_iff (hperm : hs.Perm (conn :: (brought ++ lengthLine body)))
    (hfilled : conn ≠ []) (hconn : lineNamed "connection" conn = true)
    (hlength : lineNamed "content-length" conn = false) :
    ((∀ l ∈ hs, l ≠ []) ∧ countNamed "connection" hs = 1 ∧
        countNamed "content-length" hs ≤ 1 ∧
        (∀ l ∈ hs, lineNamed "content-length" l = true →
          numeral (lineValue l) = some body.length) ∧
        (needed = true → 1 ≤ countNamed "content-length" hs)) ↔
      Harmless brought body needed := by
  obtain ⟨hconnCount, hlenCount⟩ := countNamed_head hperm hconn hlength
  have hmem : ∀ l, l ∈ hs ↔ l = conn ∨ l ∈ brought ∨ l ∈ lengthLine body := by
    intro l
    rw [hperm.mem_iff, List.mem_cons, List.mem_append]
  have hconnOne : countNamed "connection" hs = 1 ↔
      ∀ l ∈ brought, lineNamed "connection" l = false := by
    rw [hconnCount, ← countNamed_eq_zero]
    omega
  constructor
  · rintro ⟨hall, hone, hsingle, hvalue, hpresent⟩
    refine ⟨fun l hl => hall l ((hmem l).mpr (.inr (.inl hl))), hconnOne.mp hone, ?_, ?_⟩
    · intro hbody
      rw [if_neg hbody] at hlenCount
      exact countNamed_eq_zero.mp (by omega)
    · intro hbody
      rw [if_pos hbody] at hlenCount
      refine ⟨by omega, fun l hl hnamed => ?_, fun hneeded => ?_⟩
      · rw [hvalue l ((hmem l).mpr (.inr (.inl hl))) hnamed, hbody]
        rfl
      · have := hpresent hneeded
        omega
  · rintro ⟨hall, hone, hwith, hwithout⟩
    have hfilledAll : ∀ l ∈ hs, l ≠ [] := by
      intro l hl
      rcases (hmem l).mp hl with rfl | hl | hl
      · exact hfilled
      · exact hall l hl
      · exact (lengthLine_of_mem hl).1
    refine ⟨hfilledAll, hconnOne.mpr hone, ?_⟩
    by_cases hbody : body = []
    · obtain ⟨hsingle, hvalue, hpresent⟩ := hwithout hbody
      rw [if_pos hbody] at hlenCount
      refine ⟨by omega, fun l hl hnamed => ?_, fun hneeded => ?_⟩
      · rcases (hmem l).mp hl with rfl | hl | hl
        · rw [hlength] at hnamed
          cases hnamed
        · rw [hvalue l hl hnamed, hbody]
          rfl
        · exact (lengthLine_of_mem hl).2.2
      · have := hpresent hneeded
        omega
    · have hnone := hwith hbody
      have hzero := countNamed_eq_zero.mpr hnone
      rw [if_neg hbody] at hlenCount
      refine ⟨by omega, fun l hl hnamed => ?_, fun _ => by omega⟩
      rcases (hmem l).mp hl with rfl | hl | hl
      · rw [hlength] at hnamed
        cases hnamed
      · rw [hnone l hl] at hnamed
        cases hnamed
      · exact (lengthLine_of_mem hl).2.2

end Head

/-! ## The lines of `dump` -/

theorem lines_crlf (a b : List UInt8) : lines (a ++ crlf ++ b) = lines a ++ lines b := by
  rw [List.append_assoc]
  exact Lines.lines_append (by decide) b a

/-- The lines of texts that each end with a line end. -/
theorem lines_flatten (b : List UInt8) : ∀ fields : List (List UInt8),
    lines ((fields.map fun f => f ++ crlf).flatten ++ b) = fields.flatMap lines ++ lines b
  | [] => rfl
  | f :: fields => by
      rw [List.map_cons, List.flatten_cons, List.append_assoc, lines_crlf, lines_flatten b fields,
        List.flatMap_cons, List.append_assoc]

theorem lines_connection (close : Bool) :
    lines (chars "connection: " ++ if close then chars "close" else chars "keep-alive") =
      [chars "connection: " ++ if close then chars "close" else chars "keep-alive"] := by
  cases close with
  | true => rfl
  | false => rfl

/-- A text without a line end is one line. -/
theorem lines_of_not_mem : ∀ {text : List UInt8}, (10 : UInt8) ∉ text → lines text = [text]
  | [], _ => rfl
  | [_], _ => rfl
  | x :: y :: text, h => by
      rw [lines, Lines.lines_symbol fun hxy => h (by rw [← hxy.2]; simp)]
      have ih := lines_of_not_mem fun hmem => h (List.mem_cons_of_mem x hmem)
      rw [lines] at ih
      rw [ih]
      rfl

/-- The end of a message: the line `content-length`, the blank line and the body. -/
theorem lines_tail (body : List UInt8) :
    lines (if body = [] then crlf
      else chars "content-length: " ++ decimalText body.length ++ crlf ++ crlf ++ body) =
      lengthLine body ++ [] :: lines body := by
  rw [lengthLine]
  split
  · rename_i h
    rw [h]
    rfl
  · have hline : (10 : UInt8) ∉ chars "content-length: " ++ decimalText body.length := by
      intro hmem
      rcases List.mem_append.mp hmem with hmem | hmem
      · revert hmem
        decide
      · exact absurd ((numeral_eq_some_iff.mp (numeral_decimalText _)).2.1 10 hmem) (by decide)
    rw [List.append_assoc, lines_crlf, lines_of_not_mem hline]
    have hblank := lines_crlf [] body
    rw [List.nil_append] at hblank
    rw [hblank]
    rfl

/-- The request line begins with a method's name. -/
theorem lines_requestLine (r : HttpRequest) :
    ∃ start more, lines r.requestLine = start :: more ∧ start ≠ [] := by
  have hmethod : ∃ x name, httpMethodToString r.method = x :: name ∧ x ≠ 13 := by
    cases r.method with
    | _ => exact ⟨_, _, rfl, by decide⟩
  obtain ⟨x, name, hname, hx⟩ := hmethod
  obtain ⟨l, ls, hl⟩ := Lines.lines_cons (d := 10) hx _
  refine ⟨x :: l, ls, ?_, List.cons_ne_nil _ _⟩
  rw [lines, HttpRequest.requestLine, hname]
  simp only [List.cons_append]
  exact hl

theorem lines_statusLine (r : HttpResponse) :
    ∃ start more, lines r.statusLine = start :: more ∧ start ≠ [] := by
  obtain ⟨l, ls, hl⟩ := Lines.lines_cons (d := 10) (show (72 : UInt8) ≠ 13 by decide) _
  exact ⟨72 :: l, ls, hl, List.cons_ne_nil _ _⟩

theorem HttpRequest.lines_dump (r : HttpRequest) :
    lines r.dump = lines r.requestLine ++ (chars "connection: " ++ r.connection) ::
      ((r.dumped.flatMap fun h => lines (h.1 ++ chars ":" ++ h.2)) ++
        (lengthLine r.body ++ [] :: lines r.body)) := by
  have hdump : r.dump = r.requestLine ++ crlf ++ (chars "connection: " ++ r.connection ++ crlf ++
      (((r.dumped.map fun h => h.1 ++ chars ":" ++ h.2).map fun f => f ++ crlf).flatten ++
        if r.body = [] then crlf
        else chars "content-length: " ++ decimalText r.body.length ++ crlf ++ crlf ++ r.body)) := by
    rw [List.map_map, ← List.append_assoc, ← List.append_assoc]
    rfl
  have hconn : lines (chars "connection: " ++ r.connection) =
      [chars "connection: " ++ r.connection] := lines_connection r.close
  rw [hdump, lines_crlf, lines_crlf, lines_flatten, lines_tail, hconn, List.flatMap_map,
    List.singleton_append]

theorem HttpResponse.lines_dump (r : HttpResponse) :
    lines r.dump = lines r.statusLine ++
      ((r.dumped.flatMap fun h => lines (h.1 ++ chars ": " ++ h.2)) ++
        (chars "connection: " ++ r.connection) :: (lengthLine r.body ++ [] :: lines r.body)) := by
  have hdump : r.dump = r.statusLine ++ crlf ++
      (((r.dumped.map fun h => h.1 ++ chars ": " ++ h.2).map fun f => f ++ crlf).flatten ++
        (chars "connection: " ++ r.connection ++ crlf ++ if r.body = [] then crlf
          else chars "content-length: " ++ decimalText r.body.length ++ crlf ++ crlf
            ++ r.body)) := by
    rw [List.map_map, ← List.append_assoc, ← List.append_assoc]
    rfl
  have hconn : lines (chars "connection: " ++ r.connection) =
      [chars "connection: " ++ r.connection] := lines_connection r.close
  rw [hdump, lines_crlf, lines_flatten, lines_crlf, lines_tail, hconn, List.flatMap_map,
    List.singleton_append]

/-- A handler that sets the length of its body. -/
def measured : HttpResponse :=
  HttpResponse.setHeader (chars "Content-Length") (chars "5")
    { close := false, body := chars "hello" }

/-- A handler that sets nothing. -/
def silent : HttpResponse := { close := false }

end CoLib.Http
