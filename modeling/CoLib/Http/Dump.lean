/-
# `CoLib.Http.Dump` — writing a request

`HttpRequest::toString`, and the requests whose parts the grammar allows: the
characters of a path, a query and a fragment are those of `http11_parser.rl`, a
header name is a token of it, and the headers are a map.
-/
import CoLib.Http.Request
import Mathlib

namespace CoLib.Http

open Lib

/-- `HttpMethodToString`. -/
def httpMethodToString (m : HttpMethod) : List UInt8 :=
  match httpMethodMap.lookup m with
  | some name => chars name
  | none => chars "<unknow>"

/-- What `operator<<` writes for an unsigned number. -/
def decimalText (n : Nat) : List UInt8 :=
  chars (toString n)

/-- The line end. -/
def crlf : List UInt8 := [13, 10]

namespace HttpRequest

/-- The request line of `dump`. -/
def dumpLine (r : HttpRequest) : List UInt8 :=
  httpMethodToString r.method ++ chars " " ++ r.path
    ++ (if r.query = [] then [] else chars "?") ++ r.query
    ++ (if r.fragment = [] then [] else chars "#") ++ r.fragment
    ++ chars " HTTP/" ++ decimalText (r.version >>> 4).toNat ++ chars "."
    ++ decimalText (r.version &&& 0x0F).toNat ++ crlf

/-- The value written for `connection`. -/
def connection (r : HttpRequest) : List UInt8 :=
  if r.close then chars "close" else chars "keep-alive"

/-- The headers that `dump` writes in its loop. -/
def dumped (r : HttpRequest) : List (List UInt8 × List UInt8) :=
  r.headers.filter fun h => !strcasecmpEq h.1 (chars "connection")

/-- `dump`, and what `toString` returns. -/
def dump (r : HttpRequest) : List UInt8 :=
  r.dumpLine
    ++ (chars "connection: " ++ r.connection ++ crlf)
    ++ (r.dumped.map fun h => h.1 ++ chars ":" ++ h.2 ++ crlf).flatten
    ++ if r.body = [] then crlf
      else chars "content-length: " ++ decimalText r.body.length ++ crlf ++ crlf ++ r.body

end HttpRequest

/-! ## The grammar's characters -/

/-- `alpha | digit`. -/
def isAlnum (c : UInt8) : Bool :=
  (48 ≤ c && c ≤ 57) || (65 ≤ c && c ≤ 90) || (97 ≤ c && c ≤ 122)

/-- `xdigit`. -/
def isXdigit (c : UInt8) : Bool :=
  (48 ≤ c && c ≤ 57) || (65 ≤ c && c ≤ 70) || (97 ≤ c && c ≤ 102)

/-- One of the characters. -/
def oneOf (cs : List Char) (c : UInt8) : Bool :=
  cs.any fun ch => ch.toNat == c.toNat

/-- `unreserved`. -/
def isUnreserved (c : UInt8) : Bool :=
  isAlnum c || oneOf ['-', '.', '_', '~'] c

/-- `sub_delims`. -/
def isSubDelim (uriRelaxed : Bool) (c : UInt8) : Bool :=
  oneOf ['!', '$', '&', '\x27', '(', ')', '*', '+', ',', ';', '='] c
    || (uriRelaxed && oneOf ['\x7b', '\x7d', '^'] c)

/-- `pchar`, apart from `pct_encoded`. -/
def isPchar (uriRelaxed : Bool) (c : UInt8) : Bool :=
  128 ≤ c || isUnreserved c || isSubDelim uriRelaxed c || oneOf [':', '@'] c

/-- A sequence of `pchar` and of the characters in `extra`. -/
inductive UriText (uriRelaxed : Bool) (extra : List UInt8) : List UInt8 → Prop
  | nil : UriText uriRelaxed extra []
  | char {c : UInt8} {cs : List UInt8} (hc : isPchar uriRelaxed c = true ∨ c ∈ extra)
      (h : UriText uriRelaxed extra cs) : UriText uriRelaxed extra (c :: cs)
  | pctEncoded {a b : UInt8} {cs : List UInt8} (ha : isXdigit a = true) (hb : isXdigit b = true)
      (h : UriText uriRelaxed extra cs) : UriText uriRelaxed extra (37 :: a :: b :: cs)

/-- `HTTP_separator`. -/
def isSeparator (c : UInt8) : Bool :=
  oneOf ['(', ')', '<', '>', '@', ',', ';', ':', '\\', '"', '/', '[', ']', '?', '=', '\x7b',
    '\x7d', ' ', '\t'] c

/-- `token`: ASCII, no control character and no separator. -/
def isToken (c : UInt8) : Bool :=
  32 ≤ c && c < 127 && !isSeparator c

/-- A character of a header value. -/
def isContent (c : UInt8) : Bool :=
  c != 0 && c != 10 && c != 13 && c != 127

/-- A blank of `lws`. -/
def isBlank (c : UInt8) : Bool :=
  c == 32 || c == 9

/-! ## The keys of the headers -/

/-- The key by which `m_headers` is ordered. -/
def headerKey (h : List UInt8 × List UInt8) : List Nat :=
  (folded h.1).map UInt8.toNat

theorem map_toNat_lt (a b : List UInt8) :
    a.map UInt8.toNat < b.map UInt8.toNat ↔ a < b := by
  induction a generalizing b with
  | nil => cases b <;> simp
  | cons x a ih =>
      cases b with
      | nil => simp
      | cons y b =>
          rw [List.map_cons, List.map_cons, List.cons_lt_cons_iff, List.cons_lt_cons_iff, ih,
            UInt8.lt_iff_toNat_lt, UInt8.toNat_inj]

theorem headerLess_iff (a b : List UInt8 × List UInt8) :
    HttpRequest.headerLess a b = true ↔ headerKey a < headerKey b := by
  rw [HttpRequest.headerLess, caseInsensitiveLess, decide_eq_true_iff, headerKey, headerKey,
    map_toNat_lt]

/-- Names that `strcasecmp` does not tell apart have one key. -/
theorem headerKey_eq_iff (a b : List UInt8 × List UInt8) :
    headerKey a = headerKey b ↔ strcasecmpEq a.1 b.1 = true := by
  rw [strcasecmpEq, beq_iff_eq, headerKey, headerKey]
  exact (List.map_injective_iff.mpr fun _ _ h => UInt8.toNat_inj.mp h).eq_iff

/-! ## The map of the headers -/

/-- `m_headers[key] = val`. -/
def assignHeader (headers : List (List UInt8 × List UInt8)) (entry : List UInt8 × List UInt8) :
    List (List UInt8 × List UInt8) :=
  let (headers, it) := OrderedSet.insert HttpRequest.headerLess (entry.1, []) headers
  headers.modify it fun old => (old.1, entry.2)

section Assign

variable {headers entries : List (List UInt8 × List UInt8)} {entry : List UInt8 × List UInt8}

/-- A new key. -/
theorem assignHeader_fresh (hs : OrderedSet.SortedBy headerKey headers)
    (hnew : ∀ e ∈ headers, headerKey e ≠ headerKey entry) :
    OrderedSet.SortedBy headerKey (assignHeader headers entry) ∧
      ∀ e, e ∈ assignHeader headers entry ↔ e = entry ∨ e ∈ headers := by
  obtain ⟨key, val⟩ := entry
  obtain ⟨l, r, hlr, hins, hsorted⟩ :=
    OrderedSet.insert_of_fresh (x := (key, ([] : List UInt8))) headerLess_iff hs hnew
  have hmodify : ∀ l : List (List UInt8 × List UInt8),
      (l ++ (key, []) :: r).modify l.length (fun entry => (entry.1, val))
        = l ++ (key, val) :: r := by
    intro l
    induction l with
    | nil => rfl
    | cons e l ih => rw [List.cons_append, List.length_cons, List.modify_succ_cons, ih]; rfl
  have hheaders : assignHeader headers (key, val) = l ++ (key, val) :: r := by
    rw [assignHeader, hins]
    exact hmodify l
  rw [hheaders, hlr]
  refine ⟨?_, fun e => ?_⟩
  · have hmap : (l ++ (key, val) :: r).map headerKey = (l ++ (key, []) :: r).map headerKey := by
      simp [headerKey]
    exact List.pairwise_map.mp (hmap ▸ List.pairwise_map.mpr hsorted)
  · simp only [List.mem_append, List.mem_cons]
    tauto

/-- Different keys, one after another. -/
theorem assignHeaders_fresh (hsorted : OrderedSet.SortedBy headerKey headers)
    (hnew : ∀ e ∈ headers, ∀ e' ∈ entries, headerKey e ≠ headerKey e')
    (hdiff : entries.Pairwise fun e e' => headerKey e ≠ headerKey e') :
    OrderedSet.SortedBy headerKey (entries.foldl assignHeader headers) ∧
      ∀ e, e ∈ entries.foldl assignHeader headers ↔ e ∈ entries ∨ e ∈ headers := by
  induction entries generalizing headers with
  | nil => exact ⟨hsorted, fun e => by simp⟩
  | cons x entries ih =>
      obtain ⟨hx, hdiff⟩ := List.pairwise_cons.mp hdiff
      have hnewx : ∀ e ∈ headers, headerKey e ≠ headerKey x :=
        fun e he => hnew e he x List.mem_cons_self
      obtain ⟨hsorted', hmem⟩ := assignHeader_fresh hsorted hnewx
      obtain ⟨h₁, h₂⟩ := ih hsorted'
        (fun e he e' he' => by
          rcases (hmem e).mp he with rfl | he
          · exact hx e' he'
          · exact hnew e he e' (List.mem_cons_of_mem _ he')) hdiff
      refine ⟨h₁, fun e => ?_⟩
      have h := h₂ e
      rw [hmem e] at h
      rw [List.mem_cons]
      exact h.trans or_left_comm |>.trans or_assoc.symm

/-- The headers of an object but `connection`, with the lines that `dump` writes itself:
no two have one name. -/
theorem written_pairwise (hsorted : OrderedSet.SortedBy headerKey headers)
    (hlength : ∀ e ∈ headers, strcasecmpEq e.1 (chars "content-length") = false)
    (connection : List UInt8)
    (hentries : ∀ e ∈ entries, e.1 = chars "content-length") (hone : entries.length ≤ 1) :
    ((chars "connection", connection) ::
      headers.filter (fun h => !strcasecmpEq h.1 (chars "connection")) ++ entries).Pairwise
        fun e e' => headerKey e ≠ headerKey e' := by
  have hdumped : (headers.filter fun h => !strcasecmpEq h.1 (chars "connection")).Pairwise
      fun e e' => headerKey e ≠ headerKey e' :=
    (hsorted.sublist List.filter_sublist).imp fun hlt => ne_of_lt hlt
  have hconn : ∀ e ∈ headers.filter (fun h => !strcasecmpEq h.1 (chars "connection")),
      headerKey (chars "connection", connection) ≠ headerKey e := by
    intro e he heq
    have hkept := (List.mem_filter.mp he).2
    rw [(headerKey_eq_iff e (chars "connection", connection)).mp heq.symm] at hkept
    cases hkept
  have hentry : ∀ e, ∀ e' ∈ entries, headerKey e = headerKey e' →
      strcasecmpEq e.1 (chars "content-length") = true := by
    intro e e' he' heq
    rw [← hentries e' he']
    exact (headerKey_eq_iff e e').mp heq
  rw [List.cons_append, List.pairwise_cons]
  refine ⟨fun e he heq => ?_, List.pairwise_append.mpr ⟨hdumped, ?_, fun e he e' he' heq => ?_⟩⟩
  · rcases List.mem_append.mp he with he | he
    · exact hconn e he heq
    · have hno : strcasecmpEq (chars "connection") (chars "content-length") = false := by
        decide
      have hname : strcasecmpEq (chars "connection") (chars "content-length") = true :=
        hentry (chars "connection", connection) e he heq
      rw [hno] at hname
      cases hname
  · match entries, hone with
    | [], _ => exact List.Pairwise.nil
    | [e], _ => exact List.pairwise_singleton _ _
  · have hno := hlength e (List.mem_filter.mp he).1
    rw [hentry e e' he' heq] at hno
    cases hno

end Assign

/-! ## The requests that the grammar can express -/

namespace HttpRequest

/-- A header that can stand on a line of its own. -/
structure Field (h : List UInt8 × List UInt8) : Prop where
  name : h.1 ≠ []
  token : ∀ c ∈ h.1, isToken c = true
  content : ∀ c ∈ h.2, isContent c = true
  leading : ∀ c, h.2.head? = some c → isBlank c = false

/-- The requests of which the grammar can express every part. -/
structure Expressible (uriRelaxed : Bool) (r : HttpRequest) : Prop where
  method : r.method ≠ .invalidMethod
  version : r.version = 0x10 ∨ r.version = 0x11
  path : ∃ rest, r.path = 47 :: rest ∧ rest.head? ≠ some 47 ∧ UriText uriRelaxed [47] rest
  query : UriText uriRelaxed [47, 63] r.query
  fragment : UriText uriRelaxed [47, 63] r.fragment
  /-- `m_headers` is a `std::map`. -/
  sorted : OrderedSet.SortedBy headerKey r.headers
  field : ∀ h ∈ r.headers, Field h
  noLength : ∀ h ∈ r.headers, strcasecmpEq h.1 (chars "content-length") = false

/-- The headers, with `connection` replaced and `content-length` added when there
is a body. -/
def sent (r : HttpRequest) : List (List UInt8 × List UInt8) :=
  (chars "connection", r.connection) :: r.dumped
    ++ if r.body = [] then [] else [(chars "content-length", decimalText r.body.length)]

end HttpRequest

end CoLib.Http
