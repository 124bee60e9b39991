/-
# `CoLib.Http.Request` — the request object and the C strings it is built from

Strings are lists of bytes.  `m_headers` is a `std::map` ordered by
`CaseInsensitiveLess`, here the list of its entries in iteration order.
`m_params` and `m_cookies` are filled by nobody and are left out.
-/
import CoLib.Lib.OrderedSet
import Mathlib

namespace CoLib.Http

open Lib

/-! ## C strings -/

/-- The bytes of a string literal. -/
def chars (s : String) : List UInt8 :=
  s.toList.map fun c => c.toNat.toUInt8

/-- `strncmp(a, b, n) == 0`.  A string ends with a zero byte. -/
def strncmpEq : Nat → List UInt8 → List UInt8 → Bool
  | 0, _, _ => true
  | n + 1, a, b =>
      a.headD 0 == b.headD 0 && (a.headD 0 == 0 || strncmpEq n a.tail b.tail)

/-- `tolower` in the C locale. -/
def toLower (c : UInt8) : UInt8 :=
  if 65 ≤ c ∧ c ≤ 90 then c + 32 else c

/-- The bytes that `strcasecmp` compares: up to the first zero, in lower case. -/
def folded (s : List UInt8) : List UInt8 :=
  (s.takeWhile (· != 0)).map toLower

/-- `strcasecmp(a, b) == 0`. -/
def strcasecmpEq (a b : List UInt8) : Bool :=
  folded a == folded b

/-- `CaseInsensitiveLess`: `strcasecmp(a, b) < 0`. -/
def caseInsensitiveLess (a b : List UInt8) : Bool :=
  decide (folded a < folded b)

/-! ## Methods -/

/-- `HttpMethod`. -/
inductive HttpMethod where
  | delete | get | head | post | put
  | connect | options | trace
  | copy | lock | mkcol | move | propfind | proppatch | search | unlock | bind | rebind | unbind
  | acl
  | report | mkactivity | checkout | merge
  | msearch | notify | subscribe | unsubscribe
  | patch | purge
  | mkcalendar
  | link | unlink
  | source
  | invalidMethod
  deriving DecidableEq, Repr

/-- `HTTP_METHOD_MAP`, in its order. -/
def httpMethodMap : List (HttpMethod × String) :=
  [(.delete, "DELETE"), (.get, "GET"), (.head, "HEAD"), (.post, "POST"), (.put, "PUT"),
    (.connect, "CONNECT"), (.options, "OPTIONS"), (.trace, "TRACE"),
    (.copy, "COPY"), (.lock, "LOCK"), (.mkcol, "MKCOL"), (.move, "MOVE"),
    (.propfind, "PROPFIND"), (.proppatch, "PROPPATCH"), (.search, "SEARCH"),
    (.unlock, "UNLOCK"), (.bind, "BIND"), (.rebind, "REBIND"), (.unbind, "UNBIND"),
    (.acl, "ACL"),
    (.report, "REPORT"), (.mkactivity, "MKACTIVITY"), (.checkout, "CHECKOUT"),
    (.merge, "MERGE"),
    (.msearch, "M-SEARCH"), (.notify, "NOTIFY"), (.subscribe, "SUBSCRIBE"),
    (.unsubscribe, "UNSUBSCRIBE"),
    (.patch, "PATCH"), (.purge, "PURGE"),
    (.mkcalendar, "MKCALENDAR"),
    (.link, "LINK"), (.unlink, "UNLINK"),
    (.source, "SOURCE")]

/-- `CharsToHttpMethod`: the first method whose name begins `m`.  The string `m`
points into the receive buffer and goes on after the token. -/
def charsToHttpMethod (m : List UInt8) : HttpMethod :=
  match httpMethodMap.find? fun (_, name) => strncmpEq (chars name).length (chars name) m with
  | some (method, _) => method
  | none => .invalidMethod

/-! ## The request -/

/-- `HttpRequest`.  The constructor's defaults are those of the session. -/
structure HttpRequest where
  method : HttpMethod := .get
  version : UInt8 := 0x11
  close : Bool := true
  path : List UInt8 := chars "/"
  query : List UInt8 := []
  fragment : List UInt8 := []
  body : List UInt8 := []
  headers : List (List UInt8 × List UInt8) := []
  deriving DecidableEq, Repr

namespace HttpRequest

def headerLess (a b : List UInt8 × List UInt8) : Bool :=
  caseInsensitiveLess a.1 b.1

/-- `setHeader`: `m_headers[key] = val`.  The key of an entry that is already
there keeps its spelling. -/
def setHeader (key val : List UInt8) (r : HttpRequest) : HttpRequest :=
  let (headers, it) := OrderedSet.insert headerLess (key, []) r.headers
  { r with headers := headers.modify it fun entry => (entry.1, val) }

/-- `m_headers.find(key)`. -/
def findHeader (key : List UInt8) (r : HttpRequest) : Option (List UInt8) :=
  (OrderedSet.find headerLess (key, []) r.headers).bind fun it =>
    r.headers[it]?.map Prod.snd

/-- `getHeader` with the empty default. -/
def getHeader (key : List UInt8) (r : HttpRequest) : List UInt8 :=
  (r.findHeader key).getD []

/-- `getHeaderAs<uint64_t>(key, 0)`.  The conversion is boost's: `none` where
`lexical_cast` throws. -/
def getHeaderAs (lexicalCast : List UInt8 → Option UInt64) (key : List UInt8)
    (r : HttpRequest) : UInt64 :=
  ((r.findHeader key).bind lexicalCast).getD 0

end HttpRequest

/-! ## Comparing a prefix -/

/-- A name without blanks is compared at most up to the first blank. -/
theorem strncmpEq_blank {name m m' : List UInt8} {k : Nat} (hname : (32 : UInt8) ∉ name)
    (h : m.take (k + 1) = m'.take (k + 1)) (hk : m[k]? = some 32) :
    strncmpEq name.length name m = strncmpEq name.length name m' := by
  induction name generalizing m m' k with
  | nil => rfl
  | cons x name ih =>
      cases m with
      | nil => simp at hk
      | cons y m =>
        cases m' with
        | nil => simp at h
        | cons y' m' =>
          simp only [List.take_succ_cons, List.cons.injEq] at h
          obtain ⟨rfl, h⟩ := h
          simp only [List.mem_cons, not_or] at hname
          cases k with
          | zero =>
              simp only [List.getElem?_cons_zero, Option.some.injEq] at hk
              have hne : (x == y) = false := by
                rw [hk, beq_eq_false_iff_ne]
                exact Ne.symm hname.1
              simp [strncmpEq, hne]
          | succ k =>
              simp only [List.getElem?_cons_succ] at hk
              simp only [List.length_cons, strncmpEq, List.headD_cons, List.tail_cons,
                ih hname.2 h hk]

theorem httpMethodMap_no_blank :
    httpMethodMap.all (fun entry => !(chars entry.2).contains 32) = true := by decide +kernel

/-- The method of a token that ends with a blank depends on the token only. -/
theorem charsToHttpMethod_blank {m m' : List UInt8} {k : Nat}
    (h : m.take (k + 1) = m'.take (k + 1)) (hk : m[k]? = some 32) :
    charsToHttpMethod m = charsToHttpMethod m' := by
  have hfind : httpMethodMap.find? (fun (_, name) => strncmpEq (chars name).length (chars name) m) =
      httpMethodMap.find? (fun (_, name) => strncmpEq (chars name).length (chars name) m') := by
    refine List.find?_congr fun entry hentry => ?_
    have hno := List.all_eq_true.mp httpMethodMap_no_blank entry hentry
    refine strncmpEq_blank (fun hmem => ?_) h hk
    rw [List.contains_iff_mem.mpr hmem] at hno
    cases hno
  rw [charsToHttpMethod, charsToHttpMethod, hfind]

end CoLib.Http
