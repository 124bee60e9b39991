/-
# `CoLib.Http.Response` — the response object and writing it

`HttpStatus` is an enumeration to which any number can be cast, as the client's
parser does; it is the number here.
-/
import CoLib.Http.Dump

namespace CoLib.Http

open Lib

/-- `HTTP_STATUS_MAP`, in its order. -/
def httpStatusMap : List (UInt32 × String) :=
  [(100, "Continue"), (101, "Switching Protocols"), (102, "Processing"), (200, "OK"),
    (201, "Created"), (202, "Accepted"), (203, "Non-Authoritative Information"),
    (204, "No Content"), (205, "Reset Content"), (206, "Partial Content"),
    (207, "Multi-Status"), (208, "Already Reported"), (226, "IM Used"),
    (300, "Multiple Choices"), (301, "Moved Permanently"), (302, "Found"), (303, "See Other"),
    (304, "Not Modified"), (305, "Use Proxy"), (307, "Temporary Redirect"),
    (308, "Permanent Redirect"), (400, "Bad Request"), (401, "Unauthorized"),
    (402, "Payment Required"), (403, "Forbidden"), (404, "Not Found"),
    (405, "Method Not Allowed"), (406, "Not Acceptable"),
    (407, "Proxy Authentication Required"), (408, "Request Timeout"), (409, "Conflict"),
    (410, "Gone"), (411, "Length Required"), (412, "Precondition Failed"),
    (413, "Payload Too Large"), (414, "URI Too Long"), (415, "Unsupported Media Type"),
    (416, "Range Not Satisfiable"), (417, "Expectation Failed"), (421, "Misdirected Request"),
    (422, "Unprocessable Entity"), (423, "Locked"), (424, "Failed Dependency"),
    (426, "Upgrade Required"), (428, "Precondition Required"), (429, "Too Many Requests"),
    (431, "Request Header Fields Too Large"), (451, "Unavailable For Legal Reasons"),
    (500, "Internal Server Error"), (501, "Not Implemented"), (502, "Bad Gateway"),
    (503, "Service Unavailable"), (504, "Gateway Timeout"),
    (505, "HTTP Version Not Supported"), (506, "Variant Also Negotiates"),
    (507, "Insufficient Storage"), (508, "Loop Detected"), (510, "Not Extended"),
    (511, "Network Authentication Required")]

/-- `HttpStatusToString`. -/
def httpStatusToString (s : UInt32) : List UInt8 :=
  match httpStatusMap.lookup s with
  | some msg => chars msg
  | none => chars "<unknown>"

/-- `HttpResponse`, with the constructor's defaults. -/
structure HttpResponse where
  status : UInt32 := 200
  version : UInt8 := 0x11
  close : Bool := true
  body : List UInt8 := []
  reason : List UInt8 := []
  headers : List (List UInt8 × List UInt8) := []
  deriving DecidableEq, Repr

namespace HttpResponse

/-- `setHeader`: `m_headers[key] = val`. -/
def setHeader (key val : List UInt8) (r : HttpResponse) : HttpResponse :=
  let (headers, it) := OrderedSet.insert HttpRequest.headerLess (key, []) r.headers
  { r with headers := headers.modify it fun entry => (entry.1, val) }

/-- The status line of `dump`, without its line end. -/
def statusLine (r : HttpResponse) : List UInt8 :=
  chars "HTTP/" ++ decimalText (r.version.toNat >>> 4) ++ chars "."
    ++ decimalText (r.version.toNat &&& 0x0F) ++ chars " " ++ decimalText r.status.toNat
    ++ chars " " ++ if r.reason = [] then httpStatusToString r.status else r.reason

/-- The value written for `connection`. -/
def connection (r : HttpResponse) : List UInt8 :=
  if r.close then chars "close" else chars "keep-alive"

/-- The headers that `dump` writes in its loop. -/
def dumped (r : HttpResponse) : List (List UInt8 × List UInt8) :=
  r.headers.filter fun h => !strcasecmpEq h.1 (chars "connection")

/-- `dump`, and what `toString` returns. -/
def dump (r : HttpResponse) : List UInt8 :=
  r.statusLine ++ crlf
    ++ (r.dumped.map fun h => h.1 ++ chars ": " ++ h.2 ++ crlf).flatten
    ++ (chars "connection: " ++ r.connection ++ crlf)
    ++ if r.body = [] then crlf
      else chars "content-length: " ++ decimalText r.body.length ++ crlf ++ crlf ++ r.body

end HttpResponse

end CoLib.Http
