/-
# `CoLib.Http.Server` — a client's requests, from its text to the servlets

A client writes its requests with `toString`, one after another.  The server
receives them from whatever groups the bytes arrive in, builds a response for
each, hands both to the servlet of the request's path and sends what the servlet
leaves, until a request or the server's setting ends the conversation.

`converse` is that conversation on the client's own requests: no bytes, no parser,
no connection.

**Proved here.**  `serve_eq_converse`: on a connection that delivers the requests,
`handleClient` with the dispatcher does what `converse` says, where each servlet
gets the client's request itself (`received`), with the headers that the client
sent.  `converse_notFound`: a client whose paths have no servlet is told so once
for each request that is served, in responses that the client's parser reads.
-/
import CoLib.Http.Fields
import CoLib.Http.RoundTrip
import CoLib.Http.Numeral
import CoLib.Http.Servlet
import CoLib.Http.KeepAlive
import CoLib.Http.ResponseRoundTrip

namespace CoLib.Http

open Lib HttpRequestParser

/-! ## The servlets -/

/-- The code of the user: what a servlet or a callback does with a request and a
response, on a state of its own. -/
structure Handlers (σ S C : Type) where
  user : S → σ → HttpRequest → HttpResponse → σ × HttpRequest × HttpResponse
  callback : C → σ → HttpRequest → HttpResponse → σ × HttpRequest × HttpResponse

/-- The body of `NotFoundServlet`. -/
def rspBody : List UInt8 :=
  chars "<html><head><title>404 Not Found" ++
    chars "</title></head><body><center><h1>404 Not Found</h1></center>" ++
    chars "<hr><center>fkyzt/1.0</center></body></html>"

/-- `NotFoundServlet::handle`. -/
def notFoundHandle (rsp : HttpResponse) : HttpResponse :=
  let rsp := { rsp with status := 404 }
  let rsp := rsp.setHeader (chars "Server") (chars "co_lib/1.0.0")
  let rsp := rsp.setHeader (chars "Content-Type") (chars "text/html")
  { rsp with body := rspBody }

section Dispatch

variable {σ S C : Type}

/-- `slt->handle(request, response, session)`. -/
def Servlet.handle (h : Handlers σ S C) (s : σ) (req : HttpRequest) (rsp : HttpResponse) :
    Servlet S C → σ × HttpRequest × HttpResponse
  | .user slt => h.user slt s req rsp
  | .function _ cb => h.callback cb s req rsp
  | .notFound => (s, req, notFoundHandle rsp)

/-- `ServletDispatch::handle`.  The dispatcher is part of the state: a servlet may
change it. -/
def dispatchHandle (fnmatch : List UInt8 → List UInt8 → Int) (h : Handlers σ S C)
    (dispatch : σ → ServletDispatch S C) (s : σ) (req : HttpRequest) (rsp : HttpResponse) :
    σ × HttpRequest × HttpResponse :=
  ((dispatch s).getMatchedServlet fnmatch req.path).handle h s req rsp

end Dispatch

/-! ## What the server receives -/

namespace HttpRequest

variable {u : Bool} {r d : HttpRequest} {key : List UInt8} {e : List UInt8 × List UInt8}

/-- The client's request as the servlet gets it: its headers are those that were sent. -/
def received (r : HttpRequest) : HttpRequest :=
  { r with headers := r.sent.foldl assignHeader [] }

/-- What the parser finds in the header section. -/
def found (r : HttpRequest) : HttpRequest :=
  setHeaders r.sent
    { r.setUri { ({} : HttpRequest) with method := r.method } with version := r.version }

theorem found_eq (r : HttpRequest) : r.found = { r.received with body := [], close := true } := by
  have hparts : { r.setUri { ({} : HttpRequest) with method := r.method } with
      version := r.version } = { r with headers := [], body := [], close := true } := by
    unfold setUri
    obtain ⟨method, version, close, path, query, fragment, body, headers⟩ := r
    dsimp only
    split
    · rename_i hf
      obtain rfl : fragment = [] := hf
      split
      · rename_i hq
        obtain rfl : query = [] := hq
        rfl
      · rfl
    · split
      · rename_i hq
        obtain rfl : query = [] := hq
        rfl
      · rfl
  rw [found, hparts]
  obtain ⟨d, hd⟩ : ∃ d, { r with headers := [], body := [], close := true } = d := ⟨_, rfl⟩
  have hframe := setHeaders_frame r.sent d
  have hheaders := setHeaders_headers r.sent d
  rw [hd]
  have heta : setHeaders r.sent d =
      { { setHeaders r.sent d with headers := d.headers } with
        headers := (setHeaders r.sent d).headers } := rfl
  rw [heta, hframe, hheaders, ← hd]
  rfl

/-- The headers that the server has are those that were sent. -/
theorem received_headers (h : r.Expressible u) :
    OrderedSet.SortedBy headerKey r.received.headers ∧
      ∀ e, e ∈ r.received.headers ↔ e ∈ r.sent := by
  have hnew : ∀ e ∈ ([] : List (List UInt8 × List UInt8)), ∀ e' ∈ r.sent,
      headerKey e ≠ headerKey e' := by
    intro e he
    cases he
  have hnil : OrderedSet.SortedBy headerKey ([] : List (List UInt8 × List UInt8)) :=
    List.Pairwise.nil
  obtain ⟨hsorted, hmem⟩ := assignHeaders_fresh hnil hnew (sent_pairwise h)
  exact ⟨hsorted, fun e => (hmem e).trans (by simp)⟩

/-- The value of a header that is there. -/
theorem findHeader_of_mem (hs : OrderedSet.SortedBy headerKey d.headers) (he : e ∈ d.headers)
    (hk : headerKey e = nameKey key) : d.findHeader key = some e.2 := by
  have hentry : MapType.table ⟨d.headers, hs⟩ (nameKey key) = some e :=
    (OrderedMap.entryOf_eq_some hs).mpr ⟨he, hk⟩
  have hfields : d.headers = (⟨d.headers, hs⟩ : MapType).entries := rfl
  rw [findHeader_eq hfields, MapType.find_eq, FieldTable.value, hentry]
  rfl

theorem findHeader_none (hs : OrderedSet.SortedBy headerKey d.headers)
    (hk : ∀ e ∈ d.headers, headerKey e ≠ nameKey key) : d.findHeader key = none := by
  have hentry : MapType.table ⟨d.headers, hs⟩ (nameKey key) = none :=
    OrderedMap.entryOf_eq_none.mpr hk
  have hfields : d.headers = (⟨d.headers, hs⟩ : MapType).entries := rfl
  rw [findHeader_eq hfields, MapType.find_eq, FieldTable.value, hentry]
  rfl

/-- The server keeps the connection open exactly if the client asked for it. -/
theorem withKeepAlive_found (h : r.Expressible u) :
    withKeepAlive { r.found with body := r.body } = r.received := by
  obtain ⟨hsorted, hmem⟩ := received_headers h
  have hconn : (chars "connection", r.connection) ∈ r.received.headers :=
    (hmem _).mpr (List.mem_append_left _ List.mem_cons_self)
  have hvalue : r.received.findHeader (chars "Connection") = some r.connection := by
    have hkey : nameKey (chars "connection") = nameKey (chars "Connection") := by decide
    exact findHeader_of_mem hsorted hconn hkey
  have hget : getHeader (chars "Connection") { r.found with body := r.body } = r.connection := by
    rw [found_eq, getHeader]
    exact congrArg (·.getD []) hvalue
  rw [withKeepAlive, hget, found_eq]
  cases hclose : r.close with
  | true =>
      have hno : strcasecmpEq r.connection (chars "keep-alive") = false := by
        rw [connection, hclose]
        decide
      rw [if_neg (by rw [hno]; exact Bool.false_ne_true), ← hclose]
      rfl
  | false =>
      have hyes : strcasecmpEq r.connection (chars "keep-alive") = true := by
        rw [connection, hclose]
        decide
      rw [if_pos hyes, ← hclose]
      rfl

/-- The length that the server finds is that of the client's body. -/
theorem contentLength_found {lexicalCast : List UInt8 → Option UInt64}
    (hcast : LexicalCast lexicalCast) (h : r.Expressible u) (hsize : r.body.length < 2 ^ 64) :
    (r.found.getHeaderAs lexicalCast (chars "content-length")).toNat = r.body.length := by
  obtain ⟨hsorted, hmem⟩ := received_headers h
  have hfind : r.found.findHeader (chars "content-length") =
      r.received.findHeader (chars "content-length") := by
    rw [found_eq]
    rfl
  rw [getHeaderAs, hfind]
  rcases eq_or_ne r.body [] with hb | hb
  · have hnone : r.received.findHeader (chars "content-length") = none := by
      refine findHeader_none hsorted fun e he hk => ?_
      have hname : strcasecmpEq e.1 (chars "content-length") = true :=
        (headerKey_eq_iff e (chars "content-length", [])).mp hk
      have hsent := (hmem e).mp he
      rw [sent, if_pos hb, List.append_nil] at hsent
      rcases List.mem_cons.mp hsent with rfl | hdumped
      · have hno : strcasecmpEq (chars "connection") (chars "content-length") = false := by decide
        exact absurd (hno.symm.trans hname) (by decide)
      · have hno := h.noLength e (List.mem_filter.mp hdumped).1
        exact absurd (hno.symm.trans hname) (by decide)
    rw [hnone, hb]
    rfl
  · have hthere : (chars "content-length", decimalText r.body.length) ∈ r.received.headers := by
      refine (hmem _).mpr ?_
      rw [sent, if_neg hb]
      exact List.mem_append_right _ (List.mem_singleton.mpr rfl)
    have hvalue : r.received.findHeader (chars "content-length") =
        some (decimalText r.body.length) := findHeader_of_mem hsorted hthere rfl
    rw [hvalue, Option.bind_some,
      hcast.numeral (decimalText r.body.length) r.body.length (numeral_decimalText _),
      if_pos hsize]
    exact UInt64.toNat_ofNat_of_lt hsize

end HttpRequest

/-! ## The client's requests on the wire -/

/-- A request that a client can send: the grammar can express it, and the machine
takes its method. -/
structure ClientRequest (u : Bool) where
  request : HttpRequest
  expressible : request.Expressible u
  method : request.method ≠ .msearch
  sized : request.body.length < 2 ^ 64

section Wire

variable {u : Bool} {lexicalCast : List UInt8 → Option UInt64} (hcast : LexicalCast lexicalCast)

/-- The text of the request, cut after its header section. -/
def ClientRequest.message (r : ClientRequest u) : Message u lexicalCast where
  head := r.request.head ++ crlf
  body := r.request.body
  data := r.request.found
  accepted := by
    obtain ⟨P, hrun, herror, hcs, hdata⟩ :=
      HttpRequest.run_of_passes [] (HttpRequest.passes_head r.expressible r.method)
    refine ⟨P, ?_, ?_, ?_, hdata⟩
    · rw [List.append_nil] at hrun
      rw [hrun, List.length_append]
      rfl
    · rw [hasError, herror, hcs]
      rfl
    · rw [isFinished, hcs]
      rfl
  exact := HttpRequest.contentLength_found hcast r.expressible r.sized

theorem bytes_message (r : ClientRequest u) : (r.message hcast).bytes = r.request.dump := by
  rw [HttpRequest.dump_eq, ← List.append_assoc]
  rfl

theorem request_message (r : ClientRequest u) :
    (r.message hcast).request = r.request.received :=
  HttpRequest.withKeepAlive_found r.expressible

/-! ### One request, one group -/

variable {buffSize : Nat}

/-- A group that one call of `recv` takes whole. -/
theorem Conn.read_whole {n : Nat} {seg : List UInt8} (more : List (List UInt8))
    (h : seg.length ≤ min n maxRwCount) :
    Conn.read n ⟨seg :: more, true⟩ = ((seg.length : Int), seg, ⟨more, true⟩) := by
  rw [Conn.read, if_pos rfl]
  show (((seg.take (min n maxRwCount)).length : Int), seg.take (min n maxRwCount), Conn.mk
    (if seg.length ≤ min n maxRwCount then more else seg.drop (min n maxRwCount) :: more) true) = _
  rw [List.take_of_length_le h, if_pos h]

/-- A request that arrives by itself and fits into the buffer is delivered well. -/
theorem delivered_whole (r : ClientRequest u) (more : List (List UInt8))
    (hbuf : buffSize ≤ maxRwCount) (hfit : r.request.dump.length ≤ buffSize) :
    Delivered buffSize ⟨r.request.dump :: more, true⟩ (r.message hcast)
      ((r.message hcast).headReads buffSize ⟨r.request.dump :: more, true⟩) := by
  have hbytes : (r.message hcast).bytes = r.request.dump := bytes_message hcast r
  have hlen : r.request.dump.length = (r.message hcast).head.length + r.request.body.length := by
    rw [← hbytes]
    exact List.length_append
  have hhead : 0 < (r.message hcast).head.length := by
    show 0 < (r.request.head ++ crlf).length
    simp [crlf]
  -- the first read brings the whole request
  have hreads : (r.message hcast).headReads buffSize ⟨r.request.dump :: more, true⟩ =
      [r.request.dump] := by
    have hmin : r.request.dump.length ≤ min buffSize maxRwCount :=
      Nat.le_min.mpr ⟨hfit, hfit.trans hbuf⟩
    have hread : Conn.read buffSize ⟨r.request.dump :: more, true⟩ =
        ((r.request.dump.length : Int), r.request.dump, ⟨more, true⟩) :=
      Conn.read_whole more hmin
    obtain ⟨f, hf⟩ : ∃ f, (r.message hcast).head.length = f + 1 :=
      ⟨(r.message hcast).head.length - 1, by omega⟩
    have hzero : f + 1 - r.request.dump.length = 0 := by omega
    rw [Message.headReads, hf, readsFor_succ hread (by omega), hzero, readsFor_zero]
  obtain ⟨P, hrun, herror, -, hdata⟩ :=
    HttpRequest.run_of_passes r.request.body
      (HttpRequest.passes_head r.expressible r.method)
  have hmax : buffSize ≤ intMax := hbuf.trans (by decide)
  rw [hreads]
  exact
    { parsed := by
        refine ⟨P, ?_, herror, hdata⟩
        rw [feed, execute_eq_run r.request.dump_ne_nil (hfit.trans hmax), HttpRequest.dump_eq,
          hrun]
        rfl
      room :=
        { pos := by omega
          more := fun h => absurd h (by simp)
          last := by
            rw [List.flatten_singleton, List.length_drop, toInt_ofNat hmax]
            omega }
      inside := by rw [List.flatten_singleton, hbytes]
      sized := by
        have hmax : maxRwCount < 2 ^ 63 := by decide
        show r.request.body.length < 2 ^ 63
        omega
      rest := by
        intro h
        rw [List.flatten_singleton, hbytes] at h
        exact absurd h (Nat.lt_irrefl _) }

/-- Requests that arrive one by one and fit into the buffer. -/
theorem allDelivered_whole (hbuf : buffSize ≤ maxRwCount) : ∀ (rs : List (ClientRequest u)),
    (∀ r ∈ rs, r.request.dump.length ≤ buffSize) →
      AllDelivered buffSize ⟨rs.map fun r => r.request.dump, true⟩
        (rs.map (ClientRequest.message hcast))
  | [], _ => trivial
  | r :: rs, hfit => by
      have hskip : Conn.skip (r.message hcast).bytes.length
          ⟨r.request.dump :: rs.map fun r => r.request.dump, true⟩ =
            ⟨rs.map fun r => r.request.dump, true⟩ := by
        have hne : ∀ seg ∈ rs.map fun r => r.request.dump, seg ≠ [] := by
          intro seg hseg
          obtain ⟨r', -, rfl⟩ := List.mem_map.mp hseg
          exact r'.request.dump_ne_nil
        rw [bytes_message, Conn.skip, Conn.skipSegs, if_neg (Nat.lt_irrefl _), Nat.sub_self,
          Conn.skipSegs_zero hne]
      refine ⟨delivered_whole hcast r _ hbuf (hfit r List.mem_cons_self), ?_⟩
      rw [List.map_cons, hskip]
      exact allDelivered_whole hbuf rs fun r hr => hfit r (List.mem_cons_of_mem _ hr)

end Wire

/-! ## The conversation -/

section Conversation

variable {σ S C : Type} (isKeepalive : Bool) (name : List UInt8)
  (fnmatch : List UInt8 → List UInt8 → Int) (h : Handlers σ S C)
  (dispatch : σ → ServletDispatch S C)

/-- What the server does with the client's requests: each goes to the servlet of its
path, and after the last one the client has closed its side. -/
def converse : σ → List HttpRequest → List ClientEvent
  | _, [] => [.recvRequest, .close]
  | s, r :: rs =>
      let slt := (dispatch s).getMatchedServlet fnmatch r.path
      let (s, req, rsp) := slt.handle h s r.received (newResponse isKeepalive name r.received)
      .recvRequest :: .sendResponse rsp ::
        if !isKeepalive || req.close then [.close] else converse s rs

variable {u : Bool} {lexicalCast : List UInt8 → Option UInt64} {buffSize : Nat}

/-- The conversation is what the loop does on the requests as they are received. -/
theorem answers_received (s : σ) (rs : List HttpRequest) :
    answers isKeepalive name (dispatchHandle fnmatch h dispatch) s
        (rs.map HttpRequest.received) =
      converse isKeepalive name fnmatch h dispatch s rs := by
  induction rs generalizing s with
  | nil => rfl
  | cons r rs ih =>
      have hservlet : ((dispatch s).getMatchedServlet fnmatch r.path).handle h s
          r.received (newResponse isKeepalive name r.received) =
            dispatchHandle fnmatch h dispatch s r.received
              (newResponse isKeepalive name r.received) := rfl
      rw [List.map_cons, answers, converse]
      dsimp only
      rw [hservlet]
      generalize dispatchHandle fnmatch h dispatch s r.received
        (newResponse isKeepalive name r.received) = left
      obtain ⟨s', req, rsp⟩ := left
      dsimp only
      rw [ih s']

/-- On a connection that delivers the requests of a client, `handleClient` has the
conversation on these requests. -/
theorem serve_eq_converse (hcast : LexicalCast lexicalCast) (rs : List (ClientRequest u))
    {c : Conn} (hfull : c.Full) (hpend : c.pending = (rs.map fun r => r.request.dump).flatten)
    (hall : AllDelivered buffSize c (rs.map (ClientRequest.message hcast))) {fuel : Nat}
    (hfuel : rs.length < fuel) (s : σ) :
    serve u buffSize lexicalCast isKeepalive name (dispatchHandle fnmatch h dispatch) fuel s c =
      converse isKeepalive name fnmatch h dispatch s (rs.map ClientRequest.request) := by
  have hstream : c.pending = Message.stream (rs.map (ClientRequest.message hcast)) := by
    rw [hpend, Message.stream, List.map_map]
    exact congrArg _ (List.map_congr_left fun r _ => (bytes_message hcast r).symm)
  have hrequests : (rs.map (ClientRequest.message hcast)).map Message.request =
      (rs.map ClientRequest.request).map HttpRequest.received := by
    rw [List.map_map, List.map_map]
    exact List.map_congr_left fun r _ => request_message hcast r
  rw [serve_inOrder hfull hstream hall (by rwa [List.length_map]) s, hrequests,
    answers_received]

end Conversation

/-! ### Two requests -/

theorem HttpRequest.Expressible.withClose {u : Bool} {r : HttpRequest} (h : r.Expressible u)
    (close : Bool) : HttpRequest.Expressible u { r with close } where
  method := h.method
  version := h.version
  path := h.path
  query := h.query
  fragment := h.fragment
  sorted := h.sorted
  field := h.field
  noLength := h.noLength

/-- A request that asks for the connection to be kept. -/
def kept (m : HttpMethod) (hm : m ≠ .invalidMethod) (hs : m ≠ .msearch) : ClientRequest false where
  request := { HttpRequest.small m with close := false }
  expressible := (HttpRequest.small_expressible hm).withClose false
  method := hs
  sized := by
    show ([0, 10] : List UInt8).length < 2 ^ 64
    decide

/-- Two requests on one connection. -/
def twoRequests : List (ClientRequest false) :=
  [kept .post (by decide) (by decide), kept .put (by decide) (by decide)]

/-- Callbacks that leave everything as it is. -/
def idle : Handlers Unit Unit Unit where
  user _ s req rsp := (s, req, rsp)
  callback _ s req rsp := (s, req, rsp)

/-- A server without servlets, and two requests that arrive one by one. -/
theorem serve_eq_converse_two :
    serve false 4096 lexicalCastUInt64 true (chars "co_lib")
        (dispatchHandle (fun _ _ => 1) idle fun _ => .create) 3 ()
        ⟨twoRequests.map fun r => r.request.dump, true⟩ =
      converse true (chars "co_lib") (fun _ _ => 1) idle (fun _ => .create) ()
        (twoRequests.map ClientRequest.request) := by
  have hfull : Conn.Full ⟨twoRequests.map fun r => r.request.dump, true⟩ := by
    refine ⟨rfl, fun seg hseg => ?_⟩
    obtain ⟨r, -, rfl⟩ := List.mem_map.mp hseg
    exact r.request.dump_ne_nil
  have hfit : ∀ r ∈ twoRequests, r.request.dump.length ≤ 4096 := by
    intro r hr
    rcases List.mem_pair.mp hr with rfl | rfl
    · decide +kernel
    · decide +kernel
  exact serve_eq_converse true (chars "co_lib") (fun _ _ => 1) idle (fun _ => .create)
    lexicalCast_lexicalCastUInt64 twoRequests hfull rfl
    (allDelivered_whole lexicalCast_lexicalCastUInt64 (by decide) twoRequests hfit) (by decide) ()


/-! ## A server without servlets -/

namespace HttpResponse

/-- The response with the reason that `dump` writes. -/
def named (r : HttpResponse) : HttpResponse :=
  { r with reason := if r.reason = [] then httpStatusToString r.status else r.reason }

theorem dump_named (r : HttpResponse) : r.named.dump = r.dump := by
  have hline : r.named.statusLine = r.statusLine := by
    rw [statusLine, statusLine, named]
    dsimp only
    rcases eq_or_ne r.reason [] with hr | hr
    · rw [if_pos hr]
      split
      · rfl
      · rfl
    · rw [if_neg hr, if_neg hr]
  rw [dump, hline]
  rfl

end HttpResponse

/-- What `NotFoundServlet` leaves of a response. -/
def notFoundResponse (version : UInt8) (close : Bool) : HttpResponse where
  status := 404
  version := version
  close := close
  body := rspBody
  headers := [(chars "Content-Type", chars "text/html"), (chars "Server", chars "co_lib/1.0.0")]

/-- The name of the server that `handleClient` has set is replaced. -/
theorem notFoundHandle_newResponse (isKeepalive : Bool) (name : List UInt8) (r : HttpRequest) :
    notFoundHandle (newResponse isKeepalive name r) =
      notFoundResponse r.version (r.close || !isKeepalive) :=
  rfl

theorem notFound_expressible {version : UInt8} (close : Bool)
    (hv : version = 0x10 ∨ version = 0x11) :
    (notFoundResponse version close).named.Expressible where
  version := hv
  reason := by
    show chars "Not Found" ≠ [] ∧ _
    exact ⟨by decide, HttpResponse.noLineEnd_of_all rfl⟩
  sorted := List.pairwise_pair.mpr (by decide)
  field := by
    intro e he
    rcases List.mem_pair.mp he with rfl | rfl
    · refine ⟨by decide, List.all_eq_true.mp rfl, HttpResponse.noLineEnd_of_all rfl, fun c hc => ?_⟩
      cases hc
      rfl
    · refine ⟨by decide, List.all_eq_true.mp rfl, HttpResponse.noLineEnd_of_all rfl, fun c hc => ?_⟩
      cases hc
      rfl
  noLength := by
    show ∀ h ∈ [(chars "Content-Type", chars "text/html"), (chars "Server", chars "co_lib/1.0.0")],
      strcasecmpEq h.1 (chars "content-length") = false
    decide
  noEncoding := by
    show ∀ h ∈ [(chars "Content-Type", chars "text/html"), (chars "Server", chars "co_lib/1.0.0")],
      strcasecmpEq h.1 (chars "transfer-encoding") = false
    decide

/-- The client's parser gives the response back, and leaves the body. -/
theorem notFound_readsBack {version : UInt8} (close : Bool) (hv : version = 0x10 ∨ version = 0x11) :
    ∃ P n, HttpResponseParser.execute (notFoundResponse version close).dump false {} =
        some (P, n, rspBody) ∧ P.hasError = false ∧ P.isFinished = 1 ∧
      (notFoundResponse version close).named.GivenBack P.data := by
  have hlen : (notFoundResponse version close).named.dump.length ≤ intMax := by
    rcases hv with rfl | rfl
    · cases close
      · decide +kernel
      · decide +kernel
    · cases close
      · decide +kernel
      · decide +kernel
  obtain ⟨P, n, left, hexec, herror, hfin, hback, rfl⟩ :=
    HttpResponse.readsBack (notFound_expressible close hv) hlen
  rw [HttpResponse.dump_named] at hexec
  exact ⟨P, n, hexec, herror, hfin, hback⟩

/-- The requests that get a response: up to the first one after which the loop is
left. -/
def answered (isKeepalive : Bool) : List HttpRequest → List HttpRequest
  | [] => []
  | r :: rs => r :: if !isKeepalive || r.close then [] else answered isKeepalive rs

def ClientEvent.response : ClientEvent → Option HttpResponse
  | .sendResponse rsp => some rsp
  | _ => none

theorem mem_answered {isKeepalive : Bool} {r : HttpRequest} {rs : List HttpRequest}
    (h : r ∈ answered isKeepalive rs) : r ∈ rs := by
  induction rs with
  | nil => exact h
  | cons r' rs ih =>
      rw [answered] at h
      rcases List.mem_cons.mp h with rfl | h
      · exact List.mem_cons_self
      · split at h
        · cases h
        · exact List.mem_cons_of_mem _ (ih h)

section NotFound

variable {σ S C : Type} {isKeepalive : Bool} {name : List UInt8}
  {fnmatch : List UInt8 → List UInt8 → Int} {h : Handlers σ S C}
  {dispatch : σ → ServletDispatch S C}

/-- The responses of a conversation about paths that have no servlet. -/
theorem responses_notFound {rs : List HttpRequest} (s : σ)
    (hnone : ∀ s, ∀ r ∈ rs, (dispatch s).getMatchedServlet fnmatch r.path = .notFound) :
    (converse isKeepalive name fnmatch h dispatch s rs).filterMap ClientEvent.response =
      (answered isKeepalive rs).map fun r =>
        notFoundResponse r.version (r.close || !isKeepalive) := by
  induction rs with
  | nil => rfl
  | cons r rs ih =>
      have ih := ih fun s r hr => hnone s r (List.mem_cons_of_mem _ hr)
      rw [converse, hnone s r List.mem_cons_self, answered]
      show notFoundHandle (newResponse isKeepalive name r.received) :: List.filterMap _
        (if !isKeepalive || r.close then [.close]
          else converse isKeepalive name fnmatch h dispatch s rs) = _
      rw [notFoundHandle_newResponse, List.map_cons]
      refine congrArg (notFoundResponse r.version (r.close || !isKeepalive) :: ·) ?_
      split
      · rfl
      · exact ih

/-- A client whose paths have no servlet is told so once for each request, up to the
first after which the connection is closed, and can read every response. -/
theorem converse_notFound {rs : List HttpRequest} (s : σ)
    (hnone : ∀ s, ∀ r ∈ rs, (dispatch s).getMatchedServlet fnmatch r.path = .notFound)
    (hv : ∀ r ∈ rs, r.version = 0x10 ∨ r.version = 0x11) :
    (converse isKeepalive name fnmatch h dispatch s rs).filterMap ClientEvent.response =
        ((answered isKeepalive rs).map fun r =>
          notFoundResponse r.version (r.close || !isKeepalive)) ∧
      ∀ rsp ∈ (converse isKeepalive name fnmatch h dispatch s rs).filterMap ClientEvent.response,
        ∃ P n, HttpResponseParser.execute rsp.dump false {} = some (P, n, rspBody) ∧
          P.hasError = false ∧ P.isFinished = 1 ∧ rsp.named.GivenBack P.data := by
  have heq : (converse isKeepalive name fnmatch h dispatch s rs).filterMap ClientEvent.response =
      (answered isKeepalive rs).map fun r =>
        notFoundResponse r.version (r.close || !isKeepalive) := responses_notFound s hnone
  refine ⟨heq, fun rsp hrsp => ?_⟩
  rw [heq] at hrsp
  obtain ⟨r, hr, rfl⟩ := List.mem_map.mp hrsp
  exact notFound_readsBack (r.close || !isKeepalive) (hv r (mem_answered hr))

end NotFound

/-- Two requests to a server without servlets. -/
theorem converse_notFound_two :
    ((converse true (chars "co_lib") (fun _ _ => 1) idle (fun _ => .create) ()
        (twoRequests.map ClientRequest.request)).filterMap ClientEvent.response =
      ((answered true (twoRequests.map ClientRequest.request)).map fun r =>
        notFoundResponse r.version (r.close || !true))) ∧
      ∀ rsp ∈ (converse true (chars "co_lib") (fun _ _ => 1) idle (fun _ => .create) ()
        (twoRequests.map ClientRequest.request)).filterMap ClientEvent.response,
        ∃ P n, HttpResponseParser.execute rsp.dump false {} = some (P, n, rspBody) ∧
          P.hasError = false ∧ P.isFinished = 1 ∧ rsp.named.GivenBack P.data :=
  converse_notFound () (fun _ _ _ => rfl) fun r hr => by
    rcases List.mem_pair.mp hr with rfl | rfl
    · exact .inr rfl
    · exact .inr rfl

end CoLib.Http
