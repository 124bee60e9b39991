/-
# `CoLib.Http.KeepAlive` — what a response says of the connection

`HttpServer::handleClient` builds the response with `m_close` from the request
and the server's setting, hands both to the servlet, sends the response, and
leaves the loop by the request and the setting again.  The header `connection` of
the response is written from the response's own `m_close`, which the servlet may
have changed, and it may have changed the request's.

A servlet is a function on a state of its own, the request and the response.

**Proved here.** `serve_inOrder`: requests that are delivered well are answered in order.
`serve_truthful_iff`: in a run the loop does after each response what the response said
exactly if the servlet leaves the two in agreement.
-/
import CoLib.Http.Response
import CoLib.Http.Delivery

namespace CoLib.Http

/-- What `handleClient` does, in order. -/
inductive ClientEvent where
  | recvRequest
  | sendResponse (rsp : HttpResponse)
  | close
  deriving DecidableEq, Repr

section Serve

variable {σ : Type} (uriRelaxed : Bool) (buffSize : Nat)
  (lexicalCast : List UInt8 → Option UInt64) (isKeepalive : Bool) (name : List UInt8)
  (handle : σ → HttpRequest → HttpResponse → σ × HttpRequest × HttpResponse)

/-- The response before the servlet is called. -/
def newResponse (req : HttpRequest) : HttpResponse :=
  ({ version := req.version, close := req.close || !isKeepalive } : HttpResponse).setHeader
    (chars "Server") name

/-- `handleClient` with the servlet `handle`.  The run stops with the fuel, in the
middle of a call of `recvRequest`, or where such a call does not return. -/
def serve : Nat → σ → Conn → List ClientEvent
  | 0, _, _ => [.recvRequest]
  | fuel + 1, s, c =>
      match recvRequest uriRelaxed buffSize lexicalCast c with
      | .noReturn => [.recvRequest]
      | .null _ => [.recvRequest, .close]
      | .ok req c =>
          let (s, req, rsp) := handle s req (newResponse isKeepalive name req)
          .recvRequest :: .sendResponse rsp ::
            if !isKeepalive || req.close then [.close] else serve fuel s c

/-- What the loop does when these requests are received one after the other, and the client
has closed its side after them. -/
def answers : σ → List HttpRequest → List ClientEvent
  | _, [] => [.recvRequest, .close]
  | s, req :: reqs =>
      let (s, req, rsp) := handle s req (newResponse isKeepalive name req)
      .recvRequest :: .sendResponse rsp ::
        if !isKeepalive || req.close then [.close] else answers s reqs

/-- The requests and responses of a run, as the servlet leaves them. -/
def handled : Nat → σ → Conn → List (HttpRequest × HttpResponse)
  | 0, _, _ => []
  | fuel + 1, s, c =>
      match recvRequest uriRelaxed buffSize lexicalCast c with
      | .noReturn => []
      | .null _ => []
      | .ok req c =>
          let (s, req, rsp) := handle s req (newResponse isKeepalive name req)
          (req, rsp) :: if !isKeepalive || req.close then [] else handled fuel s c

end Serve

/-- After a response the next request is read exactly if the response said
`keep-alive`, and the session is closed where it said `close`. -/
def Truthful (events : List ClientEvent) : Prop :=
  ∀ (before : List ClientEvent) (rsp : HttpResponse) (after : List ClientEvent),
    events = before ++ .sendResponse rsp :: after →
    (after.head? = some .recvRequest ↔ rsp.connection = chars "keep-alive") ∧
      (rsp.connection = chars "close" → after = [.close])

/-- The servlet left the response with what the loop tests. -/
def Agrees (isKeepalive : Bool) (left : HttpRequest × HttpResponse) : Prop :=
  left.2.close = (!isKeepalive || left.1.close)

instance (isKeepalive : Bool) (left : HttpRequest × HttpResponse) :
    Decidable (Agrees isKeepalive left) := by
  unfold Agrees
  infer_instance

namespace HttpResponse

/-- The two values of the header are different. -/
theorem connection_iff (r : HttpResponse) :
    (r.connection = chars "keep-alive" ↔ r.close = false) ∧
      (r.connection = chars "close" ↔ r.close = true) := by
  cases hclose : r.close with
  | false =>
      rw [connection, hclose]
      decide
  | true =>
      rw [connection, hclose]
      decide

end HttpResponse

/-! ## One response -/

section Truthful

variable {rsp : HttpResponse} {events : List ClientEvent}

theorem Truthful.nil : Truthful [] := by
  intro before rsp after h
  cases before <;> cases h

/-- Nothing is said before the first response. -/
theorem truthful_cons {e : ClientEvent} (he : ∀ rsp, e ≠ .sendResponse rsp) :
    Truthful (e :: events) ↔ Truthful events := by
  constructor
  · intro h before rsp after hevents
    exact h (e :: before) rsp after (by rw [hevents, List.cons_append])
  · intro h before rsp after hevents
    cases before with
    | nil => exact absurd (List.cons.inj hevents).1 (he rsp)
    | cons b before => exact h before rsp after (List.cons.inj hevents).2

theorem truthful_recvRequest : Truthful (.recvRequest :: events) ↔ Truthful events :=
  truthful_cons fun _ h => ClientEvent.noConfusion h

theorem truthful_close : Truthful [.close] :=
  (truthful_cons fun _ h => ClientEvent.noConfusion h).mpr .nil

/-- A response, and the rest of the run. -/
theorem truthful_sendResponse :
    Truthful (.sendResponse rsp :: events) ↔
      ((events.head? = some .recvRequest ↔ rsp.close = false) ∧
        (rsp.close = true → events = [.close])) ∧ Truthful events := by
  obtain ⟨hkeep, hclose⟩ := rsp.connection_iff
  constructor
  · intro h
    have hfirst := h [] rsp events rfl
    rw [hkeep, hclose] at hfirst
    refine ⟨hfirst, ?_⟩
    intro before r after hevents
    exact h (.sendResponse rsp :: before) r after (by rw [hevents, List.cons_append])
  · rintro ⟨hfirst, hrest⟩ before r after hevents
    cases before with
    | nil =>
        obtain ⟨heq, rfl⟩ := List.cons.inj hevents
        obtain rfl := ClientEvent.sendResponse.inj heq
        rw [hkeep, hclose]
        exact hfirst
    | cons b before => exact hrest before r after (List.cons.inj hevents).2

end Truthful

/-! ## A run -/

section Runs

variable {σ : Type} {uriRelaxed : Bool} {buffSize : Nat}
  {lexicalCast : List UInt8 → Option UInt64} {isKeepalive : Bool} {name : List UInt8}
  {handle : σ → HttpRequest → HttpResponse → σ × HttpRequest × HttpResponse}

/-- A run begins with a call of `recvRequest`. -/
theorem serve_head (fuel : Nat) (s : σ) (c : Conn) :
    (serve uriRelaxed buffSize lexicalCast isKeepalive name handle fuel s c).head? =
      some .recvRequest := by
  cases fuel with
  | zero => rfl
  | succ fuel =>
      rw [serve]
      split <;> rfl

/-- Requests that are each delivered well are handled and answered in order, up to the
first after which the loop is left. -/
theorem serve_inOrder {ms : List (Message uriRelaxed lexicalCast)} {c : Conn} (hfull : c.Full)
    (hpend : c.pending = Message.stream ms) (hall : AllDelivered buffSize c ms) {fuel : Nat}
    (hfuel : ms.length < fuel) (s : σ) :
    serve uriRelaxed buffSize lexicalCast isKeepalive name handle fuel s c =
      answers isKeepalive name handle s (ms.map Message.request) := by
  induction ms generalizing c fuel s with
  | nil =>
      obtain ⟨fuel, rfl⟩ : ∃ f, fuel = f + 1 := ⟨fuel - 1, by omega⟩
      rw [serve, recvRequest_end hfull hpend]
      rfl
  | cons m ms ih =>
      obtain ⟨fuel, rfl⟩ : ∃ f, fuel = f + 1 := ⟨fuel - 1, by omega⟩
      rw [List.length_cons] at hfuel
      rw [Message.stream, List.map_cons, List.flatten_cons] at hpend
      have hpend' : (c.skip m.bytes.length).pending = Message.stream ms := by
        rw [Conn.pending_skip, hpend, List.drop_left]
        rfl
      obtain ⟨hfirst, -⟩ := (recvRequest_iff hfull hpend).mpr ⟨hall.1, rfl⟩
      rw [serve, hfirst, List.map_cons, answers]
      dsimp only
      generalize handle s m.request (newResponse isKeepalive name m.request) = left
      obtain ⟨s', req, rsp⟩ := left
      dsimp only
      rw [ih (hfull.skip _) hpend' hall.2 (Nat.lt_of_succ_lt_succ hfuel) s']

/-- One response: the servlet's agreement, and the rest of the run where the loop goes
on. -/
theorem truthful_round {rest : List ClientEvent} (req : HttpRequest) (rsp : HttpResponse)
    (hhead : rest.head? = some .recvRequest) :
    Truthful (.sendResponse rsp :: if !isKeepalive || req.close then [.close] else rest) ↔
      Agrees isKeepalive (req, rsp) ∧ ((!isKeepalive || req.close) = false → Truthful rest) := by
  rw [truthful_sendResponse, Agrees]
  cases hleave : !isKeepalive || req.close with
  | true =>
      -- the loop is left: the response must have said so
      rw [if_pos rfl]
      refine and_congr ?_ (iff_of_true truthful_close nofun)
      constructor
      · rintro ⟨hgoes, _⟩
        rw [← Bool.not_eq_false]
        exact fun hopen => absurd (hgoes.mpr hopen) (by decide)
      · intro hclose
        rw [hclose]
        exact ⟨by decide, fun _ => rfl⟩
  | false =>
      rw [if_neg Bool.false_ne_true, hhead]
      refine and_congr ?_ ⟨fun h _ => h, fun h => h rfl⟩
      constructor
      · rintro ⟨hgoes, _⟩
        exact hgoes.mp rfl
      · intro hopen
        rw [hopen]
        exact ⟨by decide, nofun⟩

/-- The loop does after each response what the response said exactly if the servlet
leaves every request and response of the run in agreement. -/
theorem serve_truthful_iff (fuel : Nat) (s : σ) (c : Conn) :
    Truthful (serve uriRelaxed buffSize lexicalCast isKeepalive name handle fuel s c) ↔
      ∀ left ∈ handled uriRelaxed buffSize lexicalCast isKeepalive name handle fuel s c,
        Agrees isKeepalive left := by
  have hlone : Truthful [.recvRequest] := truthful_recvRequest.mpr .nil
  induction fuel generalizing s c with
  | zero => exact iff_of_true hlone (List.forall_mem_nil _)
  | succ fuel ih =>
      rw [serve, handled]
      cases recvRequest uriRelaxed buffSize lexicalCast c with
      | noReturn => exact iff_of_true hlone (List.forall_mem_nil _)
      | null c =>
          exact iff_of_true (truthful_recvRequest.mpr truthful_close) (List.forall_mem_nil _)
      | ok req c =>
          dsimp only
          generalize handle s req (newResponse isKeepalive name req) = left
          obtain ⟨s', req', rsp⟩ := left
          dsimp only
          rw [truthful_recvRequest, truthful_round req' rsp (serve_head fuel s' c),
            List.forall_mem_cons]
          refine and_congr_right fun _ => ?_
          split
          · rename_i hleave
            exact iff_of_true (fun hgoes => absurd (hleave.symm.trans hgoes) (by decide))
              (List.forall_mem_nil _)
          · rename_i hgoes
            rw [Bool.not_eq_true] at hgoes
            exact ⟨fun h => (ih s' c).mp (h hgoes), fun h _ => (ih s' c).mpr h⟩

/-- A servlet that calls neither `setClose`. -/
theorem serve_truthful_of_untouched
    (hreq : ∀ s req rsp, (handle s req rsp).2.1.close = req.close)
    (hrsp : ∀ s req rsp, (handle s req rsp).2.2.close = rsp.close) (fuel : Nat) (s : σ)
    (c : Conn) :
    Truthful (serve uriRelaxed buffSize lexicalCast isKeepalive name handle fuel s c) := by
  induction fuel generalizing s c with
  | zero => exact truthful_recvRequest.mpr .nil
  | succ fuel ih =>
      rw [serve]
      cases recvRequest uriRelaxed buffSize lexicalCast c with
      | noReturn => exact truthful_recvRequest.mpr .nil
      | null c => exact truthful_recvRequest.mpr truthful_close
      | ok req c =>
          have hreq := hreq s req (newResponse isKeepalive name req)
          have hrsp := hrsp s req (newResponse isKeepalive name req)
          dsimp only
          generalize handle s req (newResponse isKeepalive name req) = left at hreq hrsp ⊢
          obtain ⟨s', req', rsp⟩ := left
          dsimp only at hreq hrsp ⊢
          rw [truthful_recvRequest, truthful_round req' rsp (serve_head fuel s' c)]
          refine ⟨?_, fun _ => ih s' c⟩
          have hnew : (newResponse isKeepalive name req).close = (req.close || !isKeepalive) := rfl
          calc rsp.close = (req.close || !isKeepalive) := hrsp.trans hnew
            _ = (!isKeepalive || req.close) := Bool.or_comm ..
            _ = (!isKeepalive || req'.close) := by rw [hreq]

end Runs

/-- A servlet that asks for the connection to be closed. -/
def closing (s : Unit) (req : HttpRequest) (rsp : HttpResponse) :
    Unit × HttpRequest × HttpResponse :=
  (s, req, { rsp with close := true })

/-- The response says `close`, and the loop goes on reading. -/
theorem serve_closing :
    ¬ Truthful (serve false 4096 decimal true (chars "co_lib") closing 1 ()
      ⟨[chars "GET / HTTP/1.1\r\nConnection: keep-alive\r\n\r\n"], true⟩) := by
  intro h
  have hevents : serve false 4096 decimal true (chars "co_lib") closing 1 ()
      ⟨[chars "GET / HTTP/1.1\r\nConnection: keep-alive\r\n\r\n"], true⟩ =
        [.recvRequest] ++
          .sendResponse { version := 0x11, headers := [(chars "Server", chars "co_lib")] } ::
          [.recvRequest] := by decide +kernel
  exact absurd ((h _ _ _ hevents).2 (by decide)) (by decide)

end CoLib.Http
