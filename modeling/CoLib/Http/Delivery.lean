/-
# `CoLib.Http.Delivery` — requests received one after the other

Each `recvRequest` has its own parser and its own buffer.  What the last read of
the header section brings beyond the request's own body is dropped with the
buffer.  So successive calls return successive requests if and only if no such
read goes past the end of its request (`recvRequests_inOrder_iff`).
-/
import CoLib.Http.Header

namespace CoLib.Http

open Lib Lib.Scanner HttpRequestParser

/-! ## Well-formed requests -/

/-- A request as the peer sends it: a header section that the parser's machine accepts
as a whole, and a body of the length that the header section announces. -/
structure Message (uriRelaxed : Bool) (lexicalCast : List UInt8 → Option UInt64) where
  head : List UInt8
  body : List UInt8
  data : HttpRequest
  accepted : ∃ P : HttpRequestParser,
    ({} : HttpRequestParser).run uriRelaxed head = some (P, head.length) ∧
      P.hasError = false ∧ P.isFinished = 1 ∧ P.data = data
  exact : (data.getHeaderAs lexicalCast (chars "content-length")).toNat = body.length

section

variable {uriRelaxed : Bool} {lexicalCast : List UInt8 → Option UInt64}

namespace Message

def bytes (m : Message uriRelaxed lexicalCast) : List UInt8 :=
  m.head ++ m.body

/-- The request that `recvRequest` should return. -/
def request (m : Message uriRelaxed lexicalCast) : HttpRequest :=
  withKeepAlive { m.data with body := m.body }

/-- The bytes of several messages. -/
def stream (ms : List (Message uriRelaxed lexicalCast)) : List UInt8 :=
  (ms.map bytes).flatten

end Message

/-! ## The body -/

/-- `readFixSize` on a connection that has the bytes. -/
theorem readFixSizeLoop_eq {c : Conn} {length fuel left : Nat} {buffer : List UInt8}
    (hfull : c.Full) (hword : left < wordSize) (hpend : left ≤ c.pending.length)
    (hfuel : left ≤ fuel) :
    readFixSizeLoop length fuel left buffer c =
      .ok (toInt length, buffer ++ c.pending.take left) (c.skip left) := by
  induction fuel generalizing left buffer c with
  | zero =>
      rw [Nat.le_zero.mp hfuel, readFixSizeLoop, if_pos rfl, List.take_zero, List.append_nil,
        Conn.skip_zero hfull]
  | succ fuel ih =>
      rcases Nat.eq_zero_or_pos left with rfl | hleft
      · rw [readFixSizeLoop, if_pos rfl, List.take_zero, List.append_nil, Conn.skip_zero hfull]
      · obtain ⟨got, hread, hle, hmax, hsplit, hgot⟩ := Conn.read_skip hfull left
        have hpos : 0 < got.length := List.length_pos_iff.mpr (hgot hleft fun he => by
          rw [he] at hpend
          exact absurd hpend (Nat.not_le.mpr hleft))
        have hsize : toSizeT (got.length : Int) = got.length :=
          toSizeT_ofNat (hmax.trans (by decide))
        have hlen : c.pending.length = got.length + (c.skip got.length).pending.length := by
          conv_lhs => rw [hsplit]
          exact List.length_append
        rw [readFixSizeLoop, if_neg hleft.ne']
        simp only [hread, hsize, hpos.ne', if_false, subWord_of_le hword hle]
        rw [ih (hfull.skip _) (by omega) (by omega) (by omega), Conn.skip_skip,
          Nat.add_sub_cancel' hle, List.append_assoc]
        congr 3
        conv_rhs => rw [hsplit, List.take_append, List.take_of_length_le hle]

theorem readFixSize_eq {c : Conn} {left : Nat} (hfull : c.Full) (hword : left < wordSize)
    (hpend : left ≤ c.pending.length) :
    readFixSize left c = .ok (toInt left, c.pending.take left) (c.skip left) := by
  rw [readFixSize, readFixSizeLoop_eq hfull hword hpend (by omega), List.nil_append]

/-- The body, when the bytes kept and the bytes pending begin with it. -/
theorem recvBody_eq {c : Conn} {body kept T : List UInt8} (hfull : c.Full)
    (hbytes : kept ++ c.pending = body ++ T) (hsize : body.length < 2 ^ 63) :
    recvBody body.length kept c =
      if kept.length < body.length ∧ toInt (body.length - kept.length) ≤ 0 then
        .null (c.skip (body.length - kept.length)).close
      else .ok body (c.skip (body.length - kept.length)) := by
  rcases Nat.lt_or_ge kept.length body.length with hlt | hge
  · have hleft : (0 : Int) < (body.length : Int) - (kept.length : Int) := by omega
    have hnat : ((body.length : Int) - (kept.length : Int)).toNat = body.length - kept.length := by
      omega
    obtain ⟨rest, hbody, hpend⟩ := append_split hbytes.symm hlt.le
    have hrest : body.length - kept.length = rest.length := by
      rw [hbody, List.length_append, Nat.add_sub_cancel_left]
    have hfix : readFixSize (body.length - kept.length) c =
        .ok (toInt (body.length - kept.length), rest) (c.skip (body.length - kept.length)) := by
      rw [readFixSize_eq hfull (by simp only [wordSize]; omega) (by
        rw [hpend, hrest, List.length_append]
        omega), hrest, hpend, List.take_left]
    simp only [recvBody, hleft, if_true, hnat, hfix, hlt, true_and]
    by_cases hret : toInt (body.length - kept.length) ≤ 0
    · rw [if_pos hret, if_pos hret]
    · rw [if_neg hret, if_neg hret, Int.toNat_natCast, List.take_of_length_le hlt.le, ← hbody]
  · have hleft : ¬ (0 : Int) < (body.length : Int) - (kept.length : Int) := by omega
    obtain ⟨extra, hkept, -⟩ := append_split hbytes hge
    have hzero : body.length - kept.length = 0 := by omega
    simp only [recvBody, hleft, if_false, Nat.not_lt.mpr hge, false_and, hzero,
      Conn.skip_zero hfull, Int.toNat_natCast]
    rw [hkept, List.take_left]

/-! ## One request -/

theorem readsFor_skip {n f need : Nat} {c : Conn} (hfull : c.Full) :
    (readsFor n f need c).2 = c.skip (readsFor n f need c).1.flatten.length ∧
      c.pending = (readsFor n f need c).1.flatten ++ (readsFor n f need c).2.pending := by
  induction f generalizing need c with
  | zero => exact ⟨(Conn.skip_zero hfull).symm, rfl⟩
  | succ f ih =>
      by_cases hneed : need = 0
      · rw [hneed, readsFor_zero]
        exact ⟨(Conn.skip_zero hfull).symm, rfl⟩
      · obtain ⟨got, hread, -, -, hsplit, -⟩ := Conn.read_skip hfull n
        obtain ⟨hskip, hpend⟩ := @ih (need - got.length) _ (hfull.skip got.length)
        rw [readsFor_succ hread hneed, List.flatten_cons, List.length_append]
        refine ⟨?_, ?_⟩
        · rw [hskip, Conn.skip_skip]
        · rw [List.append_assoc, ← hpend]
          exact hsplit

theorem readsFor_enough {n f need : Nat} {c : Conn} (hfull : c.Full) (hn : 0 < n)
    (hf : need ≤ f) (hpend : need ≤ c.pending.length) :
    need ≤ (readsFor n f need c).1.flatten.length := by
  induction f generalizing need c with
  | zero => exact hf.trans (Nat.zero_le _)
  | succ f ih =>
      by_cases hneed : need = 0
      · rw [hneed]
        exact Nat.zero_le _
      · obtain ⟨got, hread, -, -, hsplit, hgot⟩ := Conn.read_skip hfull n
        have hpos : 0 < got.length := List.length_pos_iff.mpr (hgot hn fun he => by
          rw [he] at hpend
          exact hneed (Nat.le_zero.mp hpend))
        have hlen : c.pending.length = got.length + (c.skip got.length).pending.length := by
          conv_lhs => rw [hsplit]
          exact List.length_append
        have := @ih (need - got.length) _ (hfull.skip got.length) (by omega) (by omega)
        rw [readsFor_succ hread hneed, List.flatten_cons, List.length_append]
        omega

/-- How the connection `c` must deliver the request that its stream begins with.
`reads` are the reads that bring the header section. -/
structure Delivered (buffSize : Nat) (c : Conn) (m : Message uriRelaxed lexicalCast)
    (reads : List (List UInt8)) : Prop where
  /-- Fed read by read, the parser finds what it finds in one call. -/
  parsed : ∃ P, feed uriRelaxed reads {} = some P ∧ P.error = 0 ∧ P.data = m.data
  room : Roomy buffSize m.head.length reads
  /-- The last of the reads does not go past the end of the request. -/
  inside : reads.flatten.length ≤ m.bytes.length
  /-- The lengths survive the conversions to `int64_t` and to `int`. -/
  sized : m.body.length < 2 ^ 63
  rest : reads.flatten.length < m.bytes.length → 0 < toInt (m.bytes.length - reads.flatten.length)

/-- The reads that bring the header section of `m`. -/
def Message.headReads (m : Message uriRelaxed lexicalCast) (buffSize : Nat) (c : Conn) :
    List (List UInt8) :=
  (readsFor buffSize m.head.length m.head.length c).1

theorem withKeepAlive_inj {d d' : HttpRequest} {b b' : List UInt8} (hbody : d.body = d'.body)
    (hclose : d.close = d'.close)
    (h : withKeepAlive { d with body := b } = withKeepAlive { d' with body := b' }) :
    d = d' ∧ b = b' := by
  have hfields : ∀ r : HttpRequest, ∃ x, withKeepAlive r = { r with close := x } := by
    intro r
    unfold withKeepAlive
    split
    · exact ⟨false, rfl⟩
    · exact ⟨r.close, rfl⟩
  obtain ⟨x, hx⟩ := hfields { d with body := b }
  obtain ⟨x', hx'⟩ := hfields { d' with body := b' }
  rw [hx, hx'] at h
  cases d
  cases d'
  simp only [HttpRequest.mk.injEq] at h hbody hclose ⊢
  tauto

variable {buffSize : Nat} {c c' : Conn} {m : Message uriRelaxed lexicalCast} {T : List UInt8}

theorem Message.fresh (m : Message uriRelaxed lexicalCast) :
    m.data.body = [] ∧ m.data.close = true := by
  obtain ⟨P, hrun, -, -, hdata⟩ := m.accepted
  have h := run_framed hrun
  rw [← hdata]
  exact ⟨h.body, h.close⟩

theorem recvRest_pos {P : HttpRequestParser} {length : Int} {kept : List UInt8}
    (h : 0 < length) :
    recvRest P length kept c =
      match recvBody length kept c with
      | .ok body c => .ok (withKeepAlive { P.data with body := body }) c
      | .null c => .null c
      | .noReturn => .noReturn :=
  if_pos h

theorem recvRest_nonpos {P : HttpRequestParser} {length : Int} {kept : List UInt8}
    (h : ¬ 0 < length) : recvRest P length kept c = .ok (withKeepAlive P.data) c :=
  if_neg h

/-- If what is left is the next requests, no more was kept than the body. -/
theorem le_of_drop {kept pending body : List UInt8} (hbytes : kept ++ pending = body ++ T)
    (hT : pending.drop (body.length - kept.length) = T) : kept.length ≤ body.length := by
  have hlen := congrArg List.length hbytes
  rw [List.length_append, List.length_append] at hlen
  have := congrArg List.length hT
  rw [List.length_drop] at this
  omega

/-- The rest of a call that reads a body. -/
theorem recvRest_body_iff {P : HttpRequestParser} {kept : List UInt8} (hfull : c.Full)
    (hbytes : kept ++ c.pending = m.body ++ T) (hbody : P.data.body = [])
    (hclose : P.data.close = true)
    (hexact : P.data = m.data → (P.getContentLength lexicalCast).toNat = m.body.length)
    (hpos : 0 < toInt64 (P.getContentLength lexicalCast).toNat) :
    (recvRest P (toInt64 (P.getContentLength lexicalCast).toNat) kept c = .ok m.request c' ∧
        c'.pending = T) ↔
      P.data = m.data ∧ kept.length ≤ m.body.length ∧ m.body.length < 2 ^ 63 ∧
        (kept.length < m.body.length → 0 < toInt (m.body.length - kept.length)) ∧
        c' = c.skip (m.body.length - kept.length) := by
  obtain ⟨hbody', hclose'⟩ := m.fresh
  have hsize := toInt64_pos (UInt64.toNat_lt _) hpos
  rw [recvRest_pos hpos, toInt64_ofNat hsize]
  constructor
  · rintro ⟨h, hT⟩
    cases hb : recvBody (P.getContentLength lexicalCast).toNat kept c with
    | null c => simp [hb] at h
    | noReturn => simp [hb] at h
    | ok body c₁ =>
        simp only [hb, Outcome.ok.injEq] at h
        obtain ⟨hreq, rfl⟩ := h
        obtain ⟨hdata, rfl⟩ :=
          withKeepAlive_inj (hbody.trans hbody'.symm) (hclose.trans hclose'.symm) hreq
        rw [hexact hdata] at hb hsize
        rw [recvBody_eq hfull hbytes hsize] at hb
        split at hb
        · cases hb
        · rename_i hcond
          cases hb
          rw [Conn.pending_skip] at hT
          exact ⟨hdata, le_of_drop hbytes hT, hsize,
            fun hlt => Int.not_le.mp fun hret => hcond ⟨hlt, hret⟩, rfl⟩
  · rintro ⟨hdata, hle, hsize, hrest, rfl⟩
    have hcond : ¬ (kept.length < m.body.length ∧
        toInt (m.body.length - kept.length) ≤ 0) :=
      fun h => absurd (hrest h.1) (Int.not_lt.mpr h.2)
    obtain ⟨r, hr, hpend⟩ := append_split hbytes.symm hle
    have hskip : m.body.length - kept.length = r.length := by
      rw [hr, List.length_append, Nat.add_sub_cancel_left]
    rw [hexact hdata, recvBody_eq hfull hbytes hsize, if_neg hcond]
    refine ⟨by rw [hdata]; rfl, ?_⟩
    rw [Conn.pending_skip, hpend, hskip, List.drop_left]

/-- The rest of a call that does not look for a body. -/
theorem recvRest_empty_iff {P : HttpRequestParser} {kept : List UInt8} (hfull : c.Full)
    (hbytes : kept ++ c.pending = m.body ++ T) (hbody : P.data.body = [])
    (hclose : P.data.close = true)
    (hexact : P.data = m.data → (P.getContentLength lexicalCast).toNat = m.body.length)
    (hpos : ¬ 0 < toInt64 (P.getContentLength lexicalCast).toNat) :
    (recvRest P (toInt64 (P.getContentLength lexicalCast).toNat) kept c = .ok m.request c' ∧
        c'.pending = T) ↔
      P.data = m.data ∧ kept.length ≤ m.body.length ∧ m.body.length < 2 ^ 63 ∧
        (kept.length < m.body.length → 0 < toInt (m.body.length - kept.length)) ∧
        c' = c.skip (m.body.length - kept.length) := by
  obtain ⟨hbody', hclose'⟩ := m.fresh
  rw [recvRest_nonpos hpos, Outcome.ok.injEq]
  constructor
  · rintro ⟨⟨hreq, rfl⟩, hT⟩
    obtain ⟨hdata, hnil⟩ :=
      withKeepAlive_inj (hbody.trans hbody'.symm) (hclose.trans hclose'.symm) hreq
    have hnil : m.body = [] := hnil.symm.trans hbody
    have hkept : kept = [] := by
      rw [hnil, hT, List.nil_append] at hbytes
      exact List.append_left_eq_self.mp hbytes
    rw [hnil, hkept]
    exact ⟨hdata, Nat.le_refl _, Nat.two_pow_pos 63, fun h => absurd h (Nat.lt_irrefl _),
      (Conn.skip_zero hfull).symm⟩
  · rintro ⟨hdata, hle, hsize, -, rfl⟩
    rw [hexact hdata, toInt64_ofNat hsize] at hpos
    have hnil : m.body = [] := List.length_eq_zero_iff.mp
      (Nat.eq_zero_of_not_pos fun h => hpos (Int.natCast_pos.mpr h))
    rw [hnil] at hle hbytes
    have hkept : kept = [] := List.length_eq_zero_iff.mp (Nat.le_zero.mp hle)
    rw [hnil, hkept]
    refine ⟨⟨?_, (Conn.skip_zero hfull).symm⟩, ?_⟩
    · rw [Message.request, hnil, hdata, ← hbody']
    · rw [hkept, List.nil_append, List.nil_append] at hbytes
      exact (congrArg Conn.pending (Conn.skip_zero hfull)).trans hbytes

/-- The rest of the call, on a parser that has found the request's header. -/
theorem recvRest_iff {P : HttpRequestParser} {kept : List UInt8} (hfull : c.Full)
    (hbytes : kept ++ c.pending = m.body ++ T) (hbody : P.data.body = [])
    (hclose : P.data.close = true) :
    (recvRest P (toInt64 (P.getContentLength lexicalCast).toNat) kept c = .ok m.request c' ∧
        c'.pending = T) ↔
      P.data = m.data ∧ kept.length ≤ m.body.length ∧ m.body.length < 2 ^ 63 ∧
        (kept.length < m.body.length → 0 < toInt (m.body.length - kept.length)) ∧
        c' = c.skip (m.body.length - kept.length) := by
  have hexact : P.data = m.data → (P.getContentLength lexicalCast).toNat = m.body.length := by
    intro hdata
    rw [getContentLength, hdata]
    exact m.exact
  by_cases hpos : 0 < toInt64 (P.getContentLength lexicalCast).toNat
  · exact recvRest_body_iff hfull hbytes hbody hclose hexact hpos
  · exact recvRest_empty_iff hfull hbytes hbody hclose hexact hpos

/-- The reads of the header section: the header section and the bytes kept, and
what is left on the connection. -/
theorem headReads_split (hfull : c.Full) (hpend : c.pending = m.bytes ++ T)
    (hbuf : 0 < buffSize) :
    ∃ extra, (m.headReads buffSize c).flatten = m.head ++ extra ∧
      extra ++ (c.skip (m.headReads buffSize c).flatten.length).pending = m.body ++ T := by
  obtain ⟨hskip, hsplit⟩ :=
    @readsFor_skip buffSize m.head.length m.head.length c hfull
  rw [hskip, hpend, Message.bytes, List.append_assoc] at hsplit
  have hlen : m.head.length ≤ c.pending.length := by
    rw [hpend, Message.bytes, List.append_assoc, List.length_append]
    exact Nat.le_add_right _ _
  obtain ⟨extra, hreads, hrest⟩ :=
    append_split hsplit.symm (readsFor_enough hfull hbuf (Nat.le_refl _) hlen)
  exact ⟨extra, hreads, hrest.symm⟩

/-- The header section is found exactly if the parser takes its reads and the buffer
has room for them. -/
theorem recvHeader_iff {P : HttpRequestParser} {kept : List UInt8} {c₁ : Conn} (hfull : c.Full)
    (hpend : c.pending = m.bytes ++ T) :
    recvHeader uriRelaxed buffSize c = .ok (P, kept) c₁ ↔
      feed uriRelaxed (m.headReads buffSize c) {} = some P ∧ P.error = 0 ∧
        Roomy buffSize m.head.length (m.headReads buffSize c) ∧
        kept = (m.headReads buffSize c).flatten.drop m.head.length ∧
        c₁ = c.skip (m.headReads buffSize c).flatten.length := by
  obtain ⟨P₁, hrun, -, hfin, -⟩ := m.accepted
  obtain ⟨qf, -, hstop, hused, -⟩ := walk_of_finished hrun hfin
  have hhead : c.pending = m.head ++ (m.body ++ T) := by
    rw [hpend, Message.bytes, List.append_assoc]
  rw [recvHeader, recvLoop_ok_iff hfull hhead hstop hused rfl (by decide) (Nat.le_refl _)
    (by rw [hhead, List.length_append]; omega), (readsFor_skip hfull).1]
  rfl

/-- What the rest of the call does with the bytes kept, in terms of the reads. -/
theorem recvRest_headReads_iff {P : HttpRequestParser} {extra : List UInt8} (hfull : c.Full)
    (hfeed : feed uriRelaxed (m.headReads buffSize c) {} = some P)
    (hreads : (m.headReads buffSize c).flatten = m.head ++ extra)
    (hbytes : extra ++ (c.skip (m.headReads buffSize c).flatten.length).pending = m.body ++ T) :
    (recvRest P (toInt64 (P.getContentLength lexicalCast).toNat) extra
        (c.skip (m.headReads buffSize c).flatten.length) = .ok m.request c' ∧ c'.pending = T) ↔
      P.data = m.data ∧ (m.headReads buffSize c).flatten.length ≤ m.bytes.length ∧
        m.body.length < 2 ^ 63 ∧
        ((m.headReads buffSize c).flatten.length < m.bytes.length →
          0 < toInt (m.bytes.length - (m.headReads buffSize c).flatten.length)) ∧
        c' = c.skip m.bytes.length := by
  have hframe := feed_framed hfeed
  have hlen : (m.headReads buffSize c).flatten.length = m.head.length + extra.length := by
    rw [hreads, List.length_append]
  have hleft : m.bytes.length - (m.headReads buffSize c).flatten.length =
      m.body.length - extra.length := by
    rw [hlen, Message.bytes, List.length_append, Nat.add_sub_add_left]
  rw [recvRest_iff (hfull.skip _) hbytes hframe.body hframe.close, hleft, Conn.skip_skip]
  have hmsg : m.bytes.length = m.head.length + m.body.length := List.length_append
  constructor
  · rintro ⟨hdata, hle, hsize, hint, rfl⟩
    refine ⟨hdata, by omega, hsize, fun hlt => hint (by omega), ?_⟩
    rw [hlen, hmsg, Nat.add_assoc, Nat.add_sub_cancel' hle]
  · rintro ⟨hdata, hle, hsize, hint, rfl⟩
    have hle : extra.length ≤ m.body.length := by omega
    refine ⟨hdata, hle, hsize, fun hlt => hint (by omega), ?_⟩
    rw [hlen, hmsg, Nat.add_assoc, Nat.add_sub_cancel' hle]

/-- A call returns the next request and stops at its end, if and only if the
connection delivers the request so. -/
theorem recvRequest_iff (hfull : c.Full) (hpend : c.pending = m.bytes ++ T) :
    (recvRequest uriRelaxed buffSize lexicalCast c = .ok m.request c' ∧ c'.pending = T) ↔
      Delivered buffSize c m (m.headReads buffSize c) ∧ c' = c.skip m.bytes.length := by
  constructor
  · rintro ⟨h, hT⟩
    cases hhdr : recvHeader uriRelaxed buffSize c with
    | null c => simp [recvRequest, hhdr] at h
    | noReturn => simp [recvRequest, hhdr] at h
    | ok found c₁ =>
        obtain ⟨P, kept⟩ := found
        obtain ⟨hfeed, herr, hroom, rfl, rfl⟩ := (recvHeader_iff hfull hpend).mp hhdr
        obtain ⟨extra, hreads, hbytes⟩ := headReads_split hfull hpend hroom.pos
        have hkept : (m.headReads buffSize c).flatten.drop m.head.length = extra := by
          rw [hreads, List.drop_left]
        rw [recvRequest, hhdr, hkept] at h
        obtain ⟨hdata, hle, hsize, hint, hc'⟩ :=
          (recvRest_headReads_iff hfull hfeed hreads hbytes).mp ⟨h, hT⟩
        exact ⟨⟨⟨P, hfeed, herr, hdata⟩, hroom, hle, hsize, hint⟩, hc'⟩
  · rintro ⟨⟨⟨P, hfeed, herr, hdata⟩, hroom, hle, hsize, hint⟩, hc'⟩
    obtain ⟨extra, hreads, hbytes⟩ := headReads_split hfull hpend hroom.pos
    have hkept : (m.headReads buffSize c).flatten.drop m.head.length = extra := by
      rw [hreads, List.drop_left]
    have hhdr := (recvHeader_iff hfull hpend).mpr ⟨hfeed, herr, hroom, rfl, rfl⟩
    rw [recvRequest, hhdr, hkept]
    exact (recvRest_headReads_iff hfull hfeed hreads hbytes).mpr ⟨hdata, hle, hsize, hint, hc'⟩

/-! ## Successive requests -/

/-- After every number of calls the requests so far have been returned, and the
connection stands at the beginning of the next. -/
def InOrder (buffSize : Nat) (c : Conn) (ms : List (Message uriRelaxed lexicalCast)) : Prop :=
  ∀ done left, ms = done ++ left → ∃ c',
    recvRequests uriRelaxed buffSize lexicalCast done.length c =
      some (done.map Message.request, c') ∧ c'.pending = Message.stream left

/-- Every request is delivered well, from where it begins. -/
def AllDelivered (buffSize : Nat) : Conn → List (Message uriRelaxed lexicalCast) → Prop
  | _, [] => True
  | c, m :: ms =>
      Delivered buffSize c m (m.headReads buffSize c) ∧
        AllDelivered buffSize (c.skip m.bytes.length) ms

/-- Successive calls return the requests of the stream, each stopping at the end of
its own, if and only if each request is delivered well. -/
theorem recvRequests_inOrder_iff {buffSize : Nat} {c : Conn}
    {ms : List (Message uriRelaxed lexicalCast)} (hfull : c.Full)
    (hpend : c.pending = Message.stream ms) :
    InOrder buffSize c ms ↔ AllDelivered buffSize c ms := by
  induction ms generalizing c with
  | nil =>
      refine ⟨fun _ => trivial, fun _ done left hsplit => ?_⟩
      obtain ⟨rfl, rfl⟩ := List.append_eq_nil_iff.mp hsplit.symm
      exact ⟨c, rfl, hpend⟩
  | cons m ms ih =>
      rw [Message.stream, List.map_cons, List.flatten_cons] at hpend
      have hpend' : (c.skip m.bytes.length).pending = Message.stream ms := by
        rw [Conn.pending_skip, hpend, List.drop_left]
        rfl
      have ih := ih (hfull.skip m.bytes.length) hpend'
      constructor
      · intro h
        -- the first call, then the others from where it stops
        obtain ⟨c₁, hcall, hpend₁⟩ := h [m] ms rfl
        have hfirst : recvRequest uriRelaxed buffSize lexicalCast c = .ok m.request c₁ := by
          cases hr : recvRequest uriRelaxed buffSize lexicalCast c with
          | null _ => simp [recvRequests, hr] at hcall
          | noReturn => simp [recvRequests, hr] at hcall
          | ok r c₂ =>
              simp only [recvRequests, hr, List.length_singleton, Option.map_some,
                Option.some.injEq, Prod.mk.injEq, List.map_cons, List.map_nil, List.cons.injEq,
                and_true] at hcall
              rw [hcall.1, hcall.2]
        obtain ⟨hdel, rfl⟩ := (recvRequest_iff hfull hpend).mp ⟨hfirst, hpend₁⟩
        refine ⟨hdel, ih.mp fun done left hsplit => ?_⟩
        obtain ⟨c', hcalls, hc'⟩ := h (m :: done) left (by rw [hsplit, List.cons_append])
        rw [List.length_cons, recvRequests, hfirst] at hcalls
        obtain ⟨⟨rs, c''⟩, hrs, heq⟩ := Option.map_eq_some_iff.mp hcalls
        simp only [List.map_cons, Prod.mk.injEq, List.cons.injEq, true_and] at heq
        exact ⟨c', by rw [hrs, heq.1, heq.2], hc'⟩
      · rintro ⟨hdel, hrest⟩ done left hsplit
        cases done with
        | nil =>
            refine ⟨c, rfl, ?_⟩
            rw [List.nil_append] at hsplit
            rw [← hsplit]
            exact hpend
        | cons m' done =>
            obtain ⟨rfl, hleft⟩ := List.cons.inj hsplit
            obtain ⟨hfirst, -⟩ := (recvRequest_iff hfull hpend).mpr ⟨hdel, rfl⟩
            obtain ⟨c', hcalls, hc'⟩ := ih.mpr hrest done left hleft
            refine ⟨c', ?_, hc'⟩
            rw [List.length_cons, recvRequests, hfirst]
            simp only [hcalls, Option.map_some, List.map_cons]

/-- At the end of the stream a call returns a null pointer. -/
theorem recvRequest_end {buffSize : Nat} {c : Conn} (hfull : c.Full) (hpend : c.pending = []) :
    recvRequest uriRelaxed buffSize lexicalCast c = .null c.close := by
  have hsegs : c.segs = [] := by
    cases hs : c.segs with
    | nil => rfl
    | cons seg segs =>
        rw [Conn.pending, hs] at hpend
        exact absurd (List.append_eq_nil_iff.mp hpend).1 (hfull.2 seg (hs ▸ List.mem_cons_self))
  simp [recvRequest, recvHeader, recvLoop, Conn.read, hfull.1, hsegs]

end

/-! ## Two requests -/

/-- A decimal number of digits. -/
def decimal (s : List UInt8) : Option UInt64 :=
  if s = [] then none
  else s.foldl (fun n c => n.bind fun n =>
    if 48 ≤ c ∧ c ≤ 57 then some (n * 10 + (c.toUInt64 - 48)) else none) (some 0)

/-- A keep-alive request with a body of two bytes. -/
def putRequest : Message false decimal where
  head := chars "PUT /a HTTP/1.1\r\nConnection: keep-alive\r\nContent-Length: 2\r\n\r\n"
  body := chars "xy"
  data := ((({} : HttpRequestParser).run false
    (chars "PUT /a HTTP/1.1\r\nConnection: keep-alive\r\nContent-Length: 2\r\n\r\n")).getD
      ({}, 0)).1.data
  accepted := ⟨((({} : HttpRequestParser).run false
    (chars "PUT /a HTTP/1.1\r\nConnection: keep-alive\r\nContent-Length: 2\r\n\r\n")).getD
      ({}, 0)).1, by decide +kernel, by decide +kernel, by decide +kernel, rfl⟩
  exact := by decide +kernel

/-- Each request in a read of its own, the first body in a third read. -/
theorem recvRequests_inOrder_iff_separate :
    InOrder 4096 ⟨[putRequest.head ++ chars "x", chars "y", putRequest.bytes], true⟩
        [putRequest, putRequest] ↔
      AllDelivered 4096 ⟨[putRequest.head ++ chars "x", chars "y", putRequest.bytes], true⟩
        [putRequest, putRequest] :=
  recvRequests_inOrder_iff ⟨rfl, by decide +kernel⟩ (by decide +kernel)

/-- Two requests in one read: the first call takes both from the connection and
returns the first, the second call finds the end of the stream. -/
theorem recvRequests_coalesced :
    Conn.pending ⟨[putRequest.bytes ++ putRequest.bytes], true⟩ =
        Message.stream [putRequest, putRequest] ∧
      recvRequest false 4096 decimal ⟨[putRequest.bytes ++ putRequest.bytes], true⟩ =
        .ok putRequest.request ⟨[], true⟩ ∧
      recvRequests false 4096 decimal 2 ⟨[putRequest.bytes ++ putRequest.bytes], true⟩ = none := by
  decide +kernel

end CoLib.Http
