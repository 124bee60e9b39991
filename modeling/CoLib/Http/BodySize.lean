/-
# `CoLib.Http.BodySize` — the length that `recvRequest` gives a body

After the header section `recvRequest` takes the value of `Content-Length`
through a lookup, `lexical_cast` with its exceptions swallowed, and a conversion
to `int64_t`; a positive result is the size of the string it allocates.  The
configured limit, `http.request.max.body_size`, is kept up to date in
`http_parser.cc` and read by `GetHttpRequestMaxBodySize`, which nobody calls.
`resize` throws above `std::string::max_size()`, and is taken to find the memory below.

**Proved here.**  `takesLength_iff`: for which values of the header the body that is
returned has the length the peer announced, and the connection is closed on all others.
-/
import CoLib.Http.Body
import CoLib.Http.Numeral

namespace CoLib.Http

open Lib

section Length

variable (lexicalCast : List UInt8 → Option UInt64) (P : HttpRequestParser)

/-- `length` of `recvRequest`: `getContentLength()` as an `int64_t`. -/
def bodyLength : Int :=
  toInt64 (P.getContentLength lexicalCast).toNat

/-- `body.resize(length)`: the size of the body allocated, if there is one. -/
def bodyAllocated : Option Nat :=
  if 0 < bodyLength lexicalCast P then some (bodyLength lexicalCast P).toNat else none

end Length

/-- `recvRequest`, or none where `body.resize(length)` throws; `maxSize` is
`std::string::max_size()`. -/
def recvRequestWithin (maxSize : Nat) (uriRelaxed : Bool) (buffSize : Nat)
    (lexicalCast : List UInt8 → Option UInt64) (c : Conn) : Option (Outcome HttpRequest) :=
  let o := recvRequest uriRelaxed buffSize lexicalCast c
  match recvHeader uriRelaxed buffSize c with
  | .ok (P, _) _ =>
      if (bodyAllocated lexicalCast P).all fun n => decide (n ≤ maxSize) then some o else none
  | _ => some o

section TakesLength

variable {maxSize : Nat} {uriRelaxed : Bool} {buffSize : Nat}
  {lexicalCast : List UInt8 → Option UInt64} {P : HttpRequestParser} {kept : List UInt8}
  {c c' : Conn} {v : List UInt8} {limit : UInt64}

theorem recvRequestWithin_eq_some (h : recvHeader uriRelaxed buffSize c = .ok (P, kept) c')
    {o : Outcome HttpRequest} :
    recvRequestWithin maxSize uriRelaxed buffSize lexicalCast c = some o ↔
      (∀ n, bodyAllocated lexicalCast P = some n → n ≤ maxSize) ∧
        recvRequest uriRelaxed buffSize lexicalCast c = o := by
  have hall : (bodyAllocated lexicalCast P).all (fun n => decide (n ≤ maxSize)) = true ↔
      ∀ n, bodyAllocated lexicalCast P = some n → n ≤ maxSize := by
    cases bodyAllocated lexicalCast P <;> simp
  rw [recvRequestWithin, h]
  dsimp only
  split
  · rename_i hle
    exact ⟨fun ho => ⟨hall.mp hle, Option.some.inj ho⟩, fun hboth => congrArg some hboth.2⟩
  · rename_i hgt
    exact iff_of_false nofun fun hboth => hgt (hall.mpr hboth.1)

theorem recvRequest_of_header (h : recvHeader uriRelaxed buffSize c = .ok (P, kept) c') :
    recvRequest uriRelaxed buffSize lexicalCast c
      = recvRest P (bodyLength lexicalCast P) kept c' := by
  rw [recvRequest, h]
  rfl

theorem getContentLength_of_header
    (hv : P.data.findHeader (chars "content-length") = some v) :
    P.getContentLength lexicalCast = (lexicalCast v).getD 0 := by
  rw [HttpRequestParser.getContentLength, HttpRequest.getHeaderAs, hv, Option.bind_some]

/-- The loop leaves the fields of the request that no action writes. -/
theorem recvLoop_framed {fuel : Nat} {parser : HttpRequestParser} {data : List UInt8}
    (h : recvLoop uriRelaxed buffSize fuel parser data c = .ok (P, kept) c') :
    Framed parser P := by
  induction fuel generalizing parser data c with
  | zero => cases h
  | succ fuel ih =>
      rw [recvLoop] at h
      generalize c.read (buffSize - data.length) = out at h
      obtain ⟨len, got, c₁⟩ := out
      dsimp only at h
      split at h
      · cases h
      · split at h
        · cases h
        · rename_i parser₁ nparse hexec
          have hframed := execute_framed hexec
          split at h
          · cases h
          · split at h
            · cases h
            · split at h
              · obtain ⟨hpair, -⟩ := Outcome.ok.inj h
                exact (Prod.mk.inj hpair).1 ▸ hframed
              · exact hframed.trans (ih h)

theorem recvHeader_framed (h : recvHeader uriRelaxed buffSize c = .ok (P, kept) c') :
    Framed {} P :=
  recvLoop_framed h

theorem withKeepAlive_body (r : HttpRequest) : (withKeepAlive r).body = r.body := by
  rw [withKeepAlive]
  split <;> rfl

/-- With `kept` in the buffer and `c'` to read from, the body that is returned is the next
`n` bytes, and there is no request where the stream ends before them. -/
def TakesBody (n : Nat) (kept : List UInt8) (c' : Conn) (o : Outcome HttpRequest) : Prop :=
  if n ≤ kept.length + c'.arriving.length then
    ∃ r c'', o = .ok r c'' ∧ r.body = (kept ++ c'.arriving).take n ∧
      c''.pending = c'.pending.drop (n - kept.length)
  else ∃ c'', o = .null c'' ∧ c''.connected = false

/-- What should happen to a request whose header section left `P`, the bytes `kept` in the
buffer and the connection `c'`, for the value `v` of `Content-Length`. -/
def TakesLength (limit : UInt64) (v : List UInt8) (maxSize : Nat) (uriRelaxed : Bool)
    (buffSize : Nat) (lexicalCast : List UInt8 → Option UInt64) (c : Conn)
    (P : HttpRequestParser) (kept : List UInt8) (c' : Conn) : Prop :=
  (∀ n, numeral v = some n → n ≤ limit.toNat →
    ∃ o, recvRequestWithin maxSize uriRelaxed buffSize lexicalCast c = some o ∧
      TakesBody n kept c' o) ∧
  ((∀ n, numeral v = some n → limit.toNat < n) →
    recvRequestWithin maxSize uriRelaxed buffSize lexicalCast c = some (.null c'.close) ∧
      bodyAllocated lexicalCast P = none)

/-- The number of bytes that are still to be read is positive as the `int` that
`readFixSize` returns, in case they all arrive. -/
def RestFits (n : Nat) (kept : List UInt8) (c' : Conn) : Prop :=
  kept.length < n → n ≤ kept.length + c'.arriving.length → 0 < toInt (n - kept.length)

/-- A numeral in range is the length, as a signed word. -/
theorem bodyLength_of_numeral (hcast : LexicalCast lexicalCast)
    (hv : P.data.findHeader (chars "content-length") = some v) {n : Nat}
    (hn : numeral v = some n) (hlt : n < 2 ^ 64) : bodyLength lexicalCast P = toInt64 n := by
  rw [bodyLength, getContentLength_of_header hv, hcast.numeral v n hn, if_pos hlt,
    Option.getD_some, UInt64.toNat_ofNat_of_lt' hlt]

/-- No more is allocated than the length announced, -/
theorem le_of_bodyAllocated (hcast : LexicalCast lexicalCast)
    (hv : P.data.findHeader (chars "content-length") = some v) {n k : Nat}
    (hn : numeral v = some n) (hlt : n < 2 ^ 63) (hk : bodyAllocated lexicalCast P = some k) :
    k ≤ n := by
  rw [bodyAllocated, bodyLength_of_numeral hcast hv hn (by omega), toInt64_ofNat hlt] at hk
  split at hk
  · exact (Option.some.inj hk).ge
  · cases hk

/-- and all of it if it is positive. -/
theorem bodyAllocated_of_numeral (hcast : LexicalCast lexicalCast)
    (hv : P.data.findHeader (chars "content-length") = some v) {n : Nat}
    (hn : numeral v = some n) (hpos : 0 < n) (hlt : n < 2 ^ 63) :
    bodyAllocated lexicalCast P = some n := by
  rw [bodyAllocated, bodyLength_of_numeral hcast hv hn (by omega), toInt64_ofNat hlt,
    if_pos (by omega), Int.toNat_natCast]

/-- No value makes `recvRequest` refuse the request before it allocates a body. -/
theorem not_refused (h : recvHeader uriRelaxed buffSize c = .ok (P, kept) c')
    (hnull : recvRequest uriRelaxed buffSize lexicalCast c = .null c'.close) :
    bodyAllocated lexicalCast P ≠ none := by
  intro hnone
  have hle : ¬ 0 < bodyLength lexicalCast P := by
    intro hpos
    rw [bodyAllocated, if_pos hpos] at hnone
    cases hnone
  rw [recvRequest_of_header h, recvRest, if_neg hle] at hnull
  cases hnull

/-- A value that should be refused is not. -/
theorem not_takesLength (h : recvHeader uriRelaxed buffSize c = .ok (P, kept) c')
    (habove : ∀ n, numeral v = some n → limit.toNat < n) :
    ¬ TakesLength limit v maxSize uriRelaxed buffSize lexicalCast c P kept c' := by
  rintro ⟨-, hrefuse⟩
  obtain ⟨hnull, hnone⟩ := hrefuse habove
  exact not_refused h ((recvRequestWithin_eq_some h).mp hnull).2 hnone

/-- A length that is not positive gives a request without body. -/
theorem recvRequest_noBody (h : recvHeader uriRelaxed buffSize c = .ok (P, kept) c')
    (hle : bodyLength lexicalCast P ≤ 0) :
    ∃ r, recvRequest uriRelaxed buffSize lexicalCast c = .ok r c' ∧ r.body = [] := by
  refine ⟨withKeepAlive P.data, ?_, ?_⟩
  · rw [recvRequest_of_header h, recvRest_nonpos (Int.not_lt.mpr hle)]
  · rw [withKeepAlive_body, (recvHeader_framed h).body]

/-- A numeral whose length is not negative as an `int64_t`: the body has that length
exactly if the rest of it fits. -/
theorem takes_iff (hcast : LexicalCast lexicalCast)
    (h : recvHeader uriRelaxed buffSize c = .ok (P, kept) c')
    (hv : P.data.findHeader (chars "content-length") = some v) {n : Nat}
    (hn : numeral v = some n) (hlt : n < 2 ^ 63) :
    TakesBody n kept c' (recvRequest uriRelaxed buffSize lexicalCast c) ↔ RestFits n kept c' := by
  have hlength : bodyLength lexicalCast P = n := by
    rw [bodyLength_of_numeral hcast hv hn (by omega), toInt64_ofNat hlt]
  have hconn : c'.connected = true := recvLoop_connected h
  rcases Nat.eq_zero_or_pos n with rfl | hpos
  · obtain ⟨r, hr, hbody⟩ := @recvRequest_noBody _ _ lexicalCast _ _ _ _ h (by omega)
    rw [TakesBody, if_pos (Nat.zero_le _), Nat.zero_sub, List.drop_zero, List.take_zero]
    exact iff_of_true ⟨r, c', hr, hbody, rfl⟩ fun hkept => absurd hkept (Nat.not_lt_zero _)
  have hrest : recvRequest uriRelaxed buffSize lexicalCast c = recvRest P n kept c' := by
    rw [recvRequest_of_header h, hlength]
  rw [hrest, recvRest_pos (by omega), TakesBody]
  split
  · rename_i henough
    by_cases hint : kept.length < n → 0 < toInt (n - kept.length)
    · obtain ⟨c₁, hbody, hpend, -⟩ := recvBody_arriving hconn hlt hint henough
      rw [hbody]
      exact iff_of_true ⟨_, c₁, rfl, withKeepAlive_body _, hpend⟩ fun hkept _ => hint hkept
    · rw [Classical.not_imp] at hint
      obtain ⟨hkept, hneg⟩ := hint
      obtain ⟨c₁, hbody, -⟩ := recvBody_narrowed hconn hlt hkept (Int.not_lt.mp hneg) henough
      rw [hbody]
      refine iff_of_false ?_ fun hfits => hneg (hfits hkept henough)
      rintro ⟨r, c₂, hr, -⟩
      cases hr
  · rename_i hshort
    obtain ⟨c₁, hbody, hclosed⟩ := recvBody_ends hconn hlt (Nat.lt_of_not_le hshort)
    rw [hbody]
    exact iff_of_true ⟨c₁, rfl, hclosed⟩ fun _ henough => absurd henough hshort

/-- From `2^63` on the length is negative, and there is no body. -/
theorem not_takes_of_ge (hcast : LexicalCast lexicalCast)
    (h : recvHeader uriRelaxed buffSize c = .ok (P, kept) c')
    (hv : P.data.findHeader (chars "content-length") = some v) {n : Nat}
    (hn : numeral v = some n) (hword : n < 2 ^ 64) (hge : 2 ^ 63 ≤ n) :
    ¬ TakesBody n kept c' (recvRequest uriRelaxed buffSize lexicalCast c) := by
  have hlength : bodyLength lexicalCast P ≤ 0 := by
    rw [bodyLength_of_numeral hcast hv hn hword]
    exact toInt64_nonpos hword hge
  obtain ⟨r, hr, hbody⟩ := @recvRequest_noBody _ _ lexicalCast _ _ _ _ h hlength
  rw [hr, TakesBody]
  split
  · rename_i henough
    rintro ⟨r', c₁, heq, hbody', -⟩
    obtain ⟨rfl, rfl⟩ := Outcome.ok.inj heq
    have hlen := congrArg List.length (hbody.symm.trans hbody')
    rw [List.length_take, List.length_append, List.length_nil] at hlen
    omega
  · rintro ⟨c₁, heq, -⟩
    cases heq

/-- **Which lengths are taken right.**  For every parsed request with the header,
every configured limit and every conversion as documented: the body returned has the
length announced, and a value that is no numeral or above the limit is refused,
exactly if the value is a numeral up to the limit, below `2^63` and no more than the size
of a string, and the part of the body that does not come with the header section fits. -/
theorem takesLength_iff (hcast : LexicalCast lexicalCast)
    (h : recvHeader uriRelaxed buffSize c = .ok (P, kept) c')
    (hv : P.data.findHeader (chars "content-length") = some v) :
    TakesLength limit v maxSize uriRelaxed buffSize lexicalCast c P kept c' ↔
      ∃ n, numeral v = some n ∧ n ≤ limit.toNat ∧ n < 2 ^ 63 ∧ n ≤ maxSize ∧
        RestFits n kept c' := by
  have hword := limit.toNat_lt
  constructor
  · intro htakes
    by_cases hgood : ∃ n, numeral v = some n ∧ n ≤ limit.toNat
    · obtain ⟨n, hn, hle⟩ := hgood
      obtain ⟨o, ho, hbody⟩ := htakes.1 n hn hle
      obtain ⟨hmax, rfl⟩ := (recvRequestWithin_eq_some h).mp ho
      have hlt : n < 2 ^ 63 := Nat.lt_of_not_le fun hge =>
        not_takes_of_ge hcast h hv hn (by omega) hge hbody
      refine ⟨n, hn, hle, hlt, ?_, (takes_iff hcast h hv hn hlt).mp hbody⟩
      rcases Nat.eq_zero_or_pos n with rfl | hpos
      · exact Nat.zero_le _
      · exact hmax n (bodyAllocated_of_numeral hcast hv hn hpos hlt)
    · exact absurd htakes (not_takesLength h fun n hn =>
        Nat.lt_of_not_le fun hle => hgood ⟨n, hn, hle⟩)
  · rintro ⟨n, hn, hle, hlt, hmax, hfits⟩
    constructor
    · intro n' hn' _
      obtain rfl := Option.some.inj (hn.symm.trans hn')
      refine ⟨_, (recvRequestWithin_eq_some h).mpr ⟨fun k hk => ?_, rfl⟩,
        (takes_iff hcast h hv hn hlt).mpr hfits⟩
      exact (le_of_bodyAllocated hcast hv hn hlt hk).trans hmax
    · intro habove
      have := habove n hn
      omega

/-- A connection on which one group of bytes has arrived. -/
def received (s : String) : Conn :=
  { segs := [chars s] }

/-- `std::string::max_size()` of libstdc++, half of what `new` can be asked for. -/
def stringMaxSize : Nat := 2 ^ 62 - 1

/-- The default limit of the configuration. -/
def defaultLimit : UInt64 := 64 * 1024 * 1024

/-- `Content-Length` as a header section has left it. -/
def lengthValue : Outcome (HttpRequestParser × List UInt8) → Option (List UInt8)
  | .ok (P, _) _ => P.data.findHeader (chars "content-length")
  | _ => none

theorem exists_of_lengthValue {o : Outcome (HttpRequestParser × List UInt8)}
    (h : lengthValue o = some v) :
    ∃ P data c', o = .ok (P, data) c' ∧ P.data.findHeader (chars "content-length") = some v := by
  cases o with
  | ok r c' => exact ⟨r.1, r.2, c', rfl, h⟩
  | null _ => cases h
  | noReturn => cases h

theorem takesLength_iff_five :
    ∃ P data c', recvHeader false 4096
        (received "POST / HTTP/1.1\r\nContent-Length: 5\r\n\r\nhello") = .ok (P, data) c' ∧
      TakesLength defaultLimit (chars "5") stringMaxSize false 4096 lexicalCastUInt64
        (received "POST / HTTP/1.1\r\nContent-Length: 5\r\n\r\nhello") P data c' := by
  have hvalue : lengthValue (recvHeader false 4096
      (received "POST / HTTP/1.1\r\nContent-Length: 5\r\n\r\nhello")) = some (chars "5") := by
    decide +kernel
  obtain ⟨P, data, c', hrecv, hv⟩ := exists_of_lengthValue hvalue
  refine ⟨P, data, c', hrecv, (takesLength_iff lexicalCast_lexicalCastUInt64 hrecv hv).mpr
    ⟨5, by decide +kernel, by decide, by decide, by decide, ?_⟩⟩
  -- what fits an `int` is left, whatever came with the header section
  intro hkept _
  rw [toInt_ofNat (by simp only [intMax]; omega)]
  omega

/-- **Lengths that are not refused.**  One byte above the limit, a body of that
size is allocated; a value that is no numeral counts as no body, and the request
is returned. -/
theorem recvRequest_tooLarge :
    (∃ P data c', recvHeader false 4096
        (received "POST / HTTP/1.1\r\nContent-Length: 67108865\r\n\r\n") = .ok (P, data) c' ∧
      bodyAllocated lexicalCastUInt64 P = some 67108865 ∧
      ¬ TakesLength defaultLimit (chars "67108865") stringMaxSize false 4096 lexicalCastUInt64
        (received "POST / HTTP/1.1\r\nContent-Length: 67108865\r\n\r\n") P data c') ∧
    ∃ P data c', recvHeader false 4096
        (received "POST / HTTP/1.1\r\nContent-Length: abc\r\n\r\n") = .ok (P, data) c' ∧
      bodyLength lexicalCastUInt64 P = 0 ∧
      ¬ TakesLength defaultLimit (chars "abc") stringMaxSize false 4096 lexicalCastUInt64
        (received "POST / HTTP/1.1\r\nContent-Length: abc\r\n\r\n") P data c' := by
  constructor
  · have hvalue : lengthValue (recvHeader false 4096
        (received "POST / HTTP/1.1\r\nContent-Length: 67108865\r\n\r\n"))
          = some (chars "67108865") := by decide +kernel
    have hnum : numeral (chars "67108865") = some 67108865 := by decide +kernel
    obtain ⟨P, data, c', hrecv, hv⟩ := exists_of_lengthValue hvalue
    have hlength : bodyLength lexicalCastUInt64 P = 67108865 := by
      rw [bodyLength_of_numeral lexicalCast_lexicalCastUInt64 hv hnum (by omega),
        toInt64_ofNat (by omega), Nat.cast_ofNat]
    refine ⟨P, data, c', hrecv, ?_, not_takesLength hrecv fun n hn => ?_⟩
    · rw [bodyAllocated, hlength, if_pos (by omega)]
      exact congrArg some (by omega)
    · obtain rfl := Option.some.inj (hnum.symm.trans hn)
      decide +kernel
  · have hvalue : lengthValue (recvHeader false 4096
        (received "POST / HTTP/1.1\r\nContent-Length: abc\r\n\r\n")) = some (chars "abc") := by
      decide +kernel
    have hnum : numeral (chars "abc") = none := by decide +kernel
    have hcast : lexicalCastUInt64 (chars "abc") = none := by decide +kernel
    obtain ⟨P, data, c', hrecv, hv⟩ := exists_of_lengthValue hvalue
    refine ⟨P, data, c', hrecv, ?_, not_takesLength hrecv fun n hn => ?_⟩
    · rw [bodyLength, getContentLength_of_header hv, hcast, Option.getD_none]
      exact toInt64_ofNat (by decide)
    · rw [hnum] at hn
      cases hn

end TakesLength

end CoLib.Http
