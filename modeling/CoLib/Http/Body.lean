/-
# `CoLib.Http.Body` — the body of a request

After the header section `recvRequest` has some bytes left at the front of its
buffer, copies as many of them into the body as it is long, and reads the rest
with `readFixSize`.  The connection may give the bytes in groups of any size; an
empty group is a read that returns 0, which is the end of the stream.

**Proved here.** `recvRequest_body`: the body is the first bytes of what was left
and what arrives, none behind them is read, and a stream that ends first closes
the socket.
-/
import CoLib.Http.Delivery

namespace CoLib.Http

open Lib

namespace Conn

/-- The bytes that arrive before a read returns 0. -/
def arriving (c : Conn) : List UInt8 :=
  (c.segs.takeWhile fun seg => !seg.isEmpty).flatten

theorem arriving_cons {seg : List UInt8} (hne : seg ≠ []) (segs : List (List UInt8))
    (b b' : Bool) : arriving ⟨seg :: segs, b⟩ = seg ++ arriving ⟨segs, b'⟩ := by
  rw [arriving, List.takeWhile_cons_of_pos (by simpa using hne), List.flatten_cons, arriving]

/-- What arrives is the front of what is pending. -/
theorem arriving_prefix (c : Conn) : c.arriving <+: c.pending := by
  refine ⟨(c.segs.dropWhile fun seg => !seg.isEmpty).flatten, ?_⟩
  rw [arriving, pending, ← List.flatten_append, List.takeWhile_append_dropWhile]

theorem arriving_le (c : Conn) : c.arriving.length ≤ c.pending.length :=
  c.arriving_prefix.length_le

theorem read_connected (n : Nat) (c : Conn) : (c.read n).2.2.connected = c.connected := by
  rw [read]
  split
  · split <;> rfl
  · rfl

/-- A read returns 0 where nothing arrives. -/
theorem read_end {c : Conn} (hconn : c.connected = true) (h : c.arriving = []) (n : Nat) :
    ∃ c', c.read n = (0, [], c') ∧ c'.connected = true := by
  rw [read, if_pos hconn]
  cases hs : c.segs with
  | nil => exact ⟨c, rfl, hconn⟩
  | cons seg segs =>
      have hseg : seg = [] := by
        by_contra hne
        rw [arriving, hs, List.takeWhile_cons_of_pos (by simp [hne]), List.flatten_cons,
          List.append_eq_nil_iff] at h
        exact hne h.1
      subst hseg
      exact ⟨{ c with segs := segs }, by simp, hconn⟩

/-- A read of at least a byte takes bytes from the front of what arrives. -/
theorem read_arriving {c : Conn} (hconn : c.connected = true) (h : c.arriving ≠ []) {n : Nat}
    (hn : 0 < n) :
    ∃ got c', c.read n = ((got.length : Int), got, c') ∧ got ≠ [] ∧ got.length ≤ n ∧
      got.length ≤ maxRwCount ∧ c'.connected = true ∧
      c.arriving = got ++ c'.arriving ∧ c.pending = got ++ c'.pending := by
  obtain ⟨segs, b⟩ := c
  obtain rfl : b = true := hconn
  cases segs with
  | nil => exact absurd rfl h
  | cons seg segs =>
      have hne : seg ≠ [] := by
        rintro rfl
        exact h rfl
      have hmin : 0 < min n maxRwCount := Nat.lt_min.mpr ⟨hn, by decide⟩
      have hlen : (seg.take (min n maxRwCount)).length ≤ min n maxRwCount :=
        List.length_take_le ..
      have hgot : seg.take (min n maxRwCount) ≠ [] := fun he =>
        (List.take_eq_nil_iff.mp he).elim hmin.ne' hne
      refine ⟨_, _, rfl, hgot, by omega, by omega, rfl, ?_, ?_⟩
      · rw [arriving_cons hne segs true true]
        split
        · rename_i hle
          rw [List.take_of_length_le hle]
        · rename_i hle
          have hrest : seg.drop (min n maxRwCount) ≠ [] := by
            rw [Ne, List.drop_eq_nil_iff]
            exact hle
          rw [arriving_cons hrest segs true true, ← List.append_assoc, List.take_append_drop]
      · rw [pending, pending, List.flatten_cons]
        split
        · rename_i hle
          rw [List.take_of_length_le hle]
        · rw [List.flatten_cons, ← List.append_assoc, List.take_append_drop]

end Conn

/-! ## `readFixSize` -/

/-- `readFixSize` where enough bytes arrive: these bytes, and no more. -/
theorem readFixSizeLoop_arriving (length fuel left : Nat) (buffer : List UInt8) {c : Conn}
    (hconn : c.connected = true) (hword : left < wordSize) (hleft : left ≤ c.arriving.length)
    (hfuel : left ≤ fuel) :
    ∃ c', readFixSizeLoop length fuel left buffer c =
        .ok (toInt length, buffer ++ c.arriving.take left) c' ∧
      c'.pending = c.pending.drop left ∧ c'.connected = true := by
  induction fuel generalizing left buffer c with
  | zero =>
      obtain rfl := Nat.le_zero.mp hfuel
      exact ⟨c, by rw [readFixSizeLoop, if_pos rfl, List.take_zero, List.append_nil], rfl, hconn⟩
  | succ fuel ih =>
      rcases Nat.eq_zero_or_pos left with rfl | hpos
      · exact ⟨c, by rw [readFixSizeLoop, if_pos rfl, List.take_zero, List.append_nil], rfl,
          hconn⟩
      · have harr : c.arriving ≠ [] := by
          intro he
          rw [he] at hleft
          exact absurd hpos (Nat.not_lt.mpr hleft)
        obtain ⟨got, c₁, hread, hgot, hle, hmax, hconn₁, harr₁, hpend₁⟩ :=
          Conn.read_arriving hconn harr hpos
        have hgpos : 0 < got.length := List.length_pos_iff.mpr hgot
        have hsize : toSizeT (got.length : Int) = got.length :=
          toSizeT_ofNat (hmax.trans (by decide))
        rw [harr₁, List.length_append] at hleft
        obtain ⟨c', hloop, hpend, hconn'⟩ := ih (left - got.length)
          (buffer ++ got) hconn₁ (by omega) (by omega) (by omega)
        refine ⟨c', ?_, ?_, hconn'⟩
        · rw [readFixSizeLoop, if_neg hpos.ne']
          simp only [hread, hsize, hgpos.ne', if_false, subWord_of_le hword hle]
          rw [hloop, harr₁, List.append_assoc, List.take_append, List.take_of_length_le hle]
        · rw [hpend, hpend₁, List.drop_append, List.drop_of_length_le hle, List.nil_append]

/-- `readFixSize` where the stream ends first: it returns 0. -/
theorem readFixSizeLoop_ends (length fuel left : Nat) (buffer : List UInt8) {c : Conn}
    (hconn : c.connected = true) (hword : left < wordSize) (hleft : c.arriving.length < left)
    (hfuel : c.arriving.length < fuel) :
    ∃ got c', readFixSizeLoop length fuel left buffer c = .ok (0, got) c' := by
  induction fuel generalizing left buffer c with
  | zero => exact absurd hfuel (Nat.not_lt_zero _)
  | succ fuel ih =>
      have hpos : 0 < left := by omega
      rw [readFixSizeLoop, if_neg hpos.ne']
      by_cases harr : c.arriving = []
      · obtain ⟨c₁, hread, _⟩ := Conn.read_end hconn harr left
        simp only [hread]
        exact ⟨buffer, c₁, by rw [if_pos (by decide)]⟩
      · obtain ⟨got, c₁, hread, hgot, hle, hmax, hconn₁, harr₁, _⟩ :=
          Conn.read_arriving hconn harr hpos
        have hgpos : 0 < got.length := List.length_pos_iff.mpr hgot
        have hsize : toSizeT (got.length : Int) = got.length :=
          toSizeT_ofNat (hmax.trans (by decide))
        rw [harr₁, List.length_append] at hleft hfuel
        simp only [hread, hsize, hgpos.ne', if_false, subWord_of_le hword hle]
        exact ih _ _ hconn₁ (by omega) (by omega) (by omega)

/-! ## The body -/

section Body

variable {kept : List UInt8} {c : Conn} {n : Nat}

/-- The body, where what was left and what arrives are enough, and the number of bytes
that `readFixSize` returns is positive as an `int`. -/
theorem recvBody_arriving (hconn : c.connected = true) (hword : n < 2 ^ 63)
    (hint : kept.length < n → 0 < toInt (n - kept.length))
    (henough : n ≤ kept.length + c.arriving.length) :
    ∃ c', recvBody n kept c = .ok ((kept ++ c.arriving).take n) c' ∧
      c'.pending = c.pending.drop (n - kept.length) ∧ c'.connected = true := by
  rw [recvBody, Int.toNat_natCast]
  by_cases hleft : (0 : Int) < (n : Int) - kept.length
  · have hnat : ((n : Int) - kept.length).toNat = n - kept.length := by omega
    obtain ⟨c', hread, hpend, hconn'⟩ := readFixSizeLoop_arriving (n - kept.length)
      (c.pending.length + 1) (n - kept.length) [] hconn
      (by simp only [wordSize]; omega) (by omega)
      (by have := c.arriving_le; omega)
    refine ⟨c', ?_, hpend, hconn'⟩
    rw [if_pos hleft, hnat, readFixSize, hread]
    dsimp only
    rw [if_neg (Int.not_le.mpr (hint (by omega))), List.nil_append, List.take_append]
  · refine ⟨c, ?_, ?_, hconn⟩
    · rw [if_neg hleft, List.take_append_of_le_length (by omega)]
    · rw [Nat.sub_eq_zero_of_le (by omega), List.drop_zero]

/-- No body, where that number is not positive as an `int`. -/
theorem recvBody_narrowed (hconn : c.connected = true) (hword : n < 2 ^ 63)
    (hlt : kept.length < n) (hint : toInt (n - kept.length) ≤ 0)
    (henough : n ≤ kept.length + c.arriving.length) :
    ∃ c', recvBody n kept c = .null c' ∧ c'.connected = false := by
  have hleft : (0 : Int) < (n : Int) - kept.length := by omega
  have hnat : ((n : Int) - kept.length).toNat = n - kept.length := by omega
  obtain ⟨c', hread, -, -⟩ := readFixSizeLoop_arriving (n - kept.length)
    (c.pending.length + 1) (n - kept.length) [] hconn
    (by simp only [wordSize]; omega) (by omega)
    (by have := c.arriving_le; omega)
  refine ⟨c'.close, ?_, rfl⟩
  rw [recvBody, if_pos hleft, hnat, readFixSize, hread]
  dsimp only
  rw [if_pos hint]

/-- No body, where the stream ends first. -/
theorem recvBody_ends (hconn : c.connected = true) (hword : n < 2 ^ 63)
    (hshort : kept.length + c.arriving.length < n) :
    ∃ c', recvBody n kept c = .null c' ∧ c'.connected = false := by
  have hleft : (0 : Int) < (n : Int) - kept.length := by omega
  have hnat : ((n : Int) - kept.length).toNat = n - kept.length := by omega
  obtain ⟨got, c', hread⟩ := readFixSizeLoop_ends (n - kept.length)
    (c.pending.length + 1) (n - kept.length) [] hconn
    (by simp only [wordSize]; omega) (by omega)
    (by have := c.arriving_le; omega)
  refine ⟨c'.close, ?_, rfl⟩
  rw [recvBody, if_pos hleft, hnat, readFixSize, hread]
  rfl

end Body

section Request

variable {uriRelaxed : Bool} {buffSize : Nat} {lexicalCast : List UInt8 → Option UInt64}

/-- The socket is open when the header section is finished. -/
theorem recvLoop_connected {fuel : Nat} {parser P : HttpRequestParser} {kept kept' : List UInt8}
    {c c' : Conn} (h : recvLoop uriRelaxed buffSize fuel parser kept c = .ok (P, kept') c') :
    c'.connected = true := by
  induction fuel generalizing parser kept c with
  | zero => cases h
  | succ fuel ih =>
      have hconn := Conn.read_connected (buffSize - kept.length) c
      have hclosed : c.connected = false → (c.read (buffSize - kept.length)).1 = -1 := by
        intro hc
        rw [Conn.read, hc]
        rfl
      rw [recvLoop] at h
      generalize c.read (buffSize - kept.length) = out at hconn hclosed h
      obtain ⟨len, got, c₁⟩ := out
      dsimp only at hconn hclosed h
      split at h
      · cases h
      · rename_i hlen
        split at h
        · cases h
        · split at h
          · cases h
          · split at h
            · cases h
            · split at h
              · cases h
                rw [hconn, ← Bool.not_eq_false]
                intro hc
                exact hlen (by rw [hclosed hc]; decide)
              · exact ih h

/-- Once the header section is finished, the body is the first bytes of those left in
the buffer and those that arrive, and no byte behind them is read; where the stream
ends first the socket is closed and there is no request. -/
theorem recvRequest_body {c c₁ : Conn} {P : HttpRequestParser} {kept : List UInt8} {length : Int}
    (hhead : recvHeader uriRelaxed buffSize c = .ok (P, kept) c₁)
    (hlength : toInt64 (P.getContentLength lexicalCast).toNat = length) (hpos : 0 < length)
    (hmax : length - kept.length ≤ intMax) :
    (length ≤ (kept.length + c₁.arriving.length : Nat) →
      ∃ c', recvRequest uriRelaxed buffSize lexicalCast c =
          .ok (withKeepAlive { P.data with body := (kept ++ c₁.arriving).take length.toNat }) c' ∧
        c'.pending = c₁.pending.drop (length.toNat - kept.length) ∧ c'.connected = true) ∧
    (((kept.length + c₁.arriving.length : Nat) : Int) < length →
      ∃ c', recvRequest uriRelaxed buffSize lexicalCast c = .null c' ∧ c'.connected = false) := by
  have hconn : c₁.connected = true := recvLoop_connected hhead
  have hrest : recvRequest uriRelaxed buffSize lexicalCast c = recvRest P length kept c₁ := by
    rw [recvRequest, hhead, ← hlength]
  obtain ⟨n, rfl⟩ := Int.eq_ofNat_of_zero_le hpos.le
  have hword : n < 2 ^ 63 := by
    have hsize := toInt64_pos (UInt64.toNat_lt _) (hlength ▸ hpos)
    rw [toInt64_ofNat hsize] at hlength
    omega
  have hint : kept.length < n → 0 < toInt (n - kept.length) := by
    intro hlt
    rw [toInt_ofNat (by omega)]
    omega
  refine ⟨?_, ?_⟩
  · intro henough
    obtain ⟨c', hbody, hpend, hconn'⟩ :=
      recvBody_arriving hconn hword hint (Int.ofNat_le.mp henough)
    exact ⟨c', by rw [hrest, recvRest_pos hpos, hbody]; rfl, hpend, hconn'⟩
  · intro hshort
    obtain ⟨c', hbody, hconn'⟩ := recvBody_ends hconn hword (Int.ofNat_lt.mp hshort)
    exact ⟨c', by rw [hrest, recvRest_pos hpos, hbody], hconn'⟩

end Request

/-- A header section with the first byte of a body of three. -/
def putHead : List UInt8 := chars "PUT / HTTP/1.1\r\nContent-Length: 3\r\n\r\na"

/-- The parser after it. -/
def putParser : HttpRequestParser :=
  ((({} : HttpRequestParser).execute false putHead).getD ({}, 0)).1

/-- A body that comes with the header section, in the next read and in the one after,
with a byte of the next request. -/
theorem recvRequest_body_three :
    ∃ c', recvRequest false 4096 decimal ⟨[putHead, chars "b", chars "cd"], true⟩ =
        .ok (withKeepAlive { putParser.data with body := chars "abc" }) c' ∧
      c'.pending = chars "d" ∧ c'.connected = true := by
  have hhead : recvHeader false 4096 ⟨[putHead, chars "b", chars "cd"], true⟩ =
      .ok (putParser, chars "a") ⟨[chars "b", chars "cd"], true⟩ := by decide +kernel
  have hlength : toInt64 (putParser.getContentLength decimal).toNat = 3 := by decide +kernel
  exact (recvRequest_body hhead hlength (by decide) (by decide)).1 (by decide)

end CoLib.Http
