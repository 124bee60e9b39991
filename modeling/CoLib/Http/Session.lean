/-
# `CoLib.Http.Session` — `HttpSession::recvRequest` and the connection under it

A connection is the list of byte groups that the peer's bytes arrive in.  One
`recv` takes bytes from the first group only and leaves the rest of the group for
the next call; the end of the list is the end of the stream.

The loops of the source are run with the number of pending bytes as fuel: every
turn that does not return reads at least one byte.
-/
import CoLib.Lib.MachineInt
import CoLib.Http.Pieces

namespace CoLib.Http

open Lib

/-! ## The connection -/

/-- The most that one system call transfers. -/
def maxRwCount : Nat := 0x7ffff000

/-- The receiving side of a `Socket`. -/
structure Conn where
  segs : List (List UInt8)
  connected : Bool := true
  deriving DecidableEq, Repr

namespace Conn

/-- The bytes that have not been read. -/
def pending (c : Conn) : List UInt8 :=
  c.segs.flatten

/-- `close`. -/
def close (c : Conn) : Conn :=
  { c with connected := false }

/-- `HttpSession::read`: the return value, the bytes stored in the buffer and the
connection. -/
def read (length : Nat) (c : Conn) : Int × List UInt8 × Conn :=
  if c.connected then
    match c.segs with
    | [] => (0, [], c)
    | seg :: segs =>
        let n := min length maxRwCount
        let got := seg.take n
        (got.length, got, { c with segs := if seg.length ≤ n then segs else seg.drop n :: segs })
  else (-1, [], c)

end Conn

/-- The result of a call that takes a connection: a value, a null pointer on a
connection that was closed, or no return (an exception, or a loop that does not
end). -/
inductive Outcome (α : Type) where
  | ok (a : α) (c : Conn)
  | null (c : Conn)
  | noReturn
  deriving DecidableEq, Repr

/-! ## Receiving a request -/

section Session

variable (uriRelaxed : Bool) (buffSize : Nat) (lexicalCast : List UInt8 → Option UInt64)

/-- The loop that reads the header section.  `kept` is what the buffer holds at
its front: the bytes that `execute` has not consumed. -/
def recvLoop : Nat → HttpRequestParser → List UInt8 → Conn →
    Outcome (HttpRequestParser × List UInt8)
  | 0, _, _, _ => .noReturn
  | fuel + 1, parser, kept, c =>
      let (len, got, c) := c.read (buffSize - kept.length)
      if len ≤ 0 then .null c.close
      else
        let data := kept ++ got
        match parser.execute uriRelaxed data with
        | none => .noReturn
        | some (parser, nparse) =>
            if parser.hasError then .null c.close
            else
              let kept := data.drop nparse
              if (kept.length : Int) = toInt buffSize then .null c.close
              else if parser.isFinished ≠ 0 then .ok (parser, kept) c
              else recvLoop fuel parser kept c

/-- The header section of the next request, with the bytes left in the buffer. -/
def recvHeader (c : Conn) : Outcome (HttpRequestParser × List UInt8) :=
  recvLoop uriRelaxed buffSize (c.pending.length + 1) {} [] c

/-- The loop of `readFixSize`, which collects `left` more bytes.  The return value
of `read` is converted to `size_t`, so that only `0` ends it early. -/
def readFixSizeLoop (length : Nat) : Nat → Nat → List UInt8 → Conn → Outcome (Int × List UInt8)
  | fuel, left, buffer, c =>
      if left = 0 then .ok (toInt length, buffer) c
      else
        match fuel with
        | 0 => .noReturn
        | fuel + 1 =>
            let (len, got, c) := c.read left
            if toSizeT len = 0 then .ok (0, buffer) c
            else readFixSizeLoop length fuel (subWord left (toSizeT len)) (buffer ++ got) c

/-- `readFixSize`: the return value and the bytes read. -/
def readFixSize (length : Nat) (c : Conn) : Outcome (Int × List UInt8) :=
  readFixSizeLoop length (c.pending.length + 1) length [] c

/-- The part of `recvRequest` that reads a body of `length` bytes, `data` of which
came with the header section. -/
def recvBody (length : Int) (data : List UInt8) (c : Conn) : Outcome (List UInt8) :=
  let body := data.take length.toNat
  let left := length - data.length
  if 0 < left then
    match readFixSize left.toNat c with
    | .ok (ret, rest) c => if ret ≤ 0 then .null c.close else .ok (body ++ rest) c
    | .null c => .null c
    | .noReturn => .noReturn
  else .ok body c

/-- `setClose(false)` for a request that asks for it. -/
def withKeepAlive (r : HttpRequest) : HttpRequest :=
  if strcasecmpEq (r.getHeader (chars "Connection")) (chars "keep-alive") then
    { r with close := false }
  else r

/-- What `recvRequest` does after the header section, with `length` from
`getContentLength` as an `int64_t`. -/
def recvRest (parser : HttpRequestParser) (length : Int) (data : List UInt8) (c : Conn) :
    Outcome HttpRequest :=
  if 0 < length then
    match recvBody length data c with
    | .ok body c => .ok (withKeepAlive { parser.data with body := body }) c
    | .null c => .null c
    | .noReturn => .noReturn
  else .ok (withKeepAlive parser.data) c

/-- `recvRequest`. -/
def recvRequest (c : Conn) : Outcome HttpRequest :=
  match recvHeader uriRelaxed buffSize c with
  | .null c => .null c
  | .noReturn => .noReturn
  | .ok (parser, data) c =>
      recvRest parser (toInt64 (parser.getContentLength lexicalCast).toNat) data c

/-- Successive calls of `recvRequest` on one connection: the requests and the
connection after the last. -/
def recvRequests : Nat → Conn → Option (List HttpRequest × Conn)
  | 0, c => some ([], c)
  | k + 1, c =>
      match recvRequest uriRelaxed buffSize lexicalCast c with
      | .ok r c => (recvRequests k c).map fun (rs, c) => (r :: rs, c)
      | _ => none

end Session

/-! ## Reading from a connection -/

namespace Conn

theorem read_length_le (n : Nat) (c : Conn) : (c.read n).2.1.length ≤ maxRwCount := by
  rw [read]
  split
  · split
    · exact Nat.zero_le _
    · rw [List.length_take]
      omega
  · exact Nat.zero_le _

/-- What one read brings can be counted by an `int`. -/
theorem length_le_of_read {n : Nat} {c c' : Conn} {got : List UInt8} {len : Int}
    (h : c.read n = (len, got, c')) : got.length ≤ intMax := by
  have hle := c.read_length_le n
  rw [h] at hle
  exact hle.trans (by decide)

/-- No group is empty: an empty group would read as the end of the stream. -/
def Full (c : Conn) : Prop :=
  c.connected = true ∧ ∀ seg ∈ c.segs, seg ≠ []

/-- The groups after `n` bytes have been taken from them. -/
def skipSegs : Nat → List (List UInt8) → List (List UInt8)
  | _, [] => []
  | n, seg :: segs => if n < seg.length then seg.drop n :: segs else skipSegs (n - seg.length) segs

/-- The connection after `n` bytes have been read from it. -/
def skip (n : Nat) (c : Conn) : Conn :=
  { c with segs := skipSegs n c.segs }

theorem skipSegs_flatten (n : Nat) (segs : List (List UInt8)) :
    (skipSegs n segs).flatten = segs.flatten.drop n := by
  induction segs generalizing n with
  | nil => simp [skipSegs]
  | cons seg segs ih =>
      unfold skipSegs
      split
      · rw [List.flatten_cons, List.flatten_cons, List.drop_append_of_le_length (by omega)]
      · have hseg : seg.drop n = [] := List.drop_of_length_le (by omega)
        rw [ih, List.flatten_cons, List.drop_append, hseg, List.nil_append]

theorem skipSegs_skipSegs (a b : Nat) (segs : List (List UInt8)) :
    skipSegs b (skipSegs a segs) = skipSegs (a + b) segs := by
  induction segs generalizing a b with
  | nil => rfl
  | cons seg segs ih =>
      by_cases ha : a < seg.length
      · by_cases hb : a + b < seg.length
        · have : b < seg.length - a := by omega
          simp [skipSegs, ha, hb, this]
        · have h₁ : ¬ b < seg.length - a := by omega
          have h₂ : b - (seg.length - a) = a + b - seg.length := by omega
          simp [skipSegs, ha, hb, h₁, h₂]
      · have hab : ¬ a + b < seg.length := by omega
        have h : a - seg.length + b = a + b - seg.length := by omega
        simp [skipSegs, ha, hab, ih, h]

theorem mem_skipSegs {n : Nat} {segs : List (List UInt8)} (h : ∀ seg ∈ segs, seg ≠ []) :
    ∀ seg ∈ skipSegs n segs, seg ≠ [] := by
  induction segs generalizing n with
  | nil => exact h
  | cons seg segs ih =>
      unfold skipSegs
      split
      · refine List.forall_mem_cons.mpr ⟨fun he => ?_, (List.forall_mem_cons.mp h).2⟩
        have := List.drop_eq_nil_iff.mp he
        omega
      · exact ih (List.forall_mem_cons.mp h).2

theorem skipSegs_zero {segs : List (List UInt8)} (h : ∀ seg ∈ segs, seg ≠ []) :
    skipSegs 0 segs = segs := by
  cases segs with
  | nil => rfl
  | cons seg segs =>
      have : 0 < seg.length := List.length_pos_iff.mpr (h seg List.mem_cons_self)
      rw [skipSegs, if_pos this, List.drop_zero]

theorem pending_skip (n : Nat) (c : Conn) : (c.skip n).pending = c.pending.drop n :=
  skipSegs_flatten n c.segs

theorem skip_skip (a b : Nat) (c : Conn) : (c.skip a).skip b = c.skip (a + b) := by
  simp only [skip, skipSegs_skipSegs]

theorem Full.skip {c : Conn} (h : c.Full) (n : Nat) : (c.skip n).Full :=
  ⟨h.1, mem_skipSegs h.2⟩

theorem skip_zero {c : Conn} (h : c.Full) : c.skip 0 = c := by
  rw [Conn.skip, skipSegs_zero h.2]

/-- A read takes bytes from the front of the stream. -/
theorem read_skip {c : Conn} (h : c.Full) (length : Nat) :
    ∃ got, c.read length = ((got.length : Int), got, c.skip got.length) ∧
      got.length ≤ length ∧ got.length ≤ maxRwCount ∧
      c.pending = got ++ (c.skip got.length).pending ∧
      (0 < length → c.pending ≠ [] → got ≠ []) := by
  obtain ⟨hconn, hsegs⟩ := h
  cases hs : c.segs with
  | nil =>
      refine ⟨[], ?_, Nat.zero_le _, Nat.zero_le _, ?_, fun _ hp => absurd ?_ hp⟩
      · rw [read, if_pos hconn, hs, List.length_nil, skip_zero ⟨hconn, hsegs⟩]
        rfl
      · rw [List.nil_append, List.length_nil, skip_zero ⟨hconn, hsegs⟩]
      · rw [pending, hs, List.flatten_nil]
  | cons seg segs =>
      have hlen : (seg.take (min length maxRwCount)).length =
          min (min length maxRwCount) seg.length := List.length_take
      have hskip : c.skip (seg.take (min length maxRwCount)).length =
          { c with segs := if seg.length ≤ min length maxRwCount then segs
                           else seg.drop (min length maxRwCount) :: segs } := by
        rw [skip, hs, hlen, skipSegs]
        by_cases hle : seg.length ≤ min length maxRwCount
        · rw [if_neg (by omega), if_pos hle, Nat.min_eq_right hle, Nat.sub_self,
            skipSegs_zero fun s hmem => hsegs s (hs ▸ List.mem_cons_of_mem _ hmem)]
        · rw [if_pos (by omega), if_neg hle, Nat.min_eq_left (by omega)]
      refine ⟨seg.take (min length maxRwCount), ?_, by omega, by omega, ?_, fun hpos _ he => ?_⟩
      · rw [hskip, read, if_pos hconn, hs]
      · rw [pending_skip, hlen, pending, hs, List.flatten_cons]
        rcases Nat.le_total (min length maxRwCount) seg.length with hle | hle
        · rw [Nat.min_eq_left hle, List.drop_append_of_le_length hle, ← List.append_assoc,
            List.take_append_drop]
        · rw [Nat.min_eq_right hle, List.take_of_length_le hle, List.drop_left]
      · have hmin : 0 < min length maxRwCount := Nat.lt_min.mpr ⟨hpos, by decide⟩
        exact (List.take_eq_nil_iff.mp he).elim hmin.ne' (hsegs seg (hs ▸ List.mem_cons_self))

end Conn

/-- The reads of `n` bytes or less that bring the next `need` bytes, and the
connection after them. -/
def readsFor (n : Nat) : Nat → Nat → Conn → List (List UInt8) × Conn
  | 0, _, c => ([], c)
  | fuel + 1, need, c =>
      if need = 0 then ([], c)
      else
        let (_, got, c) := c.read n
        let (reads, c) := readsFor n fuel (need - got.length) c
        (got :: reads, c)

end CoLib.Http
