/-
# `CoLib.ByteArray.Counts` — the counts of the calls, through `int` and `size_t`

The counters of a `ByteArray` are `size_t`.  `write` and `read` take an `int` and
compare it with them; the other operations take a `size_t`, or a string, and hand its
size on as an `int`.  So a negative count is a huge one where it is compared, and a
count above `INT_MAX` is another count.

**Proved here.** `Call.meets_iff_kept`: for every reachable buffer and every call, when the
call adds or consumes what it is asked to.
-/
import CoLib.ByteArray.ZeroCopy

namespace CoLib.ByteArray

open Lib Heap

/-! ## What a call is asked to do -/

/-- The count that a call is given. -/
inductive Asked where
  | add (n : Int)
  | consume (n : Int)

/-- What the call has to do: the count is added or consumed, as far as there are bytes,
and a negative one leaves the buffer as it is. -/
def Asked.Done (s s' : ByteArray) : Asked → Prop
  | .add n => s'.dataSize = s.dataSize + n.toNat ∧ (n < 0 → s' = s)
  | .consume n => s'.dataSize + min n.toNat s.dataSize = s.dataSize ∧ (n < 0 → s' = s)

namespace Call

/-- What is asked of the calls that are given a count. -/
def asked : Call → Option Asked
  | .write _ size => some (.add size)
  | .writeString buf => some (.add buf.length)
  | .updateNullWrite wSize => some (.add wSize)
  | .read _ size => some (.consume size)
  | .readString size => some (.consume size)
  | .updateNullRead rSize => some (.consume rSize)
  | .getWriteBuffers .. | .getReadBuffers .. | .updateCapacity _ | .store .. => none

/-- The state after the call; the string-returning `read` copies to a buffer of its own. -/
def execChars (garbage : Nat → UInt8) (s : ByteArray) : Call → Option ByteArray
  | .readString size => (s.readChars garbage size).map Prod.fst
  | c => c.exec s

/-- The call ends, and does what it is asked to. -/
def Meets (garbage : Nat → UInt8) (s : ByteArray) (c : Call) : Prop :=
  ∀ a, c.asked = some a → ∃ s', c.execChars garbage s = some s' ∧ a.Done s s'

end Call

/-- A `size_t` count that `read` understands although it becomes an `int`: either it is
one, or there is no more to read than its low half says (all there can be in an `int`,
if that half is negative). -/
def ReadKept (dataSize n : Nat) : Prop :=
  n ≤ intMax ∨ (dataSize : Int) ≤ if 0 ≤ toInt n then toInt n else intMax

/-- `new char[size + 1]` gives a buffer, in which `r` bytes have room. -/
structure CharsFit (r size : Nat) : Prop where
  allocated : addWord size 1 ≤ ptrdiffMax
  room : r ≤ addWord size 1

instance (r size : Nat) : Decidable (CharsFit r size) :=
  decidable_of_iff (addWord size 1 ≤ ptrdiffMax ∧ r ≤ addWord size 1)
    ⟨fun h => ⟨h.1, h.2⟩, fun h => ⟨h.allocated, h.room⟩⟩

/-- The calls whose count survives its conversions, and lets the buffer of the
string-returning `read` be allocated. -/
def Call.Kept (s : ByteArray) : Call → Prop
  | .write _ size => 0 ≤ size ∨ toSizeT size < s.capacity
  | .writeString buf => buf.length ≤ intMax
  | .updateNullWrite wSize => wSize ≤ intMax
  | .read _ size => 0 ≤ size ∨ toSizeT size < s.dataSize ∨ toInt s.dataSize ≤ 0
  | .readString size => ReadKept s.dataSize size ∧ CharsFit (min size s.dataSize) size
  | .updateNullRead rSize => ReadKept s.dataSize rSize
  | .getWriteBuffers .. | .getReadBuffers .. | .updateCapacity _ | .store .. => True

/-! ## Reading -/

section Read

variable {s s' : ByteArray} {front back : List Addr} {size : Int} {n : Nat}

theorem readSize_of_nonneg (hpos : 0 ≤ size) (hsize : size ≤ intMax) :
    readSize s size = min size.toNat s.dataSize := by
  simp only [intMax] at hsize
  rw [readSize, toSizeT_nonneg hpos (by omega)]
  split
  · omega
  · rename_i hge
    rw [toInt_ofNat (by simp only [intMax]; omega)]
    omega

/-- A negative count is above the data size, unless there is an unthinkable amount. -/
theorem readSize_of_neg (hneg : size < 0) :
    readSize s size = 0 ↔ toSizeT size < s.dataSize ∨ toInt s.dataSize ≤ 0 := by
  rw [readSize]
  split
  · rename_i hlt
    exact iff_of_true (by omega) (.inl hlt)
  · rename_i hge
    rw [Int.toNat_eq_zero, or_iff_right hge]

theorem readSize_toInt_iff :
    readSize s (toInt n) = min n s.dataSize ↔ ReadKept s.dataSize n := by
  rw [ReadKept]
  by_cases hn : n ≤ intMax
  · rw [toInt_ofNat hn, readSize_of_nonneg (by omega) (by omega), Int.toNat_natCast]
    exact iff_of_true rfl (.inl hn)
  · rw [or_iff_right hn]
    obtain ⟨hle, hlow⟩ := toInt_le n
    by_cases hpos : 0 ≤ toInt n
    · -- the low half is smaller than the count
      rw [readSize_of_nonneg hpos hle, if_pos hpos]
      omega
    · rw [if_neg hpos]
      constructor
      · intro heq
        have hbound : readSize s (toInt n) ≤ intMax := by
          rw [readSize]
          split
          · omega
          · have := (toInt_le s.dataSize).1
            omega
        omega
      · intro hdata
        have hnot : ¬toSizeT (toInt n) < s.dataSize := by
          have hlarge : -2 ^ 31 ≤ toInt n := Int.le_bmod (Nat.two_pow_pos 32)
          rw [toSizeT]
          simp only [intMax] at hdata
          omega
        rw [readSize, if_neg hnot, toInt_ofNat (by omega)]
        omega

/-- Reading nothing leaves the buffer as it is. -/
theorem read_nothing {buf : Bool} (hzero : readSize s size = 0) :
    s.read buf size = some (s, 0, []) := by
  rw [read, ← readSize, hzero]
  simp only [Option.bind_eq_bind, readLoop_zero, Option.bind_some]
  rfl

theorem Rep.consume_done_iff (h : Rep s front back) (buf : Bool) (hsize : size ≤ intMax) :
    (∃ s', (s.read buf size).map Prod.fst = some s' ∧ (Asked.consume size).Done s s') ↔
      0 ≤ size ∨ toSizeT size < s.dataSize ∨ toInt s.dataSize ≤ 0 := by
  obtain ⟨s₁, -, -, hread, hdata, -⟩ := h.read_eq buf hsize
  have hle := readSize_le (s := s) hsize
  rw [hread]
  by_cases hpos : 0 ≤ size
  · refine iff_of_true ⟨s₁, rfl, ?_, fun hneg => by omega⟩ (.inl hpos)
    rw [hdata]
    have := readSize_of_nonneg (s := s) hpos hsize
    omega
  · rw [or_iff_right hpos, ← readSize_of_neg (by omega)]
    constructor
    · rintro ⟨s', hs', hdone⟩
      obtain rfl := Option.some.inj hs'
      have hsame : s₁ = s := hdone.2 (by omega)
      rw [hsame] at hdata
      omega
    · intro hzero
      rw [read_nothing hzero] at hread
      obtain rfl : s = s₁ := congrArg Prod.fst (Option.some.inj hread)
      exact ⟨s, rfl, by omega, fun _ => rfl⟩

/-- A count that `read` is given as a `size_t`. -/
theorem Rep.consume_word_iff (h : Rep s front back) (buf : Bool) :
    (∃ s', (s.read buf (toInt n)).map Prod.fst = some s' ∧ (Asked.consume n).Done s s') ↔
      ReadKept s.dataSize n := by
  obtain ⟨s₁, -, -, hread, hdata, -⟩ := h.read_eq buf (toInt_le n).1
  have hle := readSize_le (s := s) (toInt_le n).1
  rw [hread, ← readSize_toInt_iff]
  constructor
  · rintro ⟨s', hs', hdone, -⟩
    obtain rfl : s₁ = s' := Option.some.inj hs'
    rw [Int.toNat_natCast] at hdone
    omega
  · intro heq
    refine ⟨s₁, rfl, ?_, fun hneg => by omega⟩
    rw [Int.toNat_natCast]
    omega

theorem readChars_of_read {garbage : Nat → UInt8} {r : Nat} {out : List UInt8}
    (hread : s.read true (toInt n) = some (s', r, out)) (hout : out.length = r) :
    s.readChars garbage n = if CharsFit r n then
        some (s', out ++ (List.range' r (addWord n 1 - r)).map garbage)
      else none := by
  subst hout
  rw [readChars]
  by_cases hbig : ptrdiffMax < addWord n 1
  · rw [if_pos hbig, if_neg fun h => absurd h.allocated (Nat.not_le_of_lt hbig)]
  · rw [if_neg hbig, hread]
    by_cases hroom : out.length ≤ addWord n 1
    · rw [if_pos ⟨Nat.le_of_not_lt hbig, hroom⟩]
      exact if_pos hroom
    · rw [if_neg fun h => hroom h.room]
      exact if_neg hroom

/-- The string-returning `read`, up to its string. -/
theorem Rep.readChars_eq (h : Rep s front back) (garbage : Nat → UInt8) (n : Nat) :
    ∃ s' front' back', s.readChars garbage n
        = (if CharsFit (readSize s (toInt n)) n then
            some (s', (window s (front ++ back)).take (readSize s (toInt n)) ++
              (List.range' (readSize s (toInt n)) (addWord n 1 - readSize s (toInt n))).map garbage)
          else none) ∧
      s'.dataSize = s.dataSize - readSize s (toInt n) ∧ Rep s' front' back' ∧
      window s' (front' ++ back') = (window s (front ++ back)).drop (readSize s (toInt n)) := by
  obtain ⟨s', front', back', hread, hrest⟩ := h.read_eq true (toInt_le n).1
  rw [if_pos rfl] at hread
  have hlen : ((window s (front ++ back)).take (readSize s (toInt n))).length
      = readSize s (toInt n) := by
    rw [List.length_take, h.length_window, min_eq_left (readSize_le (toInt_le n).1)]
  exact ⟨s', front', back', readChars_of_read hread hlen, hrest⟩

theorem Rep.readString_done_iff (h : Rep s front back) (garbage : Nat → UInt8) :
    (∃ s', (s.readChars garbage n).map Prod.fst = some s' ∧ (Asked.consume n).Done s s') ↔
      ReadKept s.dataSize n ∧ CharsFit (min n s.dataSize) n := by
  obtain ⟨s₁, -, -, hread, hdata, -⟩ := h.readChars_eq garbage n
  have hle := readSize_le (s := s) (toInt_le n).1
  rw [hread, ← readSize_toInt_iff]
  constructor
  · rintro ⟨s', hs', hdone, -⟩
    rw [Int.toNat_natCast] at hdone
    split at hs'
    · rename_i hfit
      obtain rfl : s₁ = s' := Option.some.inj hs'
      have heq : readSize s (toInt n) = min n s.dataSize := by omega
      exact ⟨heq, heq ▸ hfit⟩
    · cases hs'
  · rintro ⟨heq, hfit⟩
    rw [if_pos (heq ▸ hfit)]
    refine ⟨s₁, rfl, ?_, fun hneg => by omega⟩
    rw [Int.toNat_natCast]
    omega

end Read

/-! ## Writing -/

section Write

variable {s s' : ByteArray} {front back : List Addr} {buf : Option (List UInt8)} {size : Int}
  {n : Nat}

theorem Rep.updateCapacity_same_iff (h : Rep s front back) (n : Nat) :
    s.updateCapacity n = some s ↔ n < s.capacity := by
  refine ⟨fun hsame => ?_, updateCapacity_of_lt⟩
  obtain ⟨s₁, -, hgrow, -, -, hroom, -⟩ := updateCapacity_spec h n
  obtain rfl := Option.some.inj (hsame.symm.trans hgrow)
  exact hroom

theorem Rep.add_done_iff (h : Rep s front back) (hsize : size ≤ intMax)
    (hbuf : ∀ bs, buf = some bs → size.toNat ≤ bs.length) :
    (∃ s', (s.write buf size).map Prod.fst = some s' ∧ (Asked.add size).Done s s') ↔
      0 ≤ size ∨ toSizeT size < s.capacity := by
  obtain ⟨s₁, s₂, hgrow, hwrite, hdata, hnone, -⟩ := h.write_eq hsize hbuf
  rw [hwrite]
  by_cases hpos : 0 ≤ size
  · exact iff_of_true ⟨s₂, rfl, hdata, fun hneg => by omega⟩ (.inl hpos)
  · rw [or_iff_right hpos, ← h.updateCapacity_same_iff, hgrow]
    obtain rfl := hnone (by omega)
    constructor
    · rintro ⟨s', hs', hdone⟩
      obtain rfl : s₂ = s' := Option.some.inj hs'
      rw [hdone.2 (by omega)]
    · intro hsame
      obtain rfl : s₂ = s := Option.some.inj hsame
      exact ⟨s₂, rfl, hdata, fun _ => rfl⟩

/-- A count that `write` is given as a `size_t`. -/
theorem Rep.add_word_iff (h : Rep s front back)
    (hbuf : ∀ bs, buf = some bs → n ≤ bs.length) :
    (∃ s', (s.write buf (toInt n)).map Prod.fst = some s' ∧ (Asked.add n).Done s s') ↔
      n ≤ intMax := by
  obtain ⟨hle, hlow⟩ := toInt_le n
  obtain ⟨-, s₂, -, hwrite, hdata, -⟩ :=
    h.write_eq hle fun bs hbs => hlow.trans (hbuf bs hbs)
  rw [hwrite]
  constructor
  · rintro ⟨s', hs', hdone, -⟩
    obtain rfl : s₂ = s' := Option.some.inj hs'
    rw [Int.toNat_natCast] at hdone
    omega
  · intro hn
    refine ⟨s₂, rfl, ?_, fun hneg => by omega⟩
    rw [hdata, toInt_ofNat hn]

/-- `m_capacity` as a `size_t`, after some rounds of the loop of `updateCapacity`. -/
def capacityAfter (s : ByteArray) (rounds : Nat) : Nat :=
  (s.capacity + rounds * s.baseSize) % wordSize

/-- For the count -1, `while (size >= m_capacity)` goes on after any number of rounds. -/
theorem capacityAfter_le (s : ByteArray) (rounds : Nat) :
    s.capacityAfter rounds ≤ toSizeT (-1) := by
  rw [toSizeT_neg_one]
  exact Nat.le_pred_of_lt (Nat.mod_lt _ (by decide))

end Write

/-! ## All calls -/

section Meets

variable {s : ByteArray} {garbage : Nat → UInt8}

/-- A call of a reachable buffer adds or consumes what it is asked to exactly if its count
survives its conversions, and the buffer of the string-returning `read` can be allocated. -/
theorem Call.meets_iff_kept (h : Reachable s) {c : Call} (hc : c.InRange) :
    c.Meets garbage s ↔ c.Kept s := by
  obtain ⟨front, back, hrep⟩ := h.rep
  have hask : ∀ {a : Asked}, c.asked = some a → (c.Meets garbage s ↔
      ∃ s', c.execChars garbage s = some s' ∧ a.Done s s') := by
    intro a ha
    refine ⟨fun hmeets => hmeets a ha, fun hdone a' ha' => ?_⟩
    obtain rfl := Option.some.inj (ha.symm.trans ha')
    exact hdone
  cases c with
  | write buf size => exact (hask rfl).trans (hrep.add_done_iff hc.1 hc.2)
  | writeString buf =>
      refine (hask rfl).trans (hrep.add_word_iff ?_)
      rintro bs ⟨⟩
      exact le_refl _
  | updateNullWrite wSize =>
      exact (hask rfl).trans (hrep.add_word_iff fun bs hbs => by cases hbs)
  | read buf size => exact (hask rfl).trans (hrep.consume_done_iff buf hc)
  | readString size => exact (hask rfl).trans (hrep.readString_done_iff garbage)
  | updateNullRead rSize => exact (hask rfl).trans (hrep.consume_word_iff false)
  | getWriteBuffers | getReadBuffers | updateCapacity | store =>
      exact iff_of_true (fun a ha => by cases ha) trivial

/-- Three bytes in a cell of four. -/
theorem reachable_three : ∃ s, Reachable s ∧ s.dataSize = 3 ∧ unread s = some [1, 2, 3] := by
  have h : ((create (fun _ _ => 0) 4 0).bind fun s₀ =>
      run (guarded Call.exec fun _ c => c.InRange) s₀ [.writeString [1, 2, 3]]).any
      (fun s => decide (s.dataSize = 3 ∧ unread s = some [1, 2, 3])) = true := by decide +kernel
  obtain ⟨s, hs, hsize⟩ := Option.any_eq_true _ _ |>.mp h
  obtain ⟨s₀, hcreate, hrun⟩ := Option.bind_eq_some_iff.mp hs
  exact ⟨s, ⟨_, _, _, s₀, hcreate, run_reach _ hrun⟩, of_decide_eq_true hsize⟩

/-- A count that is not an `int`, with fewer bytes than that to read. -/
theorem Call.meets_iff_kept_three :
    ∃ s, Reachable s ∧ (Call.updateNullRead (2 ^ 31)).Meets (fun _ => 0) s := by
  obtain ⟨s, hreach, hsize, -⟩ := reachable_three
  refine ⟨s, hreach,
    (Call.meets_iff_kept (c := .updateNullRead (2 ^ 31)) hreach trivial).mpr (.inr ?_)⟩
  rw [hsize]
  decide

/-- A failed `recv` returns -1.  Given to `read` it consumes everything; given to
`updateNullWrite` it lets the buffer grow for ever. -/
theorem Call.not_meets_neg_one :
    ∃ s, Reachable s ∧ ¬(Call.read true (-1)).Meets (fun _ => 0) s ∧
      ¬(Call.updateNullWrite (wordSize - 1)).Meets (fun _ => 0) s ∧
      toInt (wordSize - 1) = -1 ∧ ∀ rounds, s.capacityAfter rounds ≤ toSizeT (-1) := by
  obtain ⟨s, hreach, hsize, -⟩ := reachable_three
  obtain ⟨front, back, hrep⟩ := hreach.rep
  refine ⟨s, hreach, fun hmeets => ?_, fun hmeets => ?_, by decide, capacityAfter_le s⟩
  · have hkept := (hrep.consume_done_iff true (by decide)).mp (hmeets _ rfl)
    rw [hsize] at hkept
    exact absurd hkept (by decide)
  · have hkept := (hrep.add_word_iff fun bs hbs => by cases hbs).mp (hmeets _ rfl)
    exact absurd hkept (by decide)

end Meets

end CoLib.ByteArray
