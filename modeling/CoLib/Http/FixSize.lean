/-
# `CoLib.Http.FixSize` — `HttpSession::readFixSize` and `writeFixSize`

Both functions are one loop around a call that transfers at most the number of
bytes asked.  The loop stores the call's `int` in a `size_t`, so that its test
`len <= 0` holds for `0` only: after `-1` it goes on with `offset - 1` and
`left + 1`.

The socket is any state machine that answers each call with `-1`, `0` or a
positive count not larger than asked; every sequence of results is the answers
of one.  The loop records its calls, each with the part of the buffer handed
over.

**Proved here.**  Exactly when the loop does what its two counters are for, for
every length and every socket; and that the loop over a connection in
`Session` is this one.
-/
import CoLib.Http.Session

namespace CoLib.Http

open Lib

/-! ## The source -/

/-- `m_socket`, with what its calls do to it and to the world. -/
structure SocketCalls (σ : Type) where
  isConnected : σ → Bool
  recv : Nat → σ → Int × σ
  send : Nat → σ → Int × σ

/-- A call of `read` or `write`: where in the buffer, how many bytes asked, and
the result.  Positions are counted from `buffer` in words of 64 bits. -/
structure Call where
  offset : Nat
  left : Nat
  result : Int
  deriving DecidableEq, Repr

namespace Call

/-- The positions of the bytes transferred. -/
def moved (c : Call) : List Nat :=
  List.range' c.offset c.result.toNat

/-- The part handed over is inside `[buffer, buffer + length)`. -/
def Inside (length : Nat) (c : Call) : Prop :=
  c.offset + c.left ≤ length

instance (length : Nat) (c : Call) : Decidable (c.Inside length) :=
  inferInstanceAs (Decidable (_ ≤ _))

end Call

section Loop

variable {σ : Type} (call : Nat → σ → Int × σ) (length : Nat)

/-- The loop of `readFixSize` and `writeFixSize`: the value returned, the calls
made, and the socket afterwards.  `none`: the fuel did not suffice. -/
def fixSizeLoop : Nat → Nat → Nat → σ → Option (Int × List Call × σ)
  | fuel, offset, left, s =>
      if left = 0 then some (toInt length, [], s)
      else
        match fuel with
        | 0 => none
        | fuel + 1 =>
            let (ret, s) := call left s
            let made := { offset, left, result := ret : Call }
            let len := toSizeT ret
            if len ≤ 0 then some (toInt len, [made], s)
            else
              (fixSizeLoop fuel (addWord offset len) (subWord left len) s).map
                fun (ret, calls, s) => (ret, made :: calls, s)

end Loop

namespace SocketCalls

variable {σ : Type} (sock : SocketCalls σ)

/-- `HttpSession::read`. -/
def read (length : Nat) (s : σ) : Int × σ :=
  if !sock.isConnected s then (-1, s) else sock.recv length s

/-- `HttpSession::write`. -/
def write (length : Nat) (s : σ) : Int × σ :=
  if !sock.isConnected s then (-1, s) else sock.send length s

/-- `HttpSession::readFixSize`. -/
def readFixSize (length fuel : Nat) (s : σ) : Option (Int × List Call × σ) :=
  fixSizeLoop sock.read length fuel 0 length s

/-- `HttpSession::writeFixSize`. -/
def writeFixSize (length fuel : Nat) (s : σ) : Option (Int × List Call × σ) :=
  fixSizeLoop sock.write length fuel 0 length s

end SocketCalls

/-! ## What the loop is for -/

section Spec

variable {σ : Type} {call : Nat → σ → Int × σ} {length : Nat}

/-- A call transfers at most the number of bytes asked, or reports `0` or `-1`. -/
def Answers (call : Nat → σ → Int × σ) : Prop :=
  ∀ n s, -1 ≤ (call n s).1 ∧ (call n s).1 ≤ n

/-- With `left` bytes to go: the results reach `left` first (`none`), or the
first result that is not positive is `r` (`some r`). -/
inductive Brings (call : Nat → σ → Int × σ) : Nat → σ → Option Int → Prop
  | all {s : σ} : Brings call 0 s none
  | stop {left : Nat} {s : σ} : 0 < left → (call left s).1 ≤ 0 →
      Brings call left s (some (call left s).1)
  | more {left : Nat} {s : σ} {out : Option Int} : 0 < left → 0 < (call left s).1 →
      Brings call (left - (call left s).1.toNat) (call left s).2 out → Brings call left s out

/-- What a call of the function with the buffer `[buffer, buffer + length)`
should have done when it returns `ret` after `calls`. -/
def Fulfils (length : Nat) (ret : Int) (calls : List Call) : Option Int → Prop
  | none => ret = length ∧ calls.flatMap Call.moved = List.range length
  | some r => ret = r ∧ ∃ good last, calls = good ++ [last] ∧ last.result = r ∧
      ∀ c ∈ good, 0 < c.result

/-- The function terminates, stays inside the buffer, and returns `length` after
the bytes in order, or else the first result that is not positive. -/
def Exact (fixSize : Nat → σ → Option (Int × List Call × σ)) (call : Nat → σ → Int × σ)
    (length : Nat) (s : σ) : Prop :=
  ∃ fuel ret calls s', fixSize fuel s = some (ret, calls, s') ∧
    (∀ c ∈ calls, c.Inside length) ∧
    ∀ out, Brings call length s out → Fulfils length ret calls out

theorem Brings.exists (h : Answers call) :
    ∀ (left : Nat) (s : σ), ∃ out, Brings call left s out := by
  intro left
  induction left using Nat.strong_induction_on with
  | _ left ih =>
      intro s
      rcases Nat.eq_zero_or_pos left with rfl | hleft
      · exact ⟨none, .all⟩
      · rcases lt_or_ge 0 (call left s).1 with hpos | hstop
        · have hle := (h left s).2
          obtain ⟨out, hout⟩ := ih (left - (call left s).1.toNat) (by omega) (call left s).2
          exact ⟨out, .more hleft hpos hout⟩
        · exact ⟨_, .stop hleft hstop⟩

theorem Brings.unique {left : Nat} {s : σ} {out out' : Option Int} (h : Brings call left s out)
    (h' : Brings call left s out') : out = out' := by
  induction h with
  | all =>
      cases h' with
      | all => rfl
      | stop hpos _ => exact absurd hpos (Nat.lt_irrefl 0)
      | more hpos _ _ => exact absurd hpos (Nat.lt_irrefl 0)
  | stop hpos hstop =>
      cases h' with
      | all => exact absurd hpos (Nat.lt_irrefl 0)
      | stop _ _ => rfl
      | more _ hres _ => exact absurd hres (not_lt.mpr hstop)
  | more hpos hres _ ih =>
      cases h' with
      | all => exact absurd hpos (Nat.lt_irrefl 0)
      | stop _ hstop => exact absurd hres (not_lt.mpr hstop)
      | more _ _ hrest => exact ih hrest

end Spec

/-! ## The loop -/

section Loop

variable {σ : Type} {call : Nat → σ → Int × σ} {length fuel offset left : Nat} {s : σ}

theorem fixSizeLoop_zero (call : Nat → σ → Int × σ) (length fuel offset : Nat) (s : σ) :
    fixSizeLoop call length fuel offset 0 s = some (toInt length, [], s) := by
  cases fuel <;> rw [fixSizeLoop, if_pos rfl]

theorem fixSizeLoop_succ (hleft : 0 < left) (offset : Nat) (s : σ) :
    fixSizeLoop call length (fuel + 1) offset left s =
      if toSizeT (call left s).1 = 0 then
        some (0, [⟨offset, left, (call left s).1⟩], (call left s).2)
      else (fixSizeLoop call length fuel (addWord offset (toSizeT (call left s).1))
        (subWord left (toSizeT (call left s).1)) (call left s).2).map
          fun r => (r.1, ⟨offset, left, (call left s).1⟩ :: r.2.1, r.2.2) := by
  simp only [fixSizeLoop, if_neg hleft.ne', Nat.le_zero]
  split
  · rw [‹toSizeT _ = 0›]
    rfl
  · rfl

/-- More fuel does not change the result. -/
theorem fixSizeLoop_mono {r : Int × List Call × σ}
    (h : fixSizeLoop call length fuel offset left s = some r) :
    fixSizeLoop call length (fuel + 1) offset left s = some r := by
  induction fuel generalizing offset left s r with
  | zero =>
      rcases Nat.eq_zero_or_pos left with rfl | hleft
      · rwa [fixSizeLoop_zero] at h ⊢
      · rw [fixSizeLoop, if_neg hleft.ne'] at h
        cases h
  | succ fuel ih =>
      rcases Nat.eq_zero_or_pos left with rfl | hleft
      · rwa [fixSizeLoop_zero] at h ⊢
      · rw [fixSizeLoop_succ hleft] at h ⊢
        split
        · rwa [if_pos ‹_›] at h
        · rw [if_neg ‹_›] at h
          obtain ⟨r', hr', rfl⟩ := Option.map_eq_some_iff.mp h
          rw [ih hr', Option.map_some]

theorem fixSizeLoop_unique {fuel' : Nat} {r r' : Int × List Call × σ}
    (h : fixSizeLoop call length fuel offset left s = some r)
    (h' : fixSizeLoop call length fuel' offset left s = some r') : r = r' := by
  have hmono : ∀ k, fixSizeLoop call length (fuel + k) offset left s = some r := by
    intro k
    induction k with
    | zero => exact h
    | succ k ih => exact fixSizeLoop_mono ih
  have hmono' : ∀ k, fixSizeLoop call length (fuel' + k) offset left s = some r' := by
    intro k
    induction k with
    | zero => exact h'
    | succ k ih => exact fixSizeLoop_mono ih
  have heq := hmono fuel'
  rw [Nat.add_comm, hmono' fuel, Option.some.injEq] at heq
  exact heq.symm

/-- A positive result moves both counters by what was transferred. -/
theorem counters_pos {n : Nat} {z : Int} (hz : 0 < z) (hle : z ≤ left) (hn : offset + left = n)
    (hword : n < wordSize) :
    addWord offset (toSizeT z) = offset + z.toNat ∧ subWord left (toSizeT z) = left - z.toNat := by
  simp only [wordSize] at hword
  rw [toSizeT_nonneg hz.le (by omega)]
  exact ⟨addWord_of_lt (by rw [wordSize]; omega), subWord_of_le (by rw [wordSize]; omega)
    (by omega)⟩

/-- As long as no call reports `-1` the loop does what it is for, except that
`length` is returned as an `int`. -/
theorem fixSizeLoop_of_brings (ha : Answers call) (hword : length < wordSize) {out : Option Int}
    (h : Brings call left s out) (hout : out ≠ some (-1)) :
    ∀ offset fuel, offset + left = length → left ≤ fuel →
      ∃ ret calls s', fixSizeLoop call length fuel offset left s = some (ret, calls, s') ∧
        (∀ c ∈ calls, c.Inside length) ∧
        (out = none → ret = toInt length ∧ calls.flatMap Call.moved = List.range' offset left) ∧
        ∀ r, out = some r → Fulfils length ret calls (some r) := by
  induction h with
  | all =>
      intro offset fuel _ _
      exact ⟨_, _, _, fixSizeLoop_zero .., by simp, fun _ => ⟨rfl, rfl⟩,
        fun r hr => absurd hr (by simp)⟩
  | @stop left s hleft hstop =>
      intro offset fuel hoff hfuel
      have hzero : (call left s).1 = 0 := by
        have := (ha left s).1
        have : (call left s).1 ≠ -1 := fun heq => hout (congrArg some heq)
        omega
      obtain ⟨fuel, rfl⟩ := Nat.exists_eq_add_one.mpr (hleft.trans_le hfuel)
      refine ⟨0, [⟨offset, left, (call left s).1⟩], (call left s).2, ?_, ?_,
        fun hr => absurd hr (by simp), ?_⟩
      · rw [fixSizeLoop_succ hleft, if_pos (by rw [hzero]; decide)]
      · intro c hc
        rw [List.mem_singleton.mp hc]
        exact hoff.le
      · rintro r hr
        obtain rfl := Option.some.inj hr
        exact ⟨hzero.symm, [], _, rfl, rfl, by simp⟩
  | @more left s out hleft hpos _ ih =>
      intro offset fuel hoff hfuel
      have hle := (ha left s).2
      obtain ⟨fuel, rfl⟩ := Nat.exists_eq_add_one.mpr (hleft.trans_le hfuel)
      obtain ⟨hadd, hsub⟩ := counters_pos hpos hle hoff hword
      have hne : toSizeT (call left s).1 ≠ 0 := by
        rw [toSizeT_nonneg hpos.le (by simp only [wordSize] at hword; omega)]
        omega
      obtain ⟨ret, calls, s', hloop, hin, hnone, hsome⟩ :=
        ih hout (offset + (call left s).1.toNat) fuel (by omega) (by omega)
      refine ⟨ret, ⟨offset, left, (call left s).1⟩ :: calls, s', ?_, ?_, ?_, ?_⟩
      · rw [fixSizeLoop_succ hleft, if_neg hne, hadd, hsub, hloop, Option.map_some]
      · exact List.forall_mem_cons.mpr ⟨hoff.le, hin⟩
      · intro hr
        obtain ⟨hret, hmoved⟩ := hnone hr
        refine ⟨hret, ?_⟩
        rw [List.flatMap_cons, hmoved, Call.moved, List.range'_append_1,
          Nat.add_sub_cancel' (Int.toNat_le.mpr hle)]
      · intro r hr
        obtain ⟨hret, good, last, rfl, hlast, hgood⟩ := hsome r hr
        exact ⟨hret, _ :: good, last, rfl, hlast, List.forall_mem_cons.mpr ⟨hpos, hgood⟩⟩

/-- After `-1` the loop goes on, unless `left + 1` is zero. -/
theorem fixSizeLoop_goes_on (ha : Answers call) (hword : length < wordSize) {out : Option Int}
    (h : Brings call left s out) (hout : out = some (-1)) :
    ∀ offset fuel, offset + left = length →
      ¬ (offset = 0 ∧ left = wordSize - 1 ∧ (call left s).1 = -1) →
      ∀ ret calls s', fixSizeLoop call length fuel offset left s = some (ret, calls, s') →
        ∃ good c rest, calls = good ++ c :: rest ∧ rest ≠ [] ∧ c.result = -1 := by
  induction h with
  | all => cases hout
  | @stop left s hleft hstop =>
      intro offset fuel hoff hnot ret calls s' hloop
      have hres : (call left s).1 = -1 := Option.some.inj hout
      have hmore : 0 < subWord left (toSizeT (call left s).1) := by
        rw [hres, toSizeT_neg_one]
        simp only [hres, and_true, wordSize] at hnot
        simp only [subWord, wordSize] at hword ⊢
        omega
      cases fuel with
      | zero =>
          rw [fixSizeLoop, if_neg hleft.ne'] at hloop
          cases hloop
      | succ fuel =>
          rw [fixSizeLoop_succ hleft, if_neg (by rw [hres, toSizeT_neg_one]; decide)] at hloop
          obtain ⟨⟨ret', calls', s''⟩, hrest, heq⟩ := Option.map_eq_some_iff.mp hloop
          obtain ⟨rfl, hrest'⟩ := Prod.mk.inj heq
          obtain ⟨rfl, rfl⟩ := Prod.mk.inj hrest'
          refine ⟨[], _, calls', rfl, ?_, hres⟩
          rintro rfl
          cases fuel with
          | zero =>
              rw [fixSizeLoop, if_neg hmore.ne'] at hrest
              cases hrest
          | succ fuel =>
              rw [fixSizeLoop_succ hmore] at hrest
              split at hrest
              · cases hrest
              · obtain ⟨r, -, heq⟩ := Option.map_eq_some_iff.mp hrest
                cases heq
  | @more left s out hleft hpos _ ih =>
      intro offset fuel hoff hnot ret calls s' hloop
      have hle := (ha left s).2
      obtain ⟨hadd, hsub⟩ := counters_pos hpos hle hoff hword
      have hne : toSizeT (call left s).1 ≠ 0 := by
        rw [toSizeT_nonneg hpos.le (by simp only [wordSize] at hword; omega)]
        omega
      cases fuel with
      | zero =>
          rw [fixSizeLoop, if_neg hleft.ne'] at hloop
          cases hloop
      | succ fuel =>
          rw [fixSizeLoop_succ hleft, if_neg hne, hadd, hsub] at hloop
          obtain ⟨⟨ret', calls', s''⟩, hrest, heq⟩ := Option.map_eq_some_iff.mp hloop
          obtain ⟨rfl, hrest'⟩ := Prod.mk.inj heq
          obtain ⟨rfl, rfl⟩ := Prod.mk.inj hrest'
          obtain ⟨good, c, rest, rfl, hne', hc⟩ :=
            ih hout _ fuel (by omega) (by omega) _ _ _ hrest
          exact ⟨_ :: good, c, rest, rfl, hne', hc⟩

end Loop

/-! ## When the functions are exact -/

section Exact

variable {σ : Type} {call : Nat → σ → Int × σ} {length : Nat} {s : σ}

/-- `length` is an `int` when the results reach it, and no call before reports
`-1`.  A first call that reports `-1` for the largest length ends the loop, too. -/
def Served (call : Nat → σ → Int × σ) (length : Nat) (s : σ) : Prop :=
  (Brings call length s none → length ≤ intMax) ∧
  (Brings call length s (some (-1)) → length = wordSize - 1 ∧ (call length s).1 = -1)

theorem fixSizeLoop_exact_iff (ha : Answers call) (hword : length < wordSize) (s : σ) :
    Exact (fun fuel s => fixSizeLoop call length fuel 0 length s) call length s ↔
      Served call length s := by
  constructor
  · rintro ⟨fuel, ret, calls, s', hloop, -, hful⟩
    constructor
    · intro hall
      obtain ⟨ret', calls', s'', hloop', -, hnone, -⟩ :=
        fixSizeLoop_of_brings ha hword hall (by simp) 0 length (Nat.zero_add _) le_rfl
      have heq := fixSizeLoop_unique hloop hloop'
      have hret : ret = ret' := congrArg Prod.fst heq
      rw [← toInt_eq_iff, ← (hnone rfl).1, ← hret]
      exact (hful none hall).1
    · intro hstop
      by_contra hnot
      obtain ⟨good, c, rest, rfl, hne, hc⟩ :=
        fixSizeLoop_goes_on ha hword hstop rfl 0 fuel (Nat.zero_add _)
          (fun h => hnot ⟨h.2.1, h.2.2⟩) _ _ _ hloop
      obtain ⟨-, good', last, heq, -, hgood⟩ := hful _ hstop
      -- the call that reports `-1` is not the last one
      have hmem : c ∈ good' := by
        obtain ⟨init, x, rfl⟩ := List.eq_nil_or_concat rest |>.resolve_left hne
        rw [List.concat_eq_append, ← List.cons_append, ← List.append_assoc] at heq
        obtain ⟨rfl, -⟩ := List.append_inj' heq rfl
        simp
      have hpos := hgood c hmem
      rw [hc] at hpos
      exact absurd hpos (by decide)
  · rintro ⟨hreach, hstop⟩
    obtain ⟨out, hout⟩ := Brings.exists ha length s
    by_cases hneg : out = some (-1)
    · subst hneg
      obtain ⟨hlen, hres⟩ := hstop hout
      have hpos : 0 < length := by rw [hlen]; decide
      have hloop : fixSizeLoop call length 1 0 length s
          = some (-1, [⟨0, length, -1⟩], (call length s).2) := by
        rw [fixSizeLoop_succ hpos, if_neg (by rw [hres, toSizeT_neg_one]; decide), hres,
          toSizeT_neg_one, hlen, subWord_of_le (by decide) le_rfl, Nat.sub_self,
          fixSizeLoop_zero, Option.map_some]
        rfl
      refine ⟨1, -1, [⟨0, length, -1⟩], _, hloop, ?_, fun out' hout' => ?_⟩
      · intro c hc
        rw [List.mem_singleton.mp hc]
        exact (Nat.zero_add _).le
      · obtain rfl := hout.unique hout'
        exact ⟨rfl, [], _, rfl, rfl, by simp⟩
    · obtain ⟨ret, calls, s', hloop, hin, hnone, hsome⟩ :=
        fixSizeLoop_of_brings ha hword hout hneg 0 length (Nat.zero_add _) le_rfl
      refine ⟨length, ret, calls, s', hloop, hin, fun out' hout' => ?_⟩
      obtain rfl := hout.unique hout'
      cases out with
      | none =>
          obtain ⟨hret, hmoved⟩ := hnone rfl
          exact ⟨hret.trans (toInt_eq_iff.mpr (hreach hout)),
            hmoved.trans List.range_eq_range'.symm⟩
      | some r => exact hsome r rfl

end Exact

section Socket

variable {σ : Type} {sock : SocketCalls σ} {length : Nat}

theorem answers_read (h : Answers sock.recv) : Answers sock.read := by
  intro n s
  rw [SocketCalls.read]
  split
  · exact ⟨le_rfl, by omega⟩
  · exact h n s

theorem answers_write (h : Answers sock.send) : Answers sock.write := by
  intro n s
  rw [SocketCalls.write]
  split
  · exact ⟨le_rfl, by omega⟩
  · exact h n s

/-- **When `readFixSize` and `writeFixSize` do what they are for.**  For every
socket and every length: they terminate, stay inside the buffer, and return
`length` after all bytes in order, or else the first result that is not
positive, exactly if that result is not `-1` and `length` is an `int` when it is
reached (the largest length of all apart, where `-1` at once ends the loop). -/
theorem fixSize_exact_iff (hrecv : Answers sock.recv) (hsend : Answers sock.send)
    (hword : length < wordSize) (s : σ) :
    (Exact (sock.readFixSize length) sock.read length s ↔ Served sock.read length s) ∧
    (Exact (sock.writeFixSize length) sock.write length s ↔ Served sock.write length s) :=
  ⟨fixSizeLoop_exact_iff (answers_read hrecv) hword s,
    fixSizeLoop_exact_iff (answers_write hsend) hword s⟩

/-- A socket that transfers four bytes at a time; its state counts the calls. -/
def fourAtATime : SocketCalls Nat :=
  { isConnected := fun _ => true
    recv := fun n k => ((min n 4 : Nat), k + 1)
    send := fun n k => ((min n 4 : Nat), k + 1) }

theorem fixSize_exact_iff_fourAtATime :
    Exact (fourAtATime.readFixSize 10) fourAtATime.read 10 0 ∧
      Exact (fourAtATime.writeFixSize 10) fourAtATime.write 10 0 := by
  have ha : Answers fourAtATime.recv := by
    intro n s
    simp only [fourAtATime]
    omega
  have hserved : ∀ call : Nat → Nat → Int × Nat, (∀ n k, call n k = fourAtATime.recv n k) →
      Served call 10 0 := by
    intro call hcall
    have hall : Brings call 10 0 none := by
      refine .more (by decide) (by rw [hcall]; decide) ?_
      rw [hcall]
      refine .more (by decide) (by rw [hcall]; decide) ?_
      rw [hcall]
      refine .more (by decide) (by rw [hcall]; decide) ?_
      rw [hcall]
      exact .all
    exact ⟨fun _ => by decide, fun hneg => by cases hall.unique hneg⟩
  obtain ⟨hread, hwrite⟩ := fixSize_exact_iff ha ha (by decide : 10 < wordSize) 0
  exact ⟨hread.mpr (hserved _ fun _ _ => rfl), hwrite.mpr (hserved _ fun _ _ => rfl)⟩

/-- A socket whose first call fails and whose second transfers all that is
asked. -/
def failsOnce : SocketCalls Nat :=
  { isConnected := fun _ => true
    recv := fun n k => (if k = 0 then -1 else n, k + 1)
    send := fun n k => (if k = 0 then -1 else n, k + 1) }

/-- **The byte before the buffer.**  After `-1` the second call is handed eleven
bytes from `buffer - 1` on; they are transferred and `length` is returned. -/
theorem readFixSize_after_error :
    Brings failsOnce.read 10 0 (some (-1)) ∧
      failsOnce.readFixSize 10 2 0
        = some (10, [⟨0, 10, -1⟩, ⟨wordSize - 1, 11, 11⟩], 2) ∧
      ¬ Exact (failsOnce.readFixSize 10) failsOnce.read 10 0 := by
  have hloop : failsOnce.readFixSize 10 2 0
      = some (10, [⟨0, 10, -1⟩, ⟨wordSize - 1, 11, 11⟩], 2) := by decide +kernel
  have hstop : Brings failsOnce.read 10 0 (some (failsOnce.read 10 0).1) :=
    .stop (by decide) (by decide)
  refine ⟨hstop, hloop, ?_⟩
  rintro ⟨fuel, ret, calls, s', hrun, hin, -⟩
  have heq := fixSizeLoop_unique hrun hloop
  have hcalls : calls = [⟨0, 10, -1⟩, ⟨wordSize - 1, 11, 11⟩] := congrArg (·.2.1) heq
  have hout := hin ⟨wordSize - 1, 11, 11⟩ (by rw [hcalls]; simp)
  exact absurd hout (by decide)

end Socket

/-! ## The loop over a connection -/

/-- `read` on a connection, without the bytes. -/
def Conn.readCall (n : Nat) (c : Conn) : Int × Conn :=
  ((c.read n).1, (c.read n).2.2)

/-- The loop of `Session`, which collects the bytes, is the loop above over
`read` on the connection. -/
theorem readFixSizeLoop_eq_fixSizeLoop (length : Nat) :
    ∀ (fuel offset left : Nat) (buffer : List UInt8) (c : Conn), ∃ bytes,
      readFixSizeLoop length fuel left buffer c =
      match fixSizeLoop Conn.readCall length fuel offset left c with
      | none => .noReturn
      | some (ret, _, c) => .ok (ret, buffer ++ bytes) c := by
  intro fuel
  induction fuel with
  | zero =>
      intro offset left buffer c
      rcases Nat.eq_zero_or_pos left with rfl | hleft
      · exact ⟨[], by simp [readFixSizeLoop, fixSizeLoop]⟩
      · exact ⟨[], by simp [readFixSizeLoop, fixSizeLoop, hleft.ne']⟩
  | succ fuel ih =>
      intro offset left buffer c
      rcases Nat.eq_zero_or_pos left with rfl | hleft
      · exact ⟨[], by simp [readFixSizeLoop, fixSizeLoop]⟩
      · obtain ⟨len, got, c', hread⟩ : ∃ len got c', c.read left = (len, got, c') := ⟨_, _, _, rfl⟩
        have hcall : c.readCall left = (len, c') := by rw [Conn.readCall, hread]
        rw [readFixSizeLoop, if_neg hleft.ne', fixSizeLoop_succ hleft, hcall]
        simp only [hread]
        split
        · exact ⟨[], by rw [List.append_nil]⟩
        · obtain ⟨bytes, hbytes⟩ := ih (addWord offset (toSizeT len))
            (subWord left (toSizeT len)) (buffer ++ got) c'
          refine ⟨got ++ bytes, ?_⟩
          rw [hbytes, ← List.append_assoc]
          cases fixSizeLoop Conn.readCall length fuel (addWord offset (toSizeT len))
              (subWord left (toSizeT len)) c' with
          | none => rfl
          | some r => rfl

end CoLib.Http
