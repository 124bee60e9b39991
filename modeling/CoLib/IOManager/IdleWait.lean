/-
# `CoLib.IOManager.IdleWait` — how long `idle` lets `epoll_wait` sleep

`idle` asks `getNextTimer` for the time left to the earliest timer, a `uint64_t`,
limits it to `MAX_TIMEOUT`, and passes it to `epoll_wait` as an `int`.  The limit
compares the value as an `int` too, and assigns it to the variable again each time
the wait is interrupted.

**Proved here.**  The timeouts passed are between 0 and 3000 and no larger than
the value, whatever the interruptions, exactly if the low half of the value is
not negative as an `int` or the value stands for an empty set.  Otherwise every
one of them is negative, and `epoll_wait` sleeps without bound.  The time that
passes between interruptions is not taken off.
-/
import CoLib.Timer.NextTimer

namespace CoLib

open Lib

/-- What an `epoll_wait` finds and returns: the time that has passed since
`getNextTimer` read the clock, `rt`, and whether `errno` is `EINTR`. -/
structure EpollWait where
  elapsed : Nat
  rt : Int
  eintr : Bool

namespace IOManager

/-- `MAX_TIMEOUT`. -/
def MAX_TIMEOUT : Nat := 3000

/-- `next_timeout` after the limit. -/
def limitTimeout (nextTimeout : Nat) : Nat :=
  if nextTimeout ≠ wordSize - 1 then
    if toInt nextTimeout > MAX_TIMEOUT then MAX_TIMEOUT else nextTimeout
  else MAX_TIMEOUT

/-- The loop of `idle` around `epoll_wait`: each call, with the timeout passed to
it. -/
def idleWaits (nextTimeout : Nat) (w : EpollWait) : List EpollWait → List (EpollWait × Int)
  | [] => [(w, toInt (limitTimeout nextTimeout))]
  | w' :: ws =>
      let nextTimeout := limitTimeout nextTimeout
      (w, toInt nextTimeout) ::
        if w.rt < 0 ∧ w.eintr = true then idleWaits nextTimeout w' ws else []

/-- The loop after `stopping(next_timeout)`. -/
def idleSleep {Cb : Type} (m : TimerManager Cb) (now : Nat) (w : EpollWait)
    (ws : List EpollWait) : Option (List (EpollWait × Int)) :=
  (m.getNextTimer now).map fun r => idleWaits r.2 w ws

/-! ## The limit -/

/-- The low half of the value is not negative as an `int`. -/
def LowHalf (n : Nat) : Prop :=
  n % 2 ^ 32 < 2 ^ 31

instance (n : Nat) : Decidable (LowHalf n) :=
  inferInstanceAs (Decidable (_ < _))

theorem toInt_lowHalf {n : Nat} (h : LowHalf n) : toInt n = (n % 2 ^ 32 : Nat) := by
  rw [toInt_eq]
  exact if_pos h

theorem toInt_neg {n : Nat} (h : ¬ LowHalf n) : toInt n < 0 :=
  (toInt_neg_iff n).mpr (Nat.le_of_not_lt h)

/-- The timeout of a value whose low half is not negative is that half, limited. -/
theorem toInt_limitTimeout {n : Nat} (h : LowHalf n) :
    toInt (limitTimeout n) = (min 3000 (n % 2 ^ 32) : Nat) := by
  have hint := toInt_lowHalf h
  have hne : n ≠ wordSize - 1 := by
    rintro rfl
    exact absurd h (by decide)
  rw [limitTimeout, if_pos hne]
  by_cases hbig : toInt n > MAX_TIMEOUT
  · rw [if_pos hbig, MAX_TIMEOUT, toInt_ofNat (by decide), Nat.min_eq_left]
    rw [hint, MAX_TIMEOUT] at hbig
    omega
  · rw [if_neg hbig, hint, Nat.min_eq_right]
    rw [hint, MAX_TIMEOUT] at hbig
    omega

theorem toInt_limitTimeout_last : toInt (limitTimeout (wordSize - 1)) = 3000 := by
  have hlimit : limitTimeout (wordSize - 1) = MAX_TIMEOUT := if_neg fun h => h rfl
  rw [hlimit]
  exact toInt_ofNat (by decide)

/-- A negative value passes the limit as it is. -/
theorem limitTimeout_neg {n : Nat} (hne : n ≠ wordSize - 1) (h : ¬ LowHalf n) :
    limitTimeout n = n := by
  have hneg := toInt_neg h
  rw [limitTimeout, if_pos hne, if_neg]
  rw [MAX_TIMEOUT]
  omega

/-- The limit of a limited value gives the same timeout. -/
theorem toInt_limitTimeout_twice (n : Nat) :
    toInt (limitTimeout (limitTimeout n)) = toInt (limitTimeout n) := by
  have hmax : toInt (limitTimeout MAX_TIMEOUT) = (3000 : Nat) := toInt_limitTimeout (by decide)
  by_cases hlast : n = wordSize - 1
  · have hlimit : limitTimeout (wordSize - 1) = MAX_TIMEOUT := if_neg fun h => h rfl
    rw [hlast, toInt_limitTimeout_last, hlimit, hmax]
    rfl
  · rw [limitTimeout.eq_def n, if_pos hlast]
    by_cases hbig : toInt n > MAX_TIMEOUT
    · rw [if_pos hbig, hmax]
      exact (toInt_ofNat (by decide)).symm
    · rw [if_neg hbig, limitTimeout, if_pos hlast, if_neg hbig]

/-! ## The loop -/

/-- Every call is given the timeout of the first, however often it is repeated. -/
theorem idleWaits_timeout (n : Nat) (w : EpollWait) (ws : List EpollWait) :
    ∀ c ∈ idleWaits n w ws, c.2 = toInt (limitTimeout n) := by
  induction ws generalizing n w with
  | nil =>
      intro c hc
      rw [List.mem_singleton.mp hc]
  | cons w' ws ih =>
      intro c hc
      rcases List.mem_cons.mp hc with hc | hc
      · rw [hc]
      · split at hc
        · rw [ih (limitTimeout n) w' c hc, toInt_limitTimeout_twice]
        · exact absurd hc List.not_mem_nil

/-- The first call is made. -/
theorem idleWaits_first (n : Nat) (w : EpollWait) (ws : List EpollWait) :
    ∃ c, c ∈ idleWaits n w ws := by
  cases ws with
  | nil => exact ⟨_, List.mem_singleton_self _⟩
  | cons w' ws => exact ⟨_, List.mem_cons_self⟩

/-- A timeout is between 0 and 3000, and no larger than the time left. -/
def InTime (left : Nat) (timeout : Int) : Prop :=
  0 ≤ timeout ∧ timeout ≤ 3000 ∧ timeout ≤ left

/-- **How long `idle` lets `epoll_wait` sleep.**  Let `n` be the value that
`getNextTimer` returned.  Every timeout passed is between 0 and 3000 and no larger
than `n` exactly if `n` is `~0ull` or its low half is not negative as an `int`.  It
is no larger than what is left of `n` at that call exactly if, besides, the call is
repeated only while the first timeout is left. -/
theorem idleWaits_inTime_iff (n : Nat) (w : EpollWait) (ws : List EpollWait) :
    ((∀ c ∈ idleWaits n w ws, InTime n c.2) ↔ n = wordSize - 1 ∨ LowHalf n) ∧
    ((∀ c ∈ idleWaits n w ws, InTime (if n = wordSize - 1 then n else n - c.1.elapsed) c.2) ↔
      n = wordSize - 1 ∨
        LowHalf n ∧ ∀ c ∈ idleWaits n w ws, min 3000 (n % 2 ^ 32) ≤ n - c.1.elapsed) := by
  obtain ⟨c₀, hc₀⟩ := idleWaits_first n w ws
  have hall := idleWaits_timeout n w ws
  by_cases hlast : n = wordSize - 1
  · have hin : ∀ c ∈ idleWaits n w ws, InTime n c.2 := by
      intro c hc
      rw [hall c hc, hlast, toInt_limitTimeout_last]
      exact ⟨by decide, by decide, by decide⟩
    simp only [if_pos hlast]
    exact ⟨iff_of_true hin (.inl hlast), iff_of_true hin (.inl hlast)⟩
  simp only [hlast, if_false, false_or]
  by_cases hlow : LowHalf n
  · have hmin : min 3000 (n % 2 ^ 32) ≤ 3000 := Nat.min_le_left _ _
    have hmod : min 3000 (n % 2 ^ 32) ≤ n := (Nat.min_le_right _ _).trans (Nat.mod_le _ _)
    have htime : ∀ c ∈ idleWaits n w ws, ∀ left : Nat,
        InTime left c.2 ↔ min 3000 (n % 2 ^ 32) ≤ left := by
      intro c hc left
      rw [InTime, hall c hc, toInt_limitTimeout hlow]
      omega
    constructor
    · exact iff_of_true (fun c hc => (htime c hc n).mpr hmod) hlow
    · constructor
      · exact fun h => ⟨hlow, fun c hc => (htime c hc _).mp (h c hc)⟩
      · exact fun h c hc => (htime c hc _).mpr (h.2 c hc)
  · have hneg : ∀ left : Nat, ¬ InTime left c₀.2 := by
      intro left h
      rw [InTime, hall c₀ hc₀, limitTimeout_neg hlast hlow] at h
      exact absurd h.1 (Int.not_le.mpr (toInt_neg hlow))
    constructor
    · exact iff_of_false (fun h => hneg _ (h c₀ hc₀)) hlow
    · exact iff_of_false (fun h => hneg _ (h c₀ hc₀)) fun h => hlow h.1

/-- While `epoll_wait` sleeps for what is left of a delay that is limited, no
callback is due. -/
theorem idleWaits_not_late {Cb : Type} {m : TimerManager Cb} (h : TimerManager.Ordered m [])
    (hwords : m.Words) {now : Nat} (hroll : (m.detectClockRollover now).2 = false) :
    ∃ n, m.getNextTimer now = some ({ m with tickled := false }, n) ∧
      ∀ w ws, ∀ c ∈ idleWaits n w ws, InTime n c.2 → ∀ later addr, now ≤ later →
        (later : Int) < now + c.2 → m.takesSome later addr = some false := by
  obtain ⟨n, hget, -, -, hdelay⟩ := TimerManager.getNextTimer_agrees h hwords hroll
  refine ⟨n, hget, ?_⟩
  intro w ws c _ hin later addr hle hlt
  have hleft : later < now + n := by
    have := hin.2.2
    omega
  by_cases hts : m.timers = []
  · exact TimerManager.takesSome_nil hts later addr
  · exact (hdelay hts (by omega) addr).1 later hle hleft

/-- A timer due in 2^31 milliseconds. -/
def dueFar : TimerManager Unit :=
  ((TimerManager.create 0).addTimer 2147483648 () false 0 10).1

/-- The timeout passed for it is negative. -/
theorem idleSleep_dueFar :
    dueFar.getNextTimer 0 = some ({ dueFar with tickled := false }, 2147483648) ∧
    ∃ cs, idleSleep dueFar 0 ⟨0, 1, false⟩ [] = some cs ∧ ¬ ∀ c ∈ cs, InTime 2147483648 c.2 := by
  have hfirst : dueFar.heap[0]? = some ⟨false, 2147483648, 2147483648, some (), 10⟩ := rfl
  have hget := TimerManager.getNextTimer_cons (m := dueFar) rfl hfirst
    (by decide : 2147483648 < wordSize) 0
  refine ⟨hget, idleWaits 2147483648 ⟨0, 1, false⟩ [], by rw [idleSleep, hget]; rfl, ?_⟩
  intro hall
  have hin := hall _ (List.mem_singleton_self _)
  have hneg : toInt (limitTimeout 2147483648) = -2147483648 := by decide
  rw [hneg] at hin
  exact absurd hin.1 (by decide)

end IOManager

end CoLib
