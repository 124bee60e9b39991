/-
# `CoLib.Hook.Sleep` — the hooked `sleep`, `usleep` and `nanosleep`

With hooks enabled these arm a timer that schedules the calling fiber, yield, and
return 0; otherwise they call the original function.  The delay of the timer is in
milliseconds, and each function computes it from its own unit in its own type: a
product of `unsigned int`, a quotient of `useconds_t`, and a sum of `long` that is
assigned to an `int` and divided again.

**Proved here.**  Which durations each of them rounds to the milliseconds it should:
all for `usleep`, those below 4294968 seconds for `sleep`, and only those below one
millisecond for `nanosleep`.
-/
import CoLib.Lib.MachineInt

namespace CoLib

open Lib

/-- A `timespec` with `tv_sec >= 0` and `0 <= tv_nsec < 10^9`. -/
structure Timespec where
  tv_sec : Int
  tv_nsec : Int
  sec_nonneg : 0 ≤ tv_sec
  sec_lt : tv_sec < 2 ^ 63
  nsec_nonneg : 0 ≤ tv_nsec
  nsec_lt : tv_nsec < 1000000000

/-- What such a call does. -/
inductive Nap where
  /-- It calls the original function. -/
  | original
  /-- It calls `addTimer(ms, ..)`, yields and returns 0. -/
  | addTimer (ms : Nat)
  deriving DecidableEq

/-- `sleep(seconds)`. -/
def sleep (hookEnable : Bool) (seconds : UInt32) : Nap :=
  if hookEnable then .addTimer (seconds * 1000).toNat else .original

/-- `usleep(usec)`. -/
def usleep (hookEnable : Bool) (usec : UInt32) : Nap :=
  if hookEnable then .addTimer (usec / 1000).toNat else .original

/-- A result of type `long`; one that does not fit has no defined value. -/
def long (z : Int) : Option Int :=
  if -2 ^ 63 ≤ z ∧ z < 2 ^ 63 then some z else none

/-- `nanosleep(reg, rem)`. -/
def nanosleep (hookEnable : Bool) (reg : Timespec) : Option Nap :=
  if hookEnable then do
    let sec ← long (reg.tv_sec * 1000)
    let sum ← long (sec + (reg.tv_nsec.tdiv 1000).tdiv 1000)
    let timeout_ms := narrow sum
    some (.addTimer (toSizeT (timeout_ms.tdiv 1000)))
  else some .original

/-- A call of one of the three. -/
inductive SleepCall where
  | sleep (seconds : UInt32)
  | usleep (usec : UInt32)
  | nanosleep (reg : Timespec)

namespace SleepCall

/-- The call, with hooks enabled or not. -/
def exec (hookEnable : Bool) : SleepCall → Option Nap
  | .sleep seconds => some (CoLib.sleep hookEnable seconds)
  | .usleep usec => some (CoLib.usleep hookEnable usec)
  | .nanosleep reg => CoLib.nanosleep hookEnable reg

/-- The duration asked for, in nanoseconds. -/
def duration : SleepCall → Nat
  | .sleep seconds => seconds.toNat * 1000000000
  | .usleep usec => usec.toNat * 1000
  | .nanosleep reg => (reg.tv_sec * 1000000000 + reg.tv_nsec).toNat

/-- The delay is the duration, rounded down to milliseconds. -/
def Exact (c : SleepCall) : Prop :=
  c.exec true = some (.addTimer (c.duration / 1000000))

/-- The durations that come out right. -/
def InRange : SleepCall → Prop
  | .sleep seconds => seconds.toNat ≤ 4294967
  | .usleep _ => True
  | .nanosleep reg => reg.tv_sec = 0 ∧ reg.tv_nsec < 1000000

theorem exact_sleep (seconds : UInt32) :
    (SleepCall.sleep seconds).Exact ↔ seconds.toNat ≤ 4294967 := by
  have hmul : (seconds * 1000).toNat = seconds.toNat * 1000 % 2 ^ 32 := UInt32.toNat_mul _ _
  have hlt : seconds.toNat < 2 ^ 32 := seconds.toNat_lt
  have hdiv : seconds.toNat * 1000000000 / 1000000 = seconds.toNat * 1000 := by omega
  simp only [Exact, exec, CoLib.sleep, if_true, duration, Option.some.injEq, Nap.addTimer.injEq,
    hmul, hdiv]
  omega

theorem exact_usleep (usec : UInt32) : (SleepCall.usleep usec).Exact := by
  have hdiv : (usec / 1000).toNat = usec.toNat / 1000 := UInt32.toNat_div _ _
  have hms : usec.toNat * 1000 / 1000000 = usec.toNat / 1000 := by omega
  simp only [Exact, exec, CoLib.usleep, if_true, duration, hdiv, hms]

/-- The second division leaves less than the milliseconds, or a word too large to
be milliseconds. -/
theorem toSizeT_narrow_ne {z : Int} (hpos : 0 < z) (hlt : z < 2 ^ 63) :
    toSizeT ((narrow z).tdiv 1000) ≠ z.toNat := by
  obtain ⟨hlow, hhigh⟩ := narrow_bounds z
  have hmod := narrow_emod z
  by_cases hneg : narrow z < 0
  · have hq : (narrow z).tdiv 1000 = -(-(narrow z) / 1000) := by
      rw [← Int.tdiv_eq_ediv_of_nonneg (by omega), Int.neg_tdiv, neg_neg]
    obtain ⟨k, hk⟩ : ∃ k, k = -(narrow z) / 1000 := ⟨_, rfl⟩
    have hk₀ : 0 ≤ k := by omega
    have hk₁ : k < 2 ^ 31 := by omega
    rw [hq, ← hk, toSizeT]
    omega
  · have hq : (narrow z).tdiv 1000 = narrow z / 1000 := Int.tdiv_eq_ediv_of_nonneg (by omega)
    have hrem : narrow z = z % 2 ^ 32 := by omega
    have hle : narrow z ≤ z := by omega
    rw [hq, toSizeT_nonneg (by omega) (by omega)]
    omega

theorem exact_nanosleep (reg : Timespec) :
    (SleepCall.nanosleep reg).Exact ↔ reg.tv_sec = 0 ∧ reg.tv_nsec < 1000000 := by
  obtain ⟨sec, nsec, hsec, hlt, hnsec, hnlt⟩ := reg
  have hms : (nsec.tdiv 1000).tdiv 1000 = nsec / 1000000 := by
    rw [Int.tdiv_eq_ediv_of_nonneg hnsec, Int.tdiv_eq_ediv_of_nonneg (by omega)]
    omega
  have hdur : (sec * 1000000000 + nsec).toNat / 1000000 = (sec * 1000 + nsec / 1000000).toNat := by
    omega
  by_cases hzero : sec = 0 ∧ nsec < 1000000
  · obtain ⟨rfl, hn⟩ := hzero
    have hnone : nsec / 1000000 = 0 := by omega
    refine iff_of_true ?_ ⟨rfl, hn⟩
    simp only [Exact, exec, CoLib.nanosleep, if_true, duration, hms, hdur, hnone]
    rfl
  · refine iff_of_false ?_ hzero
    intro hexact
    simp only [Exact, exec, CoLib.nanosleep, if_true, duration, hms, hdur] at hexact
    obtain ⟨z₁, hz₁, hexact⟩ := Option.bind_eq_some_iff.mp hexact
    obtain ⟨z₂, hz₂, hexact⟩ := Option.bind_eq_some_iff.mp hexact
    rw [long] at hz₁ hz₂
    split at hz₁
    · obtain rfl := Option.some.inj hz₁
      split at hz₂
      · rename_i hfit
        obtain rfl := Option.some.inj hz₂
        have heq : toSizeT ((narrow (sec * 1000 + nsec / 1000000)).tdiv 1000)
            = (sec * 1000 + nsec / 1000000).toNat := Nap.addTimer.inj (Option.some.inj hexact)
        exact toSizeT_narrow_ne (by omega) hfit.2 heq
      · exact absurd hz₂ (by simp)
    · exact absurd hz₁ (by simp)

/-- **Which sleeps are as long as they should be.**  The delay that a hooked call
passes to `addTimer` is the duration rounded down to milliseconds exactly if the
duration is in the function's range; and calls in range agree on equal
durations. -/
theorem exact_iff (c : SleepCall) :
    (c.Exact ↔ c.InRange) ∧
      ∀ c' : SleepCall, c.InRange → c'.InRange → c.duration = c'.duration →
        c.exec true = c'.exec true := by
  have hall : ∀ c : SleepCall, c.Exact ↔ c.InRange := by
    intro c
    cases c with
    | sleep seconds => exact exact_sleep seconds
    | usleep usec => exact iff_of_true (exact_usleep usec) trivial
    | nanosleep reg => exact exact_nanosleep reg
  refine ⟨hall c, ?_⟩
  intro c' hc hc' heq
  have hexact : c.exec true = _ := (hall c).mpr hc
  have hexact' : c'.exec true = _ := (hall c').mpr hc'
  rw [hexact, hexact', heq]

/-- One and a half seconds. -/
def oneAndAHalf : Timespec where
  tv_sec := 1
  tv_nsec := 500000000
  sec_nonneg := by decide
  sec_lt := by decide
  nsec_nonneg := by decide
  nsec_lt := by decide

/-- `nanosleep` waits for one millisecond where `usleep` waits for 1500. -/
theorem nanosleep_oneAndAHalf :
    (SleepCall.nanosleep oneAndAHalf).exec true = some (.addTimer 1) ∧
    (SleepCall.nanosleep oneAndAHalf).duration / 1000000 = 1500 ∧
    (SleepCall.usleep 1500000).exec true = some (.addTimer 1500) ∧
    (SleepCall.usleep 1500000).duration = (SleepCall.nanosleep oneAndAHalf).duration := by
  decide

end SleepCall

end CoLib
