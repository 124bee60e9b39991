/-
# `CoLib.Lib.MachineInt` — conversions between machine integers

Unsigned words are `Nat` and signed words are `Int`; the conversions that can
change a value are written out.  `toSizeT` is the conversion of a signed value
to a 64-bit unsigned word, `toInt` that of an unsigned value to a 32-bit signed
word, `narrow` that of a signed value.
-/
import Mathlib

namespace CoLib.Lib

/-- Number of values of a 64-bit unsigned word. -/
def wordSize : Nat := 2 ^ 64

/-- Largest value of a 32-bit signed word. -/
def intMax : Nat := 2 ^ 31 - 1

/-- A signed value, converted to a 64-bit unsigned word. -/
def toSizeT (z : Int) : Nat := (z % 2 ^ 64).toNat

/-- An unsigned value, converted to a 32-bit signed word. -/
def toInt (n : Nat) : Int := Int.bmod n (2 ^ 32)

/-- A signed value, converted to a 32-bit signed word. -/
def narrow (z : Int) : Int := Int.bmod z (2 ^ 32)

/-- An unsigned value, converted to a 64-bit signed word. -/
def toInt64 (n : Nat) : Int := Int.bmod n (2 ^ 64)

/-- `a + b` in a 64-bit unsigned word. -/
def addWord (a b : Nat) : Nat := (a + b) % wordSize

/-- `a - b` in a 64-bit unsigned word. -/
def subWord (a b : Nat) : Nat := (a + (wordSize - b % wordSize)) % wordSize

@[simp] theorem toSizeT_ofNat {n : Nat} (h : n ≤ intMax) : toSizeT (n : Int) = n := by
  simp only [intMax] at h
  have : (n : Int) % 2 ^ 64 = n := Int.emod_eq_of_lt (by omega) (by omega)
  rw [toSizeT, this, Int.toNat_natCast]

@[simp] theorem toInt_ofNat {n : Nat} (h : n ≤ intMax) : toInt n = n := by
  simp only [intMax] at h
  exact Int.bmod_eq_of_le (by omega) (by omega)

/-- Exactly the words up to `intMax` keep their value as an `int`. -/
theorem toInt_eq_iff {n : Nat} : toInt n = n ↔ n ≤ intMax := by
  refine ⟨fun heq => ?_, toInt_ofNat⟩
  have hlt : toInt n < 2147483648 := Int.bmod_lt (Nat.two_pow_pos 32)
  rw [heq] at hlt
  simp only [intMax]
  omega

/-- The low half of an unsigned value, read as an `int`. -/
theorem toInt_eq (n : Nat) : toInt n =
    if n % 2 ^ 32 < 2 ^ 31 then ((n % 2 ^ 32 : Nat) : Int)
    else ((n % 2 ^ 32 : Nat) : Int) - 2 ^ 32 := by
  have hdef : toInt n = if (n : Int) % (2 ^ 32 : Nat) < ((2 ^ 32 : Nat) + 1) / 2
      then (n : Int) % (2 ^ 32 : Nat) else (n : Int) % (2 ^ 32 : Nat) - (2 ^ 32 : Nat) :=
    Int.bmod_def _ _
  rw [hdef]
  by_cases h : n % 2 ^ 32 < 2 ^ 31
  · rw [if_pos h, if_pos (by omega)]
    omega
  · rw [if_neg h, if_neg (by omega)]
    omega

theorem toInt_neg_iff (n : Nat) : toInt n < 0 ↔ 2 ^ 31 ≤ n % 2 ^ 32 := by
  rw [toInt_eq]
  split <;> omega

theorem narrow_of_lt {z : Int} (hlow : -2 ^ 31 ≤ z) (hhigh : z < 2 ^ 31) : narrow z = z :=
  Int.bmod_eq_of_le (by omega) (by omega)

/-- A conversion to `int` keeps the value modulo 2^32. -/
theorem narrow_emod (z : Int) : narrow z % 2 ^ 32 = z % 2 ^ 32 :=
  Int.bmod_emod

theorem narrow_bounds (z : Int) : -2 ^ 31 ≤ narrow z ∧ narrow z < 2 ^ 31 :=
  ⟨Int.le_bmod (Nat.two_pow_pos 32), Int.bmod_lt (Nat.two_pow_pos 32)⟩

/-- Exactly the values of an `int` are kept. -/
theorem narrow_eq_iff {z : Int} : narrow z = z ↔ -2 ^ 31 ≤ z ∧ z < 2 ^ 31 := by
  refine ⟨fun heq => ?_, fun h => narrow_of_lt h.1 h.2⟩
  rw [← heq]
  exact narrow_bounds z

/-- A signed value that is stored in an unsigned word and read back. -/
theorem toInt64_toSizeT {z : Int} (hlow : -2 ^ 63 ≤ z) (hhigh : z < 2 ^ 63) :
    toInt64 (toSizeT z) = z := by
  have hmod : (toSizeT z : Int) = z % 2 ^ 64 := Int.toNat_of_nonneg (by omega)
  have hread : toInt64 (toSizeT z) = Int.bmod (z % 2 ^ 64) (2 ^ 64) :=
    congrArg (Int.bmod · (2 ^ 64)) hmod
  rw [hread]
  exact (Int.emod_bmod z (2 ^ 64)).trans (Int.bmod_eq_of_le (by omega) (by omega))

theorem toSizeT_nonneg {z : Int} (h₀ : 0 ≤ z) (h : z < 2 ^ 64) : toSizeT z = z.toNat := by
  rw [toSizeT, Int.emod_eq_of_lt h₀ h]

theorem toSizeT_neg_one : toSizeT (-1) = wordSize - 1 := by decide

theorem toInt64_ofNat {n : Nat} (h : n < 2 ^ 63) : toInt64 n = n :=
  Int.bmod_eq_of_le (by omega) (by omega)

theorem toInt64_nonpos {n : Nat} (hn : n < 2 ^ 64) (hge : 2 ^ 63 ≤ n) : toInt64 n ≤ 0 := by
  have hmod : (n : Int) % (2 ^ 64 : Nat) = n := Int.emod_eq_of_lt (by omega) (by omega)
  have hneg := Int.bmod_neg (n : Int) (2 ^ 64) (by rw [hmod]; omega)
  unfold toInt64
  rw [hneg, hmod]
  omega

/-- A 64-bit word that is positive as a signed word keeps its value. -/
theorem toInt64_pos {n : Nat} (hn : n < 2 ^ 64) (h : 0 < toInt64 n) : n < 2 ^ 63 :=
  Nat.lt_of_not_le fun hge => absurd (toInt64_nonpos hn hge) (Int.not_le.mpr h)

theorem subWord_of_le {a b : Nat} (ha : a < wordSize) (h : b ≤ a) : subWord a b = a - b := by
  have hb : b % wordSize = b := Nat.mod_eq_of_lt (by omega)
  have : a + (wordSize - b) = a - b + wordSize := by omega
  rw [subWord, hb, this, Nat.add_mod_right, Nat.mod_eq_of_lt (by omega)]

/-- Subtraction takes an addition back. -/
theorem subWord_addWord {a b : Nat} (ha : a < wordSize) : subWord (addWord a b) b = a := by
  simp only [subWord, addWord, wordSize] at ha ⊢
  omega

theorem addWord_of_lt {a b : Nat} (h : a + b < wordSize) : addWord a b = a + b :=
  Nat.mod_eq_of_lt h

end CoLib.Lib
