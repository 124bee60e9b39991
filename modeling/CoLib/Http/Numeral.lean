/-
# `CoLib.Http.Numeral` — decimal numerals

A numeral is a non-empty sequence of digits; leading zeros are allowed, a sign
and blanks are not.  `boost::lexical_cast<uint64_t>` is not part of the
repository: `LexicalCast` states what its documentation promises.
-/
import CoLib.Http.Dump
import CoLib.Lib.MachineInt

namespace CoLib.Http

/-- `digit`. -/
def isDigit (c : UInt8) : Bool :=
  48 ≤ c && c ≤ 57

/-- The value of a decimal numeral. -/
def numeral (v : List UInt8) : Option Nat :=
  if v ≠ [] ∧ v.all isDigit then some (v.foldl (fun n c => 10 * n + (c.toNat - 48)) 0) else none

/-- What `boost::lexical_cast<uint64_t>` promises: it converts a numeral in
range, with a sign in front or without one, where a minus negates modulo `2^64`,
and throws on anything else. -/
structure LexicalCast (lexicalCast : List UInt8 → Option UInt64) : Prop where
  numeral : ∀ v n, numeral v = some n →
    lexicalCast v = if n < 2 ^ 64 then some (UInt64.ofNat n) else none
  plus : ∀ v, lexicalCast (43 :: v) = (Http.numeral v).bind fun _ => lexicalCast v
  minus : ∀ v, lexicalCast (45 :: v) = (Http.numeral v).bind fun _ => (lexicalCast v).map (0 - ·)
  other : ∀ v, Http.numeral v = none → v.head? ≠ some 43 → v.head? ≠ some 45 →
    lexicalCast v = none

/-- A numeral in range. -/
def unsignedCast (v : List UInt8) : Option UInt64 :=
  (numeral v).bind fun n => if n < 2 ^ 64 then some (UInt64.ofNat n) else none

/-- A conversion that keeps the promise. -/
def lexicalCastUInt64 (v : List UInt8) : Option UInt64 :=
  if v.head? = some 43 then unsignedCast v.tail
  else if v.head? = some 45 then (unsignedCast v.tail).map (0 - ·)
  else unsignedCast v

theorem numeral_eq_some_iff {v : List UInt8} {n : Nat} : numeral v = some n ↔
    v ≠ [] ∧ (∀ c ∈ v, isDigit c = true) ∧
      v.foldl (fun n c => 10 * n + (c.toNat - 48)) 0 = n := by
  rw [numeral]
  split
  · rename_i h
    rw [List.all_eq_true] at h
    rw [Option.some.injEq]
    exact ⟨fun heq => ⟨h.1, h.2, heq⟩, fun heq => heq.2.2⟩
  · rename_i h
    rw [List.all_eq_true] at h
    exact iff_of_false (by simp) fun heq => h ⟨heq.1, heq.2.1⟩

theorem head_of_numeral {v : List UInt8} {n : Nat} (hn : numeral v = some n) :
    v.head? ≠ some 43 ∧ v.head? ≠ some 45 := by
  refine ⟨fun hhead => ?_, fun hhead => ?_⟩
  · exact absurd ((numeral_eq_some_iff.mp hn).2.1 43 (List.mem_of_head? hhead)) (by decide)
  · exact absurd ((numeral_eq_some_iff.mp hn).2.1 45 (List.mem_of_head? hhead)) (by decide)

theorem lexicalCastUInt64_of_numeral {v : List UInt8} {n : Nat} (hn : numeral v = some n) :
    lexicalCastUInt64 v = unsignedCast v := by
  rw [lexicalCastUInt64, if_neg (head_of_numeral hn).1, if_neg (head_of_numeral hn).2]

theorem lexicalCast_lexicalCastUInt64 : LexicalCast lexicalCastUInt64 where
  numeral := fun v n hn => by
    rw [lexicalCastUInt64_of_numeral hn, unsignedCast, hn, Option.bind_some]
  plus := fun v => by
    rw [lexicalCastUInt64, if_pos List.head?_cons, List.tail_cons]
    cases hn : Http.numeral v with
    | none => rw [unsignedCast, hn, Option.bind_none, Option.bind_none]
    | some n => rw [Option.bind_some, lexicalCastUInt64_of_numeral hn]
  minus := fun v => by
    have hplus : (45 :: v : List UInt8).head? ≠ some 43 := by simp
    rw [lexicalCastUInt64, if_neg hplus, if_pos List.head?_cons, List.tail_cons]
    cases hn : Http.numeral v with
    | none => rw [unsignedCast, hn, Option.bind_none, Option.bind_none, Option.map_none]
    | some n => rw [Option.bind_some, lexicalCastUInt64_of_numeral hn]
  other := fun v hn hplus hminus => by
    rw [lexicalCastUInt64, if_neg hplus, if_neg hminus, unsignedCast, hn, Option.bind_none]

/-- What `operator<<` writes reads back as the number. -/
theorem numeral_decimalText (n : Nat) : numeral (decimalText n) = some n := by
  have htext : decimalText n = (Nat.toDigits 10 n).map fun ch => ch.toNat.toUInt8 := by
    rw [decimalText, chars, Nat.toString_eq_repr, Nat.toList_repr]
  have hrange : ∀ ch ∈ Nat.toDigits 10 n, 48 ≤ ch.toNat ∧ ch.toNat ≤ 57 := by
    intro ch hch
    have hdigit := Nat.isDigit_of_mem_toDigits (by decide) (by decide) hch
    simp only [Char.isDigit, Bool.and_eq_true, decide_eq_true_eq, ge_iff_le,
      UInt32.le_iff_toNat_le] at hdigit
    exact hdigit
  have hbyte : ∀ ch ∈ Nat.toDigits 10 n, (ch.toNat.toUInt8).toNat = ch.toNat := by
    intro ch hch
    have := (hrange ch hch).2
    exact Nat.mod_eq_of_lt (by omega)
  refine numeral_eq_some_iff.mpr ⟨?_, ?_, ?_⟩
  · rw [htext, ne_eq, List.map_eq_nil_iff]
    exact Nat.toDigits_ne_nil
  · rw [htext]
    refine List.forall_mem_map.mpr fun ch hch => ?_
    have hch' := hrange ch hch
    rw [isDigit, Bool.and_eq_true, decide_eq_true_eq, decide_eq_true_eq, UInt8.le_iff_toNat_le,
      UInt8.le_iff_toNat_le, hbyte ch hch]
    exact hch'
  · rw [htext, List.foldl_map]
    refine Eq.trans ?_ (Nat.ofDigitChars_ten_toDigits (n := n))
    rw [Nat.ofDigitChars_eq_foldl]
    refine List.foldl_ext _ _ _ fun acc ch hch => ?_
    rw [hbyte ch hch]
    rfl

/-! ## `strtol` -/

/-- `isspace` in the C locale. -/
def isSpace (c : UInt8) : Bool :=
  c == 32 || (9 ≤ c && c ≤ 13)

/-- The value of a digit or a letter, and 36 for any other byte. -/
def digitValue (c : UInt8) : Nat :=
  if 48 ≤ c ∧ c ≤ 57 then c.toNat - 48
  else if 65 ≤ c ∧ c ≤ 90 then c.toNat - 55
  else if 97 ≤ c ∧ c ≤ 122 then c.toNat - 87
  else 36

/-- The digits at the beginning of a text. -/
def readDigits (base : Nat) : Nat → List UInt8 → Nat
  | n, [] => n
  | n, c :: text =>
      if digitValue c < base then readDigits base (base * n + digitValue c) text else n

/-- The sign at the beginning of a text: whether it is a minus, and the rest. -/
def splitSign : List UInt8 → Bool × List UInt8
  | 45 :: text => (true, text)
  | 43 :: text => (false, text)
  | text => (false, text)

/-- `0x` in front of a digit. -/
def dropHex : List UInt8 → List UInt8
  | 48 :: x :: c :: text =>
      if toLower x = 120 ∧ digitValue c < 16 then c :: text else 48 :: x :: c :: text
  | text => text

/-- `strtol(text, NULL, base)`, for the bases 10 and 16: blanks, a sign, `0x` and digits.  A
value that is no `long` becomes the nearest one. -/
def strtol (base : Nat) (text : List UInt8) : Int :=
  let (negative, text) := splitSign (text.dropWhile isSpace)
  let n := readDigits base 0 (if base = 16 then dropHex text else text)
  if negative then -(min n (2 ^ 63) : Nat) else (min n (2 ^ 63 - 1) : Nat)

/-- `atoi(text)`: `strtol`, as an `int`. -/
def atoi (text : List UInt8) : Int :=
  Lib.narrow (strtol 10 text)

theorem digitValue_of_isDigit {c : UInt8} (h : isDigit c = true) :
    digitValue c = c.toNat - 48 ∧ digitValue c < 10 ∧ isSpace c = false ∧ c ≠ 45 ∧ c ≠ 43 := by
  simp only [isDigit, Bool.and_eq_true, decide_eq_true_eq] at h
  obtain ⟨hlo, hhi⟩ := h
  have hlo' : 48 ≤ c.toNat := hlo
  have hhi' : c.toNat ≤ 57 := hhi
  have hvalue : digitValue c = c.toNat - 48 := if_pos ⟨hlo, hhi⟩
  have hne : ∀ n : UInt8, n.toNat < 48 → c ≠ n := by
    rintro n hn rfl
    omega
  refine ⟨hvalue, by omega, ?_, hne 45 (by decide), hne 43 (by decide)⟩
  have hspace : c ≠ 32 := hne 32 (by decide)
  have hcontrol : ¬ c ≤ 13 := by
    intro hle
    have hle' : c.toNat ≤ 13 := hle
    omega
  simp [isSpace, hspace, hcontrol]

/-- A numeral is read up to the byte behind it. -/
theorem readDigits_append {v rest : List UInt8} (hv : ∀ c ∈ v, isDigit c = true)
    (hrest : ∀ c, rest.head? = some c → 10 ≤ digitValue c) (n : Nat) :
    readDigits 10 n (v ++ rest) = v.foldl (fun n c => 10 * n + (c.toNat - 48)) n := by
  induction v generalizing n with
  | nil =>
      cases rest with
      | nil => rfl
      | cons c rest =>
          rw [List.nil_append, readDigits, if_neg (Nat.not_lt.mpr (hrest c rfl))]
          rfl
  | cons c v ih =>
      obtain ⟨hvalue, hlt, -⟩ := digitValue_of_isDigit (hv c List.mem_cons_self)
      rw [List.cons_append, readDigits, if_pos hlt, hvalue, List.foldl_cons]
      exact ih (fun c hc => hv c (List.mem_cons_of_mem _ hc)) _

theorem strtol_numeral {v rest : List UInt8} {n : Nat} (hn : numeral v = some n)
    (hrest : ∀ c, rest.head? = some c → 10 ≤ digitValue c) (hlong : n < 2 ^ 63) :
    strtol 10 (v ++ rest) = n := by
  obtain ⟨hne, hv, hvalue⟩ := numeral_eq_some_iff.mp hn
  obtain ⟨c, v, rfl⟩ := List.exists_cons_of_ne_nil hne
  obtain ⟨-, -, hspace, hminus, hplus⟩ := digitValue_of_isDigit (hv c List.mem_cons_self)
  have hread := (readDigits_append hv hrest 0).trans hvalue
  have hmin : min n (2 ^ 63 - 1) = n := min_eq_left (by omega)
  have hsign : splitSign (c :: (v ++ rest)) = (false, c :: (v ++ rest)) := by
    rw [splitSign]
    · intro text heq
      exact hminus (List.cons.inj heq).1
    · intro text heq
      exact hplus (List.cons.inj heq).1
  have hdrop : ((c :: v) ++ rest).dropWhile isSpace = c :: (v ++ rest) := by
    rw [List.cons_append, List.dropWhile_cons, hspace, if_neg Bool.false_ne_true]
  rw [List.cons_append] at hread
  rw [strtol, hdrop, hsign]
  simp only [show ¬(10 : Nat) = 16 by decide, Bool.false_eq_true, if_false, hread, hmin]

end CoLib.Http
