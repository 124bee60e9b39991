/-
# `CoLib.Uri.Create` — `Uri::Create`

The actions of the machine keep one pointer into the text, `mark`, and save the bytes from
there to the current one in a field of the `Uri`.  A `std::string` from a null pointer
throws, and `atoi` of one does not return; `create` has no result then.

**Proved here.**  Where a result is not null, the states that the text leads through end in
a final one (`moves_of_create`); and a text that leads there is scanned to its end
(`create_of_scans`).
-/
import CoLib.Http.Numeral
import CoLib.Lib.Grammar
import CoLib.Uri.Machine

namespace CoLib

/-- The fields of a `Uri`, as its constructor leaves them. -/
structure Uri where
  scheme : List UInt8 := []
  userinfo : List UInt8 := []
  host : List UInt8 := []
  path : List UInt8 := []
  query : List UInt8 := []
  fragment : List UInt8 := []
  port : Int := 0
  deriving DecidableEq, Repr

namespace Uri

open Lib.Grammar Lib.Scanner

/-- The `Uri` that is built, and `mark`: a position of the text, or null. -/
structure Memory where
  uri : Uri := {}
  mark : Option Nat := none
  deriving DecidableEq, Repr

/-- The text from `mark` to the current byte. -/
def piece (text : List UInt8) (i p : Nat) : List UInt8 :=
  (text.drop i).take (p - i)

/-- `mark = NULL` behind a setter that is called with `std::string(mark, fpc - mark)`. -/
def save (text : List UInt8) (p : Nat) (set : List UInt8 → Uri → Uri) (m : Memory) :
    Option Memory :=
  m.mark.map fun i => ⟨set (piece text i p) m.uri, none⟩

/-- The actions, at the byte with position `p`. -/
def act (text : List UInt8) (p : Nat) : Action → Memory → Option Memory
  | .marku, m => some { m with mark := some p }
  | .markh, m => some { m with mark := some p }
  | .saveScheme, m => save text p (fun v uri => { uri with scheme := v }) m
  | .savePort, m =>
      if m.mark = some p then some { m with mark := none }
      else m.mark.map fun i => ⟨{ m.uri with port := Http.atoi (text.drop i) }, none⟩
  | .saveUserinfo, m =>
      match m.mark with
      | none => some m
      | some _ => save text p (fun v uri => { uri with userinfo := v }) m
  | .saveHost, m =>
      match m.mark with
      | none => some m
      | some i => some { m with uri := { m.uri with host := piece text i p } }
  | .savePath, m => save text p (fun v uri => { uri with path := v }) m
  | .saveQuery, m => save text p (fun v uri => { uri with query := v }) m
  | .saveFragment, m => save text p (fun v uri => { uri with fragment := v }) m

/-- `Uri::Create`: `none` when it throws, `some none` when it returns null. -/
def create (text : List UInt8) : Option (Option Uri) :=
  (scan machine (act text) 0 uriParserStart {} text).bind fun (m, _, stop) =>
    match stop with
    | .more cs =>
        (runActs (act text) text.length (eof cs) m).map fun m =>
          if uriParserFirstFinal ≤ cs then some m.uri else none
    | .halt _ | .reject => some none

/-! ## The states a text leads through -/

/-- The next state, whatever the actions do. -/
def state (cs : Nat) (c : UInt8) : Option Nat :=
  (next cs c).map fun t => t.2

theorem moves_of_scan {text : List UInt8} : ∀ {p cs n cs' : Nat} {m m' : Memory}
    {rest : List UInt8}, scan machine (act text) p cs m rest = some (m', n, .more cs') →
    moves state cs rest = some cs' := by
  intro p cs n cs' m m' rest
  induction rest generalizing p cs n m with
  | nil =>
      intro h
      cases h
      rfl
  | cons c rest ih =>
      intro h
      rw [moves_cons, state]
      rw [scan] at h
      cases hnext : next cs c with
      | none =>
          simp only [machine, hnext] at h
          cases h
      | some t =>
          obtain ⟨as, cs₁⟩ := t
          simp only [machine, hnext, Bool.false_eq_true, if_false] at h
          obtain ⟨m₁, -, h⟩ := Option.bind_eq_some_iff.mp h
          obtain ⟨⟨m₂, n₂, stop⟩, h, heq⟩ := Option.map_eq_some_iff.mp h
          obtain ⟨rfl, -, rfl⟩ : m₂ = m' ∧ n₂ + 1 = n ∧ stop = .more cs' := by
            simpa only [Prod.mk.injEq] using heq
          exact ih h

/-- A result that is not null has led to a final state. -/
theorem moves_of_create {text : List UInt8} {uri : Uri} (h : create text = some (some uri)) :
    ∃ cs, moves state uriParserStart text = some cs ∧ uriParserFirstFinal ≤ cs := by
  obtain ⟨⟨m, n, stop⟩, hscan, h⟩ := Option.bind_eq_some_iff.mp h
  cases stop with
  | more cs =>
      obtain ⟨m', -, h⟩ := Option.map_eq_some_iff.mp h
      refine ⟨cs, moves_of_scan hscan, ?_⟩
      split at h
      · assumption
      · cases h
  | halt cs => cases h
  | reject => cases h

/-- The result of a text that is scanned to its end. -/
theorem create_of_scans {text : List UInt8} {cs : Nat} {m m' : Memory}
    (hscan : Scans machine (act text) 0 uriParserStart {} text cs m)
    (heof : runActs (act text) text.length (eof cs) m = some m')
    (hfinal : uriParserFirstFinal ≤ cs) : create text = some (some m'.uri) := by
  rw [create, hscan, Option.bind_some]
  simp only [heof, Option.map_some, if_pos hfinal]

end Uri

end CoLib
