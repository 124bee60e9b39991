/-
# `CoLib.Uri.Throws` — when `Uri::Create` throws

An action that saves a part makes a string from `mark`, and `save_port` and `save_host` do not
agree on it: behind an empty port `mark` is null, and `save_path` makes a string from it.

Only whether `mark` is null matters here, so the machine is followed with one bit of memory
(`move`).  Where the texts of an expression lead is computed as in `Uri.Parts`.

**Proved here.**

    a text leads to a final state     ⇔   the main rule of `uri.rl` derives it
                                                                 (`accepts_iff_derives`)
    `Create` throws                   ⇔   the text begins with a scheme, an authority with an
                                          empty port and a path, and ends there or goes on
                                          with `?` or `#`
    `Create` returns a `Uri`          ⇔   the main rule derives the text and `Create` does not
                                          throw                  (both in `create_cases`)
-/
import CoLib.Uri.Language
import CoLib.Uri.Composed

namespace CoLib.Uri

open Lib.Grammar Lib.Scanner

/-! ## The machine with one bit -/

/-- Whether `mark` is set behind an action; `none` where a string is made from null. -/
def Action.mark : Action → Bool → Option Bool
  | .marku, _ | .markh, _ => some true
  | .saveUserinfo, _ => some false
  | .saveHost, b => some b
  | .saveScheme, b | .savePort, b | .savePath, b | .saveQuery, b | .saveFragment, b =>
      if b then some false else none

def marks (as : List Action) (b : Bool) : Option Bool :=
  as.foldlM (fun b a => a.mark b) b

/-- One byte; `none` where it is refused, and where an action throws. -/
def move (q : Nat × Bool) (c : UInt8) : Option (Nat × Bool) :=
  (next q.1 c).bind fun t => (marks t.1 q.2).map fun b => (t.2, b)

section Marks

variable {text : List UInt8} {p cs cs' : Nat} {c : UInt8} {b b' : Bool} {m : Memory}
  {as : List Action}

theorem act_mark (text : List UInt8) (p : Nat) (a : Action) (m : Memory) :
    (act text p a m).map (·.mark.isSome) = a.mark m.mark.isSome := by
  obtain ⟨uri, mark⟩ := m
  cases a with
  | marku | markh => rfl
  | savePort =>
      by_cases hp : mark = some p
      · subst hp
        simp [act, Action.mark]
      · cases mark with
        | none => rfl
        | some i => simp [act, Action.mark, hp]
  | saveScheme | saveUserinfo | saveHost | savePath | saveQuery | saveFragment =>
      cases mark <;> rfl

theorem runActs_marks (text : List UInt8) (p : Nat) (as : List Action) (m : Memory) :
    (runActs (act text) p as m).map (·.mark.isSome) = marks as m.mark.isSome := by
  induction as generalizing m with
  | nil => rfl
  | cons a as ih =>
      have ha := act_mark text p a m
      rw [runActs, marks, List.foldlM_cons, ← ha]
      cases act text p a m with
      | none => rfl
      | some m₁ => exact ih m₁

theorem moves_state_of_move {w : List UInt8} (h : moves move (cs, b) w = some (cs', b')) :
    moves state cs w = some cs' := by
  induction w generalizing cs b with
  | nil =>
      obtain ⟨rfl, rfl⟩ := Prod.mk.inj (Option.some.inj h)
      rfl
  | cons c w ih =>
      obtain ⟨⟨cs₁, b₁⟩, hmove, h⟩ := Option.bind_eq_some_iff.mp h
      obtain ⟨t, hnext, hmarks⟩ := Option.bind_eq_some_iff.mp hmove
      obtain ⟨b₂, -, heq⟩ := Option.map_eq_some_iff.mp hmarks
      obtain ⟨rfl, rfl⟩ := Prod.mk.inj heq
      show (state cs c).bind (fun q => moves state q w) = some cs'
      rw [state, hnext]
      exact ih h

/-- What the bit follows is scanned. -/
theorem exists_scans (text : List UInt8) (p : Nat) (m : Memory) {w : List UInt8}
    (h : moves move (cs, m.mark.isSome) w = some (cs', b')) :
    ∃ m', Scans machine (act text) p cs m w cs' m' ∧ m'.mark.isSome = b' := by
  induction w generalizing p cs m with
  | nil =>
      obtain ⟨rfl, rfl⟩ := Prod.mk.inj (Option.some.inj h)
      exact ⟨m, .nil, rfl⟩
  | cons c w ih =>
      obtain ⟨⟨cs₁, b₁⟩, hmove, h⟩ := Option.bind_eq_some_iff.mp h
      obtain ⟨⟨as, cs₂⟩, hnext, hmarks⟩ := Option.bind_eq_some_iff.mp hmove
      obtain ⟨b₂, hb₂, heq⟩ := Option.map_eq_some_iff.mp hmarks
      obtain ⟨rfl, rfl⟩ := Prod.mk.inj heq
      obtain ⟨m₁, hacts, rfl⟩ := Option.map_eq_some_iff.mp
        ((runActs_marks text p as m).trans hb₂)
      obtain ⟨m', hscans, hmark⟩ := ih (p + 1) m₁ h
      exact ⟨m', .cons hnext rfl hacts hscans, hmark⟩

/-- An action throws in front of a byte, or at the end of the text. -/
def throwsAt (q : Nat × Bool) : Option UInt8 → Bool
  | none => (marks (eof q.1) q.2).isNone
  | some c => (next q.1 c).any fun t => (marks t.1 q.2).isNone

theorem throwsAt_of_scan {w : List UInt8} (h : scan machine (act text) p cs m w = none) :
    ∃ pre c rest q, w = pre ++ c :: rest ∧ moves move (cs, m.mark.isSome) pre = some q ∧
      throwsAt q (some c) = true := by
  induction w generalizing p cs m with
  | nil => cases h
  | cons c w ih =>
      rw [scan] at h
      cases hnext : next cs c with
      | none =>
          simp only [machine, hnext] at h
          cases h
      | some t =>
          obtain ⟨as, cs₁⟩ := t
          simp only [machine, hnext, Bool.false_eq_true, if_false] at h
          have hmarks := runActs_marks text p as m
          cases hacts : runActs (act text) p as m with
          | none =>
              rw [hacts] at hmarks
              refine ⟨[], c, w, (cs, m.mark.isSome), rfl, rfl, ?_⟩
              rw [throwsAt, hnext, Option.any_some, ← hmarks]
              rfl
          | some m₁ =>
              rw [hacts, Option.map_some] at hmarks
              rw [hacts, Option.bind_some, Option.map_eq_none_iff] at h
              obtain ⟨pre, c', rest, q, rfl, hmoves, hthrows⟩ := ih h
              refine ⟨c :: pre, c', rest, q, rfl, ?_, hthrows⟩
              rw [moves_cons, move, hnext, Option.bind_some, ← hmarks]
              exact hmoves

theorem moves_of_scan_more {w : List UInt8} {m' : Memory} {n : Nat}
    (h : scan machine (act text) p cs m w = some (m', n, .more cs')) :
    moves move (cs, m.mark.isSome) w = some (cs', m'.mark.isSome) := by
  induction w generalizing p cs m n with
  | nil =>
      cases h
      rfl
  | cons c w ih =>
      rw [scan] at h
      cases hnext : next cs c with
      | none =>
          simp only [machine, hnext] at h
          cases h
      | some t =>
          obtain ⟨as, cs₁⟩ := t
          simp only [machine, hnext, Bool.false_eq_true, if_false] at h
          obtain ⟨m₁, hacts, h⟩ := Option.bind_eq_some_iff.mp h
          obtain ⟨⟨m₂, n₂, stop⟩, h, heq⟩ := Option.map_eq_some_iff.mp h
          obtain ⟨rfl, -, rfl⟩ : m₂ = m' ∧ n₂ + 1 = n ∧ stop = .more cs' := by
            simpa only [Prod.mk.injEq] using heq
          have hmarks := runActs_marks text p as m
          rw [hacts, Option.map_some] at hmarks
          rw [moves_cons, move, hnext, Option.bind_some, ← hmarks]
          exact ih h

/-- A text that the machine takes is scanned to its end, or an action throws. -/
theorem scan_more_of_moves {w : List UInt8} {m' : Memory} {n : Nat} {stop : Stop Nat}
    (h : scan machine (act text) p cs m w = some (m', n, stop))
    (hmoves : moves state cs w = some cs') : stop = .more cs' := by
  induction w generalizing p cs m n with
  | nil =>
      cases h
      obtain rfl := Option.some.inj hmoves
      rfl
  | cons c w ih =>
      obtain ⟨cs₁, hstate, hmoves⟩ := Option.bind_eq_some_iff.mp hmoves
      obtain ⟨⟨as, cs₂⟩, hnext, rfl⟩ := Option.map_eq_some_iff.mp hstate
      rw [scan] at h
      simp only [machine, hnext, Bool.false_eq_true, if_false] at h
      obtain ⟨m₁, -, h⟩ := Option.bind_eq_some_iff.mp h
      obtain ⟨⟨m₂, n₂, stop₂⟩, hrest, heq⟩ := Option.map_eq_some_iff.mp h
      obtain ⟨rfl, -, rfl⟩ : m₂ = m' ∧ n₂ + 1 = n ∧ stop₂ = stop := by
        simpa only [Prod.mk.injEq] using heq
      exact ih hrest hmoves

end Marks

/-- `create` throws where the bit finds that an action throws. -/
theorem create_eq_none_iff {text : List UInt8} : create text = none ↔
    ∃ pre rest q, text = pre ++ rest ∧ moves move (uriParserStart, false) pre = some q ∧
      throwsAt q rest.head? = true := by
  constructor
  · intro h
    rw [create] at h
    cases hscan : scan machine (act text) 0 uriParserStart {} text with
    | none =>
        obtain ⟨pre, c, rest, q, heq, hmoves, hthrows⟩ := throwsAt_of_scan hscan
        exact ⟨pre, c :: rest, q, heq, hmoves, hthrows⟩
    | some r =>
        obtain ⟨m, n, stop⟩ := r
        rw [hscan, Option.bind_some] at h
        cases stop with
        | more cs =>
            have hmarks := runActs_marks text text.length (eof cs) m
            rw [Option.map_eq_none_iff.mp h] at hmarks
            refine ⟨text, [], (cs, m.mark.isSome), (List.append_nil text).symm,
              moves_of_scan_more hscan, ?_⟩
            show (marks (eof cs) m.mark.isSome).isNone = true
            rw [← hmarks]
            rfl
        | halt cs => cases h
        | reject => cases h
  · rintro ⟨pre, rest, ⟨cs, b⟩, rfl, hmoves, hthrows⟩
    obtain ⟨m, hscans, rfl⟩ := exists_scans (pre ++ rest) 0 {} hmoves
    cases rest with
    | nil =>
        have hmarks := runActs_marks (pre ++ []) pre.length (eof cs) m
        have hnone : marks (eof cs) m.mark.isSome = none := Option.isNone_iff_eq_none.mp hthrows
        rw [hnone, Option.map_eq_none_iff] at hmarks
        rw [List.append_nil] at hmarks hscans ⊢
        rw [create, hscans, Option.bind_some]
        simp only [hmarks, Option.map_none]
    | cons c rest =>
        obtain ⟨⟨as, cs'⟩, hnext, hnone⟩ := (Option.any_eq_true _ _).mp hthrows
        have hmarks := runActs_marks (pre ++ c :: rest) pre.length as m
        rw [Option.isNone_iff_eq_none.mp hnone, Option.map_eq_none_iff] at hmarks
        have hscan : scan machine (act (pre ++ c :: rest)) (0 + pre.length) cs m (c :: rest) =
            none := by
          rw [Nat.zero_add, scan]
          simp only [machine, hnext, hmarks, Option.bind_none]
        rw [create, hscans.scan_append, hscan, Option.map_none, Option.bind_none]

/-! ## Where an action can throw -/

/-- The states in which `mark` may be null. -/
def unset : List Nat :=
  [3, 4, 5, 6, 243, 244, 451, 452, 453, 455, 456, 458, 459, 469, 509, 510, 511, 513, 522]

/-- The text may end here; but the end, `?` and `#` throw. -/
def stuck (q : Nat × Bool) : Bool :=
  throwsAt q none && throwsAt q (some 63) && throwsAt q (some 35) &&
    decide (uriParserFirstFinal ≤ q.1)

/-- `mark` stays null only on the way to a state of `unset`, and a byte that throws is a `?` or a
`#` where the end throws as well. -/
def tracked (cs : Nat) (b : Bool) (r : Http.Range) : Bool :=
  match transition r.target with
  | none => true
  | some (as, cs') =>
      match marks as b with
      | some b' => b' || unset.contains cs'
      | none => stuck (cs, b) && decide (r.lo = r.hi) && (r.lo == 63 || r.lo == 35)

theorem rows_tracked : ∀ block ∈ rows, (block.2.all fun row => row.2.all fun r =>
    tracked row.1 true r && (!unset.contains row.1 || tracked row.1 false r)) = true := by
  intro block hblock
  simp only [rows, List.mem_cons, List.not_mem_nil, or_false] at hblock
  rcases hblock with rfl | rfl | rfl | rfl | rfl | rfl | rfl | rfl | rfl | rfl | rfl | rfl | rfl |
    rfl <;> decide +kernel

theorem ends_tracked : ((List.range 110).all fun i =>
    let cs := uriParserFirstFinal + i
    (!throwsAt (cs, true) none || stuck (cs, true)) &&
      (!unset.contains cs || !throwsAt (cs, false) none || stuck (cs, false))) = true := by
  decide +kernel

/-- `mark` is set, or the state is one of `unset`. -/
def Tracked (q : Nat × Bool) : Prop :=
  q.2 = true ∨ q.1 ∈ unset

theorem tracked_of_next {q : Nat × Bool} {c : UInt8} {t : List Action × Nat} (hq : Tracked q)
    (h : next q.1 c = some t) : ∃ r : Http.Range, r.lo ≤ c.toNat ∧ c.toNat ≤ r.hi ∧
      transition r.target = some t ∧ tracked q.1 q.2 r = true := by
  obtain ⟨block, hblock, ranges, hmem, r, hr, hcovers, htarget⟩ := exists_range h
  obtain ⟨-, hlo, hhi⟩ := covers_iff.mp hcovers
  have hrow := List.all_eq_true.mp (rows_tracked block hblock) _ hmem
  obtain ⟨hset, hunset⟩ := Bool.and_eq_true_iff.mp (List.all_eq_true.mp hrow r hr)
  refine ⟨r, hlo, hhi, htarget, ?_⟩
  obtain ⟨cs, b⟩ := q
  cases b with
  | true => exact hset
  | false =>
      have hcs : cs ∈ unset := hq.resolve_left Bool.false_ne_true
      rw [List.contains_iff_mem.mpr hcs, Bool.not_true, Bool.false_or] at hunset
      exact hunset

theorem Tracked.move {q q' : Nat × Bool} {c : UInt8} (hq : Tracked q)
    (h : Uri.move q c = some q') : Tracked q' := by
  obtain ⟨⟨as, cs'⟩, hnext, hmarks⟩ := Option.bind_eq_some_iff.mp h
  obtain ⟨b', hb', rfl⟩ := Option.map_eq_some_iff.mp hmarks
  obtain ⟨r, -, -, htarget, htracked⟩ := tracked_of_next hq hnext
  rw [tracked, htarget] at htracked
  simp only [hb', Bool.or_eq_true, List.contains_iff_mem] at htracked
  exact htracked

theorem Tracked.moves {q q' : Nat × Bool} {w : List UInt8} (hq : Tracked q)
    (h : Lib.Grammar.moves Uri.move q w = some q') : Tracked q' := by
  induction w generalizing q with
  | nil =>
      obtain rfl := Option.some.inj h
      exact hq
  | cons c w ih =>
      obtain ⟨q₁, hmove, h⟩ := Option.bind_eq_some_iff.mp h
      exact ih (hq.move hmove) h

/-- Only the final states have actions at the end. -/
theorem final_of_eof {cs : Nat} (h : eof cs ≠ []) : ∃ i < 110, cs = uriParserFirstFinal + i := by
  cases hfind : eofActions.find? fun e => e.1 ≤ cs && cs ≤ e.2.1 with
  | none =>
      rw [eof, hfind] at h
      exact absurd rfl h
  | some e =>
      have hall : eofActions.all (fun e => decide (uriParserFirstFinal ≤ e.1) &&
          decide (e.2.1 ≤ 560)) = true := by decide
      have hrange := List.all_eq_true.mp hall e (List.mem_of_find?_eq_some hfind)
      have hcs := List.find?_some (p := fun e : Nat × Nat × List Action =>
        decide (e.1 ≤ cs) && decide (cs ≤ e.2.1)) hfind
      obtain ⟨hlo, hhi⟩ := Bool.and_eq_true_iff.mp hrange
      obtain ⟨hfirst, hlast⟩ := Bool.and_eq_true_iff.mp hcs
      have hle : 451 ≤ cs := (of_decide_eq_true hlo).trans (of_decide_eq_true hfirst)
      have hge : cs ≤ 560 := (of_decide_eq_true hlast).trans (of_decide_eq_true hhi)
      refine ⟨cs - 451, by omega, ?_⟩
      show cs = 451 + (cs - 451)
      omega

theorem Tracked.stuck {q : Nat × Bool} {o : Option UInt8} (hq : Tracked q)
    (h : throwsAt q o = true) : Uri.stuck q = true ∧ (o = none ∨ o = some 63 ∨ o = some 35) := by
  cases o with
  | none =>
      refine ⟨?_, .inl rfl⟩
      obtain ⟨cs, b⟩ := q
      have heof : eof cs ≠ [] := by
        intro hempty
        rw [throwsAt, hempty] at h
        cases h
      obtain ⟨i, hi, rfl⟩ := final_of_eof heof
      have hall := List.all_eq_true.mp ends_tracked i (List.mem_range.mpr hi)
      obtain ⟨hset, hunset⟩ := Bool.and_eq_true_iff.mp hall
      cases b with
      | true =>
          rw [h, Bool.not_true, Bool.false_or] at hset
          exact hset
      | false =>
          have hcs : uriParserFirstFinal + i ∈ unset := hq.resolve_left Bool.false_ne_true
          rw [List.contains_iff_mem.mpr hcs, h, Bool.not_true, Bool.false_or,
            Bool.false_or] at hunset
          exact hunset
  | some c =>
      obtain ⟨⟨as, cs'⟩, hnext, hnone⟩ := (Option.any_eq_true _ _).mp h
      obtain ⟨r, hlo, hhi, htarget, htracked⟩ := tracked_of_next hq hnext
      have hmarks : marks as q.2 = none := Option.isNone_iff_eq_none.mp hnone
      rw [tracked, htarget] at htracked
      simp only [hmarks, Bool.and_eq_true, decide_eq_true_eq, Bool.or_eq_true,
        beq_iff_eq] at htracked
      obtain ⟨⟨hstuck, hone⟩, hbyte⟩ := htracked
      refine ⟨hstuck, .inr ?_⟩
      rcases hbyte with hbyte | hbyte
      · have hc : c.toNat = (63 : UInt8).toNat := by
          show c.toNat = 63
          omega
        exact .inl (congrArg some (UInt8.toNat_inj.mp hc))
      · have hc : c.toNat = (35 : UInt8).toNat := by
          show c.toNat = 35
          omega
        exact .inr (congrArg some (UInt8.toNat_inj.mp hc))

/-! ## Texts that are followed -/

/-- The text leads from `q` to `q'`. -/
def Goes (q : Nat × Bool) (w : List UInt8) (q' : Nat × Bool) : Prop :=
  moves move q w = some q'

section Goes

variable {q q₁ q' : Nat × Bool} {v w : List UInt8} {cs cs' : Nat} {c : UInt8} {b b' : Bool}
  {as : List Action}

theorem Goes.nil : Goes q [] q := rfl

theorem Goes.append (h : Goes q v q₁) (h' : Goes q₁ w q') : Goes q (v ++ w) q' := by
  rw [Goes] at h h' ⊢
  rw [moves_append, h, Option.bind_some, h']

theorem Goes.byte (hgoes : goes cs c as cs' = true) (hmarks : marks as b = some b') :
    Goes (cs, b) [c] (cs', b') := by
  rw [Goes, moves_cons, move, next_of_goes hgoes, Option.bind_some]
  show ((marks as b).map fun b => (cs', b)).bind (fun q' => moves move q' []) = some (cs', b')
  rw [hmarks]
  rfl

/-- Bytes without actions. -/
theorem Goes.quiet (h : moves (stepIf List.isEmpty) cs w = some cs') :
    Goes (cs, b) w (cs', b) := by
  induction w generalizing cs with
  | nil =>
      obtain rfl := Option.some.inj h
      exact .nil
  | cons c w ih =>
      obtain ⟨cs₁, hstep, h⟩ := Option.bind_eq_some_iff.mp h
      obtain ⟨as, hnext, hempty⟩ := next_of_stepIf hstep
      obtain rfl := List.isEmpty_iff.mp hempty
      rw [Goes, moves_cons, move, hnext]
      exact ih h

theorem marks_sets (has : as.all Action.sets = true) (b : Bool) : ∃ b', marks as b = some b' := by
  induction as generalizing b with
  | nil => exact ⟨b, rfl⟩
  | cons a as ih =>
      obtain ⟨ha, has⟩ := List.all_cons.symm.trans has |> Bool.and_eq_true_iff.mp
      obtain ⟨b', hb'⟩ := ih has true
      refine ⟨b', ?_⟩
      cases a with
      | marku | markh => exact hb'
      | _ => cases ha

/-- Bytes that set `mark`, or do nothing. -/
theorem Goes.setting (h : moves (stepIf fun as => as.all Action.sets) cs w = some cs') (b : Bool) :
    ∃ b', Goes (cs, b) w (cs', b') := by
  induction w generalizing cs b with
  | nil =>
      obtain rfl := Option.some.inj h
      exact ⟨b, .nil⟩
  | cons c w ih =>
      obtain ⟨cs₁, hstep, h⟩ := Option.bind_eq_some_iff.mp h
      obtain ⟨as, hnext, hsets⟩ := next_of_stepIf hstep
      obtain ⟨b₁, hb₁⟩ := marks_sets hsets b
      obtain ⟨b', hb'⟩ := ih h b₁
      refine ⟨b', ?_⟩
      rw [Goes, moves_cons, move, hnext, Option.bind_some, hb₁]
      exact hb'

/-- A part sets `mark` with its first byte. -/
theorem Goes.part {a : Action} {start : Nat} {o : Option Nat} (ha : a.sets = true)
    (h : moves (Uri.part a start) none w = some o) (b : Bool) :
    Goes (start, b) w (o.getD start, b || o.isSome) := by
  cases w with
  | nil =>
      obtain rfl := Option.some.inj h
      rw [Option.isSome_none, Bool.or_false]
      exact .nil
  | cons c w =>
      obtain ⟨o₁, hpart, h⟩ := Option.bind_eq_some_iff.mp h
      obtain ⟨cs₁, hstep, rfl⟩ := Option.map_eq_some_iff.mp hpart
      obtain ⟨as, hnext, has⟩ := next_of_stepIf hstep
      obtain rfl := eq_of_beq has
      obtain ⟨cs', hquiet, rfl⟩ := Option.map_eq_some_iff.mp (moves_part_some.symm.trans h)
      have hmark : marks [a] b = some true := by
        cases a with
        | marku | markh => rfl
        | _ => cases ha
      rw [Option.isSome_some, Bool.or_true, Goes, moves_cons, move, hnext, Option.bind_some, hmark]
      exact Goes.quiet hquiet

end Goes

/-! ## Where a text may end -/

/-- The text may end, and a query or a fragment may follow, with actions that do not throw. -/
def Closed (q : Nat × Bool) : Prop :=
  ∃ as b, leavesWith as q.1 = true ∧ marks as q.2 = some b

/-- A query and a fragment, where they are there. -/
def tailExpr : Expr Rule := seqs tail

section Tail

variable {q : Nat × Bool} {v w : List UInt8} {a : Action} {start : Nat} {o : Option Nat} {b : Bool}

/-- The end of the text is reached, and does not throw. -/
def Stops (q : Nat × Bool) : Prop :=
  uriParserFirstFinal ≤ q.1 ∧ throwsAt q none = false

theorem marks_entering (ha : a = .saveQuery ∨ a = .saveFragment) (b : Bool) (o : Option Nat) :
    marks (entering .marku [a] o) (b || o.isSome) = some false := by
  rcases ha with rfl | rfl <;> cases o <;> simp [entering, marks, Action.mark]

theorem stops_of_tailEnd (ha : a = .saveQuery ∨ a = .saveFragment)
    (h : tailEnd a start o = true) : Stops (o.getD start, b || o.isSome) := by
  obtain ⟨heof, hfinal⟩ := Bool.and_eq_true_iff.mp h
  refine ⟨of_decide_eq_true hfinal, ?_⟩
  rw [throwsAt, of_decide_eq_true heof, marks_entering ha]
  rfl

theorem Goes.fragment (hv : Derives uriRl (.rule .fragment) v) (b : Bool) :
    ∃ q', Goes (fragmentStart, b) v q' ∧ Stops q' := by
  obtain ⟨o, hmoves, hend⟩ := fragment_ends hv
  exact ⟨_, Goes.part rfl hmoves b, stops_of_tailEnd (.inr rfl) hend⟩

/-- A query, and a fragment behind it where it is there. -/
theorem Goes.query (hv : Derives uriRl (.rule .query) v)
    (hw : Derives uriRl (optional (seqs [.bytes hash, .rule .fragment])) w) (b : Bool) :
    ∃ q', Goes (queryStart, b) (v ++ w) q' ∧ Stops q' := by
  obtain ⟨o, hmoves, hend⟩ := query_ends hv
  obtain ⟨hend, hhash⟩ := Bool.and_eq_true_iff.mp hend
  have hquery := Goes.part rfl hmoves b
  rcases hw.of_upTo_one with rfl | hw
  · rw [List.append_nil]
    exact ⟨_, hquery, stops_of_tailEnd (.inl rfl) hend⟩
  · obtain ⟨u, f, rfl, hu, hf⟩ := Derives.of_seq hw
    obtain ⟨c, hc, rfl⟩ := hu.of_bytes
    obtain rfl : c = 35 := UInt8.toNat_inj.mp (has_byte.mp hc)
    obtain ⟨q', hfragment, hstops⟩ := Goes.fragment hf false
    have hbyte := Goes.byte hhash (marks_entering (.inl rfl) b o)
    exact ⟨q', hquery.append (hbyte.append hfragment), hstops⟩

/-- A tail is empty, or begins with `?` or `#`. -/
theorem tail_cases (hv : Derives uriRl tailExpr v) : v = [] ∨
    (∃ u w, v = [63] ++ (u ++ w) ∧ Derives uriRl (.rule .query) u ∧
      Derives uriRl (optional (seqs [.bytes hash, .rule .fragment])) w) ∨
    ∃ f, v = [35] ++ f ∧ Derives uriRl (.rule .fragment) f := by
  obtain ⟨u, w, rfl, hu, hw⟩ := Derives.of_seq hv
  rcases hu.of_upTo_one with rfl | hu
  · rcases Derives.of_upTo_one hw with rfl | hw
    · exact .inl rfl
    · obtain ⟨u, f, rfl, hu, hf⟩ := Derives.of_seq hw
      obtain ⟨c, hc, rfl⟩ := hu.of_bytes
      obtain rfl : c = 35 := UInt8.toNat_inj.mp (has_byte.mp hc)
      exact .inr (.inr ⟨f, rfl, hf⟩)
  · obtain ⟨u, v, rfl, hu, hquery⟩ := Derives.of_seq hu
    obtain ⟨c, hc, rfl⟩ := hu.of_bytes
    obtain rfl : c = 63 := UInt8.toNat_inj.mp (has_byte.mp hc)
    exact .inr (.inl ⟨v, w, by rw [List.append_assoc], hquery, hw⟩)

theorem Closed.tail (hq : Closed q) (hv : Derives uriRl tailExpr v) :
    ∃ q', Goes q v q' ∧ Stops q' := by
  obtain ⟨as, b, hleaves, hmarks⟩ := hq
  simp only [leavesWith, Bool.and_eq_true, decide_eq_true_eq] at hleaves
  obtain ⟨⟨⟨hquestion, hhash⟩, heof⟩, hfinal⟩ := hleaves
  rcases tail_cases hv with rfl | ⟨u, w, rfl, hu, hw⟩ | ⟨f, rfl, hf⟩
  · refine ⟨q, .nil, hfinal, ?_⟩
    rw [throwsAt, heof, hmarks]
    rfl
  · obtain ⟨q', hquery, hstops⟩ := Goes.query hu hw b
    exact ⟨q', (Goes.byte hquestion hmarks).append hquery, hstops⟩
  · obtain ⟨q', hfragment, hstops⟩ := Goes.fragment hf b
    exact ⟨q', (Goes.byte hhash hmarks).append hfragment, hstops⟩

end Tail

/-! ## Authorities -/

/-- The authority may end, and a slash begins the path; behind a scheme it sets `mark`. -/
structure AuthorityEnds (abs : Bool) (q : Nat × Bool) : Prop where
  slash : ∃ b, Goes q [47] (pathStart abs, b) ∧ (abs = true → b = true)
  closed : Closed q

section Authority

variable {q : Nat × Bool} {w : List UInt8} {a : Action} {abs user b : Bool} {start : Nat}
  {o : Option Nat}

/-- The actions behind a host or a port, apart from those behind an empty port that is followed
by a path that is saved. -/
theorem marks_saved (ha : a = .saveHost ∨ a = .savePort ∧ (o.isSome = true ∨ abs = false))
    (slash b : Bool) : ∃ b', marks (saved a abs slash o) (b || o.isSome) = some b' ∧
      (slash = true → abs = true → b' = true) := by
  rcases ha with rfl | ⟨rfl, ho⟩
  · cases o <;> cases abs <;> cases slash <;> cases b <;> exact ⟨_, rfl, by simp⟩
  · rcases ho with ho | rfl
    · obtain ⟨cs, rfl⟩ := Option.isSome_iff_exists.mp ho
      cases abs <;> cases slash <;> cases b <;> exact ⟨_, rfl, by simp⟩
    · cases o <;> cases slash <;> cases b <;> exact ⟨_, rfl, by simp⟩

theorem authorityEnds_of_closes (h : closes a abs start o = true)
    (ha : a = .saveHost ∨ a = .savePort ∧ (o.isSome = true ∨ abs = false)) (b : Bool) :
    AuthorityEnds abs (o.getD start, b || o.isSome) := by
  obtain ⟨hslash, hleaves⟩ := Bool.and_eq_true_iff.mp h
  obtain ⟨b₁, hb₁, hmark⟩ := marks_saved ha true b
  obtain ⟨b₂, hb₂, -⟩ := marks_saved ha false b
  exact ⟨⟨b₁, Goes.byte hslash hb₁, hmark rfl⟩, _, b₂, hleaves, hb₂⟩

/-- The path behind an authority. -/
theorem AuthorityEnds.path (hq : AuthorityEnds abs q) (hw : Derives uriRl (.rule .pathAbempty) w) :
    ∃ q', Goes q w q' ∧ Closed q' := by
  rcases pathAbempty_cases hw with rfl | ⟨v, rfl, hv⟩
  · exact ⟨q, .nil, hq.closed⟩
  · obtain ⟨b, hslash, hmark⟩ := hq.slash
    obtain ⟨cs, hmoves, hleaves⟩ := slashRest_ends abs hv
    refine ⟨(cs, b), hslash.append (Goes.quiet hmoves), ?_⟩
    cases abs with
    | true =>
        obtain rfl := hmark rfl
        exact ⟨_, false, hleaves, rfl⟩
    | false => exact ⟨_, b, hleaves, rfl⟩

/-- The states behind the colon in front of a port. -/
def beforePort (abs : Bool) (cs : Nat) : Prop :=
  ∃ only : Bool, cs = if only then portStart abs else colonStart abs

theorem Goes.host (hw : Derives uriRl (.rule .host) w) (abs user b : Bool) :
    ∃ q, Goes (hostFrom abs user, b) w q ∧ AuthorityEnds abs q ∧
      ∃ cs, beforePort abs cs ∧ Goes q [58] (cs, true) := by
  obtain ⟨o, hmoves, hend⟩ := host_ends abs user hw
  obtain ⟨hcloses, hcolon⟩ := Bool.and_eq_true_iff.mp hend
  refine ⟨_, Goes.part rfl hmoves b, authorityEnds_of_closes hcloses (.inl rfl) b, ?_⟩
  obtain ⟨cs, hcs, hgoes⟩ := List.any_eq_true.mp hcolon
  have hmarks : marks (entering .markh [.saveHost] o) (b || o.isSome) = some true := by
    cases o <;> simp [entering, marks, Action.mark]
  refine ⟨cs, ?_, Goes.byte hgoes hmarks⟩
  rcases List.mem_cons.mp hcs with rfl | hcs
  · exact ⟨false, rfl⟩
  · exact ⟨true, List.mem_singleton.mp hcs⟩

theorem empty_port_closes (abs only : Bool) :
    closes .savePort abs (if only then portStart abs else colonStart abs) none = true := by
  cases abs <;> cases only <;> decide

/-- A port; behind a scheme it is not empty. -/
theorem Goes.port {cs : Nat} (hcs : beforePort abs cs)
    (hw : Derives uriRl (plus (.bytes digit)) w ∨ w = [] ∧ abs = false) :
    ∃ q, Goes (cs, true) w q ∧ AuthorityEnds abs q := by
  obtain ⟨only, rfl⟩ := hcs
  rcases hw with hw | ⟨rfl, rfl⟩
  · obtain ⟨o, hmoves, hend⟩ := port_ends abs only hw
    obtain ⟨hsome, hcloses⟩ := Bool.and_eq_true_iff.mp hend
    obtain ⟨cs', rfl⟩ := Option.isSome_iff_exists.mp hsome
    exact ⟨_, Goes.part rfl hmoves true,
      authorityEnds_of_closes (o := some cs') hcloses (.inr ⟨rfl, .inl rfl⟩) true⟩
  · exact ⟨_, .nil, authorityEnds_of_closes (o := none) (empty_port_closes false only)
      (.inr ⟨rfl, .inr rfl⟩) true⟩

/-- An empty port behind a scheme, and a path: the end throws. -/
theorem Goes.behindColon {cs : Nat} (hcs : beforePort true cs)
    (hw : Derives uriRl (.rule .pathAbempty) w) : ∃ q as, Goes (cs, true) w q ∧
      leavesWith as q.1 = true ∧ marks as q.2 = none := by
  obtain ⟨only, rfl⟩ := hcs
  obtain ⟨hslash, hleaves⟩ := Bool.and_eq_true_iff.mp (empty_port_closes true only)
  rcases pathAbempty_cases hw with rfl | ⟨v, rfl, hv⟩
  · exact ⟨_, _, .nil, hleaves, rfl⟩
  · obtain ⟨cs', hmoves, hleaves⟩ := slashRest_ends true hv
    exact ⟨(cs', false), _, (Goes.byte hslash rfl).append (Goes.quiet hmoves), hleaves, rfl⟩

end Authority

/-! ## References -/

/-- A `userinfo` and `@`, where they are there. -/
def userPrefix : Expr Rule := optional (seqs [.rule .userinfo, .bytes atSign])

/-- A scheme, an authority with an empty port, and a path. -/
def emptyPort : Expr Rule :=
  seqs [.rule .scheme, .bytes colon, .bytes slash, .bytes slash, userPrefix, .rule .host,
    .bytes colon, .rule .pathAbempty]

section References

variable {u v w d p : List UInt8} {abs : Bool}

theorem eq_of_bytes {n : Nat} {w : List UInt8} (c : UInt8) (hn : n = byte c.toNat)
    (h : Derives uriRl (.bytes n) w) : w = [c] := by
  obtain ⟨c', hc', rfl⟩ := h.of_bytes
  rw [hn, has_byte] at hc'
  rw [UInt8.toNat_inj.mp hc']

theorem Goes.scheme (hw : Derives uriRl (.rule .scheme) w) :
    Goes (uriParserStart, false) (w ++ [58]) (partsStart true, false) := by
  obtain ⟨o, hmoves, hend⟩ := scheme_ends hw
  obtain ⟨hsome, hgoes⟩ := Bool.and_eq_true_iff.mp hend
  have hpart := Goes.part rfl hmoves false
  rw [hsome, Bool.or_true] at hpart
  exact hpart.append (Goes.byte hgoes rfl)

theorem Goes.userinfo (hu : Derives uriRl (.rule .userinfo) u) (abs : Bool) :
    ∃ b, Goes (authorityStart abs, false) (u ++ [64]) (hostStart abs, b) := by
  rcases userinfo_split hu with ⟨-, hreg⟩ | ⟨u₀, u₁, rfl, -, hreg, hu₁⟩
  · obtain ⟨o, hmoves, hend⟩ := userinfo_ends abs hreg
    have hmarks : marks (entering .markh [.saveUserinfo] o) (false || o.isSome) = some false := by
      cases o <;> rfl
    exact ⟨false, (Goes.part rfl hmoves false).append
      (Goes.byte (Bool.and_eq_true_iff.mp hend).1 hmarks)⟩
  · obtain ⟨o, hmoves, hend⟩ := userinfo_ends abs hreg
    have hmarks : marks (entering .markh [.saveHost] o) (false || o.isSome) = some true := by
      cases o <;> rfl
    have hcolon : Goes (authorityStart abs, false) (u₀ ++ [58]) (colonStart abs, true) :=
      (Goes.part rfl hmoves false).append (Goes.byte (Bool.and_eq_true_iff.mp hend).2 hmarks)
    have happend : u₀ ++ 58 :: u₁ ++ [64] = u₀ ++ [58] ++ (u₁ ++ [64]) := by simp
    rw [happend]
    rcases userinfo_head hu₁ with ⟨-, hu₁⟩ | ⟨-, hu₁⟩
    · obtain ⟨o', hmoves', hend'⟩ := digitUserinfo_ends abs hu₁
      obtain ⟨hsome, hgoes⟩ := Bool.and_eq_true_iff.mp hend'
      obtain ⟨cs', rfl⟩ := Option.isSome_iff_exists.mp hsome
      exact ⟨false, hcolon.append ((Goes.part rfl hmoves' true).append (Goes.byte hgoes rfl))⟩
    · obtain ⟨cs', hmoves', hgoes⟩ := plainUserinfo_ends abs hu₁
      exact ⟨false, hcolon.append ((Goes.quiet hmoves').append (Goes.byte hgoes rfl))⟩

/-- The slashes, the `userinfo` and the host. -/
theorem Goes.hostname (hu : Derives uriRl userPrefix u) (hw : Derives uriRl (.rule .host) w)
    (abs : Bool) : ∃ q, Goes (partsStart abs, false) ([47, 47] ++ (u ++ w)) q ∧
      AuthorityEnds abs q ∧ ∃ cs, beforePort abs cs ∧ Goes q [58] (cs, true) := by
  have hslashes : Goes (partsStart abs, false) [47, 47] (authorityStart abs, false) :=
    Goes.quiet (moves_slashes abs)
  rcases hu.of_upTo_one with rfl | hu
  · obtain ⟨q, hgoes, hends, hcolon⟩ := Goes.host hw abs false false
    exact ⟨q, hslashes.append hgoes, hends, hcolon⟩
  · obtain ⟨u, v, rfl, huser, hv⟩ := Derives.of_seq hu
    obtain rfl := eq_of_bytes 64 rfl hv
    obtain ⟨b, huser⟩ := Goes.userinfo huser abs
    obtain ⟨q, hgoes, hends, hcolon⟩ := Goes.host hw abs true b
    exact ⟨q, hslashes.append (huser.append hgoes), hends, hcolon⟩

/-- The parts of `"//" authority path_abempty`. -/
theorem netPath_cases (hw : Derives uriRl netPath w) : ∃ u h p v,
    w = [47, 47] ++ (u ++ h) ++ (p ++ v) ∧ Derives uriRl userPrefix u ∧
      Derives uriRl (.rule .host) h ∧ Derives uriRl (.rule .pathAbempty) v ∧
      (p = [] ∨ ∃ d, p = [58] ++ d ∧ Derives uriRl (.rule .port) d) := by
  obtain ⟨s, w, rfl, hs, hw⟩ := Derives.of_seq hw
  obtain ⟨t, w, rfl, ht, hw⟩ := Derives.of_seq hw
  obtain ⟨a, v, rfl, ha, hv⟩ := Derives.of_seq hw
  obtain ⟨u, a, rfl, hu, ha⟩ := Derives.of_seq ha.of_rule
  obtain ⟨h, p, rfl, hh, hp⟩ := Derives.of_seq ha
  obtain rfl := eq_of_bytes 47 rfl hs
  obtain rfl := eq_of_bytes 47 rfl ht
  refine ⟨u, h, p, v, by simp, hu, hh, hv, ?_⟩
  rcases hp.of_upTo_one with rfl | hp
  · exact .inl rfl
  · obtain ⟨c, d, rfl, hc, hd⟩ := Derives.of_seq hp
    obtain rfl := eq_of_bytes 58 rfl hc
    exact .inr ⟨d, rfl, hd⟩

theorem port_cases (hd : Derives uriRl (.rule .port) d) :
    d = [] ∨ Derives uriRl (plus (.bytes digit)) d := by
  rcases hd.of_rule.star_cases with rfl | ⟨u, v, rfl, hu, hv⟩
  · exact .inl rfl
  · exact .inr (.seq hu hv)

/-- An authority and a path, behind a scheme without an empty port. -/
theorem Goes.netPath (hw : Derives uriRl netPath w) (abs : Bool) :
    (∃ q, Goes (partsStart abs, false) w q ∧ Closed q) ∨
      abs = true ∧ ∃ u h v, w = [47, 47] ++ (u ++ h) ++ ([58] ++ v) ∧ Derives uriRl userPrefix u ∧
        Derives uriRl (.rule .host) h ∧ Derives uriRl (.rule .pathAbempty) v := by
  obtain ⟨u, h, p, v, rfl, hu, hh, hv, hp⟩ := netPath_cases hw
  obtain ⟨q, hgoes, hends, cs, hcs, hcolon⟩ := Goes.hostname hu hh abs
  have hport : ∀ d, Derives uriRl (plus (.bytes digit)) d ∨ d = [] ∧ abs = false →
      ∃ q', Goes (partsStart abs, false) ([47, 47] ++ (u ++ h) ++ ([58] ++ d ++ v)) q' ∧
        Closed q' := by
    intro d hd
    obtain ⟨q₁, hgoes₁, hends₁⟩ := Goes.port hcs hd
    obtain ⟨q', hpath, hclosed⟩ := hends₁.path hv
    exact ⟨q', hgoes.append ((hcolon.append hgoes₁).append hpath), hclosed⟩
  rcases hp with rfl | ⟨d, rfl, hd⟩
  · obtain ⟨q', hpath, hclosed⟩ := hends.path hv
    exact .inl ⟨q', hgoes.append hpath, hclosed⟩
  · rcases port_cases hd with rfl | hd
    · cases abs with
      | true => exact .inr ⟨rfl, u, h, v, by simp, hu, hh, hv⟩
      | false => exact .inl (hport [] (.inr ⟨rfl, rfl⟩))
    · exact .inl (hport d (.inl hd))

/-- A path without an authority. -/
theorem Goes.otherPath (hw : Derives uriRl (Uri.otherPath abs) w) :
    ∃ q, Goes (partsStart abs, false) w q ∧ Closed q := by
  obtain ⟨cs, hmoves, hleaves⟩ := otherPath_ends abs hw
  obtain ⟨b, hgoes⟩ := Goes.setting hmoves false
  exact ⟨(cs, b), hgoes, [], b, hleaves, rfl⟩

/-- A text with an empty port is taken; its end throws. -/
theorem Goes.ofEmptyPort (hw : Derives uriRl emptyPort w) : ∃ q as,
    Goes (uriParserStart, false) w q ∧ leavesWith as q.1 = true ∧ marks as q.2 = none := by
  obtain ⟨s, w, rfl, hs, hw⟩ := Derives.of_seq hw
  obtain ⟨c, w, rfl, hc, hw⟩ := Derives.of_seq hw
  obtain ⟨x, w, rfl, hx, hw⟩ := Derives.of_seq hw
  obtain ⟨y, w, rfl, hy, hw⟩ := Derives.of_seq hw
  obtain ⟨u, w, rfl, hu, hw⟩ := Derives.of_seq hw
  obtain ⟨h, w, rfl, hh, hw⟩ := Derives.of_seq hw
  obtain ⟨z, v, rfl, hz, hv⟩ := Derives.of_seq hw
  obtain rfl := eq_of_bytes 58 rfl hc
  obtain rfl := eq_of_bytes 47 rfl hx
  obtain rfl := eq_of_bytes 47 rfl hy
  obtain rfl := eq_of_bytes 58 rfl hz
  obtain ⟨q, hgoes, -, cs, hcs, hcolon⟩ := Goes.hostname hu hh true
  obtain ⟨q', as, hpath, hleaves, hmarks⟩ := Goes.behindColon hcs hv
  refine ⟨q', as, ?_, hleaves, hmarks⟩
  have hall := (Goes.scheme hs).append (hgoes.append (hcolon.append hpath))
  simpa using hall

theorem derives_emptyPort {s h : List UInt8} (hs : Derives uriRl (.rule .scheme) s)
    (hu : Derives uriRl userPrefix u) (hh : Derives uriRl (.rule .host) h)
    (hv : Derives uriRl (.rule .pathAbempty) v) :
    Derives uriRl emptyPort (s ++ [58] ++ ([47, 47] ++ (u ++ h) ++ ([58] ++ v))) := by
  have hcolon : Derives uriRl (.bytes colon) [58] := .bytes (by decide)
  have hslash : Derives uriRl (.bytes slash) [47] := .bytes (by decide)
  have hall : Derives uriRl emptyPort
      (s ++ ([58] ++ ([47] ++ ([47] ++ (u ++ (h ++ ([58] ++ v))))))) :=
    .seq hs (.seq hcolon (.seq hslash (.seq hslash (.seq hu (.seq hh (.seq hcolon hv))))))
  simpa using hall

/-- A reference is taken to its end, or has an empty port behind a scheme. -/
theorem reference_cases (hw : Derives uriRl (.rule .uriReference) w) :
    (∃ q, Goes (uriParserStart, false) w q ∧ Stops q) ∨
      ∃ u v, w = u ++ v ∧ Derives uriRl emptyPort u ∧ Derives uriRl tailExpr v := by
  rcases hw.of_rule.of_alt with hw | hw
  · obtain ⟨s, w, rfl, hs, hw⟩ := Derives.of_seq hw.of_rule
    obtain ⟨c, w, rfl, hc, hw⟩ := Derives.of_seq hw
    obtain ⟨h, v, rfl, hh, hv⟩ := Derives.of_seq hw
    obtain rfl := eq_of_bytes 58 rfl hc
    have hpath : (∃ q, Goes (partsStart true, false) h q ∧ Closed q) →
        ∃ q, Goes (uriParserStart, false) (s ++ ([58] ++ (h ++ v))) q ∧ Stops q := by
      rintro ⟨q, hgoes, hclosed⟩
      obtain ⟨q', htail, hstops⟩ := hclosed.tail hv
      refine ⟨q', ?_, hstops⟩
      have hall := (Goes.scheme hs).append (hgoes.append htail)
      simpa using hall
    rcases hh.of_rule.of_alt with hnet | hother
    · rcases Goes.netPath hnet true with hclosed | ⟨-, u, h, p, rfl, hu, hhost, hp⟩
      · exact .inl (hpath hclosed)
      · exact .inr ⟨_, v, by simp, derives_emptyPort hs hu hhost hp, hv⟩
    · exact .inl (hpath (Goes.otherPath hother))
  · obtain ⟨h, v, rfl, hh, hv⟩ := Derives.of_seq hw.of_rule
    have hclosed : ∃ q, Goes (partsStart false, false) h q ∧ Closed q := by
      rcases hh.of_rule.of_alt with hnet | hother
      · rcases Goes.netPath hnet false with hclosed | ⟨habs, -⟩
        · exact hclosed
        · cases habs
      · exact Goes.otherPath hother
    obtain ⟨q, hgoes, hclosed⟩ := hclosed
    obtain ⟨q', htail, hstops⟩ := hclosed.tail hv
    exact .inl ⟨q', hgoes.append htail, hstops⟩

end References

/-! ## What `Create` returns -/

theorem accepts_of_derives {text : List UInt8} (h : Derives uriRl (.rule .uriReference) text) :
    Accepts text := by
  rcases reference_cases h with ⟨⟨cs, b⟩, hgoes, hfinal, -⟩ | ⟨u, v, rfl, hu, hv⟩
  · exact ⟨cs, moves_state_of_move hgoes, hfinal⟩
  · obtain ⟨⟨cs, b⟩, as, hgoes, hleaves, -⟩ := Goes.ofEmptyPort hu
    simp only [leavesWith, Bool.and_eq_true, decide_eq_true_eq] at hleaves
    obtain ⟨⟨⟨hquestion, hhash⟩, -⟩, hfinal⟩ := hleaves
    have hstate : ∀ {c cs' w}, goes cs c as cs' = true →
        moves state cs ([c] ++ w) = moves state cs' w := by
      intro c cs' w hgo
      show (state cs c).bind (fun q => moves state q w) = _
      rw [state, next_of_goes hgo]
      rfl
    have hwhole : ∀ {w q'}, moves state cs w = some q' →
        moves state uriParserStart (u ++ w) = some q' := by
      intro w q' hw
      rw [moves_append, moves_state_of_move hgoes, Option.bind_some, hw]
    rcases tail_cases hv with rfl | ⟨x, y, rfl, hx, hy⟩ | ⟨f, rfl, hf⟩
    · exact ⟨cs, hwhole rfl, hfinal⟩
    · obtain ⟨⟨cs', b'⟩, hquery, hfinal', -⟩ := Goes.query hx hy false
      exact ⟨cs', hwhole ((hstate hquestion).trans (moves_state_of_move hquery)), hfinal'⟩
    · obtain ⟨⟨cs', b'⟩, hfragment, hfinal', -⟩ := Goes.fragment hf false
      exact ⟨cs', hwhole ((hstate hhash).trans (moves_state_of_move hfragment)), hfinal'⟩

/-- The machine accepts the texts of the main rule of `uri.rl`, and no others. -/
theorem accepts_iff_derives (text : List UInt8) :
    Accepts text ↔ Derives uriRl (.rule .uriReference) text :=
  ⟨derives_of_accepts, accepts_of_derives⟩

/-- The text begins with an empty port behind a scheme and with a path, and ends there or goes
on with `?` or `#`. -/
def HasEmptyPort (text : List UInt8) : Prop :=
  ∃ u rest, text = u ++ rest ∧ Derives uriRl emptyPort u ∧
    (rest.head? = none ∨ rest.head? = some 63 ∨ rest.head? = some 35)

theorem throwsAt_of_leavesWith {q : Nat × Bool} {as : List Action} {o : Option UInt8}
    (hleaves : leavesWith as q.1 = true) (hmarks : marks as q.2 = none)
    (ho : o = none ∨ o = some 63 ∨ o = some 35) : throwsAt q o = true := by
  simp only [leavesWith, Bool.and_eq_true, decide_eq_true_eq] at hleaves
  obtain ⟨⟨⟨hquestion, hhash⟩, heof⟩, -⟩ := hleaves
  rcases ho with rfl | rfl | rfl
  · rw [throwsAt, heof, hmarks]
    rfl
  · rw [throwsAt, next_of_goes hquestion, Option.any_some, hmarks]
    rfl
  · rw [throwsAt, next_of_goes hhash, Option.any_some, hmarks]
    rfl

/-- A byte that throws does not lead anywhere. -/
theorem move_of_throwsAt {q : Nat × Bool} {c : UInt8} (h : throwsAt q (some c) = true) :
    move q c = none := by
  obtain ⟨t, hnext, hnone⟩ := (Option.any_eq_true _ _).mp h
  rw [move, hnext, Option.bind_some, Option.isNone_iff_eq_none.mp hnone]
  rfl

theorem create_eq_none_of_emptyPort {text : List UInt8} (h : HasEmptyPort text) :
    create text = none := by
  obtain ⟨u, rest, rfl, hu, hrest⟩ := h
  obtain ⟨q, as, hgoes, hleaves, hmarks⟩ := Goes.ofEmptyPort hu
  exact create_eq_none_iff.mpr
    ⟨u, rest, q, rfl, hgoes, throwsAt_of_leavesWith hleaves hmarks hrest⟩

theorem emptyPort_of_create_eq_none {text : List UInt8} (h : create text = none) :
    HasEmptyPort text := by
  obtain ⟨pre, rest, q, rfl, hmoves, hthrows⟩ := create_eq_none_iff.mp h
  have hstart : Tracked (uriParserStart, false) := .inr (by decide)
  obtain ⟨hstuck, hrest⟩ := (hstart.moves hmoves).stuck hthrows
  simp only [stuck, Bool.and_eq_true, decide_eq_true_eq] at hstuck
  obtain ⟨⟨⟨hend, -⟩, -⟩, hfinal⟩ := hstuck
  have haccepts : Accepts pre := ⟨q.1, moves_state_of_move hmoves, hfinal⟩
  rcases reference_cases (derives_of_accepts haccepts) with
    ⟨q', hgoes, -, hstops⟩ | ⟨u, v, rfl, hu, hv⟩
  · obtain rfl := Option.some.inj (hmoves.symm.trans hgoes)
    rw [hend] at hstops
    cases hstops
  · obtain ⟨q₁, as, hgoes, hleaves, hmarks⟩ := Goes.ofEmptyPort hu
    rw [moves_append, hgoes, Option.bind_some] at hmoves
    have hnext : ∀ {c w}, (some c = some (63 : UInt8) ∨ some c = some (35 : UInt8)) →
        moves move q₁ ([c] ++ w) ≠ some q := by
      intro c w hc heq
      rw [List.singleton_append, moves_cons,
        move_of_throwsAt (throwsAt_of_leavesWith hleaves hmarks (.inr hc))] at heq
      cases heq
    rcases tail_cases hv with rfl | ⟨x, y, rfl, -⟩ | ⟨f, rfl, -⟩
    · rw [List.append_nil]
      exact ⟨u, rest, rfl, hu, hrest⟩
    · exact absurd hmoves (hnext (.inl rfl))
    · exact absurd hmoves (hnext (.inr rfl))

/-- A text that is accepted has a result that is not null, if nothing throws. -/
theorem exists_create {text : List UInt8} (h : Accepts text) (hne : create text ≠ none) :
    ∃ uri, create text = some (some uri) := by
  obtain ⟨cs, hmoves, hfinal⟩ := h
  cases hscan : scan machine (act text) 0 uriParserStart {} text with
  | none =>
      rw [create, hscan, Option.bind_none] at hne
      exact absurd rfl hne
  | some r =>
      obtain ⟨m, n, stop⟩ := r
      obtain rfl := scan_more_of_moves hscan hmoves
      rw [create, hscan, Option.bind_some] at hne ⊢
      cases hacts : runActs (act text) text.length (eof cs) m with
      | none =>
          simp only [hacts, Option.map_none, ne_eq, not_true_eq_false] at hne
      | some m' => exact ⟨m'.uri, by simp only [hacts, Option.map_some, if_pos hfinal]⟩

/-- `Create` throws for an empty port behind a scheme, and for nothing else; it returns a `Uri`
for the other references of `uri.rl`. -/
theorem create_cases (text : List UInt8) :
    (create text = none ↔ HasEmptyPort text) ∧
      ((∃ uri, create text = some (some uri)) ↔
        Derives uriRl (.rule .uriReference) text ∧ ¬ HasEmptyPort text) := by
  have hthrows : create text = none ↔ HasEmptyPort text :=
    ⟨emptyPort_of_create_eq_none, create_eq_none_of_emptyPort⟩
  refine ⟨hthrows, ?_⟩
  constructor
  · rintro ⟨uri, huri⟩
    refine ⟨derives_of_accepts (moves_of_create huri), ?_⟩
    intro hport
    rw [hthrows.mpr hport] at huri
    cases huri
  · rintro ⟨hderives, hport⟩
    exact exists_create (accepts_of_derives hderives) fun h => hport (hthrows.mp h)

end CoLib.Uri
