/-
# `CoLib.Http.ResponseRoundTrip` — what a response's `dump` writes, the client's parser reads

The machine is followed through the parts of the text, as for a request.  The grammar
has alternatives of its own for three headers.  A name is followed through them letter by
letter: a state says that the name is the beginning of one of the three, or is none of
them (`InName`).  `Connection: close` leaves the machine in another state than the other
lines, from which the next line starts in the same way.

**Proved here.**  `dump_readsBack_iff`: for every response that the grammar can express,
`execute` on the text of `toString` finishes without error, gives back the response with
its headers as `sent`, and leaves exactly the body, if and only if the text has no more
than `INT_MAX` bytes.
-/
import CoLib.Http.ClientParser
import CoLib.Http.RoundTrip

namespace CoLib.Http

open Lib Lib.Scanner

/-! ## The table on many bytes -/

/-- Every byte from `lo` to `hi` is in one of the ranges, which stand in order in a row, and
`ok` holds of these ranges. -/
def covered (ok : Range → Bool) (hi : Nat) : Nat → List Range → Bool
  | lo, [] => decide (hi < lo)
  | lo, r :: row =>
      if hi < lo then true
      else if r.hi < lo then covered ok hi lo row
      else decide (r.lo ≤ lo) && !r.guarded && ok r && covered ok hi (r.hi + 1) row

theorem find_covered {ok : Range → Bool} {lo hi : Nat} {row : List Range}
    (h : covered ok hi lo row = true) {c : UInt8} (hlo : lo ≤ c.toNat) (hhi : c.toNat ≤ hi) :
    ∃ r, row.find? (Range.covers false c) = some r ∧ r.covers false c = true ∧ ok r = true := by
  have hne : ¬hi < lo := Nat.not_lt.mpr (hlo.trans hhi)
  induction row generalizing lo with
  | nil => exact absurd (of_decide_eq_true h) hne
  | cons r row ih =>
      rw [covered, if_neg hne] at h
      have hmiss : r.hi < c.toNat → ¬r.covers false c = true := by
        intro hlt hcov
        simp only [Range.covers, Bool.and_eq_true, decide_eq_true_eq] at hcov
        exact Nat.not_le.mpr hlt hcov.1.2
      split at h
      · rename_i hbefore
        rw [List.find?_cons_of_neg (hmiss (hbefore.trans_le hlo))]
        exact ih h hlo hne
      · simp only [Bool.and_eq_true, decide_eq_true_eq] at h
        obtain ⟨⟨⟨hfrom, hguard⟩, hok⟩, hrest⟩ := h
        by_cases hin : c.toNat ≤ r.hi
        · have hcov : r.covers false c = true := by
            simp [Range.covers, hfrom.trans hlo, hin, hguard]
          exact ⟨r, List.find?_cons_of_pos hcov, hcov, hok⟩
        · have hafter := Nat.not_le.mp hin
          rw [List.find?_cons_of_neg (hmiss hafter)]
          exact ih hrest hafter (Nat.not_lt.mpr (hafter.trans_le hhi))

/-- In state `q`, the bytes of the intervals go where they may. -/
def clientGoes (q : Nat) (on : List (Nat × Nat)) (ok : Range → List ClientAction × Nat → Bool) :
    Bool :=
  match clientRows.lookup q with
  | some row => on.all fun iv =>
      covered (fun r => r.target.clientTransition.any (ok r)) iv.2 iv.1 row
  | none => false

theorem clientNext_of_goes {q : Nat} {on : List (Nat × Nat)}
    {ok : Range → List ClientAction × Nat → Bool} (h : clientGoes q on ok = true) {c : UInt8}
    (hc : within on c.toNat = true) : ∃ r dest, r.covers false c = true ∧
      clientNext q c = some dest ∧ ok r dest = true := by
  rw [clientGoes] at h
  split at h
  · rename_i row hrow
    obtain ⟨iv, hiv, hin⟩ := List.any_eq_true.mp hc
    rw [Bool.and_eq_true, Nat.ble_eq, Nat.ble_eq] at hin
    obtain ⟨r, hfind, hcov, htarget⟩ :=
      find_covered (List.all_eq_true.mp h iv hiv) hin.1 hin.2
    obtain ⟨dest, hdest, hok⟩ := Option.any_eq_true _ _ |>.mp htarget
    refine ⟨r, dest, hcov, ?_, hok⟩
    rw [clientNext, hrow, Option.bind_some, hfind, Option.bind_some, hdest]
  · cases h

theorem clientNext_of_goes_to {q q' : Nat} {on : List (Nat × Nat)} {acts : List ClientAction}
    (h : clientGoes q on (fun _ dest => dest == (acts, q')) = true) {c : UInt8}
    (hc : within on c.toNat = true) : clientNext q c = some (acts, q') := by
  obtain ⟨-, dest, -, hdest, hok⟩ := clientNext_of_goes h hc
  rw [hdest, eq_of_beq hok]

/-- The bytes of a reason and of a value, those of a value's beginning, and the digits. -/
def textIntervals : List (Nat × Nat) := [(0, 9), (11, 12), (14, 255)]
def leadIntervals : List (Nat × Nat) := [(0, 8), (14, 31), (33, 255)]
def digitIntervals : List (Nat × Nat) := [(48, 57)]

theorem within_text {c : UInt8} (hc : c ≠ 10 ∧ c ≠ 13) :
    within textIntervals c.toNat = true := by
  have hlt := c.toNat_lt
  have hlf : c.toNat ≠ 10 := fun heq => hc.1 (UInt8.toNat_inj.mp heq)
  have hcr : c.toNat ≠ 13 := fun heq => hc.2 (UInt8.toNat_inj.mp heq)
  simp [within, textIntervals]
  omega

theorem within_lead {c : UInt8} (hc : isSpace c = false) : within leadIntervals c.toNat = true := by
  have hlt := c.toNat_lt
  rw [isSpace, Bool.or_eq_false_iff, beq_eq_false_iff_ne, Bool.and_eq_false_iff,
    decide_eq_false_iff_not, decide_eq_false_iff_not, UInt8.le_iff_toNat_le,
    UInt8.le_iff_toNat_le] at hc
  have hblank : c.toNat ≠ 32 := fun heq => hc.1 (UInt8.toNat_inj.mp heq)
  have hspace : ¬9 ≤ c.toNat ∨ ¬c.toNat ≤ 13 := hc.2
  simp [within, leadIntervals]
  omega

theorem within_digit {c : UInt8} (hc : isDigit c = true) :
    within digitIntervals c.toNat = true := by
  rw [isDigit, Bool.and_eq_true, decide_eq_true_eq, decide_eq_true_eq, UInt8.le_iff_toNat_le,
    UInt8.le_iff_toNat_le] at hc
  simp only [within, digitIntervals, List.any_cons, List.any_nil, Bool.or_false, Bool.and_eq_true,
    Nat.ble_eq]
  exact hc

theorem goes_text : clientGoes 18 textIntervals (fun _ dest => dest == ([.mark], 19)) = true ∧
    clientGoes 19 textIntervals (fun _ dest => dest == ([], 19)) = true ∧
    clientGoes 22 leadIntervals (fun _ dest => dest == ([.startValue], 23)) = true ∧
    clientGoes 23 textIntervals (fun _ dest => dest == ([], 23)) = true := by
  decide

theorem goes_digits : clientGoes 16 digitIntervals (fun _ dest => dest == ([.mark], 17)) = true ∧
    clientGoes 17 digitIntervals (fun _ dest => dest == ([], 17)) = true ∧
    clientGoes 112 digitIntervals (fun _ dest => dest == ([.startValue], 119)) = true ∧
    clientGoes 119 digitIntervals (fun _ dest => dest == ([], 119)) = true := by
  decide

/-- The table at the bytes between the parts. -/
theorem clientNext_between : clientNext 17 32 = some ([.statusCode], 18) ∧
    clientNext 19 13 = some ([.reasonPhrase], 24) ∧ clientNext 24 10 = some ([], 20) ∧
    clientNext 22 32 = some ([.startValue], 22) ∧
    clientNext 22 13 = some ([.startValue, .writeValue], 24) ∧
    clientNext 23 13 = some ([.writeValue], 24) ∧
    clientNext 119 13 = some ([.writeContentLen, .writeValue], 24) ∧
    clientNext 20 13 = some ([], 3) ∧ clientNext 43 13 = some ([.writeConnectionClose], 3) ∧
    clientNext 3 10 = some ([.done], 120) := by
  decide

theorem clientMachine_final {q : Nat} (h : q < 120) : clientMachine.final q = false :=
  decide_eq_false (Nat.not_le.mpr h)

/-! ## The names of headers -/

/-- What has been read of a name in a state that an alternative of its own leads to, in
lower case. -/
def spelled (q : Nat) : Option (List UInt8) :=
  if 25 ≤ q ∧ q ≤ 34 then some ((chars "connection").take (q - 24))
  else if 44 ≤ q ∧ q ≤ 60 then some ((chars "transfer-encoding").take (q - 43))
  else if 101 ≤ q ∧ q ≤ 111 then some ((chars "content-length").take (q - 97))
  else none

/-- The states inside a name. -/
def nameStates : List Nat := 21 :: (List.range 112).filter fun q => (spelled q).isSome

/-- After the name `w` the machine is in state `q`. -/
def InName (w : List UInt8) (q : Nat) : Prop :=
  q = 21 ∨ spelled q = some (w.map toLower)

theorem InName.mem {w : List UInt8} {q : Nat} (h : InName w q) : q ∈ nameStates := by
  rcases h with rfl | h
  · exact List.mem_cons_self
  · refine List.mem_cons_of_mem _ (List.mem_filter.mpr ⟨List.mem_range.mpr ?_, by rw [h]; rfl⟩)
    by_contra hge
    have hnone : spelled q = none := by
      rw [spelled, if_neg (by omega), if_neg (by omega), if_neg (by omega)]
    rw [hnone] at h
    cases h

theorem InName.lt {w : List UInt8} {q : Nat} (h : InName w q) : q < 120 := by
  rcases List.mem_cons.mp h.mem with rfl | hmem
  · decide
  · exact (List.mem_range.mp (List.mem_filter.mp hmem).1).trans (by decide)

/-- What the bytes of a name in one range may lead to. -/
def nameStep (acts : List ClientAction) (before : Option (List UInt8)) (r : Range)
    (dest : List ClientAction × Nat) : Bool :=
  dest.1 == acts && (dest.2 == 21 || r.lo == r.hi && (spelled dest.2).isSome &&
    spelled dest.2 == before.map (· ++ [toLower r.lo.toUInt8]))

/-- The table on the names: their beginnings, the letters inside them, and the colon behind
a name that is none of the three. -/
theorem goes_names :
    clientGoes 20 (tokenIntervals false) (nameStep [.startField] (some [])) = true ∧
    nameStates.all (fun q => clientGoes q (tokenIntervals false) (nameStep [] (spelled q)) &&
      ([34, 60, 111].contains q || clientNext q 58 == some ([.writeField], 22))) = true := by
  decide +kernel

theorem spelled_names : spelled 34 = some (chars "connection") ∧
    spelled 60 = some (chars "transfer-encoding") ∧
    spelled 111 = some (chars "content-length") := by
  decide

theorem nameStep_inName {acts : List ClientAction} {w : List UInt8} {before : Option (List UInt8)}
    {c : UInt8} {r : Range} {dest : List ClientAction × Nat}
    (hbefore : ∀ t, before = some t → t = w.map toLower) (hcov : r.covers false c = true)
    (h : nameStep acts before r dest = true) : dest.1 = acts ∧ InName (w ++ [c]) dest.2 := by
  rw [nameStep, Bool.and_eq_true, beq_iff_eq, Bool.or_eq_true, Bool.and_eq_true, Bool.and_eq_true,
    beq_iff_eq, beq_iff_eq, beq_iff_eq] at h
  refine ⟨h.1, h.2.imp_right ?_⟩
  rintro ⟨⟨hone, hsome⟩, heq⟩
  have hbyte : r.lo.toUInt8 = c := by
    simp only [Range.covers, Bool.and_eq_true, decide_eq_true_eq] at hcov
    have hlo : r.lo = c.toNat := Nat.le_antisymm hcov.1.1 (hcov.1.2.trans hone.ge)
    rw [hlo]
    exact UInt8.ofNat_toNat
  rw [hbyte] at heq
  cases hb : before with
  | none =>
      rw [heq, hb] at hsome
      cases hsome
  | some t =>
      rw [heq, hb, hbefore t hb, Option.map_some, List.map_append]
      rfl

section Name

variable {p q : Nat} {w xs : List UInt8} {P : HttpResponseParser}

/-- Inside a name, to its end. -/
theorem scans_name_rest (act : Nat → ClientAction → HttpResponseParser → Option HttpResponseParser)
    (p : Nat) (P : HttpResponseParser) (h : InName w q) (hname : ∀ c ∈ xs, isToken c = true) :
    ∃ q', InName (w ++ xs) q' ∧ Scans clientMachine act p q P xs q' P := by
  induction xs generalizing p q w with
  | nil => exact ⟨q, by rwa [List.append_nil], .nil⟩
  | cons c xs ih =>
      have hgoes := List.all_eq_true.mp goes_names.2 q h.mem
      rw [Bool.and_eq_true] at hgoes
      obtain ⟨r, ⟨acts, q₁⟩, hcov, hnext, hok⟩ :=
        clientNext_of_goes hgoes.1 (within_token false c (hname c List.mem_cons_self))
      have hbefore : ∀ t, spelled q = some t → t = w.map toLower := by
        intro t ht
        rcases h with rfl | hspell
        · cases ht
        · exact Option.some.inj (ht.symm.trans hspell)
      obtain ⟨rfl, hin⟩ := nameStep_inName hbefore hcov hok
      obtain ⟨q', hin', hscan⟩ := ih (p + 1) hin fun c hc => hname c (List.mem_cons_of_mem _ hc)
      refine ⟨q', ?_, .cons hnext (clientMachine_final hin.lt) rfl hscan⟩
      rwa [List.append_assoc] at hin'

/-- A name in lower case that is one of the three. -/
def IsOwn (name : List UInt8) : Prop :=
  name.map toLower ∈ [chars "connection", chars "transfer-encoding", chars "content-length"]

/-- The states at the ends of the three names are those of no other name. -/
theorem InName.not_end (h : InName w q) (hown : ¬IsOwn w) : [34, 60, 111].contains q = false := by
  rw [Bool.eq_false_iff]
  intro hend
  obtain ⟨h₁, h₂, h₃⟩ := spelled_names
  refine hown ?_
  rw [List.contains_iff_mem] at hend
  simp only [List.mem_cons, List.not_mem_nil, or_false] at hend
  rcases h with rfl | hspell
  · omega
  · rw [IsOwn]
    rcases hend with rfl | rfl | rfl
    · rw [← Option.some.inj (h₁.symm.trans hspell)]
      exact List.mem_cons_self
    · rw [← Option.some.inj (h₂.symm.trans hspell)]
      exact List.mem_cons_of_mem _ List.mem_cons_self
    · rw [← Option.some.inj (h₃.symm.trans hspell)]
      exact List.mem_cons_of_mem _ (List.mem_cons_of_mem _ List.mem_cons_self)

/-- A name that is none of the three, and the colon. -/
theorem scans_name {name : List UInt8} (buffer : List UInt8) (hne : name ≠ [])
    (hname : ∀ c ∈ name, isToken c = true) (hown : ¬IsOwn name) :
    Scans clientMachine (ClientAction.run buffer) p 20 P (name ++ [58]) 22
      { P with fieldStart := p, fieldLen := name.length } := by
  obtain ⟨c, xs, rfl⟩ := List.exists_cons_of_ne_nil hne
  obtain ⟨r, ⟨acts, q₁⟩, hcov, hnext, hok⟩ :=
    clientNext_of_goes goes_names.1 (within_token false c (hname c List.mem_cons_self))
  obtain ⟨rfl, hin⟩ := nameStep_inName (w := []) (fun t ht => (Option.some.inj ht).symm) hcov hok
  obtain ⟨q, hend, hscan⟩ := scans_name_rest (ClientAction.run buffer) (p + 1)
    { P with fieldStart := p } hin fun c hc => hname c (List.mem_cons_of_mem _ hc)
  have hother : [34, 60, 111].contains q = false := InName.not_end hend hown
  have hcolon := List.all_eq_true.mp goes_names.2 q hend.mem
  rw [hother, Bool.false_or, Bool.and_eq_true, beq_iff_eq] at hcolon
  have hend : Scans clientMachine (ClientAction.run buffer) (p + 1 + xs.length) q
      { P with fieldStart := p } [58] 22
      { P with fieldStart := p, fieldLen := (c :: xs).length } := by
    refine .cons hcolon.2 (clientMachine_final (by decide)) ?_ .nil
    have hlen : p + 1 + xs.length - p = (c :: xs).length := by
      rw [List.length_cons]
      omega
    simp only [runActs, ClientAction.run, Option.bind_some, hlen]
  exact .cons hnext (clientMachine_final hin.lt) rfl (hscan.append hend)

end Name

/-! ## The parser on a part -/

/-- After `pre`, the parser takes `xs` from state `q` to state `q'` without an error, and
`f` is what becomes of the response. -/
abbrev ClientPasses (pre xs : List UInt8) (q q' : Nat) (f : HttpResponse → HttpResponse) : Prop :=
  Scanner.Passes clientMachine ClientAction.run (fun P : HttpResponseParser => P.error = 0)
    HttpResponseParser.data pre xs q q' f

section Parts

open HttpResponseParser

variable {pre xs : List UInt8} {q p : Nat} {P : HttpResponseParser}

/-! ### The status line -/

/-- The machine on a version and the blank behind it. -/
theorem walk_clientVersion : ∀ d ∈ [(48 : UInt8), 49],
    walk clientMachine 0 1 (chars "HTTP/1." ++ [d] ++ [32]) =
      ⟨[(0, .mark), (8, .httpVersion)], (chars "HTTP/1." ++ [d] ++ [32]).length, .more 16⟩ := by
  decide +kernel

theorem clientPasses_version {d v : UInt8} (hv : (d = 48 ∧ v = 0x10) ∨ (d = 49 ∧ v = 0x11)) :
    ClientPasses pre (chars "HTTP/1." ++ [d] ++ [32]) 1 16 fun r => { r with version := v } := by
  refine Scanner.Passes.fixed _
    (walk_clientVersion d (by rcases hv with ⟨rfl, -⟩ | ⟨rfl, -⟩ <;> simp)) ?_
  intro rest P hP
  have htok := token_version pre d [32] rest
  have hset : ∀ P : HttpResponseParser, P.setVersionOf (chars "HTTP/1." ++ [d])
      = { P with data := { P.data with version := v } } := by
    intro P
    rcases hv with ⟨rfl, rfl⟩ | ⟨rfl, rfl⟩
    · rw [setVersionOf, if_neg (by decide), if_pos (by decide)]
    · rw [setVersionOf, if_pos (by decide)]
  refine ⟨{ P with mark := pre.length, data := { P.data with version := v } }, ?_, hP, rfl⟩
  simp only [shift, List.map_cons, List.map_nil, Nat.zero_add, fold, ClientAction.run,
    Option.bind_some, onResponseVersion, htok, Option.map_some, hset]

/-- Digits, from the state before the first of them. -/
theorem scans_digits {act : Nat → ClientAction → HttpResponseParser → Option HttpResponseParser}
    {q₁ : Nat} {acts : List ClientAction} {P' : HttpResponseParser} (hlt : q₁ < 120)
    (hfirst : clientGoes q digitIntervals (fun _ dest => dest == (acts, q₁)) = true)
    (hloop : clientGoes q₁ digitIntervals (fun _ dest => dest == ([], q₁)) = true)
    (hrun : runActs act p acts P = some P') (hne : xs ≠ []) (h : ∀ c ∈ xs, isDigit c = true) :
    Scans clientMachine act p q P xs q₁ P' := by
  obtain ⟨c, xs, rfl⟩ := List.exists_cons_of_ne_nil hne
  exact .cons (clientNext_of_goes_to hfirst (within_digit (h c List.mem_cons_self)))
    (clientMachine_final hlt) hrun
    (.loop (fun c hc => clientNext_of_goes_to hloop
      (within_digit (h c (List.mem_cons_of_mem _ hc)))) (clientMachine_final hlt))

/-- The number that is written is read, also one that is negative as an `int`. -/
theorem ofInt_atoi (s : UInt32) (rest : List UInt8)
    (hrest : ∀ c, rest.head? = some c → 10 ≤ digitValue c) :
    UInt32.ofInt (atoi (decimalText s.toNat ++ rest)) = s := by
  have hlt := s.toNat_lt
  rw [atoi, strtol_numeral (numeral_decimalText _) hrest (by omega), UInt32.ofInt, narrow_emod]
  have hmod : ((s.toNat : Int) % 2 ^ 32).toNat = s.toNat := by omega
  rw [hmod]
  exact UInt32.ofNat_toNat

theorem clientPasses_status (s : UInt32) :
    ClientPasses pre (decimalText s.toNat ++ [32]) 16 18 fun r => { r with status := s } := by
  intro rest P hP
  obtain ⟨hne, hdigits, -⟩ := numeral_eq_some_iff.mp (numeral_decimalText s.toNat)
  obtain ⟨buffer, hbuf⟩ : ∃ buffer, pre ++ (decimalText s.toNat ++ [32]) ++ rest = buffer :=
    ⟨_, rfl⟩
  have hdrop : buffer.drop pre.length = decimalText s.toNat ++ (32 :: rest) := by
    rw [← hbuf, List.append_assoc, List.drop_left, List.append_assoc]
    rfl
  have hread := ofInt_atoi s (32 :: rest) (fun c hc => by
    obtain rfl := Option.some.inj hc
    decide)
  have hnumber : Scans clientMachine (ClientAction.run buffer) pre.length 16 P
      (decimalText s.toNat) 17 { P with mark := pre.length } :=
    scans_digits (by decide) goes_digits.1 goes_digits.2.1 rfl hne hdigits
  have hblank : runActs (ClientAction.run buffer) (pre.length + (decimalText s.toNat).length)
      [.statusCode] { P with mark := pre.length } = some
      { P with
        mark := pre.length
        status := some (narrow (strtol 10 (buffer.drop pre.length)))
        data := { P.data with status := s } } := by
    simp only [runActs, ClientAction.run, onResponseStatus, hdrop, hread, Option.bind_some]
  rw [hbuf]
  exact ⟨_, hnumber.append (.cons clientNext_between.1 (clientMachine_final (by decide)) hblank
    .nil), hP, rfl⟩

theorem clientPasses_reason (hne : xs ≠ []) (h : ∀ c ∈ xs, c ≠ 10 ∧ c ≠ 13) :
    ClientPasses pre (xs ++ crlf) 18 20 fun r => { r with reason := xs } := by
  intro rest P hP
  have htok := token_part pre [] xs crlf rest
  obtain ⟨buffer, hbuf⟩ : ∃ buffer, pre ++ (xs ++ crlf) ++ rest = buffer := ⟨_, rfl⟩
  have htok : token buffer pre.length (pre.length + xs.length) = some xs := by
    rw [← hbuf]
    exact htok
  have htext : Scans clientMachine (ClientAction.run buffer) pre.length 18 P xs 19
      { P with mark := pre.length } := by
    obtain ⟨c, xs, rfl⟩ := List.exists_cons_of_ne_nil hne
    exact .cons (clientNext_of_goes_to goes_text.1 (within_text (h c List.mem_cons_self)))
      (clientMachine_final (by decide)) rfl
      (.loop (fun c hc => clientNext_of_goes_to goes_text.2.1
        (within_text (h c (List.mem_cons_of_mem _ hc)))) (clientMachine_final (by decide)))
  have hend : runActs (ClientAction.run buffer) (pre.length + xs.length) [.reasonPhrase]
      { P with mark := pre.length } = some
      { P with mark := pre.length, data := { P.data with reason := xs } } := by
    simp only [runActs, ClientAction.run, onResponseReason, htok, Option.map_some, Option.bind_some]
  obtain ⟨-, hcr, hlf, -⟩ := clientNext_between
  rw [hbuf]
  exact ⟨_, htext.append (.cons hcr (clientMachine_final (by decide)) hend
    (.cons hlf (clientMachine_final (by decide)) rfl .nil)), hP, rfl⟩

/-! ### The headers -/

/-- A value and the line end: the field is set with what stands between. -/
theorem scans_fieldValue {buffer value : List UInt8} (hcontent : ∀ c ∈ value, c ≠ 10 ∧ c ≠ 13)
    (hlead : ∀ c, value.head? = some c → isSpace c = false) (hlen : P.fieldLen ≠ 0)
    (htok : token buffer p (p + value.length) = some value) :
    Scans clientMachine (ClientAction.run buffer) p 22 P (value ++ crlf) 20
      { P with
        mark := p
        data := P.data.setHeader ((buffer.drop P.fieldStart).take P.fieldLen) value } := by
  have hwrite : ClientAction.run buffer (p + value.length) .writeValue { P with mark := p } = some
      { P with
        mark := p
        data := P.data.setHeader ((buffer.drop P.fieldStart).take P.fieldLen) value } := by
    simp only [ClientAction.run, onResponseHttpField, if_neg hlen, htok, Option.map_some]
  obtain ⟨-, -, hlf, -, hempty, hcr, -⟩ := clientNext_between
  have hend : ∀ {p P}, Scans clientMachine (ClientAction.run buffer) p 24 P [10] 20 P :=
    fun {p P} => .cons hlf (clientMachine_final (by decide)) rfl .nil
  cases value with
  | nil =>
      refine .cons hempty (clientMachine_final (by decide)) ?_ hend
      have hwrite : ClientAction.run buffer p .writeValue { P with mark := p } = _ := hwrite
      rw [runActs, ClientAction.run, Option.bind_some, runActs, hwrite]
      rfl
  | cons c value =>
      have hc : within leadIntervals c.toNat = true := within_lead (hlead c rfl)
      have hloop : Scans clientMachine (ClientAction.run buffer) (p + 1) 23 { P with mark := p }
          value 23 { P with mark := p } :=
        .loop (fun c hc => clientNext_of_goes_to goes_text.2.2.2
          (within_text (hcontent c (List.mem_cons_of_mem _ hc))))
          (clientMachine_final (by decide))
      refine .cons (clientNext_of_goes_to goes_text.2.2.1 hc) (clientMachine_final (by decide)) rfl
        (hloop.append (.cons hcr (clientMachine_final (by decide)) ?_ hend))
      rw [List.length_cons, ← Nat.add_assoc, Nat.add_right_comm] at hwrite
      rw [runActs, hwrite]
      rfl

/-- A header line. -/
theorem clientPasses_field {name value : List UInt8} (hne : name ≠ [])
    (hname : ∀ c ∈ name, isToken c = true) (hown : ¬IsOwn name)
    (hcontent : ∀ c ∈ value, c ≠ 10 ∧ c ≠ 13)
    (hlead : ∀ c, value.head? = some c → isSpace c = false) :
    ClientPasses pre (name ++ [58] ++ ([32] ++ (value ++ crlf))) 20 20
      (·.setHeader name value) := by
  intro rest P hP
  obtain ⟨buffer, hbuf⟩ : ∃ buffer, pre ++ (name ++ [58] ++ ([32] ++ (value ++ crlf))) ++ rest
    = buffer := ⟨_, rfl⟩
  rw [hbuf]
  have hstart := scans_name (p := pre.length) (P := P) buffer hne hname hown
  have hblank : Scans clientMachine (ClientAction.run buffer) (pre.length + (name ++ [58]).length)
      22 { P with fieldStart := pre.length, fieldLen := name.length } [32] 22
      { P with
        fieldStart := pre.length
        fieldLen := name.length
        mark := pre.length + (name ++ [58]).length } :=
    .cons clientNext_between.2.2.2.1 (clientMachine_final (by decide)) rfl .nil
  have htok : token buffer (pre.length + (name ++ [58]).length + ([32] : List UInt8).length)
      (pre.length + (name ++ [58]).length + ([32] : List UInt8).length + value.length)
        = some value := by
    have h := token_part pre (name ++ [58] ++ [32]) value crlf rest
    simp only [List.append_assoc, List.length_append] at h hbuf ⊢
    rw [hbuf] at h
    simpa only [Nat.add_assoc] using h
  have hfield : (buffer.drop pre.length).take name.length = name := by
    rw [← hbuf]
    exact name_part ((List.prefix_append _ _).trans (List.prefix_append _ _))
  have hlen : name.length ≠ 0 := fun hzero => hne (List.length_eq_zero_iff.mp hzero)
  have hvalue := scans_fieldValue (P := { P with
    fieldStart := pre.length
    fieldLen := name.length
    mark := pre.length + (name ++ [58]).length }) hcontent hlead hlen htok
  rw [hfield] at hvalue
  exact ⟨_, hstart.append (hblank.append hvalue), hP, rfl⟩

/-- The machine on the `connection` line. -/
theorem walk_connection : ∀ r : HttpResponse,
    walk clientMachine 0 20 (chars "connection: " ++ r.connection ++ crlf) =
      ⟨[(0, .startField), (10, .writeField), (11, .startValue), (12, .startValue),
        (12 + r.connection.length, .writeValue)],
        (chars "connection: " ++ r.connection ++ crlf).length,
        .more (if r.close then 43 else 20)⟩ := by
  intro r
  rw [HttpResponse.connection]
  cases r.close
  · decide
  · decide

theorem clientPasses_connection (r : HttpResponse) :
    ClientPasses pre (chars "connection: " ++ r.connection ++ crlf) 20
      (if r.close then 43 else 20) (·.setHeader (chars "connection") r.connection) := by
  refine Scanner.Passes.fixed _ (walk_connection r) ?_
  intro rest P hP
  have hwidth : (chars "connection: ").length = 12 := by decide
  have htok := token_part pre (chars "connection: ") r.connection crlf rest
  obtain ⟨buffer, hbuf⟩ : ∃ buffer, pre ++ (chars "connection: " ++ r.connection ++ crlf) ++ rest
    = buffer := ⟨_, rfl⟩
  rw [hbuf] at htok ⊢
  have hfield : (buffer.drop pre.length).take 10 = chars "connection" := by
    have hname : chars "connection" <+: chars "connection: " := ⟨[58, 32], by decide⟩
    rw [← hbuf]
    exact name_part (hname.trans ((List.prefix_append _ _).trans (List.prefix_append _ _)))
  have hpos : 12 + r.connection.length + pre.length
      = pre.length + (chars "connection: ").length + r.connection.length := by
    rw [hwidth]
    omega
  have hmark : 12 + pre.length = pre.length + (chars "connection: ").length := by
    rw [hwidth, Nat.add_comm]
  refine ⟨{ P with
    fieldStart := pre.length
    fieldLen := 10
    mark := 12 + pre.length
    data := P.data.setHeader (chars "connection") r.connection }, ?_, hP, rfl⟩
  have hflen : 10 + pre.length - pre.length = 10 := by omega
  simp only [shift, List.map_cons, List.map_nil, Nat.zero_add, fold, ClientAction.run,
    Option.bind_some, hflen, onResponseHttpField, hpos, hmark, htok, Option.map_some, hfield]
  rfl

/-- The machine on the name of the length line, behind either form of the line before. -/
theorem walk_contentLength : ∀ q ∈ [20, 43],
    walk clientMachine 0 q (chars "content-length: ") =
      ⟨(if q = 43 then [(0, .writeConnectionClose)] else []) ++
        [(0, .startField), (14, .writeField), (15, .startValue)],
        (chars "content-length: ").length, .more 112⟩ := by
  decide

theorem scans_contentLength (buffer : List UInt8) (hq : q ∈ [20, 43]) :
    ∃ close, Scans clientMachine (ClientAction.run buffer) p q P (chars "content-length: ") 112
      { P with close, fieldStart := p, fieldLen := 14, mark := 15 + p } := by
  have hlen : 14 + p - p = 14 := by omega
  have hwalk := walk_contentLength q hq
  by_cases h43 : q = 43
  · refine ⟨true, .fixed _ hwalk ?_⟩
    rw [if_pos h43]
    simp only [List.cons_append, List.nil_append, shift, List.map_cons, List.map_nil, Nat.zero_add,
      fold, ClientAction.run, Option.bind_some, hlen]
  · refine ⟨P.close, .fixed _ hwalk ?_⟩
    rw [if_neg h43]
    simp only [List.nil_append, shift, List.map_cons, List.map_nil, Nat.zero_add, fold,
      ClientAction.run, Option.bind_some, hlen]

/-- The length line.  The grammar's own alternative reads the number besides. -/
theorem clientPasses_contentLength (n : Nat) (hq : q ∈ [20, 43]) :
    ClientPasses pre (chars "content-length: " ++ decimalText n ++ crlf) q 20
      (·.setHeader (chars "content-length") (decimalText n)) := by
  intro rest P hP
  have hwidth : (chars "content-length: ").length = 16 := by decide
  obtain ⟨hne, hdigits, -⟩ := numeral_eq_some_iff.mp (numeral_decimalText n)
  have htok := token_part pre (chars "content-length: ") (decimalText n) crlf rest
  obtain ⟨buffer, hbuf⟩ : ∃ buffer, pre ++ (chars "content-length: " ++ decimalText n ++ crlf)
    ++ rest = buffer := ⟨_, rfl⟩
  rw [hbuf] at htok ⊢
  have hfield : (buffer.drop pre.length).take 14 = chars "content-length" := by
    have hname : chars "content-length" <+: chars "content-length: " := ⟨[58, 32], by decide⟩
    rw [← hbuf]
    exact name_part (hname.trans ((List.prefix_append _ _).trans (List.prefix_append _ _)))
  obtain ⟨close, hname⟩ := scans_contentLength (p := pre.length) (P := P) buffer hq
  have hnumber : Scans clientMachine (ClientAction.run buffer)
      (pre.length + (chars "content-length: ").length) 112
      { P with close, fieldStart := pre.length, fieldLen := 14, mark := 15 + pre.length }
      (decimalText n) 119
      { P with
        close
        fieldStart := pre.length
        fieldLen := 14
        mark := pre.length + (chars "content-length: ").length } :=
    scans_digits (by decide) goes_digits.2.2.1 goes_digits.2.2.2 rfl hne hdigits
  have hline : runActs (ClientAction.run buffer)
      (pre.length + (chars "content-length: " ++ decimalText n).length)
      [.writeContentLen, .writeValue]
      { P with
        close
        fieldStart := pre.length
        fieldLen := 14
        mark := pre.length + (chars "content-length: ").length } = some
      { P with
        close
        fieldStart := pre.length
        fieldLen := 14
        mark := pre.length + (chars "content-length: ").length
        contentLen := narrow (strtol 10
          (buffer.drop (pre.length + (chars "content-length: ").length)))
        data := P.data.setHeader (chars "content-length") (decimalText n) } := by
    rw [List.length_append, ← Nat.add_assoc]
    simp only [runActs, ClientAction.run, Option.bind_some, onResponseHttpField, htok,
      Option.map_some, hfield]
    rfl
  obtain ⟨-, -, hlf, -, -, -, hcr, -⟩ := clientNext_between
  exact ⟨_, (hname.append hnumber).append (.cons hcr (clientMachine_final (by decide)) hline
    (.cons hlf (clientMachine_final (by decide)) rfl .nil)), hP, rfl⟩

end Parts

/-! ## The responses that the grammar can express -/

namespace HttpResponse

/-- A header whose line the generic alternative of the grammar takes as it stands. -/
structure Field (h : List UInt8 × List UInt8) : Prop where
  name : h.1 ≠ []
  token : ∀ c ∈ h.1, isToken c = true
  content : ∀ c ∈ h.2, c ≠ 10 ∧ c ≠ 13
  leading : ∀ c, h.2.head? = some c → isSpace c = false

/-- The responses of which the grammar can express every part. -/
structure Expressible (r : HttpResponse) : Prop where
  version : r.version = 0x10 ∨ r.version = 0x11
  reason : r.reason ≠ [] ∧ ∀ c ∈ r.reason, c ≠ 10 ∧ c ≠ 13
  /-- `m_headers` is a `std::map`. -/
  sorted : OrderedSet.SortedBy headerKey r.headers
  field : ∀ h ∈ r.headers, Field h
  noLength : ∀ h ∈ r.headers, strcasecmpEq h.1 (chars "content-length") = false
  noEncoding : ∀ h ∈ r.headers, strcasecmpEq h.1 (chars "transfer-encoding") = false

/-- The headers, with `connection` replaced and `content-length` added when there
is a body. -/
def sent (r : HttpResponse) : List (List UInt8 × List UInt8) :=
  r.dumped ++ (chars "connection", r.connection) ::
    if r.body = [] then [] else [(chars "content-length", decimalText r.body.length)]

variable {pre : List UInt8} {r d : HttpResponse}

/-! ### The status line -/

/-- The version as it is written. -/
theorem version_text {v : UInt8} (h : v = 0x10 ∨ v = 0x11) :
    ∃ c : UInt8, ((c = 48 ∧ v = 0x10) ∨ (c = 49 ∧ v = 0x11)) ∧
      chars "HTTP/" ++ decimalText (v.toNat >>> 4) ++ chars "." ++ decimalText (v.toNat &&& 0x0F)
        = chars "HTTP/1." ++ [c] := by
  rcases h with rfl | rfl
  · exact ⟨48, .inl ⟨rfl, rfl⟩, by decide⟩
  · exact ⟨49, .inr ⟨rfl, rfl⟩, by decide⟩

theorem passes_statusLine (h : r.Expressible) :
    ClientPasses [] (r.statusLine ++ crlf) 1 20 fun d =>
      { d with version := r.version, status := r.status, reason := r.reason } := by
  obtain ⟨c, hc, htext⟩ := version_text h.version
  obtain ⟨hne, hreason⟩ := h.reason
  refine (((clientPasses_version hc).trans (clientPasses_status r.status)).trans
    (clientPasses_reason hne hreason)).congr ?_ fun _ => rfl
  have hblank : chars " " = [32] := by decide
  rw [statusLine, if_neg hne, htext, hblank]
  simp only [List.append_assoc]

/-! ### The headers -/

/-- The headers of the loop have none of the three names. -/
theorem not_isOwn (h : r.Expressible) {e : List UInt8 × List UInt8} (he : e ∈ r.dumped) :
    ¬IsOwn e.1 := by
  obtain ⟨hmem, hconn⟩ := List.mem_filter.mp he
  have hfolded : folded e.1 = e.1.map toLower := by
    have hall : ∀ c ∈ e.1, (c != 0) = true := by
      intro c hc
      refine bne_iff_ne.mpr fun hzero => ?_
      have htoken := (h.field e hmem).token c hc
      rw [hzero] at htoken
      cases htoken
    rw [folded, List.takeWhile_eq_self_iff.mpr hall]
  have hno : ∀ name, folded name = name → strcasecmpEq e.1 name = false →
      e.1.map toLower ≠ name := by
    intro name hname hcmp heq
    rw [strcasecmpEq, hfolded, heq, hname, beq_self_eq_true] at hcmp
    cases hcmp
  intro hown
  simp only [IsOwn, List.mem_cons, List.not_mem_nil, or_false] at hown
  rcases hown with heq | heq | heq
  · exact hno _ (by decide) (by simpa using hconn) heq
  · exact hno _ (by decide) (h.noEncoding e hmem) heq
  · exact hno _ (by decide) (h.noLength e hmem) heq

/-- The lines of a list of headers. -/
theorem passes_fields {hs : List (List UInt8 × List UInt8)} (h : ∀ e ∈ hs, Field e)
    (hown : ∀ e ∈ hs, ¬IsOwn e.1) :
    ClientPasses pre (hs.map fun e => e.1 ++ chars ": " ++ e.2 ++ crlf).flatten 20 20
      fun d => hs.foldl (fun d e => d.setHeader e.1 e.2) d := by
  refine Scanner.Passes.lines (fun e hmem pre => ?_) pre
  have he := h e hmem
  have hcolon : chars ": " = [58, 32] := by decide
  exact (clientPasses_field he.name he.token (hown e hmem) he.content he.leading).congr
    (by simp [hcolon]) fun _ => rfl

/-- The headers as a list of lines set them, one after another. -/
def setHeaders (hs : List (List UInt8 × List UInt8)) (d : HttpResponse) : HttpResponse :=
  hs.foldl (fun d e => d.setHeader e.1 e.2) d

/-- The header lines. -/
def headerLines (r : HttpResponse) : List UInt8 :=
  (r.dumped.map fun e => e.1 ++ chars ": " ++ e.2 ++ crlf).flatten
    ++ (chars "connection: " ++ r.connection ++ crlf)
    ++ if r.body = [] then [] else
      chars "content-length: " ++ decimalText r.body.length ++ crlf

/-- They end in one of the states before a line. -/
theorem passes_headers (h : r.Expressible) :
    ∃ q ∈ [20, 43], ClientPasses pre r.headerLines 20 q (setHeaders r.sent) := by
  have hfields : ∀ e ∈ r.dumped, Field e := fun e he => h.field e (List.mem_filter.mp he).1
  have hloop : ClientPasses pre _ 20 20 _ :=
    passes_fields hfields fun e he => not_isOwn h he
  have hlines := hloop.trans (clientPasses_connection r)
  have hq : (if r.close then 43 else 20) ∈ [20, 43] := by
    cases r.close <;> decide
  by_cases hb : r.body = []
  · refine ⟨_, hq, hlines.congr (by simp [headerLines, hb]) fun d => ?_⟩
    simp [setHeaders, sent, hb]
  · refine ⟨20, by decide, (hlines.trans (clientPasses_contentLength r.body.length hq)).congr
      (by simp [headerLines, hb]) fun d => ?_⟩
    simp [setHeaders, sent, hb]

/-! ### The map -/

theorem setHeaders_headers (hs : List (List UInt8 × List UInt8)) (d : HttpResponse) :
    (setHeaders hs d).headers = hs.foldl assignHeader d.headers :=
  (List.foldl_hom HttpResponse.headers fun _ _ => rfl).symm

/-- The headers of a line leave the other fields alone. -/
theorem setHeaders_frame (hs : List (List UInt8 × List UInt8)) (d : HttpResponse) :
    { setHeaders hs d with headers := d.headers } = d := by
  induction hs generalizing d with
  | nil => rfl
  | cons e hs ih =>
      exact congrArg (fun x => { x with headers := d.headers }) (ih (d.setHeader e.1 e.2))

/-- No two headers that are sent have one name. -/
theorem sent_pairwise (h : r.Expressible) :
    r.sent.Pairwise fun e e' => headerKey e ≠ headerKey e' := by
  have hwritten : ((chars "connection", r.connection) :: r.dumped ++
      if r.body = [] then [] else [(chars "content-length", decimalText r.body.length)]).Pairwise
        fun e e' => headerKey e ≠ headerKey e' := by
    refine written_pairwise h.sorted h.noLength r.connection (fun e he => ?_) ?_
    · split at he
      · cases he
      · rw [List.mem_singleton.mp he]
    · split <;> simp
  exact (List.perm_middle.pairwise_iff fun hne => hne.symm).mpr hwritten

/-! ### The end of the headers -/

/-- All that `dump` writes before the empty line. -/
def head (r : HttpResponse) : List UInt8 :=
  r.statusLine ++ crlf ++ r.headerLines

theorem dump_eq (r : HttpResponse) : r.dump = r.head ++ (crlf ++ r.body) := by
  by_cases hb : r.body = []
  · simp [dump, head, headerLines, hb]
  · simp [dump, head, headerLines, hb]

theorem passes_head (h : r.Expressible) :
    ∃ q ∈ [20, 43], ClientPasses [] r.head 1 q fun d => setHeaders r.sent
      { d with version := r.version, status := r.status, reason := r.reason } := by
  obtain ⟨q, hq, hheaders⟩ := passes_headers h
  exact ⟨q, hq, (passes_statusLine h).trans hheaders⟩

/-- The empty line halts the machine, and the rest is left. -/
theorem execute_of_passes {head : List UInt8} (rest : List UInt8) {q : Nat} (hq : q ∈ [20, 43])
    {f : HttpResponse → HttpResponse} (h : ClientPasses [] head 1 q f)
    (hlen : (head ++ (crlf ++ rest)).length ≤ intMax) :
    ∃ P n, HttpResponseParser.execute (head ++ (crlf ++ rest)) false {} = some (P, n, rest) ∧
      P.error = 0 ∧ P.cs = httpclientParserFirstFinal ∧ P.data = f {} := by
  obtain ⟨P, hscan, hP, hd⟩ := h (crlf ++ rest) ({} : HttpResponseParser).clear rfl
  rw [List.nil_append] at hscan
  have hne : head ++ (crlf ++ rest) ≠ [] := by simp [crlf]
  obtain ⟨-, -, -, -, -, -, -, hblank, hclose, hlf⟩ := clientNext_between
  obtain ⟨acts, close, hcr, hacts⟩ : ∃ acts close, clientMachine.next q 13 = some (acts, 3) ∧
      ∀ p, runActs (ClientAction.run (head ++ (crlf ++ rest))) p acts P
        = some { P with close } := by
    simp only [List.mem_cons, List.not_mem_nil, or_false] at hq
    rcases hq with rfl | rfl
    · exact ⟨[], P.close, hblank, fun _ => rfl⟩
    · exact ⟨[.writeConnectionClose], true, hclose, fun _ => rfl⟩
  have hend : scan clientMachine (ClientAction.run (head ++ (crlf ++ rest))) (0 + head.length) q P
      (crlf ++ rest) =
        some ({ P with close, bodyStart := 0 + head.length + 1 + 1 }, 2, .halt 120) := by
    have hlf : clientMachine.next 3 10 = some ([.done], 120) := hlf
    have hfinal : clientMachine.final 120 = true := rfl
    simp only [crlf, List.cons_append, List.nil_append] at hacts ⊢
    simp only [scan, hcr, hacts, hlf, runActs, ClientAction.run, Option.bind_some,
      clientMachine_final (show 3 < 120 by decide), hfinal, if_true, Bool.false_eq_true, if_false,
      Option.map_some]
  have hrun := hscan.scan_append (crlf ++ rest)
  rw [List.length_nil, hend, Option.map_some] at hrun
  have hleft : (head ++ (crlf ++ rest)).drop (head.length + 2) = rest := by
    have hlen : head.length + 2 = (head ++ crlf).length := by simp [crlf]
    rw [hlen, ← List.append_assoc, List.drop_left]
  refine ⟨{ P with
    close
    bodyStart := 0 + head.length + 1 + 1
    cs := httpclientParserFirstFinal }, head.length + 2, ?_, hP, rfl, hd⟩
  have hstart : scan clientMachine (ClientAction.run (head ++ (crlf ++ rest))) 0
      ({} : HttpResponseParser).cs ({} : HttpResponseParser).clear (head ++ (crlf ++ rest)) = _ :=
    hrun
  rw [HttpResponseParser.execute_eq hne hlen (Nat.zero_le _), hstart, Option.map_some]
  simp only [hleft]
  rfl

/-! ## The theorem -/

/-- The response that is given back: the parts of `r`, and its headers as `sent`. -/
structure GivenBack (r d : HttpResponse) : Prop where
  version : d.version = r.version
  status : d.status = r.status
  reason : d.reason = r.reason
  sorted : OrderedSet.SortedBy headerKey d.headers
  headers : ∀ e, e ∈ d.headers ↔ e ∈ r.sent

/-- One call of `execute` on the text of `toString` finishes without error, gives the
response back and leaves the body at the front of the buffer. -/
def ReadsBack (r : HttpResponse) : Prop :=
  ∃ P n left, HttpResponseParser.execute r.dump false {} = some (P, n, left) ∧
    P.hasError = false ∧ P.isFinished = 1 ∧ r.GivenBack P.data ∧ left = r.body

theorem givenBack (h : r.Expressible) :
    r.GivenBack (setHeaders r.sent { ({} : HttpResponse) with
      version := r.version, status := r.status, reason := r.reason }) := by
  obtain ⟨d, hd⟩ : ∃ d, { ({} : HttpResponse) with
    version := r.version, status := r.status, reason := r.reason } = d := ⟨_, rfl⟩
  have hheaders : d.headers = [] := by rw [← hd]
  have hframe := setHeaders_frame r.sent d
  have hnew : ∀ e ∈ d.headers, ∀ e' ∈ r.sent, headerKey e ≠ headerKey e' := by simp [hheaders]
  obtain ⟨hsorted, hmem⟩ := assignHeaders_fresh (by rw [hheaders]; exact List.Pairwise.nil) hnew
    (sent_pairwise h)
  rw [← setHeaders_headers] at hsorted hmem
  rw [hd]
  exact
    { version := (congrArg HttpResponse.version hframe).trans (hd ▸ rfl)
      status  := (congrArg HttpResponse.status hframe).trans (hd ▸ rfl)
      reason  := (congrArg HttpResponse.reason hframe).trans (hd ▸ rfl)
      sorted  := hsorted
      headers := fun e => by simpa [hheaders] using hmem e }

theorem readsBack (h : r.Expressible) (hlen : r.dump.length ≤ intMax) : r.ReadsBack := by
  obtain ⟨q, hq, hhead⟩ := passes_head h
  rw [dump_eq] at hlen
  obtain ⟨P, n, hexec, herror, hcs, hd⟩ := execute_of_passes r.body hq hhead hlen
  refine ⟨P, n, r.body, by rw [dump_eq, hexec], ?_, ?_, hd ▸ givenBack h, rfl⟩
  · rw [HttpResponseParser.hasError, herror, hcs]
    rfl
  · rw [HttpResponseParser.isFinished, hcs]
    rfl

/-- A text that an `int` cannot count fails the assertion. -/
theorem not_readsBack (hlen : intMax < r.dump.length) : ¬r.ReadsBack := by
  rintro ⟨P, n, left, hexec, -⟩
  rw [HttpResponseParser.execute_long hlen] at hexec
  cases hexec

/-- What `dump` writes of a response that the grammar can express is read back, as long as
an `int` can count it. -/
theorem dump_readsBack_iff (r : HttpResponse) (h : r.Expressible) :
    r.ReadsBack ↔ r.dump.length ≤ intMax :=
  ⟨fun hback => Nat.le_of_not_lt fun hlen => not_readsBack hlen hback, readsBack h⟩

/-! ### A response -/

/-- A response with two headers, one of them replaced. -/
def small (body : List UInt8) : HttpResponse :=
  { status := 404, version := 0x10, reason := chars "Not Found", body,
    headers := [(chars "Connection", chars "x"), (chars "Server", chars "co")] }

theorem noLineEnd_of_all {l : List UInt8} (h : l.all (fun c => c != 10 && c != 13) = true) :
    ∀ c ∈ l, c ≠ 10 ∧ c ≠ 13 := by
  simpa using h

theorem small_expressible (body : List UInt8) : (small body).Expressible where
  version    := .inl rfl
  reason     := ⟨by simp only [small]; decide, noLineEnd_of_all rfl⟩
  sorted     := List.pairwise_pair.mpr (by decide)
  field      := by
    intro e he
    rcases List.mem_pair.mp he with rfl | rfl
    · refine ⟨by decide, List.all_eq_true.mp rfl, noLineEnd_of_all rfl, fun c hc => ?_⟩
      cases hc
      rfl
    · refine ⟨by decide, List.all_eq_true.mp rfl, noLineEnd_of_all rfl, fun c hc => ?_⟩
      cases hc
      rfl
  noLength   := by simp only [small]; decide
  noEncoding := by simp only [small]; decide

/-- With a body of two bytes. -/
theorem dump_readsBack_two : (small [0, 10]).ReadsBack :=
  (dump_readsBack_iff (small [0, 10]) (small_expressible [0, 10])).mpr (by decide)

/-- A body of 2^31 bytes. -/
theorem dump_long_lost : (small (List.replicate (2 ^ 31) 0)).Expressible ∧
    ¬(small (List.replicate (2 ^ 31) 0)).ReadsBack := by
  refine ⟨small_expressible _, not_readsBack ?_⟩
  rw [dump_eq, List.length_append, List.length_append]
  have hbody : (small (List.replicate (2 ^ 31) 0)).body.length = 2 ^ 31 := List.length_replicate
  rw [hbody, intMax]
  omega

end HttpResponse

end CoLib.Http
