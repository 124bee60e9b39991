/-
# `CoLib.Http.Pieces` — feeding the parser in pieces

`HttpSession::recvRequest` calls `execute` once for each read.  The machine goes
on from the saved state, but its registers are offsets into the current read.
A token is handed to its callback in one piece if the positions where its
registers were set and the position of the callback are in one read.

**Proved here.**  If no read ends inside such a token (`NotCut`), the pieces
give the same request as the whole (`feed_of_notCut`).
-/
import CoLib.Http.Parser

namespace CoLib.Http

open Lib Lib.Scanner

/-- The registers that outlive the byte they are set at. -/
inductive Register where
  | mark
  | fieldStart
  | fieldLen
  | queryStart
  deriving DecidableEq, Repr

def Action.writes : Action → List Register
  | .mark | .startValue => [.mark]
  | .startField => [.fieldStart]
  | .writeField => [.fieldLen]
  | .startQuery => [.queryStart]
  | _ => []

/-- The registers that an action's callback makes use of. -/
def Action.reads : Action → List Register
  | .writeField => [.fieldStart]
  | .writeValue => [.fieldStart, .fieldLen, .mark]
  | .requestMethod | .fragment | .httpVersion | .requestPath => [.mark]
  | .queryString => [.queryStart]
  | _ => []

/-- The spans of the tokens of `bytes`: where a register is set and where a
callback makes use of it. -/
def tokenSpans (uriRelaxed : Bool) (bytes : List UInt8) : List (Nat × Nat) :=
  uses Action.writes Action.reads (fun _ => 0)
    (walk (machine uriRelaxed) 0 httpParserStart bytes).trace

/-- The positions at which reads end. -/
def readEnds : Nat → List (List UInt8) → List Nat
  | _, [] => []
  | o, read :: reads => (o + read.length) :: readEnds (o + read.length) reads

/-- No read ends inside a token: after the byte that sets its register, but not
after the byte at which its callback runs. -/
def NotCut (uriRelaxed : Bool) (reads : List (List UInt8)) : Prop :=
  ∀ u ∈ tokenSpans uriRelaxed reads.flatten, ∀ e ∈ readEnds 0 reads, ¬ (u.1 < e ∧ e ≤ u.2)

instance (uriRelaxed : Bool) (reads : List (List UInt8)) : Decidable (NotCut uriRelaxed reads) := by
  unfold NotCut; infer_instance

/-- The calls of `execute` on successive reads. -/
def feed (uriRelaxed : Bool) : List (List UInt8) → HttpRequestParser → Option HttpRequestParser
  | [], P => some P
  | read :: reads, P => (P.execute uriRelaxed read).bind fun r => feed uriRelaxed reads r.1

/-! ## The order of the field actions -/

/-- The states inside a field name, and inside a field value. -/
def inName (cs : Nat) : Bool := cs == 14 || cs == 18
def inValue (cs : Nat) : Bool := cs == 15 || cs == 16

/-- A transition from `cs` with its actions keeps the order `start_field`,
`write_field`, `write_value`. -/
def fieldOrder (cs : Nat) (acts : List Action) (cs' : Nat) : Bool :=
  (httpParserFirstFinal ≤ cs) ||
  ((!acts.contains .writeValue || (inValue cs && !acts.contains .startField)) &&
    (!acts.contains .writeField || (inName cs && acts == [.writeField])) &&
    (!inValue cs' || acts == [.writeField] ||
      (inValue cs && !acts.contains .startField && !acts.contains .writeField)))

def Range.fieldOrder (cs : Nat) (r : Range) : Bool :=
  match r.target.transition with
  | some (acts, cs') => Http.fieldOrder cs acts cs'
  | none => true

theorem rows_fieldOrder :
    rows.all (fun row => row.2.all (Range.fieldOrder row.1)) = true := by
  decide +kernel

theorem next_fieldOrder {uriRelaxed : Bool} {cs cs' : Nat} {c : UInt8} {acts : List Action}
    (h : next uriRelaxed cs c = some (acts, cs')) : fieldOrder cs acts cs' = true := by
  obtain ⟨r, hr, -, htr⟩ := next_of_rows rows_fieldOrder h
  rw [Range.fieldOrder, htr] at hr
  exact hr

/-- Registers are set before they are read, and a field name is complete when the
field is written. -/
def Ordered (since : Register → Nat) (p : Nat) (a : Action) : Prop :=
  (∀ r, since r ≤ p) ∧ (a = .writeValue → since .fieldStart < since .fieldLen)

/-- What is known of the registers between two bytes. -/
structure FieldInv (cs p : Nat) (since : Register → Nat) : Prop where
  le : ∀ r, since r ≤ p
  running : cs < httpParserFirstFinal
  name : inName cs = true → since .fieldStart < p
  value : inValue cs = true → since .fieldStart < since .fieldLen

section

variable {p : Nat} {since : Register → Nat} {acts : List Action}

theorem written_le (a : Action) (h : ∀ r, since r ≤ p) (r : Register) :
    written Action.writes p a since r ≤ p := by
  show (if r ∈ a.writes then p else since r) ≤ p
  split
  · exact Nat.le_refl p
  · exact h r

theorem sinceAfter_le (h : ∀ r, since r ≤ p) (r : Register) :
    sinceAfter Action.writes since (acts.map fun a => (p, a)) r ≤ p := by
  induction acts generalizing since with
  | nil => exact h r
  | cons a acts ih => exact ih (written_le a h)

theorem sinceAfter_unwritten {r : Register} (h : ∀ a ∈ acts, r ∉ a.writes) :
    sinceAfter Action.writes since (acts.map fun a => (p, a)) r = since r := by
  induction acts generalizing since with
  | nil => rfl
  | cons a acts ih =>
      refine (ih fun b hb => h b (List.mem_cons_of_mem _ hb)).trans ?_
      exact if_neg (h a List.mem_cons_self)

theorem fieldStart_writes {a : Action} (h : a ≠ .startField) : Register.fieldStart ∉ a.writes := by
  cases a <;> first | exact absurd rfl h | decide

theorem fieldLen_writes {a : Action} (h : a ≠ .writeField) : Register.fieldLen ∉ a.writes := by
  cases a <;> first | exact absurd rfl h | decide

theorem ordered_along (hle : ∀ r, since r ≤ p)
    (hvalue : .writeValue ∈ acts → since .fieldStart < since .fieldLen ∧
      .startField ∉ acts ∧ .writeField ∉ acts) :
    Along Action.writes Ordered since (acts.map fun a => (p, a)) := by
  induction acts generalizing since with
  | nil => trivial
  | cons a acts ih =>
      refine ⟨⟨hle, ?_⟩, ih (written_le a hle) fun hmem => ?_⟩
      · rintro rfl
        exact (hvalue List.mem_cons_self).1
      · obtain ⟨hlt, hs, hl⟩ := hvalue (List.mem_cons_of_mem _ hmem)
        simp only [List.mem_cons, not_or] at hs hl
        refine ⟨?_, hs.2, hl.2⟩
        rw [written, written, if_neg (fieldStart_writes (Ne.symm hs.1)),
          if_neg (fieldLen_writes (Ne.symm hl.1))]
        exact hlt

end

theorem FieldInv.step {uriRelaxed : Bool} {cs cs' p : Nat} {since : Register → Nat} {c : UInt8}
    {acts : List Action} (h : FieldInv cs p since)
    (hn : (machine uriRelaxed).next cs c = some (acts, cs')) :
    Along Action.writes Ordered since (acts.map fun a => (p, a)) ∧
      ((machine uriRelaxed).final cs' = false →
        FieldInv cs' (p + 1) (sinceAfter Action.writes since (acts.map fun a => (p, a)))) := by
  have horder := next_fieldOrder hn
  simp only [fieldOrder, Bool.or_eq_true, Bool.and_eq_true, Bool.not_eq_true',
    decide_eq_true_eq, Nat.not_le.mpr h.running, false_or, List.contains_eq_mem,
    decide_eq_false_iff_not,
    beq_iff_eq] at horder
  obtain ⟨⟨hwrite, hlen⟩, hvalue⟩ := horder
  have hunwritten : ∀ {r : Register}, (∀ a ∈ acts, r ∉ a.writes) →
      sinceAfter Action.writes since (acts.map fun a => (p, a)) r = since r :=
    sinceAfter_unwritten
  refine ⟨ordered_along h.le fun hmem => ?_, fun hfinal => ⟨fun r => ?_, ?_, fun hn' => ?_,
    fun hv' => ?_⟩⟩
  · obtain ⟨hin, hs⟩ := hwrite.resolve_left (not_not_intro hmem)
    refine ⟨h.value hin, hs, fun hl => ?_⟩
    have := (hlen.resolve_left (not_not_intro hl)).2
    rw [this] at hmem
    simp at hmem
  · exact Nat.le_succ_of_le (sinceAfter_le h.le r)
  · exact Nat.not_le.mp (of_decide_eq_false hfinal)
  · exact Nat.lt_succ_of_le (sinceAfter_le h.le _)
  · rcases hvalue with (hv | hacts) | ⟨⟨hin, hs⟩, hl⟩
    · rw [hv'] at hv
      cases hv
    · subst hacts
      have hin : inName cs = true := by simpa using hlen
      exact h.name hin
    · rw [hunwritten fun a ha => fieldStart_writes fun he => hs (he ▸ ha),
        hunwritten fun a ha => fieldLen_writes fun he => hl (he ▸ ha)]
      exact h.value hin

/-- Along a walk from the start state the registers are in order. -/
theorem walk_ordered (uriRelaxed : Bool) (bytes : List UInt8) :
    Along Action.writes Ordered (fun _ => 0)
      (walk (machine uriRelaxed) 0 httpParserStart bytes).trace :=
  walk_along FieldInv.step bytes ⟨fun _ => Nat.le_refl 0, by decide, by decide, by decide⟩

/-! ## The whole and the piece -/

/-- The bytes of a piece, found in the whole. -/
theorem slice_piece {pre piece later : List UInt8} {s n : Nat} (h : s + n ≤ piece.length) :
    ((pre ++ (piece ++ later)).drop (s + pre.length)).take n = (piece.drop s).take n := by
  rw [Nat.add_comm s, ← List.drop_drop, List.drop_left, List.drop_append_of_le_length (by omega),
    List.take_append_of_le_length (by rw [List.length_drop]; omega)]

/-- The parser `M` that is fed the whole and the parser `N` that is fed a piece
at offset `o`: their registers agree as far as they were set inside the piece. -/
structure Agree (o : Nat) (since : Register → Nat) (M N : HttpRequestParser) : Prop where
  data : N.data = M.data
  error : N.error = M.error
  markAt : M.mark = since .mark
  fieldAt : M.fieldStart = since .fieldStart
  fieldEnd : since .fieldStart < since .fieldLen → M.fieldStart + M.fieldLen = since .fieldLen
  mark : o ≤ since .mark → M.mark = N.mark + o
  fieldStart : o ≤ since .fieldStart → M.fieldStart = N.fieldStart + o
  fieldLen : o ≤ since .fieldLen → N.fieldLen = M.fieldLen
  queryStart : o ≤ since .queryStart → M.queryStart = N.queryStart.map (· + o)

section Agree

variable {pre piece later : List UInt8} {since : Register → Nat} {M N M' : HttpRequestParser}
  {p s : Nat}

theorem token_piece (hp : p < piece.length) :
    token (pre ++ (piece ++ later)) (s + pre.length) (p + pre.length) = token piece s p := by
  unfold token
  by_cases h : s ≤ p
  · rw [if_pos h, if_pos (Nat.add_le_add_right h _), Nat.add_sub_add_right,
      slice_piece (by omega)]
  · rw [if_neg h, if_neg (by omega)]

theorem method_piece (hs : s ≤ p) (hp : piece[p]? = some 32) :
    charsToHttpMethod ((pre ++ (piece ++ later)).drop (s + pre.length)) =
      charsToHttpMethod (piece.drop s) := by
  have hlen : p < piece.length := (List.getElem?_eq_some_iff.mp hp).1
  have hblank : (piece.drop s)[p - s]? = some 32 := by
    rw [List.getElem?_drop, Nat.add_sub_cancel' hs, hp]
  exact (charsToHttpMethod_blank (slice_piece (by omega)).symm hblank).symm

theorem Agree.withData {o : Nat} (h : Agree o since M N) {d d' : HttpRequest} (hd : d' = d) :
    Agree o since { M with data := d } { N with data := d' } :=
  { h with data := hd }

theorem Agree.withError {o : Nat} (h : Agree o since M N) (e : Nat) :
    Agree o since (M.setError e) (N.setError e) :=
  { h with error := rfl }

theorem written_nil {a : Action} {q : Nat} (h : a.writes = []) :
    written Action.writes q a since = since :=
  funext fun _ => if_neg (h ▸ List.not_mem_nil)

/-- A callback that builds its token from `mark`. -/
theorem Agree.token {a : Action} (h : Agree pre.length since M N) (hp : p < piece.length)
    (hmark : pre.length ≤ since .mark) (hw : a.writes = [])
    {f : List UInt8 → HttpRequestParser → HttpRequestParser}
    (hf : ∀ s, Agree pre.length since (f s M) (f s N))
    (hrun : (Http.token (pre ++ (piece ++ later)) M.mark (p + pre.length)).map (f · M) = some M') :
    ∃ N', (Http.token piece N.mark p).map (f · N) = some N' ∧
      Agree pre.length (written Action.writes (p + pre.length) a since) M' N' := by
  obtain ⟨s, hs, rfl⟩ := Option.map_eq_some_iff.mp hrun
  rw [h.mark hmark, token_piece hp] at hs
  refine ⟨f s N, by rw [hs, Option.map_some], ?_⟩
  rw [written_nil hw]
  exact hf s

open HttpRequestParser in
/-- One action keeps the agreement, if the registers it reads were set inside the
piece. -/
theorem Action.run_agree {a : Action} (h : Agree pre.length since M N)
    (hp : p < piece.length) (hblank : a = .requestMethod → piece[p]? = some 32)
    (hord : Ordered since (p + pre.length) a) (hcut : ∀ r ∈ a.reads, pre.length ≤ since r)
    (hrun : a.run (pre ++ (piece ++ later)) (p + pre.length) M = some M') :
    ∃ N', a.run piece p N = some N' ∧
      Agree pre.length (written Action.writes (p + pre.length) a since) M' N' := by
  cases a with
  | mark | startValue =>
      cases hrun
      refine ⟨{ N with mark := p }, rfl, h.data, h.error, ?_, ?_, ?_, ?_, ?_, ?_, ?_⟩ <;>
        simp only [written, Action.writes, List.mem_singleton, reduceCtorEq, if_true, if_false]
      · exact h.fieldAt
      · exact h.fieldEnd
      · exact fun _ => trivial
      · exact h.fieldStart
      · exact h.fieldLen
      · exact h.queryStart
  | startField =>
      cases hrun
      refine ⟨{ N with fieldStart := p }, rfl, h.data, h.error, ?_, ?_, ?_, ?_, ?_, ?_, ?_⟩ <;>
        simp only [written, Action.writes, List.mem_singleton, reduceCtorEq, if_true, if_false]
      · exact h.markAt
      · exact fun hlt => absurd (hord.1 .fieldLen) (Nat.not_le.mpr hlt)
      · exact h.mark
      · exact fun _ => trivial
      · exact h.fieldLen
      · exact h.queryStart
  | writeField =>
      have hcut := hcut .fieldStart List.mem_cons_self
      have hstart := h.fieldStart hcut
      have hle := hord.1 .fieldStart
      rw [← h.fieldAt] at hle
      cases hrun
      refine ⟨{ N with fieldLen := p - N.fieldStart }, rfl, h.data, h.error, ?_, ?_, ?_, ?_, ?_,
        ?_, ?_⟩ <;>
        simp only [written, Action.writes, List.mem_singleton, reduceCtorEq, if_true, if_false]
      · exact h.markAt
      · exact h.fieldAt
      · exact fun _ => Nat.add_sub_cancel' hle
      · exact h.mark
      · exact h.fieldStart
      · intro _
        omega
      · exact h.queryStart
  | startQuery =>
      cases hrun
      refine ⟨{ N with queryStart := some p }, rfl, h.data, h.error, ?_, ?_, ?_, ?_, ?_, ?_, ?_⟩ <;>
        simp only [written, Action.writes, List.mem_singleton, reduceCtorEq, if_true, if_false]
      · exact h.markAt
      · exact h.fieldAt
      · exact h.fieldEnd
      · exact h.mark
      · exact h.fieldStart
      · exact h.fieldLen
      · exact fun _ => rfl
  | requestUri | xml | json =>
      cases hrun
      refine ⟨_, rfl, ?_⟩
      rw [written_nil rfl]
      exact { h with }
  | done =>
      rw [written_nil rfl]
      simp only [Action.run] at hrun ⊢
      split at hrun <;> cases hrun <;> split <;> exact ⟨_, rfl, { h with }⟩
  | fragment =>
      exact h.token (a := .fragment)
        (f := fun s P => { P with data := { P.data with fragment := s } })
        hp (hcut .mark List.mem_cons_self) rfl (fun s => h.withData (by rw [h.data])) hrun
  | requestPath =>
      exact h.token (a := .requestPath)
        (f := fun s P => { P with data := { P.data with path := s } })
        hp (hcut .mark List.mem_cons_self) rfl (fun s => h.withData (by rw [h.data])) hrun
  | httpVersion =>
      refine h.token (a := .httpVersion) (f := setVersionOf) hp (hcut .mark List.mem_cons_self) rfl
        (fun s => ?_) hrun
      unfold setVersionOf
      split
      · exact h.withData (by rw [h.data])
      · split
        · exact h.withData (by rw [h.data])
        · exact h.withError 1001
  | queryString =>
      obtain ⟨start, hstart, hrun⟩ := Option.bind_eq_some_iff.mp hrun
      obtain ⟨s, hs, rfl⟩ := Option.map_eq_some_iff.mp hrun
      have hq := h.queryStart (hcut .queryStart List.mem_cons_self)
      obtain ⟨start', hN, rfl⟩ := Option.map_eq_some_iff.mp (hq.symm.trans hstart)
      rw [token_piece hp] at hs
      refine ⟨{ N with data := { N.data with query := s } }, ?_, ?_⟩
      · simp [Action.run, onRequestQuery, hN, hs]
      · rw [written_nil rfl]
        exact h.withData (by rw [h.data])
  | requestMethod =>
      have hmark := h.mark (hcut .mark List.mem_cons_self)
      have hle : N.mark ≤ p := by
        have := hord.1 .mark
        rw [← h.markAt] at this
        omega
      have hmethod : charsToHttpMethod ((pre ++ (piece ++ later)).drop M.mark) =
          charsToHttpMethod (piece.drop N.mark) := by
        rw [hmark, method_piece hle (hblank rfl)]
      have htoken : Http.token (pre ++ (piece ++ later)) M.mark (p + pre.length) =
          Http.token piece N.mark p := by
        rw [hmark, token_piece hp]
      rw [written_nil rfl]
      simp only [Action.run, onRequestMethod, hmethod, htoken] at hrun ⊢
      split at hrun
      · obtain ⟨s, hs, rfl⟩ := Option.map_eq_some_iff.mp hrun
        exact ⟨_, by rw [hs, Option.map_some], h.withError 1000⟩
      · cases hrun
        exact ⟨_, rfl, h.withData (by rw [h.data])⟩
  | writeValue =>
      have hstart := h.fieldStart (hcut .fieldStart List.mem_cons_self)
      have hlen := h.fieldLen (hcut .fieldLen (by decide))
      have hend : N.fieldStart + N.fieldLen ≤ piece.length := by
        have := h.fieldEnd (hord.2 rfl)
        have := hord.1 .fieldLen
        omega
      have hname : ((pre ++ (piece ++ later)).drop M.fieldStart).take M.fieldLen =
          (piece.drop N.fieldStart).take N.fieldLen := by
        rw [hstart, ← hlen, slice_piece hend]
      have htoken : Http.token (pre ++ (piece ++ later)) M.mark (p + pre.length) =
          Http.token piece N.mark p := by
        rw [h.mark (hcut .mark (by decide)), token_piece hp]
      rw [written_nil rfl]
      simp only [Action.run, onRequestHttpField, hname, htoken] at hrun ⊢
      by_cases hzero : N.fieldLen = 0
      · rw [if_pos (hlen ▸ hzero)] at hrun
        cases hrun
        exact ⟨_, if_pos hzero, h.withError 1002⟩
      · rw [if_neg (hlen ▸ hzero)] at hrun
        obtain ⟨s, hs, rfl⟩ := Option.map_eq_some_iff.mp hrun
        exact ⟨_, by rw [if_neg hzero, hs, Option.map_some], h.withData (by rw [h.data])⟩

end Agree

/-! ## Feeding the pieces -/

theorem next_error (uriRelaxed : Bool) (c : UInt8) : next uriRelaxed httpParserError c = none := by
  have : rows.lookup httpParserError = none := by decide +kernel
  rw [next, this, Option.bind_none]

/-- From the error state nothing is accepted. -/
theorem walk_error (uriRelaxed : Bool) (p q : Nat) (bytes : List UInt8) :
    (walk (machine uriRelaxed) p httpParserError bytes).stop ≠ .halt q := by
  cases bytes with
  | nil => nofun
  | cons c bytes =>
      rw [walk_refused (next_error uriRelaxed c)]
      nofun

/-- No use of a register spans one of the positions `ends`. -/
def Uncut (ends : List Nat) (since : Register → Nat) (p : Nat) (a : Action) : Prop :=
  ∀ r ∈ a.reads, ∀ e ∈ ends, ¬ (since r < e ∧ e ≤ p)

section Feed

variable {uriRelaxed : Bool} {pre piece later : List UInt8} {q qf : Nat}
  {since : Register → Nat} {M N M' : HttpRequestParser}

/-- The actions of one piece keep the agreement. -/
theorem fold_agree (h : Agree pre.length since M N) {ends : List Nat} (he : pre.length ∈ ends)
    (hord : Along Action.writes Ordered since
      (shift pre.length (walk (machine uriRelaxed) 0 q piece).trace))
    (huncut : Along Action.writes (Uncut ends) since
      (shift pre.length (walk (machine uriRelaxed) 0 q piece).trace))
    (hfold : fold (Action.run (pre ++ (piece ++ later)))
      (shift pre.length (walk (machine uriRelaxed) 0 q piece).trace) M = some M') :
    ∃ N', fold (Action.run piece) (walk (machine uriRelaxed) 0 q piece).trace N = some N' ∧
      Agree pre.length (sinceAfter Action.writes since
        (shift pre.length (walk (machine uriRelaxed) 0 q piece).trace)) M' N' := by
  have hstep : ∀ {since : Register → Nat} {p : Nat} {a : Action} {M N M' : HttpRequestParser},
      Agree pre.length since M N →
      p < piece.length ∧ (a = .requestMethod → piece[p]? = some 32) →
      Ordered since (p + pre.length) a ∧ Uncut ends since (p + pre.length) a →
      a.run (pre ++ (piece ++ later)) (p + pre.length) M = some M' →
      ∃ N', a.run piece p N = some N' ∧
        Agree pre.length (written Action.writes (p + pre.length) a since) M' N' := by
    intro since p a M N M' hag hok hgood hrun
    refine Action.run_agree hag hok.1 hok.2 hgood.1 (fun r hr => ?_) hrun
    exact Nat.not_lt.mp fun hlt => hgood.2 r hr _ he ⟨hlt, Nat.le_add_left _ _⟩
  refine fold_sim hstep h (fun pa hpa => ?_) (hord.and huncut) hfold
  obtain ⟨j, c, hj, hc, q₁, acts, q', hn, hmem⟩ := walk_trace_mem hpa
  rw [Nat.zero_add] at hj
  rw [hj]
  refine ⟨(List.getElem?_eq_some_iff.mp hc).1, fun ha => ?_⟩
  rw [hc, next_requestMethod hn (ha ▸ hmem)]

/-- At the start of the next piece all registers are stale. -/
theorem Agree.next {o o' : Nat} (h : Agree o since M N) (hstale : ∀ r, since r < o') (cs : Nat) :
    Agree o' since M { N with cs := cs }.clear where
  data := h.data
  error := h.error
  markAt := h.markAt
  fieldAt := h.fieldAt
  fieldEnd := h.fieldEnd
  mark hle := absurd hle (Nat.not_le.mpr (hstale _))
  fieldStart hle := absurd hle (Nat.not_le.mpr (hstale _))
  fieldLen hle := absurd hle (Nat.not_le.mpr (hstale _))
  queryStart hle := absurd hle (Nat.not_le.mpr (hstale _))

/-- The pieces are parsed as the whole is, by induction on the pieces. -/
theorem feed_agree {reads : List (List UInt8)} (hne : ∀ d ∈ reads, d ≠ [])
    (hlen : ∀ d ∈ reads, d.length ≤ intMax)
    (hstop : (walk (machine uriRelaxed) pre.length q reads.flatten).stop = .halt qf)
    (hlast : reads.dropLast.flatten.length <
      (walk (machine uriRelaxed) pre.length q reads.flatten).used)
    (hfold : fold (Action.run (pre ++ reads.flatten))
      (walk (machine uriRelaxed) pre.length q reads.flatten).trace M = some M')
    (hord : Along Action.writes Ordered since
      (walk (machine uriRelaxed) pre.length q reads.flatten).trace)
    (huncut : Along Action.writes (Uncut (pre.length :: readEnds pre.length reads)) since
      (walk (machine uriRelaxed) pre.length q reads.flatten).trace)
    (hle : ∀ r, since r ≤ pre.length) (hcs : N.cs = q) (h : Agree pre.length since M N.clear) :
    ∃ N', feed uriRelaxed reads N = some N' ∧ N'.data = M'.data ∧ N'.error = M'.error ∧
      N'.cs = qf := by
  induction reads generalizing pre q since M N with
  | nil => cases hstop
  | cons piece reads ih =>
      subst hcs
      have hpiece : piece ≠ [] := hne piece List.mem_cons_self
      have hint : piece.length ≤ intMax := hlen piece List.mem_cons_self
      have herr : N.cs ≠ httpParserError := fun he => walk_error _ _ _ _ (he ▸ hstop)
      have hshift := walk_shift (machine uriRelaxed) pre.length 0 N.cs piece
      rw [Nat.zero_add] at hshift
      rw [List.flatten_cons] at hstop hlast hfold hord huncut
      cases hw : (walk (machine uriRelaxed) 0 N.cs piece).stop with
      | reject =>
          have hno : ∀ q', (walk (machine uriRelaxed) pre.length N.cs piece).stop ≠ .more q' := by
            rw [hshift, hw]
            nofun
          rw [walk_append_stop hno, hshift, hw] at hstop
          cases hstop
      | halt q' =>
          have hno : ∀ q', (walk (machine uriRelaxed) pre.length N.cs piece).stop ≠ .more q' := by
            rw [hshift, hw]
            nofun
          rw [walk_append_stop hno, hshift] at hstop hlast hfold hord huncut
          have hq : q' = qf := by
            rw [hw] at hstop
            exact Stop.halt.inj hstop
          have hreads : reads = [] := by
            cases reads with
            | nil => rfl
            | cons piece' reads =>
              have := walk_used_le (machine uriRelaxed) 0 N.cs piece
              simp only [List.dropLast_cons_cons, List.flatten_cons, List.length_append] at hlast
              omega
          obtain ⟨N₁, hN₁, hag⟩ := fold_agree h List.mem_cons_self hord huncut hfold
          refine ⟨{ N₁ with cs := q' }, ?_, hag.data, hag.error, hq⟩
          simp [hreads, feed, HttpRequestParser.execute_eq hpiece hint herr, hN₁, hw,
            HttpRequestParser.stateOf]
      | more q' =>
          have hmore : (walk (machine uriRelaxed) pre.length N.cs piece).stop = .more q' := by
            rw [hshift, hw]
          have hused : (walk (machine uriRelaxed) pre.length N.cs piece).used = piece.length :=
            walk_used_of_more hmore
          rw [walk_append_more hmore] at hstop hlast hfold hord huncut
          rw [hshift] at hfold hord huncut
          simp only [fold_append] at hfold
          obtain ⟨M₁, hM₁, hfold⟩ := Option.bind_eq_some_iff.mp hfold
          obtain ⟨hord₁, hord₂⟩ := Along.append.mp hord
          obtain ⟨huncut₁, huncut₂⟩ := Along.append.mp huncut
          obtain ⟨N₁, hN₁, hag⟩ := fold_agree h List.mem_cons_self hord₁ huncut₁ hM₁
          have hpos : 0 < piece.length := List.length_pos_iff.mpr hpiece
          have hpre : (pre ++ piece).length = pre.length + piece.length := List.length_append
          have hstale : ∀ r, sinceAfter Action.writes since
              (shift pre.length (walk (machine uriRelaxed) 0 N.cs piece).trace) r <
                (pre ++ piece).length := by
            refine sinceAfter_lt (fun r => ?_) fun pa hpa => ?_
            · have := hle r
              omega
            · obtain ⟨pb, hpb, rfl⟩ := List.mem_map.mp hpa
              obtain ⟨j, c, hj, hc, -⟩ := walk_trace_mem hpb
              have := (List.getElem?_eq_some_iff.mp hc).1
              simp only
              omega
          rw [← hpre] at hstop hlast hfold hord₂ huncut₂
          rw [← List.append_assoc] at hfold
          have hlast' : reads.dropLast.flatten.length <
              (walk (machine uriRelaxed) (pre ++ piece).length q' reads.flatten).used := by
            cases reads with
            | nil => cases hstop
            | cons piece' reads =>
              simp only [List.dropLast_cons_cons, List.flatten_cons, List.length_append] at hlast ⊢
              omega
          obtain ⟨N', hN', hrest⟩ := ih (fun d hd => hne d (List.mem_cons_of_mem _ hd))
            (fun d hd => hlen d (List.mem_cons_of_mem _ hd)) hstop hlast' hfold hord₂
            (huncut₂.imp fun hu r hr e he => hu r hr e (by
              rw [readEnds, ← hpre]
              exact List.mem_cons_of_mem _ he))
            (fun r => (hstale r).le) rfl (hag.next hstale q')
          refine ⟨N', ?_, hrest⟩
          simp only [feed, HttpRequestParser.execute_eq hpiece hint herr, hN₁, hw, Option.map_some,
            Option.bind_some, HttpRequestParser.stateOf]
          exact hN'

theorem walk_running {p q q' : Nat} {bytes : List UInt8}
    (hq : (walk (machine uriRelaxed) p q bytes).stop = .more q')
    (hrun : q < httpParserFirstFinal) : q' < httpParserFirstFinal :=
  have hfinal : (machine uriRelaxed).final q = false := decide_eq_false (Nat.not_le.mpr hrun)
  Nat.not_le.mp (of_decide_eq_false (walk_more_not_final hfinal hq))

/-- A fresh parser that finishes has stopped by itself. -/
theorem walk_of_finished {bytes : List UInt8} {P : HttpRequestParser} {n : Nat}
    (hrun : ({} : HttpRequestParser).run uriRelaxed bytes = some (P, n))
    (hfin : P.isFinished = 1) :
    ∃ qf M, (walk (machine uriRelaxed) 0 httpParserStart bytes).stop = .halt qf ∧
      (walk (machine uriRelaxed) 0 httpParserStart bytes).used = n ∧
      fold (Action.run bytes) (walk (machine uriRelaxed) 0 httpParserStart bytes).trace
        ({} : HttpRequestParser).clear = some M ∧ P = { M with cs := qf } := by
  rw [HttpRequestParser.run_eq (by decide)] at hrun
  obtain ⟨M, hfold, heq⟩ := Option.map_eq_some_iff.mp hrun
  cases heq
  cases hw : (walk (machine uriRelaxed) 0 httpParserStart bytes).stop with
  | reject =>
      simp [HttpRequestParser.isFinished, HttpRequestParser.stateOf, hw] at hfin
  | more q =>
      have hrun := walk_running hw (by decide)
      simp [HttpRequestParser.isFinished, HttpRequestParser.stateOf, hw,
        Nat.not_le.mpr hrun] at hfin
      split at hfin <;> cases hfin
  | halt q => exact ⟨q, M, rfl, rfl, hfold, rfl⟩

/-- A call that finishes has run the machine. -/
theorem run_of_finished {bytes : List UInt8} {P : HttpRequestParser} {n : Nat}
    (hexec : ({} : HttpRequestParser).execute uriRelaxed bytes = some (P, n))
    (hfin : P.isFinished = 1) : ({} : HttpRequestParser).run uriRelaxed bytes = some (P, n) := by
  have hbytes : bytes ≠ [] := by
    rintro rfl
    cases hexec
    cases hfin
  exact (HttpRequestParser.run_of_execute hbytes hexec).1

/-- A header section that the machine accepts whole is accepted in pieces, with the same
request, if no read ends inside a token. -/
theorem feed_of_notCut {reads : List (List UInt8)} {P : HttpRequestParser} {n : Nat}
    (hne : ∀ d ∈ reads, d ≠ []) (hlen : ∀ d ∈ reads, d.length ≤ intMax)
    (hrun : ({} : HttpRequestParser).run uriRelaxed reads.flatten = some (P, n))
    (hfin : P.isFinished = 1) (hlast : reads.dropLast.flatten.length < n)
    (hcut : NotCut uriRelaxed reads) :
    ∃ Q, feed uriRelaxed reads {} = some Q ∧ Q.data = P.data ∧ Q.error = P.error := by
  obtain ⟨qf, M', hstop, hused, hfold, rfl⟩ := walk_of_finished hrun hfin
  have huncut : Along Action.writes (Uncut (0 :: readEnds 0 reads)) (fun _ => 0)
      (walk (machine uriRelaxed) 0 httpParserStart reads.flatten).trace := by
    refine along_of_uses (fun i j => ∀ e ∈ 0 :: readEnds 0 reads, ¬ (i < e ∧ e ≤ j))
      fun u hu e he => ?_
    rcases List.mem_cons.mp he with rfl | he
    · exact fun hlt => Nat.not_lt_zero _ hlt.1
    · exact hcut u hu e he
  have hfresh : Agree 0 (fun _ => 0) ({} : HttpRequestParser).clear
      ({} : HttpRequestParser).clear :=
    ⟨rfl, rfl, rfl, rfl, nofun, fun _ => rfl, fun _ => rfl, fun _ => rfl, fun _ => rfl⟩
  obtain ⟨Q, hQ, hdata, herror, -⟩ := @feed_agree uriRelaxed [] httpParserStart qf
    (fun _ => 0) ({} : HttpRequestParser).clear {} M' reads hne hlen hstop (hused ▸ hlast) hfold
    (walk_ordered uriRelaxed _) huncut (fun _ => Nat.le_refl 0) rfl hfresh
  exact ⟨Q, hQ, hdata, herror⟩

end Feed

end CoLib.Http
