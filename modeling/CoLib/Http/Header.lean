/-
# `CoLib.Http.Header` — receiving a header section

The loop at the head of `recvRequest` hands each read to the parser until the
machine stops.  Which reads these are depends on the connection and on the
length of the header section only (`readsFor`); the loop succeeds if and only if
the parser, fed with them, does (`recvLoop_ok_iff`).

The parser's registers do not survive a read.  `recvHeader_of_notCut` is what
holds of the cuts that respect the tokens; the example after it loses a request
line to a cut in its first token.
-/
import CoLib.Http.Session

namespace CoLib.Http

open Lib Lib.Scanner HttpRequestParser

/-! ## Framing -/

theorem run_framed {uriRelaxed : Bool} {buffer : List UInt8} {P P' : HttpRequestParser}
    {n : Nat} (h : P.run uriRelaxed buffer = some (P', n)) : Framed P P' := by
  rw [HttpRequestParser.run, scan_eq_walk, Option.map_map] at h
  obtain ⟨M, hM, heq⟩ := Option.map_eq_some_iff.mp h
  cases heq
  have := fold_framed hM
  exact ⟨this.close, this.body, this.error⟩

theorem execute_framed {uriRelaxed : Bool} {buffer : List UInt8} {P P' : HttpRequestParser}
    {n : Nat} (h : P.execute uriRelaxed buffer = some (P', n)) : Framed P P' := by
  by_cases hne : buffer = []
  · rw [execute, if_pos hne] at h
    cases h
    exact Framed.refl _
  · exact run_framed (run_of_execute hne h).1

theorem feed_framed {uriRelaxed : Bool} {reads : List (List UInt8)} {P P' : HttpRequestParser}
    (h : feed uriRelaxed reads P = some P') : Framed P P' := by
  induction reads generalizing P with
  | nil =>
      cases h
      exact Framed.refl _
  | cons read reads ih =>
      obtain ⟨⟨P₁, n⟩, h₁, h⟩ := Option.bind_eq_some_iff.mp h
      exact (execute_framed h₁).trans (ih h)

/-! ## The loop -/

/-- Two ways to split one stream: the longer front is the shorter one and more. -/
theorem append_split {got rest R T : List UInt8} (h : got ++ rest = R ++ T)
    (hle : R.length ≤ got.length) : ∃ extra, got = R ++ extra ∧ T = extra ++ rest := by
  rcases List.append_eq_append_iff.mp h with ⟨a, hR, hrest⟩ | ⟨a, hgot, hT⟩
  · have ha : a = [] := by
      rw [hR, List.length_append] at hle
      exact List.length_eq_zero_iff.mp (by omega)
    subst ha
    exact ⟨[], by rw [hR, List.append_nil, List.append_nil], hrest.symm⟩
  · exact ⟨a, hgot, hT⟩

section Loop

variable {uriRelaxed : Bool} {buffSize : Nat} {c c₁ c' : Conn} {got R T kept : List UInt8}
  {P P' : HttpRequestParser} {q qf f g : Nat}

/-- One turn of the loop on an empty buffer. -/
theorem recvLoop_turn (hread : c.read buffSize = ((got.length : Int), got, c₁)) (hgot : got ≠ []) :
    recvLoop uriRelaxed buffSize (g + 1) P [] c =
      match P.execute uriRelaxed got with
      | none => .noReturn
      | some (P₁, n) =>
          if P₁.hasError then .null c₁.close
          else if ((got.drop n).length : Int) = toInt buffSize then .null c₁.close
          else if P₁.isFinished ≠ 0 then .ok (P₁, got.drop n) c₁
          else recvLoop uriRelaxed buffSize g P₁ (got.drop n) c₁ := by
  have hpos : ¬ (got.length : Int) ≤ 0 := by
    have := List.length_pos_iff.mpr hgot
    omega
  rw [recvLoop, List.length_nil, Nat.sub_zero, hread]
  exact if_neg hpos

theorem recvLoop_no_room (hfull : c.Full) (hne : c.pending ≠ []) :
    recvLoop uriRelaxed 0 (g + 1) P [] c = .null c.close := by
  obtain ⟨hconn, hsegs⟩ := hfull
  cases hs : c.segs with
  | nil => exact absurd (by rw [Conn.pending, hs]; rfl) hne
  | cons seg segs =>
      have hseg : ¬ seg.length ≤ 0 := fun hle =>
        hsegs seg (hs ▸ List.mem_cons_self) (List.length_eq_zero_iff.mp (Nat.le_zero.mp hle))
      simp [recvLoop, Conn.read, hconn, hs, Conn.close, List.length_pos_iff.mp (Nat.not_le.mp hseg)]

/-- The buffer takes the reads: there is room for one byte, and no number of kept
bytes is mistaken for a full buffer. -/
structure Roomy (buffSize need : Nat) (reads : List (List UInt8)) : Prop where
  pos : 0 < buffSize
  more : 1 < reads.length → toInt buffSize ≠ 0
  last : ((reads.flatten.drop need).length : Int) ≠ toInt buffSize

theorem readsFor_zero (n : Nat) (c : Conn) : readsFor n f 0 c = ([], c) := by
  cases f <;> rfl

theorem readsFor_succ {need : Nat} (hread : c.read buffSize = ((got.length : Int), got, c₁))
    (hneed : need ≠ 0) :
    readsFor buffSize (f + 1) need c =
      (got :: (readsFor buffSize f (need - got.length) c₁).1,
        (readsFor buffSize f (need - got.length) c₁).2) := by
  simp only [readsFor, hneed, if_false, hread]

theorem readsFor_ne_nil {n need : Nat} (hf : f ≠ 0) (hneed : need ≠ 0) :
    (readsFor n f need c).1 ≠ [] := by
  obtain ⟨f, rfl⟩ := Nat.exists_eq_succ_of_ne_zero hf
  simp [readsFor, hneed]

/-- A read that does not complete the header section. -/
theorem walk_partial {piece rest : List UInt8}
    (hstop : (walk (machine uriRelaxed) 0 q (piece ++ rest)).stop = .halt qf)
    (hused : (walk (machine uriRelaxed) 0 q (piece ++ rest)).used = (piece ++ rest).length)
    (hrest : rest ≠ []) :
    ∃ q', (walk (machine uriRelaxed) 0 q piece).stop = .more q' ∧
      (walk (machine uriRelaxed) 0 q' rest).stop = .halt qf ∧
      (walk (machine uriRelaxed) 0 q' rest).used = rest.length := by
  have hpos := List.length_pos_iff.mpr hrest
  rw [List.length_append] at hused
  cases hw : (walk (machine uriRelaxed) 0 q piece).stop with
  | more q' =>
      have hshift := walk_shift (machine uriRelaxed) piece.length 0 q' rest
      rw [walk_append_more hw, hshift] at hstop hused
      exact ⟨q', rfl, hstop, Nat.add_left_cancel hused⟩
  | halt q' =>
      rw [walk_append_stop (by rw [hw]; nofun)] at hused
      have := walk_used_le (machine uriRelaxed) 0 q piece
      omega
  | reject =>
      rw [walk_append_stop (by rw [hw]; nofun), hw] at hstop
      cases hstop

theorem walk_halted {piece : List UInt8}
    (hq : (walk (machine uriRelaxed) 0 q piece).stop = .halt qf) : httpParserFirstFinal ≤ qf :=
  of_decide_eq_true (walk_halt_final hq)

/-- The read at which the machine stops is the last one. -/
theorem recvLoop_stops {extra : List UInt8}
    (hread : c.read buffSize = (((R ++ extra).length : Int), R ++ extra, c₁)) (hR : R ≠ [])
    (hbuf : 0 < buffSize) (herr : P.cs ≠ httpParserError)
    (hstop : (walk (machine uriRelaxed) 0 P.cs R).stop = .halt qf)
    (hused : (walk (machine uriRelaxed) 0 P.cs R).used = R.length) :
    recvLoop uriRelaxed buffSize (g + 1) P [] c = .ok (P', kept) c' ↔
      feed uriRelaxed (readsFor buffSize (f + 1) R.length c).1 P = some P' ∧ P'.error = 0 ∧
        Roomy buffSize R.length (readsFor buffSize (f + 1) R.length c).1 ∧
        kept = (readsFor buffSize (f + 1) R.length c).1.flatten.drop R.length ∧
        c' = (readsFor buffSize (f + 1) R.length c).2 := by
  have hgot : R ++ extra ≠ [] := List.append_ne_nil_of_left_ne_nil hR extra
  have hlen := Conn.length_le_of_read hread
  have hwalk : walk (machine uriRelaxed) 0 P.cs (R ++ extra) =
      walk (machine uriRelaxed) 0 P.cs R :=
    walk_append_stop (by rw [hstop]; nofun) extra
  have hfinal := walk_halted hstop
  have hneed : R.length - (R ++ extra).length = 0 := by
    rw [List.length_append]
    omega
  rw [recvLoop_turn hread hgot, readsFor_succ hread (List.length_pos_iff.mpr hR).ne',
    execute_eq hgot hlen herr]
  simp only [feed, execute_eq hgot hlen herr, List.flatten_cons]
  rw [hwalk, hneed, readsFor_zero]
  cases fold (Action.run (R ++ extra)) (walk (machine uriRelaxed) 0 P.cs R).trace P.clear with
  | none => simp
  | some M =>
      have herr' : qf ≠ httpParserError := by
        rintro rfl
        exact absurd hfinal (by decide)
      have hhas : hasError { M with cs := qf } = (M.error != 0) := by
        simp [hasError, herr']
      have hfin : isFinished { M with cs := qf } = 1 := by
        simp [isFinished, herr', hfinal]
      simp only [Option.map_some, Option.bind_some, hstop, hused, stateOf, feed,
        List.flatten_nil, List.append_nil, List.drop_left, hhas, hfin]
      by_cases he : M.error = 0
      · by_cases hz : (extra.length : Int) = toInt buffSize
        · rw [if_neg (by simp [he]), if_pos hz]
          refine ⟨fun h => (by cases h), fun h => absurd hz ?_⟩
          have := h.2.2.1.last
          rwa [List.flatten_singleton, List.drop_left] at this
        · rw [if_neg (by simp [he]), if_neg hz, if_pos (by decide)]
          have hroomy : Roomy buffSize R.length [R ++ extra] :=
            ⟨hbuf, fun h => absurd h (Nat.lt_irrefl 1), by
              rwa [List.flatten_singleton, List.drop_left]⟩
          simp only [Outcome.ok.injEq, Prod.mk.injEq, Option.some.injEq, hroomy, true_and]
          constructor
          · rintro ⟨⟨rfl, rfl⟩, rfl⟩
            exact ⟨rfl, he, rfl, rfl⟩
          · rintro ⟨rfl, -, rfl, rfl⟩
            exact ⟨⟨rfl, rfl⟩, rfl⟩
      · rw [if_pos (by simp [he])]
        refine ⟨fun h => (by cases h), fun h => absurd h.2.1 ?_⟩
        rw [← Option.some.inj h.1]
        exact he

/-- A read at which the machine goes on is taken whole; the loop goes on on the rest. -/
theorem recvLoop_goes {R' : List UInt8}
    (hread : c.read buffSize = ((got.length : Int), got, c₁)) (hgot : got ≠ []) (hR' : R' ≠ [])
    (hbuf : 0 < buffSize) (hf : R'.length ≤ f) (herr : P.cs ≠ httpParserError)
    (herr' : q ≠ httpParserError) (hrun : q < httpParserFirstFinal)
    (hmore : (walk (machine uriRelaxed) 0 P.cs got).stop = .more q)
    (ih : ∀ M : HttpRequestParser,
      recvLoop uriRelaxed buffSize g { M with cs := q } [] c₁ = .ok (P', kept) c' ↔
        feed uriRelaxed (readsFor buffSize f R'.length c₁).1 { M with cs := q } = some P' ∧
          P'.error = 0 ∧ Roomy buffSize R'.length (readsFor buffSize f R'.length c₁).1 ∧
          kept = (readsFor buffSize f R'.length c₁).1.flatten.drop R'.length ∧
          c' = (readsFor buffSize f R'.length c₁).2) :
    recvLoop uriRelaxed buffSize (g + 1) P [] c = .ok (P', kept) c' ↔
      feed uriRelaxed (readsFor buffSize (f + 1) (got ++ R').length c).1 P = some P' ∧
        P'.error = 0 ∧
        Roomy buffSize (got ++ R').length (readsFor buffSize (f + 1) (got ++ R').length c).1 ∧
        kept = (readsFor buffSize (f + 1) (got ++ R').length c).1.flatten.drop
          (got ++ R').length ∧
        c' = (readsFor buffSize (f + 1) (got ++ R').length c).2 := by
  have hlen' := List.length_pos_iff.mpr hR'
  have hneed : (got ++ R').length - got.length = R'.length := by
    rw [List.length_append, Nat.add_sub_cancel_left]
  have hdrop : ∀ reads : List (List UInt8),
      (got ++ reads.flatten).drop (got ++ R').length = reads.flatten.drop R'.length := by
    intro reads
    rw [List.length_append, ← List.drop_drop, List.drop_left]
  have hpos : (got ++ R').length ≠ 0 := by
    rw [List.length_append]
    omega
  have hlen := Conn.length_le_of_read hread
  rw [recvLoop_turn hread hgot, readsFor_succ hread hpos, execute_eq hgot hlen herr]
  simp only [feed, execute_eq hgot hlen herr, List.flatten_cons]
  rw [hneed, hdrop]
  cases fold (Action.run got) (walk (machine uriRelaxed) 0 P.cs got).trace P.clear with
  | none => simp
  | some M =>
      have hhas : hasError { M with cs := q } = (M.error != 0) := by
        simp [hasError, herr']
      have hfin : isFinished { M with cs := q } = 0 := by
        simp [isFinished, herr', Nat.not_le.mpr hrun]
      simp only [Option.map_some, Option.bind_some, hmore, stateOf, walk_used_of_more hmore,
        List.drop_length, List.length_nil, Nat.cast_zero, hhas, hfin]
      by_cases he : M.error = 0
      · have hreads : (readsFor buffSize f R'.length c₁).1 ≠ [] :=
          readsFor_ne_nil (by omega) hlen'.ne'
        by_cases hz : toInt buffSize = 0
        · rw [if_neg (by simp [he]), if_pos hz.symm]
          refine ⟨fun h => (by cases h), fun h => absurd hz (h.2.2.1.more ?_)⟩
          rw [List.length_cons]
          exact Nat.succ_lt_succ (List.length_pos_iff.mpr hreads)
        · rw [if_neg (by simp [he]), if_neg (Ne.symm hz), if_neg (by simp), ih M]
          have hroomy : Roomy buffSize (got ++ R').length
              (got :: (readsFor buffSize f R'.length c₁).1) ↔
                Roomy buffSize R'.length (readsFor buffSize f R'.length c₁).1 := by
            refine ⟨fun h => ⟨hbuf, fun _ => hz, ?_⟩, fun h => ⟨hbuf, fun _ => hz, ?_⟩⟩
            · exact hdrop _ ▸ h.last
            · rw [List.flatten_cons, hdrop]
              exact h.last
          rw [hroomy]
      · rw [if_pos (by simp [he])]
        exact ⟨fun h => (by cases h), fun h => absurd h.2.1 ((feed_framed h.1).error he)⟩

/-- The loop succeeds if and only if the parser does on the same reads. -/
theorem recvLoop_ok_iff (hfull : c.Full) (hpend : c.pending = R ++ T)
    (hstop : (walk (machine uriRelaxed) 0 q R).stop = .halt qf)
    (hused : (walk (machine uriRelaxed) 0 q R).used = R.length) (hcs : P.cs = q)
    (hrun : q < httpParserFirstFinal) (hf : R.length ≤ f) (hg : R.length ≤ g) :
    recvLoop uriRelaxed buffSize g P [] c = .ok (P', kept) c' ↔
      feed uriRelaxed (readsFor buffSize f R.length c).1 P = some P' ∧ P'.error = 0 ∧
        Roomy buffSize R.length (readsFor buffSize f R.length c).1 ∧
        kept = (readsFor buffSize f R.length c).1.flatten.drop R.length ∧
        c' = (readsFor buffSize f R.length c).2 := by
  induction f generalizing g c P q R with
  | zero =>
      rw [List.length_eq_zero_iff.mp (Nat.le_zero.mp hf)] at hstop
      cases hstop
  | succ f ih =>
      subst hcs
      have hR : R ≠ [] := by
        rintro rfl
        cases hstop
      have hlen := List.length_pos_iff.mpr hR
      obtain ⟨g, rfl⟩ : ∃ g', g = g' + 1 := ⟨g - 1, by omega⟩
      have hne : c.pending ≠ [] := by
        rw [hpend]
        exact fun he => hR (List.append_eq_nil_iff.mp he).1
      rcases Nat.eq_zero_or_pos buffSize with rfl | hbuf
      · refine ⟨fun h => ?_, fun h => absurd h.2.2.1.pos (Nat.lt_irrefl 0)⟩
        rw [recvLoop_no_room hfull hne] at h
        cases h
      obtain ⟨got, hread, -, -, hpend₁, hgot⟩ := Conn.read_skip hfull buffSize
      have hgot := hgot hbuf hne
      have hfull₁ := hfull.skip got.length
      generalize c.skip got.length = c₁ at hread hpend₁ hfull₁
      have herr : P.cs ≠ httpParserError := fun he => walk_error _ _ _ _ (he ▸ hstop)
      rcases Nat.lt_or_ge got.length R.length with hlt | hge
      · obtain ⟨R', rfl, hpend₁⟩ := append_split (hpend.symm.trans hpend₁) hlt.le
        have hR' : R' ≠ [] := by
          rintro rfl
          simp at hlt
        obtain ⟨q', hmore, hstop', hused'⟩ := walk_partial hstop hused hR'
        have hrun' := walk_running hmore hrun
        have hgotlen := List.length_pos_iff.mpr hgot
        rw [List.length_append] at hf hg
        exact recvLoop_goes hread hgot hR' hbuf (by omega) herr
          (fun he => walk_error _ _ _ _ (he ▸ hstop')) hrun' hmore
          (fun M => ih hfull₁ hpend₁ hstop' hused' rfl hrun' (by omega) (by omega))
      · obtain ⟨extra, rfl, -⟩ := append_split (hpend₁.symm.trans hpend) hge
        exact recvLoop_stops hread hR hbuf herr hstop hused

end Loop

/-! ## Cuts that respect the tokens -/

theorem readsFor_whole {n f : Nat} {reads more : List (List UInt8)}
    (hread : ∀ d ∈ reads, d ≠ [] ∧ d.length ≤ n ∧ d.length ≤ maxRwCount)
    (hf : reads.flatten.length ≤ f) :
    readsFor n f reads.flatten.length ⟨reads ++ more, true⟩ = (reads, ⟨more, true⟩) := by
  induction reads generalizing f with
  | nil => exact readsFor_zero n _
  | cons d reads ih =>
      obtain ⟨hne, hn, hmax⟩ := hread d List.mem_cons_self
      have hlen := List.length_pos_iff.mpr hne
      rw [List.flatten_cons, List.length_append] at hf ⊢
      obtain ⟨f, rfl⟩ : ∃ f', f = f' + 1 := ⟨f - 1, by omega⟩
      have hmin : d.length ≤ min n maxRwCount := Nat.le_min.mpr ⟨hn, hmax⟩
      have hrd : Conn.read n ⟨d :: reads ++ more, true⟩ =
          ((d.length : Int), d, ⟨reads ++ more, true⟩) := by
        simp [Conn.read, List.take_of_length_le hmin, hmin]
      rw [readsFor_succ hrd (by omega), Nat.add_sub_cancel_left,
        ih (fun d hd => hread d (List.mem_cons_of_mem _ hd)) (by omega)]

theorem dropLast_flatten_lt {reads : List (List UInt8)} (hne : ∀ d ∈ reads, d ≠ [])
    (h : reads ≠ []) : reads.dropLast.flatten.length < reads.flatten.length := by
  have hlast : 0 < (reads.getLast h).length :=
    List.length_pos_iff.mpr (hne _ (List.getLast_mem h))
  conv_rhs => rw [← List.dropLast_append_getLast h]
  rw [List.flatten_append, List.length_append, List.flatten_singleton]
  exact Nat.lt_add_of_pos_right hlast

/-- A header section that is accepted in one call, received in reads none of which
ends inside a token: the loop ends with the same request and nothing left over. -/
theorem recvHeader_of_notCut {uriRelaxed : Bool} {buffSize : Nat} {reads more : List (List UInt8)}
    {P : HttpRequestParser}
    (hread : ∀ d ∈ reads, d ≠ [] ∧ d.length ≤ buffSize ∧ d.length ≤ maxRwCount)
    (hmore : ∀ seg ∈ more, seg ≠ [])
    (hexec : ({} : HttpRequestParser).execute uriRelaxed reads.flatten =
      some (P, reads.flatten.length))
    (hok : P.hasError = false) (hfin : P.isFinished = 1)
    (hbuf : toInt buffSize ≠ 0) (hcut : NotCut uriRelaxed reads) :
    ∃ Q, recvHeader uriRelaxed buffSize ⟨reads ++ more, true⟩ = .ok (Q, []) ⟨more, true⟩ ∧
      Q.data = P.data := by
  have hne : ∀ d ∈ reads, d ≠ [] := fun d hd => (hread d hd).1
  have hint : ∀ d ∈ reads, d.length ≤ intMax :=
    fun d hd => (hread d hd).2.2.trans (by decide)
  have hrun := run_of_finished hexec hfin
  obtain ⟨qf, -, hstop, hused, -⟩ := walk_of_finished hrun hfin
  have hnil : reads ≠ [] := by
    rintro rfl
    cases hstop
  obtain ⟨Q, hQ, hdata, herror⟩ :=
    feed_of_notCut hne hint hrun hfin (dropLast_flatten_lt hne hnil) hcut
  have herr : P.error = 0 := by
    simp only [hasError, Bool.or_eq_false_iff, bne_eq_false_iff_eq] at hok
    exact hok.1
  have hwhole : readsFor buffSize reads.flatten.length reads.flatten.length ⟨reads ++ more, true⟩ =
      (reads, ⟨more, true⟩) := readsFor_whole hread (Nat.le_refl _)
  have hfull : Conn.Full ⟨reads ++ more, true⟩ :=
    ⟨rfl, fun seg hseg => (List.mem_append.mp hseg).elim (hne seg) (hmore seg)⟩
  have hpos : 0 < buffSize := by
    obtain ⟨d, reads, rfl⟩ := List.exists_cons_of_ne_nil hnil
    obtain ⟨hd, hle, -⟩ := hread d List.mem_cons_self
    exact (List.length_pos_iff.mpr hd).trans_le hle
  refine ⟨Q, (recvLoop_ok_iff hfull (T := more.flatten) ?_ hstop hused rfl (by decide)
    (Nat.le_refl _) ?_).mpr ?_, hdata⟩
  · exact List.flatten_append
  · rw [Conn.pending, List.flatten_append, List.length_append]
    omega
  · rw [hwhole]
    refine ⟨hQ, herror.trans herr, ⟨hpos, fun _ => hbuf, ?_⟩, ?_, rfl⟩
    · rw [List.drop_length]
      exact Ne.symm hbuf
    · rw [List.drop_length]

/-- Reads that end after the request line and after a header. -/
theorem recvHeader_of_notCut_lines :
    ∃ Q, recvHeader false 4096
        ⟨[chars "GET /a HTTP/1.1\r\n", chars "Host: b\r\n", chars "\r\n"] ++ [chars "x"], true⟩ =
          .ok (Q, []) ⟨[chars "x"], true⟩ ∧
      Q.data = ((({} : HttpRequestParser).execute false
        (chars "GET /a HTTP/1.1\r\nHost: b\r\n\r\n")).getD ({}, 0)).1.data :=
  recvHeader_of_notCut (by decide) (by decide) (by decide +kernel) (by decide +kernel)
    (by decide +kernel) (by decide) (by decide +kernel)

/-- A request that is accepted in one call, and refused when the first read ends
inside the method: the mark is cleared, and the method is looked up at the start
of the second read. -/
theorem recvHeader_cut_method :
    (({} : HttpRequestParser).execute false (chars "GET / HTTP/1.1\r\n\r\n")).map
        (fun r => (r.1.hasError, r.1.isFinished, r.2)) = some (false, 1, 18) ∧
      recvHeader false 4096 ⟨[chars "G", chars "ET / HTTP/1.1\r\n\r\n"], true⟩ =
        .null ⟨[], false⟩ := by
  decide +kernel

/-- Not every cut inside a token is noticed: an empty version passes for the right
one. -/
example : ¬ NotCut false [chars "GET / HTTP/1.1", chars "\r\n\r\n"] ∧
    (feed false [chars "GET / HTTP/1.1", chars "\r\n\r\n"] {}).map (·.data) =
      (feed false [chars "GET / HTTP/1.1\r\n\r\n"] {}).map (·.data) := by
  decide +kernel

end CoLib.Http
