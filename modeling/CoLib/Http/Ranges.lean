/-
# `CoLib.Http.Ranges` — what the callbacks are given

A callback gets a pointer into the buffer of the current call and a length.  Both
come from registers that are offsets: `LEN(at, p)` is the difference of the
position and a register, as a `size_t`.  `mark`, `field_start` and `field_len` are
cleared on entry, so that they are offsets into this call's buffer; `query_start`
is not, and may be an offset into the buffer of an earlier call.

**Proved here.**  `callbacks_inRange_iff`: on whatever a peer sends, all callbacks
of all calls that `recvRequest` makes get ranges inside the buffer exactly if every
query that a call finds begun ends there no earlier than where it began in its own
buffer.  `recvHeader_of_outOfRange`: a range outside the buffer throws.
-/
import CoLib.Http.Session

namespace CoLib.Http

open Lib Lib.Scanner

/-! ## The arguments of the callbacks -/

/-- `[at, at + length)` lies in a buffer of `len` bytes. -/
def Within (len start length : Nat) : Prop := start + length ≤ len

/-- The ranges that an action at position `p` of a buffer of `len` bytes gives to its
callback.  `query_start` has to have been set. -/
def Action.InRange (len p : Nat) (P : HttpRequestParser) : Action → Prop
  | .requestMethod | .requestUri | .fragment | .httpVersion | .requestPath =>
      Within len P.mark (subWord p P.mark)
  | .queryString => ∃ start, P.queryStart = some start ∧ Within len start (subWord p start)
  | .writeValue => Within len P.fieldStart P.fieldLen ∧ Within len P.mark (subWord p P.mark)
  -- `header_done(parser->data, p + 1, pe - p - 1)`
  | .done => Within len (p + 1) (subWord (subWord len p) 1)
  | .mark | .startField | .writeField | .startValue | .startQuery | .xml | .json => True

/-- The actions of a trace with the registers they find.  One that throws is the last. -/
def actionsRun (buffer : List UInt8) :
    List (Nat × Action) → HttpRequestParser → List (Nat × Action × HttpRequestParser)
  | [], _ => []
  | (p, a) :: t, P =>
      (p, a, P) :: match a.run buffer p P with
        | some P' => actionsRun buffer t P'
        | none => []

/-- Every callback of the trace gets ranges inside the buffer. -/
def TraceInRange (buffer : List UInt8) (t : List (Nat × Action)) (P : HttpRequestParser) : Prop :=
  ∀ x ∈ actionsRun buffer t P, x.2.1.InRange buffer.length x.1 x.2.2

/-- Every callback of a call of `execute` gets ranges inside `[data, data + len)`. -/
def CallInRange (uriRelaxed : Bool) (P : HttpRequestParser) (data : List UInt8) : Prop :=
  TraceInRange data (walk (machine uriRelaxed) 0 P.cs data).trace P.clear

/-- The states inside a query. -/
def inQuery (cs : Nat) : Bool := cs == 30 || cs == 31 || cs == 32

/-- Where the query that the machine is in ends, if it does. -/
def queryEnd (uriRelaxed : Bool) : Nat → List UInt8 → Option Nat
  | _, [] => none
  | cs, c :: data =>
      match next uriRelaxed cs c with
      | none => none
      | some (acts, cs') =>
          if acts.contains .queryString then some 0
          else (queryEnd uriRelaxed cs' data).map (· + 1)

/-- A query that was begun in an earlier call does not end before the offset at which it
began there. -/
def KeepsQuery (uriRelaxed : Bool) (P : HttpRequestParser) (data : List UInt8) : Prop :=
  inQuery P.cs = true → ∀ e, queryEnd uriRelaxed P.cs data = some e →
    ∃ start, P.queryStart = some start ∧ start ≤ e

/-- The calls of `execute` that the loop of `recvRequest` makes: the parser and the
buffer. -/
def recvCalls (uriRelaxed : Bool) (buffSize : Nat) :
    Nat → HttpRequestParser → List UInt8 → Conn → List (HttpRequestParser × List UInt8)
  | 0, _, _, _ => []
  | fuel + 1, parser, kept, c =>
      let (len, got, c) := c.read (buffSize - kept.length)
      if len ≤ 0 then []
      else
        let data := kept ++ got
        (parser, data) :: match parser.execute uriRelaxed data with
          | none => []
          | some (parser, nparse) =>
              if parser.hasError then []
              else
                let kept := data.drop nparse
                if (kept.length : Int) = toInt buffSize then []
                else if parser.isFinished ≠ 0 then []
                else recvCalls uriRelaxed buffSize fuel parser kept c

/-- The calls of `execute` that `recvRequest` makes on a connection. -/
def executeCalls (uriRelaxed : Bool) (buffSize : Nat) (c : Conn) :
    List (HttpRequestParser × List UInt8) :=
  recvCalls uriRelaxed buffSize (c.pending.length + 1) {} [] c

/-! ## The order of the query actions -/

/-- A transition from `cs` with its actions keeps the order `start_query`,
`query_string`. -/
def queryOrder (cs : Nat) (acts : List Action) (cs' : Nat) : Bool :=
  if inQuery cs then
    (acts == [] && inQuery cs') || (acts == [.queryString, .requestUri] && !inQuery cs')
  else
    (!acts.contains .queryString || acts.head? == some .startQuery) &&
      (!inQuery cs' || acts == [.startQuery])

def Range.queryOrder (cs : Nat) (r : Range) : Bool :=
  match r.target.transition with
  | some (acts, cs') => Http.queryOrder cs acts cs'
  | none => true

theorem rows_queryOrder :
    rows.all (fun row => row.2.all (Range.queryOrder row.1)) = true := by
  decide +kernel

theorem next_queryOrder {uriRelaxed : Bool} {cs cs' : Nat} {c : UInt8} {acts : List Action}
    (h : next uriRelaxed cs c = some (acts, cs')) : queryOrder cs acts cs' = true := by
  obtain ⟨r, hr, -, htr⟩ := next_of_rows rows_queryOrder h
  rw [Range.queryOrder, htr] at hr
  exact hr

/-! ## One action -/

section Ranges

variable {uriRelaxed : Bool} {buffer : List UInt8} {p cs cs' : Nat} {P P' : HttpRequestParser}
  {a : Action} {acts : List Action} {c : UInt8}

/-- A length wraps around exactly if its register is behind the position. -/
theorem within_iff {len start : Nat} (hp : p < len) (hlen : len < wordSize)
    (hstart : start < wordSize) : Within len start (subWord p start) ↔ start ≤ p := by
  rw [Within]
  by_cases hle : start ≤ p
  · rw [subWord_of_le (hp.trans hlen) hle]
    omega
  · have hwrap : subWord p start = p + (wordSize - start) := by
      rw [subWord, Nat.mod_eq_of_lt hstart]
      exact Nat.mod_eq_of_lt (by omega)
    rw [hwrap]
    omega

/-- A register that is not behind the position gives a range, and its token. -/
theorem within_of_le {start : Nat} (hp : p < buffer.length) (hlen : buffer.length < wordSize)
    (hle : start ≤ p) :
    Within buffer.length start (subWord p start) ∧ ∃ s, token buffer start p = some s :=
  ⟨(within_iff hp hlen (by omega)).mpr hle, _, if_pos hle⟩

/-- The registers are not behind the position. -/
structure Behind (p : Nat) (P : HttpRequestParser) : Prop where
  mark : P.mark ≤ p
  start : P.fieldStart ≤ p

/-- An action whose registers are in order gets ranges, and leaves them in order. -/
theorem Action.run_inRange (hp : p < buffer.length) (hlen : buffer.length < wordSize)
    (h : Behind p P) (hvalue : a = .writeValue → P.fieldStart + P.fieldLen ≤ p)
    (hquery : a = .queryString → ∃ s, P.queryStart = some s ∧ s ≤ p) :
    a.InRange buffer.length p P ∧ ∃ P', a.run buffer p P = some P' ∧ Behind p P' ∧
      (a ≠ .startField → P.fieldStart + P.fieldLen ≤ p → P'.fieldStart + P'.fieldLen ≤ p) ∧
      (a ≠ .startQuery → P'.queryStart = P.queryStart) := by
  obtain ⟨hmark, hstart⟩ := h
  obtain ⟨hwithin, s, hs⟩ := within_of_le hp hlen hmark
  cases a with
  | mark | startValue =>
      exact ⟨trivial, _, rfl, ⟨Nat.le_refl p, hstart⟩, fun _ h => h, fun _ => rfl⟩
  | startField =>
      exact ⟨trivial, _, rfl, ⟨hmark, Nat.le_refl p⟩, fun h => absurd rfl h, fun _ => rfl⟩
  | writeField =>
      refine ⟨trivial, _, rfl, ⟨hmark, hstart⟩, fun _ _ => ?_, fun _ => rfl⟩
      show P.fieldStart + (p - P.fieldStart) ≤ p
      omega
  | startQuery =>
      exact ⟨trivial, _, rfl, ⟨hmark, hstart⟩, fun _ h => h, fun h => absurd rfl h⟩
  | xml | json => exact ⟨trivial, _, rfl, ⟨hmark, hstart⟩, fun _ h => h, fun _ => rfl⟩
  | requestUri => exact ⟨hwithin, _, rfl, ⟨hmark, hstart⟩, fun _ h => h, fun _ => rfl⟩
  | requestMethod =>
      refine ⟨hwithin, ?_⟩
      simp only [Action.run, HttpRequestParser.onRequestMethod, hs, Option.map_some]
      split
      · exact ⟨_, rfl, ⟨hmark, hstart⟩, fun _ h => h, fun _ => rfl⟩
      · exact ⟨_, rfl, ⟨hmark, hstart⟩, fun _ h => h, fun _ => rfl⟩
  | fragment | requestPath =>
      refine ⟨hwithin, ?_⟩
      simp only [Action.run, HttpRequestParser.onRequestFragment, HttpRequestParser.onRequestPath,
        hs, Option.map_some]
      exact ⟨_, rfl, ⟨hmark, hstart⟩, fun _ h => h, fun _ => rfl⟩
  | httpVersion =>
      refine ⟨hwithin, ?_⟩
      simp only [Action.run, HttpRequestParser.onRequestVersion, hs, Option.map_some]
      refine ⟨_, rfl, ?_⟩
      unfold HttpRequestParser.setVersionOf
      split
      · exact ⟨⟨hmark, hstart⟩, fun _ h => h, fun _ => rfl⟩
      · split
        · exact ⟨⟨hmark, hstart⟩, fun _ h => h, fun _ => rfl⟩
        · exact ⟨⟨hmark, hstart⟩, fun _ h => h, fun _ => rfl⟩
  | queryString =>
      obtain ⟨start, hqs, hle⟩ := hquery rfl
      obtain ⟨hwithin', s', hs'⟩ := within_of_le hp hlen hle
      refine ⟨⟨start, hqs, hwithin'⟩, ?_⟩
      simp only [Action.run, hqs, Option.bind_some, HttpRequestParser.onRequestQuery, hs',
        Option.map_some]
      exact ⟨_, rfl, ⟨hmark, hstart⟩, fun _ h => h, fun _ => rfl⟩
  | writeValue =>
      refine ⟨⟨?_, hwithin⟩, ?_⟩
      · have hsum := hvalue rfl
        rw [Within]
        omega
      · simp only [Action.run, HttpRequestParser.onRequestHttpField, hs, Option.map_some]
        split
        · exact ⟨_, rfl, ⟨hmark, hstart⟩, fun _ h => h, fun _ => rfl⟩
        · exact ⟨_, rfl, ⟨hmark, hstart⟩, fun _ h => h, fun _ => rfl⟩
  | done =>
      refine ⟨?_, ?_⟩
      · have hle : subWord buffer.length p = buffer.length - p := subWord_of_le hlen hp.le
        rw [InRange, hle, subWord_of_le (by omega) (by omega), Within]
        omega
      · simp only [Action.run]
        split
        · exact ⟨_, rfl, ⟨hmark, hstart⟩, fun _ h => h, fun _ => rfl⟩
        · exact ⟨_, rfl, ⟨hmark, hstart⟩, fun _ h => h, fun _ => rfl⟩

/-! ## The actions of one byte -/

theorem actionsRun_append {t t' : List (Nat × Action)}
    (h : fold (Action.run buffer) t P = some P') :
    actionsRun buffer (t ++ t') P = actionsRun buffer t P ++ actionsRun buffer t' P' := by
  induction t generalizing P with
  | nil =>
      cases h
      rfl
  | cons pa t ih =>
      obtain ⟨p, a⟩ := pa
      obtain ⟨P₁, h₁, h⟩ := Option.bind_eq_some_iff.mp h
      simp only [List.cons_append, actionsRun, h₁, ih h]

theorem traceInRange_append {t t' : List (Nat × Action)}
    (h : fold (Action.run buffer) t P = some P') :
    TraceInRange buffer (t ++ t') P ↔ TraceInRange buffer t P ∧ TraceInRange buffer t' P' := by
  simp only [TraceInRange, actionsRun_append h, List.forall_mem_append]

/-- The actions of one byte, where `write_value` finds a complete name and `query_string` a
query that was begun. -/
theorem acts_inRange (hp : p < buffer.length) (hlen : buffer.length < wordSize)
    (h : Behind p P)
    (hvalue : .writeValue ∈ acts → P.fieldStart + P.fieldLen ≤ p ∧ .startField ∉ acts)
    (hquery : .queryString ∈ acts →
      acts.head? = some .startQuery ∨ ∃ s, P.queryStart = some s ∧ s ≤ p) :
    TraceInRange buffer (acts.map fun a => (p, a)) P ∧
      ∃ P', fold (Action.run buffer) (acts.map fun a => (p, a)) P = some P' ∧ Behind p P' ∧
        (.startField ∉ acts → P.fieldStart + P.fieldLen ≤ p → P'.fieldStart + P'.fieldLen ≤ p) ∧
        (.startQuery ∉ acts → P'.queryStart = P.queryStart) := by
  induction acts generalizing P with
  | nil => exact ⟨fun x hx => absurd hx List.not_mem_nil, P, rfl, h, fun _ h => h, fun _ => rfl⟩
  | cons a acts ih =>
      have hquery' : a = .queryString → ∃ s, P.queryStart = some s ∧ s ≤ p := by
        rintro rfl
        rcases hquery List.mem_cons_self with hhead | hs
        · cases hhead
        · exact hs
      obtain ⟨hin, P₁, h₁, hbehind, hsum, hqs⟩ := Action.run_inRange hp hlen h
        (fun ha => (hvalue (ha ▸ List.mem_cons_self)).1) hquery'
      have hnext : .queryString ∈ acts → ∃ s, P₁.queryStart = some s ∧ s ≤ p := by
        intro hmem
        by_cases ha : a = .startQuery
        · subst ha
          cases h₁
          exact ⟨p, rfl, Nat.le_refl p⟩
        · rw [hqs ha]
          rcases hquery (List.mem_cons_of_mem _ hmem) with hhead | hs
          · exact absurd (Option.some.inj hhead) ha
          · exact hs
      obtain ⟨hrest, P', h', hbehind', hsum', hqs'⟩ := ih hbehind
        (fun hmem => by
          obtain ⟨hle, hno⟩ := hvalue (List.mem_cons_of_mem _ hmem)
          exact ⟨hsum (fun ha => hno (ha ▸ List.mem_cons_self)) hle,
            fun hs => hno (List.mem_cons_of_mem _ hs)⟩)
        (fun hmem => .inr (hnext hmem))
      refine ⟨?_, P', ?_, hbehind', fun hno hle => ?_, fun hno => ?_⟩
      · intro x hx
        rw [List.map_cons, actionsRun, h₁] at hx
        rcases List.mem_cons.mp hx with rfl | hx
        · exact hin
        · exact hrest x hx
      · rw [List.map_cons, fold, h₁, Option.bind_some, h']
      · exact hsum' (fun hs => hno (List.mem_cons_of_mem _ hs))
          (hsum (fun ha => hno (ha ▸ List.mem_cons_self)) hle)
      · exact (hqs' fun hs => hno (List.mem_cons_of_mem _ hs)).trans
          (hqs fun ha => hno (ha ▸ List.mem_cons_self))

/-- What is known of the registers between two bytes of a call. -/
structure Live (cs p : Nat) (P : HttpRequestParser) : Prop where
  running : cs < httpParserFirstFinal
  behind : Behind p P
  value : inValue cs = true → P.fieldStart + P.fieldLen ≤ p
  query : inQuery cs = true → ∃ s, P.queryStart = some s ∧ s < wordSize

theorem Behind.succ (h : Behind p P) : Behind (p + 1) P :=
  ⟨Nat.le_succ_of_le h.mark, Nat.le_succ_of_le h.start⟩

/-- A byte whose query, if one ends at it, began no later. -/
theorem Live.step (h : Live cs p P) (hp : p < buffer.length) (hlen : buffer.length < wordSize)
    (hn : next uriRelaxed cs c = some (acts, cs'))
    (hgood : inQuery cs = true → .queryString ∈ acts → ∃ s, P.queryStart = some s ∧ s ≤ p) :
    TraceInRange buffer (acts.map fun a => (p, a)) P ∧
      ∃ P', fold (Action.run buffer) (acts.map fun a => (p, a)) P = some P' ∧
        (cs' < httpParserFirstFinal → Live cs' (p + 1) P') ∧
        (inQuery cs = true → P'.queryStart = P.queryStart) ∧
        (inQuery cs = false → inQuery cs' = true → P'.queryStart = some p) := by
  have hfield := next_fieldOrder hn
  have horder := next_queryOrder hn
  simp only [fieldOrder, Bool.or_eq_true, Bool.and_eq_true, Bool.not_eq_true',
    decide_eq_true_eq, Nat.not_le.mpr h.running, false_or, List.contains_eq_mem,
    decide_eq_false_iff_not, beq_iff_eq] at hfield
  obtain ⟨⟨hwrite, -⟩, hvalue'⟩ := hfield
  have hquery : .queryString ∈ acts →
      acts.head? = some .startQuery ∨ ∃ s, P.queryStart = some s ∧ s ≤ p := by
    intro hmem
    cases hcs : inQuery cs with
    | true => exact .inr (hgood hcs hmem)
    | false =>
        simp only [queryOrder, hcs, Bool.false_eq_true, if_false, Bool.and_eq_true,
          Bool.or_eq_true, Bool.not_eq_true', beq_iff_eq, List.contains_eq_mem,
          decide_eq_false_iff_not] at horder
        exact .inl (horder.1.resolve_left (not_not_intro hmem))
  obtain ⟨hin, P', hfold, hbehind, hsum, hqs⟩ := acts_inRange hp hlen h.behind
    (fun hmem => by
      obtain ⟨hv, hs⟩ := hwrite.resolve_left (not_not_intro hmem)
      exact ⟨h.value hv, hs⟩) hquery
  have hstart : inQuery cs = false → inQuery cs' = true → P'.queryStart = some p := by
    intro hcs hcs'
    simp only [queryOrder, hcs, hcs', Bool.false_eq_true, if_false, Bool.and_eq_true,
      Bool.not_true, false_or, Bool.or_eq_true, beq_iff_eq] at horder
    rw [horder.2] at hfold
    cases hfold
    rfl
  have hkeep : inQuery cs = true → P'.queryStart = P.queryStart := by
    intro hcs
    refine hqs fun hmem => ?_
    simp only [queryOrder, hcs, if_true, Bool.or_eq_true, Bool.and_eq_true, beq_iff_eq] at horder
    rcases horder with ⟨hacts, -⟩ | ⟨hacts, -⟩
    · rw [hacts] at hmem
      cases hmem
    · rw [hacts] at hmem
      simp at hmem
  refine ⟨hin, P', hfold, fun hrun => ⟨hrun, hbehind.succ, fun hv => ?_, fun hq => ?_⟩, hkeep,
    hstart⟩
  · rcases hvalue' with (hv' | hacts) | ⟨⟨hcs, hs⟩, -⟩
    · rw [hv] at hv'
      cases hv'
    · rw [hacts] at hfold
      cases hfold
      have := h.behind.start
      show P.fieldStart + (p - P.fieldStart) ≤ p + 1
      omega
    · exact Nat.le_succ_of_le (hsum hs (h.value hcs))
  · cases hcs : inQuery cs with
    | true =>
        rw [hkeep hcs]
        exact h.query hcs
    | false => exact ⟨p, hstart hcs hq, by omega⟩

/-! ## The bytes of a call -/

/-- What one byte does to the query that the machine is in. -/
theorem queryEnd_cons (hcs : inQuery cs = true) (hn : next uriRelaxed cs c = some (acts, cs'))
    (data : List UInt8) :
    (acts = [.queryString, .requestUri] ∧ inQuery cs' = false ∧
      queryEnd uriRelaxed cs (c :: data) = some 0) ∨
    (acts = [] ∧ inQuery cs' = true ∧
      queryEnd uriRelaxed cs (c :: data) = (queryEnd uriRelaxed cs' data).map (· + 1)) := by
  have horder := next_queryOrder hn
  simp only [queryOrder, hcs, if_true, Bool.or_eq_true, Bool.and_eq_true, beq_iff_eq,
    Bool.not_eq_true'] at horder
  rcases horder with ⟨rfl, hcs'⟩ | ⟨rfl, hcs'⟩
  · refine .inr ⟨rfl, hcs', ?_⟩
    simp only [queryEnd, hn]
    exact if_neg (by decide)
  · refine .inl ⟨rfl, hcs', ?_⟩
    simp only [queryEnd, hn]
    exact if_pos (by decide)

/-- A query that the machine is in at position `p` does not end before it began. -/
def QueryOk (uriRelaxed : Bool) (cs p : Nat) (P : HttpRequestParser) (data : List UInt8) : Prop :=
  inQuery cs = true → ∀ e, queryEnd uriRelaxed cs data = some e →
    ∃ start, P.queryStart = some start ∧ start ≤ p + e

/-- A query that ends before it began: its length wraps around and its token throws. -/
theorem queryString_bad {t : List (Nat × Action)} {start : Nat} (hp : p < buffer.length)
    (hlen : buffer.length < wordSize) (hqs : P.queryStart = some start) (hstart : start < wordSize)
    (hlt : p < start) :
    ¬TraceInRange buffer ((p, .queryString) :: t) P ∧
      fold (Action.run buffer) ((p, .queryString) :: t) P = none := by
  constructor
  · intro hin
    obtain ⟨start', hqs', hwithin⟩ := hin (p, .queryString, P) List.mem_cons_self
    rw [hqs] at hqs'
    obtain rfl := Option.some.inj hqs'
    have := (within_iff hp hlen hstart).mp hwithin
    omega
  · have htoken : token buffer start p = none := if_neg (Nat.not_le.mpr hlt)
    simp only [fold, Action.run, hqs, Option.bind_some, HttpRequestParser.onRequestQuery, htoken,
      Option.map_none, Option.bind_none]

/-- One byte keeps a query as good as it was, when none ends at it too early. -/
theorem queryOk_cons (data : List UInt8) (hn : next uriRelaxed cs c = some (acts, cs'))
    (hgood : inQuery cs = true → .queryString ∈ acts → ∃ s, P.queryStart = some s ∧ s ≤ p)
    (hkeep : inQuery cs = true → P'.queryStart = P.queryStart)
    (hstart : inQuery cs = false → inQuery cs' = true → P'.queryStart = some p) :
    QueryOk uriRelaxed cs p P (c :: data) ↔ QueryOk uriRelaxed cs' (p + 1) P' data := by
  cases hcs : inQuery cs with
  | false =>
      refine iff_of_true (fun h => absurd (hcs.symm.trans h) Bool.false_ne_true) fun hcs' e _ => ?_
      exact ⟨p, hstart hcs hcs', by omega⟩
  | true =>
      rcases queryEnd_cons hcs hn data with ⟨hacts, hcs', hend⟩ | ⟨-, hcs', hend⟩
      · refine iff_of_true (fun _ e he => ?_) fun h => absurd (hcs'.symm.trans h) Bool.false_ne_true
        rw [hend] at he
        obtain rfl := Option.some.inj he
        exact hgood hcs (by rw [hacts]; exact List.mem_cons_self)
      · rw [QueryOk, QueryOk, hend, hkeep hcs]
        constructor
        · intro h _ e he
          obtain ⟨s, hs, hle⟩ := h hcs (e + 1) (by rw [he]; rfl)
          exact ⟨s, hs, by omega⟩
        · intro h _ e he
          obtain ⟨e', he', rfl⟩ := Option.map_eq_some_iff.mp he
          obtain ⟨s, hs, hle⟩ := h hcs' e' he'
          exact ⟨s, hs, by omega⟩

/-- The first action of a byte is the first of the trace. -/
theorem walk_trace_head (hn : next uriRelaxed cs c = some (a :: acts, cs')) (data : List UInt8) :
    ∃ t, (walk (machine uriRelaxed) p cs (c :: data)).trace = (p, a) :: t := by
  cases hf : (machine uriRelaxed).final cs' with
  | true =>
      rw [walk_final hn hf]
      exact ⟨_, rfl⟩
  | false =>
      rw [walk_next hn hf]
      exact ⟨_, rfl⟩

/-- The callbacks of the rest of a call get ranges exactly if the query does not end before it
began.  If none throws, they do; and a call that takes all bytes leaves the registers in
order. -/
theorem walk_inRange (hlen : buffer.length < wordSize) : ∀ {data : List UInt8} {cs p : Nat}
    {P : HttpRequestParser}, p + data.length = buffer.length → Live cs p P →
    (TraceInRange buffer (walk (machine uriRelaxed) p cs data).trace P ↔
      QueryOk uriRelaxed cs p P data) ∧
    ∀ {P'}, fold (Action.run buffer) (walk (machine uriRelaxed) p cs data).trace P = some P' →
      TraceInRange buffer (walk (machine uriRelaxed) p cs data).trace P ∧
      ∀ {q}, (walk (machine uriRelaxed) p cs data).stop = .more q → Live q buffer.length P'
  | [], cs, p, P, hpos, h => by
      have hin : TraceInRange buffer [] P := fun x hx => absurd hx List.not_mem_nil
      refine ⟨iff_of_true hin fun _ e he => ?_, fun hfold => ⟨hin, fun hstop => ?_⟩⟩
      · cases he
      · cases hfold
        cases hstop
        rw [← hpos]
        exact h
  | c :: data, cs, p, P, hpos, h => by
      rw [List.length_cons] at hpos
      have hp : p < buffer.length := by omega
      cases hn : next uriRelaxed cs c with
      | none =>
          have hw : walk (machine uriRelaxed) p cs (c :: data) = ⟨[], 0, .reject⟩ :=
            walk_refused hn data
          have hin : TraceInRange buffer [] P := fun x hx => absurd hx List.not_mem_nil
          rw [hw]
          refine ⟨iff_of_true hin fun _ e he => ?_, fun _ => ⟨hin, fun hstop => ?_⟩⟩
          · simp only [queryEnd, hn] at he
            cases he
          · cases hstop
      | some dest =>
          obtain ⟨acts, cs'⟩ := dest
          by_cases hgood : inQuery cs = true → .queryString ∈ acts →
              ∃ s, P.queryStart = some s ∧ s ≤ p
          · obtain ⟨hin, P₁, hfold₁, hlive, hkeep, hstart⟩ := h.step hp hlen hn hgood
            have hquery := queryOk_cons data hn hgood hkeep hstart
            cases hf : (machine uriRelaxed).final cs' with
            | true =>
                rw [walk_final hn hf]
                refine ⟨iff_of_true hin (hquery.mpr fun hcs' => ?_),
                  fun _ => ⟨hin, fun hstop => ?_⟩⟩
                · -- no state inside a query is final
                  have hfinal : httpParserFirstFinal ≤ cs' := of_decide_eq_true hf
                  simp only [inQuery, Bool.or_eq_true, beq_iff_eq] at hcs'
                  simp only [httpParserFirstFinal] at hfinal
                  omega
                · cases hstop
            | false =>
                have hrun : cs' < httpParserFirstFinal := Nat.not_le.mp (of_decide_eq_false hf)
                have hpos' : p + 1 + data.length = buffer.length := by omega
                obtain ⟨hiff, hend⟩ := walk_inRange hlen hpos' (hlive hrun)
                rw [walk_next hn hf]
                rw [traceInRange_append hfold₁]
                refine ⟨?_, fun hfold => ?_⟩
                · rw [hiff, ← hquery]
                  exact and_iff_right hin
                · rw [fold_append, hfold₁, Option.bind_some] at hfold
                  exact ⟨⟨hin, (hend hfold).1⟩, (hend hfold).2⟩
          · obtain ⟨hcs, hmem, hno⟩ : inQuery cs = true ∧ .queryString ∈ acts ∧
                ¬∃ s, P.queryStart = some s ∧ s ≤ p := by
              simpa only [Classical.not_imp] using hgood
            obtain ⟨s, hqs, hs⟩ := h.query hcs
            have hlt : p < s := Nat.not_le.mp fun hle => hno ⟨s, hqs, hle⟩
            rcases queryEnd_cons hcs hn data with ⟨rfl, -, hend⟩ | ⟨rfl, -, -⟩
            · obtain ⟨t, ht⟩ := walk_trace_head (p := p) hn data
              obtain ⟨hout, hnone⟩ := queryString_bad (t := t) hp hlen hqs hs hlt
              rw [ht]
              refine ⟨iff_of_false hout fun hok => hno (hok hcs 0 hend), fun hfold => ?_⟩
              rw [hnone] at hfold
              cases hfold
            · cases hmem

/-! ## The calls of a connection -/

/-- What is known of the parser between two calls. -/
structure Known (P : HttpRequestParser) : Prop where
  alive : P.cs ≠ httpParserError
  running : P.cs < httpParserFirstFinal
  query : inQuery P.cs = true → ∃ s, P.queryStart = some s ∧ s < wordSize

theorem Known.live (h : Known P) : Live P.cs 0 P.clear :=
  ⟨h.running, ⟨Nat.le_refl 0, Nat.le_refl 0⟩, fun _ => Nat.le_refl 0, h.query⟩

theorem known_init : Known {} :=
  ⟨by decide, by decide, fun h => absurd h (by decide)⟩

theorem running_of_isFinished (h : P.isFinished = 0) :
    P.cs ≠ httpParserError ∧ P.cs < httpParserFirstFinal := by
  rw [HttpRequestParser.isFinished] at h
  split at h
  · cases h
  · rename_i herror
    split at h
    · cases h
    · rename_i hrun
      exact ⟨herror, Nat.not_le.mp hrun⟩

/-- A call whose parser goes on took all bytes, and leaves the parser known. -/
theorem Known.execute {data : List UInt8} {n : Nat} (h : Known P) (hne : data ≠ [])
    (hlen : data.length ≤ intMax) (hexec : P.execute uriRelaxed data = some (P', n))
    (hfinish : P'.isFinished = 0) : Known P' ∧ data.drop n = [] := by
  rw [HttpRequestParser.execute_eq hne hlen h.alive] at hexec
  have hword : data.length < wordSize := lt_of_le_of_lt hlen (by decide)
  obtain ⟨P₁, hfold, heq⟩ := Option.map_eq_some_iff.mp hexec
  obtain ⟨rfl, rfl⟩ := Prod.mk.inj heq
  obtain ⟨herror, hrun⟩ := running_of_isFinished hfinish
  cases hstop : (walk (machine uriRelaxed) 0 P.cs data).stop with
  | reject =>
      rw [hstop] at herror
      exact absurd rfl herror
  | halt q =>
      have hfinal : httpParserFirstFinal ≤ q := of_decide_eq_true (walk_halt_final hstop)
      rw [hstop] at hrun
      exact absurd hrun (Nat.not_lt.mpr hfinal)
  | more q =>
      rw [hstop] at herror
      obtain ⟨hrun', -, -, hquery⟩ := ((walk_inRange hword (Nat.zero_add _) h.live).2 hfold).2 hstop
      refine ⟨⟨herror, hrun', hquery⟩, ?_⟩
      rw [walk_used_of_more hstop]
      exact List.drop_length

theorem read_ne_nil (n : Nat) (conn : Conn) (h : 0 < (conn.read n).1) :
    (conn.read n).2.1 ≠ [] := by
  rw [Conn.read] at h ⊢
  split at h
  · rw [if_pos ‹_›]
    split at h
    · exact absurd h (lt_irrefl (0 : Int))
    · exact List.length_pos_iff.mp (Int.natCast_pos.mp h)
  · exact absurd h (show ¬(0 : Int) < -1 by decide)

theorem recvCalls_known {buffSize : Nat} : ∀ (fuel : Nat) {P : HttpRequestParser} {conn : Conn},
    Known P → ∀ x ∈ recvCalls uriRelaxed buffSize fuel P [] conn,
      Known x.1 ∧ x.2 ≠ [] ∧ x.2.length ≤ intMax
  | 0, _, _, _, _, hx => absurd hx List.not_mem_nil
  | fuel + 1, P, conn, h, x, hx => by
      have hgot := conn.read_length_le buffSize
      have hne := read_ne_nil buffSize conn
      rw [recvCalls, List.length_nil, Nat.sub_zero] at hx
      generalize conn.read buffSize = r at hx hgot hne
      obtain ⟨len, got, conn'⟩ := r
      simp only [List.nil_append] at hx hgot hne
      have hlen : got.length ≤ intMax := hgot.trans (by decide)
      split at hx
      · cases hx
      · rename_i hpos
        rcases List.mem_cons.mp hx with rfl | hx
        · exact ⟨h, hne (Int.not_le.mp hpos), hlen⟩
        · split at hx
          · cases hx
          · rename_i P' n hexec
            split at hx
            · cases hx
            · split at hx
              · cases hx
              · split at hx
                · cases hx
                · rename_i hfinish
                  obtain ⟨hknown, hdrop⟩ :=
                    h.execute (hne (Int.not_le.mp hpos)) hlen hexec (not_not.mp hfinish)
                  rw [hdrop] at hx
                  exact recvCalls_known fuel hknown x hx

/-- The calls are those of the loop: the loop does not return if one of them throws. -/
theorem recvLoop_of_throw {buffSize : Nat} : ∀ (fuel : Nat) {P : HttpRequestParser}
    {kept : List UInt8} {conn : Conn} {x : HttpRequestParser × List UInt8},
    x ∈ recvCalls uriRelaxed buffSize fuel P kept conn → x.1.execute uriRelaxed x.2 = none →
      recvLoop uriRelaxed buffSize fuel P kept conn = .noReturn
  | 0, _, _, _, _, hx, _ => absurd hx List.not_mem_nil
  | fuel + 1, P, kept, conn, x, hx, hthrow => by
      rw [recvCalls] at hx
      rw [recvLoop]
      generalize conn.read (buffSize - kept.length) = r at hx ⊢
      obtain ⟨len, got, conn'⟩ := r
      by_cases hpos : len ≤ 0
      · simp only [if_pos hpos] at hx
        cases hx
      simp only [if_neg hpos] at hx ⊢
      cases hexec : P.execute uriRelaxed (kept ++ got) with
      | none => rfl
      | some dest =>
          obtain ⟨P', n⟩ := dest
          simp only [hexec] at hx
          rcases List.mem_cons.mp hx with rfl | hx
          · rw [hexec] at hthrow
            cases hthrow
          · by_cases herror : P'.hasError = true
            · rw [if_pos herror] at hx
              cases hx
            by_cases hfull : (((kept ++ got).drop n).length : Int) = toInt buffSize
            · rw [if_neg herror, if_pos hfull] at hx
              cases hx
            by_cases hfinish : P'.isFinished ≠ 0
            · rw [if_neg herror, if_neg hfull, if_pos hfinish] at hx
              cases hx
            rw [if_neg herror, if_neg hfull, if_neg hfinish] at hx
            simp only [if_neg herror, if_neg hfull, if_neg hfinish]
            exact recvLoop_of_throw fuel hx hthrow

/-- Each call gets its callbacks' ranges right exactly if it keeps the query. -/
theorem callInRange_iff {data : List UInt8} (h : Known P) (hlen : data.length ≤ intMax) :
    CallInRange uriRelaxed P data ↔ KeepsQuery uriRelaxed P data := by
  have hword : data.length < wordSize := lt_of_le_of_lt hlen (by decide)
  refine (walk_inRange hword (Nat.zero_add _) h.live).1.trans ?_
  simp only [QueryOk, KeepsQuery, Nat.zero_add]
  exact Iff.rfl

end Ranges

/-- A range outside the buffer throws: `recvRequest` does not return. -/
theorem recvHeader_of_outOfRange {uriRelaxed : Bool} {buffSize : Nat} {c : Conn}
    {x : HttpRequestParser × List UInt8} (hx : x ∈ executeCalls uriRelaxed buffSize c)
    (hout : ¬CallInRange uriRelaxed x.1 x.2) : recvHeader uriRelaxed buffSize c = .noReturn := by
  obtain ⟨hknown, hne, hlen⟩ := recvCalls_known _ known_init x hx
  refine recvLoop_of_throw _ hx ?_
  have hword : x.2.length < wordSize := lt_of_le_of_lt hlen (by decide)
  rw [HttpRequestParser.execute_eq hne hlen hknown.alive, Option.map_eq_none_iff,
    Option.eq_none_iff_forall_ne_some]
  intro P' hfold
  exact hout ((walk_inRange hword (Nat.zero_add _) hknown.live).2 hfold).1

/-- On whatever a peer sends, every callback of every call gets a range inside the
buffer exactly if no query ends at an offset before the one at which it began, in
the buffer of an earlier call. -/
theorem callbacks_inRange_iff (uriRelaxed : Bool) (buffSize : Nat) (c : Conn) :
    (∀ x ∈ executeCalls uriRelaxed buffSize c, CallInRange uriRelaxed x.1 x.2) ↔
      ∀ x ∈ executeCalls uriRelaxed buffSize c, KeepsQuery uriRelaxed x.1 x.2 := by
  refine forall₂_congr fun x hx => ?_
  obtain ⟨hknown, -, hlen⟩ := recvCalls_known _ known_init x hx
  exact callInRange_iff hknown hlen

/-- A peer that cuts its request inside the query. -/
def cutQuery : Conn := { segs := [chars "GET /aaaa?x", chars "y HTTP/1.1\r\n\r\n"] }

/-- The query begins at offset 10 of the first buffer and ends at offset 1 of the
second, so that its length is `1 - 10` as a `size_t`. -/
theorem cutQuery_outOfRange :
    ¬∀ x ∈ executeCalls false 4096 cutQuery, CallInRange false x.1 x.2 := by
  intro h
  have hcalls : (executeCalls false 4096 cutQuery).map (fun x => (x.1.cs, x.1.queryStart, x.2)) =
      [(1, none, chars "GET /aaaa?x"), (30, some 10, chars "y HTTP/1.1\r\n\r\n")] := by
    decide +kernel
  have hmem : (30, some 10, chars "y HTTP/1.1\r\n\r\n") ∈
      (executeCalls false 4096 cutQuery).map (fun x => (x.1.cs, x.1.queryStart, x.2)) := by
    rw [hcalls]
    exact List.mem_cons_of_mem _ List.mem_cons_self
  obtain ⟨⟨P, data⟩, hx, heq⟩ := List.mem_map.mp hmem
  obtain ⟨hcs, hqs, hdata⟩ : P.cs = 30 ∧ P.queryStart = some 10 ∧
      data = chars "y HTTP/1.1\r\n\r\n" := by
    simpa only [Prod.mk.injEq] using heq
  obtain ⟨hknown, -, hlen⟩ := recvCalls_known _ known_init _ hx
  have hend : queryEnd false P.cs data = some 1 := by
    rw [hcs, hdata]
    decide +kernel
  obtain ⟨start, hstart, hle⟩ :=
    (callInRange_iff hknown hlen).mp (h _ hx) (by rw [hcs]; rfl) 1 hend
  rw [hqs] at hstart
  obtain rfl := Option.some.inj hstart
  exact absurd hle (by decide)

end CoLib.Http
