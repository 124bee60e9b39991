/-
# `CoLib.Http.Memory` — the memory a parser is constructed in

`HttpRequestParser` has its `http_parser` as a member, and the constructor does
not initialise it: `http_parser_init` sets nine fields, the constructor the
pointers to the callbacks and `data`.  Nobody sets `query_start` and
`uri_relaxed`.

The first of them is harmless, since the machine sets it before it reads it.  The
second guards the transitions on `^`, `{` and `}` in a URI.

**Proved here.** `parse_same_iff`: what is received is parsed in the same way
whatever the memory held exactly if no such byte is reached in a URI.
-/
import CoLib.Http.Ranges

namespace CoLib.Http

open Lib Lib.Scanner

/-! ## Construction -/

/-- The fields of `struct http_parser` that are numbers. -/
structure HttpParser where
  cs : Int
  bodyStart : Nat
  contentLen : Int
  nread : Nat
  mark : Nat
  fieldStart : Nat
  fieldLen : Nat
  queryStart : Nat
  xmlSent : Int
  jsonSent : Int
  uriRelaxed : Int
  deriving DecidableEq, Repr

/-- `http_parser_init`. -/
def httpParserInit (parser : HttpParser) : HttpParser :=
  { parser with
    cs := httpParserStart
    bodyStart := 0
    contentLen := 0
    mark := 0
    nread := 0
    fieldLen := 0
    fieldStart := 0
    xmlSent := 0
    jsonSent := 0 }

/-- The parser that `HttpRequestParser()` makes of a piece of memory. -/
def HttpRequestParser.construct (memory : HttpParser) : HttpRequestParser :=
  let parser := httpParserInit memory
  { cs := parser.cs.toNat
    bodyStart := parser.bodyStart
    contentLen := parser.contentLen.toNat
    mark := parser.mark
    fieldStart := parser.fieldStart
    fieldLen := parser.fieldLen
    queryStart := some parser.queryStart
    xmlSent := parser.xmlSent != 0
    jsonSent := parser.jsonSent != 0
    data := {}
    error := 0 }

/-- `uri_relaxed` after the construction. -/
def HttpParser.relaxed (memory : HttpParser) : Bool :=
  (httpParserInit memory).uriRelaxed != 0

/-! ## What is seen of a parse -/

/-- A call of a callback, with its offsets and lengths. -/
inductive Callback where
  | element (action : Action) (start length : Nat)
  | field (field flen value vlen : Nat)
  deriving DecidableEq, Repr

/-- The callback of an action at position `p` of a buffer of `len` bytes. -/
def Action.callback (len p : Nat) (P : HttpRequestParser) : Action → Option Callback
  | .requestMethod => some (.element .requestMethod P.mark (subWord p P.mark))
  | .requestUri => some (.element .requestUri P.mark (subWord p P.mark))
  | .fragment => some (.element .fragment P.mark (subWord p P.mark))
  | .httpVersion => some (.element .httpVersion P.mark (subWord p P.mark))
  | .requestPath => some (.element .requestPath P.mark (subWord p P.mark))
  | .queryString =>
      P.queryStart.map fun start => .element .queryString start (subWord p start)
  | .writeValue => some (.field P.fieldStart P.fieldLen P.mark (subWord p P.mark))
  | .done =>
      if P.xmlSent || P.jsonSent then none
      else some (.element .done (p + 1) (subWord (subWord len p) 1))
  | .mark | .startField | .writeField | .startValue | .startQuery | .xml | .json => none

/-- The callbacks of one transition. -/
def actsCallbacks (buffer : List UInt8) (p : Nat) : List Action → HttpRequestParser → List Callback
  | [], _ => []
  | a :: acts, P =>
      (a.callback buffer.length p P).toList ++
        match a.run buffer p P with
        | some P' => actsCallbacks buffer p acts P'
        | none => []

/-- The callbacks of a scan from position `p`. -/
def scanCallbacks (uriRelaxed : Bool) (buffer : List UInt8) :
    Nat → Nat → HttpRequestParser → List UInt8 → List Callback
  | _, _, _, [] => []
  | p, cs, P, c :: data =>
      match next uriRelaxed cs c with
      | none => []
      | some (acts, cs') =>
          actsCallbacks buffer p acts P ++
            match runActs (Action.run buffer) p acts P with
            | some P' =>
                if (machine uriRelaxed).final cs' then []
                else scanCallbacks uriRelaxed buffer (p + 1) cs' P' data
            | none => []

/-- What a call of `execute` shows: its callbacks, and the bytes taken, `hasError` and
`isFinished` after it, where it returns. -/
structure Report where
  callbacks : List Callback
  accepted : Option (Nat × Bool × Int)
  deriving DecidableEq, Repr

/-- The reports of successive calls of `execute`, and the request at the end. -/
def parse (uriRelaxed : Bool) :
    List (List UInt8) → HttpRequestParser → List Report × Option HttpRequest
  | [], P => ([], some P.data)
  | data :: input, P =>
      -- without bytes, or with too many for its assertion, `execute` does not get to the machine
      let callbacks := if data = [] ∨ toInt data.length ≠ data.length then []
        else scanCallbacks uriRelaxed data 0 P.cs P.clear data
      match P.execute uriRelaxed data with
      | none => ([⟨callbacks, none⟩], none)
      | some (P', n) =>
          let (reports, request) := parse uriRelaxed input P'
          (⟨callbacks, some (n, P'.hasError, P'.isFinished)⟩ :: reports, request)

/-- A parser constructed in `memory`, on the input. -/
def parseIn (memory : HttpParser) (input : List (List UInt8)) : List Report × Option HttpRequest :=
  parse memory.relaxed input (.construct memory)

/-! ## The guarded bytes -/

/-- The byte is one that the switch of the state guards by `uri_relaxed`. -/
def isGuarded (cs : Nat) (c : UInt8) : Bool :=
  match rows.lookup cs with
  | some row => row.any fun r => r.guarded && r.covers true c
  | none => false

/-- A scan by the switches without the guarded ranges reaches a guarded byte. -/
def meetsGuarded (buffer : List UInt8) : Nat → Nat → HttpRequestParser → List UInt8 → Bool
  | _, _, _, [] => false
  | p, cs, P, c :: data =>
      isGuarded cs c ||
        match next false cs c with
        | none => false
        | some (acts, cs') =>
            match runActs (Action.run buffer) p acts P with
            | none => false
            | some P' => !(machine false).final cs' && meetsGuarded buffer (p + 1) cs' P' data

/-- No call of `execute` reaches a guarded byte. -/
def Unguarded : List (List UInt8) → HttpRequestParser → Prop
  | [], _ => True
  | data :: input, P =>
      (toInt data.length = data.length → meetsGuarded data 0 P.cs P.clear data = false) ∧
        match P.execute false data with
        | none => True
        | some (P', _) => Unguarded input P'

/-- In a state that guards a byte the byte is refused without `uri_relaxed`, and taken
with it. -/
def Range.guardsApart (cs : Nat) (r : Range) : Bool :=
  !r.guarded || ((next false cs r.lo.toUInt8).isNone && (next true cs r.lo.toUInt8).isSome &&
    r.lo == r.hi && r.lo < 256)

theorem rows_guardsApart :
    rows.all (fun row => row.2.all (Range.guardsApart row.1)) = true := by
  decide +kernel

theorem next_of_guarded {cs : Nat} {c : UInt8} (h : isGuarded cs c = true) :
    next false cs c = none ∧ ∃ dest, next true cs c = some dest := by
  rw [isGuarded] at h
  split at h
  · rename_i row hrow
    obtain ⟨r, hr, hguard⟩ := List.any_eq_true.mp h
    obtain ⟨l, l', hsplit, -⟩ := List.lookup_eq_some_iff.mp hrow
    have hmem : (cs, row) ∈ rows := hsplit ▸ List.mem_append_right _ List.mem_cons_self
    have happart := List.all_eq_true.mp (List.all_eq_true.mp rows_guardsApart _ hmem) r hr
    rw [Bool.and_eq_true] at hguard
    simp only [Range.guardsApart, hguard.1, Bool.not_true, Bool.false_or, Bool.and_eq_true,
      beq_iff_eq, decide_eq_true_eq, Option.isNone_iff_eq_none] at happart
    obtain ⟨⟨⟨hnone, hsome⟩, hlohi⟩, hlt⟩ := happart
    have hcov := hguard.2
    simp only [Range.covers, Bool.or_true, Bool.and_true, Bool.and_eq_true,
      decide_eq_true_eq] at hcov
    have hc : c = r.lo.toUInt8 := by
      refine UInt8.toNat_inj.mp ?_
      rw [Nat.toUInt8_eq, UInt8.toNat_ofNat', Nat.mod_eq_of_lt hlt]
      omega
    rw [hc]
    exact ⟨hnone, Option.isSome_iff_exists.mp hsome⟩
  · cases h

/-- Elsewhere `uri_relaxed` is not looked at. -/
theorem next_of_unguarded {cs : Nat} {c : UInt8} (h : isGuarded cs c = false) :
    next true cs c = next false cs c := by
  rw [isGuarded] at h
  rw [next, next]
  cases hrow : rows.lookup cs with
  | none => rfl
  | some row =>
      rw [hrow] at h
      have hfind : row.find? (Range.covers true c) = row.find? (Range.covers false c) := by
        refine List.find?_congr fun r hr => ?_
        have hno := List.any_eq_false.mp h r hr
        rw [Bool.and_eq_true, not_and, Bool.not_eq_true] at hno
        cases hguard : r.guarded with
        | true =>
            rw [hno hguard, Range.covers, hguard]
            simp
        | false => simp [Range.covers, hguard]
      rw [Option.bind_some, Option.bind_some, hfind]

/-! ## The register of the query -/

section Query

variable {uriRelaxed : Bool} {buffer : List UInt8} {p cs cs' : Nat} {P P' : HttpRequestParser}
  {a : Action} {acts : List Action} {c : UInt8}

/-- The parsers differ in `query_start` at most. -/
def SameBut (P P' : HttpRequestParser) : Prop :=
  P' = { P with queryStart := P'.queryStart }

/-- The parsers differ in `query_start` at most, and in no query. -/
structure Alike (cs : Nat) (P P' : HttpRequestParser) : Prop where
  same : SameBut P P'
  query : inQuery cs = true → P = P'

theorem SameBut.refl (P : HttpRequestParser) : SameBut P P := rfl

theorem Alike.refl (cs : Nat) (P : HttpRequestParser) : Alike cs P P := ⟨rfl, fun _ => rfl⟩

/-- An action other than `query_string` does not look at the register. -/
theorem SameBut.run (buffer : List UInt8) (p : Nat) (h : SameBut P P') (ha : a ≠ .queryString) :
    a.callback buffer.length p P' = a.callback buffer.length p P ∧
      Option.Rel SameBut (a.run buffer p P) (a.run buffer p P') := by
  rw [h]
  generalize P'.queryStart = q
  have hmap : ∀ (s : Option (List UInt8)) (f : List UInt8 → HttpRequestParser)
      (f' : List UInt8 → HttpRequestParser), (∀ x, SameBut (f x) (f' x)) →
      Option.Rel SameBut (s.map f) (s.map f') := by
    intro s f f' hf
    cases s with
    | none => exact .none
    | some x => exact .some (hf x)
  cases a with
  | queryString => exact absurd rfl ha
  | mark | startField | writeField | startValue | requestUri | startQuery | xml | json =>
      exact ⟨rfl, .some rfl⟩
  | writeValue =>
      refine ⟨rfl, ?_⟩
      simp only [Action.run, HttpRequestParser.onRequestHttpField]
      split
      · exact .some rfl
      · exact hmap _ _ _ fun _ => rfl
  | requestMethod =>
      refine ⟨rfl, ?_⟩
      simp only [Action.run, HttpRequestParser.onRequestMethod]
      split
      · exact hmap _ _ _ fun _ => rfl
      · exact .some rfl
  | fragment | requestPath => exact ⟨rfl, hmap _ _ _ fun _ => rfl⟩
  | httpVersion =>
      refine ⟨rfl, hmap _ _ _ fun x => ?_⟩
      unfold HttpRequestParser.setVersionOf
      split
      · rfl
      · split <;> rfl
  | done =>
      refine ⟨rfl, ?_⟩
      simp only [Action.run]
      split <;> exact .some rfl

theorem SameBut.runActs (buffer : List UInt8) (p : Nat) (h : SameBut P P')
    (hacts : .queryString ∉ acts) :
    actsCallbacks buffer p acts P' = actsCallbacks buffer p acts P ∧
      Option.Rel SameBut (Scanner.runActs (Action.run buffer) p acts P)
        (Scanner.runActs (Action.run buffer) p acts P') := by
  induction acts generalizing P P' with
  | nil => exact ⟨rfl, .some h⟩
  | cons a acts ih =>
      rw [List.mem_cons, not_or] at hacts
      obtain ⟨hcall, hrun⟩ := h.run buffer p (Ne.symm hacts.1)
      rw [actsCallbacks, actsCallbacks, Scanner.runActs, Scanner.runActs, hcall]
      generalize a.run buffer p P = r at hrun ⊢
      generalize a.run buffer p P' = r' at hrun ⊢
      cases hrun with
      | none => exact ⟨rfl, .none⟩
      | some hsame =>
          obtain ⟨hcalls, hrel⟩ := ih hsame hacts.2
          exact ⟨congrArg _ hcalls, hrel⟩

theorem rel_refl {α : Type} {R : α → α → Prop} (hR : ∀ x, R x x) :
    ∀ o : Option α, Option.Rel R o o
  | none => .none
  | some x => .some (hR x)

theorem rel_imp {α : Type} {R R' : α → α → Prop} (himp : ∀ x y, R x y → R' x y)
    {o o' : Option α} (h : Option.Rel R o o') : Option.Rel R' o o' := by
  cases h with
  | none => exact .none
  | some hxy => exact .some (himp _ _ hxy)

/-- A transition reads the register only where it was set in the same scan, or where the
parsers are the same. -/
theorem Alike.transition (buffer : List UInt8) (p : Nat) (h : Alike cs P P')
    (hn : next uriRelaxed cs c = some (acts, cs')) :
    actsCallbacks buffer p acts P' = actsCallbacks buffer p acts P ∧
      Option.Rel (Alike cs') (Scanner.runActs (Action.run buffer) p acts P)
        (Scanner.runActs (Action.run buffer) p acts P') := by
  have horder := next_queryOrder hn
  cases hq : inQuery cs with
  | true =>
      obtain rfl := h.query hq
      exact ⟨rfl, rel_refl (Alike.refl cs') _⟩
  | false =>
      rw [queryOrder, hq] at horder
      simp only [Bool.false_eq_true, if_false, Bool.and_eq_true, Bool.or_eq_true,
        Bool.not_eq_true', beq_iff_eq] at horder
      obtain ⟨hread, hstart⟩ := horder
      by_cases hhead : acts.head? = some .startQuery
      · -- the register is set first: from there on the parsers are the same
        obtain ⟨rest, rfl⟩ := List.head?_eq_some_iff.mp hhead
        have hset : ({ P' with queryStart := some p } : HttpRequestParser) =
            { P with queryStart := some p } := by rw [h.same]
        rw [actsCallbacks, actsCallbacks, Scanner.runActs, Scanner.runActs]
        simp only [Action.callback, Action.run, Option.bind_some, hset]
        exact ⟨trivial, rel_refl (Alike.refl cs') _⟩
      · have hno : .queryString ∉ acts := by
          intro hmem
          rcases hread with hread | hread
          · rw [List.contains_iff_mem.mpr hmem] at hread
            cases hread
          · exact hhead hread
        have hout : inQuery cs' = false := by
          rcases hstart with hout | hacts
          · exact hout
          · rw [hacts] at hhead
            exact absurd rfl hhead
        obtain ⟨hcalls, hrel⟩ := h.same.runActs buffer p hno
        refine ⟨hcalls, rel_imp (fun _ _ hsame => ⟨hsame, fun hin => ?_⟩) hrel⟩
        rw [hout] at hin
        cases hin

/-- The results of two scans: the parsers are alike in the state that is reached. -/
def AlikeScan (x y : HttpRequestParser × Nat × Stop Nat) : Prop :=
  Alike (HttpRequestParser.stateOf x.2.2) x.1 y.1 ∧ y.2 = x.2

theorem Alike.scan (uriRelaxed : Bool) (buffer : List UInt8) (p : Nat) (h : Alike cs P P')
    (data : List UInt8) :
    scanCallbacks uriRelaxed buffer p cs P' data = scanCallbacks uriRelaxed buffer p cs P data ∧
      Option.Rel AlikeScan
        (Scanner.scan (machine uriRelaxed) (Action.run buffer) p cs P data)
        (Scanner.scan (machine uriRelaxed) (Action.run buffer) p cs P' data) := by
  induction data generalizing p cs P P' with
  | nil => exact ⟨rfl, .some ⟨h, rfl⟩⟩
  | cons c data ih =>
      rw [scanCallbacks, scanCallbacks, Scanner.scan, Scanner.scan]
      cases hn : next uriRelaxed cs c with
      | none =>
          have hmachine : (machine uriRelaxed).next cs c = none := hn
          rw [hmachine]
          exact ⟨rfl, .some ⟨⟨h.same, fun hin => Bool.noConfusion (hin : false = true)⟩, rfl⟩⟩
      | some dest =>
          obtain ⟨acts, cs'⟩ := dest
          have hmachine : (machine uriRelaxed).next cs c = some (acts, cs') := hn
          rw [hmachine]
          obtain ⟨hcalls, hrel⟩ := h.transition buffer p hn
          dsimp only
          rw [hcalls]
          generalize Scanner.runActs (Action.run buffer) p acts P = r at hrel ⊢
          generalize Scanner.runActs (Action.run buffer) p acts P' = r' at hrel ⊢
          cases hrel with
          | none => exact ⟨rfl, .none⟩
          | some halike =>
              dsimp only [Option.bind_some]
              split
              · exact ⟨rfl, .some ⟨halike, rfl⟩⟩
              · obtain ⟨hrest, hscan⟩ := ih (p + 1) halike
                rw [hrest]
                refine ⟨rfl, ?_⟩
                generalize Scanner.scan (machine uriRelaxed) (Action.run buffer) (p + 1) cs' _
                  data = o at hscan ⊢
                generalize Scanner.scan (machine uriRelaxed) (Action.run buffer) (p + 1) cs' _
                  data = o' at hscan ⊢
                cases hscan with
                | none => exact .none
                | some hxy =>
                    exact .some ⟨hxy.1, congrArg (fun z : Nat × Stop Nat => (z.1 + 1, z.2)) hxy.2⟩

/-- The results of two calls of `execute`. -/
def AlikeCall (x y : HttpRequestParser × Nat) : Prop :=
  Alike x.1.cs x.1 y.1 ∧ y.2 = x.2

theorem SameBut.seen (h : SameBut P P') :
    P'.cs = P.cs ∧ P'.data = P.data ∧ P'.hasError = P.hasError ∧ P'.isFinished = P.isFinished := by
  rw [h]
  exact ⟨rfl, rfl, rfl, rfl⟩

theorem Alike.clear (h : Alike cs P P') : Alike cs P.clear P'.clear := by
  refine ⟨?_, fun hin => by rw [h.query hin]⟩
  rw [SameBut, h.same]
  rfl

theorem Alike.execute (uriRelaxed : Bool) (h : Alike P.cs P P') (data : List UInt8) :
    Option.Rel AlikeCall (P.execute uriRelaxed data) (P'.execute uriRelaxed data) := by
  have hcs : P'.cs = P.cs := h.same.seen.1
  rw [HttpRequestParser.execute, HttpRequestParser.execute]
  by_cases hdata : data = []
  · rw [if_pos hdata, if_pos hdata]
    exact .some ⟨h, rfl⟩
  by_cases hlong : toInt data.length ≠ data.length
  · rw [if_neg hdata, if_neg hdata, if_pos hlong, if_pos hlong]
    exact .none
  · rw [if_neg hdata, if_neg hdata, if_neg hlong, if_neg hlong, HttpRequestParser.run,
      HttpRequestParser.run, hcs]
    have hscan := (h.clear.scan uriRelaxed data 0 data).2
    generalize Scanner.scan (machine uriRelaxed) (Action.run data) 0 P.cs P.clear data = o
      at hscan ⊢
    generalize Scanner.scan (machine uriRelaxed) (Action.run data) 0 P.cs P'.clear data = o'
      at hscan ⊢
    cases hscan with
    | none => exact .none
    | @some x y hxy =>
        obtain ⟨R, n, stop⟩ := x
        obtain ⟨R', n', stop'⟩ := y
        obtain ⟨halike, heq⟩ := hxy
        obtain ⟨rfl, rfl⟩ := Prod.mk.inj heq
        refine .some ⟨⟨?_, ?_⟩, rfl⟩
        · have hsame : R' = { R with queryStart := R'.queryStart } := halike.same
          rw [SameBut]
          dsimp only
          rw [hsame]
        · dsimp only
          intro hin
          split at hin
          · rename_i herror
            rw [herror] at hin
            cases hin
          · obtain rfl : R = R' := halike.query hin
            rfl

/-- What is seen does not depend on the register. -/
theorem Alike.parse {input : List (List UInt8)} (h : Alike P.cs P P') :
    Http.parse uriRelaxed input P' = Http.parse uriRelaxed input P := by
  induction input generalizing P P' with
  | nil => rw [Http.parse, Http.parse, h.same.seen.2.1]
  | cons data input ih =>
      have hcs : P'.cs = P.cs := h.same.seen.1
      have hcalls := (h.clear.scan uriRelaxed data 0 data).1
      have hexec := h.execute uriRelaxed data
      rw [Http.parse, Http.parse, hcs, hcalls]
      generalize P.execute uriRelaxed data = o at hexec ⊢
      generalize P'.execute uriRelaxed data = o' at hexec ⊢
      cases hexec with
      | none => rfl
      | @some x y hxy =>
          obtain ⟨R, n⟩ := x
          obtain ⟨R', n'⟩ := y
          obtain ⟨halike, heq⟩ := hxy
          obtain rfl : n' = n := heq
          obtain ⟨_, _, herror, hfinish⟩ := halike.same.seen
          dsimp only at halike herror hfinish ⊢
          rw [ih halike, herror, hfinish]

/-! ## With and without `uri_relaxed` -/

/-- Without a guarded byte the two machines do the same. -/
theorem scan_of_unguarded (data : List UInt8) (h : meetsGuarded buffer p cs P data = false) :
    scanCallbacks true buffer p cs P data = scanCallbacks false buffer p cs P data ∧
      Scanner.scan (machine true) (Action.run buffer) p cs P data =
        Scanner.scan (machine false) (Action.run buffer) p cs P data := by
  induction data generalizing p cs P with
  | nil => exact ⟨rfl, rfl⟩
  | cons c data ih =>
      rw [meetsGuarded, Bool.or_eq_false_iff] at h
      obtain ⟨hbyte, hrest⟩ := h
      have hnext := next_of_unguarded hbyte
      have hmachine : (machine true).next cs c = (machine false).next cs c := hnext
      rw [scanCallbacks, scanCallbacks, Scanner.scan, Scanner.scan, hnext, hmachine]
      cases hn : next false cs c with
      | none =>
          have hmachine : (machine false).next cs c = none := hn
          rw [hmachine]
          exact ⟨rfl, rfl⟩
      | some dest =>
          obtain ⟨acts, cs'⟩ := dest
          have hmachine : (machine false).next cs c = some (acts, cs') := hn
          rw [hn] at hrest
          rw [hmachine]
          dsimp only at hrest ⊢
          cases hr : Scanner.runActs (Action.run buffer) p acts P with
          | none => exact ⟨rfl, rfl⟩
          | some P₁ =>
              rw [hr] at hrest
              dsimp only [Option.bind_some] at hrest ⊢
              have hfinal : (machine true).final cs' = (machine false).final cs' := rfl
              rw [hfinal]
              cases hf : (machine false).final cs' with
              | true => exact ⟨rfl, rfl⟩
              | false =>
                  rw [hf, Bool.not_false, Bool.true_and] at hrest
                  obtain ⟨hcalls, hscan⟩ := ih hrest
                  simp only [Bool.false_eq_true, if_false, hcalls, hscan, and_self]

/-- At a guarded byte the machine without `uri_relaxed` stops, and the other does not. -/
theorem scan_of_guarded (data : List UInt8) (h : meetsGuarded buffer p cs P data = true) :
    ∃ R n, Scanner.scan (machine false) (Action.run buffer) p cs P data = some (R, n, .reject) ∧
      ∀ R' n' stop, Scanner.scan (machine true) (Action.run buffer) p cs P data =
        some (R', n', stop) → n < n' := by
  induction data generalizing p cs P with
  | nil => cases h
  | cons c data ih =>
      cases hbyte : isGuarded cs c with
      | true =>
          obtain ⟨hrefused, ⟨acts, cs'⟩, htaken⟩ := next_of_guarded hbyte
          have hfalse : (machine false).next cs c = none := hrefused
          have htrue : (machine true).next cs c = some (acts, cs') := htaken
          refine ⟨P, 0, by rw [Scanner.scan, hfalse], ?_⟩
          intro R' n' stop hscan
          rw [Scanner.scan, htrue] at hscan
          obtain ⟨P₁, _, hscan⟩ := Option.bind_eq_some_iff.mp hscan
          split at hscan
          · cases hscan
            exact Nat.one_pos
          · obtain ⟨⟨R, n, s⟩, _, heq⟩ := Option.map_eq_some_iff.mp hscan
            cases heq
            exact Nat.succ_pos n
      | false =>
          rw [meetsGuarded, hbyte, Bool.false_or] at h
          have hnext := next_of_unguarded hbyte
          cases hn : next false cs c with
          | none =>
              rw [hn] at h
              cases h
          | some dest =>
              obtain ⟨acts, cs'⟩ := dest
              rw [hn] at h hnext
              dsimp only at h
              cases hr : Scanner.runActs (Action.run buffer) p acts P with
              | none =>
                  rw [hr] at h
                  cases h
              | some P₁ =>
                  rw [hr] at h
                  dsimp only at h
                  rw [Bool.and_eq_true, Bool.not_eq_true'] at h
                  obtain ⟨hf, hrest⟩ := h
                  obtain ⟨R, n, hstrict, hrelaxed⟩ := ih hrest
                  have hfalse : (machine false).next cs c = some (acts, cs') := hn
                  have htrue : (machine true).next cs c = some (acts, cs') := hnext
                  have hf' : (machine true).final cs' = false := hf
                  refine ⟨R, n + 1, ?_, ?_⟩
                  · rw [Scanner.scan, hfalse]
                    dsimp only
                    rw [hr, Option.bind_some, hf, if_neg Bool.false_ne_true, hstrict]
                    rfl
                  · intro R' n' stop hscan
                    rw [Scanner.scan, htrue] at hscan
                    dsimp only at hscan
                    rw [hr, Option.bind_some, hf', if_neg Bool.false_ne_true] at hscan
                    obtain ⟨⟨R₁, n₁, s₁⟩, htail, heq⟩ := Option.map_eq_some_iff.mp hscan
                    cases heq
                    exact Nat.succ_lt_succ (hrelaxed _ _ _ htail)

end Query

/-! ## Two memories -/

section Memories

variable {P : HttpRequestParser}

theorem execute_of_unguarded {data : List UInt8}
    (h : meetsGuarded data 0 P.cs P.clear data = false) :
    P.execute true data = P.execute false data := by
  rw [HttpRequestParser.execute, HttpRequestParser.execute, HttpRequestParser.run,
    HttpRequestParser.run, (scan_of_unguarded data h).2]

/-- The bytes taken by a call that reaches a guarded byte. -/
theorem execute_of_guarded {data : List UInt8} (hlen : toInt data.length = data.length)
    (h : meetsGuarded data 0 P.cs P.clear data = true) :
    ∃ R n, P.execute false data = some (R, n) ∧
      ∀ R' n', P.execute true data = some (R', n') → n < n' := by
  have hdata : data ≠ [] := by
    rintro rfl
    cases h
  obtain ⟨R, n, hstrict, hrelaxed⟩ := scan_of_guarded data h
  rw [HttpRequestParser.execute, HttpRequestParser.execute, if_neg hdata, if_neg hdata,
    if_neg (not_not.mpr hlen), if_neg (not_not.mpr hlen), HttpRequestParser.run,
    HttpRequestParser.run, hstrict]
  refine ⟨_, n, rfl, ?_⟩
  intro R' n' hexec
  obtain ⟨⟨R₁, n₁, s₁⟩, hscan, heq⟩ := Option.map_eq_some_iff.mp hexec
  cases heq
  exact hrelaxed _ _ _ hscan

/-- The two machines show the same exactly if no guarded byte is reached. -/
theorem parse_relaxed_iff (input : List (List UInt8)) (P : HttpRequestParser) :
    parse true input P = parse false input P ↔ Unguarded input P := by
  induction input generalizing P with
  | nil => exact iff_of_true rfl trivial
  | cons data input ih =>
      rw [parse, parse, Unguarded]
      by_cases hlen : toInt data.length = data.length
      swap
      · -- the call aborts in both
        have habort : ∀ u, P.execute u data = none := fun u =>
          HttpRequestParser.execute_long (Nat.lt_of_not_le fun hle => hlen (toInt_ofNat hle))
        rw [if_pos (.inr hlen), if_pos (.inr hlen), habort, habort]
        exact iff_of_true rfl ⟨fun heq => absurd heq hlen, trivial⟩
      have hmachine : (toInt data.length = data.length →
          meetsGuarded data 0 P.cs P.clear data = false) ↔
            meetsGuarded data 0 P.cs P.clear data = false :=
        ⟨fun h => h hlen, fun h _ => h⟩
      rw [hmachine]
      cases hmeets : meetsGuarded data 0 P.cs P.clear data with
      | true =>
          refine iff_of_false ?_ (fun h => Bool.noConfusion h.1)
          obtain ⟨R, n, hstrict, hrelaxed⟩ := execute_of_guarded hlen hmeets
          rw [hstrict]
          cases hexec : P.execute true data with
          | none =>
              intro hsame
              have haccepted := congrArg (fun x => x.1.head?.bind Report.accepted) hsame
              cases haccepted
          | some dest =>
              obtain ⟨R', n'⟩ := dest
              intro hsame
              have haccepted := congrArg (fun x => x.1.head?.bind Report.accepted) hsame
              have hn : n' = n := (Prod.mk.inj (Option.some.inj haccepted)).1
              exact absurd (hrelaxed R' n' hexec) (by rw [hn]; exact lt_irrefl n)
      | false =>
          rw [execute_of_unguarded hmeets, (scan_of_unguarded data hmeets).1]
          cases P.execute false data with
          | none => exact iff_of_true rfl ⟨rfl, trivial⟩
          | some dest =>
              obtain ⟨P', n⟩ := dest
              dsimp only
              rw [← ih P']
              constructor
              · intro hsame
                obtain ⟨hreports, hrequest⟩ := Prod.mk.inj hsame
                exact ⟨rfl, Prod.ext (List.cons.inj hreports).2 hrequest⟩
              · rintro ⟨_, hsame⟩
                rw [hsame]

/-- The constructor leaves nothing of the memory but the two fields. -/
theorem alike_construct (memory : HttpParser) :
    Alike ({} : HttpRequestParser).cs {} (.construct memory) :=
  ⟨rfl, fun hin => Bool.noConfusion (hin : false = true)⟩

theorem parseIn_eq (memory : HttpParser) (input : List (List UInt8)) :
    parseIn memory input = parse memory.relaxed input {} :=
  (alike_construct memory).parse

/-- An input is parsed in the same way in every memory exactly if no call of `execute`
reaches a byte that the machine guards by `uri_relaxed`. -/
theorem parse_same_iff (input : List (List UInt8)) :
    (∀ memory memory' : HttpParser, parseIn memory input = parseIn memory' input) ↔
      Unguarded input {} := by
  constructor
  · intro h
    have hsame := h ⟨0, 0, 0, 0, 0, 0, 0, 0, 0, 0, 1⟩ ⟨0, 0, 0, 0, 0, 0, 0, 0, 0, 0, 0⟩
    rw [parseIn_eq, parseIn_eq] at hsame
    exact (parse_relaxed_iff input {}).mp hsame
  · intro h memory memory'
    have hsame := (parse_relaxed_iff input {}).mpr h
    have hstrict : ∀ m : HttpParser, parseIn m input = parse false input {} := by
      intro m
      rw [parseIn_eq]
      cases m.relaxed with
      | true => exact hsame
      | false => rfl
    rw [hstrict, hstrict]

end Memories

/-- A request that is accepted or refused by what the memory held. -/
theorem parse_brace :
    ∃ memory memory' : HttpParser,
      (parseIn memory [chars "GET /\x7b HTTP/1.1\r\n\r\n"]).1.map Report.accepted =
        [some (19, false, 1)] ∧
      (parseIn memory' [chars "GET /\x7b HTTP/1.1\r\n\r\n"]).1.map Report.accepted =
        [some (5, true, -1)] :=
  ⟨⟨0, 0, 0, 0, 0, 0, 0, 0, 0, 0, 1⟩, ⟨0, 0, 0, 0, 0, 0, 0, 0, 0, 0, 0⟩, by decide +kernel,
    by decide +kernel⟩

end CoLib.Http
