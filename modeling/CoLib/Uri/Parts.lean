/-
# `CoLib.Uri.Parts` — the parts of a text in the machine

A part of a text, such as a host, begins with a byte that sets `mark`, and its other bytes have
no actions; the byte behind it saves it.  An automaton with a state for the beginning of the
part (`part`) accepts such texts.  Where the texts of an expression lead, and which actions the
bytes behind them have, is computed over sets of states.

**Proved here.**  A text that the automaton accepts is scanned, and `mark` points to its
beginning (`Reaches.part`); and what the texts of a grammar lead to (`part_ends`,
`stepIf_ends`).
-/
import CoLib.Uri.Create
import CoLib.Uri.Grammar

namespace CoLib.Uri

open Lib.Grammar Lib.Scanner

variable {text pre w : List UInt8} {cs cs' start : Nat} {c : UInt8} {m m' : Memory}
  {a : Action} {as : List Action} {ok : List Action → Bool}

/-! ## Bytes whose actions are known -/

/-- `mark = fpc`. -/
def Action.sets : Action → Bool
  | .marku | .markh => true
  | _ => false

/-- The next state, if the actions are `ok`. -/
def stepIf (ok : List Action → Bool) (cs : Nat) (c : UInt8) : Option Nat :=
  (next cs c).bind fun t => if ok t.1 then some t.2 else none

/-- The ranges of a switch that have bytes of a set. -/
def met (n : Nat) (ranges : List Http.Range) : List Http.Range :=
  ranges.filter fun r => !r.guarded && interval r.lo r.hi &&& n != 0

/-- The next state behind a range, if its actions are `ok`. -/
def reached (ok : List Action → Bool) (r : Http.Range) : Option Nat :=
  (transition r.target).bind fun t => if ok t.1 then some t.2 else none

/-- The states behind the bytes of a set, if all of them are taken. -/
def image (ok : List Action → Bool) (n cs : Nat) : Option (List Nat) :=
  (row cs).bind fun ranges =>
    if within n ((met n ranges).foldr (fun r k => interval r.lo r.hi ||| k) 0) &&
        (met n ranges).all (fun r => (reached ok r).isSome) then
      some ((met n ranges).filterMap (reached ok))
    else none

theorem next_of_stepIf (h : stepIf ok cs c = some cs') :
    ∃ as, next cs c = some (as, cs') ∧ ok as = true := by
  obtain ⟨⟨as, cs₁⟩, hnext, h⟩ := Option.bind_eq_some_iff.mp h
  split at h
  · rename_i hok
    obtain rfl := Option.some.inj h
    exact ⟨as, hnext, hok⟩
  · cases h

theorem stepIf_of_next (h : next cs c = some (as, cs')) (hok : ok as = true) :
    stepIf ok cs c = some cs' := by
  rw [stepIf, h, Option.bind_some, if_pos hok]

theorem exists_of_has_foldr {ranges : List Http.Range}
    (h : has (ranges.foldr (fun r k => interval r.lo r.hi ||| k) 0) c = true) :
    ∃ r ∈ ranges, r.lo ≤ c.toNat ∧ c.toNat ≤ r.hi := by
  induction ranges with
  | nil =>
      rw [List.foldr_nil, has, Nat.zero_testBit] at h
      exact absurd h Bool.false_ne_true
  | cons r ranges ih =>
      rw [List.foldr_cons, has_or, Bool.or_eq_true] at h
      rcases h with h | h
      · exact ⟨r, List.mem_cons_self, has_interval.mp h⟩
      · obtain ⟨r', hr', hc⟩ := ih h
        exact ⟨r', List.mem_cons_of_mem _ hr', hc⟩

/-- The range of a byte of the set is met. -/
theorem mem_met {n : Nat} {r : Http.Range} {ranges : List Http.Range} (hr : r ∈ ranges)
    (hcovers : r.covers false c = true) (hc : has n c = true) : r ∈ met n ranges := by
  obtain ⟨hguarded, hlo, hhi⟩ := covers_iff.mp hcovers
  have hboth : has (interval r.lo r.hi &&& n) c = true := by
    rw [has, Nat.testBit_and, Bool.and_eq_true]
    exact ⟨has_interval.mpr ⟨hlo, hhi⟩, hc⟩
  have hne : interval r.lo r.hi &&& n ≠ 0 := by
    intro hzero
    rw [hzero, has, Nat.zero_testBit] at hboth
    exact Bool.false_ne_true hboth
  refine List.mem_filter.mpr ⟨hr, ?_⟩
  rw [hguarded, Bool.not_false, Bool.true_and]
  exact bne_iff_ne.mpr hne

theorem stepIf_of_image {n : Nat} {A : List Nat} (h : image ok n cs = some A)
    (hc : has n c = true) : ∃ cs' ∈ A, stepIf ok cs c = some cs' := by
  obtain ⟨ranges, hrow, h⟩ := Option.bind_eq_some_iff.mp h
  split at h
  · rename_i hall
    obtain rfl := Option.some.inj h
    obtain ⟨hwithin, hall⟩ := Bool.and_eq_true_iff.mp hall
    obtain ⟨r₀, hr₀, hlo, hhi⟩ := exists_of_has_foldr (has_of_within hwithin hc)
    obtain ⟨hr₀, hmet⟩ := List.mem_filter.mp hr₀
    have hguarded : r₀.guarded = false := by
      simpa only [Bool.not_eq_true'] using (Bool.and_eq_true_iff.mp hmet).1
    obtain ⟨r, hr⟩ := Option.isSome_iff_exists.mp
      (List.find?_isSome.mpr ⟨r₀, hr₀, covers_iff.mpr ⟨hguarded, hlo, hhi⟩⟩)
    have hmem := mem_met (List.mem_of_find?_eq_some hr) (List.find?_some hr) hc
    obtain ⟨cs', hcs'⟩ := Option.isSome_iff_exists.mp (List.all_eq_true.mp hall r hmem)
    refine ⟨cs', List.mem_filterMap.mpr ⟨r, hmem, hcs'⟩, ?_⟩
    rw [stepIf, next, hrow, Option.bind_some, hr, Option.bind_some]
    exact hcs'
  · cases h

/-! ## A part -/

/-- The bytes of a part: the first sets `mark` with `a`, the others have no actions. -/
def part (a : Action) (start : Nat) : Option Nat → UInt8 → Option (Option Nat)
  | none, c => (stepIf (· == [a]) start c).map some
  | some cs, c => (stepIf List.isEmpty cs c).map some

def partImage (a : Action) (start : Nat) (n : Nat) : Option Nat → Option (List (Option Nat))
  | none => (image (· == [a]) n start).map fun A => A.map some
  | some cs => (image List.isEmpty n cs).map fun A => A.map some

theorem part_of_partImage {n : Nat} {o : Option Nat} {A : List (Option Nat)}
    (h : partImage a start n o = some A) (hc : has n c = true) :
    ∃ o' ∈ A, part a start o c = some o' := by
  cases o with
  | none =>
      obtain ⟨A, hA, rfl⟩ := Option.map_eq_some_iff.mp h
      obtain ⟨cs', hcs', hstep⟩ := stepIf_of_image hA hc
      exact ⟨some cs', List.mem_map_of_mem hcs', by rw [part, hstep]; rfl⟩
  | some cs =>
      obtain ⟨A, hA, rfl⟩ := Option.map_eq_some_iff.mp h
      obtain ⟨cs', hcs', hstep⟩ := stepIf_of_image hA hc
      exact ⟨some cs', List.mem_map_of_mem hcs', by rw [part, hstep]; rfl⟩

/-- Behind its first byte a part has no actions. -/
theorem moves_part_some : moves (part a start) (some cs) w =
    (moves (stepIf List.isEmpty) cs w).map some := by
  induction w generalizing cs with
  | nil => rfl
  | cons c w ih =>
      rw [moves_cons, moves_cons, part]
      cases stepIf List.isEmpty cs c with
      | none => rfl
      | some cs₁ => exact ih

/-! ## Prefixes of a text -/

/-- The prefix `pre` of the text leads to the state and the memory. -/
def Reaches (text pre : List UInt8) (cs : Nat) (m : Memory) : Prop :=
  Scans machine (act text) 0 uriParserStart {} pre cs m

theorem Reaches.scans (h : Reaches text pre cs m)
    (hw : Scans machine (act text) pre.length cs m w cs' m') : Reaches text (pre ++ w) cs' m' :=
  Scans.append h (by rwa [Nat.zero_add])

/-- One byte more. -/
theorem Reaches.byte (h : Reaches text pre cs m) (hnext : next cs c = some (as, cs'))
    (hacts : runActs (act text) pre.length as m = some m') :
    Reaches text (pre ++ [c]) cs' m' :=
  h.scans (.cons hnext rfl hacts .nil)

theorem Reaches.quiet (h : Reaches text pre cs m)
    (hw : moves (stepIf List.isEmpty) cs w = some cs') : Reaches text (pre ++ w) cs' m := by
  induction w generalizing pre cs with
  | nil =>
      obtain rfl := Option.some.inj hw
      rwa [List.append_nil]
  | cons c w ih =>
      obtain ⟨cs₁, hstep, hw⟩ := Option.bind_eq_some_iff.mp hw
      obtain ⟨as, hnext, hempty⟩ := next_of_stepIf hstep
      obtain rfl := List.isEmpty_iff.mp hempty
      have hbyte := ih (h.byte hnext rfl) hw
      rwa [List.append_assoc] at hbyte

theorem act_sets (ha : a.sets = true) (p : Nat) :
    act text p a m = some { m with mark := some p } := by
  cases a with
  | marku | markh => rfl
  | _ => cases ha

theorem runActs_sets {p : Nat} (has : as.all Action.sets = true) :
    ∃ m', runActs (act text) p as m = some m' ∧ m'.uri = m.uri := by
  induction as generalizing m with
  | nil => exact ⟨m, rfl, rfl⟩
  | cons a as ih =>
      obtain ⟨ha, has⟩ := List.all_cons.symm.trans has |> Bool.and_eq_true_iff.mp
      obtain ⟨m', hm', huri⟩ := ih (m := { m with mark := some p }) has
      exact ⟨m', by rw [runActs, act_sets ha, Option.bind_some, hm'], huri⟩

/-- The bytes of a path that is not saved. -/
theorem Reaches.setting (h : Reaches text pre cs m)
    (hw : moves (stepIf fun as => as.all Action.sets) cs w = some cs') :
    ∃ m', Reaches text (pre ++ w) cs' m' ∧ m'.uri = m.uri := by
  induction w generalizing pre cs m with
  | nil =>
      obtain rfl := Option.some.inj hw
      exact ⟨m, by rwa [List.append_nil], rfl⟩
  | cons c w ih =>
      obtain ⟨cs₁, hstep, hw⟩ := Option.bind_eq_some_iff.mp hw
      obtain ⟨as, hnext, hsets⟩ := next_of_stepIf hstep
      obtain ⟨m₁, hacts, huri⟩ : ∃ m₁, runActs (act text) pre.length as m = some m₁ ∧
          m₁.uri = m.uri := runActs_sets hsets
      obtain ⟨m', hm', huri'⟩ := ih (h.byte hnext hacts) hw
      rw [List.append_assoc] at hm'
      exact ⟨m', hm', huri'.trans huri⟩

/-- The memory within a part that begins at `p`. -/
def marked (p : Nat) (m : Memory) : Option Nat → Memory
  | none => m
  | some _ => { m with mark := some p }

/-- A part of the text; it is empty if no byte has set `mark`. -/
theorem Reaches.part {o : Option Nat} (h : Reaches text pre start m) (ha : a.sets = true)
    (hw : moves (part a start) none w = some o) :
    Reaches text (pre ++ w) (o.getD start) (marked pre.length m o) ∧ (o = none → w = []) := by
  cases w with
  | nil =>
      obtain rfl := Option.some.inj hw
      exact ⟨by rwa [List.append_nil], fun _ => rfl⟩
  | cons c w =>
      obtain ⟨o₁, hpart, hw⟩ := Option.bind_eq_some_iff.mp hw
      obtain ⟨cs₁, hstep, rfl⟩ := Option.map_eq_some_iff.mp hpart
      obtain ⟨as, hnext, has⟩ := next_of_stepIf hstep
      obtain rfl := eq_of_beq has
      obtain ⟨cs', hquiet, rfl⟩ := Option.map_eq_some_iff.mp (moves_part_some.symm.trans hw)
      have hfirst := h.byte hnext (by rw [runActs, act_sets ha]; rfl)
      have hall := hfirst.quiet hquiet
      rw [List.append_assoc] at hall
      exact ⟨hall, fun hnone => by cases hnone⟩

/-! ## The states between the parts -/

/-- In front of an authority; `abs` behind a scheme, where the path is saved. -/
def authorityStart (abs : Bool) : Nat := if abs then 511 else 459

/-- Behind the `@` of an authority. -/
def hostStart (abs : Bool) : Nat := if abs then 522 else 469

/-- Behind a colon that may stand in the `userinfo`. -/
def colonStart (abs : Bool) : Nat := if abs then 521 else 468

/-- Behind a colon in front of the port. -/
def portStart (abs : Bool) : Nat := if abs then 514 else 461

/-- In front of a host; `user` behind a `userinfo`. -/
def hostFrom (abs user : Bool) : Nat := if user then hostStart abs else authorityStart abs

/-- Within a path behind an authority. -/
def pathStart (abs : Bool) : Nat := if abs then 513 else 455

/-- Behind the scheme, or at the beginning without one. -/
def partsStart (abs : Bool) : Nat := if abs then 509 else uriParserStart

def queryStart : Nat := 456
def fragmentStart : Nat := 453

/-- The byte leads to a state, with certain actions. -/
def goes (cs : Nat) (c : UInt8) (as : List Action) (cs' : Nat) : Bool :=
  decide (next cs c = some (as, cs'))

theorem next_of_goes (h : goes cs c as cs' = true) : next cs c = some (as, cs') :=
  of_decide_eq_true h

/-- The path may end: `?`, `#` and the end of the text have the same actions. -/
def leavesWith (as : List Action) (cs : Nat) : Bool :=
  goes cs 63 as queryStart && goes cs 35 as fragmentStart && decide (eof cs = as) &&
    decide (uriParserFirstFinal ≤ cs)

/-- The actions behind a part; an empty one is marked with them. -/
def entering (a : Action) (as : List Action) : Option Nat → List Action
  | none => a :: as
  | some _ => as

/-- The actions behind an authority whose last part is saved with `a`: a slash begins the path
that is saved, any other end saves it. -/
def saved (a : Action) (abs slash : Bool) : Option Nat → List Action
  | none => .markh :: a :: if abs && !slash then [.savePath] else []
  | some _ => a :: if abs then .markh :: (if slash then [] else [.savePath]) else []

/-- The authority may end. -/
def closes (a : Action) (abs : Bool) (start : Nat) (o : Option Nat) : Bool :=
  goes (o.getD start) 47 (saved a abs true o) (pathStart abs) &&
    leavesWith (saved a abs false o) (o.getD start)

/-- A host may end, or a colon follows. -/
def hostEnd (abs : Bool) (start : Nat) (o : Option Nat) : Bool :=
  closes .saveHost abs start o &&
    [colonStart abs, portStart abs].any (goes (o.getD start) 58 (entering .markh [.saveHost] o))

/-- A `userinfo` may end, or a colon follows. -/
def userinfoEnd (abs : Bool) (o : Option Nat) : Bool :=
  goes (o.getD (authorityStart abs)) 64 (entering .markh [.saveUserinfo] o) (hostStart abs) &&
    goes (o.getD (authorityStart abs)) 58 (entering .markh [.saveHost] o) (colonStart abs)

/-- A query or a fragment may end. -/
def tailEnd (a : Action) (start : Nat) (o : Option Nat) : Bool :=
  decide (eof (o.getD start) = entering .marku [a] o) &&
    decide (uriParserFirstFinal ≤ o.getD start)

/-! ## Where the parts lead -/

/-- A `userinfo` with no digit at its beginning. -/
def plainUserinfo : Expr Rule :=
  optional (.seq (.alt
    (.bytes (alpha ||| interval 45 46 ||| byte 95 ||| byte 126 ||| subDelims ||| colon))
    (.rule .pctEncoded)) (.rule .userinfo))

/-- A `userinfo` with a digit at its beginning. -/
def digitUserinfo : Expr Rule := .seq (.bytes digit) (.rule .userinfo)

/-- What comes behind the bracket of an `IP_literal`. -/
def literalRest : Expr Rule :=
  .seq (.alt (.rule .ipv6Address) (.rule .ipvFuture)) (.bytes (byte 93))

/-- The other hosts. -/
def otherHost : Expr Rule := .alt (.rule .ipv4Address) (.rule .regName)

/-- Behind the bracket. -/
def literalStart (abs : Bool) : Nat := if abs then 260 else 38

/-- What may come behind the first slash of a path. -/
def slashRest : Expr Rule := .seq segment (.star slashSegment)

/-- The paths without an authority. -/
def otherPath (abs : Bool) : Expr Rule :=
  alts [.rule .pathAbsolute, .rule (if abs then .pathRootless else .pathNoscheme),
    .rule .pathEmpty]

section Sweeps

variable {e : Expr Rule}

/-- The texts of the expression make parts with `P`. -/
def partLeads (a : Action) (start : Nat) (e : Expr Rule) (P : Option Nat → Bool) : Bool :=
  (sweep uriRl (partImage a start) 60 e [none]).any fun A => A.all P

/-- The texts of the expression lead to states with `P`, by actions that are `ok`. -/
def bytesLead (ok : List Action → Bool) (cs : Nat) (e : Expr Rule) (P : Nat → Bool) : Bool :=
  (sweep uriRl (image ok) 60 e [cs]).any fun A => A.all P

theorem part_ends {P : Option Nat → Bool} (h : partLeads a start e P = true)
    (hw : Derives uriRl e w) : ∃ o, moves (part a start) none w = some o ∧ P o = true := by
  have himage : ∀ n o A, partImage a start n o = some A → ∀ c, has n c = true →
      ∃ o' ∈ A, part a start o c = some o' := fun n o A hA c hc => part_of_partImage hA hc
  obtain ⟨A, hall, hleads⟩ := leads_of_sweep himage h
  obtain ⟨o, ho, hmoves⟩ := hleads w hw none List.mem_cons_self
  exact ⟨o, hmoves, hall o ho⟩

theorem stepIf_ends {P : Nat → Bool} (h : bytesLead ok cs e P = true)
    (hw : Derives uriRl e w) : ∃ cs', moves (stepIf ok) cs w = some cs' ∧ P cs' = true := by
  have himage : ∀ n cs A, image ok n cs = some A → ∀ c, has n c = true →
      ∃ cs' ∈ A, stepIf ok cs c = some cs' := fun n cs A hA c hc => stepIf_of_image hA hc
  obtain ⟨A, hall, hleads⟩ := leads_of_sweep himage h
  obtain ⟨cs', hcs', hmoves⟩ := hleads w hw cs List.mem_cons_self
  exact ⟨cs', hmoves, hall cs' hcs'⟩

/-- The scheme may end. -/
def schemeEnd (o : Option Nat) : Bool :=
  o.isSome && goes (o.getD uriParserStart) 58 [.saveScheme] (partsStart true)

/-- A query may end, or a fragment follows. -/
def queryEnd (o : Option Nat) : Bool :=
  tailEnd .saveQuery queryStart o &&
    goes (o.getD queryStart) 35 (entering .marku [.saveQuery] o) fragmentStart

/-- Where the parts lead, as computed over sets of states. -/
structure Sweeps (abs : Bool) : Prop where
  scheme : partLeads .marku uriParserStart (.rule .scheme) schemeEnd = true
  userinfo : partLeads .markh (authorityStart abs) (.rule .regName) (userinfoEnd abs) = true
  literal : bytesLead List.isEmpty (literalStart abs) literalRest
    (fun cs => hostEnd abs 0 (some cs)) = true
  host : ∀ user : Bool, partLeads .markh (hostFrom abs user) otherHost
    (hostEnd abs (hostFrom abs user)) = true
  port : ∀ only : Bool, partLeads .markh (if only then portStart abs else colonStart abs)
    (plus (.bytes digit)) (fun o => o.isSome && closes .savePort abs 0 o) = true
  plainUserinfo : bytesLead List.isEmpty (colonStart abs) plainUserinfo
    (fun cs => goes cs 64 [.saveUserinfo] (hostStart abs)) = true
  digitUserinfo : partLeads .markh (colonStart abs) digitUserinfo
    (fun o => o.isSome && goes (o.getD 0) 64 [.saveUserinfo] (hostStart abs)) = true
  slashPath : bytesLead List.isEmpty (pathStart abs) slashRest
    (leavesWith (if abs then [.savePath] else [])) = true
  otherPath : bytesLead (fun as => as.all Action.sets) (partsStart abs) (otherPath abs)
    (leavesWith []) = true
  query : partLeads .marku queryStart (.rule .query) queryEnd = true
  fragment : partLeads .marku fragmentStart (.rule .fragment) (tailEnd .saveFragment fragmentStart)
    = true

theorem sweeps : ∀ abs, Sweeps abs := by
  intro abs
  cases abs <;> constructor <;> decide +kernel

theorem scheme_ends (hw : Derives uriRl (.rule .scheme) w) :
    ∃ o, moves (part .marku uriParserStart) none w = some o ∧
      schemeEnd o = true :=
  part_ends (sweeps true).scheme hw

/-- The slashes in front of an authority. -/
theorem moves_slashes (abs : Bool) :
    moves (stepIf List.isEmpty) (partsStart abs) [47, 47] = some (authorityStart abs) := by
  cases abs <;> decide

theorem userinfo_ends (abs : Bool) (hw : Derives uriRl (.rule .regName) w) :
    ∃ o, moves (part .markh (authorityStart abs)) none w = some o ∧ userinfoEnd abs o = true :=
  part_ends (sweeps abs).userinfo hw

theorem literalRest_ends (abs : Bool) (hw : Derives uriRl literalRest w) :
    ∃ cs', moves (stepIf List.isEmpty) (literalStart abs) w = some cs' ∧
      hostEnd abs 0 (some cs') = true :=
  stepIf_ends (sweeps abs).literal hw

theorem otherHost_ends (abs user : Bool) (hw : Derives uriRl otherHost w) :
    ∃ o, moves (part .markh (hostFrom abs user)) none w = some o ∧
      hostEnd abs (hostFrom abs user) o = true :=
  part_ends ((sweeps abs).host user) hw

theorem host_ends (abs user : Bool) (hw : Derives uriRl (.rule .host) w) :
    ∃ o, moves (part .markh (hostFrom abs user)) none w = some o ∧
      hostEnd abs (hostFrom abs user) o = true := by
  have hfirst : goes (hostFrom abs user) 91 [.markh] (literalStart abs) = true := by
    cases abs <;> cases user <;> decide
  have hstep : stepIf (fun as => as == [.markh]) (hostFrom abs user) 91 =
      some (literalStart abs) := stepIf_of_next (next_of_goes hfirst) (beq_self_eq_true _)
  have hw : Derives uriRl (.alt (.rule .ipLiteral) otherHost) w := hw.of_rule
  cases hw with
  | right hw => exact otherHost_ends abs user hw
  | left hw =>
      have hw : Derives uriRl (.seq (.bytes (byte 91)) literalRest) w := hw.of_rule
      cases hw with
      | seq hbyte hrest =>
          obtain ⟨c, hc, rfl⟩ := hbyte.of_bytes
          obtain rfl : c = 91 := UInt8.toNat_inj.mp (has_byte.mp hc)
          obtain ⟨cs', hmoves, hend⟩ := literalRest_ends abs hrest
          refine ⟨some cs', ?_, hend⟩
          rw [List.singleton_append, moves_cons, part, hstep]
          exact moves_part_some.trans (by rw [hmoves]; rfl)

theorem port_ends (abs only : Bool) (hw : Derives uriRl (plus (.bytes digit)) w) :
    ∃ o, moves (part .markh (if only then portStart abs else colonStart abs)) none w = some o ∧
      (o.isSome && closes .savePort abs 0 o) = true :=
  part_ends ((sweeps abs).port only) hw

theorem plainUserinfo_ends (abs : Bool) (hw : Derives uriRl plainUserinfo w) :
    ∃ cs', moves (stepIf List.isEmpty) (colonStart abs) w = some cs' ∧
      goes cs' 64 [.saveUserinfo] (hostStart abs) = true :=
  stepIf_ends (sweeps abs).plainUserinfo hw

theorem digitUserinfo_ends (abs : Bool) (hw : Derives uriRl digitUserinfo w) :
    ∃ o, moves (part .markh (colonStart abs)) none w = some o ∧
      (o.isSome && goes (o.getD 0) 64 [.saveUserinfo] (hostStart abs)) = true :=
  part_ends (sweeps abs).digitUserinfo hw

theorem slashRest_ends (abs : Bool) (hw : Derives uriRl slashRest w) :
    ∃ cs', moves (stepIf List.isEmpty) (pathStart abs) w = some cs' ∧
      leavesWith (if abs then [.savePath] else []) cs' = true :=
  stepIf_ends (sweeps abs).slashPath hw

theorem otherPath_ends (abs : Bool) (hw : Derives uriRl (otherPath abs) w) :
    ∃ cs', moves (stepIf fun as => as.all Action.sets) (partsStart abs) w = some cs' ∧
      leavesWith [] cs' = true :=
  stepIf_ends (sweeps abs).otherPath hw

theorem query_ends (hw : Derives uriRl (.rule .query) w) :
    ∃ o, moves (part .marku queryStart) none w = some o ∧
      queryEnd o = true :=
  part_ends (sweeps true).query hw

theorem fragment_ends (hw : Derives uriRl (.rule .fragment) w) :
    ∃ o, moves (part .marku fragmentStart) none w = some o ∧
      tailEnd .saveFragment fragmentStart o = true :=
  part_ends (sweeps true).fragment hw

end Sweeps

end CoLib.Uri
