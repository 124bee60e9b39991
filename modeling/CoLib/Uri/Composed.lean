/-
# `CoLib.Uri.Composed` — the components of a composed text

A `Reference` has the components of a text of `uri.rl`, and `text` puts them together.  Two
things go wrong on the way back.  `save_path` stands behind the path of a scheme with an
authority only, so that any other path is lost.  And the `userinfo`, the host and the port
share one `mark`: a digit behind the first colon of the `userinfo` could begin a port, sets
`mark` again, and what is in front of it is lost.

**Proved here.**  What `create` returns for a composed text (`create_text`), and that these are
the components if and only if the path is empty or stands behind a scheme and an authority, and
the first colon of the `userinfo` has no digit behind it (`components_iff`).
-/
import CoLib.Uri.Parts

namespace CoLib.Uri

open Lib.Grammar Lib.Scanner

/-! ## Composed texts -/

structure Authority where
  userinfo : Option (List UInt8)
  host : List UInt8
  port : Option (List UInt8)

structure Reference where
  scheme : Option (List UInt8)
  authority : Option Authority
  path : List UInt8
  query : Option (List UInt8)
  fragment : Option (List UInt8)

/-- A component with a byte behind it, where it is there. -/
def withEnd (c : UInt8) (v : Option (List UInt8)) : List UInt8 :=
  (v.map fun v => v ++ [c]).getD []

/-- A component with a byte in front of it, where it is there. -/
def withStart (c : UInt8) (v : Option (List UInt8)) : List UInt8 :=
  (v.map fun v => c :: v).getD []

def Authority.text (a : Authority) : List UInt8 :=
  withEnd 64 a.userinfo ++ a.host ++ withStart 58 a.port

def Reference.text (r : Reference) : List UInt8 :=
  withEnd 58 r.scheme ++ (r.authority.map fun a => 47 :: 47 :: a.text).getD [] ++ r.path ++
    withStart 63 r.query ++ withStart 35 r.fragment

/-- The value of a port. -/
def portValue (v : Option (List UInt8)) : Nat :=
  (v.bind Http.numeral).getD 0

/-- The parts of an authority are those of `uri.rl`, the port is a number from 1 to 65535. -/
structure Authority.Composed (a : Authority) : Prop where
  userinfo : ∀ u ∈ a.userinfo, Derives uriRl (.rule .userinfo) u
  host : Derives uriRl (.rule .host) a.host
  port : ∀ v ∈ a.port, ∃ n, Http.numeral v = some n ∧ 1 ≤ n ∧ n ≤ 65535

/-- The components are those of `uri.rl`. -/
structure Reference.Composed (r : Reference) : Prop where
  scheme : ∀ s ∈ r.scheme, Derives uriRl (.rule .scheme) s
  authority : ∀ a ∈ r.authority, a.Composed
  pathAbempty : r.authority.isSome → Derives uriRl (.rule .pathAbempty) r.path
  path : r.authority = none → Derives uriRl (otherPath r.scheme.isSome) r.path
  query : ∀ v ∈ r.query, Derives uriRl (.rule .query) v
  fragment : ∀ v ∈ r.fragment, Derives uriRl (.rule .fragment) v

/-- The components as the fields of a `Uri`. -/
def Reference.components (r : Reference) : Uri where
  scheme := r.scheme.getD []
  userinfo := (r.authority.bind Authority.userinfo).getD []
  host := (r.authority.map Authority.host).getD []
  path := r.path
  query := r.query.getD []
  fragment := r.fragment.getD []
  port := portValue (r.authority.bind Authority.port)

/-! ## What is saved -/

/-- What stands behind the first colon. -/
def colonRest (u : List UInt8) : List UInt8 :=
  (u.dropWhile fun c => c != 58).drop 1

/-- A digit stands behind the first colon. -/
def digitBehindColon (u : List UInt8) : Bool :=
  (colonRest u).head?.any Http.isDigit

def savedUserinfo (u : List UInt8) : List UInt8 :=
  if digitBehindColon u then colonRest u else u

/-- The fields that `create` fills. -/
def Reference.saved (r : Reference) : Uri :=
  { r.components with
    userinfo := savedUserinfo (r.authority.bind Authority.userinfo |>.getD [])
    path := if r.scheme.isSome && r.authority.isSome then r.path else [] }

/-! ## Saving a part -/

variable {text pre w rest : List UInt8} {cs cs' start p : Nat} {m m' m₁ : Memory} {uri : Uri}
  {a : Action} {as : List Action} {abs : Bool} {o : Option Nat}

theorem piece_of_prefix (h : pre ++ w <+: text) :
    piece text pre.length (pre ++ w).length = w := by
  obtain ⟨rest, rfl⟩ := h
  rw [piece, List.append_assoc, List.drop_left, List.length_append, Nat.add_sub_cancel_left,
    List.take_left]

/-- Behind a part `mark` points to its beginning, also behind an empty one. -/
theorem runActs_entering (ha : a.sets = true) (ho : o = none → w = []) :
    runActs (act text) (pre ++ w).length (entering a as o) (marked pre.length m o) =
      runActs (act text) (pre ++ w).length as { m with mark := some pre.length } := by
  cases o with
  | none =>
      obtain rfl := ho rfl
      rw [entering, marked, runActs, act_sets ha, Option.bind_some, List.append_nil]
  | some cs => rfl

theorem runActs_one : runActs (act text) p [a] m = act text p a m := by
  rw [runActs]
  cases act text p a m <;> rfl

/-- The field that an action saves, for the actions that do nothing else. -/
def setter : Action → Option (List UInt8 → Uri → Uri)
  | .saveScheme => some fun v uri => { uri with scheme := v }
  | .saveUserinfo => some fun v uri => { uri with userinfo := v }
  | .savePath => some fun v uri => { uri with path := v }
  | .saveQuery => some fun v uri => { uri with query := v }
  | .saveFragment => some fun v uri => { uri with fragment := v }
  | .marku | .markh | .savePort | .saveHost => none

/-- The part behind `mark` is saved. -/
theorem runActs_save {set : List UInt8 → Uri → Uri} (hset : setter a = some set)
    (h : pre ++ w <+: text) :
    runActs (act text) (pre ++ w).length [a] { m with mark := some pre.length } =
      some ⟨set w m.uri, none⟩ := by
  have hact : act text (pre ++ w).length a { m with mark := some pre.length } =
      save text (pre ++ w).length set { m with mark := some pre.length } := by
    cases a with
    | marku | markh | savePort | saveHost => cases hset
    | saveScheme | saveUserinfo | savePath | saveQuery | saveFragment =>
        obtain rfl := Option.some.inj hset
        rfl
  rw [runActs_one, hact, save, Option.map_some, piece_of_prefix h]

/-- An empty path is saved. -/
theorem act_savePath_empty (hmark : m.mark = some p) (hpath : m.uri.path = []) :
    act text p .savePath m = some ⟨m.uri, none⟩ := by
  obtain ⟨⟨scheme, userinfo, host, path, query, fragment, port⟩, mark⟩ := m
  obtain rfl : mark = some p := hmark
  obtain rfl : path = [] := hpath
  have hpiece : piece text p p = [] := by rw [piece, Nat.sub_self, List.take_zero]
  show some (Memory.mk ⟨scheme, userinfo, host, piece text p p, query, fragment, port⟩ none) = _
  rw [hpiece]

/-! ## The end of an authority -/

/-- The path may end here, and the `Uri` is `uri` then. -/
def Ends (text pre : List UInt8) (cs : Nat) (m : Memory) (uri : Uri) : Prop :=
  ∃ as m', leavesWith as cs = true ∧ runActs (act text) pre.length as m = some m' ∧ m'.uri = uri

theorem ends_of_leavesWith (h : leavesWith [] cs = true) (huri : m.uri = uri) :
    Ends text pre cs m uri :=
  ⟨[], m, h, rfl, huri⟩

/-- The authority may end here, and the `Uri` is `uri` then; a slash begins the path. -/
structure AuthorityEnd (text pre : List UInt8) (abs : Bool) (cs : Nat) (m : Memory) (uri : Uri) :
    Prop where
  slash : ∃ as m', next cs 47 = some (as, pathStart abs) ∧
    runActs (act text) pre.length as m = some m' ∧ m'.uri = uri ∧
      (abs = true → m'.mark = some pre.length)
  ends : Ends text pre cs m uri

section Closes

variable (hact : act text pre.length a { m with mark := some p } = some m₁)
  (ho : o = none → p = pre.length ∧ m₁.mark = some pre.length) (hpath : m₁.uri.path = [])

include hact ho hpath in
theorem runActs_saved (abs slash : Bool) :
    ∃ m', runActs (act text) pre.length (saved a abs slash o) (marked p m o) = some m' ∧
      m'.uri = m₁.uri ∧ (slash = true → abs = true → m'.mark = some pre.length) := by
  cases o with
  | none =>
      obtain ⟨rfl, hmark⟩ := ho rfl
      have hfirst : ∀ as, runActs (act text) pre.length (.markh :: a :: as) m =
          runActs (act text) pre.length as m₁ := by
        intro as
        rw [runActs, act_sets rfl, Option.bind_some, runActs, hact, Option.bind_some]
      rw [saved, marked, hfirst]
      split
      · rename_i h
        refine ⟨⟨m₁.uri, none⟩, ?_, rfl, fun hslash => ?_⟩
        · rw [runActs, act_savePath_empty hmark hpath]
          rfl
        · rw [hslash] at h
          exact absurd h (by simp)
      · exact ⟨m₁, rfl, rfl, fun _ _ => hmark⟩
  | some cs =>
      have hfirst : ∀ as, runActs (act text) pre.length (a :: as) { m with mark := some p } =
          runActs (act text) pre.length as m₁ := by
        intro as
        rw [runActs, hact, Option.bind_some]
      rw [saved, marked, hfirst]
      cases abs with
      | false => exact ⟨m₁, rfl, rfl, fun _ h => Bool.noConfusion h⟩
      | true =>
          cases slash with
          | true => exact ⟨{ m₁ with mark := some pre.length }, rfl, rfl, fun _ _ => rfl⟩
          | false =>
              refine ⟨⟨m₁.uri, none⟩, ?_, rfl, fun h => Bool.noConfusion h⟩
              exact act_savePath_empty (m := { m₁ with mark := some pre.length }) rfl hpath

include hact ho hpath in
theorem authorityEnd_of_closes (h : closes a abs start o = true) :
    AuthorityEnd text pre abs (o.getD start) (marked p m o) m₁.uri := by
  obtain ⟨hslash, hends⟩ := Bool.and_eq_true_iff.mp h
  obtain ⟨m', hm', huri, hmark⟩ := runActs_saved hact ho hpath abs true
  obtain ⟨m'', hm'', huri', -⟩ := runActs_saved hact ho hpath abs false
  exact ⟨⟨_, m', next_of_goes hslash, hm', huri, hmark rfl⟩, _, m'', hends, hm'', huri'⟩

end Closes

/-! ## The host and the port -/

theorem has_digit {c : UInt8} : has digit c = true ↔ Http.isDigit c = true := by
  rw [digit, has_interval, Http.isDigit, Bool.and_eq_true, decide_eq_true_eq, decide_eq_true_eq,
    UInt8.le_iff_toNat_le, UInt8.le_iff_toNat_le]
  rfl

theorem derives_port {v : List UInt8} {n : Nat} (hv : Http.numeral v = some n) :
    Derives uriRl (plus (.bytes digit)) v := by
  obtain ⟨hne, hdigits, -⟩ := Http.numeral_eq_some_iff.mp hv
  have hstar : ∀ v : List UInt8, (∀ c ∈ v, Http.isDigit c = true) →
      Derives uriRl (.star (.bytes digit)) v := by
    intro v hv
    induction v with
    | nil => exact .stop
    | cons c v ih =>
        exact .more (u := [c]) (.bytes (has_digit.mpr (hv c List.mem_cons_self)))
          (ih fun c hc => hv c (List.mem_cons_of_mem _ hc))
  obtain ⟨c, v, rfl⟩ := List.exists_cons_of_ne_nil hne
  exact .seq (u := [c]) (.bytes (has_digit.mpr (hdigits c List.mem_cons_self)))
    (hstar v fun c hc => hdigits c (List.mem_cons_of_mem _ hc))

/-- The number behind `mark`, which another byte than a digit ends. -/
theorem act_savePort {v : List UInt8} {n : Nat} (htext : text = pre ++ v ++ rest)
    (hv : Http.numeral v = some n) (hn : n ≤ 65535)
    (hrest : ∀ c, rest.head? = some c → 10 ≤ Http.digitValue c) :
    act text (pre ++ v).length .savePort { m with mark := some pre.length } =
      some ⟨{ m.uri with port := n }, none⟩ := by
  obtain ⟨hne, -, -⟩ := Http.numeral_eq_some_iff.mp hv
  have hlen : pre.length ≠ (pre ++ v).length := by
    have := List.length_pos_iff.mpr hne
    rw [List.length_append]
    omega
  have hdrop : text.drop pre.length = v ++ rest := by
    rw [htext, List.append_assoc, List.drop_left]
  have hatoi : Http.atoi (text.drop pre.length) = n := by
    rw [hdrop, Http.atoi, Http.strtol_numeral hv hrest (by omega)]
    exact Lib.narrow_of_lt (by omega) (by omega)
  rw [act, if_neg (by simpa using hlen)]
  show some (Memory.mk { m.uri with port := Http.atoi (text.drop pre.length) } none) = _
  rw [hatoi]

/-- A host and a port, up to the end of the authority. -/
theorem Reaches.host {port : Option (List UInt8)} (abs user : Bool)
    (h : Reaches text pre (hostFrom abs user) m) (hw : Derives uriRl (.rule .host) w)
    (hport : ∀ v ∈ port, ∃ n, Http.numeral v = some n ∧ 1 ≤ n ∧ n ≤ 65535)
    (htext : text = pre ++ (w ++ withStart 58 port) ++ rest)
    (hrest : ∀ c, rest.head? = some c → 10 ≤ Http.digitValue c)
    (hpath : m.uri.path = []) (hzero : m.uri.port = 0) :
    ∃ cs m', Reaches text (pre ++ (w ++ withStart 58 port)) cs m' ∧
      AuthorityEnd text (pre ++ (w ++ withStart 58 port)) abs cs m'
        { m.uri with host := w, port := portValue port } := by
  obtain ⟨o, hmoves, hend⟩ := host_ends abs user hw
  obtain ⟨hreaches, ho⟩ := h.part rfl hmoves
  obtain ⟨hcloses, hcolon⟩ := Bool.and_eq_true_iff.mp hend
  have hpiece : piece text pre.length (pre ++ w).length = w :=
    piece_of_prefix ⟨withStart 58 port ++ rest, by rw [htext]; simp⟩
  have hact : act text (pre ++ w).length .saveHost { m with mark := some pre.length } =
      some ⟨{ m.uri with host := w }, some pre.length⟩ := by
    show some (Memory.mk { m.uri with host := piece text pre.length (pre ++ w).length } _) = _
    rw [hpiece]
  have hempty : o = none → pre.length = (pre ++ w).length ∧
      some pre.length = some (pre ++ w).length := by
    intro hnone
    rw [ho hnone, List.append_nil]
    exact ⟨rfl, rfl⟩
  cases port with
  | none =>
      have hzero : ({ m.uri with host := w, port := portValue none } : Uri) =
          { m.uri with host := w } := by
        show Uri.mk _ _ _ _ _ _ 0 = Uri.mk _ _ _ _ _ _ m.uri.port
        rw [hzero]
      have happend : pre ++ (w ++ withStart 58 none) = pre ++ w := by
        rw [withStart, Option.map_none, Option.getD_none, List.append_nil]
      rw [hzero, happend]
      exact ⟨_, _, hreaches, authorityEnd_of_closes hact hempty hpath hcloses⟩
  | some v =>
      obtain ⟨n, hn, -, hmax⟩ := hport v rfl
      have happend : pre ++ (w ++ withStart 58 (some v)) = pre ++ w ++ [58] ++ v := by
        simp [withStart]
      rw [happend] at htext ⊢
      obtain ⟨cs₁, hcs₁, hgoes⟩ := List.any_eq_true.mp hcolon
      have hfrom : ∃ only : Bool, cs₁ = if only then portStart abs else colonStart abs := by
        rcases List.mem_cons.mp hcs₁ with rfl | hcs₁
        · exact ⟨false, rfl⟩
        · exact ⟨true, List.mem_singleton.mp hcs₁⟩
      obtain ⟨only, rfl⟩ := hfrom
      have hbyte := hreaches.byte (next_of_goes hgoes) ((runActs_entering rfl ho).trans
        (by rw [runActs, hact, Option.bind_some, runActs]))
      obtain ⟨o', hmoves', hend'⟩ := port_ends abs only (derives_port hn)
      obtain ⟨hsome, hcloses'⟩ := Bool.and_eq_true_iff.mp hend'
      obtain ⟨cs', rfl⟩ := Option.isSome_iff_exists.mp hsome
      have hvalue : portValue (some v) = n := by
        rw [portValue, Option.bind_some, hn, Option.getD_some]
      rw [hvalue]
      exact ⟨_, _, (hbyte.part rfl hmoves').1, authorityEnd_of_closes (o := some cs')
        (act_savePort htext hn hmax hrest) (fun hnone => by cases hnone) hpath hcloses'⟩

/-! ## The `userinfo` -/

theorem colonRest_of_not_mem {u : List UInt8} (h : 58 ∉ u) : colonRest u = [] := by
  have hdrop : u.dropWhile (fun c => c != 58) = [] := by
    rw [List.dropWhile_eq_nil_iff]
    intro c hc
    exact bne_iff_ne.mpr fun heq => h (heq ▸ hc)
  rw [colonRest, hdrop]
  rfl

theorem colonRest_append {u v : List UInt8} (h : 58 ∉ u) : colonRest (u ++ 58 :: v) = v := by
  have hdrop : (u ++ 58 :: v).dropWhile (fun c => c != 58) = 58 :: v := by
    have hall : ∀ c ∈ u, (c != 58) = true := fun c hc =>
      bne_iff_ne.mpr fun heq => h (heq ▸ hc)
    rw [List.dropWhile_append_of_pos hall]
    rfl
  rw [colonRest, hdrop]
  rfl

/-- A byte or an encoded byte of a `userinfo`: a colon, or a byte that a host may have. -/
theorem userinfo_item {u : List UInt8}
    (h : Derives uriRl (.alt (.bytes (unreserved ||| subDelims ||| colon)) (.rule .pctEncoded)) u) :
    u = [58] ∨ 58 ∉ u ∧
      Derives uriRl (.alt (.bytes (unreserved ||| subDelims)) (.rule .pctEncoded)) u := by
  cases h with
  | left h =>
      obtain ⟨c, hc, rfl⟩ := h.of_bytes
      rw [has_or, Bool.or_eq_true] at hc
      rcases hc with hc | hc
      · refine .inr ⟨fun hmem => ?_, .left (.bytes hc)⟩
        rw [← List.mem_singleton.mp hmem] at hc
        exact absurd hc (by decide)
      · exact .inl (by rw [UInt8.toNat_inj.mp (has_byte.mp hc : c.toNat = (58 : UInt8).toNat)])
  | right h =>
      refine .inr ⟨fun hmem => ?_, .right h⟩
      have hpct : Derives uriRl (.seq (.bytes (byte 37)) (.seq (.bytes xdigit) (.bytes xdigit)))
          u := h.of_rule
      cases hpct with
      | seq hfirst hpair =>
          cases hpair with
          | seq hsecond hthird =>
              obtain ⟨c, hc, rfl⟩ := hfirst.of_bytes
              obtain ⟨x, hx, rfl⟩ := hsecond.of_bytes
              obtain ⟨y, hy, rfl⟩ := hthird.of_bytes
              rcases List.mem_cons.mp hmem with rfl | hmem
              · exact absurd hc (by decide)
              · rcases List.mem_cons.mp hmem with rfl | hmem
                · exact absurd hx (by decide)
                · obtain rfl := List.mem_singleton.mp hmem
                  exact absurd hy (by decide)

/-- A `userinfo` is split at its first colon. -/
theorem userinfo_split {u : List UInt8} (h : Derives uriRl (.rule .userinfo) u) :
    58 ∉ u ∧ Derives uriRl (.rule .regName) u ∨
      ∃ u₀ u₁, u = u₀ ++ 58 :: u₁ ∧ 58 ∉ u₀ ∧ Derives uriRl (.rule .regName) u₀ ∧
        Derives uriRl (.rule .userinfo) u₁ := by
  refine Derives.star_induction (P := fun u => 58 ∉ u ∧ Derives uriRl (.rule .regName) u ∨
      ∃ u₀ u₁, u = u₀ ++ 58 :: u₁ ∧ 58 ∉ u₀ ∧ Derives uriRl (.rule .regName) u₀ ∧
        Derives uriRl (.rule .userinfo) u₁) ?_ ?_ h.of_rule
  · exact .inl ⟨List.not_mem_nil, .rule .stop⟩
  · intro v u hv hu ih
    rcases userinfo_item hv with rfl | ⟨hcolon, hitem⟩
    · exact .inr ⟨[], u, rfl, List.not_mem_nil, .rule .stop, .rule hu⟩
    · rcases ih with ⟨hmem, hreg⟩ | ⟨u₀, u₁, rfl, hmem, hreg, huser⟩
      · refine .inl ⟨fun h => ?_, .rule (.more hitem hreg.of_rule)⟩
        rcases List.mem_append.mp h with h | h
        · exact hcolon h
        · exact hmem h
      · refine .inr ⟨v ++ u₀, u₁, (List.append_assoc ..).symm, fun h => ?_,
          .rule (.more hitem hreg.of_rule), huser⟩
        rcases List.mem_append.mp h with h | h
        · exact hcolon h
        · exact hmem h

/-- What a `userinfo` begins with. -/
theorem userinfo_head {u : List UInt8} (h : Derives uriRl (.rule .userinfo) u) :
    u.head?.any Http.isDigit = true ∧ Derives uriRl digitUserinfo u ∨
      u.head?.any Http.isDigit = false ∧ Derives uriRl plainUserinfo u := by
  have hplain : ∀ {w e}, Derives uriRl e w → Derives uriRl (optional e) w := by
    intro w e hw
    have hmore : Derives uriRl (.upTo (0 + 1) e) (w ++ []) := .oneMore hw .none
    rwa [List.append_nil] at hmore
  rcases h.of_rule.star_cases with rfl | ⟨v, u, rfl, hv, hu⟩
  · exact .inr ⟨rfl, .none⟩
  · cases hv with
    | left hv =>
        obtain ⟨c, hc, rfl⟩ := hv.of_bytes
        cases hdigit : Http.isDigit c with
        | true => exact .inl ⟨hdigit, .seq (.bytes (has_digit.mpr hdigit)) (.rule hu)⟩
        | false =>
            refine .inr ⟨hdigit, hplain (.seq (.left (.bytes ?_)) (.rule hu))⟩
            have hno : has digit c = false := by
              rw [← Bool.not_eq_true, has_digit, hdigit]
              exact Bool.false_ne_true
            simp only [unreserved, has_or, hno, Bool.or_false] at hc ⊢
            exact hc
    | right hv =>
        refine .inr ⟨?_, hplain (.seq (.right hv) (.rule hu))⟩
        obtain hv : Derives uriRl (.seq _ _) v := hv.of_rule
        cases hv with
        | seq ha hb =>
            obtain ⟨c, hc, rfl⟩ := ha.of_bytes
            obtain rfl : c = 37 := UInt8.toNat_inj.mp (has_byte.mp hc)
            rfl

/-- A `userinfo` in front of `@`; in the host there may be what stands in front of a colon. -/
theorem Reaches.userinfo {u : List UInt8} (h : Reaches text pre (authorityStart abs) m)
    (hu : Derives uriRl (.rule .userinfo) u) (hsub : pre ++ u <+: text) :
    ∃ m', Reaches text (pre ++ u ++ [64]) (hostStart abs) m' ∧
      ∃ v, m'.uri = { m.uri with userinfo := savedUserinfo u, host := v } := by
  rcases userinfo_split hu with ⟨hmem, hreg⟩ | ⟨u₀, u₁, rfl, hmem, hreg, hu₁⟩
  · obtain ⟨o, hmoves, hend⟩ := userinfo_ends abs hreg
    obtain ⟨hreaches, ho⟩ := h.part rfl hmoves
    have hat := hreaches.byte (next_of_goes (Bool.and_eq_true_iff.mp hend).1)
      ((runActs_entering rfl ho).trans (runActs_save rfl hsub))
    have hsaved : savedUserinfo u = u := by
      rw [savedUserinfo, digitBehindColon, colonRest_of_not_mem hmem]
      rfl
    exact ⟨_, hat, m.uri.host, by rw [hsaved]⟩
  · obtain ⟨o, hmoves, hend⟩ := userinfo_ends abs hreg
    obtain ⟨hreaches, ho⟩ := h.part rfl hmoves
    obtain ⟨v, hcolon⟩ : ∃ v, Reaches text (pre ++ u₀ ++ [58]) (colonStart abs)
        ⟨{ m.uri with host := v }, some pre.length⟩ :=
      ⟨_, hreaches.byte (next_of_goes (Bool.and_eq_true_iff.mp hend).2)
        ((runActs_entering rfl ho).trans rfl)⟩
    have happend : ∀ v, pre ++ (u₀ ++ 58 :: v) = pre ++ u₀ ++ [58] ++ v := fun v => by simp
    have hrest := colonRest_append (v := u₁) hmem
    rcases userinfo_head hu₁ with ⟨hdigit, hu₁⟩ | ⟨hplain, hu₁⟩
    · obtain ⟨o', hmoves', hend'⟩ := digitUserinfo_ends abs hu₁
      obtain ⟨hsome, hgoes⟩ := Bool.and_eq_true_iff.mp hend'
      obtain ⟨cs', rfl⟩ := Option.isSome_iff_exists.mp hsome
      rw [happend] at hsub ⊢
      have hat := (hcolon.part rfl hmoves').1.byte (next_of_goes hgoes)
        (runActs_save rfl hsub)
      refine ⟨_, hat, v, ?_⟩
      rw [savedUserinfo, digitBehindColon, hrest, if_pos hdigit]
    · obtain ⟨cs', hmoves', hgoes⟩ := plainUserinfo_ends abs hu₁
      have hquiet := hcolon.quiet hmoves'
      rw [← happend] at hquiet
      have hat := hquiet.byte (next_of_goes hgoes)
        (runActs_save (m := ⟨{ m.uri with host := v }, none⟩) rfl hsub)
      refine ⟨_, hat, v, ?_⟩
      rw [savedUserinfo, digitBehindColon, hrest, hplain, if_neg Bool.false_ne_true]

/-! ## The authority and the path -/

theorem Reaches.authority {r : Authority} {scheme : List UInt8}
    (h : Reaches text pre (authorityStart abs) m) (hr : r.Composed)
    (htext : text = pre ++ r.text ++ rest)
    (hrest : ∀ c, rest.head? = some c → 10 ≤ Http.digitValue c) (huri : m.uri = { scheme }) :
    ∃ cs m', Reaches text (pre ++ r.text) cs m' ∧ AuthorityEnd text (pre ++ r.text) abs cs m'
      { scheme, userinfo := savedUserinfo (r.userinfo.getD []), host := r.host,
        port := portValue r.port } := by
  obtain ⟨userinfo, host, port⟩ := r
  cases userinfo with
  | none =>
      have hhost := h.host abs false hr.host hr.port htext hrest (by rw [huri]) (by rw [huri])
      rwa [huri] at hhost
  | some u =>
      have happend : pre ++ Authority.text ⟨some u, host, port⟩ =
          pre ++ u ++ [64] ++ (host ++ withStart 58 port) := by
        simp [Authority.text, withEnd]
      rw [happend] at htext ⊢
      have hsub : pre ++ u <+: text :=
        ⟨[64] ++ (host ++ withStart 58 port) ++ rest, by rw [htext]; simp⟩
      obtain ⟨m', hat, v, huri'⟩ := h.userinfo (hr.userinfo u rfl) hsub
      have hhost := hat.host abs true hr.host hr.port htext hrest (by rw [huri', huri])
        (by rw [huri', huri])
      rwa [huri', huri] at hhost

/-- A path behind an authority is empty or begins with a slash. -/
theorem pathAbempty_cases (h : Derives uriRl (.rule .pathAbempty) w) :
    w = [] ∨ ∃ v, w = 47 :: v ∧ Derives uriRl slashRest v := by
  have hslash : ∀ {u v}, Derives uriRl slashSegment u → Derives uriRl (.star slashSegment) v →
      ∃ v', u ++ v = 47 :: v' ∧ Derives uriRl slashRest v' := by
    intro u v hu hv
    cases hu with
    | seq hfirst hsegment =>
        obtain ⟨c, hc, rfl⟩ := hfirst.of_bytes
        obtain rfl : c = 47 := UInt8.toNat_inj.mp (has_byte.mp hc)
        exact ⟨_, rfl, .seq hsegment hv⟩
  obtain h : Derives uriRl (.seq (optional slashSegment) (.star slashSegment)) w := h.of_rule
  cases h with
  | seq hfirst hstar =>
      cases hfirst with
      | none =>
          rw [List.nil_append]
          rcases hstar.star_cases with rfl | ⟨u, v, rfl, hu, hv⟩
          · exact .inl rfl
          · exact .inr (hslash hu hv)
      | oneMore hu hnone =>
          cases hnone
          obtain ⟨v', heq, hv'⟩ := hslash hu hstar
          exact .inr ⟨v', by rw [List.append_nil, heq], hv'⟩

/-- The path behind an authority, which is saved behind a scheme only. -/
theorem AuthorityEnd.path (hend : AuthorityEnd text pre abs cs m uri)
    (h : Reaches text pre cs m) (hw : Derives uriRl (.rule .pathAbempty) w)
    (hsub : pre ++ w <+: text) (hpath : uri.path = []) :
    ∃ cs' m', Reaches text (pre ++ w) cs' m' ∧
      Ends text (pre ++ w) cs' m' { uri with path := if abs then w else [] } := by
  have hnone : ({ uri with path := [] } : Uri) = uri := by rw [← hpath]
  rcases pathAbempty_cases hw with rfl | ⟨v, rfl, hv⟩
  · rw [ite_self, hnone, List.append_nil]
    exact ⟨cs, m, h, hend.ends⟩
  · obtain ⟨as, m₁, hnext, hacts, rfl, hmark⟩ := hend.slash
    obtain ⟨cs', hmoves, hleaves⟩ := slashRest_ends abs hv
    have hreaches := (h.byte hnext hacts).quiet hmoves
    rw [List.append_assoc, List.singleton_append] at hreaches
    cases abs with
    | false => exact ⟨cs', m₁, hreaches, [], m₁, hleaves, rfl, hnone.symm⟩
    | true =>
        obtain ⟨uri, mark⟩ := m₁
        obtain rfl := hmark rfl
        exact ⟨cs', _, hreaches, [.savePath], ⟨{ uri with path := 47 :: v }, none⟩, hleaves,
          runActs_save (a := .savePath) (m := ⟨uri, none⟩) rfl hsub, rfl⟩

/-! ## The query and the fragment -/

/-- A text that ends behind its query or its fragment. -/
theorem create_of_tailEnd {set : List UInt8 → Uri → Uri}
    (h : Reaches text (pre ++ w) (o.getD start) (marked pre.length m o))
    (ho : o = none → w = []) (hend : tailEnd a start o = true) (hset : setter a = some set)
    (htext : text = pre ++ w) : create text = some (some (set w m.uri)) := by
  subst htext
  obtain ⟨heof, hfinal⟩ := Bool.and_eq_true_iff.mp hend
  have hacts : runActs (act (pre ++ w)) (pre ++ w).length (eof (o.getD start))
      (marked pre.length m o) = some ⟨set w m.uri, none⟩ := by
    rw [of_decide_eq_true heof]
    exact (runActs_entering rfl ho).trans (runActs_save hset (List.prefix_refl _))
  exact create_of_scans h hacts (of_decide_eq_true hfinal)

theorem create_of_fragment (h : Reaches text pre fragmentStart m) (htext : text = pre ++ w)
    (hw : Derives uriRl (.rule .fragment) w) :
    create text = some (some { m.uri with fragment := w }) := by
  obtain ⟨o, hmoves, hend⟩ := fragment_ends hw
  obtain ⟨hreaches, ho⟩ := h.part rfl hmoves
  exact create_of_tailEnd hreaches ho hend rfl htext

theorem create_of_query {f : Option (List UInt8)} (h : Reaches text pre queryStart m)
    (htext : text = pre ++ w ++ withStart 35 f) (hw : Derives uriRl (.rule .query) w)
    (hf : ∀ v ∈ f, Derives uriRl (.rule .fragment) v) (hnone : m.uri.fragment = []) :
    create text = some (some { m.uri with query := w, fragment := f.getD [] }) := by
  obtain ⟨o, hmoves, hend⟩ := query_ends hw
  obtain ⟨hend, hhash⟩ := Bool.and_eq_true_iff.mp hend
  obtain ⟨hreaches, ho⟩ := h.part rfl hmoves
  cases f with
  | none =>
      have htext : text = pre ++ w := htext.trans (List.append_nil _)
      rw [create_of_tailEnd hreaches ho hend rfl htext, Option.getD_none, ← hnone]
  | some v =>
      have hsub : pre ++ w <+: text := ⟨35 :: v, htext.symm⟩
      have hbyte := hreaches.byte (next_of_goes hhash)
        ((runActs_entering rfl ho).trans (runActs_save rfl hsub))
      exact create_of_fragment hbyte (by rw [htext]; simp [withStart]) (hf v rfl)

/-- What is behind the path. -/
theorem Ends.create {q f : Option (List UInt8)} (hend : Ends text pre cs m uri)
    (h : Reaches text pre cs m) (htext : text = pre ++ withStart 63 q ++ withStart 35 f)
    (hq : ∀ v ∈ q, Derives uriRl (.rule .query) v)
    (hf : ∀ v ∈ f, Derives uriRl (.rule .fragment) v) (hquery : uri.query = [])
    (hfragment : uri.fragment = []) :
    create text = some (some { uri with query := q.getD [], fragment := f.getD [] }) := by
  obtain ⟨as, m', hleaves, hacts, rfl⟩ := hend
  simp only [leavesWith, Bool.and_eq_true, decide_eq_true_eq] at hleaves
  obtain ⟨⟨⟨hquestion, hhash⟩, heof⟩, hfinal⟩ := hleaves
  cases q with
  | some v =>
      have hbyte := h.byte (next_of_goes hquestion) hacts
      exact create_of_query hbyte (by rw [htext]; simp [withStart]) (hq v rfl) hf hfragment
  | none =>
      cases f with
      | some v =>
          have hbyte := h.byte (next_of_goes hhash) hacts
          have hcreate := create_of_fragment hbyte (by rw [htext]; simp [withStart]) (hf v rfl)
          rw [hcreate, Option.getD_none, Option.getD_some, ← hquery]
      | none =>
          obtain rfl : text = pre := htext.trans (by simp [withStart])
          have hcreate := create_of_scans h (by rw [heof]; exact hacts) hfinal
          obtain ⟨⟨scheme, userinfo, host, path, query, fragment, port⟩, mark⟩ := m'
          obtain rfl : query = [] := hquery
          obtain rfl : fragment = [] := hfragment
          exact hcreate

/-! ## The whole text -/

variable {r : Reference}

/-- The first byte behind an authority is no digit. -/
theorem digitValue_behind_authority {q f : Option (List UInt8)}
    (hw : Derives uriRl (.rule .pathAbempty) w) :
    ∀ c, (w ++ withStart 63 q ++ withStart 35 f).head? = some c → 10 ≤ Http.digitValue c := by
  intro c hc
  rcases pathAbempty_cases hw with rfl | ⟨v, rfl, -⟩
  · cases q with
    | some v =>
        obtain rfl := Option.some.inj hc
        decide
    | none =>
        cases f with
        | some v =>
            obtain rfl := Option.some.inj hc
            decide
        | none => cases hc
  · obtain rfl := Option.some.inj hc
    decide

theorem reaches_scheme (hr : r.Composed) :
    Reaches r.text (withEnd 58 r.scheme) (partsStart r.scheme.isSome)
      ⟨{ scheme := r.scheme.getD [] }, none⟩ := by
  obtain ⟨scheme, authority, path, query, fragment⟩ := r
  cases scheme with
  | none => exact Scans.nil
  | some v =>
      obtain ⟨o, hmoves, hend⟩ := scheme_ends (hr.scheme v rfl)
      obtain ⟨hsome, hgoes⟩ := Bool.and_eq_true_iff.mp hend
      obtain ⟨cs', rfl⟩ := Option.isSome_iff_exists.mp hsome
      have hstart : Reaches (Reference.text ⟨some v, authority, path, query, fragment⟩) []
          uriParserStart {} := Scans.nil
      have hsub : [] ++ v <+: Reference.text ⟨some v, authority, path, query, fragment⟩ := by
        simp [Reference.text, withEnd]
      exact (hstart.part rfl hmoves).1.byte (next_of_goes hgoes)
        (runActs_save (a := .saveScheme) (m := {}) rfl hsub)

/-- What `create` returns for a composed text. -/
theorem create_text (hr : r.Composed) : create r.text = some (some r.saved) := by
  have hscheme := reaches_scheme hr
  obtain ⟨scheme, authority, path, query, fragment⟩ := r
  cases authority with
  | none =>
      obtain ⟨cs', hmoves, hleaves⟩ := otherPath_ends scheme.isSome (hr.path rfl)
      obtain ⟨m', hpath, huri⟩ := hscheme.setting hmoves
      have hcreate := (ends_of_leavesWith hleaves huri).create hpath (by simp [Reference.text])
        hr.query hr.fragment rfl rfl
      rw [hcreate, Reference.saved]
      simp [Reference.components, savedUserinfo, digitBehindColon, colonRest, portValue]
  | some a =>
      have htext : Reference.text ⟨scheme, some a, path, query, fragment⟩ =
          withEnd 58 scheme ++ [47, 47] ++ a.text ++
            (path ++ withStart 63 query ++ withStart 35 fragment) := by
        simp [Reference.text]
      obtain ⟨cs, m, hreaches, hend⟩ := (hscheme.quiet (moves_slashes _)).authority
        (hr.authority a rfl) htext (digitValue_behind_authority (hr.pathAbempty rfl)) rfl
      obtain ⟨cs', m', hreaches', hends⟩ := hend.path hreaches (hr.pathAbempty rfl)
        ⟨withStart 63 query ++ withStart 35 fragment, by rw [htext]; simp⟩ rfl
      have hcreate := hends.create hreaches' (by rw [htext]; simp) hr.query hr.fragment rfl rfl
      rw [hcreate, Reference.saved]
      simp [Reference.components]

theorem savedUserinfo_eq_iff {u : List UInt8} :
    savedUserinfo u = u ↔ digitBehindColon u = false := by
  rw [savedUserinfo]
  split
  · rename_i hdigit
    rw [hdigit]
    refine iff_of_false (fun heq => ?_) Bool.noConfusion
    have hne : u ≠ [] := by
      intro hnil
      rw [hnil] at hdigit
      cases hdigit
    have hdrop := (u.dropWhile_suffix fun c => c != 58).length_le
    have hlen := congrArg List.length heq
    have hpos := List.length_pos_iff.mpr hne
    rw [colonRest, List.length_drop] at hlen
    omega
  · rename_i hdigit
    exact iff_of_true rfl (Bool.not_eq_true _ ▸ hdigit)

/-- The components come back if and only if the path is empty or stands behind a scheme and an
authority, and no digit stands behind the first colon of the `userinfo`. -/
theorem components_iff (hr : r.Composed) : create r.text = some (some r.components) ↔
    (r.path = [] ∨ r.scheme.isSome ∧ r.authority.isSome) ∧
      ∀ a ∈ r.authority, ∀ u ∈ a.userinfo, digitBehindColon u = false := by
  rw [create_text hr, Option.some.injEq, Option.some.injEq]
  constructor
  · intro heq
    have hpath : (if r.scheme.isSome && r.authority.isSome then r.path else []) = r.path :=
      congrArg Uri.path heq
    have huser := congrArg Uri.userinfo heq
    refine ⟨?_, fun a ha u hu => ?_⟩
    · split at hpath
      · rename_i hboth
        exact .inr (Bool.and_eq_true_iff.mp hboth)
      · exact .inl hpath.symm
    · have hu : r.authority.bind Authority.userinfo = some u := by
        rw [Option.mem_def.mp ha]
        exact hu
      have huser : savedUserinfo ((r.authority.bind Authority.userinfo).getD []) =
          (r.authority.bind Authority.userinfo).getD [] := huser
      rw [hu] at huser
      exact savedUserinfo_eq_iff.mp huser
  · rintro ⟨hpath, huser⟩
    have hpath : (if r.scheme.isSome && r.authority.isSome then r.path else []) = r.path := by
      rcases hpath with hpath | hboth
      · rw [hpath, ite_self]
      · rw [if_pos (Bool.and_eq_true_iff.mpr hboth)]
    have huser : savedUserinfo ((r.authority.bind Authority.userinfo).getD []) =
        (r.authority.bind Authority.userinfo).getD [] := by
      cases hu : r.authority.bind Authority.userinfo with
      | none => rfl
      | some u =>
          obtain ⟨a, ha, hu⟩ := Option.bind_eq_some_iff.mp hu
          exact savedUserinfo_eq_iff.mpr (huser a ha u hu)
    rw [Reference.saved, hpath, huser]
    rfl

/-- `h://h/`. -/
theorem components_iff_host : create [104, 58, 47, 47, 104, 47] =
      some (some { scheme := [104], host := [104], path := [47] }) ↔
    (([47] : List UInt8) = [] ∨ True ∧ True) ∧ ∀ u ∈ (none : Option (List UInt8)),
      digitBehindColon u = false := by
  have hscheme : Derives uriRl (.rule .scheme) [104] :=
    .rule (.seq (u := [104]) (.bytes (by decide)) .stop)
  have hhost : Derives uriRl (.rule .host) [104] :=
    .rule (.right (.right (.rule (.more (u := [104]) (.left (.bytes (by decide))) .stop))))
  have hpath : Derives uriRl (.rule .pathAbempty) [47] :=
    .rule (.seq (u := []) .none (.more (u := [47]) (.seq (u := [47]) (.bytes (by decide)) .stop)
      .stop))
  have hr : Reference.Composed ⟨some [104], some ⟨none, [104], none⟩, [47], none, none⟩ :=
    ⟨by rintro _ ⟨⟩; exact hscheme, by rintro _ ⟨⟩; exact ⟨by rintro _ ⟨⟩, hhost, by rintro _ ⟨⟩⟩,
      fun _ => hpath, by rintro ⟨⟩, by rintro _ ⟨⟩, by rintro _ ⟨⟩⟩
  have hiff := components_iff hr
  simpa [Reference.text, Reference.components, Authority.text, withEnd, withStart, portValue]
    using hiff

/-- The path `a`. -/
theorem components_path_lost : ¬∀ r : Reference, r.Composed →
    create r.text = some (some r.components) := by
  intro h
  have hbyte : Derives uriRl pcharNc [97] := .left (.bytes (by decide))
  have hsegment : Derives uriRl (.rule .segmentNzNc) [97] := .rule (.seq (u := [97]) hbyte .stop)
  have hpath : Derives uriRl (otherPath false) [97] :=
    .right (.left (.rule (.seq (u := [97]) hsegment .stop)))
  have hr : Reference.Composed ⟨none, none, [97], none, none⟩ :=
    ⟨by rintro _ ⟨⟩, by rintro _ ⟨⟩, by rintro ⟨⟩, fun _ => hpath, by rintro _ ⟨⟩,
      by rintro _ ⟨⟩⟩
  have hcreate : create [97] = some (some {}) := by decide +kernel
  exact absurd (hcreate.symm.trans (h _ hr)) (by decide)

end CoLib.Uri
