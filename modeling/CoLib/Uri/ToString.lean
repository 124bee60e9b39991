/-
# `CoLib.Uri.ToString` — `Uri::toString`, and back

`dump` leaves out a default port, writes `/` for an empty path, and writes a scheme with `://`
also where there is none.

**Proved here.**  For a `Uri` whose fields are parts of `uri.rl`, `Create` of its text gives a
`Uri` with the same text, path and port if and only if no digit stands behind the first colon
of the `userinfo`; without a scheme it gives null (`create_dump_iff`).  What `Create` returns for
a composed text has such fields (`parts_saved`).
-/
import CoLib.Uri.Throws

namespace CoLib.Uri

open Lib.Grammar Lib.Scanner Http

/-! ## The text of a `Uri` -/

/-- `std::to_string` of an `int`. -/
def intText (n : Int) : List UInt8 :=
  (if n < 0 then chars "-" else []) ++ decimalText n.natAbs

def isDefaultPort (u : Uri) : Bool :=
  if u.port = 0 then true
  else if u.scheme = chars "http" ∨ u.scheme = chars "ws" then u.port == 80
  else if u.scheme = chars "https" ∨ u.scheme = chars "wss" then u.port == 443
  else false

def getPath (u : Uri) : List UInt8 :=
  if u.path = [] then chars "/" else u.path

def getPort (u : Uri) : Int :=
  if u.port ≠ 0 then u.port
  else if u.scheme = chars "http" ∨ u.scheme = chars "ws" then 80
  else if u.scheme = chars "https" ∨ u.scheme = chars "wss" then 443
  else u.port

/-- `dump`, and what `toString` returns. -/
def dump (u : Uri) : List UInt8 :=
  u.scheme ++ chars "://" ++ u.userinfo ++ (if u.userinfo = [] then [] else chars "@") ++ u.host
    ++ (if u.isDefaultPort then [] else chars ":" ++ intText u.port) ++ u.getPath
    ++ (if u.query = [] then [] else chars "?") ++ u.query
    ++ (if u.fragment = [] then [] else chars "#") ++ u.fragment

/-- The fields are parts of `uri.rl`; the scheme may be empty. -/
structure Parts (u : Uri) : Prop where
  scheme : u.scheme = [] ∨ Derives uriRl (.rule .scheme) u.scheme
  userinfo : Derives uriRl (.rule .userinfo) u.userinfo
  host : Derives uriRl (.rule .host) u.host
  path : Derives uriRl (.rule .pathAbempty) u.path
  query : Derives uriRl (.rule .query) u.query
  fragment : Derives uriRl (.rule .fragment) u.fragment
  port : 0 ≤ u.port ∧ u.port ≤ 65535

/-- The path and the port as `dump` writes them. -/
def normal (u : Uri) : Uri :=
  { u with path := u.getPath, port := if u.isDefaultPort then 0 else u.port }

section

variable {u : Uri}

theorem getPath_ne_nil (u : Uri) : u.getPath ≠ [] := by
  rw [getPath]
  split
  · decide
  · assumption

theorem getPath_normal (u : Uri) : u.normal.getPath = u.getPath := by
  show (if u.getPath = [] then chars "/" else u.getPath) = u.getPath
  rw [if_neg (getPath_ne_nil u)]

theorem isDefaultPort_normal (u : Uri) : u.normal.isDefaultPort = u.isDefaultPort := by
  cases hdefault : u.isDefaultPort with
  | true =>
      rw [isDefaultPort, normal, hdefault]
      rfl
  | false =>
      rw [isDefaultPort, normal, hdefault]
      exact hdefault

theorem dump_normal (u : Uri) : u.normal.dump = u.dump := by
  have hport : (if u.normal.isDefaultPort then [] else chars ":" ++ intText u.normal.port) =
      if u.isDefaultPort then [] else chars ":" ++ intText u.port := by
    rw [isDefaultPort_normal]
    split
    · rfl
    · rename_i hdefault
      rw [normal, if_neg hdefault]
  rw [dump, hport, getPath_normal]
  rfl

theorem getPort_normal (u : Uri) : u.normal.getPort = u.getPort := by
  cases hdefault : u.isDefaultPort with
  | false =>
      have hsame : u.normal.port = u.port := by
        rw [normal, hdefault]
        rfl
      rw [getPort, getPort, hsame]
      rfl
  | true =>
      have hzero : u.normal.port = 0 := by
        rw [normal, hdefault]
        rfl
      have hscheme : u.normal.scheme = u.scheme := rfl
      rw [getPort, getPort, hzero, hscheme]
      by_cases hport : u.port = 0
      · rw [hport]
      · rw [if_neg (not_not.mpr rfl), if_pos hport]
        rw [isDefaultPort, if_neg hport] at hdefault
        split at hdefault
        · rename_i hhttp
          rw [if_pos hhttp, eq_of_beq hdefault]
        · rename_i hhttp
          rw [if_neg hhttp]
          split at hdefault
          · rename_i hhttps
            rw [if_pos hhttps, eq_of_beq hdefault]
          · cases hdefault

/-! ## The text as a reference -/

/-- The components that `dump` writes. -/
def reference (u : Uri) : Reference where
  scheme := some u.scheme
  authority := some
    { userinfo := if u.userinfo = [] then none else some u.userinfo
      host := u.host
      port := if u.isDefaultPort then none else some (intText u.port) }
  path := u.getPath
  query := if u.query = [] then none else some u.query
  fragment := if u.fragment = [] then none else some u.fragment

theorem withStart_ite (c : UInt8) (v : List UInt8) :
    withStart c (if v = [] then none else some v) = (if v = [] then [] else [c]) ++ v := by
  split
  · rename_i hnil
    rw [hnil]
    rfl
  · rfl

theorem withEnd_ite (c : UInt8) (v : List UInt8) :
    withEnd c (if v = [] then none else some v) = v ++ (if v = [] then [] else [c]) := by
  split
  · rename_i hnil
    rw [hnil]
    rfl
  · rfl

theorem text_reference (u : Uri) : u.reference.text = u.dump := by
  have hport : withStart 58 (if u.isDefaultPort then none else some (intText u.port)) =
      if u.isDefaultPort then [] else chars ":" ++ intText u.port := by
    split <;> rfl
  have hseparator : chars "://" = [58] ++ [47, 47] := by decide
  rw [Reference.text, dump, hseparator]
  show withEnd 58 (some u.scheme) ++ ([47, 47] ++ Authority.text _) ++ u.getPath ++
    withStart 63 (if u.query = [] then none else some u.query) ++
    withStart 35 (if u.fragment = [] then none else some u.fragment) = _
  rw [withStart_ite, withStart_ite, Authority.text, withEnd_ite, hport]
  simp only [withEnd, Option.map_some, Option.getD_some, List.append_assoc]
  rfl

theorem getD_ite (v : List UInt8) : (if v = [] then none else some v).getD [] = v := by
  split
  · rename_i hnil
    rw [hnil]
    rfl
  · rfl

theorem numeral_intText {n : Int} (h : 0 ≤ n) : numeral (intText n) = some n.toNat := by
  rw [intText, if_neg (not_lt.mpr h), List.nil_append, numeral_decimalText]
  congr 1
  omega

theorem derives_getPath (h : Derives uriRl (.rule .pathAbempty) u.path) :
    Derives uriRl (.rule .pathAbempty) u.getPath := by
  rw [getPath]
  split
  · exact .rule (.seq (u := []) .none
      (.more (u := [47]) (.seq (u := [47]) (.bytes (by decide)) .stop) .stop))
  · exact h

theorem composed_reference (h : u.Parts) (hscheme : u.scheme ≠ []) : u.reference.Composed := by
  refine ⟨?_, ?_, fun _ => derives_getPath h.path, fun hnone => (by cases hnone), ?_, ?_⟩
  · rintro s ⟨⟩
    exact h.scheme.resolve_left hscheme
  · rintro a ⟨⟩
    refine ⟨?_, h.host, ?_⟩
    · intro v hv
      simp only at hv
      split at hv
      · cases hv
      · cases hv
        exact h.userinfo
    · intro v hv
      simp only at hv
      split at hv
      · cases hv
      · rename_i hdefault
        cases hv
        refine ⟨u.port.toNat, numeral_intText h.port.1, ?_, ?_⟩
        · have hne : u.port ≠ 0 := by
            intro hzero
            rw [isDefaultPort, if_pos hzero] at hdefault
            exact hdefault rfl
          have := h.port.1
          omega
        · have := h.port.2
          omega
  · intro v hv
    simp only [reference] at hv
    split at hv
    · cases hv
    · cases hv
      exact h.query
  · intro v hv
    simp only [reference] at hv
    split at hv
    · cases hv
    · cases hv
      exact h.fragment

theorem saved_reference (hport : 0 ≤ u.port) :
    u.reference.saved = { u.normal with userinfo := savedUserinfo u.userinfo } := by
  have hvalue :
      ((portValue (if u.isDefaultPort then none else some (intText u.port)) : Nat) : Int) =
        if u.isDefaultPort then 0 else u.port := by
    split
    · rfl
    · rw [portValue, Option.bind_some, numeral_intText hport, Option.getD_some]
      omega
  rw [Reference.saved, normal]
  simp only [Reference.components, reference, Option.bind_some, Option.map_some, Option.getD_some,
    getD_ite, hvalue, Option.isSome_some, Bool.and_self, if_true]

/-! ## The text is read back -/

theorem create_dump (h : u.Parts) (hscheme : u.scheme ≠ []) :
    create u.dump = some (some { u.normal with userinfo := savedUserinfo u.userinfo }) := by
  rw [← text_reference, create_text (composed_reference h hscheme), saved_reference h.port.1]

/-- Without a scheme the text begins with a colon. -/
theorem create_dump_noScheme (hscheme : u.scheme = []) : create u.dump = some none := by
  obtain ⟨rest, hrest⟩ : ∃ rest, u.dump = 58 :: rest := by
    rw [dump, hscheme]
    simp only [List.nil_append, List.append_assoc]
    rw [show chars "://" = 58 :: [47, 47] by decide, List.cons_append]
    exact ⟨_, rfl⟩
  have hnext : next uriParserStart 58 = none := by decide
  rw [hrest, create, scan]
  simp only [machine, hnext, Option.bind_some]

/-- `Create` reads the text of a `Uri` back, with the path and the port as they are written, if
and only if no digit stands behind the first colon of the `userinfo`; the `Uri` that it gives
then has the same text, path and port.  Without a scheme it gives null. -/
theorem create_dump_iff (h : u.Parts) : (u.scheme = [] → create u.dump = some none) ∧
    (u.scheme ≠ [] →
      (create u.dump = some (some u.normal) ↔ digitBehindColon u.userinfo = false)) ∧
    u.normal.dump = u.dump ∧ u.normal.getPath = u.getPath ∧ u.normal.getPort = u.getPort := by
  refine ⟨create_dump_noScheme, ?_, dump_normal u, getPath_normal u, getPort_normal u⟩
  intro hscheme
  rw [create_dump h hscheme, Option.some.injEq, Option.some.injEq, ← savedUserinfo_eq_iff]
  constructor
  · intro heq
    exact congrArg Uri.userinfo heq
  · intro heq
    rw [heq]
    rfl

/-- `h://h:81`. -/
theorem create_dump_iff_port : create (dump { scheme := [104], host := [104], port := 81 }) =
    some (some { scheme := [104], host := [104], path := [47], port := 81 }) := by
  have hscheme : Derives uriRl (.rule .scheme) [104] :=
    .rule (.seq (u := [104]) (.bytes (by decide)) .stop)
  have hhost : Derives uriRl (.rule .host) [104] :=
    .rule (.right (.right (.rule (.more (u := [104]) (.left (.bytes (by decide))) .stop))))
  have hparts : Parts { scheme := [104], host := [104], port := 81 } :=
    { scheme := .inr hscheme, userinfo := .rule .stop, host := hhost,
      path := .rule (.seq (u := []) .none .stop), query := .rule .stop, fragment := .rule .stop,
      port := by decide }
  exact ((create_dump_iff hparts).2.1 (by decide)).mpr (by decide)

/-! ## What `Create` returns has such fields -/

theorem derives_savedUserinfo {w : List UInt8} (h : Derives uriRl (.rule .userinfo) w) :
    Derives uriRl (.rule .userinfo) (savedUserinfo w) := by
  rw [savedUserinfo]
  split
  · rename_i hdigit
    rcases userinfo_split h with ⟨hmem, -⟩ | ⟨u₀, u₁, rfl, hmem, -, hu₁⟩
    · rw [digitBehindColon, colonRest_of_not_mem hmem] at hdigit
      cases hdigit
    · rwa [colonRest_append hmem]
  · exact h

theorem derives_getD {e : Expr Rule} {v : Option (List UInt8)} (hnil : Derives uriRl e [])
    (hv : ∀ w ∈ v, Derives uriRl e w) : Derives uriRl e (v.getD []) := by
  cases v with
  | none => exact hnil
  | some w => exact hv w rfl

theorem parts_saved {r : Reference} (hr : r.Composed) : r.saved.Parts := by
  obtain ⟨scheme, authority, path, query, fragment⟩ := r
  have hempty : Derives uriRl (.rule .pathAbempty) [] := .rule (.seq (u := []) .none .stop)
  refine ⟨?_, ?_, ?_, ?_, derives_getD (.rule .stop) hr.query,
    derives_getD (.rule .stop) hr.fragment, ?_⟩
  · cases scheme with
    | none => exact .inl rfl
    | some s => exact .inr (hr.scheme s rfl)
  · refine derives_savedUserinfo (derives_getD (.rule .stop) ?_)
    intro v hv
    obtain ⟨a, ha, hv⟩ := Option.bind_eq_some_iff.mp hv
    exact (hr.authority a ha).userinfo v hv
  · refine derives_getD (.rule (.right (.right (.rule .stop)))) ?_
    intro v hv
    obtain ⟨a, ha, rfl⟩ := Option.map_eq_some_iff.mp hv
    exact (hr.authority a ha).host
  · show Derives uriRl (.rule .pathAbempty) (if scheme.isSome && authority.isSome then path else [])
    split
    · rename_i hboth
      exact hr.pathAbempty (Bool.and_eq_true_iff.mp hboth).2
    · exact hempty
  · show (0 : Int) ≤ portValue (authority.bind Authority.port) ∧
      (portValue (authority.bind Authority.port) : Int) ≤ 65535
    cases hport : authority.bind Authority.port with
    | none => exact ⟨Int.le_refl 0, by decide⟩
    | some v =>
        obtain ⟨a, ha, hv⟩ := Option.bind_eq_some_iff.mp hport
        obtain ⟨n, hn, -, hmax⟩ := (hr.authority a ha).port v hv
        rw [portValue, Option.bind_some, hn, Option.getD_some]
        omega

end

end CoLib.Uri
