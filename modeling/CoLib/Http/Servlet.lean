/-
# `CoLib.Http.Servlet` — `ServletDispatch`

Servlets are added for a URI or for a pattern of the shell, and deleted again.
`getMatchedServlet` prefers the servlet of the URI itself, then the first pattern
that `fnmatch` accepts, then the default.

A non-null `Servlet::ptr` is an element of `Servlet`; `obj` tells the
`FunctionServlet` objects apart that the callback overloads construct.  The
unordered map is the partial map it stores.

**Proved here.**  For every sequence of calls the answer is determined by the
last writes to the URI, to the patterns and to the default: `m_datas` and
`m_globs` refine the history of the calls.
-/
import CoLib.Http.Request
import CoLib.Lib.LastWrite
import Mathlib

namespace CoLib.Http

open Lib

/-! ## The source -/

/-- A `Servlet` object. -/
inductive Servlet (S C : Type) where
  | user (slt : S)
  | function (obj : Nat) (cb : C)
  | notFound
  deriving DecidableEq, Repr

/-- `class ServletDispatch`. -/
structure ServletDispatch (S C : Type) where
  datas : List UInt8 → Option (Servlet S C)
  globs : List (List UInt8 × Servlet S C)
  default : Servlet S C

/-- `c_str()`, as a C function reads it. -/
def cStr (s : List UInt8) : List UInt8 :=
  s.takeWhile (· != 0)

namespace ServletDispatch

variable {S C : Type}

/-- `ServletDispatch()`. -/
def create : ServletDispatch S C :=
  { datas := fun _ => none, globs := [], default := .notFound }

/-- `addServlet(uri, slt)`. -/
def addServlet (uri : List UInt8) (slt : Servlet S C) (d : ServletDispatch S C) :
    ServletDispatch S C :=
  { d with datas := Function.update d.datas uri (some slt) }

/-- `addServlet(uri, cb)`: the entry's pointer is reset to a new
`FunctionServlet`. -/
def addServletCb (uri : List UInt8) (obj : Nat) (cb : C) (d : ServletDispatch S C) :
    ServletDispatch S C :=
  { d with datas := Function.update d.datas uri (some (.function obj cb)) }

/-- The loop that erases the first entry for `uri` from `m_globs`. -/
def eraseGlob (uri : List UInt8) (globs : List (List UInt8 × Servlet S C)) :
    List (List UInt8 × Servlet S C) :=
  globs.eraseP fun it => it.1 == uri

/-- `addGloServlet(uri, slt)`. -/
def addGloServlet (uri : List UInt8) (slt : Servlet S C) (d : ServletDispatch S C) :
    ServletDispatch S C :=
  { d with globs := eraseGlob uri d.globs ++ [(uri, slt)] }

/-- `addGloServlet(uri, cb)`. -/
def addGloServletCb (uri : List UInt8) (obj : Nat) (cb : C) (d : ServletDispatch S C) :
    ServletDispatch S C :=
  d.addGloServlet uri (.function obj cb)

/-- `delServlet(uri)`. -/
def delServlet (uri : List UInt8) (d : ServletDispatch S C) : ServletDispatch S C :=
  { d with datas := Function.update d.datas uri none }

/-- `delGloServlet(uri)`. -/
def delGloServlet (uri : List UInt8) (d : ServletDispatch S C) : ServletDispatch S C :=
  { d with globs := eraseGlob uri d.globs }

/-- `setDefault(v)`. -/
def setDefault (v : Servlet S C) (d : ServletDispatch S C) : ServletDispatch S C :=
  { d with default := v }

/-- `getServlet(uri)`. -/
def getServlet (uri : List UInt8) (d : ServletDispatch S C) : Option (Servlet S C) :=
  d.datas uri

/-- `getGloServlet(uri)`. -/
def getGloServlet (uri : List UInt8) (d : ServletDispatch S C) : Option (Servlet S C) :=
  (d.globs.find? fun it => it.1 == uri).map Prod.snd

/-- `getMatchedServlet(uri)`; `fnmatch(pattern, string, 0)` is a parameter. -/
def getMatchedServlet (fnmatch : List UInt8 → List UInt8 → Int) (uri : List UInt8)
    (d : ServletDispatch S C) : Servlet S C :=
  match d.datas uri with
  | some slt => slt
  | none =>
      match d.globs.find? fun it => fnmatch (cStr it.1) (cStr uri) == 0 with
      | some it => it.2
      | none => d.default

/-! ## Histories -/

/-- The calls that change the dispatcher. -/
inductive Change (S C : Type) where
  | addServlet (uri : List UInt8) (slt : Servlet S C)
  | addServletCb (uri : List UInt8) (obj : Nat) (cb : C)
  | addGloServlet (uri : List UInt8) (slt : Servlet S C)
  | addGloServletCb (uri : List UInt8) (obj : Nat) (cb : C)
  | delServlet (uri : List UInt8)
  | delGloServlet (uri : List UInt8)
  | setDefault (v : Servlet S C)

/-- One call. -/
def call (d : ServletDispatch S C) : Change S C → ServletDispatch S C
  | .addServlet uri slt => d.addServlet uri slt
  | .addServletCb uri obj cb => d.addServletCb uri obj cb
  | .addGloServlet uri slt => d.addGloServlet uri slt
  | .addGloServletCb uri obj cb => d.addGloServletCb uri obj cb
  | .delServlet uri => d.delServlet uri
  | .delGloServlet uri => d.delGloServlet uri
  | .setDefault v => d.setDefault v

/-- The dispatcher after a sequence of calls. -/
def after (calls : List (Change S C)) : ServletDispatch S C :=
  calls.foldl call create

namespace Change

/-- The exact servlet that a call stores for a URI, or deletes. -/
def writesExact : Change S C → Option (List UInt8 × Option (Servlet S C))
  | .addServlet uri slt => some (uri, some slt)
  | .addServletCb uri obj cb => some (uri, some (.function obj cb))
  | .delServlet uri => some (uri, none)
  | _ => none

/-- The servlet that a call stores for a pattern, or deletes. -/
def writesGlob : Change S C → Option (List UInt8 × Option (Servlet S C))
  | .addGloServlet uri slt => some (uri, some slt)
  | .addGloServletCb uri obj cb => some (uri, some (.function obj cb))
  | .delGloServlet uri => some (uri, none)
  | _ => none

/-- The default that a call sets. -/
def setsDefault : Change S C → Option (Servlet S C)
  | .setDefault v => some v
  | _ => none

end Change

/-- The exact servlet for `uri` that was added last and not deleted. -/
def IsExact (calls : List (Change S C)) (uri : List UInt8) (slt : Servlet S C) : Prop :=
  ∃ i, LastWrite Change.writesExact calls i uri slt

/-- Call `i` added `slt` for `pattern`, and no later call added or deleted one. -/
def IsGlob (calls : List (Change S C)) (i : Nat) (pattern : List UInt8) (slt : Servlet S C) :
    Prop :=
  LastWrite Change.writesGlob calls i pattern slt

/-- The default set last, or the one of the constructor. -/
def lastDefault (calls : List (Change S C)) : Servlet S C :=
  (calls.filterMap Change.setsDefault).getLastD .notFound

/-! ## The dispatcher refines the history -/

variable {calls : List (Change S C)} {c : Change S C}

theorem after_concat (calls : List (Change S C)) (c : Change S C) :
    after (calls ++ [c]) = (after calls).call c :=
  List.foldl_concat ..

theorem eraseGlob_eq {globs : List (List UInt8 × Servlet S C)} (h : (globs.map Prod.fst).Nodup)
    (uri : List UInt8) : eraseGlob uri globs = globs.filter fun it => it.1 ≠ uri :=
  eraseP_eq_filter h uri

/-- What a call does to the three tables, by what it writes. -/
theorem datas_call (d : ServletDispatch S C) (c : Change S C) (uri : List UInt8) :
    (d.call c).datas uri = match c.writesExact with
      | some (uri', slt) => if uri = uri' then slt else d.datas uri
      | none => d.datas uri := by
  cases c with
  | addServlet | addServletCb | delServlet => exact Function.update_apply ..
  | addGloServlet | addGloServletCb | delGloServlet | setDefault => rfl

theorem globs_call (d : ServletDispatch S C) (c : Change S C) :
    (d.call c).globs = match c.writesGlob with
      | some (uri, slt) => eraseGlob uri d.globs ++ (slt.map fun slt => (uri, slt)).toList
      | none => d.globs := by
  cases c with
  | delGloServlet => exact (List.append_nil _).symm
  | addServlet | addServletCb | addGloServlet | addGloServletCb | delServlet | setDefault => rfl

theorem default_call (d : ServletDispatch S C) (c : Change S C) :
    (d.call c).default = c.setsDefault.getD d.default := by
  cases c <;> rfl

theorem datas_after (calls : List (Change S C)) (uri : List UInt8) (slt : Servlet S C) :
    (after calls).datas uri = some slt ↔ IsExact calls uri slt := by
  induction calls using List.reverseRecOn with
  | nil =>
      refine iff_of_false (by simp [after, create]) ?_
      rintro ⟨i, hi⟩
      exact not_lastWrite_nil hi
  | append_singleton calls c ih =>
      rw [after_concat, datas_call]
      cases hc : c.writesExact with
      | none => simp only [IsExact, lastWrite_concat, hc, ih]; simp
      | some w =>
          obtain ⟨uri', slt'⟩ := w
          simp only [IsExact, lastWrite_concat, hc]
          by_cases heq : uri = uri'
          · subst heq
            simp
          · rw [if_neg heq, ih]
            simp [IsExact, Ne.symm heq]

theorem default_after (calls : List (Change S C)) : (after calls).default = lastDefault calls := by
  induction calls using List.reverseRecOn with
  | nil => rfl
  | append_singleton calls c ih =>
      rw [after_concat, default_call, ih, lastDefault, lastDefault, List.filterMap_append]
      cases hc : c.setsDefault with
      | none => simp [hc]
      | some v => simp [hc]

/-- `m_globs` has the patterns that are not deleted, in the order of their last
additions. -/
theorem globs_after (calls : List (Change S C)) :
    ∃ t, InWriteOrder Change.writesGlob calls t ∧ (after calls).globs = t.map Prod.snd := by
  induction calls using List.reverseRecOn with
  | nil => exact ⟨[], .nil, rfl⟩
  | append_singleton calls c ih =>
      obtain ⟨t, ht, hglobs⟩ := ih
      have herase : ∀ uri, eraseGlob uri (after calls).globs
          = (t.filter fun e => e.2.1 ≠ uri).map Prod.snd := by
        intro uri
        have hnodup : ((after calls).globs.map Prod.fst).Nodup := by
          rw [hglobs, List.map_map]
          exact ht.keys_nodup
        rw [eraseGlob_eq hnodup, hglobs, List.filter_map]
        rfl
      rw [after_concat, globs_call]
      cases hc : c.writesGlob with
      | none => exact ⟨t, ht.skip hc, hglobs⟩
      | some w =>
          obtain ⟨uri, slt⟩ := w
          cases slt with
          | none =>
              refine ⟨_, ht.clear hc, ?_⟩
              simp only [herase, Option.map_none, Option.toList_none, List.append_nil]
          | some slt =>
              refine ⟨_, ht.store hc, ?_⟩
              simp only [herase, Option.map_some, Option.toList_some, List.map_append,
                List.map_cons, List.map_nil]

/-- **The dispatcher answers from the history.**  After every sequence of calls,
for every URI and whatever `fnmatch` accepts: the exact servlet added last and
not deleted, else the servlet of the first pattern accepted, in the order of
their last additions and without the deleted ones, else the default set last.
The patterns kept are different. -/
theorem getMatchedServlet_after (fnmatch : List UInt8 → List UInt8 → Int)
    (calls : List (Change S C)) (uri : List UInt8) :
    (∀ slt, IsExact calls uri slt → (after calls).getMatchedServlet fnmatch uri = slt) ∧
    ((∀ slt, ¬ IsExact calls uri slt) →
      (∀ i pattern slt, IsGlob calls i pattern slt → fnmatch (cStr pattern) (cStr uri) = 0 →
        (∀ j < i, ∀ pattern' slt', IsGlob calls j pattern' slt' →
          fnmatch (cStr pattern') (cStr uri) ≠ 0) →
        (after calls).getMatchedServlet fnmatch uri = slt) ∧
      ((∀ i pattern slt, IsGlob calls i pattern slt → fnmatch (cStr pattern) (cStr uri) ≠ 0) →
        (after calls).getMatchedServlet fnmatch uri = lastDefault calls)) ∧
    ((after calls).globs.map Prod.fst).Nodup := by
  obtain ⟨t, ht, hglobs⟩ := globs_after calls
  have hfind : (after calls).globs.find? (fun it => fnmatch (cStr it.1) (cStr uri) == 0)
      = (t.find? fun e => fnmatch (cStr e.2.1) (cStr uri) == 0).map Prod.snd := by
    rw [hglobs, List.find?_map]
    rfl
  refine ⟨fun slt hslt => ?_, fun hno => ⟨?_, ?_⟩, ?_⟩
  · rw [getMatchedServlet, (datas_after calls uri slt).mpr hslt]
  · intro i pattern slt hi haccept hfirst
    have hnone : (after calls).datas uri = none :=
      Option.eq_none_iff_forall_ne_some.mpr fun slt h => hno slt ((datas_after calls uri slt).mp h)
    have hentry := ht.find?_eq (p := fun k => fnmatch (cStr k) (cStr uri) == 0) hi
      (by simpa using haccept) fun j l w hj hl => by simpa using hfirst j hj l w hl
    rw [getMatchedServlet, hnone, hfind, hentry]
    rfl
  · intro hreject
    have hnone : (after calls).datas uri = none :=
      Option.eq_none_iff_forall_ne_some.mpr fun slt h => hno slt ((datas_after calls uri slt).mp h)
    have hentry := ht.find?_none (p := fun k => fnmatch (cStr k) (cStr uri) == 0)
      fun i k v hi => by simpa using hreject i k v hi
    rw [getMatchedServlet, hnone, hfind, hentry]
    exact default_after calls
  · rw [hglobs, List.map_map]
    exact ht.keys_nodup

/-- A pattern is added again and comes last. -/
def readded : List (Change Nat Unit) :=
  [.addGloServlet (chars "/*") (.user 1), .addGloServlet (chars "/a*") (.user 2),
    .addGloServlet (chars "/*") (.user 3)]

theorem getMatchedServlet_after_readded :
    (after readded).getMatchedServlet (fun _ _ => 0) (chars "/ab") = .user 2 := by
  obtain ⟨-, hglob, -⟩ := getMatchedServlet_after (fun _ _ => 0) readded (chars "/ab")
  refine (hglob fun slt h => ?_).1 1 (chars "/a*") (.user 2) ⟨⟨_, rfl, rfl⟩, ?_⟩ rfl ?_
  · rw [← datas_after] at h
    cases h
  · intro j c w hj hc
    have hlt : j < 3 := (List.getElem?_eq_some_iff.mp hc).1
    obtain rfl : j = 2 := by omega
    obtain rfl := Option.some.inj hc
    intro heq
    have hkey : chars "/*" = chars "/a*" := congrArg Prod.fst (Option.some.inj heq)
    exact absurd hkey (by decide)
  · intro j hj pattern slt hlast
    obtain rfl : j = 0 := by omega
    obtain ⟨⟨c, hc, hw⟩, hno⟩ := hlast
    obtain rfl := Option.some.inj hc
    obtain rfl : chars "/*" = pattern := congrArg Prod.fst (Option.some.inj hw)
    exact absurd rfl (hno 2 _ (some (.user 3)) (by omega) rfl)

/-- `getServlet` and `getGloServlet` answer from the history, too. -/
theorem getServlet_after (calls : List (Change S C)) (uri : List UInt8) (slt : Servlet S C) :
    (after calls).getServlet uri = some slt ↔ IsExact calls uri slt :=
  datas_after calls uri slt

theorem getGloServlet_after {i : Nat} {uri : List UInt8} {slt : Servlet S C}
    (h : IsGlob calls i uri slt) : (after calls).getGloServlet uri = some slt := by
  obtain ⟨t, ht, hglobs⟩ := globs_after calls
  have hentry := ht.find?_eq (p := fun k => k == uri) h (by simp) fun j l w hj hl => by
    have hne : l ≠ uri := by
      rintro rfl
      exact absurd (hl.unique h).1 hj.ne
    simpa using hne
  rw [getGloServlet, hglobs, List.find?_map]
  simp only [Function.comp_def, hentry, Option.map_some]

end ServletDispatch

end CoLib.Http
