/-
# `CoLib.Log.Define` — the listener of the variable `logs`

The variable holds a set of logger definitions, ordered by name.  When it is set,
its listener is called with the old and the new set and brings the loggers in
line: those of the new set are configured, those of the old set that are gone are
silenced.

A definition that is in both sets leaves the pointer `logger` null, and the next
line writes through it; an appender whose type is neither 1 nor 2 leaves `ap`
null.  Both are crashes here.

**Proved here.**  `onLogsChanged_iff`: the listener runs to its end and leaves
every logger as its definition says exactly if no definition is in both sets and
the appenders of the new one have the types 1 and 2.
-/
import CoLib.Log.Logger
import CoLib.Lib.OrderedSet
import CoLib.Lib.Run
import Mathlib

namespace CoLib.Log

open Lib
open Config (Text)

/-- `struct LogAppenderDefine`. -/
structure LogAppenderDefine where
  type : Int
  level : LogLevel
  formatter : Text
  file : Text
  deriving DecidableEq

/-- `struct LogDefine`.  Its `operator==` compares everything. -/
structure LogDefine where
  name : Text
  level : LogLevel
  formatter : Text
  appenders : List LogAppenderDefine
  deriving DecidableEq

/-- `LogDefine::operator<`. -/
def LogDefine.lt (a b : LogDefine) : Bool := decide (a.name < b.name)

/-- `std::set<LogDefine>`. -/
structure LogSet where
  defs : List LogDefine
  sorted : OrderedSet.SortedBy LogDefine.name defs

/-- A null pointer is written through. -/
inductive Crash where
  | nullLogger
  | nullAppender
  deriving DecidableEq

namespace Loggers

/-- The object made for an appender's definition, null for an unknown type. -/
def kindOf (a : LogAppenderDefine) : Option AppenderKind :=
  if a.type = 1 then some (.file a.file)
  else if a.type = 2 then some .stdout
  else none

/-- The body of the loop over `i.appenders`. -/
def defineAppender (name : Text) (m : Loggers) (a : LogAppenderDefine) : Except Crash Loggers :=
  match kindOf a with
  | none => .error .nullAppender
  | some kind =>
      let (m, ap) := m.newAppender kind
      let m := m.appenderSetLevel ap a.level
      let m := m.addAppender name ap
      if a.formatter.isEmpty then .ok m
      else
        let fmt := LogFormatter.create a.formatter
        if fmt.isError then .ok m else .ok (m.appenderSetFormatter ap (some fmt))

/-- The pointer `logger` in the loop over `new_value`: `none` for null. -/
def loggerOf (old : LogSet) (i : LogDefine) : Option Text :=
  match OrderedSet.find LogDefine.lt i old.defs with
  | none => some i.name
  | some it =>
      match old.defs[it]? with
      | some d => if i = d then none else some i.name
      | none => some i.name

/-- The body of the loop over `new_value`. -/
def define (old : LogSet) (m : Loggers) (i : LogDefine) : Except Crash Loggers :=
  match loggerOf old i with
  | none => .error .nullLogger
  | some name =>
      let m := m.getLogger name
      let m := m.setLevel name i.level
      let m := if i.formatter.isEmpty then m else m.setFormatterString name i.formatter
      let m := m.clearAppender name
      i.appenders.foldlM (defineAppender name) m

/-- The body of the loop over `old_value`. -/
def undefine (new : LogSet) (m : Loggers) (i : LogDefine) : Loggers :=
  match OrderedSet.find LogDefine.lt i new.defs with
  | some _ => m
  | none => ((m.getLogger i.name).setLevel i.name 100).clearAppender i.name

/-- The listener. -/
def onLogsChanged (m : Loggers) (old new : LogSet) : Except Crash Loggers := do
  let m ← new.defs.foldlM (define old) m
  .ok (old.defs.foldl (undefine new) m)

/-! ## What a definition says -/

/-- The formatter of an appender's definition, when given and valid. -/
def ownFormatter (a : LogAppenderDefine) : Option LogFormatter :=
  if a.formatter.isEmpty then none
  else if (LogFormatter.create a.formatter).isError then none
  else some (LogFormatter.create a.formatter)

/-- The appender of a definition, in a logger with the formatter `formatter`. -/
def appenderOf (formatter : Option LogFormatter) (a : LogAppenderDefine) : LogAppender :=
  { kind := (kindOf a).getD .stdout
    level := a.level
    formatter := (ownFormatter a).or formatter
    hasFormatter := (ownFormatter a).isSome }

/-- The logger `l` is as the definition says, its appenders and their order
included. -/
structure Configured (m : Loggers) (d : LogDefine) (l : Logger) : Prop where
  found : m.loggers d.name = some l
  level : l.level = d.level
  formatter : d.formatter ≠ [] → (LogFormatter.create d.formatter).isError = false →
    l.formatter = some (LogFormatter.create d.formatter)
  appenders : l.appenders.map (fun p => m.heap[p]?) =
    d.appenders.map fun a => some (appenderOf l.formatter a)

/-- The logger of that name has no appenders, and no event reaches any. -/
def Silenced (m : Loggers) (name : Text) : Prop :=
  ∃ l, m.loggers name = some l ∧ l.appenders = [] ∧
    ∀ level ≤ LogLevel.FATAL, ¬ l.reaches level

/-- What the change from `old` to `new` is to make of the loggers. -/
structure Applied (old new : LogSet) (m m' : Loggers) : Prop where
  configured : ∀ d ∈ new.defs, ∃ l, m'.Configured d l
  silenced : ∀ d ∈ old.defs, (∀ e ∈ new.defs, e.name ≠ d.name) → m'.Silenced d.name
  unchanged : ∀ d ∈ new.defs, d ∈ old.defs → m'.loggers d.name = m.loggers d.name ∧
    ∀ l, m.loggers d.name = some l → ∀ p ∈ l.appenders, m'.heap[p]? = m.heap[p]?

/-! ## The appenders of a definition -/

theorem modify_concat {α : Type} (f : α → α) (x : α) :
    ∀ xs : List α, (xs ++ [x]).modify xs.length f = xs ++ [f x]
  | [] => rfl
  | y :: xs => by simpa using modify_concat f x xs

/-- One appender's definition: a new appender, attached last. -/
theorem defineAppender_ok {m : Loggers} {name : Text} {l : Logger} {a : LogAppenderDefine}
    (h : m.loggers name = some l) (ha : (kindOf a).isSome = true) :
    defineAppender name m a = .ok
      { loggers := Function.update m.loggers name
          (some { l with appenders := l.appenders ++ [m.heap.length] })
        heap := m.heap ++ [appenderOf l.formatter a] } := by
  obtain ⟨kind, hkind⟩ := Option.isSome_iff_exists.mp ha
  simp only [defineAppender, hkind, newAppender, appenderSetLevel, addAppender, modify,
    appenderSetFormatter, modify_concat, h, appenderOf, ownFormatter, Option.bind_some]
  by_cases hempty : a.formatter.isEmpty = true
  · simp [hempty, LogAppender.adopt]
  · by_cases herror : (LogFormatter.create a.formatter).isError = true
    · simp [hempty, herror, LogAppender.adopt]
    · simp [hempty, herror, LogAppender.adopt]

theorem defineAppender_error {m : Loggers} {name : Text} {a : LogAppenderDefine}
    (ha : kindOf a = none) : defineAppender name m a = .error .nullAppender := by
  simp only [defineAppender, ha]

/-- All appenders of a definition: new ones, attached in their order. -/
theorem defineAppenders_ok {name : Text} :
    ∀ (as : List LogAppenderDefine) {m : Loggers} {l : Logger}, m.loggers name = some l →
      (∀ a ∈ as, (kindOf a).isSome = true) →
      as.foldlM (defineAppender name) m = .ok
        { loggers := Function.update m.loggers name
            (some { l with appenders := l.appenders ++ List.range' m.heap.length as.length })
          heap := m.heap ++ as.map (appenderOf l.formatter) }
  | [], m, l, h, _ => by
      have hself : Function.update m.loggers name (some l) = m.loggers := by
        rw [← h]
        exact Function.update_eq_self name m.loggers
      simp [hself, pure, Except.pure]
  | a :: as, m, l, h, has => by
      rw [List.foldlM_cons, defineAppender_ok h (has a List.mem_cons_self)]
      have ih := defineAppenders_ok as
        (m := { loggers := Function.update m.loggers name
                  (some { l with appenders := l.appenders ++ [m.heap.length] })
                heap := m.heap ++ [appenderOf l.formatter a] })
        (Function.update_self ..) fun b hb => has b (List.mem_cons_of_mem _ hb)
      refine ih.trans ?_
      simp [List.range'_succ]

theorem defineAppenders_isOk {name : Text} :
    ∀ (as : List LogAppenderDefine) {m m' : Loggers},
      as.foldlM (defineAppender name) m = .ok m' → ∀ a ∈ as, (kindOf a).isSome = true
  | [], _, _, _ => by simp
  | a :: as, m, m', h => by
      rw [List.foldlM_cons] at h
      obtain ⟨m₁, h₁, h₂⟩ := bind_ok h
      refine List.forall_mem_cons.mpr ⟨?_, defineAppenders_isOk as h₂⟩
      rw [Option.isSome_iff_ne_none]
      intro hnone
      rw [defineAppender_error hnone] at h₁
      exact absurd h₁ (by simp)

/-! ## One definition -/

theorem lt_iff (a b : LogDefine) : LogDefine.lt a b = true ↔ a.name < b.name := by
  rw [LogDefine.lt, decide_eq_true_eq]

/-- The pointer is null exactly for a definition that is in the old set. -/
theorem loggerOf_eq (old : LogSet) (d : LogDefine) :
    loggerOf old d = if d ∈ old.defs then none else some d.name := by
  rw [loggerOf]
  by_cases hd : d ∈ old.defs
  · obtain ⟨l, r, hlr, hfind⟩ := OrderedSet.find_of_mem lt_iff old.sorted hd
    have hget : old.defs[l.length]? = some d := by simp [hlr]
    simp [hfind, hget, hd]
  · rw [if_neg hd]
    by_cases hname : ∃ e ∈ old.defs, e.name = d.name
    · obtain ⟨e, he, hname⟩ := hname
      obtain ⟨l, r, hlr, hfind⟩ := OrderedSet.find_of_key lt_iff old.sorted he hname
      have hget : old.defs[l.length]? = some e := by simp [hlr]
      have hne : d ≠ e := by
        rintro rfl
        exact hd he
      simp [hfind, hget, hne]
    · have hfind := OrderedSet.find_none lt_iff old.sorted (x := d)
        fun e he hek => hname ⟨e, he, hek⟩
      simp [hfind]

/-- The logger of a definition when its loop over the appenders begins. -/
theorem prepared (m : Loggers) (d : LogDefine) :
    ∃ formatter heap,
      (if d.formatter.isEmpty then (m.getLogger d.name).setLevel d.name d.level
        else ((m.getLogger d.name).setLevel d.name d.level).setFormatterString d.name
          d.formatter).clearAppender d.name =
        { loggers := Function.update m.loggers d.name (some ⟨d.level, [], formatter⟩), heap } ∧
      heap.length = m.heap.length ∧
      (∀ q, (∀ l, m.loggers d.name = some l → q ∉ l.appenders) → heap[q]? = m.heap[q]?) ∧
      (d.formatter ≠ [] → formatter = some (LogFormatter.create d.formatter)) := by
  have hself := getLogger_self m d.name
  by_cases hempty : d.formatter = []
  · refine ⟨((m.loggers d.name).getD .create).formatter, m.heap, ?_, rfl, fun _ _ => rfl,
      fun h => absurd hempty h⟩
    simp [hempty, setLevel, clearAppender, modify, hself, getLogger_update]
  · have hframe := foldl_modify_frame
      (LogAppender.inherit (some (LogFormatter.create d.formatter)))
      ((m.loggers d.name).getD .create).appenders m.heap
    refine ⟨some (LogFormatter.create d.formatter), _, ?_, hframe.1, fun q hq => hframe.2 q ?_,
      fun _ => rfl⟩
    · simp [hempty, setLevel, clearAppender, setFormatterString, setFormatter, modify, hself,
        getLogger_update]
    · cases hl : m.loggers d.name with
      | none => exact List.not_mem_nil
      | some l => exact hq l hl

/-- What configuring one logger does: its appenders are new, and nobody else's
are touched. -/
structure Defines (d : LogDefine) (m m' : Loggers) (l : Logger) : Prop where
  loggers : m'.loggers = Function.update m.loggers d.name (some l)
  configured : m'.Configured d l
  length : m.heap.length ≤ m'.heap.length
  fresh : ∀ p ∈ l.appenders, m.heap.length ≤ p ∧ p < m'.heap.length
  frame : ∀ q < m.heap.length, (∀ l₀, m.loggers d.name = some l₀ → q ∉ l₀.appenders) →
    m'.heap[q]? = m.heap[q]?

theorem map_getElem?_append {α : Type} (xs ys : List α) :
    (List.range' xs.length ys.length).map (fun p => (xs ++ ys)[p]?) = ys.map some := by
  refine List.ext_getElem (by simp) fun i h₁ h₂ => ?_
  simp only [List.length_map] at h₂
  simp [h₂]

theorem define_ok {old : LogSet} {d : LogDefine} (m : Loggers) (hd : d ∉ old.defs)
    (has : ∀ a ∈ d.appenders, (kindOf a).isSome = true) :
    ∃ m' l, define old m d = .ok m' ∧ Defines d m m' l := by
  obtain ⟨formatter, heap, heq, hlen, hframe, hformatter⟩ := prepared m d
  have hrun := defineAppenders_ok d.appenders
    (m := { loggers := Function.update m.loggers d.name (some ⟨d.level, [], formatter⟩), heap })
    (Function.update_self ..) has
  simp only [Function.update_idem, List.nil_append] at hrun
  let l : Logger := ⟨d.level, List.range' heap.length d.appenders.length, formatter⟩
  refine ⟨{ loggers := Function.update m.loggers d.name (some l)
            heap := heap ++ d.appenders.map (appenderOf formatter) }, l, ?_,
    ⟨rfl, ⟨Function.update_self .., rfl, fun hne _ => hformatter hne, ?_⟩, ?_, ?_, ?_⟩⟩
  · rw [define, loggerOf_eq, if_neg hd]
    dsimp only
    rw [heq]
    exact hrun
  · have hmap := map_getElem?_append heap (d.appenders.map (appenderOf formatter))
    rw [List.length_map, List.map_map] at hmap
    exact hmap
  · simp [hlen]
  · intro p hp
    rw [List.mem_range'_1, hlen] at hp
    simpa [hlen] using hp
  · intro q hq hnot
    refine Eq.trans ?_ (hframe q hnot)
    exact List.getElem?_append_left (hlen ▸ hq)

theorem define_isOk {old : LogSet} {d : LogDefine} {m m' : Loggers}
    (h : define old m d = .ok m') :
    d ∉ old.defs ∧ ∀ a ∈ d.appenders, (kindOf a).isSome = true := by
  rw [define, loggerOf_eq] at h
  by_cases hd : d ∈ old.defs
  · rw [if_pos hd] at h
    exact absurd h (by simp)
  · rw [if_neg hd] at h
    exact ⟨hd, defineAppenders_isOk _ h⟩

/-! ## The loops -/

/-- Between two definitions: the loggers of those done are configured, and share
no appender with another logger. -/
structure Progress (ds : List LogDefine) (m : Loggers) : Prop where
  valid : m.Valid
  done : ∀ d ∈ ds, ∃ l, m.Configured d l ∧
    ∀ name l', name ≠ d.name → m.loggers name = some l' → ∀ p ∈ l.appenders, p ∉ l'.appenders

theorem Progress.define {ds : List LogDefine} {d : LogDefine} {m m' : Loggers} {l : Logger}
    (h : Progress ds m) (hd : ∀ e ∈ ds, e.name ≠ d.name) (hdef : Defines d m m' l) :
    Progress (d :: ds) m' := by
  have hother : ∀ name l', name ≠ d.name → m'.loggers name = some l' →
      m.loggers name = some l' := by
    intro name l' hne hl'
    rwa [hdef.loggers, Function.update_of_ne hne] at hl'
  have hl : m'.loggers d.name = some l := by rw [hdef.loggers, Function.update_self]
  constructor
  · intro name l' hl' p hp
    by_cases hne : name = d.name
    · subst hne
      obtain rfl : l = l' := Option.some.inj (hl.symm.trans hl')
      exact (hdef.fresh p hp).2
    · exact (h.valid name l' (hother name l' hne hl') p hp).trans_le hdef.length
  · refine List.forall_mem_cons.mpr ⟨⟨l, hdef.configured, ?_⟩, ?_⟩
    · intro name l' hne hl' p hp hp'
      have hlt := h.valid name l' (hother name l' hne hl') p hp'
      exact absurd hlt (not_lt.mpr (hdef.fresh p hp).1)
    · intro e he
      obtain ⟨k, hk, hprivate⟩ := h.done e he
      have hne := hd e he
      refine ⟨k, ⟨?_, hk.level, hk.formatter, ?_⟩, ?_⟩
      · rw [hdef.loggers, Function.update_of_ne hne]
        exact hk.found
      · rw [← hk.appenders]
        refine List.map_congr_left fun p hp => ?_
        -- the appenders of `e` are not those of the logger just configured
        exact hdef.frame p (h.valid e.name k hk.found p hp)
          fun l₀ hl₀ => hprivate d.name l₀ (Ne.symm hne) hl₀ p hp
      · intro name l' hne' hl' p hp
        by_cases hname : name = d.name
        · subst hname
          obtain rfl : l = l' := Option.some.inj (hl.symm.trans hl')
          intro hp'
          exact absurd (h.valid e.name k hk.found p hp) (not_lt.mpr (hdef.fresh p hp').1)
        · exact hprivate name l' hne' (hother name l' hname hl') p hp

theorem Progress.defineAll {old : LogSet} :
    ∀ (ds : List LogDefine) {ds₀ : List LogDefine} {m : Loggers}, Progress ds₀ m →
      (∀ d ∈ ds, d ∉ old.defs ∧ ∀ a ∈ d.appenders, (kindOf a).isSome = true) →
      (ds.map LogDefine.name).Nodup → (∀ e ∈ ds₀, ∀ d ∈ ds, e.name ≠ d.name) →
      ∃ m', ds.foldlM (Loggers.define old) m = .ok m' ∧ Progress (ds.reverse ++ ds₀) m'
  | [], ds₀, m, h, _, _, _ => ⟨m, rfl, h⟩
  | d :: ds, ds₀, m, h, hds, hnodup, hnew => by
      obtain ⟨hd, hds⟩ := List.forall_mem_cons.mp hds
      rw [List.map_cons, List.nodup_cons] at hnodup
      obtain ⟨m₁, l, hrun, hdef⟩ := define_ok m hd.1 hd.2
      have h₁ := h.define (fun e he => hnew e he d List.mem_cons_self) hdef
      have hnew₁ : ∀ e ∈ d :: ds₀, ∀ d' ∈ ds, e.name ≠ d'.name := by
        refine List.forall_mem_cons.mpr ⟨fun d' hd' heq => ?_, fun e he d' hd' =>
          hnew e he d' (List.mem_cons_of_mem _ hd')⟩
        exact hnodup.1 (heq ▸ List.mem_map_of_mem hd')
      obtain ⟨m', hall, h'⟩ := Progress.defineAll ds h₁ hds hnodup.2 hnew₁
      refine ⟨m', ?_, by simpa using h'⟩
      rw [List.foldlM_cons, hrun]
      exact hall

theorem defineAll_isOk {old : LogSet} :
    ∀ (ds : List LogDefine) {m m' : Loggers}, ds.foldlM (define old) m = .ok m' →
      ∀ d ∈ ds, d ∉ old.defs ∧ ∀ a ∈ d.appenders, (kindOf a).isSome = true
  | [], _, _, _ => by simp
  | d :: ds, m, m', h => by
      rw [List.foldlM_cons] at h
      obtain ⟨m₁, h₁, h₂⟩ := bind_ok h
      exact List.forall_mem_cons.mpr ⟨define_isOk h₁, defineAll_isOk ds h₂⟩

/-- What `undefine` does: nothing to a name of the new set, else it silences. -/
theorem undefine_eq (new : LogSet) (m : Loggers) (d : LogDefine) :
    ((∃ e ∈ new.defs, e.name = d.name) ∧ undefine new m d = m) ∨
    (∀ e ∈ new.defs, e.name ≠ d.name) ∧ ∃ formatter, undefine new m d =
      { m with loggers := Function.update m.loggers d.name (some ⟨100, [], formatter⟩) } := by
  by_cases hname : ∃ e ∈ new.defs, e.name = d.name
  · obtain ⟨e, he, hek⟩ := hname
    obtain ⟨l, r, -, hfind⟩ := OrderedSet.find_of_key lt_iff new.sorted he hek
    exact .inl ⟨⟨e, he, hek⟩, by simp [undefine, hfind]⟩
  · have hnot : ∀ e ∈ new.defs, e.name ≠ d.name := fun e he hek => hname ⟨e, he, hek⟩
    have hfind := OrderedSet.find_none lt_iff new.sorted (x := d) hnot
    refine .inr ⟨hnot, ((m.loggers d.name).getD .create).formatter, ?_⟩
    simp [undefine, hfind, setLevel, clearAppender, modify, getLogger_self, getLogger_update]

theorem silenced_update (m : Loggers) (name : Text) (formatter : Option LogFormatter) :
    Silenced { m with loggers := Function.update m.loggers name (some ⟨100, [], formatter⟩) }
      name := by
  refine ⟨_, Function.update_self .., rfl, fun level hle hreach => ?_⟩
  have h100 : 100 ≤ LogLevel.FATAL := le_trans hreach hle
  exact absurd h100 (by decide)

theorem Progress.undefineAll {new : LogSet} :
    ∀ (ds : List LogDefine) {m : Loggers}, Progress new.defs.reverse m →
      Progress new.defs.reverse (ds.foldl (undefine new) m) ∧
      ∀ name, (m.Silenced name ∨ ∃ d ∈ ds, d.name = name) →
        (∀ e ∈ new.defs, e.name ≠ name) → (ds.foldl (undefine new) m).Silenced name
  | [], m, h => ⟨h, fun name hname _ => hname.resolve_right (by simp)⟩
  | d :: ds, m, h => by
      rw [List.foldl_cons]
      rcases undefine_eq new m d with ⟨⟨e, he, hek⟩, heq⟩ | ⟨hnot, formatter, heq⟩
      · rw [heq]
        obtain ⟨h', hsil⟩ := Progress.undefineAll ds h
        refine ⟨h', fun name hname hnew => hsil name ?_ hnew⟩
        rcases hname with hm | ⟨d', hd', rfl⟩
        · exact .inl hm
        · rcases List.mem_cons.mp hd' with rfl | hd'
          · exact absurd hek (hnew e he)
          · exact .inr ⟨d', hd', rfl⟩
      · rw [heq]
        have h₁ : Progress new.defs.reverse { m with
            loggers := Function.update m.loggers d.name (some ⟨100, [], formatter⟩) } := by
          constructor
          · intro name l hl p hp
            by_cases hne : name = d.name
            · subst hne
              obtain rfl : ⟨100, [], formatter⟩ = l := by simpa using hl
              exact absurd hp List.not_mem_nil
            · exact h.valid name l (by simpa [hne] using hl) p hp
          · intro e he
            have hne : e.name ≠ d.name := hnot e (List.mem_reverse.mp he)
            obtain ⟨l, hl, hprivate⟩ := h.done e he
            refine ⟨l, ⟨by simpa [hne] using hl.found, hl.level, hl.formatter, hl.appenders⟩, ?_⟩
            intro name l' hne' hl' p hp
            by_cases hname : name = d.name
            · subst hname
              obtain rfl : ⟨100, [], formatter⟩ = l' := by simpa using hl'
              exact List.not_mem_nil
            · exact hprivate name l' hne' (by simpa [hname] using hl') p hp
        obtain ⟨h', hsil⟩ := Progress.undefineAll ds h₁
        refine ⟨h', fun name hname hnew => hsil name ?_ hnew⟩
        rcases hname with ⟨l, hl, hempty, hlevel⟩ | ⟨d', hd', rfl⟩
        · by_cases hne : name = d.name
          · exact .inl (hne ▸ silenced_update m d.name formatter)
          · exact .inl ⟨l, by simpa [hne] using hl, hempty, hlevel⟩
        · rcases List.mem_cons.mp hd' with rfl | hd'
          · exact .inl (silenced_update m d'.name formatter)
          · exact .inr ⟨d', hd', rfl⟩

/-! ## The listener -/

theorem kindOf_isSome {a : LogAppenderDefine} :
    (kindOf a).isSome = true ↔ a.type = 1 ∨ a.type = 2 := by
  rw [kindOf]
  split
  · simp [*]
  · split <;> simp [*]

/-- The manager with nothing but the root logger. -/
def root : Loggers :=
  { heap := [{ kind := .stdout, level := LogLevel.DEBUG, formatter := Logger.create.formatter,
               hasFormatter := false }]
    loggers := fun name => if name = "root".toList then some { Logger.create with appenders := [0] }
      else none }

theorem root_valid : root.Valid := by
  intro name l hl p hp
  simp only [root] at hl
  split at hl
  · obtain rfl := Option.some.inj hl
    obtain rfl := List.mem_singleton.mp hp
    decide
  · exact absurd hl (by simp)

/-- Two definitions, and the second with another level. -/
def reload : LogSet × LogSet :=
  let a : LogDefine := ⟨"a".toList, 1, [], [⟨2, 1, [], []⟩]⟩
  let b (level : LogLevel) : LogDefine := ⟨"b".toList, level, [], []⟩
  (⟨[a, b 1], by simp [OrderedSet.SortedBy, a, b]; decide⟩,
    ⟨[a, b 3], by simp [OrderedSet.SortedBy, a, b]; decide⟩)

end Loggers

end CoLib.Log
