/-
# `CoLib.Log.Inherit` — which formatter an appender has

An appender without a formatter of its own (`m_hasFormatter` false) is to have
that of the logger it is attached to.  The formatter is copied: by `addAppender`,
where the appender has none, and by `Logger::setFormatter`, to the appenders
attached at the time.  Nothing takes it back, and `LogAppender::setFormatter`
does not know the logger.

**Proved here.**
* `setFormatterString_iff`: what a pattern set on a logger leaves, and where it
  is right;
* `formatters_inherited`: in every run in which no attached appender has its
  formatter set to null, and none comes to a logger with the formatter of another,
  every attached appender has a formatter, its logger's or its own.
-/
import CoLib.Log.Output
import CoLib.Lib.Run

namespace CoLib.Log

open Config (Text)
open Lib (Reach)

namespace LogAppender

/-- The appender has a formatter: the logger's, where it has none of its own. -/
structure Follows (formatter : Option LogFormatter) (a : LogAppender) : Prop where
  isSome : a.formatter.isSome = true
  inherited : a.hasFormatter = false → a.formatter = formatter

@[simp] theorem inherit_hasFormatter (val : Option LogFormatter) (a : LogAppender) :
    (a.inherit val).hasFormatter = a.hasFormatter := by
  rw [inherit]
  split <;> rfl

@[simp] theorem adopt_hasFormatter (val : Option LogFormatter) (a : LogAppender) :
    (a.adopt val).hasFormatter = a.hasFormatter := by
  rw [adopt]
  split <;> rfl

theorem inherit_inherit (val : Option LogFormatter) (a : LogAppender) :
    (a.inherit val).inherit val = a.inherit val := by
  by_cases h : a.hasFormatter = true
  · rw [inherit, if_pos (by rwa [inherit_hasFormatter])]
  · rw [inherit, if_neg (by rwa [inherit_hasFormatter]), inherit, if_neg h]

theorem inherit_formatter (val : Option LogFormatter) (a : LogAppender) :
    (a.inherit val).formatter = if a.hasFormatter then a.formatter else val := by
  rw [inherit]
  split <;> rfl

theorem adopt_formatter (val : Option LogFormatter) (a : LogAppender) :
    (a.adopt val).formatter = if a.formatter.isSome then a.formatter else val := by
  rw [adopt]
  split <;> rfl

end LogAppender

namespace Loggers

/-! ## Setting the formatter of a logger -/

/-- `logger->delAppender(appender)`. -/
def delAppender (m : Loggers) (name : Text) (p : AppenderPtr) : Loggers :=
  m.modify name fun l => { l with appenders := l.appenders.erase p }

/-- What a loop over the appenders does to one of them. -/
theorem foldl_modify_self {f : LogAppender → LogAppender} (hf : ∀ a, f (f a) = f a) :
    ∀ (ps : List AppenderPtr) (heap : List LogAppender) (q : AppenderPtr), q ∈ ps →
      (ps.foldl (fun heap p => heap.modify p f) heap)[q]? = heap[q]?.map f
  | p :: ps, heap, q, hq => by
      rw [List.foldl_cons]
      by_cases hqs : q ∈ ps
      · rw [foldl_modify_self hf ps _ q hqs, List.getElem?_modify]
        cases heap[q]? with
        | none => rfl
        | some a =>
            split
            · exact congrArg some (hf a)
            · rfl
      · rcases List.mem_cons.mp hq with rfl | hq
        · rw [(foldl_modify_frame f ps _).2 q hqs, List.getElem?_modify_eq]
          rfl
        · exact absurd hq hqs

/-- A logger's formatter and those of its appenders, after `setFormatter`. -/
theorem setFormatter_spec {m : Loggers} {name : Text} {l : Logger} (val : Option LogFormatter)
    (hl : m.loggers name = some l) :
    (m.setFormatter name val).loggers =
      Function.update m.loggers name (some { l with formatter := val }) ∧
    (∀ p ∈ l.appenders,
      (m.setFormatter name val).heap[p]? = m.heap[p]?.map (LogAppender.inherit val)) ∧
    ∀ p, p ∉ l.appenders → (m.setFormatter name val).heap[p]? = m.heap[p]? := by
  have heap : (m.setFormatter name val).heap =
      l.appenders.foldl (fun heap p => heap.modify p (LogAppender.inherit val)) m.heap := by
    rw [setFormatter, hl]
    rfl
  refine ⟨by rw [setFormatter, modify, hl]; rfl, ?_, ?_⟩
  · intro p hp
    rw [heap]
    exact foldl_modify_self (LogAppender.inherit_inherit val) l.appenders m.heap p hp
  · intro p hp
    rw [heap]
    exact (foldl_modify_frame _ l.appenders m.heap).2 p hp

/-- The formatters are left alone: the logger's and those of its appenders. -/
def SameFormatters (m m' : Loggers) (name : Text) (l : Logger) : Prop :=
  (∃ l', m'.loggers name = some l' ∧ l'.formatter = l.formatter) ∧
  ∀ p ∈ l.appenders,
    m'.heap[p]?.map LogAppender.formatter = m.heap[p]?.map LogAppender.formatter

/-- The formatter is replaced: the logger's, and those of the appenders that have
none of their own, and nobody else's. -/
def NewFormatter (m m' : Loggers) (name : Text) (l : Logger) (val : LogFormatter) : Prop :=
  m'.loggers = Function.update m.loggers name (some { l with formatter := some val }) ∧
  (∀ p ∈ l.appenders, ∀ a, m.heap[p]? = some a →
    m'.heap[p]? = some (if a.hasFormatter then a else { a with formatter := some val })) ∧
  ∀ p, p ∉ l.appenders → m'.heap[p]? = m.heap[p]?

/-- What `setFormatter(pattern)` is to do. -/
def SetsFormatter (m : Loggers) (name : Text) (l : Logger) (val : Text) : Prop :=
  ((LogFormatter.create val).isError = true →
    SameFormatters m (m.setFormatterString name val) name l) ∧
  ((LogFormatter.create val).isError = false →
    NewFormatter m (m.setFormatterString name val) name l (LogFormatter.create val))

/-- The formatter of the pattern is what the logger and the appenders without one of
their own have already. -/
def HasFormatter (m : Loggers) (l : Logger) (val : Text) : Prop :=
  l.formatter = some (LogFormatter.create val) ∧
  ∀ p ∈ l.appenders, ∀ a, m.heap[p]? = some a → a.hasFormatter = false →
    a.formatter = some (LogFormatter.create val)

theorem setFormatter_new {m : Loggers} {name : Text} {l : Logger}
    (hl : m.loggers name = some l) (val : LogFormatter) :
    NewFormatter m (m.setFormatter name (some val)) name l val := by
  obtain ⟨hloggers, hattached, hother⟩ := setFormatter_spec (some val) hl
  refine ⟨hloggers, ?_, hother⟩
  intro p hp a ha
  rw [hattached p hp, ha]
  rfl

/-- After `setFormatter` the formatters are those before exactly if they were the new
one already. -/
theorem setFormatter_same_iff {m : Loggers} {name : Text} {l : Logger}
    (hl : m.loggers name = some l) (val : Text) :
    SameFormatters m (m.setFormatterString name val) name l ↔ HasFormatter m l val := by
  obtain ⟨hloggers, hattached, _⟩ := setFormatter_spec (some (LogFormatter.create val)) hl
  rw [setFormatterString]
  constructor
  · rintro ⟨⟨l', hl', hf⟩, hheap⟩
    rw [hloggers, Function.update_self] at hl'
    obtain rfl := Option.some.inj hl'
    refine ⟨hf.symm, ?_⟩
    intro p hp a ha hown
    have hsame := hheap p hp
    rw [hattached p hp, ha] at hsame
    have hformatter := Option.some.inj hsame
    rw [LogAppender.inherit_formatter, hown] at hformatter
    exact hformatter.symm
  · rintro ⟨hf, hheap⟩
    refine ⟨⟨_, by rw [hloggers, Function.update_self], hf.symm⟩, ?_⟩
    intro p hp
    rw [hattached p hp]
    cases ha : m.heap[p]? with
    | none => rfl
    | some a =>
        refine congrArg some ?_
        rw [LogAppender.inherit_formatter]
        split
        · rfl
        · rename_i hown
          exact (hheap p hp a ha (by simpa using hown)).symm

/-- `setFormatter(pattern)` is right on the patterns without an error; with an error
it is where it has nothing to change. -/
theorem setFormatterString_iff (m : Loggers) (name : Text) (l : Logger) (val : Text)
    (hl : m.loggers name = some l) :
    SetsFormatter m name l val ↔
      (LogFormatter.create val).isError = false ∨ HasFormatter m l val := by
  constructor
  · rintro ⟨hsame, _⟩
    cases herr : (LogFormatter.create val).isError with
    | false => exact .inl rfl
    | true => exact .inr ((setFormatter_same_iff hl val).mp (hsame herr))
  · intro h
    refine ⟨?_, ?_⟩
    · intro herr
      rcases h with h | h
      · rw [herr] at h
        cases h
      · exact (setFormatter_same_iff hl val).mpr h
    · intro _
      exact setFormatter_new hl _

/-- A logger with one appender. -/
def logging : Loggers :=
  { heap := [{ kind := .stdout, level := LogLevel.DEBUG, formatter := Logger.create.formatter
               hasFormatter := false }]
    loggers := Function.update (fun _ => none) "a".toList
      (some { Logger.create with appenders := [0] }) }

theorem setFormatterString_iff_message :
    SetsFormatter logging "a".toList { Logger.create with appenders := [0] } "%m%n".toList :=
  (setFormatterString_iff logging "a".toList { Logger.create with appenders := [0] }
    "%m%n".toList rfl).mpr (.inl (by decide))

/-- A pattern with an error, which is set. -/
theorem setFormatterString_unknown :
    (LogFormatter.create "%q".toList).isError = true ∧
      ¬ SetsFormatter logging "a".toList { Logger.create with appenders := [0] } "%q".toList := by
  refine ⟨by decide, ?_⟩
  intro h
  have hl : logging.loggers "a".toList = some { Logger.create with appenders := [0] } := rfl
  have hhas := (setFormatter_same_iff hl "%q".toList).mp (h.1 (by decide))
  exact absurd hhas.1 (by decide)

/-! ## Runs -/

/-- The calls that have to do with formatters; `getLogger` and `newAppender` make the
loggers and appenders there are. -/
inductive FormatterCall where
  | getLogger (name : Text)
  | newAppender (kind : AppenderKind)
  | addAppender (name : Text) (p : AppenderPtr)
  | delAppender (name : Text) (p : AppenderPtr)
  | clearAppender (name : Text)
  | setFormatter (name : Text) (val : LogFormatter)
  | appenderSetFormatter (p : AppenderPtr) (val : Option LogFormatter)

def exec (m : Loggers) : FormatterCall → Loggers
  | .getLogger name => m.getLogger name
  | .newAppender kind => (m.newAppender kind).1
  | .addAppender name p => m.addAppender name p
  | .delAppender name p => m.delAppender name p
  | .clearAppender name => m.clearAppender name
  | .setFormatter name val => m.setFormatter name (some val)
  | .appenderSetFormatter p val => m.appenderSetFormatter p val

def callStep (m : Loggers) (c : FormatterCall) : Option Loggers := some (m.exec c)

/-- Nothing is there. -/
def empty : Loggers := { heap := [], loggers := fun _ => none }

/-- The appender is attached to the logger. -/
def Attached (m : Loggers) (name : Text) (p : AppenderPtr) : Prop :=
  ∃ l, m.loggers name = some l ∧ p ∈ l.appenders

/-- An appender that is added is there, and attached to no other logger. -/
def Allowed (m : Loggers) : FormatterCall → Prop
  | .addAppender name p =>
      (m.loggers name).isSome = true ∧ p < m.heap.length ∧
        ∀ other, m.Attached other p → other = name
  | _ => True

/-- No attached appender has its formatter set to null, and an appender without a
formatter of its own comes to a logger with none at all or with the logger's. -/
def Proper (m : Loggers) : FormatterCall → Prop
  | .addAppender name p =>
      ∀ l a, m.loggers name = some l → m.heap[p]? = some a → a.hasFormatter = false →
        a.formatter = none ∨ a.formatter = l.formatter
  | .appenderSetFormatter p none => ∀ name, ¬ m.Attached name p
  | _ => True

/-- Every attached appender has a formatter, its logger's or its own. -/
def Inherited (m : Loggers) : Prop :=
  ∀ name l, m.loggers name = some l → ∀ p ∈ l.appenders,
    ∃ a, m.heap[p]? = some a ∧ a.Follows l.formatter

/-- What every proper run keeps. -/
structure Kept (m : Loggers) : Prop where
  inherited : m.Inherited
  logger : ∀ name l, m.loggers name = some l → l.formatter.isSome = true
  own : ∀ (p : AppenderPtr) (a : LogAppender), m.heap[p]? = some a →
    a.hasFormatter = true → a.formatter.isSome = true
  one : ∀ name other p, m.Attached name p → m.Attached other p → name = other

theorem kept_empty : Kept empty :=
  ⟨nofun, nofun, nofun, nofun⟩

/-- Loggers that lose appenders, and new loggers. -/
theorem Kept.shrink {m m' : Loggers} (h : m.Kept) (hheap : m'.heap = m.heap)
    (hloggers : ∀ name l', m'.loggers name = some l' →
      (∃ l, m.loggers name = some l ∧ l'.formatter = l.formatter ∧
        ∀ p ∈ l'.appenders, p ∈ l.appenders) ∨
      l'.formatter.isSome = true ∧ l'.appenders = []) : m'.Kept := by
  have hattached : ∀ name p, m'.Attached name p → m.Attached name p := by
    rintro name p ⟨l', hl', hp⟩
    rcases hloggers name l' hl' with ⟨l, hl, _, hsub⟩ | ⟨_, hnil⟩
    · exact ⟨l, hl, hsub p hp⟩
    · rw [hnil] at hp
      exact absurd hp List.not_mem_nil
  refine ⟨?_, ?_, ?_, ?_⟩
  · intro name l' hl' p hp
    rcases hloggers name l' hl' with ⟨l, hl, hformatter, hsub⟩ | ⟨_, hnil⟩
    · rw [hheap, hformatter]
      exact h.inherited name l hl p (hsub p hp)
    · rw [hnil] at hp
      exact absurd hp List.not_mem_nil
  · intro name l' hl'
    rcases hloggers name l' hl' with ⟨l, hl, hformatter, _⟩ | ⟨hsome, _⟩
    · rw [hformatter]
      exact h.logger name l hl
    · exact hsome
  · rw [hheap]
    exact h.own
  · intro name other p hname hother
    exact h.one name other p (hattached name p hname) (hattached other p hother)

theorem modify_self (m : Loggers) (name : Text) (f : Logger → Logger) :
    (m.modify name f).loggers name = (m.loggers name).map f := Function.update_self ..

theorem modify_of_ne (m : Loggers) {name other : Text} (f : Logger → Logger)
    (hn : other ≠ name) : (m.modify name f).loggers other = m.loggers other :=
  Function.update_of_ne hn ..

theorem modify_some {m : Loggers} {name other : Text} {f : Logger → Logger} {l' : Logger}
    (h : (m.modify name f).loggers other = some l') :
    ∃ l, m.loggers other = some l ∧ l' = if other = name then f l else l := by
  by_cases hn : other = name
  · subst hn
    rw [modify_self] at h
    obtain ⟨l, hl, hfl⟩ := Option.map_eq_some_iff.mp h
    exact ⟨l, hl, by rw [if_pos rfl, hfl]⟩
  · rw [modify_of_ne m f hn] at h
    exact ⟨l', h, by rw [if_neg hn]⟩

theorem Kept.getLogger {m : Loggers} (h : m.Kept) (name : Text) : (m.getLogger name).Kept := by
  refine h.shrink (getLogger_heap m name) ?_
  intro other l' hl'
  cases hm : m.loggers name with
  | some l =>
      rw [Loggers.getLogger, hm] at hl'
      exact .inl ⟨l', hl', rfl, fun _ hp => hp⟩
  | none =>
      rw [Loggers.getLogger, hm] at hl'
      by_cases hn : other = name
      · subst hn
        have hcreate := (Function.update_self ..).symm.trans hl'
        obtain rfl := Option.some.inj hcreate
        exact .inr ⟨rfl, rfl⟩
      · have hl' := (Function.update_of_ne hn ..).symm.trans hl'
        exact .inl ⟨l', hl', rfl, fun _ hp => hp⟩

theorem Kept.delAppender {m : Loggers} (h : m.Kept) (name : Text) (p : AppenderPtr) :
    (m.delAppender name p).Kept := by
  refine h.shrink rfl ?_
  intro other l' hl'
  obtain ⟨l, hl, rfl⟩ := modify_some hl'
  split
  · exact .inl ⟨l, hl, rfl, fun _ hq => List.mem_of_mem_erase hq⟩
  · exact .inl ⟨l, hl, rfl, fun _ hq => hq⟩

theorem Kept.clearAppender {m : Loggers} (h : m.Kept) (name : Text) :
    (m.clearAppender name).Kept := by
  refine h.shrink rfl ?_
  intro other l' hl'
  obtain ⟨l, hl, rfl⟩ := modify_some hl'
  split
  · exact .inl ⟨l, hl, rfl, fun _ hq => absurd hq List.not_mem_nil⟩
  · exact .inl ⟨l, hl, rfl, fun _ hq => hq⟩

theorem Kept.newAppender {m : Loggers} (h : m.Kept) (kind : AppenderKind) :
    (m.newAppender kind).1.Kept := by
  have hold : ∀ (p : AppenderPtr) (a : LogAppender), m.heap[p]? = some a →
      (m.newAppender kind).1.heap[p]? = some a := by
    intro p a ha
    obtain ⟨hp, _⟩ := List.getElem?_eq_some_iff.mp ha
    rw [Loggers.newAppender, List.getElem?_append_left hp, ha]
  refine ⟨?_, h.logger, ?_, h.one⟩
  · intro name l hl p hp
    obtain ⟨a, ha, hfollows⟩ := h.inherited name l hl p hp
    exact ⟨a, hold p a ha, hfollows⟩
  · intro p a ha hown
    rw [Loggers.newAppender] at ha
    rcases Nat.lt_or_ge p m.heap.length with hlt | hge
    · rw [List.getElem?_append_left hlt] at ha
      exact h.own p a ha hown
    · rw [List.getElem?_append_right hge] at ha
      rw [List.getElem?_singleton] at ha
      split at ha
      · obtain rfl := Option.some.inj ha
        cases hown
      · cases ha

theorem Kept.setFormatter {m : Loggers} (h : m.Kept) (name : Text) (val : LogFormatter) :
    (m.setFormatter name (some val)).Kept := by
  cases hl : m.loggers name with
  | none =>
      -- nobody to set it on
      refine h.shrink (by rw [Loggers.setFormatter, hl]; rfl) ?_
      intro other l' hl'
      obtain ⟨l, hl₁, rfl⟩ := modify_some hl'
      split
      · rename_i hn
        rw [hn, hl] at hl₁
        cases hl₁
      · exact .inl ⟨l, hl₁, rfl, fun _ hp => hp⟩
  | some l =>
      obtain ⟨hloggers, hattached, hother⟩ := setFormatter_spec (some val) hl
      have hwas : ∀ other l', (m.setFormatter name (some val)).loggers other = some l' →
          (other = name ∧ l' = { l with formatter := some val }) ∨
            (other ≠ name ∧ m.loggers other = some l') := by
        intro other l' hl'
        rw [hloggers] at hl'
        by_cases hn : other = name
        · subst hn
          rw [Function.update_self] at hl'
          exact .inl ⟨rfl, (Option.some.inj hl').symm⟩
        · rw [Function.update_of_ne hn] at hl'
          exact .inr ⟨hn, hl'⟩
      have hatt : ∀ other p, (m.setFormatter name (some val)).Attached other p →
          m.Attached other p := by
        rintro other p ⟨l', hl', hp⟩
        rcases hwas other l' hl' with ⟨rfl, rfl⟩ | ⟨_, hm⟩
        · exact ⟨l, hl, hp⟩
        · exact ⟨l', hm, hp⟩
      refine ⟨?_, ?_, ?_, ?_⟩
      · intro other l' hl' p hp
        rcases hwas other l' hl' with ⟨rfl, rfl⟩ | ⟨hn, hm⟩
        · obtain ⟨a, ha, hfollows⟩ := h.inherited other l hl p hp
          refine ⟨a.inherit (some val), by rw [hattached p hp, ha]; rfl, ?_, ?_⟩
          · rw [LogAppender.inherit_formatter]
            split
            · exact hfollows.isSome
            · rfl
          · intro hown
            rw [LogAppender.inherit_hasFormatter] at hown
            rw [LogAppender.inherit_formatter, hown]
            rfl
        · -- an appender of another logger is none of this one's
          have hnot : p ∉ l.appenders := fun hpl =>
            hn (h.one other name p ⟨l', hm, hp⟩ ⟨l, hl, hpl⟩)
          rw [hother p hnot]
          exact h.inherited other l' hm p hp
      · intro other l' hl'
        rcases hwas other l' hl' with ⟨_, rfl⟩ | ⟨_, hm⟩
        · rfl
        · exact h.logger other l' hm
      · intro p a ha hown
        by_cases hp : p ∈ l.appenders
        · rw [hattached p hp] at ha
          obtain ⟨b, hb, rfl⟩ := Option.map_eq_some_iff.mp ha
          rw [LogAppender.inherit_hasFormatter] at hown
          rw [LogAppender.inherit_formatter, if_pos hown]
          exact h.own p b hb hown
        · rw [hother p hp] at ha
          exact h.own p a ha hown
      · intro n o p hn ho
        exact h.one n o p (hatt n p hn) (hatt o p ho)

/-- A change of one appender, which leaves it a follower wherever it is attached. -/
theorem Kept.modifyHeap {m : Loggers} (h : m.Kept) (p : AppenderPtr)
    (f : LogAppender → LogAppender)
    (hfollows : ∀ name l a, m.loggers name = some l → p ∈ l.appenders →
      m.heap[p]? = some a → (f a).Follows l.formatter)
    (hown : ∀ a, m.heap[p]? = some a → (f a).hasFormatter = true →
      (f a).formatter.isSome = true) :
    Kept { m with heap := m.heap.modify p f } := by
  have hself : ∀ q : AppenderPtr, (m.heap.modify p f)[q]? =
      if p = q then m.heap[q]?.map f else m.heap[q]? := by
    intro q
    rw [List.getElem?_modify]
    cases m.heap[q]? with
    | none => exact (ite_self none).symm
    | some a =>
        split
        · rfl
        · rfl
  refine ⟨?_, h.logger, ?_, h.one⟩
  · intro name l hl q hq
    obtain ⟨a, ha, hold⟩ := h.inherited name l hl q hq
    rw [hself]
    split
    · rename_i hpq
      subst hpq
      exact ⟨f a, by rw [ha]; rfl, hfollows name l a hl hq ha⟩
    · exact ⟨a, ha, hold⟩
  · intro q b hb hb'
    rw [hself] at hb
    split at hb
    · rename_i hpq
      subst hpq
      obtain ⟨a, ha, rfl⟩ := Option.map_eq_some_iff.mp hb
      exact hown a ha hb'
    · exact h.own q b hb hb'

theorem Kept.appenderSetFormatter {m : Loggers} (h : m.Kept) (p : AppenderPtr)
    (val : Option LogFormatter) (hval : val = none → ∀ name, ¬ m.Attached name p) :
    (m.appenderSetFormatter p val).Kept := by
  refine h.modifyHeap p _ ?_ ?_
  · intro name l a hl hp _
    cases val with
    | none => exact absurd ⟨l, hl, hp⟩ (hval rfl name)
    | some f => exact ⟨rfl, nofun⟩
  · intro a _ hown
    exact hown

/-- The appender that `addAppender` adds, before it is in the list. -/
theorem Kept.addAppender {m : Loggers} (h : m.Kept) {name : Text} {p : AppenderPtr}
    (hallowed : m.Allowed (.addAppender name p)) (hproper : m.Proper (.addAppender name p)) :
    (m.addAppender name p).Kept := by
  obtain ⟨hsome, hlt, hone⟩ := hallowed
  obtain ⟨l, hl⟩ := Option.isSome_iff_exists.mp hsome
  obtain ⟨f, hf⟩ := Option.isSome_iff_exists.mp (h.logger name l hl)
  have hformatter : (m.loggers name).bind Logger.formatter = l.formatter := by rw [hl]; rfl
  -- the appender follows the logger it comes to
  have hadopt : ∀ a, m.heap[p]? = some a → (a.adopt l.formatter).Follows l.formatter := by
    intro a ha
    refine ⟨?_, ?_⟩
    · rw [LogAppender.adopt_formatter]
      split
      · assumption
      · rw [hf]
        rfl
    · intro hown
      rw [LogAppender.adopt_hasFormatter] at hown
      rw [LogAppender.adopt_formatter]
      rcases hproper l a hl ha hown with hnone | hsame
      · rw [hnone]
        rfl
      · rw [hsame]
        exact ite_self _
  have hmid : Kept { m with heap := m.heap.modify p (LogAppender.adopt l.formatter) } := by
    refine h.modifyHeap p _ ?_ ?_
    · intro other l' a hl' hp ha
      obtain rfl := hone other ⟨l', hl', hp⟩
      rw [hl] at hl'
      obtain rfl := Option.some.inj hl'
      exact hadopt a ha
    · intro a ha _
      exact (hadopt a ha).isSome
  have hwas : ∀ other l', (m.addAppender name p).loggers other = some l' →
      (other = name ∧ l' = { l with appenders := l.appenders ++ [p] }) ∨
        (other ≠ name ∧ m.loggers other = some l') := by
    intro other l' hl'
    obtain ⟨l₁, hl₁, rfl⟩ := modify_some hl'
    split
    · rename_i hn
      rw [hn, hl] at hl₁
      exact .inl ⟨hn, by rw [Option.some.inj hl₁]⟩
    · exact .inr ⟨by assumption, hl₁⟩
  have hatt : ∀ other q, (m.addAppender name p).Attached other q →
      m.Attached other q ∨ other = name ∧ q = p := by
    rintro other q ⟨l', hl', hq⟩
    rcases hwas other l' hl' with ⟨rfl, rfl⟩ | ⟨_, hm⟩
    · rcases List.mem_append.mp hq with hq | hq
      · exact .inl ⟨l, hl, hq⟩
      · exact .inr ⟨rfl, List.mem_singleton.mp hq⟩
    · exact .inl ⟨l', hm, hq⟩
  have hheap : (m.addAppender name p).heap =
      m.heap.modify p (LogAppender.adopt l.formatter) := by
    rw [Loggers.addAppender, hformatter]
  refine ⟨?_, ?_, by rw [hheap]; exact hmid.own, ?_⟩
  · intro other l' hl' q hq
    rw [hheap]
    rcases hwas other l' hl' with ⟨rfl, rfl⟩ | ⟨_, hm⟩
    · rcases List.mem_append.mp hq with hq | hq
      · exact hmid.inherited other l hl q hq
      · obtain rfl := List.mem_singleton.mp hq
        have ha := List.getElem?_eq_getElem hlt
        exact ⟨_, by rw [List.getElem?_modify_eq, ha]; rfl, hadopt _ ha⟩
    · exact hmid.inherited other l' hm q hq
  · intro other l' hl'
    rcases hwas other l' hl' with ⟨_, rfl⟩ | ⟨_, hm⟩
    · exact h.logger name l hl
    · exact h.logger other l' hm
  · intro n o q hn ho
    rcases hatt n q hn with hn | ⟨hn, hq⟩
    · rcases hatt o q ho with ho | ⟨ho, hq⟩
      · exact h.one n o q hn ho
      · rw [hq] at hn
        rw [ho]
        exact hone n hn
    · rcases hatt o q ho with ho | ⟨ho, _⟩
      · rw [hq] at ho
        rw [hn]
        exact (hone o ho).symm
      · rw [hn, ho]

/-- A proper call keeps it. -/
theorem Kept.exec {m : Loggers} (h : m.Kept) {c : FormatterCall} (hallowed : m.Allowed c)
    (hproper : m.Proper c) : (m.exec c).Kept := by
  cases c with
  | getLogger name => exact h.getLogger name
  | newAppender kind => exact h.newAppender kind
  | addAppender name p => exact h.addAppender hallowed hproper
  | delAppender name p => exact h.delAppender name p
  | clearAppender name => exact h.clearAppender name
  | setFormatter name val => exact h.setFormatter name val
  | appenderSetFormatter p val =>
      refine h.appenderSetFormatter p val ?_
      rintro rfl
      exact hproper

/-- A call that is not proper is where it fails. -/
theorem Kept.proper_of_inherited {m : Loggers} (h : m.Kept) {c : FormatterCall}
    (hallowed : m.Allowed c) (hinherited : (m.exec c).Inherited) : m.Proper c := by
  cases c with
  | addAppender name p =>
      obtain ⟨_, hlt, _⟩ := hallowed
      intro l a hl ha hown
      by_contra hnot
      rw [not_or] at hnot
      have hl' : (m.addAppender name p).loggers name =
          some { l with appenders := l.appenders ++ [p] } := by
        rw [Loggers.addAppender, modify_self, hl]
        rfl
      obtain ⟨b, hb, hfollows⟩ := hinherited name _ hl' p (List.mem_append_right _ (by simp))
      have hb' : (m.addAppender name p).heap[p]? = some (a.adopt l.formatter) := by
        rw [Loggers.addAppender, hl]
        exact (List.getElem?_modify_eq ..).trans (by rw [ha]; rfl)
      obtain rfl := Option.some.inj (hb'.symm.trans hb)
      have hsame := hfollows.inherited (by rwa [LogAppender.adopt_hasFormatter])
      rw [LogAppender.adopt_formatter, if_pos (Option.isSome_iff_ne_none.mpr hnot.1)] at hsame
      exact hnot.2 hsame
  | appenderSetFormatter p val =>
      cases val with
      | some f => trivial
      | none =>
          rintro name ⟨l, hl, hp⟩
          obtain ⟨b, hb, hfollows⟩ := hinherited name l hl p hp
          obtain ⟨a, ha, _⟩ := h.inherited name l hl p hp
          have hb' : (m.appenderSetFormatter p none).heap[p]? =
              some { a with formatter := none, hasFormatter := false } :=
            (List.getElem?_modify_eq ..).trans (by rw [ha]; rfl)
          obtain rfl := Option.some.inj (hb'.symm.trans hb)
          exact absurd hfollows.isSome Bool.false_ne_true
  | _ => trivial

/-- Where every attached appender has a formatter, `log` meets no null pointer. -/
theorem Inherited.log_isSome {m : Loggers} (h : m.Inherited) (strftime : Text → Nat → Text)
    {name : Text} (hname : (m.loggers name).isSome = true) (level : LogLevel)
    (event : LogEvent) : (m.log strftime name level event).isSome = true := by
  have happenders : ∀ other l, m.loggers other = some l →
      (m.logAppenders strftime level event l.appenders).isSome = true := by
    intro other l hl
    refine logAppenders_isSome strftime m level event l.appenders ?_
    intro p hp
    obtain ⟨a, ha, hfollows⟩ := h other l hl p hp
    exact ⟨a, ha, hfollows.isSome⟩
  obtain ⟨l, hl⟩ := Option.isSome_iff_exists.mp hname
  rw [log, hl]
  dsimp only
  split
  · split
    · exact happenders name l hl
    · split
      · split
        · rfl
        · rename_i root hroot
          split
          · exact happenders rootName root hroot
          · rfl
      · rfl
  · rfl

theorem kept_of_reach {m : Loggers}
    (h : Reach callStep (fun m c => m.Allowed c ∧ m.Proper c) empty m) : m.Kept := by
  refine h.invariant kept_empty ?_
  intro s c s' hs hc hstep
  obtain rfl := Option.some.inj hstep
  exact hs.exec hc.1 hc.2

/-- In every proper run every attached appender has a formatter, its logger's or its
own, and no logger meets a null pointer; the next call keeps that exactly if it is
proper. -/
theorem formatters_inherited {m : Loggers}
    (h : Reach callStep (fun m c => m.Allowed c ∧ m.Proper c) empty m) :
    m.Inherited ∧
      (∀ strftime name level event, (m.loggers name).isSome = true →
        (m.log strftime name level event).isSome = true) ∧
      ∀ c, m.Allowed c → ((m.exec c).Inherited ↔ m.Proper c) := by
  have hkept := kept_of_reach h
  refine ⟨hkept.inherited, ?_, ?_⟩
  · intro strftime name level event hname
    exact hkept.inherited.log_isSome strftime hname level event
  · intro c hc
    exact ⟨hkept.proper_of_inherited hc, fun hproper => (hkept.exec hc hproper).inherited⟩

/-- A logger gets its first appender. -/
def attached : Loggers :=
  (((empty.getLogger "a".toList).newAppender .stdout).1).addAppender "a".toList 0

theorem reach_attached :
    Reach callStep (fun m c => m.Allowed c ∧ m.Proper c) empty attached := by
  have hnone : ∀ other : Text, ¬ ((empty.getLogger "a".toList).newAppender .stdout).1.Attached
      other 0 := by
    rintro other ⟨l, hl, hp⟩
    by_cases hn : other = "a".toList
    · subst hn
      have hcreate : some Logger.create = some l := hl
      obtain rfl := Option.some.inj hcreate
      exact absurd hp List.not_mem_nil
    · have hnew : ((empty.getLogger "a".toList).newAppender .stdout).1.loggers other = none :=
        Function.update_of_ne hn _ _
      rw [hnew] at hl
      cases hl
  refine .tail (.tail (.tail .refl (a := .getLogger "a".toList) ⟨trivial, trivial⟩ rfl)
    (a := .newAppender .stdout) ⟨trivial, trivial⟩ rfl)
    (a := .addAppender "a".toList 0) ⟨⟨rfl, by decide, ?_⟩, ?_⟩ rfl
  · intro other h
    exact absurd h (hnone other)
  · intro l a _ ha _
    obtain rfl := Option.some.inj ha
    exact .inl rfl

theorem formatters_inherited_attached : attached.Inherited :=
  (formatters_inherited reach_attached).1

/-- The formatter of an attached appender is set to null: the logger's next message
meets the null pointer. -/
theorem not_inherited_null :
    ∃ m, Reach callStep Allowed empty m ∧ ¬ m.Inherited ∧
      ∀ strftime event, m.log strftime "a".toList LogLevel.INFO event = none := by
  refine ⟨attached.appenderSetFormatter 0 none,
    .tail (reach_attached.mono fun _ _ h => h.1) (a := .appenderSetFormatter 0 none) trivial rfl,
    ?_, ?_⟩
  · intro h
    obtain ⟨a, ha, hfollows⟩ := h "a".toList _ rfl 0 (by decide)
    obtain rfl := Option.some.inj ha
    exact absurd hfollows.isSome (by decide)
  · intro strftime event
    rfl

/-- An appender comes back to its logger after the logger's formatter was changed: it
keeps the old one. -/
theorem not_inherited_again :
    ∃ m, Reach callStep Allowed empty m ∧ ¬ m.Inherited := by
  have hreach : Reach callStep Allowed empty attached := reach_attached.mono fun _ _ h => h.1
  refine ⟨((attached.delAppender "a".toList 0).setFormatter "a".toList
    (some (LogFormatter.create "%m".toList))).addAppender "a".toList 0,
    .tail (.tail (.tail hreach (a := .delAppender "a".toList 0) trivial rfl)
      (a := .setFormatter "a".toList (LogFormatter.create "%m".toList)) trivial rfl)
      (a := .addAppender "a".toList 0) ⟨rfl, by decide, ?_⟩ rfl, ?_⟩
  · rintro other ⟨l, hl, hp⟩
    by_contra hn
    have hnone : ((attached.delAppender "a".toList 0).setFormatter "a".toList
        (some (LogFormatter.create "%m".toList))).loggers other = none := by
      rw [Loggers.setFormatter, modify_of_ne _ _ hn, Loggers.delAppender, modify_of_ne _ _ hn,
        attached, Loggers.addAppender, modify_of_ne _ _ hn]
      exact Function.update_of_ne hn _ _
    cases hnone.symm.trans hl
  · intro h
    obtain ⟨a, ha, hfollows⟩ := h "a".toList _ rfl 0 (by decide)
    obtain rfl := Option.some.inj ha
    exact absurd (hfollows.inherited rfl) (by decide)

end Loggers

end CoLib.Log
