/-
# `CoLib.Timer.Consistent` — what keeps `m_timers` consistent

`Consistent m out L` says of a manager in the middle of an operation that the
set is sorted by the current keys of its members, that a timer has a callback
exactly when it is in the set or among the timers `out` which the operation has
taken out and not yet put back, and that no two of the timers `L` in use share
an address.  Every operation of `timer.cc` is a composition of five moves, each
of which has a lemma here: construct a timer outside the set, take one out of
the set, change the fields of one outside, put one in, and disarm one outside.
-/
import CoLib.Timer.Basic
import Mathlib

namespace CoLib

open Lib

namespace Timer

variable {Cb : Type}

/-- What the comparator compares: a null pointer is below every timer. -/
def key (t : Option (Timer Cb)) : WithBot (ℕ ×ₗ ℕ) :=
  t.map fun t => toLex (t.next, t.addr)

theorem key_lt_iff (l r : Timer Cb) :
    key (some l) < key (some r) ↔ l.next < r.next ∨ l.next = r.next ∧ l.addr < r.addr :=
  WithBot.coe_lt_coe.trans Prod.Lex.toLex_lt_toLex

theorem Comparator_iff (lhs rhs : Option (Timer Cb)) :
    Comparator lhs rhs = true ↔ key lhs < key rhs := by
  cases lhs with
  | none =>
      cases rhs with
      | none => exact iff_of_false Bool.false_ne_true (lt_irrefl _)
      | some r => exact iff_of_true rfl (WithBot.bot_lt_coe _)
  | some l =>
      cases rhs with
      | none => exact iff_of_false Bool.false_ne_true (not_lt_bot)
      | some r =>
          rw [key_lt_iff, Comparator]
          split
          · exact iff_of_true rfl (.inl ‹_›)
          · split
            · exact iff_of_false Bool.false_ne_true (by omega)
            · rw [decide_eq_true_eq]
              omega

theorem addr_of_key {t u : Timer Cb} (h : key (some t) = key (some u)) : t.addr = u.addr :=
  congrArg (fun k => (ofLex k).2) (WithBot.coe_inj.mp h)

end Timer

namespace TimerManager

variable {Cb : Type}

/-- The current key of `p`. -/
def key (m : TimerManager Cb) (p : TimerPtr) : WithBot (ℕ ×ₗ ℕ) :=
  Timer.key m.heap[p]?

/-- `p->m_cb` is not null. -/
def Armed (m : TimerManager Cb) (p : TimerPtr) : Prop :=
  ∃ t, m.heap[p]? = some t ∧ t.cb.isSome

theorem before_iff (m : TimerManager Cb) (p q : TimerPtr) :
    m.before p q = true ↔ m.key p < m.key q :=
  Timer.Comparator_iff _ _

@[simp] theorem store_timers (m : TimerManager Cb) (p : TimerPtr) (f : Timer Cb → Timer Cb) :
    (m.store p f).timers = m.timers := rfl

@[simp] theorem length_store (m : TimerManager Cb) (p : TimerPtr) (f : Timer Cb → Timer Cb) :
    (m.store p f).heap.length = m.heap.length := List.length_modify ..

theorem store_self (m : TimerManager Cb) (p : TimerPtr) (f : Timer Cb → Timer Cb) :
    (m.store p f).heap[p]? = m.heap[p]?.map f := by
  simp [store]

theorem store_of_ne (m : TimerManager Cb) {p q : TimerPtr} (f : Timer Cb → Timer Cb)
    (h : q ≠ p) : (m.store p f).heap[q]? = m.heap[q]? := by
  simp [store, h.symm]

theorem store_cases (m : TimerManager Cb) {p q : TimerPtr} {f : Timer Cb → Timer Cb}
    {t : Timer Cb} (h : (m.store p f).heap[q]? = some t) :
    ∃ t₀, m.heap[q]? = some t₀ ∧ (t = t₀ ∨ q = p ∧ t = f t₀) := by
  by_cases hq : q = p
  · subst hq
    rw [store_self, Option.map_eq_some_iff] at h
    obtain ⟨t₀, ht₀, rfl⟩ := h
    exact ⟨t₀, ht₀, .inr ⟨rfl, rfl⟩⟩
  · rw [store_of_ne m f hq] at h
    exact ⟨t, h, .inl rfl⟩

/-- See the module comment. -/
structure Consistent (m : TimerManager Cb) (out : List TimerPtr) (L : TimerPtr → Prop) :
    Prop where
  armed : ∀ p, m.Armed p ↔ p ∈ m.timers ∨ p ∈ out
  sorted : OrderedSet.SortedBy m.key m.timers
  nodup : out.Nodup
  apart : ∀ p ∈ out, p ∉ m.timers
  live : ∀ p, m.Armed p → L p
  addr : ∀ p q t u, L p → L q → m.heap[p]? = some t → m.heap[q]? = some u →
    t.addr = u.addr → p = q

namespace Consistent

variable {m : TimerManager Cb} {out : List TimerPtr} {L : TimerPtr → Prop} {p : TimerPtr}

theorem valid (h : Consistent m out L) (hp : p ∈ m.timers ∨ p ∈ out) : p < m.heap.length := by
  obtain ⟨t, ht, -⟩ := (h.armed p).mpr hp
  exact (List.getElem?_eq_some_iff.mp ht).1

theorem timers_nodup (h : Consistent m out L) : m.timers.Nodup :=
  h.sorted.nodup

/-- Fewer timers are in use: the others have been released. -/
theorem mono {L' : TimerPtr → Prop} (h : Consistent m out L) (hsub : ∀ q, L' q → L q)
    (hlive : ∀ q, m.Armed q → L' q) : Consistent m out L' :=
  { h with
    live := hlive
    addr := fun q r t u hq hr => h.addr q r t u (hsub q hq) (hsub r hr) }

/-- The keys of different timers in use differ. -/
theorem key_ne (h : Consistent m out L) {q : TimerPtr} (hp : m.Armed p) (hq : m.Armed q)
    (hne : q ≠ p) : m.key q ≠ m.key p := by
  obtain ⟨t, ht, -⟩ := id hp
  obtain ⟨u, hu, -⟩ := id hq
  intro hkey
  rw [key, key, ht, hu] at hkey
  exact hne (h.addr q p u t (h.live q hq) (h.live p hp) hu ht (Timer.addr_of_key hkey))

/-- A timer is constructed at an address that no timer in use has. -/
theorem construct (h : Consistent m [] L) (t : Timer Cb) (hcb : t.cb.isSome)
    (haddr : ∀ q u, L q → m.heap[q]? = some u → u.addr ≠ t.addr) :
    Consistent { m with heap := m.heap ++ [t] } [m.heap.length]
      (fun q => L q ∨ q = m.heap.length) := by
  have hold : ∀ q, q ≠ m.heap.length → (m.heap ++ [t])[q]? = m.heap[q]? := by
    intro q hq
    rw [List.getElem?_append]
    split
    · rfl
    · rw [List.getElem?_eq_none (by omega : m.heap.length ≤ q),
        List.getElem?_eq_none (by rw [List.length_singleton]; omega)]
  have hnew : (m.heap ++ [t])[m.heap.length]? = some t := by simp
  have hvalid : ∀ q ∈ m.timers, q ≠ m.heap.length := fun q hq => (h.valid (.inl hq)).ne
  have harmed : ∀ q, q ≠ m.heap.length →
      (Armed { m with heap := m.heap ++ [t] } q ↔ m.Armed q) := by
    intro q hq
    simp only [Armed, hold q hq]
  refine ⟨?_, ?_, List.nodup_singleton _, ?_, ?_, ?_⟩
  · intro q
    by_cases hq : q = m.heap.length
    · subst hq
      exact iff_of_true ⟨t, hnew, hcb⟩ (.inr (List.mem_singleton_self _))
    · rw [harmed q hq, h.armed q]
      simp [hq]
  · refine h.sorted.congr ?_
    intro q hq
    simp only [key, hold q (hvalid q hq)]
  · intro q hq hmem
    exact hvalid q hmem (List.mem_singleton.mp hq)
  · intro q hq
    by_cases hlen : q = m.heap.length
    · exact .inr hlen
    · exact .inl (h.live q ((harmed q hlen).mp hq))
  · intro q r a b hq hr ha hb hab
    by_cases hql : q = m.heap.length <;> by_cases hrl : r = m.heap.length
    · rw [hql, hrl]
    · subst hql
      simp only [hnew, Option.some.injEq] at ha
      simp only [hold r hrl] at hb
      exact absurd (ha ▸ hab.symm) (haddr r b (hr.resolve_right hrl) hb)
    · subst hrl
      simp only [hnew, Option.some.injEq] at hb
      simp only [hold q hql] at ha
      exact absurd (hb ▸ hab) (haddr q a (hq.resolve_right hql) ha)
    · simp only [hold q hql] at ha
      simp only [hold r hrl] at hb
      exact h.addr q r a b (hq.resolve_right hql) (hr.resolve_right hrl) ha hb hab

/-- A member is found, and erasing it there takes it out of the set. -/
theorem take_out (h : Consistent m out L) (hp : p ∈ m.timers) :
    ∃ it, m.find p = some it ∧ m.erase it = { m with timers := m.timers.erase p } ∧
      Consistent (m.erase it) (p :: out) L := by
  obtain ⟨l, r, hlr, hfind⟩ := OrderedSet.find_of_mem m.before_iff h.sorted hp
  have hnodup := hlr ▸ h.timers_nodup
  have hpl : p ∉ l := fun hpl =>
    (List.nodup_append.mp hnodup).2.2 p hpl p List.mem_cons_self rfl
  have herase : m.erase l.length = { m with timers := m.timers.erase p } := by
    simp [erase, hlr, List.eraseIdx_append_of_length_le, List.erase_append_right _ hpl]
  refine ⟨l.length, hfind, herase, ?_⟩
  rw [herase]
  have hmem : ∀ q, q ∈ m.timers.erase p ↔ q ≠ p ∧ q ∈ m.timers := fun q =>
    h.timers_nodup.mem_erase_iff
  refine ⟨?_, h.sorted.sublist List.erase_sublist, ?_, ?_, h.live, h.addr⟩
  · intro q
    refine (h.armed q).trans ?_
    simp only [hmem, List.mem_cons]
    by_cases hq : q = p
    · simp [hq, hp]
    · simp [hq]
  · exact List.nodup_cons.mpr ⟨fun hpo => h.apart p hpo hp, h.nodup⟩
  · intro q hq
    simp only [hmem]
    rcases List.mem_cons.mp hq with rfl | hq
    · exact fun hn => hn.1 rfl
    · exact fun hn => h.apart q hq hn.2

/-- No assignment to fields other than the address makes two addresses equal. -/
theorem addr_store (h : Consistent m out L) {f : Timer Cb → Timer Cb}
    (haddr : ∀ t, (f t).addr = t.addr) (q r : TimerPtr) (a b : Timer Cb) (hq : L q) (hr : L r)
    (ha : (m.store p f).heap[q]? = some a) (hb : (m.store p f).heap[r]? = some b)
    (hab : a.addr = b.addr) : q = r := by
  have hback : ∀ {q : TimerPtr} {a : Timer Cb}, (m.store p f).heap[q]? = some a →
      ∃ a₀ : Timer Cb, m.heap[q]? = some a₀ ∧ a.addr = a₀.addr := by
    intro q a ha
    obtain ⟨a₀, ha₀, rfl | ⟨-, rfl⟩⟩ := m.store_cases ha
    · exact ⟨a, ha₀, rfl⟩
    · exact ⟨a₀, ha₀, haddr a₀⟩
  obtain ⟨a₀, ha₀, ha'⟩ := hback ha
  obtain ⟨b₀, hb₀, hb'⟩ := hback hb
  exact h.addr q r a₀ b₀ hq hr ha₀ hb₀ (by rw [← ha', ← hb', hab])

/-- Fields of a timer outside the set are assigned, its callback and address
kept. -/
theorem assign (h : Consistent m out L) (hp : p ∈ out) {f : Timer Cb → Timer Cb}
    (hcb : ∀ t, (f t).cb = t.cb) (haddr : ∀ t, (f t).addr = t.addr) :
    Consistent (m.store p f) out L := by
  have harmed : ∀ q, (m.store p f).Armed q ↔ m.Armed q := by
    intro q
    constructor
    · rintro ⟨t', ht', hs⟩
      obtain ⟨t, ht, rfl | ⟨-, rfl⟩⟩ := m.store_cases ht'
      · exact ⟨t', ht, hs⟩
      · exact ⟨t, ht, hcb t ▸ hs⟩
    · rintro ⟨t, ht, hs⟩
      by_cases hq : q = p
      · subst hq
        exact ⟨f t, by rw [store_self, ht]; rfl, by rw [hcb]; exact hs⟩
      · exact ⟨t, by rw [store_of_ne m f hq]; exact ht, hs⟩
  refine ⟨fun q => (harmed q).trans (h.armed q), ?_, h.nodup, h.apart,
    fun q hq => h.live q ((harmed q).mp hq), h.addr_store haddr⟩
  refine h.sorted.congr ?_
  intro q hq
  have hqp : q ≠ p := fun heq => h.apart p hp (heq ▸ hq)
  rw [key, key, store_of_ne m f hqp]

/-- A timer outside is inserted where its key belongs. -/
theorem put_in (h : Consistent m (p :: out) L) :
    ∃ l r, m.timers = l ++ r ∧ m.insert p = ({ m with timers := l ++ p :: r }, l.length) ∧
      Consistent (m.insert p).1 out L := by
  have harmed : ∀ q ∈ m.timers, m.Armed q := fun q hq => (h.armed q).mpr (.inl hq)
  have hpa : m.Armed p := (h.armed p).mpr (.inr List.mem_cons_self)
  have hpm : p ∉ m.timers := h.apart p List.mem_cons_self
  have hkey : ∀ q ∈ m.timers, m.key q ≠ m.key p := fun q hq =>
    h.key_ne hpa (harmed q hq) fun heq => hpm (heq ▸ hq)
  obtain ⟨l, r, hlr, hins, hsorted⟩ := OrderedSet.insert_of_fresh m.before_iff h.sorted hkey
  have hinsert : m.insert p = ({ m with timers := l ++ p :: r }, l.length) := by
    simp [insert, hins]
  refine ⟨l, r, hlr, hinsert, ?_⟩
  rw [hinsert]
  have hmem : ∀ q, q ∈ l ++ p :: r ↔ q = p ∨ q ∈ m.timers := by
    intro q
    rw [hlr]
    simp only [List.mem_append, List.mem_cons]
    tauto
  refine ⟨?_, hsorted, (List.nodup_cons.mp h.nodup).2, ?_, h.live, h.addr⟩
  · intro q
    refine (h.armed q).trans ?_
    simp only [hmem, List.mem_cons]
    tauto
  · intro q hq
    rw [hmem]
    rintro (rfl | hqm)
    · exact (List.nodup_cons.mp h.nodup).1 hq
    · exact h.apart q (List.mem_cons_of_mem _ hq) hqm

/-- The callback of a timer outside is set to null. -/
theorem disarm (h : Consistent m (p :: out) L) :
    Consistent (m.store p fun t => { t with cb := none }) out L := by
  have hpo : p ∉ out := (List.nodup_cons.mp h.nodup).1
  have hpm : p ∉ m.timers := h.apart p List.mem_cons_self
  have harmed : ∀ q, (m.store p fun t => { t with cb := none }).Armed q
      ↔ q ≠ p ∧ m.Armed q := by
    intro q
    by_cases hq : q = p
    · subst hq
      refine iff_of_false ?_ fun hn => hn.1 rfl
      rintro ⟨t', ht', hs⟩
      rw [store_self, Option.map_eq_some_iff] at ht'
      obtain ⟨t, -, rfl⟩ := ht'
      exact absurd hs (by simp)
    · simp only [Armed, store_of_ne m _ hq, hq, ne_eq, not_false_eq_true, true_and]
  refine ⟨?_, ?_, (List.nodup_cons.mp h.nodup).2,
    fun q hq => h.apart q (List.mem_cons_of_mem _ hq),
    fun q hq => h.live q ((harmed q).mp hq).2, h.addr_store fun _ => rfl⟩
  · intro q
    rw [harmed, h.armed, store_timers, List.mem_cons]
    by_cases hq : q = p
    · subst hq
      simp [hpm, hpo]
    · simp [hq]
  · refine h.sorted.congr ?_
    intro q hq
    have hqp : q ≠ p := fun heq => hpm (heq ▸ hq)
    rw [key, key, store_of_ne m _ hqp]

end Consistent

end TimerManager

end CoLib
