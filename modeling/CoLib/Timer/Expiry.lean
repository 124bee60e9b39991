/-
# `CoLib.Timer.Expiry` — which timers `listExpiredCb` takes

`listExpiredCb` cuts the set at `lower_bound` of a probe timer whose address
takes part in the order, moves the cut over the timers due exactly now, and
re-inserts the recurring timers it has taken into the set it took them from.

**Proved here.**  On any set that is sorted by the keys of its members the cut
is at the first timer that is not due, or at the end when the reading is more
than an hour below the previous one, and each timer taken is re-armed or
disarmed while every other timer stays as it is.  `Ordered` asks nothing about
callbacks; `Consistent` implies it.
-/
import CoLib.Timer.Consistent

namespace CoLib.TimerManager

open Lib

variable {Cb : Type} {m : TimerManager Cb} {out : List TimerPtr} {p : TimerPtr}

/-- The set is sorted by the current keys of its members, which are timers at
different addresses; `out` are timers taken out and not yet put back. -/
structure Ordered (m : TimerManager Cb) (out : List TimerPtr) : Prop where
  deref : ∀ p, p ∈ m.timers ∨ p ∈ out → ∃ t, m.heap[p]? = some t
  sorted : OrderedSet.SortedBy m.key m.timers
  nodup : out.Nodup
  apart : ∀ p ∈ out, p ∉ m.timers
  addr : ∀ p q t u, p ∈ m.timers ∨ p ∈ out → q ∈ m.timers ∨ q ∈ out →
    m.heap[p]? = some t → m.heap[q]? = some u → t.addr = u.addr → p = q

theorem Consistent.ordered {L : TimerPtr → Prop} (h : Consistent m out L) : Ordered m out where
  deref := fun p hp => by
    obtain ⟨t, ht, -⟩ := (h.armed p).mpr hp
    exact ⟨t, ht⟩
  sorted := h.sorted
  nodup := h.nodup
  apart := h.apart
  addr := fun p q t u hp hq => h.addr p q t u (h.live p ((h.armed p).mpr hp))
    (h.live q ((h.armed q).mpr hq))

theorem key_of_deref {t : Timer Cb} (ht : m.heap[p]? = some t) :
    m.key p = Timer.key (some t) := by
  rw [key, ht]

namespace Ordered

/-- The first timers of the set are taken out together. -/
theorem take_front (h : Ordered m []) (it : Nat) :
    Ordered { m with timers := m.timers.drop it } (m.timers.take it) := by
  have hcut := List.take_append_drop it m.timers
  have hnodup := hcut.symm ▸ h.sorted.nodup
  have hback : ∀ q, q ∈ m.timers.drop it ∨ q ∈ m.timers.take it → q ∈ m.timers ∨ q ∈ [] := by
    intro q hq
    exact .inl (hq.elim List.mem_of_mem_drop List.mem_of_mem_take)
  refine ⟨fun q hq => h.deref q (hback q hq), h.sorted.sublist (List.drop_sublist _ _),
    (List.nodup_append.mp hnodup).1, ?_,
    fun q r t u hq hr => h.addr q r t u (hback q hq) (hback r hr)⟩
  intro q hq hqd
  exact (List.nodup_append.mp hnodup).2.2 q hq q hqd rfl

/-- Fields of a timer outside are assigned, its address kept, and it is inserted
where its key belongs. -/
theorem rearm (h : Ordered m (p :: out)) {f : Timer Cb → Timer Cb}
    (hf : ∀ t, (f t).addr = t.addr) :
    ∃ l r, m.timers = l ++ r ∧
      (m.store p f).insert p = ({ m.store p f with timers := l ++ p :: r }, l.length) ∧
      Ordered { m.store p f with timers := l ++ p :: r } out := by
  obtain ⟨t, ht⟩ := h.deref p (.inr List.mem_cons_self)
  obtain ⟨n, hn⟩ : ∃ n, n = m.store p f := ⟨_, rfl⟩
  have hpm : p ∉ m.timers := h.apart p List.mem_cons_self
  have hself : n.heap[p]? = some (f t) := by rw [hn, store_self, ht]; rfl
  have hother : ∀ q, q ≠ p → n.heap[q]? = m.heap[q]? := by
    intro q hq
    rw [hn, store_of_ne m _ hq]
  have hkeep : ∀ q ∈ m.timers, n.heap[q]? = m.heap[q]? :=
    fun q hq => hother q fun heq => hpm (heq ▸ hq)
  -- the address of a timer outside is not that of a member
  have hne : ∀ q ∈ m.timers, n.key q ≠ n.key p := by
    intro q hq hkey
    obtain ⟨u, hu⟩ := h.deref q (.inl hq)
    rw [key_of_deref ((hkeep q hq).trans hu), key_of_deref hself] at hkey
    have haddr := (Timer.addr_of_key hkey).trans (hf t)
    exact hpm (h.addr q p u t (.inl hq) (.inr List.mem_cons_self) hu ht haddr ▸ hq)
  have hsorted : OrderedSet.SortedBy n.key m.timers :=
    h.sorted.congr fun q hq => by rw [key, key, hkeep q hq]
  obtain ⟨l, r, hlr, hins, hsorted'⟩ := OrderedSet.insert_of_fresh n.before_iff hsorted hne
  have htimers : n.timers = m.timers := by rw [hn]; rfl
  refine ⟨l, r, hlr, ?_, ?_⟩
  · rw [← hn, insert, htimers, hins]
  rw [← hn]
  have hmem : ∀ q, q ∈ l ++ p :: r ↔ q = p ∨ q ∈ m.timers := by
    intro q
    rw [hlr]
    simp only [List.mem_append, List.mem_cons]
    tauto
  have hback : ∀ q, q ∈ l ++ p :: r ∨ q ∈ out → q ∈ m.timers ∨ q ∈ p :: out := by
    intro q hq
    rw [hmem] at hq
    rw [List.mem_cons]
    tauto
  have haddr : ∀ q u, q ∈ m.timers ∨ q ∈ p :: out → n.heap[q]? = some u →
      ∃ u₀ : Timer Cb, m.heap[q]? = some u₀ ∧ u.addr = u₀.addr := by
    intro q u hq hu
    by_cases hqp : q = p
    · subst hqp
      obtain rfl := Option.some.inj (hself.symm.trans hu)
      exact ⟨t, ht, hf t⟩
    · exact ⟨u, (hother q hqp).symm.trans hu, rfl⟩
  refine ⟨?_, hsorted', (List.nodup_cons.mp h.nodup).2, ?_, ?_⟩
  · intro q hq
    by_cases hqp : q = p
    · exact ⟨_, hqp ▸ hself⟩
    · obtain ⟨u, hu⟩ := h.deref q (hback q hq)
      exact ⟨u, (hother q hqp).trans hu⟩
  · intro q hq hql
    rcases (hmem q).mp hql with rfl | hqm
    · exact (List.nodup_cons.mp h.nodup).1 hq
    · exact h.apart q (List.mem_cons_of_mem _ hq) hqm
  · intro q r' a b hq hr ha hb hab
    obtain ⟨a₀, ha₀, haa⟩ := haddr q a (hback q hq) ha
    obtain ⟨b₀, hb₀, hbb⟩ := haddr r' b (hback r' hr) hb
    exact h.addr q r' a₀ b₀ (hback q hq) (hback r' hr) ha₀ hb₀ (by rw [← haa, ← hbb, hab])

/-- The callback of a timer outside is set to null. -/
theorem disarm (h : Ordered m (p :: out)) :
    Ordered (m.store p fun t => { t with cb := none }) out := by
  have hpm : p ∉ m.timers := h.apart p List.mem_cons_self
  have hpo : p ∉ out := (List.nodup_cons.mp h.nodup).1
  have hne : ∀ q, q ∈ m.timers ∨ q ∈ out → q ≠ p := by
    rintro q hq rfl
    exact hq.elim hpm hpo
  have hout : ∀ q, q ∈ m.timers ∨ q ∈ out → q ∈ m.timers ∨ q ∈ p :: out :=
    fun q hq => hq.imp_right (List.mem_cons_of_mem p)
  refine ⟨?_, ?_, (List.nodup_cons.mp h.nodup).2,
    fun q hq => h.apart q (List.mem_cons_of_mem _ hq), ?_⟩
  · intro q hq
    rw [store_of_ne m _ (hne q hq)]
    exact h.deref q (hout q hq)
  · refine h.sorted.congr ?_
    intro q hq
    rw [key, key, store_of_ne m _ (hne q (.inl hq))]
  · intro q r a b hq hr ha hb
    rw [store_of_ne m _ (hne q hq)] at ha
    rw [store_of_ne m _ (hne r hr)] at hb
    exact h.addr q r a b (hout q hq) (hout r hr) ha hb

end Ordered

/-! ## The loop over the timers taken -/

/-- What `listExpiredCb` does to a timer it takes. -/
def fired (now : Nat) (t : Timer Cb) : Timer Cb :=
  if t.recurring then { t with next := addWord now t.ms } else { t with cb := none }

/-- The loop over the timers taken returns their callbacks, re-arms the
recurring ones and disarms the others. -/
theorem takeCbs_ordered (now : Nat) : ∀ (expired : List TimerPtr) (m : TimerManager Cb),
    Ordered m expired →
    ∃ m', takeCbs now m expired
        = some (m', expired.map fun p => (p, m.heap[p]?.bind Timer.cb)) ∧
      Ordered m' [] ∧
      (∀ q, m'.heap[q]? = if q ∈ expired then m.heap[q]?.map (fired now) else m.heap[q]?) ∧
      (∀ q, q ∈ m'.timers ↔ q ∈ m.timers ∨
        q ∈ expired ∧ ∃ t, m.heap[q]? = some t ∧ t.recurring = true) ∧
      m'.tickled = m.tickled ∧ m'.previousTime = m.previousTime
  | [], m, h => ⟨m, rfl, h, by simp, by simp, rfl, rfl⟩
  | p :: expired, m, h => by
      obtain ⟨t, ht⟩ := h.deref p (.inr List.mem_cons_self)
      have hpe : p ∉ expired := (List.nodup_cons.mp h.nodup).1
      -- one iteration: `p` is re-armed or disarmed, every other timer is as before
      obtain ⟨m₁, hm₁, h₁, hself, hother, hmem, htick, hprev⟩ : ∃ m₁ : TimerManager Cb,
          (if t.recurring then
              ((m.store p fun t => { t with next := addWord now t.ms }).insert p).1
            else m.store p fun t => { t with cb := none }) = m₁ ∧
          Ordered m₁ expired ∧ m₁.heap[p]? = some (fired now t) ∧
          (∀ q, q ≠ p → m₁.heap[q]? = m.heap[q]?) ∧
          (∀ q, q ∈ m₁.timers ↔ q ∈ m.timers ∨ q = p ∧ t.recurring = true) ∧
          m₁.tickled = m.tickled ∧ m₁.previousTime = m.previousTime := by
        cases hrec : t.recurring with
        | true =>
            obtain ⟨l, r, hlr, hins, hin⟩ :=
              h.rearm (f := fun t => { t with next := addWord now t.ms }) fun _ => rfl
            refine ⟨_, if_pos rfl, ?_⟩
            rw [hins]
            refine ⟨hin, ?_, fun q hq => store_of_ne m _ hq, ?_, rfl, rfl⟩
            · exact (store_self m p _).trans (by simp [ht, fired, hrec])
            · intro q
              rw [hlr]
              simp only [List.mem_append, List.mem_cons]
              tauto
        | false =>
            refine ⟨_, if_neg Bool.false_ne_true, h.disarm, ?_,
              fun q hq => store_of_ne m _ hq, by simp, rfl, rfl⟩
            exact (store_self m p _).trans (by simp [ht, fired, hrec])
      obtain ⟨m', htake, hord, hheap, htimers, htick', hprev'⟩ :=
        takeCbs_ordered now expired m₁ h₁
      refine ⟨m', ?_, hord, ?_, ?_, htick'.trans htick, hprev'.trans hprev⟩
      · have hcbs : expired.map (fun q => (q, m₁.heap[q]?.bind Timer.cb))
            = expired.map fun q => (q, m.heap[q]?.bind Timer.cb) := by
          refine List.map_congr_left ?_
          intro q hq
          rw [hother q fun heq => hpe (heq ▸ hq)]
        simp only [takeCbs, ht, Option.bind_eq_bind, Option.bind_some, hm₁, htake, hcbs,
          List.map_cons]
      · intro q
        rw [hheap]
        by_cases hq : q = p
        · subst hq
          simp [hpe, hself, ht]
        · simp [hq, hother q hq]
      · intro q
        rw [htimers, hmem]
        by_cases hq : q = p
        · subst hq
          simp [hpe, ht]
        · simp [hq, hother q hq]

/-! ## The cut -/

/-- `p` is due at the reading `now`. -/
def due (m : TimerManager Cb) (now : Nat) (p : TimerPtr) : Bool :=
  m.heap[p]?.any fun t => decide (t.next ≤ now)

theorem due_iff {t : Timer Cb} (ht : m.heap[p]? = some t) (now : Nat) :
    m.due now p = true ↔ t.next ≤ now := by
  rw [due, ht, Option.any_some, decide_eq_true_eq]

/-- A timer before the probe is due, one that is not before it is not due
earlier than now. -/
theorem comparator_probe (t : Timer Cb) (now addr : Nat) :
    (Timer.key (some t) < Timer.key (some (Timer.ofNext now addr : Timer Cb)) → t.next ≤ now) ∧
    (Timer.key (some (Timer.ofNext now addr : Timer Cb)) ≤ Timer.key (some t) →
      now ≤ t.next) := by
  constructor
  · intro h
    exact ((Timer.key_lt_iff _ _).mp h).elim Nat.le_of_lt fun heq => heq.1.le
  · intro h
    by_contra hlt
    exact absurd ((Timer.key_lt_iff t (Timer.ofNext now addr)).mpr (.inl (Nat.lt_of_not_le hlt)))
      (not_lt.mpr h)

namespace Ordered

/-- Deadlines do not decrease along the set. -/
theorem deadlines (h : Ordered m []) : m.timers.Pairwise fun p q =>
    ∀ t u, m.heap[p]? = some t → m.heap[q]? = some u → t.next ≤ u.next := by
  refine h.sorted.imp ?_
  intro p q hlt t u ht hu
  rw [key_of_deref ht, key_of_deref hu, Timer.key_lt_iff] at hlt
  omega

/-- From the first timer that is not due earlier than now, the timers due exactly
now are those that are due. -/
theorem takeWhile_due {now : Nat} : ∀ ps : List TimerPtr,
    (∀ q ∈ ps, ∃ t, m.heap[q]? = some t ∧ now ≤ t.next) →
    (ps.Pairwise fun p q =>
      ∀ t u, m.heap[p]? = some t → m.heap[q]? = some u → t.next ≤ u.next) →
    (ps.takeWhile fun p => (m.heap[p]?.map Timer.next) == some now) = ps.filter (m.due now) := by
  intro ps
  induction ps with
  | nil => exact fun _ _ => rfl
  | cons p ps ih =>
      intro hge hsorted
      obtain ⟨t, ht, hle⟩ := hge p List.mem_cons_self
      obtain ⟨hp, hps⟩ := List.pairwise_cons.mp hsorted
      rcases Nat.eq_or_lt_of_le hle with heq | hlt
      · have hdue : m.due now p = true := (due_iff ht now).mpr heq.ge
        rw [List.filter_cons_of_pos hdue, List.takeWhile_cons_of_pos (by simp [ht, heq]),
          ih (fun q hq => hge q (List.mem_cons_of_mem _ hq)) hps]
      · have hnot : ∀ q ∈ p :: ps, ¬ m.due now q = true := by
          intro q hq
          obtain ⟨u, hu, -⟩ := hge q hq
          rw [due_iff hu]
          rcases List.mem_cons.mp hq with rfl | hq
          · obtain rfl := Option.some.inj (ht.symm.trans hu)
            omega
          · have := hp q hq t u ht hu
            omega
        rw [List.filter_eq_nil_iff.mpr hnot, List.takeWhile_cons_of_neg]
        simp only [ht, Option.map_some, beq_iff_eq, Option.some.injEq]
        omega

/-- Up to the cut, moved over the timers due exactly now, the timers are due;
from there on they are not. -/
theorem take_skipDue (h : Ordered m []) (now addr : Nat) :
    m.timers.take (m.skipDue now (OrderedSet.lowerBound
        (fun q => Timer.Comparator m.heap[q]? (some (Timer.ofNext now addr))) m.timers))
      = m.timers.filter (m.due now) := by
  have hprobe : ∀ q, (fun q => Timer.Comparator m.heap[q]? (some (Timer.ofNext now addr))) q = true
      ↔ m.key q < Timer.key (some (Timer.ofNext now addr : Timer Cb)) :=
    fun q => Timer.Comparator_iff m.heap[q]? (some (Timer.ofNext now addr))
  obtain ⟨l, r, hlr, hit, hl, hr⟩ := OrderedSet.lowerBound_cut hprobe h.sorted
  have hdue : ∀ q ∈ l, m.due now q = true := by
    intro q hq
    obtain ⟨t, ht⟩ := h.deref q (.inl (hlr ▸ List.mem_append_left r hq))
    have hlt := hl q hq
    rw [key_of_deref ht] at hlt
    exact (due_iff ht now).mpr ((comparator_probe t now addr).1 hlt)
  have hrest : ∀ q ∈ r, ∃ t, m.heap[q]? = some t ∧ now ≤ t.next := by
    intro q hq
    obtain ⟨t, ht⟩ := h.deref q (.inl (hlr ▸ List.mem_append_right l hq))
    have hle := hr q hq
    rw [key_of_deref ht] at hle
    exact ⟨t, ht, (comparator_probe t now addr).2 hle⟩
  have hsorted := (List.pairwise_append.mp (hlr ▸ h.deadlines)).2.1
  have htake := takeWhile_due r hrest hsorted
  rw [skipDue, hit, hlr, List.drop_left, List.take_length_add_append, List.filter_append,
    List.filter_eq_self.mpr hdue, ← htake,
    ← List.prefix_iff_eq_take.mp (List.takeWhile_prefix _)]

end Ordered

/-! ## `listExpiredCb` -/

/-- The clock has gone back by more than an hour. -/
theorem detectClockRollover_iff {now : Nat} (hprev : 3600000 ≤ m.previousTime)
    (hword : m.previousTime < wordSize) :
    (m.detectClockRollover now).2 = true ↔ now + 3600000 < m.previousTime := by
  simp only [detectClockRollover, decide_eq_true_eq,
    subWord_of_le hword (by omega : 60 * 60 * 1000 ≤ m.previousTime)]
  omega

/-- The timers that `listExpiredCb` takes at the reading `now`. -/
def expired (m : TimerManager Cb) (now : Nat) : List TimerPtr :=
  if (m.detectClockRollover now).2 then m.timers else m.timers.filter (m.due now)

theorem expired_eq_take (h : Ordered m []) (now : Nat) :
    m.expired now = m.timers.take (m.expired now).length := by
  rw [expired]
  split
  · exact (List.take_length).symm
  · rw [← h.take_skipDue now 0, List.length_take, List.take_eq_take_iff]
    omega

/-- `listExpiredCb` takes the timers `expired`, in the order of the set. -/
theorem listExpiredCb_expired (h : Ordered m []) (now addr : Nat) :
    ∃ m', m.listExpiredCb now addr
        = some (m', (m.expired now).map fun p => (p, m.heap[p]?.bind Timer.cb)) ∧
      Ordered m' [] ∧
      (∀ q, m'.heap[q]?
        = if q ∈ m.expired now then m.heap[q]?.map (fired now) else m.heap[q]?) ∧
      (∀ q, q ∈ m'.timers ↔ q ∈ m.timers ∧
        (q ∈ m.expired now → ∃ t, m.heap[q]? = some t ∧ t.recurring = true)) ∧
      m'.tickled = m.tickled := by
  cases hts : m.timers with
  | nil =>
      have hnone : m.expired now = [] := by
        rw [expired, hts]
        split <;> rfl
      exact ⟨m, by simp [listExpiredCb, hts, hnone], h, by simp [hnone], by simp [hts], rfl⟩
  | cons p ps =>
      obtain ⟨t, ht⟩ := h.deref p (.inl (hts ▸ List.mem_cons_self))
      obtain ⟨rollover, hroll⟩ : ∃ b, m.detectClockRollover now
          = ({ m with previousTime := now }, b) := ⟨_, rfl⟩
      have hord : Ordered { m with previousTime := now } [] :=
        ⟨h.deref, h.sorted, h.nodup, h.apart, h.addr⟩
      by_cases hdue : rollover = false ∧ t.next > now
      · have hnone : m.expired now = [] := by
          rw [expired, hroll, hdue.1, if_neg Bool.false_ne_true, List.filter_eq_nil_iff]
          intro q hq
          obtain ⟨u, hu⟩ := h.deref q (.inl hq)
          rw [due_iff hu]
          have hsorted := hts ▸ h.deadlines
          rcases List.mem_cons.mp (hts ▸ hq) with rfl | hq
          · obtain rfl := Option.some.inj (ht.symm.trans hu)
            omega
          · have := (List.pairwise_cons.mp hsorted).1 q hq t u ht hu
            omega
        refine ⟨{ m with previousTime := now }, ?_, hord, by simp [hnone], by simp [hts, hnone],
          rfl⟩
        simp only [listExpiredCb, hts, hroll, ht, Option.bind_eq_bind, Option.bind_some,
          if_pos hdue, hnone, List.map_nil]
      · obtain ⟨it, hit⟩ : ∃ it, skipDue { m with previousTime := now } now
            (if rollover then m.timers.length else OrderedSet.lowerBound
              (fun q => Timer.Comparator m.heap[q]? (some (Timer.ofNext now addr))) m.timers)
            = it := ⟨_, rfl⟩
        have htake : m.timers.take it = m.expired now := by
          rw [expired, hroll, ← hit]
          cases rollover with
          | true =>
              rw [if_pos rfl, if_pos rfl]
              exact List.take_of_length_le (Nat.le_add_right _ _)
          | false =>
              rw [if_neg Bool.false_ne_true, if_neg Bool.false_ne_true]
              exact hord.take_skipDue now addr
        obtain ⟨m', hloop, hord', hheap, htimers, htick, -⟩ :=
          takeCbs_ordered now (m.timers.take it) _ (hord.take_front it)
        rw [htake] at hloop hheap htimers
        rw [← hts]
        refine ⟨m', ?_, hord', hheap, ?_, htick⟩
        · simp only [listExpiredCb, hts, hroll, ht, Option.bind_eq_bind, Option.bind_some,
            if_neg hdue]
          rw [← hts, hit, htake]
          exact hloop
        · intro q
          rw [htimers, ← htake]
          have hcut : q ∈ m.timers ↔ q ∈ m.timers.take it ∨ q ∈ m.timers.drop it := by
            rw [← List.mem_append, List.take_append_drop]
          have hapart : q ∈ m.timers.take it → q ∉ m.timers.drop it :=
            (hord.take_front it).apart q
          rw [hcut]
          constructor
          · rintro (hdrop | ⟨hmem, hrec⟩)
            · exact ⟨.inr hdrop, fun hmem => absurd hdrop (hapart hmem)⟩
            · exact ⟨.inl hmem, fun _ => hrec⟩
          · rintro ⟨hmem | hdrop, hrec⟩
            · exact .inr ⟨hmem, hrec hmem⟩
            · exact .inl hdrop

/-- **`listExpiredCb` is exact.**  On a sorted set, with readings as the clock
gives them, it returns the callbacks of the timers due, or of all timers when
the clock has gone back by more than an hour, in the order of their deadlines.
Of these the recurring ones are armed at `now + m_ms` (a sum of `uint64_t`) and
stay in the set, which is sorted by the new keys; the others leave it without
callback; every other timer is as before. -/
theorem listExpiredCb_exact (h : Ordered m []) {now : Nat} (addr : Nat) (_hnow : 3600000 ≤ now)
    (hprev : 3600000 ≤ m.previousTime) (hword : m.previousTime < wordSize) :
    ∃ (m' : TimerManager Cb) (taken : List TimerPtr), m.listExpiredCb now addr
        = some (m', taken.map fun p => (p, m.heap[p]?.bind Timer.cb)) ∧
      taken.Nodup ∧
      (∀ p, p ∈ taken ↔ p ∈ m.timers ∧
        (now + 3600000 < m.previousTime ∨ ∃ t, m.heap[p]? = some t ∧ t.next ≤ now)) ∧
      (taken.Pairwise fun p q =>
        ∀ t u, m.heap[p]? = some t → m.heap[q]? = some u → t.next ≤ u.next) ∧
      (∀ p ∈ taken, ∀ t, m.heap[p]? = some t →
        (t.recurring = true →
          m'.heap[p]? = some { t with next := addWord now t.ms } ∧ p ∈ m'.timers) ∧
        (t.recurring = false → m'.heap[p]? = some { t with cb := none } ∧ p ∉ m'.timers)) ∧
      (∀ p ∉ taken, m'.heap[p]? = m.heap[p]? ∧ (p ∈ m'.timers ↔ p ∈ m.timers)) ∧
      Ordered m' [] := by
  obtain ⟨m', hlist, hord, hheap, htimers, -⟩ := listExpiredCb_expired h now addr
  have hsub : (m.expired now).Sublist m.timers := by
    rw [expired_eq_take h now]
    exact List.take_sublist _ _
  refine ⟨m', m.expired now, hlist, h.sorted.nodup.sublist hsub, ?_,
    h.deadlines.sublist hsub, ?_, ?_, hord⟩
  · intro p
    rw [expired]
    by_cases hroll : (m.detectClockRollover now).2 = true
    · simp only [if_pos hroll, (detectClockRollover_iff hprev hword).mp hroll, true_or, and_true]
    · have hno : ¬ now + 3600000 < m.previousTime :=
        fun hlt => hroll ((detectClockRollover_iff hprev hword).mpr hlt)
      simp only [if_neg hroll, List.mem_filter, hno, false_or]
      refine and_congr_right fun hp => ?_
      obtain ⟨t, ht⟩ := h.deref p (.inl hp)
      rw [due_iff ht]
      exact ⟨fun hle => ⟨t, ht, hle⟩, fun ⟨u, hu, hle⟩ => Option.some.inj (hu.symm.trans ht) ▸ hle⟩
  · intro p hp t ht
    have hself := hheap p
    rw [if_pos hp, ht, Option.map_some, fired] at hself
    constructor
    · intro hrec
      rw [if_pos hrec] at hself
      exact ⟨hself, (htimers p).mpr ⟨hsub.subset hp, fun _ => ⟨t, ht, hrec⟩⟩⟩
    · intro hone
      rw [if_neg (by rw [hone]; exact Bool.false_ne_true)] at hself
      refine ⟨hself, fun hmem => ?_⟩
      obtain ⟨u, hu, hrec⟩ := ((htimers p).mp hmem).2 hp
      obtain rfl := Option.some.inj (ht.symm.trans hu)
      exact absurd (hone.symm.trans hrec) Bool.false_ne_true
  · intro p hp
    refine ⟨(hheap p).trans (if_neg hp), (htimers p).trans ?_⟩
    exact and_iff_left fun hmem => absurd hmem hp

/-- Three timers with one deadline, on both sides of the probe's address, and a
later one. -/
def tied : TimerManager Unit :=
  { heap :=
      [⟨false, 0, 4000000, some (), 10⟩, ⟨true, 5, 4000000, some (), 20⟩,
        ⟨false, 0, 4000000, some (), 30⟩, ⟨false, 0, 4000001, some (), 40⟩]
    timers := [0, 1, 2, 3]
    tickled := false
    previousTime := 3600000 }

theorem ordered_tied : Ordered tied [] where
  deref := fun p hp => by
    have h : ∀ p ∈ tied.timers, tied.heap[p]?.isSome := by decide
    exact Option.isSome_iff_exists.mp (h p (hp.resolve_right List.not_mem_nil))
  sorted := by
    have h : tied.timers.Pairwise fun p q => tied.before p q = true := by decide
    exact h.imp fun hpq => (before_iff _ _ _).mp hpq
  nodup := List.nodup_nil
  apart := fun p hp => absurd hp List.not_mem_nil
  addr := fun p q t u hp hq ht hu haddr => by
    have h : ∀ p ∈ tied.timers, ∀ q ∈ tied.timers,
        tied.heap[p]?.map Timer.addr = tied.heap[q]?.map Timer.addr → p = q := by decide
    refine h p (hp.resolve_right List.not_mem_nil) q (hq.resolve_right List.not_mem_nil) ?_
    rw [ht, hu, Option.map_some, Option.map_some, haddr]

theorem listExpiredCb_exact_tied : ∃ (m' : TimerManager Unit) (taken : List TimerPtr),
    tied.listExpiredCb 4000000 25
      = some (m', taken.map fun p => (p, tied.heap[p]?.bind Timer.cb)) ∧
    (∀ p, p ∈ taken ↔ p ∈ tied.timers ∧
      (4000000 + 3600000 < tied.previousTime ∨
        ∃ t, tied.heap[p]? = some t ∧ t.next ≤ 4000000)) := by
  obtain ⟨m', taken, hlist, -, hmem, -⟩ := listExpiredCb_exact ordered_tied 25
    (by decide : 3600000 ≤ 4000000) (by decide) (by decide)
  exact ⟨m', taken, hlist, hmem⟩

end CoLib.TimerManager
