/-
# `CoLib.Timer.Ops` — what each operation on timers does

One lemma for each operation of `timer.cc`: started in a consistent manager it
does not fault, it ends in a consistent manager, and its effect on the timers'
fields and on the set is the one given.
-/
import CoLib.Timer.Expiry

namespace CoLib.TimerManager

open Lib

variable {Cb : Type} {m : TimerManager Cb} {out : List TimerPtr} {L : TimerPtr → Prop}
  {p : TimerPtr}

theorem before_store (m : TimerManager Cb) (p : TimerPtr) {f : Timer Cb → Timer Cb}
    (hnext : ∀ t, (f t).next = t.next) (haddr : ∀ t, (f t).addr = t.addr) :
    (m.store p f).before = m.before := by
  have hkey : ∀ q, (m.store p f).key q = m.key q := by
    intro q
    by_cases hq : q = p
    · subst hq
      rw [key, key, store_self]
      cases m.heap[q]? with
      | none => rfl
      | some t =>
          simp only [Timer.key, Option.map_some, hnext, haddr]
          rfl
    · rw [key, key, store_of_ne m f hq]
  funext q r
  rw [Bool.eq_iff_iff, before_iff, before_iff, hkey, hkey]

/-! ## Re-keying -/

/-- The common part of `refresh` and `reset`: a member is taken out, given
another deadline and put in again. -/
theorem Consistent.rekey (h : Consistent m [] L) (hp : p ∈ m.timers) {f : Timer Cb → Timer Cb}
    (hcb : ∀ t, (f t).cb = t.cb) (haddr : ∀ t, (f t).addr = t.addr) :
    ∃ it l r, m.find p = some it ∧ m.timers.erase p = l ++ r ∧
      ((m.erase it).store p f).insert p
        = ({ m.store p f with timers := l ++ p :: r }, l.length) ∧
      Consistent { m.store p f with timers := l ++ p :: r } [] L := by
  obtain ⟨it, hfind, herase, hout⟩ := h.take_out hp
  obtain ⟨l, r, hlr, hins, hin⟩ := (hout.assign List.mem_cons_self hcb haddr).put_in
  rw [hins] at hin
  rw [herase] at hlr hins hin
  refine ⟨it, l, r, hfind, hlr, ?_, hin⟩
  rw [herase]
  exact hins

theorem mem_of_erase_eq {ps l r : List TimerPtr} (hp : p ∈ ps) (h : ps.erase p = l ++ r)
    (q : TimerPtr) : q ∈ l ++ p :: r ↔ q ∈ ps := by
  have hperm : (l ++ p :: r).Perm ps :=
    List.perm_middle.trans ((h ▸ List.Perm.refl _ : (p :: (l ++ r)).Perm (p :: ps.erase p)).trans
      (List.perm_cons_erase hp).symm)
  exact hperm.mem_iff

/-- `addTimer(val, lock)` inserts; it notifies when `val` becomes the first and
no notification is pending. -/
theorem addTimerLocked_eq {l r : List TimerPtr}
    (h : m.insert p = ({ m with timers := l ++ p :: r }, l.length)) :
    m.addTimerLocked p = ({ m with
      timers := l ++ p :: r, tickled := m.tickled || l.isEmpty }, l.isEmpty && !m.tickled) := by
  cases l <;> cases htick : m.tickled <;> simp [addTimerLocked, h, htick]

/-! ## The operations -/

/-- `addTimer(ms, cb, recurring)` arms a new timer. -/
theorem addTimer_spec (h : Consistent m [] L) (ms : Nat) (cb : Cb) (recurring : Bool)
    (now addr : Nat) (haddr : ∀ q u, L q → m.heap[q]? = some u → u.addr ≠ addr) :
    ∃ l r, m.timers = l ++ r ∧
      m.addTimer ms cb recurring now addr
        = ({ m with
              heap := m.heap ++ [Timer.new ms cb recurring now addr]
              timers := l ++ m.heap.length :: r
              tickled := m.tickled || l.isEmpty },
            m.heap.length, l.isEmpty && !m.tickled) ∧
      Consistent (m.addTimer ms cb recurring now addr).1 []
        (fun q => L q ∨ q = m.heap.length) := by
  obtain ⟨l, r, hlr, hins, hin⟩ :=
    (h.construct (Timer.new ms cb recurring now addr) rfl haddr).put_in
  have hadd := addTimerLocked_eq hins
  rw [hins] at hin
  refine ⟨l, r, hlr, ?_, ?_⟩
  · simp [addTimer, hadd]
  · simp only [addTimer, hadd]
    exact ⟨hin.armed, hin.sorted, hin.nodup, hin.apart, hin.live, hin.addr⟩

/-- `cancel` of a timer without callback does nothing. -/
theorem cancel_unarmed {t : Timer Cb} (ht : m.heap[p]? = some t) (hcb : t.cb = none) :
    m.cancel p = some (m, false) := by
  simp [cancel, ht, hcb]

/-- `cancel` of an armed timer clears its callback and removes it; its `find`
does not return `end()`. -/
theorem cancel_armed (h : Consistent m [] L) (hp : p ∈ m.timers) :
    m.cancel p = some ({ m.store p (fun t => { t with cb := none }) with
      timers := m.timers.erase p }, true) ∧
    Consistent { m.store p (fun t => { t with cb := none }) with
      timers := m.timers.erase p } [] L := by
  obtain ⟨t, ht, hs⟩ := (h.armed p).mpr (.inl hp)
  obtain ⟨it, hfind, herase, hout⟩ := h.take_out hp
  have hfind' : (m.store p fun t => { t with cb := none }).find p = some it := by
    rw [find, before_store (f := fun t => { t with cb := none }) m p (fun _ => rfl)
      (fun _ => rfl)]
    exact hfind
  have hlist : m.timers.eraseIdx it = m.timers.erase p := congrArg TimerManager.timers herase
  constructor
  · simp [cancel, ht, hs, hfind', erase, hlist]
  · rw [herase] at hout
    exact hout.disarm

theorem refresh_unarmed {t : Timer Cb} (ht : m.heap[p]? = some t) (hcb : t.cb = none)
    (now : Nat) : m.refresh p now = some (m, false) := by
  simp [refresh, ht, hcb]

/-- `refresh` of an armed timer counts its period from now. -/
theorem refresh_armed (h : Consistent m [] L) (hp : p ∈ m.timers) (now : Nat) :
    ∃ l r, m.timers.erase p = l ++ r ∧
      m.refresh p now = some ({ m.store p (fun t => { t with next := addWord now t.ms }) with
        timers := l ++ p :: r }, true) ∧
      Consistent { m.store p (fun t => { t with next := addWord now t.ms }) with
        timers := l ++ p :: r } [] L := by
  obtain ⟨t, ht, hs⟩ := (h.armed p).mpr (.inl hp)
  obtain ⟨it, l, r, hfind, hlr, hins, hin⟩ :=
    h.rekey (f := fun t => { t with next := addWord now t.ms }) hp (fun _ => rfl) (fun _ => rfl)
  refine ⟨l, r, hlr, ?_, hin⟩
  simp [refresh, ht, Option.ne_none_iff_isSome.mpr hs, hfind, hins]

theorem reset_same {t : Timer Cb} (ht : m.heap[p]? = some t) (now : Nat) :
    m.reset p t.ms false now = some (m, true, false) := by
  simp [reset, ht]

theorem reset_unarmed {t : Timer Cb} {ms : Nat} {fromNow : Bool} (ht : m.heap[p]? = some t)
    (hcb : t.cb = none) (hdiff : ¬ (ms = t.ms ∧ fromNow = false)) (now : Nat) :
    m.reset p ms fromNow now = some (m, false, false) := by
  simp only [reset, ht, Option.bind_eq_bind, Option.bind_some, if_neg hdiff, hcb,
    Option.isNone_none, if_true]

/-- `reset` of an armed timer to another period, or from now. -/
theorem reset_armed (h : Consistent m [] L) (hp : p ∈ m.timers) {t : Timer Cb} {ms : Nat}
    {fromNow : Bool} (ht : m.heap[p]? = some t) (hdiff : ¬ (ms = t.ms ∧ fromNow = false))
    (now : Nat) :
    ∃ l r f, m.timers.erase p = l ++ r ∧
      f = (fun u : Timer Cb => { u with
        ms := ms, next := addWord (if fromNow then now else subWord t.next t.ms) ms }) ∧
      m.reset p ms fromNow now = some ({ m.store p f with
        timers := l ++ p :: r, tickled := m.tickled || l.isEmpty },
        true, l.isEmpty && !m.tickled) ∧
      Consistent { m.store p f with
        timers := l ++ p :: r, tickled := m.tickled || l.isEmpty } [] L := by
  obtain ⟨u, hu, hs⟩ := (h.armed p).mpr (.inl hp)
  obtain rfl : t = u := Option.some.inj (ht.symm.trans hu)
  obtain ⟨it, l, r, hfind, hlr, hins, hin⟩ :=
    h.rekey (f := fun u => { u with
      ms := ms, next := addWord (if fromNow then now else subWord t.next t.ms) ms }) hp
      (fun _ => rfl) (fun _ => rfl)
  have hadd := addTimerLocked_eq (m := (m.erase it).store p fun u => { u with
      ms := ms, next := addWord (if fromNow then now else subWord t.next t.ms) ms }) hins
  refine ⟨l, r, _, hlr, rfl, ?_, ⟨hin.armed, hin.sorted, hin.nodup, hin.apart, hin.live, hin.addr⟩⟩
  simp only [reset, ht, Option.bind_eq_bind, Option.bind_some, if_neg hdiff,
    if_neg (by simp [Option.ne_none_iff_isSome.mpr hs] : ¬ t.cb.isNone = true), hfind]
  rw [hadd]
  rfl

/-- `getNextTimer` clears the notification flag. -/
theorem getNextTimer_spec (h : Consistent m [] L) (now : Nat) :
    ∃ d, m.getNextTimer now = some ({ m with tickled := false }, d) := by
  cases hts : m.timers with
  | nil => exact ⟨wordSize - 1, by simp [getNextTimer, hts]⟩
  | cons p ps =>
      obtain ⟨t, ht, -⟩ := (h.armed p).mpr (.inl (hts ▸ List.mem_cons_self))
      by_cases hnow : now ≥ t.next
      · exact ⟨0, by simp [getNextTimer, hts, ht, hnow]⟩
      · exact ⟨subWord t.next now, by simp [getNextTimer, hts, ht, hnow]⟩

/-! ## Expiry -/

theorem fired_addr (now : Nat) (t : Timer Cb) : (fired now t).addr = t.addr := by
  rw [fired]
  split <;> rfl

theorem fired_isSome (now : Nat) {t : Timer Cb} (hcb : t.cb.isSome) :
    (fired now t).cb.isSome ↔ t.recurring = true := by
  rw [fired]
  cases t.recurring with
  | true => exact iff_of_true hcb rfl
  | false => exact iff_of_false (by simp) Bool.false_ne_true

/-- Timers that are taken from the set and fired leave it consistent: the
recurring ones are in it again, the others have lost their callback. -/
theorem Consistent.of_fired {now : Nat} {ps : List TimerPtr} {m' : TimerManager Cb}
    (h : Consistent m [] L) (hord : Ordered m' []) (hps : ∀ p ∈ ps, p ∈ m.timers)
    (hheap : ∀ q : TimerPtr,
      m'.heap[q]? = if q ∈ ps then m.heap[q]?.map (fired now) else m.heap[q]?)
    (htimers : ∀ q, q ∈ m'.timers ↔ q ∈ m.timers ∧
      (q ∈ ps → ∃ t, m.heap[q]? = some t ∧ t.recurring = true)) :
    Consistent m' [] L := by
  have harmed : ∀ q, m'.Armed q ↔ q ∈ m'.timers := by
    intro q
    rw [htimers, Armed, hheap]
    by_cases hq : q ∈ ps
    · obtain ⟨t, ht, hs⟩ := (h.armed q).mpr (.inl (hps q hq))
      simp [hq, hps q hq, ht, fired_isSome now hs]
    · rw [if_neg hq]
      refine (h.armed q).trans ?_
      simp [hq]
  refine ⟨fun q => (harmed q).trans (or_iff_left List.not_mem_nil).symm, hord.sorted,
    List.nodup_nil, fun p hp => absurd hp List.not_mem_nil, ?_, ?_⟩
  · intro q hq
    have hmem := ((htimers q).mp ((harmed q).mp hq)).1
    exact h.live q ((h.armed q).mpr (.inl hmem))
  · have haddr : ∀ (q : TimerPtr) (u : Timer Cb), m'.heap[q]? = some u →
        ∃ u₀ : Timer Cb, m.heap[q]? = some u₀ ∧ u.addr = u₀.addr := by
      intro q u hu
      rw [hheap] at hu
      split at hu
      · obtain ⟨u₀, hu₀, rfl⟩ := Option.map_eq_some_iff.mp hu
        exact ⟨u₀, hu₀, fired_addr now u₀⟩
      · exact ⟨u, hu, rfl⟩
    intro q r t u hq hr ht hu heq
    obtain ⟨t₀, ht₀, htt⟩ := haddr q t ht
    obtain ⟨u₀, hu₀, huu⟩ := haddr r u hu
    exact h.addr q r t₀ u₀ hq hr ht₀ hu₀ (by rw [← htt, ← huu, heq])

/-- `listExpiredCb` takes some timers from the front of the set; without a
rollover these are due. -/
theorem listExpiredCb_spec (h : Consistent m [] L) (now addr : Nat) :
    ∃ m' it, m.listExpiredCb now addr
        = some (m', (m.timers.take it).map fun p => (p, m.heap[p]?.bind Timer.cb)) ∧
      Consistent m' [] L ∧
      (∀ q, m'.heap[q]?
        = if q ∈ m.timers.take it then m.heap[q]?.map (fired now) else m.heap[q]?) ∧
      (∀ q, q ∈ m'.timers ↔ q ∈ m.timers ∧
        (q ∈ m.timers.take it → ∃ t, m.heap[q]? = some t ∧ t.recurring = true)) ∧
      m'.tickled = m.tickled ∧
      ((m.detectClockRollover now).2 = false →
        ∀ q ∈ m.timers.take it, ∀ t, m.heap[q]? = some t → t.next ≤ now) := by
  obtain ⟨m', hlist, hord, hheap, htimers, htick⟩ := listExpiredCb_expired h.ordered now addr
  have hdue : (m.detectClockRollover now).2 = false →
      ∀ q ∈ m.expired now, ∀ t, m.heap[q]? = some t → t.next ≤ now := by
    intro hroll q hq t ht
    rw [expired, hroll, if_neg Bool.false_ne_true] at hq
    exact (due_iff ht now).mp (List.mem_filter.mp hq).2
  rw [expired_eq_take h.ordered now] at hlist hheap htimers hdue
  exact ⟨m', (m.expired now).length, hlist,
    h.of_fired hord (fun _ => List.mem_of_mem_take) hheap htimers, hheap, htimers, htick, hdue⟩

end CoLib.TimerManager
