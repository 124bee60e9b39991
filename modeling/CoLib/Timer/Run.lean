/-
# `CoLib.Timer.Run` — whole runs of a timer manager

The users of a manager hold pointers to timers, call the operations on them and
release them.  A state of a run is the manager, the pointers held, and the log
of what the operations reported: that a timer was cancelled, and whose callback
was returned.  `Legal` says what a user and the allocator can do: operate on a
timer held, and place a new timer where no timer in use is.

`step_spec` says what any one operation does to the set and to the log;
`history` turns it into an invariant between the set and the log of the whole
run.
-/
import CoLib.Lib.Run
import CoLib.Timer.Ops

namespace CoLib.TimerManager

open Lib

variable {Cb : Type}

/-- What an operation reports. -/
inductive Event (Cb : Type) where
  | cancelled (p : TimerPtr)
  | returned (p : TimerPtr) (cb : Option Cb)

/-- A callback of `p` is returned. -/
def Event.returns (p : TimerPtr) : Event Cb → Bool
  | .cancelled _ => false
  | .returned q _ => q == p

/-- The timer is cancelled. -/
def Event.cancels (p : TimerPtr) : Event Cb → Bool
  | .cancelled q => q == p
  | .returned _ _ => false

/-- A manager, the timers its users hold, and what has been reported. -/
structure Users (Cb : Type) where
  mgr : TimerManager Cb
  held : List TimerPtr
  log : List (Event Cb)

/-- The operations; `release p` drops the last pointer to `p` held. -/
inductive Op (Cb : Type) where
  | addTimer (ms : Nat) (cb : Cb) (recurring : Bool) (now addr : Nat)
  | cancel (p : TimerPtr)
  | refresh (p : TimerPtr) (now : Nat)
  | reset (p : TimerPtr) (ms : Nat) (fromNow : Bool) (now : Nat)
  | listExpiredCb (now addr : Nat)
  | getNextTimer (now : Nat)
  | release (p : TimerPtr)

namespace Users

/-- Nothing has happened yet. -/
def init (now : Nat) : Users Cb :=
  { mgr := .create now, held := [], log := [] }

/-- A timer that exists: somebody holds it or the set does. -/
def InUse (s : Users Cb) (p : TimerPtr) : Prop :=
  p ∈ s.held ++ s.mgr.timers

/-- `p` is not recurring. -/
def OneShot (s : Users Cb) (p : TimerPtr) : Prop :=
  ∃ t, s.mgr.heap[p]? = some t ∧ t.recurring = false

/-- The calls that can be made. -/
def Legal (s : Users Cb) : Op Cb → Prop
  | .addTimer _ _ _ _ addr =>
      ∀ q ∈ s.held ++ s.mgr.timers, s.mgr.heap[q]?.map Timer.addr ≠ some addr
  | .cancel p => p ∈ s.held
  | .refresh p _ => p ∈ s.held
  | .reset p _ _ _ => p ∈ s.held
  | .listExpiredCb _ _ => True
  | .getNextTimer _ => True
  | .release p => p ∈ s.held

instance (s : Users Cb) : (op : Op Cb) → Decidable (s.Legal op)
  | .addTimer _ _ _ _ addr => inferInstanceAs (Decidable (∀ q ∈ s.held ++ s.mgr.timers,
      s.mgr.heap[q]?.map Timer.addr ≠ some addr))
  | .cancel p => inferInstanceAs (Decidable (p ∈ s.held))
  | .refresh p _ => inferInstanceAs (Decidable (p ∈ s.held))
  | .reset p _ _ _ => inferInstanceAs (Decidable (p ∈ s.held))
  | .listExpiredCb _ _ => inferInstanceAs (Decidable True)
  | .getNextTimer _ => inferInstanceAs (Decidable True)
  | .release p => inferInstanceAs (Decidable (p ∈ s.held))

/-- One call. -/
def step (s : Users Cb) : Op Cb → Option (Users Cb)
  | .addTimer ms cb recurring now addr =>
      let (mgr, p, _) := s.mgr.addTimer ms cb recurring now addr
      some { s with mgr, held := p :: s.held }
  | .cancel p => do
      let (mgr, done) ← s.mgr.cancel p
      some { s with mgr, log := s.log ++ if done then [.cancelled p] else [] }
  | .refresh p now => do
      let (mgr, _) ← s.mgr.refresh p now
      some { s with mgr }
  | .reset p ms fromNow now => do
      let (mgr, _, _) ← s.mgr.reset p ms fromNow now
      some { s with mgr }
  | .listExpiredCb now addr => do
      let (mgr, cbs) ← s.mgr.listExpiredCb now addr
      some { s with mgr, log := s.log ++ cbs.map fun c => .returned c.1 c.2 }
  | .getNextTimer now => do
      let (mgr, _) ← s.mgr.getNextTimer now
      some { s with mgr }
  | .release p => some { s with held := s.held.filter (· ≠ p) }

/-- A state between two calls. -/
structure Wf (s : Users Cb) : Prop where
  consistent : Consistent s.mgr [] s.InUse
  held : ∀ p ∈ s.held, p < s.mgr.heap.length

/-! ## One call -/

/-- What one call does: which timers are in the set afterwards, and what it can
report. -/
structure Effect (s : Users Cb) (evs : List (Event Cb)) (s' : Users Cb) : Prop where
  wf : s'.Wf
  log : s'.log = s.log ++ evs
  grows : s.mgr.heap.length ≤ s'.mgr.heap.length
  recurring : ∀ p < s.mgr.heap.length,
    s'.mgr.heap[p]?.map Timer.recurring = s.mgr.heap[p]?.map Timer.recurring
  old : ∀ p < s.mgr.heap.length, p ∈ s'.mgr.timers ↔
    p ∈ s.mgr.timers ∧ ¬ evs.any (·.cancels p) ∧ (s.OneShot p → ¬ evs.any (·.returns p))
  new : ∀ p, s.mgr.heap.length ≤ p → p < s'.mgr.heap.length → p ∈ s'.mgr.timers
  cancels : ∀ p, evs.any (·.cancels p) → p ∈ s.mgr.timers
  returns : ∀ p cb, .returned p cb ∈ evs →
    p ∈ s.mgr.timers ∧ ∃ t, s.mgr.heap[p]? = some t ∧ cb = t.cb
  once : ∀ p, evs.countP (·.returns p) ≤ 1

variable {s s' : Users Cb}

theorem Wf.deref (h : s.Wf) {p : TimerPtr} (hp : p ∈ s.held) : ∃ t, s.mgr.heap[p]? = some t :=
  ⟨_, List.getElem?_eq_getElem (h.held p hp)⟩

theorem Wf.mem_of_cb (h : s.Wf) {p : TimerPtr} {t : Timer Cb} {cb : Cb}
    (ht : s.mgr.heap[p]? = some t) (hcb : t.cb = some cb) : p ∈ s.mgr.timers :=
  ((h.consistent.armed p).mp ⟨t, ht, by simp [hcb]⟩).resolve_right List.not_mem_nil

/-- A call that reports nothing, constructs nothing, and keeps the members. -/
theorem Effect.quiet (hheap : ∀ p ∈ s.held, p < s.mgr.heap.length) {m' : TimerManager Cb}
    {held : List TimerPtr}
    (hcons : Consistent m' [] s.InUse) (hheld : ∀ p ∈ held, p ∈ s.held)
    (hlen : m'.heap.length = s.mgr.heap.length)
    (hrec : ∀ p : TimerPtr, m'.heap[p]?.map Timer.recurring = s.mgr.heap[p]?.map Timer.recurring)
    (hmem : ∀ p, p ∈ m'.timers ↔ p ∈ s.mgr.timers) :
    Effect s [] { s with mgr := m', held := held } where
  wf :=
    { consistent := hcons.mono
        (fun q hq => by
          rcases List.mem_append.mp hq with hq | hq
          · exact List.mem_append_left _ (hheld q hq)
          · exact List.mem_append_right _ ((hmem q).mp hq))
        (fun q hq => List.mem_append_right _
          (((hcons.armed q).mp hq).resolve_right List.not_mem_nil))
      held := fun p hp => hlen ▸ hheap p (hheld p hp) }
  log := (List.append_nil _).symm
  grows := hlen.ge
  recurring := fun p _ => hrec p
  old := fun p _ => by simp [hmem]
  new := fun p h₁ h₂ => absurd h₂ (by simp only [hlen]; omega)
  cancels := fun p hp => absurd hp (by simp)
  returns := fun p cb hp => absurd hp List.not_mem_nil
  once := fun p => by simp

theorem map_recurring_store (m : TimerManager Cb) (p q : TimerPtr) {f : Timer Cb → Timer Cb}
    (hf : ∀ t, (f t).recurring = t.recurring) :
    (m.store p f).heap[q]?.map Timer.recurring = m.heap[q]?.map Timer.recurring := by
  by_cases hq : q = p
  · subst hq
    rw [store_self]
    cases m.heap[q]? with
    | none => rfl
    | some t => simp [hf]
  · rw [store_of_ne m f hq]

theorem addTimer_effect (h : s.Wf) {ms : Nat} {cb : Cb} {recurring : Bool} {now addr : Nat}
    (hlegal : s.Legal (.addTimer ms cb recurring now addr)) :
    ∃ s' evs, s.step (.addTimer ms cb recurring now addr) = some s' ∧ Effect s evs s' := by
  have hfree : ∀ q u, s.InUse q → s.mgr.heap[q]? = some u → u.addr ≠ addr := by
    intro q u hq hu heq
    exact hlegal q hq (by rw [hu, ← heq]; rfl)
  obtain ⟨l, r, hlr, hadd, hcons⟩ := addTimer_spec h.consistent ms cb recurring now addr hfree
  have hmem : ∀ q, q ∈ l ++ s.mgr.heap.length :: r ↔ q = s.mgr.heap.length ∨ q ∈ s.mgr.timers := by
    intro q
    rw [hlr]
    simp only [List.mem_append, List.mem_cons]
    tauto
  rw [hadd] at hcons
  refine ⟨_, [], by simp only [step, hadd]; rfl, ?_⟩
  refine
    { wf := ⟨hcons.mono ?sub ?live, ?held⟩
      log := (List.append_nil _).symm
      grows := by simp
      recurring := fun p hp => by rw [List.getElem?_append_left hp]
      old := ?old
      new := ?new
      cancels := fun p hp => absurd hp (by simp)
      returns := fun p cb hp => absurd hp List.not_mem_nil
      once := fun p => by simp }
  case sub =>
      intro q hq
      simp only [InUse, List.cons_append, List.mem_cons, List.mem_append, hmem] at hq ⊢
      tauto
  case live =>
      intro q hq
      exact List.mem_append_right _ (((hcons.armed q).mp hq).resolve_right List.not_mem_nil)
  case held =>
      intro p hp
      simp only [List.length_append, List.length_singleton]
      rcases List.mem_cons.mp hp with rfl | hp
      · exact Nat.lt_succ_self _
      · exact Nat.lt_succ_of_lt (h.held p hp)
  case old =>
      intro p hp
      simp only [hmem, hp.ne, false_or, List.any_nil, Bool.false_eq_true, not_false_eq_true,
        implies_true, and_true]
  case new =>
      intro p hle hlt
      simp only [List.length_append, List.length_singleton] at hlt
      exact (hmem p).mpr (.inl (Nat.le_antisymm (Nat.lt_succ_iff.mp hlt) hle))

theorem cancel_effect (h : s.Wf) {p : TimerPtr} (hp : p ∈ s.held) :
    ∃ s' evs, s.step (.cancel p) = some s' ∧ Effect s evs s' := by
  obtain ⟨t, ht⟩ := h.deref hp
  cases hcb : t.cb with
  | none =>
      refine ⟨s, [], ?_, .quiet h.held h.consistent (fun _ hq => hq) rfl (fun _ => rfl)
        fun _ => .rfl⟩
      simp [step, cancel_unarmed ht hcb]
  | some cb =>
      have hmem := h.mem_of_cb ht hcb
      obtain ⟨hcancel, hcons⟩ := cancel_armed h.consistent hmem
      have herase : ∀ q, q ∈ s.mgr.timers.erase p ↔ q ≠ p ∧ q ∈ s.mgr.timers := fun q =>
        h.consistent.timers_nodup.mem_erase_iff
      refine ⟨_, [.cancelled p], by simp only [step, hcancel]; rfl, ?_⟩
      refine
        { wf := ⟨hcons.mono ?sub ?live, fun q hq => by simpa using h.held q hq⟩
          log := rfl
          grows := by simp
          recurring := fun q _ => map_recurring_store s.mgr p q fun _ => rfl
          old := ?old
          new := fun q h₁ h₂ => absurd h₂ (by simpa using h₁)
          cancels := ?cancels
          returns := fun q cb hq => absurd hq (by simp)
          once := fun q => by simp [Event.returns] }
      case sub =>
          intro q hq
          rcases List.mem_append.mp hq with hq | hq
          · exact List.mem_append_left _ hq
          · exact List.mem_append_right _ ((herase q).mp hq).2
      case live =>
          intro q hq
          exact List.mem_append_right _
            (((hcons.armed q).mp hq).resolve_right List.not_mem_nil)
      case old =>
          intro q _
          refine (herase q).trans ?_
          simp only [List.any_cons, List.any_nil, Bool.or_false, Event.cancels, Event.returns,
            beq_iff_eq, Bool.false_eq_true, not_false_eq_true, implies_true, and_true]
          exact ⟨fun hq => ⟨hq.2, Ne.symm hq.1⟩, fun hq => ⟨Ne.symm hq.2, hq.1⟩⟩
      case cancels =>
          intro q hq
          simp only [List.any_cons, List.any_nil, Bool.or_false, Event.cancels, beq_iff_eq] at hq
          exact hq ▸ hmem

theorem refresh_effect (h : s.Wf) {p : TimerPtr} {now : Nat} (hp : p ∈ s.held) :
    ∃ s' evs, s.step (.refresh p now) = some s' ∧ Effect s evs s' := by
  obtain ⟨t, ht⟩ := h.deref hp
  cases hcb : t.cb with
  | none =>
      refine ⟨s, [], ?_, .quiet h.held h.consistent (fun _ hq => hq) rfl (fun _ => rfl)
        fun _ => .rfl⟩
      simp [step, refresh_unarmed ht hcb]
  | some cb =>
      have hmem := h.mem_of_cb ht hcb
      obtain ⟨l, r, hlr, hrefresh, hcons⟩ := refresh_armed h.consistent hmem now
      exact ⟨_, [], by simp only [step, hrefresh]; rfl,
        .quiet h.held hcons (fun _ hq => hq) (length_store ..)
          (fun q => map_recurring_store s.mgr p q fun _ => rfl) (mem_of_erase_eq hmem hlr)⟩

theorem reset_effect (h : s.Wf) {p : TimerPtr} {ms : Nat} {fromNow : Bool} {now : Nat}
    (hp : p ∈ s.held) :
    ∃ s' evs, s.step (.reset p ms fromNow now) = some s' ∧ Effect s evs s' := by
  obtain ⟨t, ht⟩ := h.deref hp
  have hsame : Effect s [] s :=
    .quiet h.held h.consistent (fun _ hq => hq) rfl (fun _ => rfl) fun _ => .rfl
  by_cases hdiff : ms = t.ms ∧ fromNow = false
  · obtain ⟨rfl, rfl⟩ := hdiff
    exact ⟨s, [], by simp [step, reset_same ht], hsame⟩
  · cases hcb : t.cb with
    | none => exact ⟨s, [], by simp [step, reset_unarmed ht hcb hdiff], hsame⟩
    | some cb =>
        have hmem := h.mem_of_cb ht hcb
        obtain ⟨l, r, f, hlr, rfl, hreset, hcons⟩ := reset_armed h.consistent hmem ht hdiff now
        exact ⟨_, [], by simp only [step, hreset]; rfl,
          .quiet h.held hcons (fun _ hq => hq) (length_store ..)
            (fun q => map_recurring_store s.mgr p q fun _ => rfl) (mem_of_erase_eq hmem hlr)⟩

/-- The callbacks returned for a list of different timers. -/
theorem any_returns (m : TimerManager Cb) (ps : List TimerPtr) (p : TimerPtr) :
    (((ps.map fun q => (q, m.heap[q]?.bind Timer.cb)).map fun c =>
      Event.returned c.1 c.2).any (·.returns p)) = true ↔ p ∈ ps := by
  simp [Event.returns]

theorem any_cancels (m : TimerManager Cb) (ps : List TimerPtr) (p : TimerPtr) :
    (((ps.map fun q => (q, m.heap[q]?.bind Timer.cb)).map fun c =>
      Event.returned c.1 c.2).any (·.cancels p)) = false := by
  rw [List.any_map, List.any_map]
  exact List.any_eq_false.mpr fun _ _ => Bool.false_ne_true

theorem listExpiredCb_effect (h : s.Wf) (now addr : Nat) :
    ∃ s' evs, s.step (.listExpiredCb now addr) = some s' ∧ Effect s evs s' := by
  obtain ⟨m', it, hlist, hcons, hheap, htimers, -, -⟩ := listExpiredCb_spec h.consistent now addr
  have hsub : ∀ q ∈ s.mgr.timers.take it, q ∈ s.mgr.timers := fun q hq => List.mem_of_mem_take hq
  have hlen : m'.heap.length = s.mgr.heap.length := by
    have hnone : ∀ n : TimerPtr, m'.heap[n]? = none ↔ s.mgr.heap[n]? = none := by
      intro n
      rw [hheap]
      split
      · rw [Option.map_eq_none_iff]
      · rfl
    simp only [List.getElem?_eq_none_iff] at hnone
    exact Nat.le_antisymm ((hnone _).mpr le_rfl) ((hnone _).mp le_rfl)
  refine ⟨_, (((s.mgr.timers.take it).map fun q => (q, s.mgr.heap[q]?.bind Timer.cb)).map
    fun c => Event.returned c.1 c.2), by simp only [step, hlist]; rfl, ?_⟩
  refine
    { wf := ⟨hcons.mono ?sub ?live, fun q hq => by rw [hlen]; exact h.held q hq⟩
      log := rfl
      grows := hlen.ge
      recurring := ?recurring
      old := ?old
      new := fun q h₁ h₂ => absurd h₂ (by simp only [hlen]; omega)
      cancels := fun q hq => absurd hq (by simp only [any_cancels]; exact Bool.false_ne_true)
      returns := ?returns
      once := ?once }
  case sub =>
      intro q hq
      rcases List.mem_append.mp hq with hq | hq
      · exact List.mem_append_left _ hq
      · exact List.mem_append_right _ ((htimers q).mp hq).1
  case live =>
      intro q hq
      exact List.mem_append_right _ (((hcons.armed q).mp hq).resolve_right List.not_mem_nil)
  case recurring =>
      intro q _
      rw [hheap]
      split
      · cases s.mgr.heap[q]? with
        | none => rfl
        | some t =>
            simp only [Option.map_some, fired]
            split <;> rfl
      · rfl
  case old =>
      intro q hq
      refine (htimers q).trans ?_
      have hone : (q ∈ s.mgr.timers.take it → ∃ t, s.mgr.heap[q]? = some t ∧ t.recurring = true)
          ↔ (s.OneShot q → q ∉ s.mgr.timers.take it) := by
        have ht : s.mgr.heap[q]? = some s.mgr.heap[q] := List.getElem?_eq_getElem hq
        simp only [OneShot, ht, Option.some.injEq, exists_eq_left']
        cases s.mgr.heap[q].recurring <;> simp
      simp only [any_returns, any_cancels, hone, Bool.false_eq_true, not_false_eq_true, true_and]
  case returns =>
      intro q cb hq
      simp only [List.map_map, List.mem_map, Function.comp_apply, Event.returned.injEq] at hq
      obtain ⟨q, hmem, rfl, rfl⟩ := hq
      obtain ⟨t, ht, -⟩ := (h.consistent.armed q).mpr (.inl (hsub q hmem))
      exact ⟨hsub q hmem, t, ht, by rw [ht]; rfl⟩
  case once =>
      intro q
      rw [List.countP_map, List.countP_map]
      have hcount := List.nodup_iff_count_le_one.mp
        (h.consistent.timers_nodup.sublist (List.take_sublist it _)) q
      simpa only [List.count, Function.comp_def, Event.returns] using hcount

/-- Every call that can be made succeeds, and does what `Effect` says. -/
theorem step_spec (h : s.Wf) {op : Op Cb} (hlegal : s.Legal op) :
    ∃ s' evs, s.step op = some s' ∧ Effect s evs s' := by
  cases op with
  | addTimer ms cb recurring now addr => exact addTimer_effect h hlegal
  | cancel p => exact cancel_effect h hlegal
  | refresh p now => exact refresh_effect h hlegal
  | reset p ms fromNow now => exact reset_effect h hlegal
  | listExpiredCb now addr => exact listExpiredCb_effect h now addr
  | getNextTimer now =>
      obtain ⟨d, hd⟩ := getNextTimer_spec h.consistent now
      have hc := h.consistent
      have he : Effect s [] { s with mgr := { s.mgr with tickled := false } } :=
        .quiet h.held ⟨hc.armed, hc.sorted, hc.nodup, hc.apart, hc.live, hc.addr⟩
          (fun _ hq => hq) rfl (fun _ => rfl) fun _ => .rfl
      exact ⟨_, [], by simp only [step, hd]; rfl, he⟩
  | release p =>
      exact ⟨_, [], rfl, .quiet h.held h.consistent (fun _ hq => List.mem_of_mem_filter hq) rfl
        (fun _ => rfl) fun _ => .rfl⟩

/-! ## Whole runs -/

/-- The set and the log agree: the members are the timers that were added, not
cancelled and, when one-shot, not returned. -/
structure History (s : Users Cb) : Prop where
  wf : s.Wf
  member : ∀ p < s.mgr.heap.length, p ∈ s.mgr.timers ↔
    ¬ s.log.any (·.cancels p) ∧ (s.OneShot p → ¬ s.log.any (·.returns p))
  once : ∀ p, s.OneShot p → s.log.countP (·.returns p) ≤ 1
  known : ∀ p, s.mgr.heap.length ≤ p →
    ¬ s.log.any (·.cancels p) ∧ ¬ s.log.any (·.returns p)

theorem history_init (now : Nat) : (init now : Users Cb).History where
  wf :=
    { consistent :=
        { armed := fun p => by simp [Armed, init, create]
          sorted := List.Pairwise.nil
          nodup := List.nodup_nil
          apart := fun p hp => absurd hp List.not_mem_nil
          live := fun p hp => absurd hp (by simp [Armed, init, create])
          addr := fun p q t u _ _ ht => absurd ht (by simp [init, create]) }
      held := fun p hp => absurd hp List.not_mem_nil }
  member := fun p hp => absurd hp (Nat.not_lt_zero p)
  once := fun p _ => Nat.zero_le _
  known := fun p _ => by simp [init]

theorem OneShot.back {evs : List (Event Cb)} (he : Effect s evs s') {p : TimerPtr}
    (hlt : p < s.mgr.heap.length) : s'.OneShot p ↔ s.OneShot p := by
  have hmap : ∀ u : Users Cb, u.OneShot p ↔ u.mgr.heap[p]?.map Timer.recurring = some false := by
    intro u
    rw [Option.map_eq_some_iff]
    rfl
  rw [hmap, hmap, he.recurring p hlt]

theorem Effect.returns_mem {evs : List (Event Cb)} (he : Effect s evs s') {p : TimerPtr}
    (hret : evs.any (·.returns p)) : p ∈ s.mgr.timers := by
  obtain ⟨e, hmem, hep⟩ := List.any_eq_true.mp hret
  cases e with
  | cancelled q => exact absurd hep Bool.false_ne_true
  | returned q cb =>
      obtain rfl : q = p := by simpa [Event.returns] using hep
      exact (he.returns q cb hmem).1

/-- The agreement is kept by every call. -/
theorem History.step {evs : List (Event Cb)} (h : s.History) (he : Effect s evs s') :
    s'.History := by
  have hvalid : ∀ p ∈ s.mgr.timers, p < s.mgr.heap.length := fun p hp =>
    h.wf.consistent.valid (.inl hp)
  -- a timer that does not exist yet has no events
  have hfresh : ∀ p, s.mgr.heap.length ≤ p →
      ¬ s'.log.any (·.cancels p) ∧ ¬ s'.log.any (·.returns p) := by
    intro p hp
    obtain ⟨hc, hr⟩ := h.known p hp
    simp only [he.log, List.any_append, Bool.or_eq_true, not_or]
    exact ⟨⟨hc, fun hev => absurd (hvalid p (he.cancels p hev)) (Nat.not_lt.mpr hp)⟩,
      hr, fun hev => absurd (hvalid p (he.returns_mem hev)) (Nat.not_lt.mpr hp)⟩
  refine ⟨he.wf, ?_, ?_, fun p hp => hfresh p (he.grows.trans hp)⟩
  · intro p hp
    by_cases hlt : p < s.mgr.heap.length
    · rw [he.old p hlt, h.member p hlt, he.log, OneShot.back he hlt]
      simp only [List.any_append, Bool.or_eq_true, not_or]
      tauto
    · have hle := Nat.not_lt.mp hlt
      obtain ⟨hc, hr⟩ := hfresh p hle
      exact iff_of_true (he.new p hle hp) ⟨hc, fun _ => hr⟩
  · intro p hone
    by_cases hlt : p < s.mgr.heap.length
    · have hone' := (OneShot.back he hlt).mp hone
      rw [he.log, List.countP_append]
      by_cases hev : evs.any (·.returns p)
      · have hno := ((h.member p hlt).mp (he.returns_mem hev)).2 hone'
        have hzero : s.log.countP (·.returns p) = 0 :=
          List.countP_eq_zero.mpr fun e he hep => hno (List.any_eq_true.mpr ⟨e, he, hep⟩)
        have := he.once p
        omega
      · have hzero : evs.countP (·.returns p) = 0 :=
          List.countP_eq_zero.mpr fun e he hep => hev (List.any_eq_true.mpr ⟨e, he, hep⟩)
        have := h.once p hone'
        omega
    · have hno := (hfresh p (Nat.not_lt.mp hlt)).2
      have hzero : s'.log.countP (·.returns p) = 0 :=
        List.countP_eq_zero.mpr fun e he hep => hno (List.any_eq_true.mpr ⟨e, he, hep⟩)
      omega

theorem reach_history {now : Nat} (h : Reach step Legal (init now : Users Cb) s) : s.History := by
  refine h.invariant (history_init now) ?_
  intro u op u' hu hlegal hstep
  obtain ⟨v, evs, hv, he⟩ := step_spec hu.wf hlegal
  obtain rfl : u' = v := Option.some.inj (hstep.symm.trans hv)
  exact hu.step he

/-- From a state on, the log only grows, cancelled timers are not returned, and
the timers that leave the set are reported. -/
structure Since (s s' : Users Cb) : Prop where
  history : s'.History
  log : ∃ evs, s'.log = s.log ++ evs ∧
    (∀ p, s.log.any (·.cancels p) → ¬ evs.any (·.returns p)) ∧
    ∀ p ∈ s.mgr.timers, p ∉ s'.mgr.timers → evs.any (·.cancels p) ∨ evs.any (·.returns p)
  grows : s.mgr.heap.length ≤ s'.mgr.heap.length

theorem reach_since (h : s.History) (hreach : Reach step Legal s s') : Since s s' := by
  refine hreach.invariant
    ⟨h, ⟨[], (List.append_nil _).symm, by simp, fun p hp hn => absurd hp hn⟩, le_rfl⟩ ?_
  rintro u op u' ⟨hu, ⟨evs, hlog, hcan, hleft⟩, hgrow⟩ hlegal hstep
  obtain ⟨v, evs', hv, he⟩ := step_spec hu.wf hlegal
  obtain rfl : u' = v := Option.some.inj (hstep.symm.trans hv)
  refine ⟨hu.step he, ⟨evs ++ evs', by rw [he.log, hlog, List.append_assoc], ?_, ?_⟩,
    hgrow.trans he.grows⟩
  · intro p hp hret
    rw [List.any_append, Bool.or_eq_true] at hret
    rcases hret with hret | hret
    · exact hcan p hp hret
    · have hmem := he.returns_mem hret
      have hlt := hu.wf.consistent.valid (.inl hmem)
      refine ((hu.member p hlt).mp hmem).1 ?_
      rw [hlog, List.any_append, hp, Bool.true_or]
  · intro p hp hn
    have hlt := (h.wf.consistent.valid (.inl hp)).trans_le hgrow
    simp only [List.any_append, Bool.or_eq_true]
    by_cases hmem : p ∈ u.mgr.timers
    · rw [he.old p hlt] at hn
      tauto
    · have := hleft p hp hmem
      tauto

/-- **The timer set is consistent in every run.**  Whatever calls are made, in
whatever order and with whatever clock readings: no call faults, so `cancel`
finds its timer; a timer has a callback iff it is in the set, where it is once
and in the order of the current deadlines; a one-shot timer's callback is
returned at most once; after a timer has been cancelled no callback of it is
returned; and a timer leaves the set only by being cancelled or returned. -/
theorem timers_consistent {now : Nat} {s s' : Users Cb}
    (h : Reach step Legal (init now) s) (h' : Reach step Legal s s') :
    (∀ op, s.Legal op → (s.step op).isSome) ∧
    (∀ p, s.mgr.Armed p ↔ p ∈ s.mgr.timers) ∧
    s.mgr.timers.Nodup ∧
    s.mgr.timers.Pairwise (fun p q => s.mgr.before p q = true) ∧
    (∀ p, s.mgr.Armed p → (s.mgr.find p).isSome) ∧
    (∀ p, s.OneShot p → s.log.countP (·.returns p) ≤ 1) ∧
    ∃ evs, s'.log = s.log ++ evs ∧
      (∀ p, s.log.any (·.cancels p) → ¬ evs.any (·.returns p)) ∧
      ∀ p ∈ s.mgr.timers, p ∉ s'.mgr.timers →
        evs.any (·.cancels p) ∨ evs.any (·.returns p) := by
  have hs := reach_history h
  have hc := hs.wf.consistent
  have harmed : ∀ p, s.mgr.Armed p ↔ p ∈ s.mgr.timers := fun p =>
    (hc.armed p).trans (or_iff_left List.not_mem_nil)
  refine ⟨?_, harmed, hc.timers_nodup, ?_, ?_, hs.once, (reach_since hs h').log⟩
  · intro op hlegal
    obtain ⟨v, -, hv, -⟩ := step_spec hs.wf hlegal
    exact hv ▸ rfl
  · exact hc.sorted.imp fun hlt => (s.mgr.before_iff _ _).mpr hlt
  · intro p hp
    obtain ⟨it, hfind, -⟩ := hc.take_out ((harmed p).mp hp)
    exact hfind ▸ rfl

/-- Two timers with one deadline, one of them recurring; the first is returned,
then the other is cancelled and reset in vain. -/
def sameDeadline : List (Op Unit) :=
  [.addTimer 10 () false 5 64, .addTimer 10 () true 5 32, .getNextTimer 6,
    .listExpiredCb 15 96, .refresh 1 12, .cancel 1, .reset 1 20 true 16, .release 0]

theorem timers_consistent_sameDeadline :
    ∃ s, run (guarded step Legal) (init 0) sameDeadline = some s ∧
      (∀ p, s.mgr.Armed p ↔ p ∈ s.mgr.timers) ∧
      (∀ p, s.OneShot p → s.log.countP (·.returns p) ≤ 1) := by
  obtain ⟨s, hs⟩ := Option.isSome_iff_exists.mp
    (by decide +kernel : (run (guarded step Legal) (init 0) sameDeadline).isSome)
  obtain ⟨-, harmed, -, -, -, honce, -⟩ := timers_consistent (run_reach _ hs) .refl
  exact ⟨s, hs, harmed, honce⟩

end Users

end CoLib.TimerManager
