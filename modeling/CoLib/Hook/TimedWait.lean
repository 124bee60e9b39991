/-
# `CoLib.Hook.TimedWait` — a wait with a timeout

The callback of a condition timer sets `tinfo->cancelled` and calls `cancelEvent`,
which wakes the fiber if its event is registered.  The timer is armed before
`addEvent`, and a timer of an earlier round whose callback is already on its way
cannot be cancelled: when the flag is set after the call last looked at it and
before `addEvent`, there is nothing to cancel, and the fiber parks with no timer
left.

**Proved here.**  `prompt` is the condition that this does not happen, and that
the kernel accepts the callback's `epoll_ctl` for a registered event.
`timed_wait_stays_timed`: in runs that meet it, while the fiber waits with its
event registered, one of its timers is armed or has a callback that has not
returned, and if the flag is set, a callback is about to cancel the event.
-/
import CoLib.Hook.Steps

namespace CoLib

open Lib Relation

variable {S F C T : Type}

/-! ## The registration of the fiber -/

namespace FdContext

/-- One bit is assigned with its context. -/
theorem waiting_assign {c : FdContext S F C} {events : Events} {event other : Event}
    (ctx : EventContext S F C)
    (hother : other ≠ event → events.has other = c.events.has other) :
    (({ c with events } : FdContext S F C).setContext event ctx).waiting other =
      if other = event then
        if events.has event then ctx.fiber.map Waiter.reg else none
      else c.waiting other := by
  rw [waiting, events_setContext]
  by_cases heq : other = event
  · subst heq
    cases other <;> cases h : events.has _ <;> simp_all [setContext, getContext, Events.has]
  · rw [if_neg heq, waiting]
    simp only [hother heq]
    cases event <;> cases other <;> first | rfl | exact absurd rfl heq

end FdContext

namespace IOManager

variable {G : Option S → Prop} {m m' : IOManager S F C} {p : FdContextPtr} {event : Event}

/-- No fiber has begun to wait under a number given out before. -/
def Keeps (p : FdContextPtr) (event : Event) (m m' : IOManager S F C) : Prop :=
  m.nextReg ≤ m'.nextReg ∧
    ∀ r < m.nextReg, m'.waiting p event = some r → m.waiting p event = some r

theorem Keeps.refl (m : IOManager S F C) : Keeps p event m m :=
  ⟨le_rfl, fun _ _ h => h⟩

/-- Assigning one bit of `*q` with its context leaves the other waiters where they
are. -/
theorem waiting_assign {q : FdContextPtr} {c : FdContext S F C} {events : Events} {other : Event}
    {ctx : EventContext S F C} (hc : m.heap[q]? = some c)
    (hheap : m'.heap = m.heap.set q (({ c with events } : FdContext S F C).setContext other ctx))
    (hother : ∀ ev, ev ≠ other → events.has ev = c.events.has ev) :
    m'.waiting p event =
      if p = q ∧ event = other then
        if events.has other then ctx.fiber.map Waiter.reg else none
      else m.waiting p event := by
  obtain ⟨hlt, -⟩ := List.getElem?_eq_some_iff.mp hc
  rw [waiting, waiting, hheap]
  by_cases hpq : p = q
  · subst hpq
    rw [List.getElem?_set_self hlt, hc, Option.bind_some, Option.bind_some,
      FdContext.waiting_assign ctx (hother event)]
    simp
  · rw [List.getElem?_set_ne (Ne.symm hpq), if_neg fun h => hpq h.1]

theorem keeps_move (h : Move G m m') : Keeps p event m m' := by
  cases h with
  | epoll e => exact ⟨le_rfl, fun _ _ h => h⟩
  | @register q c other ctx scheduler waiter hc hhas hget hG hctx =>
      refine ⟨Nat.le_succ _, fun r hr hw => ?_⟩
      rw [waiting_assign hc rfl fun ev hne => Events.has_insert_ne c.events hne] at hw
      split at hw
      · split at hw
        · rw [hctx] at hw
          cases waiter with
          | inl f =>
              obtain rfl : m.nextReg = r := by simpa using hw
              exact absurd hr (lt_irrefl _)
          | inr cb => exact absurd hw (by simp)
        · exact absurd hw (by simp)
      · exact hw
  | @remove q c other ctx hc hhas hget =>
      refine ⟨le_rfl, fun r hr hw => ?_⟩
      rw [waiting_assign hc rfl fun ev hne => Events.has_erase_ne c.events hne,
        Events.has_erase_self] at hw
      split at hw
      · exact absurd hw (by simp)
      · exact hw
  | @trigger q c c' other remover entries hr hc ht =>
      obtain ⟨-, ctx, s, -, -, rfl, -⟩ := FdContext.triggerEvent_ok ht
      refine ⟨le_rfl, fun r hr hw => ?_⟩
      rw [waiting_assign hc rfl fun ev hne => Events.has_erase_ne c.events hne,
        Events.has_erase_self] at hw
      split at hw
      · exact absurd hw (by simp)
      · exact hw
  | resize size =>
      refine ⟨le_rfl, fun r hr hw => ?_⟩
      simp only [waiting, contextResize] at hw ⊢
      rw [List.getElem?_append] at hw
      split at hw
      · exact hw
      · obtain ⟨c, hc, hw⟩ := Option.bind_eq_some_iff.mp hw
        obtain ⟨i, -, rfl⟩ := List.mem_map.mp (List.mem_of_getElem? hc)
        cases event <;> exact absurd hw (by simp [FdContext.waiting, FdContext.new, Events.has,
          Events.none])

theorem keeps_moves (h : ReflTransGen (Move G) m m') : Keeps p event m m' := by
  refine moves_keep (I := fun m' => Keeps p event m m') ?_ h (.refl m)
  intro m₁ m₂ h₁ hmove
  have h₂ : Keeps p event m₁ m₂ := keeps_move hmove
  exact ⟨h₁.1.trans h₂.1, fun r hr hw => h₁.2 r hr (h₂.2 r (hr.trans_le h₁.1) hw)⟩

/-- `cancelEvent` wakes a registered fiber when the kernel lets it. -/
theorem cancelEvent_waiting {fd : Nat} {r : Nat} {b : Bool} (hw : m.waiting p event = some r)
    (hep : (m.epoll fd).isSome = true) (h : m.cancelEvent fd p event true = .ok (m', b)) :
    m'.waiting p event = none := by
  obtain ⟨c, hc, hw⟩ := Option.bind_eq_some_iff.mp hw
  have hhas : c.events.has event = true := by
    cases hhas : c.events.has event with
    | true => rfl
    | false => exact absurd hw (by simp [FdContext.waiting, hhas])
  obtain ⟨e, he⟩ := Option.isSome_iff_exists.mp hep
  obtain ⟨c₁, hc₁, h⟩ := bind_ok h
  obtain rfl : c = c₁ := Option.some.inj (hc.symm.trans (deref_ok.mp hc₁))
  rw [if_pos hhas] at h
  obtain ⟨epoll, hctl⟩ : ∃ epoll, m.epollCtl
      (if c.events.erase event = .none then CtlOp.DEL else CtlOp.MOD) fd (c.events.erase event) p
        true = some epoll := by
    split <;> exact ⟨_, by simp only [epollCtl, he]; rfl⟩
  dsimp only at h
  rw [hctl] at h
  obtain ⟨m₁, ht, h⟩ := bind_ok h
  obtain ⟨rfl, -⟩ := Prod.mk.inj (Except.ok.inj h)
  obtain ⟨c₂, hc₂, ht⟩ := bind_ok ht
  obtain rfl : c = c₂ := Option.some.inj (hc.symm.trans (deref_ok.mp hc₂))
  obtain ⟨⟨c', entries⟩, htrig, ht⟩ := bind_ok ht
  obtain rfl := Except.ok.inj ht
  obtain ⟨-, ctx, s, -, -, rfl, -⟩ := FdContext.triggerEvent_ok htrig
  rw [waiting_assign hc rfl fun ev hne => Events.has_erase_ne c.events hne]
  simp [Events.has_erase_self]

end IOManager

/-! ## The wait -/

namespace IoSys

/-- The fiber has left the processor, or is about to, and its event is
registered. -/
def Waits (a : WaitArgs S F) (s : IoSys S F C T) : Prop :=
  (s.pc = .yield ∨ s.pc = .parked) ∧
    ∃ r, s.reg = some r ∧ s.mgr.waiting a.ctx a.event = some r

/-- The condition on a step: a callback does not set the flag between the call's
last look at it (or the beginning) and `addEvent`, and the kernel accepts the
`epoll_ctl` by which a callback removes the fiber's event. -/
def prompt (a : WaitArgs S F) (s : IoSys S F C T) : IoAct S F C T → Prop
  | .set _ => s.pc ≠ .call ∧ s.pc ≠ .arm ∧ s.pc ≠ .add
  | .cancelEvent _ ok => s.mgr.waiting a.ctx a.event = s.reg →
      ok = true ∧ (s.mgr.epoll a.fd).isSome = true
  | _ => True

instance (a : WaitArgs S F) (s : IoSys S F C T) :
    (act : IoAct S F C T) → Decidable (s.prompt a act)
  | .set _ => inferInstanceAs (Decidable (s.pc ≠ .call ∧ s.pc ≠ .arm ∧ s.pc ≠ .add))
  | .cancelEvent _ ok => inferInstanceAs (Decidable (s.mgr.waiting a.ctx a.event = s.reg →
      ok = true ∧ (s.mgr.epoll a.fd).isSome = true))
  | .enter | .call _ | .arm | .add _ | .yield | .resume | .disarm | .test | .getsockopt ..
  | .expire _ | .lock _ | .check _ | .event .. | .wait .. | .dispatch .. | .resize _ | .close ..
  | .cancelAll .. | .del _ | .close_f _ | .socket .. | .get _ => inferInstanceAs (Decidable True)

/-- What holds between two steps. -/
structure Timely (a : WaitArgs S F) (s : IoSys S F C T) : Prop where
  fresh : ∀ r, s.reg = some r → r < s.mgr.nextReg
  start : s.pc = .entry ∨ s.pc = .plain → s.timers = [] ∧ s.cancelled = none
  owing : CondTimer.owing ∈ s.timers → s.cancelled ≠ none
  unset : s.pc = .call ∨ s.pc = .arm ∨ s.pc = .add → s.cancelled = none
  woken : s.Waits a → s.cancelled ≠ none → CondTimer.owing ∈ s.timers
  timed : s.pc = .add ∨ s.Waits a → s.timeout ≠ wordSize - 1 →
    ∃ t ∈ s.timers, t.pending = true

variable {a : WaitArgs S F} {s s' : IoSys S F C T}

theorem timely_init (a : WaitArgs S F) (kernel : Kernel) (fds : FdManager)
    (mgr : IOManager S F C) : (init kernel fds mgr : IoSys S F C T).Timely a where
  fresh := fun _ h => absurd h (by simp [init])
  start := fun _ => ⟨rfl, rfl⟩
  owing := fun h => absurd h List.not_mem_nil
  unset := fun _ => rfl
  woken := fun _ h => absurd rfl h
  timed := fun h => by
    rcases h with h | ⟨h | h, -⟩ <;> exact absurd h (by simp [init])

/-- Nothing of the call changes. -/
theorem Timely.frame (h : s.Timely a) (hpc : s'.pc = s.pc) (hto : s'.timeout = s.timeout)
    (hcan : s'.cancelled = s.cancelled) (htim : s'.timers = s.timers) (hreg : s'.reg = s.reg)
    (hmgr : s.mgr.Keeps a.ctx a.event s'.mgr) : s'.Timely a := by
  have hwaits : s'.Waits a → s.Waits a := by
    rintro ⟨hph, r, hr, hw⟩
    rw [hpc] at hph
    rw [hreg] at hr
    exact ⟨hph, r, hr, hmgr.2 r (h.fresh r hr) hw⟩
  refine ⟨?_, ?_, ?_, ?_, ?_, ?_⟩
  · intro r hr
    exact (h.fresh r (hreg ▸ hr)).trans_le hmgr.1
  · rw [hpc, htim, hcan]
    exact h.start
  · rw [htim, hcan]
    exact h.owing
  · rw [hpc, hcan]
    exact h.unset
  · rw [hcan, htim]
    exact fun hw => h.woken (hwaits hw)
  · rw [hpc, hto, htim]
    exact fun hw => h.timed (hw.imp_right hwaits)

/-- The call goes on to a place where it does not wait. -/
theorem Timely.goto (h : s.Timely a) (hcan : s'.cancelled = s.cancelled)
    (htim : ∀ t ∈ s'.timers, t = .owing → t ∈ s.timers) (hreg : s'.reg = s.reg)
    (hmgr : s.mgr.nextReg ≤ s'.mgr.nextReg) (hstart : s'.pc ≠ .entry ∧
      (s'.pc = .plain → s'.timers = [] ∧ s.cancelled = none))
    (hunset : s'.pc = .call ∨ s'.pc = .arm → s.cancelled = none)
    (hwait : s'.pc ≠ .add ∧ s'.pc ≠ .yield ∧ s'.pc ≠ .parked) : s'.Timely a where
  fresh := fun r hr => (h.fresh r (hreg ▸ hr)).trans_le hmgr
  start := fun hpc => by
    rw [hcan]
    exact hstart.2 (hpc.resolve_left hstart.1)
  owing := fun hmem => by
    rw [hcan]
    exact h.owing (htim _ hmem rfl)
  unset := fun hpc => by
    rw [hcan]
    exact hunset (hpc.imp_right fun hpc => hpc.resolve_right hwait.1)
  woken := fun hw => absurd hw.1 (not_or.mpr hwait.2)
  timed := fun hw => by
    rcases hw with hw | hw
    · exact absurd hw hwait.1
    · exact absurd hw.1 (not_or.mpr hwait.2)

/-- The call goes on, and only its place, its timeout and what is recorded of it
change. -/
theorem Timely.moveOn (h : s.Timely a) {pc : IoPc} (timeout : Nat) (enteredOn : Option Nat)
    (hstart : pc ≠ .entry ∧ (pc = .plain → s.timers = [] ∧ s.cancelled = none))
    (hunset : pc = .call ∨ pc = .arm → s.cancelled = none)
    (hwait : pc ≠ .add ∧ pc ≠ .yield ∧ pc ≠ .parked) :
    ({ s with pc, timeout, enteredOn } : IoSys S F C T).Timely a := by
  exact h.goto rfl (fun _ ht _ => ht) rfl le_rfl hstart hunset hwait

/-- Another timer than the one assigned is still there. -/
theorem mem_set_of_ne {l : List CondTimer} {i : Nat} {t t' u : CondTimer} (ht : l[i]? = some t)
    (hu : u ∈ l) (hne : u ≠ t) : u ∈ l.set i t' := by
  obtain ⟨j, hj⟩ := List.mem_iff_getElem?.mp hu
  have hij : i ≠ j := by
    rintro rfl
    exact hne (Option.some.inj (hj.symm.trans ht))
  exact List.mem_of_getElem? ((List.getElem?_set_ne hij).trans hj)

theorem mem_set_self {l : List CondTimer} {i : Nat} {t : CondTimer} (ht : l[i]? = some t)
    (t' : CondTimer) : t' ∈ l.set i t' :=
  List.mem_of_getElem? (List.getElem?_set_self (List.getElem?_eq_some_iff.mp ht).1)

/-- A callback goes on without touching the flag or the event. -/
theorem Timely.setTimer (h : s.Timely a) {i : Nat} {t t' : CondTimer} (ht : s.timers[i]? = some t)
    (hne : t ≠ .owing) (hne' : t' ≠ .owing)
    (htimed : s.pc = .add ∨ s.Waits a → ∃ u ∈ s.timers.set i t', u.pending = true) :
    (s.setTimer i t').Timely a where
  fresh := h.fresh
  start := fun hpc => absurd (List.mem_of_getElem? ht) (by simp [(h.start hpc).1])
  owing := fun hmem => h.owing <| by
    rcases List.mem_or_eq_of_mem_set hmem with hmem | rfl
    · exact hmem
    · exact absurd rfl hne'
  unset := h.unset
  woken := fun hw hcan => mem_set_of_ne ht (h.woken hw hcan) (Ne.symm hne)
  timed := fun hw _ => htimed hw

/-- The timer is armed before `addEvent`. -/
theorem Timely.arm (h : s.Timely a) (hpc : s.pc = .arm) : s.arm.Timely a := by
  have hcan := h.unset (.inr (.inl hpc))
  rw [IoSys.arm]
  split
  · rename_i hto
    exact
      { fresh := h.fresh
        start := fun hpc => absurd hpc (by simp)
        owing := h.owing
        unset := fun _ => hcan
        woken := fun _ hne => absurd hcan hne
        timed := fun _ hne => absurd hto hne }
  · exact
      { fresh := h.fresh
        start := fun hpc => absurd hpc (by simp)
        owing := fun hmem => h.owing (by simpa using hmem)
        unset := fun _ => hcan
        woken := fun _ hne => absurd hcan hne
        timed := fun _ _ => ⟨.armed, by simp, rfl⟩ }

/-- The event is registered while the flag is not set and the timer is pending. -/
theorem Timely.added (h : s.Timely a) (hpc : s.pc = .add) {ok : Bool} {mgr : IOManager S F C}
    (hadd : s.addEvent a ok = .ok (mgr, 0)) :
    ({ s with mgr, pc := .yield, reg := some s.mgr.nextReg } : IoSys S F C T).Timely a := by
  have hcan := h.unset (.inr (.inr hpc))
  have hreg : mgr.nextReg = s.mgr.nextReg + 1 := IOManager.addEvent_nextReg hadd
  exact
    { fresh := fun r hr => by
        obtain rfl : s.mgr.nextReg = r := Option.some.inj hr
        exact (Nat.lt_succ_self _).trans_eq hreg.symm
      start := fun hpc => absurd hpc (by simp)
      owing := h.owing
      unset := fun hpc => absurd hpc (by simp)
      woken := fun _ hne => absurd hcan hne
      timed := fun _ => h.timed (.inl hpc) }

/-- Cancelling the timer, after the wait or instead of it. -/
theorem Timely.cancelTimer (h : s.Timely a) {pc : IoPc} (hstart : pc ≠ .entry ∧ pc ≠ .plain)
    (hunset : pc ≠ .call ∧ pc ≠ .arm) (hwait : pc ≠ .add ∧ pc ≠ .yield ∧ pc ≠ .parked) :
    ({ s.cancelTimer with pc } : IoSys S F C T).Timely a := by
  obtain ⟨timers, heq, htim⟩ := cancelTimer_eq s
  rw [heq]
  exact h.goto rfl htim rfl le_rfl ⟨hstart.1, fun hpc => absurd hpc hstart.2⟩
    (fun hpc => absurd hpc (not_or.mpr hunset)) hwait

/-- A callback calls `cancelEvent`: the event is not registered afterwards. -/
theorem Timely.cancelEvent (h : s.Timely a) {i : Nat} {ok b : Bool} {mgr : IOManager S F C}
    (ht : s.timers[i]? = some .owing)
    (hprompt : s.mgr.waiting a.ctx a.event = s.reg → ok = true ∧ (s.mgr.epoll a.fd).isSome = true)
    (hrun : s.mgr.cancelEvent a.fd a.ctx a.event ok = .ok (mgr, b)) :
    ({ s.setTimer i .over with mgr } : IoSys S F C T).Timely a := by
  have hset := h.owing (List.mem_of_getElem? ht)
  have hkeep : s.mgr.Keeps a.ctx a.event mgr :=
    IOManager.keeps_moves (IOManager.cancelEvent_moves (G := fun _ => True) hrun)
  have hgone : ∀ r, s.reg = some r → mgr.waiting a.ctx a.event ≠ some r := by
    intro r hr hw
    have hold := hkeep.2 r (h.fresh r hr) hw
    obtain ⟨rfl, hep⟩ := hprompt (hold.trans hr.symm)
    rw [IOManager.cancelEvent_waiting hold hep hrun] at hw
    exact absurd hw (by simp)
  have hnot : ¬ ({ s.setTimer i .over with mgr } : IoSys S F C T).Waits a := by
    rintro ⟨-, r, hr, hw⟩
    exact hgone r hr hw
  exact
    { fresh := fun r hr => (h.fresh r hr).trans_le hkeep.1
      start := fun hpc => absurd (h.start hpc).2 hset
      owing := fun _ => hset
      unset := h.unset
      woken := fun hw => absurd hw hnot
      timed := fun hw => by
        rcases hw with hpc | hw
        · exact absurd (h.unset (.inr (.inr hpc))) hset
        · exact absurd hw hnot }

/-- What is known of the timers is only of use to a call that has not returned. -/
theorem alive_of_waits (hw : s.pc = .add ∨ s.Waits a) : s.alive = true := by
  have hrun : s.pc.running = true := by
    rcases hw with hpc | ⟨hpc | hpc, -⟩ <;> rw [hpc] <;> rfl
  rw [alive, hrun, Bool.true_or]

/-- A callback that does not set the flag. -/
theorem Timely.callback (h : s.Timely a) {act : IoAct S F C T} {i : Nat} {t t' : CondTimer}
    (ht : s.timers[i]? = some t) (hcb : s.Callback act i t t') : (s.setTimer i t').Timely a := by
  cases hcb with
  | expire => exact h.setTimer ht (by simp) (by simp) fun _ => ⟨.taken, mem_set_self ht _, rfl⟩
  | lock =>
      refine h.setTimer ht (by simp) (by split <;> simp) fun hw => ?_
      rw [if_pos (alive_of_waits hw)]
      exact ⟨.locked, mem_set_self ht _, rfl⟩
  | check =>
      refine h.setTimer ht (by simp) (by split <;> simp) fun hw => ?_
      cases hcan : s.cancelled with
      | none => exact ⟨.passed, mem_set_self ht _, rfl⟩
      | some e =>
          -- the flag is set, so another callback is about to cancel the event
          rcases hw with hpc | hw
          · exact absurd (h.unset (.inr (.inr hpc))) (by simp [hcan])
          · have howing := h.woken hw (by simp [hcan])
            exact ⟨.owing, mem_set_of_ne ht howing (by simp), rfl⟩

/-- Every prompt step keeps the wait timely. -/
theorem Timely.step (h : s.Timely a) {act : IoAct S F C T} (hprompt : s.prompt a act)
    (hdoes : Does a s act s') : s'.Timely a := by
  cases hdoes with
  | enter hpc =>
      obtain ⟨pc, timeout, enteredOn, heq, hcases⟩ := enter_eq a s
      have hstart := h.start (.inl hpc)
      rw [heq]
      refine h.moveOn _ _ ⟨?_, fun _ => hstart⟩ (fun _ => hstart.2) ?_ <;>
        rcases hcases with ⟨-, rfl | rfl⟩ | ⟨rfl, -⟩ <;> simp
  | plain r hpc => exact h.moveOn s.timeout s.enteredOn (by simp) (by simp) (by simp)
  | call r hpc =>
      obtain ⟨pc, heq, hcases⟩ := callResult_eq a s r
      rw [hpc] at hcases
      rw [heq]
      refine h.moveOn s.timeout s.enteredOn ⟨?_, ?_⟩ (fun _ => h.unset (.inl hpc)) ?_ <;>
        rcases hcases with rfl | rfl | rfl <;> simp
  | arm hpc => exact h.arm hpc
  | added ok mgr hpc hadd => exact h.added hpc hadd
  | refused ok mgr rt hpc hadd =>
      have hkeep : s.mgr.Keeps a.ctx a.event mgr :=
        IOManager.keeps_moves (IOManager.addEvent_moves (G := fun _ => True) trivial hadd)
      exact h.goto rfl (fun _ ht _ => ht) rfl hkeep.1 (by simp) (by simp) (by simp)
  | yield hpc =>
      have hwaits : ({ s with pc := .parked } : IoSys S F C T).Waits a → s.Waits a :=
        fun hw => ⟨.inl hpc, hw.2⟩
      exact ⟨h.fresh, by simp, h.owing, by simp, fun hw => h.woken (hwaits hw),
        fun hw => h.timed (.inr (hwaits (hw.resolve_left (by simp))))⟩
  | resume hpc => exact h.moveOn s.timeout s.enteredOn (by simp) (by simp) (by simp)
  | disarm pc' hafter =>
      rcases hafter with ⟨-, rfl⟩ | ⟨-, -, rfl⟩ | ⟨-, -, rfl⟩ <;>
        exact h.cancelTimer (by simp) (by simp) (by simp)
  | test pc' hpc hafter =>
      rcases hafter with ⟨e, -, rfl⟩ | ⟨hcan, -, rfl⟩ | ⟨-, -, rfl⟩
      · exact h.moveOn s.timeout s.enteredOn (by simp) (by simp) (by simp)
      · exact h.moveOn s.timeout s.enteredOn (by simp) (fun _ => hcan) (by simp)
      · exact h.moveOn s.timeout s.enteredOn (by simp) (by simp) (by simp)
  | getsockopt r error pc' hpc hafter =>
      rcases hafter with ⟨-, rfl⟩ | ⟨-, -, rfl⟩ | ⟨-, e, -, rfl⟩ <;>
        exact h.moveOn s.timeout s.enteredOn (by simp) (by simp) (by simp)
  | callback ht hcb => exact h.callback ht hcb
  | set i ht =>
      obtain ⟨hcall, harm, hadd⟩ := hprompt
      have hmem : CondTimer.owing ∈ s.timers.set i .owing := mem_set_self ht _
      exact
        { fresh := h.fresh
          start := fun hpc => absurd (List.mem_of_getElem? ht) (by simp [(h.start hpc).1])
          owing := fun _ => by simp
          unset := fun hpc => absurd hpc (not_or.mpr ⟨hcall, not_or.mpr ⟨harm, hadd⟩⟩)
          woken := fun _ _ => hmem
          timed := fun _ _ => ⟨.owing, hmem, rfl⟩ }
  | cancelEvent i ok b mgr ht hrun => exact h.cancelEvent ht hprompt hrun
  | foreign kernel opened fds mgr reports others hforeign hmoves =>
      exact h.frame rfl rfl rfl rfl rfl (IOManager.keeps_moves hmoves)

/-- The call registers, parks, and is timed out. -/
def timedOut : List (IoAct Unit Unit Unit Unit) :=
  [.enter, .call ⟨-1, .EAGAIN⟩, .arm, .add true, .yield, .expire 0, .lock 0, .check 0, .set 0]

/-- The timer expires before the call has come to `addEvent`. -/
def expiredEarly : List (IoAct Unit Unit Unit Unit) :=
  [.enter, .call ⟨-1, .EAGAIN⟩, .arm, .expire 0, .lock 0, .check 0, .set 0, .cancelEvent 0 true,
    .add true, .yield]

end IoSys

end CoLib
